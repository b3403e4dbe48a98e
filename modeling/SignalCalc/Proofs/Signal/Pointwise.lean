import Mathlib.Logic.Function.Iterate
import SignalCalc.Proofs.Signal.Arguments

/-!
# Samples without a state

`Sound.sampleAt rate n` is the sample `n` of a sound at a rate, by recursion on the sound alone.
Streams get the same number from a state that they change at every step: `Stream.sample n` is
what a stream gives after `n` steps.

The invariant that ties the two together is that a stream never mixes the states of its parts:
after `n` steps it is the stream of the same kind whose parts are `n` steps on
(`Stream.after_binary`, `Stream.after_apply` and the like).  So `Stream.sample` obeys the
equations of `Sound.sampleAt`.

The slots of an applied function are filled once, when its stream starts.  Binding does not look
at what an argument carries along, neither its stream nor its sample, so both are found in the
slots into which the arguments themselves are bound (`Signature.bind_of_related`).
-/

namespace SignalCalc.Signal

open SignalCalc.Builtin
open SignalCalc.Call
open List

variable {α : Type} [Scalar α]

/-! ## The meaning of a sound at a sample -/

/-- The number that an argument is, if it is the same one at every sample. -/
def Argument.constant? : Argument α → Option α
  | .real _ x => some x
  | .sound _ (.const x) => some x
  | _ => none

/-- What a parameter makes of an argument and its value at a sample. -/
def acceptValued (takesSignals : Bool) (kind : Kind) (p : Argument α × α) :
    Except Refusal (Argument α × α) :=
  (p.1.accept takesSignals kind).map fun a => (a, a.constant?.getD p.2)

/-- The values in the slots of an applied function at a sample, from its arguments and their
values; nothing if the arguments do not fit. -/
def Applied.slotValues? (f : Applied) (valued : List (Argument α × α)) : Option (List α) :=
  let positional := valued.filter (·.1.label.isNone)
  let named := valued.filterMap fun p => p.1.label.map fun name => (name, p)
  match (f.signature (Argument.real none Scalar.zero, Scalar.zero)).bind
      (acceptValued f.takesSignals) positional (lastWins named) with
  | .ok slots => some (slots.map (·.2))
  | .error _ => none

/-- The draw number `n` of a generator. -/
def Generator.drawAt (g : Generator) (n : ℕ) : ℕ := ((fun g => g.draw.2)^[n] g).draw.1

/-- The points of a sine at a rate: the first one, and the one that it is multiplied by at every
sample.  An angle that is not finite has no point. -/
def sinePoints (rate frequency phase : α) : Phasor α × Phasor α :=
  let angle := Scalar.mul Scalar.tau (Scalar.perSample frequency rate)
  if Scalar.isFinite phase && Scalar.isFinite angle then
    (Scalar.direction phase, Scalar.direction angle)
  else (⟨Scalar.undefined, Scalar.undefined⟩, ⟨Scalar.undefined, Scalar.undefined⟩)

mutual
/-- The sample `n` of a sound at a rate.  Noise without a seed has none of its own. -/
def Sound.sampleAt (rate : α) (n : ℕ) : Sound α → α
  | .const v => v
  | .linear slope intercept => (Scalar.add · (Scalar.perSample slope rate))^[n] intercept
  | .sine frequency phase =>
    ((Scalar.mulPhasor · (sinePoints rate frequency phase).2)^[n]
      (sinePoints rate frequency phase).1).im
  | .decay coefficient intercept =>
    (Scalar.mul · (Scalar.exp (Scalar.perSample coefficient rate)))^[n] intercept
  | .noise (some seed) => Scalar.ofDraw ((Generator.ofSeed seed).drawAt n)
  | .noise none => Scalar.undefined
  | .minus s => Scalar.neg (s.sampleAt rate n)
  | .reciprocal s => Scalar.div Scalar.one (s.sampleAt rate n)
  | .binary op left right => op.apply (left.sampleAt rate n) (right.sampleAt rate n)
  | .apply f args =>
    match f.slotValues? (argumentsAt rate n args) with
    | some values => Stream.applyTo f values
    | none => Scalar.undefined

/-- The arguments of an applied function, each with its value at sample `n`: reals keep theirs. -/
def argumentsAt (rate : α) (n : ℕ) : List (Argument α) → List (Argument α × α)
  | [] => []
  | .real label x :: rest => (.real label x, x) :: argumentsAt rate n rest
  | .whole label k :: rest =>
    (.whole label k, (Scalar.ofWhole? k).getD Scalar.undefined) :: argumentsAt rate n rest
  | .sound label s :: rest => (.sound label s, s.sampleAt rate n) :: argumentsAt rate n rest
end

/-- The value of an argument at sample `n`. -/
def Argument.valueAt (rate : α) (n : ℕ) : Argument α → α
  | .real _ x => x
  | .whole _ k => (Scalar.ofWhole? k).getD Scalar.undefined
  | .sound _ s => s.sampleAt rate n

lemma argumentsAt_eq_map (rate : α) (n : ℕ) (args : List (Argument α)) :
    argumentsAt rate n args = args.map fun a => (a, a.valueAt rate n) := by
  induction args with
  | nil => rfl
  | cons a rest ih => cases a <;> simp [argumentsAt, Argument.valueAt, ih]

/-- Values of arguments.  A number that is the same at every sample is worth itself. -/
def IsValuation (v : Argument α → α) : Prop := ∀ a x, a.constant? = some x → v a = x

lemma isValuation_valueAt (rate : α) (n : ℕ) : IsValuation (Argument.valueAt rate n) := by
  intro a x hx
  cases a with
  | real label y => exact Option.some.inj hx
  | whole label k => cases hx
  | sound label s =>
    cases s with
    | const y =>
      rw [Argument.valueAt, Sound.sampleAt]
      exact Option.some.inj hx
    | _ => cases hx

namespace IsValuation

variable {v : Argument α → α}

/-- A parameter that changes an argument turns it into a number that stays the same. -/
lemma getD_of_accept (hv : IsValuation v) {takesSignals : Bool} {kind : Kind} {a b : Argument α}
    (h : a.accept takesSignals kind = .ok b) : b.constant?.getD (v a) = v b := by
  have hconstant : ∀ c y, Argument.constant? c = some y → c.constant?.getD (v a) = v c :=
    fun c y hc => by rw [hc, Option.getD_some, hv c y hc]
  have hkept : a.constant?.getD (v a) = v a := by
    cases ha : a.constant? with
    | none => rfl
    | some y => rw [Option.getD_some, hv a y ha]
  unfold Argument.accept at h
  split at h
  case h_1 | h_2 | h_7 =>
    obtain rfl := Except.ok.inj h
    exact hkept
  case h_3 | h_6 =>
    split at h
    · obtain rfl := Except.ok.inj h
      exact hconstant _ _ rfl
    · cases h
  case h_4 =>
    split at h
    · obtain rfl := Except.ok.inj h
      exact hkept
    · cases h
  case h_5 =>
    obtain rfl := Except.ok.inj h
    exact hconstant _ _ rfl
  case h_8 => cases h

lemma acceptValued_leads (hv : IsValuation v) (takesSignals : Bool) (kind : Kind)
    {a : Argument α} {p : Argument α × α} (h : p = (a, v a)) :
    Leads (fun a p => p = (a, v a)) (a.accept takesSignals kind)
      (acceptValued takesSignals kind p) := by
  subst h
  intro b hb
  refine ⟨(b, v b), ?_, rfl⟩
  simp [acceptValued, hb, Except.map, hv.getD_of_accept hb]

/-- The values in the slots are the values of the arguments in the order of the parameters. -/
lemma slotValues?_eq (hv : IsValuation v) {f : Applied} {args slots : List (Argument α)}
    (h : f.bindArguments args = .ok slots) :
    f.slotValues? (args.map fun a => (a, v a)) = some (slots.map v) := by
  have hstart : ((.real none Scalar.zero, Scalar.zero) : Argument α × α) =
      (.real none Scalar.zero, v (.real none Scalar.zero)) := by rw [hv _ _ rfl]
  have hargs : Forall₂ (fun a p => p = (a, v a)) args (args.map fun a => (a, v a)) := by
    rw [forall₂_map_right_iff, forall₂_same]
    exact fun _ _ => rfl
  obtain ⟨valued, hvalued, hslots⟩ := f.bindArguments_leads Prod.fst (fun a p h => by rw [h])
    hstart (fun kind a p h => hv.acceptValued_leads f.takesSignals kind h) hargs slots h
  have hmap : valued.map (·.2) = slots.map v :=
    map_eq_of_forall₂ (hslots.imp fun _ _ hp => congrArg Prod.snd hp)
  simp only [Applied.slotValues?] at hvalued ⊢
  rw [hvalued]
  exact congrArg some hmap

end IsValuation

/-- An applied function has the value of the function at the values in its slots: a slot that a
sound went into holds the sample of that sound, and a slot that a real went into holds the real. -/
theorem sampleAt_apply {f : Applied} {args slots : List (Argument α)}
    (h : f.bindArguments args = .ok slots) (rate : α) (n : ℕ) :
    (Sound.apply f args).sampleAt rate n =
      Stream.applyTo f (slots.map (Argument.valueAt rate n)) := by
  rw [Sound.sampleAt, argumentsAt_eq_map, (isValuation_valueAt rate n).slotValues?_eq h]

end SignalCalc.Signal
