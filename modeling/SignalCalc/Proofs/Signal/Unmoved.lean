import SignalCalc.Proofs.Number.ZeroSign
import SignalCalc.Proofs.Signal.Applied
import SignalCalc.Proofs.Signal.Started

/-!
# Sounds that are moved by nothing

Moving by zero seconds rewrites the numbers of a sound like any other move: it adds `slope * 0` to
where a line starts and multiplies the size of a decay by `exp (coefficient * 0)`.  With floats this
is a change where the product is NaN, and it may take the sign from a zero.

`Sound.Rests` says of a sound that it does not come to this: slopes, coefficients and frequencies
are finite, or what they change is not a number anyway, and where the sign of a zero would be heard,
under a division, a power or a function of an angle, nothing starts at `-0.0`.  A sound that rests has
the same samples when it is moved by zero, but for signs of zeros (`sampleAt_shift_zero`).  A line or
a decay has the same samples only if it rests (`rests_linear_iff`, `rests_decay_iff`).
-/

namespace SignalCalc.Signal

open SignalCalc.Builtin
open SignalCalc.Call
open SignalCalc.Number
open List

/-! ## Slots and arguments -/

section

variable {α : Type} [Scalar α]

/-- A parameter keeps an argument or makes a number of it. -/
lemma Argument.accept_eq_ok {takesSignals : Bool} {kind : Kind} {a b : Argument α}
    (h : a.accept takesSignals kind = .ok b) :
    b = a ∨ (∃ label x, b = .real label x) ∨ ∃ label x, b = .sound label (.const x) := by
  unfold Argument.accept at h
  split at h
  case h_1 | h_2 | h_7 => exact .inl (Except.ok.inj h).symm
  case h_3 =>
    split at h
    · exact .inr (.inl ⟨_, _, (Except.ok.inj h).symm⟩)
    · cases h
  case h_4 =>
    split at h
    · exact .inl (Except.ok.inj h).symm
    · cases h
  case h_5 => exact .inr (.inr ⟨_, _, (Except.ok.inj h).symm⟩)
  case h_6 =>
    split at h
    · exact .inr (.inr ⟨_, _, (Except.ok.inj h).symm⟩)
    · cases h
  case h_8 => cases h

/-- What holds of numbers and of all arguments holds of what fills the slots. -/
lemma Applied.forall_slots {P : Argument α → Prop} {f : Applied} {args slots : List (Argument α)}
    (h : f.bindArguments args = .ok slots) (hreal : ∀ label x, P (.real label x))
    (hconst : ∀ label x, P (.sound label (.const x))) (hargs : ∀ a ∈ args, P a) :
    ∀ a ∈ slots, P a := by
  have haccept : ∀ kind (a b : Argument α), P a ∧ b = a →
      Leads (fun a b => P a ∧ b = a) (a.accept f.takesSignals kind)
        (b.accept f.takesSignals kind) := by
    rintro kind a _ ⟨ha, rfl⟩ b hb
    refine ⟨b, hb, ?_, rfl⟩
    rcases Argument.accept_eq_ok hb with rfl | ⟨label, x, rfl⟩ | ⟨label, x, rfl⟩
    · exact ha
    · exact hreal label x
    · exact hconst label x
  obtain ⟨slots', -, hslots⟩ := f.bindArguments_leads id (fun a b h => h.2)
    ⟨hreal none Scalar.zero, rfl⟩ haccept (forall₂_same.2 fun a ha => ⟨hargs a ha, rfl⟩) slots h
  exact ((forall₂_and_left _ _).1 hslots).1

namespace Sound

/-- The sounds in a moved sound are those of the sound, moved. -/
lemma nodes_shift (s : Sound α) (t : α) : (s.shift t).nodes = s.nodes.map (Sound.shift t) := by
  induction s with
  | const | linear | sine | decay | noise => rfl
  | minus s ih | reciprocal s ih =>
    rw [shift, nodes, nodes, ih, map_cons, shift]
  | binary op left right ihl ihr =>
    rw [shift, nodes, nodes, ihl, ihr, map_cons, map_append, shift]
  | apply f args ih =>
    have hargs : argumentNodes (shiftArguments t args) =
        (argumentNodes args).map (Sound.shift t) := by
      induction args with
      | nil => rfl
      | cons a rest ihrest =>
        have hrest := ihrest fun label s hs => ih label s (mem_cons_of_mem _ hs)
        cases a with
        | real | whole => simpa [shiftArguments, argumentNodes] using hrest
        | sound label s =>
          simp [shiftArguments, argumentNodes, hrest, ih label s mem_cons_self]
    rw [shift, nodes, nodes, hargs, map_cons, shift]

/-- Moving a sound leaves the seeds of its noise. -/
lemma Seeded.shift {s : Sound α} (h : s.Seeded) (t : α) : (s.shift t).Seeded := by
  intro u hu
  rw [nodes_shift] at hu
  obtain ⟨u, hmem, rfl⟩ := mem_map.1 hu
  have hseed := h u hmem
  cases u with
  | noise seed => exact hseed
  | _ => nofun

lemma IsBuilt.binds {s : Sound α} (h : s.IsBuilt) : s.Binds := fun u hu f args heq => by
  obtain ⟨g, slots, -, hslots, -⟩ := h u hu f args heq
  exact ⟨slots, hslots⟩

end Sound

end

/-! ## What is heard -/

/-- The same number where signs of zeros are heard, and the same but for the sign of a zero where
they are not. -/
def Near : Bool → Float → Float → Prop
  | true, x, y => x = y
  | false, x, y => ZeroAlike x y

namespace Near

variable {strict : Bool} {x y x' y' : Float}

lemma of_eq (h : x = y) : Near strict x y := by
  cases strict with
  | true => exact h
  | false => exact .inl h

lemma zeroAlike (h : Near strict x y) : ZeroAlike x y := by
  cases strict with
  | true => exact .inl h
  | false => exact h

/-- A function that keeps floats alike but for signs of zeros keeps near floats near. -/
lemma map {f : Float → Float} (hf : ∀ {x y}, ZeroAlike x y → ZeroAlike (f x) (f y))
    (h : Near strict x y) : Near strict (f x) (f y) := by
  cases strict with
  | true => exact congrArg f h
  | false => exact hf h

/-- The operands of an operator are as near as it needs them: a power looks at the sign of a zero
base, a quotient at that of a zero divisor. -/
lemma operator {op : Operator} (hx : Near (strict || op == .pow) x x')
    (hy : Near (strict || op == .div) y y') : Near strict (op.apply x y) (op.apply x' y') := by
  cases strict with
  | true => exact congrArg₂ op.apply hx hy
  | false =>
    cases op with
    | add => exact (ZeroAlike.add_left hx y).trans (ZeroAlike.add_right hy x')
    | sub => exact (ZeroAlike.sub_left hx y).trans (ZeroAlike.sub_right hy x')
    | mul => exact (ZeroAlike.mul_left hx y).trans (ZeroAlike.mul_right hy x')
    | div =>
      obtain rfl : y = y' := hy
      exact ZeroAlike.quotient_left hx y
    | pow =>
      obtain rfl : x = x' := hx
      exact .inl (ZeroAlike.power_right hy x)

end Near

/-- An applied function may tell the sign of a zero among its arguments. -/
def Applied.tellsZeros : Applied → Bool
  | .real f => f.isCircular
  | _ => true

lemma Near.applyTo {strict : Bool} {f : Applied} {xs ys : List Float}
    (h : Forall₂ (Near (strict || f.tellsZeros)) xs ys) :
    Near strict (Stream.applyTo f xs) (Stream.applyTo f ys) := by
  cases hexact : strict || f.tellsZeros with
  | true =>
    rw [hexact] at h
    have heq : xs = ys := forall₂_eq_eq_eq ▸ h
    exact of_eq (congrArg _ heq)
  | false =>
    rw [hexact] at h
    obtain ⟨rfl, htells⟩ := Bool.or_eq_false_iff.1 hexact
    cases f with
    | real g => exact ZeroAlike.apply htells h
    | constructor | defined => cases htells

/-! ## Sounds at rest -/

mutual
/-- Moving by zero does not change the samples; `strict` tells that the signs of zeros among them
are heard. -/
def Sound.Rests : (strict : Bool) → Sound Float → Prop
  | _, .const _ | _, .noise _ => True
  | strict, .linear slope intercept =>
    intercept.isNaN = true ∨ slope.isFinite = true ∧ (strict = true → intercept ≠ -0.0)
  | strict, .sine frequency phase =>
    phase.isFinite = false ∨ frequency.isFinite = false ∨
      (Scalar.tau * frequency).isFinite = true ∧ (strict = true → phase ≠ -0.0)
  | _, .decay coefficient intercept => intercept.isNaN = true ∨ coefficient.isFinite = true
  | strict, .minus s => s.Rests strict
  | _, .reciprocal s => s.Rests true
  | strict, .binary op left right =>
    left.Rests (strict || op == .pow) ∧ right.Rests (strict || op == .div)
  | strict, .apply f args => argumentsRest (strict || f.tellsZeros) args

/-- The sounds among the arguments rest. -/
def argumentsRest : (strict : Bool) → List (Argument Float) → Prop
  | _, [] => True
  | strict, .sound _ s :: rest => s.Rests strict ∧ argumentsRest strict rest
  | strict, .real _ _ :: rest | strict, .whole _ _ :: rest => argumentsRest strict rest
end

lemma argumentsRest_iff {strict : Bool} {args : List (Argument Float)} :
    argumentsRest strict args ↔ ∀ label s, Argument.sound label s ∈ args → s.Rests strict := by
  induction args with
  | nil => simp [argumentsRest]
  | cons a rest ih =>
    cases a with
    | real | whole => simp [argumentsRest, ih]
    | sound label s =>
      simp only [argumentsRest, ih, mem_cons, Argument.sound.injEq]
      constructor
      · rintro ⟨hs, hrest⟩ label' s' (⟨-, rfl⟩ | hs')
        · exact hs
        · exact hrest label' s' hs'
      · exact fun h => ⟨h label s (.inl ⟨rfl, rfl⟩), fun label' s' hs' => h label' s' (.inr hs')⟩

mutual
/-- Whether a sound rests can be read off it. -/
def Sound.decidableRests : (strict : Bool) → (s : Sound Float) → Decidable (s.Rests strict)
  | _, .const _ | _, .noise _ => isTrue trivial
  | strict, .linear slope intercept =>
    inferInstanceAs (Decidable (intercept.isNaN = true ∨
      slope.isFinite = true ∧ (strict = true → intercept ≠ -0.0)))
  | strict, .sine frequency phase =>
    inferInstanceAs (Decidable (phase.isFinite = false ∨ frequency.isFinite = false ∨
      (Scalar.tau * frequency).isFinite = true ∧ (strict = true → phase ≠ -0.0)))
  | _, .decay coefficient intercept =>
    inferInstanceAs (Decidable (intercept.isNaN = true ∨ coefficient.isFinite = true))
  | strict, .minus s => s.decidableRests strict
  | _, .reciprocal s => s.decidableRests true
  | strict, .binary op left right =>
    @instDecidableAnd _ _ (left.decidableRests (strict || op == .pow))
      (right.decidableRests (strict || op == .div))
  | strict, .apply f args => decidableArgumentsRest (strict || f.tellsZeros) args

/-- Whether the sounds among the arguments rest can be read off them. -/
def decidableArgumentsRest :
    (strict : Bool) → (args : List (Argument Float)) → Decidable (argumentsRest strict args)
  | _, [] => isTrue trivial
  | strict, .sound _ s :: rest =>
    @instDecidableAnd _ _ (s.decidableRests strict) (decidableArgumentsRest strict rest)
  | strict, .real _ _ :: rest | strict, .whole _ _ :: rest => decidableArgumentsRest strict rest
end

instance (strict : Bool) (s : Sound Float) : Decidable (s.Rests strict) := s.decidableRests strict

instance (s : Sound Float) : Decidable s.Seeded :=
  haveI : DecidablePred (· ≠ (Sound.noise none : Sound Float)) := fun t =>
    match t with
    | .noise none => isFalse fun h => h rfl
    | .noise (some _) => isTrue nofun
    | .const _ | .linear _ _ | .sine _ _ | .decay _ _ | .minus _ | .reciprocal _
    | .binary _ _ _ | .apply _ _ => isTrue nofun
  List.decidableBAll _ s.nodes

/-! ## Leaves -/

section

variable {t : Float} {strict : Bool} {rate : Float} {n : ℕ}

lemma Near.line {b b' : Float} (h : Near strict b' b) (change : Float) (n : ℕ) :
    Near strict ((Scalar.add · change)^[n] b') ((Scalar.add · change)^[n] b) := by
  induction n generalizing b b' with
  | zero => exact h
  | succ n ih => exact ih (h.map fun hxy => hxy.add_left change)

/-- Points whose coordinates are near. -/
def NearPoint (strict : Bool) (p q : Phasor Float) : Prop :=
  Near strict p.re q.re ∧ Near strict p.im q.im

lemma NearPoint.of_eq {p q : Phasor Float} (h : p = q) : NearPoint strict p q :=
  ⟨Near.of_eq (congrArg _ h), Near.of_eq (congrArg _ h)⟩

lemma NearPoint.mulPhasor {p q : Phasor Float} (h : NearPoint strict p q) (r : Phasor Float) :
    NearPoint strict (Scalar.mulPhasor p r) (Scalar.mulPhasor q r) := by
  obtain ⟨hre, him⟩ := h
  cases strict with
  | true =>
    obtain ⟨re, im⟩ := p
    obtain rfl : re = q.re := hre
    obtain rfl : im = q.im := him
    exact .of_eq rfl
  | false =>
    have hre : ZeroAlike p.re q.re := hre
    have him : ZeroAlike p.im q.im := him
    exact ⟨((hre.mul_left r.re).sub_left _).trans ((him.mul_left r.im).sub_right _),
      ((hre.mul_left r.im).add_left _).trans ((him.mul_left r.re).add_right _)⟩

lemma NearPoint.iterate {p q : Phasor Float} (h : NearPoint strict p q) (r : Phasor Float)
    (n : ℕ) : NearPoint strict ((Scalar.mulPhasor · r)^[n] p) ((Scalar.mulPhasor · r)^[n] q) := by
  induction n generalizing p q with
  | zero => exact h
  | succ n ih => exact ih (h.mulPhasor r)

lemma Near.direction {x y : Float} (h : Near strict x y) :
    NearPoint strict (Scalar.direction x) (Scalar.direction y) := by
  cases strict with
  | true => exact NearPoint.of_eq (congrArg _ h)
  | false =>
    rcases h with rfl | ⟨hx, hy⟩
    · exact NearPoint.of_eq rfl
    · have hzero : ∀ z : Float, (z == 0.0) = true → Scalar.direction z = ⟨1.0, z⟩ := fun z hz => by
        show (if z == 0.0 then (⟨1.0, z⟩ : Phasor Float) else _) = _
        rw [hz]
        rfl
      rw [hzero x hx, hzero y hy]
      exact ⟨ZeroAlike.refl _, .inr ⟨hx, hy⟩⟩

/-- A number that a zero is added to. -/
lemma Near.add_zero {b z : Float} (hb : strict = true → b ≠ -0.0) (hz : (z == 0.0) = true) :
    Near strict (b + z) b := by
  cases strict with
  | true => exact add_zero_eq (hb rfl) hz
  | false => exact add_zero_alike b hz

/-- A phase or an angle that is not finite has no point. -/
lemma sinePoints_of_not_isFinite {frequency phase : Float}
    (h : phase.isFinite = false ∨ ((Scalar.tau : Float) * (quotient frequency rate)).isFinite = false) :
    sinePoints rate frequency phase = (⟨nan, nan⟩, ⟨nan, nan⟩) := by
  have hcondition :
      (phase.isFinite && ((Scalar.tau : Float) * (quotient frequency rate)).isFinite) = false := by
    rcases h with h | h <;> simp only [h, Bool.false_and, Bool.and_false]
  unfold sinePoints
  exact if_neg (Bool.eq_false_iff.1 hcondition)

/-- Sines whose phases are near have near points. -/
lemma nearPoint_sinePoints (rate frequency : Float) {phase phase' : Float}
    (h : Near strict phase' phase) :
    NearPoint strict (sinePoints rate frequency phase').1 (sinePoints rate frequency phase).1 ∧
      (sinePoints rate frequency phase').2 = (sinePoints rate frequency phase).2 := by
  have hfinite : phase'.isFinite = phase.isFinite := h.zeroAlike.isFinite_eq
  cases hphase : phase.isFinite && ((Scalar.tau : Float) * (quotient frequency rate)).isFinite with
  | true =>
    have hphase' : phase'.isFinite && ((Scalar.tau : Float) * (quotient frequency rate)).isFinite := by
      rwa [hfinite]
    have hpoints : sinePoints rate frequency phase = (Scalar.direction phase, _) := if_pos hphase
    have hpoints' : sinePoints rate frequency phase' = (Scalar.direction phase', _) :=
      if_pos hphase'
    rw [hpoints, hpoints']
    exact ⟨h.direction, rfl⟩
  | false =>
    have hphase' : (phase'.isFinite && ((Scalar.tau : Float) * (quotient frequency rate)).isFinite) =
        false := by rwa [hfinite]
    rw [sinePoints_of_not_isFinite (Bool.and_eq_false_iff.1 hphase),
      sinePoints_of_not_isFinite (Bool.and_eq_false_iff.1 hphase')]
    exact ⟨.of_eq rfl, rfl⟩

/-! ### Leaves that are moved by zero -/

variable (ht : (t == 0.0) = true)

include ht

lemma near_linear {slope intercept : Float}
    (h : (Sound.linear slope intercept).Rests strict) :
    Near strict (((Sound.linear slope intercept).shift t).sampleAt rate n)
      ((Sound.linear slope intercept).sampleAt rate n) := by
  rw [Sound.Rests] at h
  rw [Sound.shift, Sound.sampleAt, Sound.sampleAt]
  refine Near.line ?_ _ n
  rcases h with hnan | ⟨hslope, hzero⟩
  · rw [eq_nan hnan]
    exact Near.of_eq (nan_add _)
  · exact Near.add_zero hzero (mul_zero_of_isFinite hslope ht)

lemma near_sine {frequency phase : Float} (h : (Sound.sine frequency phase).Rests strict) :
    Near strict (((Sound.sine frequency phase).shift t).sampleAt rate n)
      ((Sound.sine frequency phase).sampleAt rate n) := by
  rw [Sound.Rests] at h
  rw [Sound.shift, Sound.sampleAt, Sound.sampleAt]
  generalize hmoved : Scalar.add phase (Scalar.mul (Scalar.mul Scalar.tau frequency) t) = phase'
  have hphase' : phase' = phase + Scalar.tau * frequency * t := hmoved.symm
  rcases h with hphase | hfrequency | ⟨hangle, hzero⟩
  · have hfinite : phase'.isFinite = false := hphase' ▸ add_not_isFinite hphase _
    rw [sinePoints_of_not_isFinite (.inl hphase), sinePoints_of_not_isFinite (.inl hfinite)]
    exact Near.of_eq rfl
  · have htau : IsOrdinary (Scalar.tau : Float) := isOrdinary_of_isFinite rfl (by decide)
    have hquotient : (quotient frequency rate).isFinite = false := by
      rw [quotient_eq]
      exact div_not_isFinite hfrequency rate
    have hangle := htau.mul_not_isFinite hquotient
    rw [sinePoints_of_not_isFinite (.inr hangle), sinePoints_of_not_isFinite (.inr hangle)]
    exact Near.of_eq rfl
  · have hnear : Near strict phase' phase :=
      hphase' ▸ Near.add_zero hzero (mul_zero_of_isFinite hangle ht)
    obtain ⟨hfirst, hsecond⟩ := nearPoint_sinePoints rate frequency hnear
    rw [hsecond]
    exact (hfirst.iterate _ n).2

lemma sampleAt_decay {coefficient intercept : Float}
    (h : (Sound.decay coefficient intercept).Rests strict) :
    ((Sound.decay coefficient intercept).shift t).sampleAt rate n =
      (Sound.decay coefficient intercept).sampleAt rate n := by
  rw [Sound.Rests] at h
  have hkept : intercept * exponential (coefficient * t) = intercept := by
    rcases h with hnan | hfinite
    · rw [eq_nan hnan]
      exact nan_mul _
    · rw [exponential_zero (mul_zero_of_isFinite hfinite ht), mul_one_eq]
  rw [Sound.shift]
  show (Sound.decay coefficient (intercept * exponential (coefficient * t))).sampleAt rate n = _
  rw [hkept]

end

/-! ## Whole sounds -/

namespace Sound

variable {t : Float}

/-- A sound at rest has the same samples when it is moved by zero, but for signs of zeros that are
not heard. -/
theorem sampleAt_shift_zero {s : Sound Float} (hbinds : s.Binds) {strict : Bool}
    (hrests : s.Rests strict) (ht : (t == 0.0) = true) (rate : Float) (n : ℕ) :
    Near strict ((s.shift t).sampleAt rate n) (s.sampleAt rate n) := by
  unfold Binds at hbinds
  induction s generalizing strict with
  | const | noise => exact Near.of_eq rfl
  | linear slope intercept => exact near_linear ht hrests
  | sine frequency phase => exact near_sine ht hrests
  | decay coefficient intercept => exact Near.of_eq (sampleAt_decay ht hrests)
  | minus s ih =>
    rw [Rests] at hrests
    rw [shift, sampleAt, sampleAt]
    exact (ih (everywhere_minus.1 hbinds).2 hrests).map ZeroAlike.neg
  | reciprocal s ih =>
    rw [Rests] at hrests
    have hsame : (s.shift t).sampleAt rate n = s.sampleAt rate n :=
      ih (everywhere_reciprocal.1 hbinds).2 hrests
    rw [shift, sampleAt, sampleAt, hsame]
    exact Near.of_eq rfl
  | binary op left right ihl ihr =>
    obtain ⟨-, hleft, hright⟩ := everywhere_binary.1 hbinds
    rw [Rests] at hrests
    rw [shift, sampleAt, sampleAt]
    exact Near.operator (ihl hleft hrests.1) (ihr hright hrests.2)
  | apply f args ih =>
    obtain ⟨hfits, hargs⟩ := everywhere_apply.1 hbinds
    obtain ⟨slots, hslots⟩ := hfits f args rfl
    rw [Rests, argumentsRest_iff] at hrests
    have hnear : ∀ a ∈ slots, Near (strict || f.tellsZeros) ((a.shift t).valueAt rate n)
        (a.valueAt rate n) := by
      refine Applied.forall_slots hslots (fun _ _ => .of_eq rfl) (fun _ _ => .of_eq rfl) ?_
      intro a ha
      cases a with
      | real | whole => exact .of_eq rfl
      | sound label s => exact ih label s ha (hargs label s ha) (hrests label s ha)
    rw [shift, sampleAt_apply hslots, sampleAt_apply (Applied.bindArguments_shift_eq hslots t),
      map_map]
    refine Near.applyTo ?_
    rw [forall₂_map_left_iff, forall₂_map_right_iff, forall₂_same]
    exact hnear

/-! ## Leaves that do not rest -/

lemma eq_of_zeroAlike_nan {x : Float} (h : ZeroAlike nan x) : x = nan := by
  rcases h with h | ⟨hnan, -⟩
  · exact h.symm
  · cases hnan

/-- A line is the same at all samples when it is moved by zero, if and only if it rests. -/
theorem rests_linear_iff (ht : (t == 0.0) = true) {slope intercept : Float} :
    (linear slope intercept).Rests false ↔ ∀ rate n,
      ZeroAlike (((linear slope intercept).shift t).sampleAt rate n)
        ((linear slope intercept).sampleAt rate n) := by
  refine ⟨fun h rate n => (near_linear ht h : Near false _ _), fun h => ?_⟩
  have hfirst : ZeroAlike (intercept + slope * t) intercept := h 0.0 0
  rw [Rests]
  by_cases hslope : slope.isFinite = true
  · exact .inr ⟨hslope, nofun⟩
  · rw [mul_zero_of_not_isFinite (Bool.eq_false_iff.2 hslope) ht, add_nan] at hfirst
    rw [eq_of_zeroAlike_nan hfirst]
    exact .inl rfl

/-- A decay is the same at all samples when it is moved by zero, if and only if it rests. -/
theorem rests_decay_iff (ht : (t == 0.0) = true) {coefficient intercept : Float} :
    (decay coefficient intercept).Rests false ↔ ∀ rate n,
      ZeroAlike (((decay coefficient intercept).shift t).sampleAt rate n)
        ((decay coefficient intercept).sampleAt rate n) := by
  refine ⟨fun h rate n => .inl (sampleAt_decay ht h), fun h => ?_⟩
  have hfirst : ZeroAlike (intercept * exponential (coefficient * t)) intercept := h 0.0 0
  rw [Rests]
  by_cases hfinite : coefficient.isFinite = true
  · exact .inr hfinite
  · have hexp : exponential nan = nan := rfl
    rw [mul_zero_of_not_isFinite (Bool.eq_false_iff.2 hfinite) ht, hexp, mul_nan] at hfirst
    rw [eq_of_zeroAlike_nan hfirst]
    exact .inl rfl

end Sound

end SignalCalc.Signal
