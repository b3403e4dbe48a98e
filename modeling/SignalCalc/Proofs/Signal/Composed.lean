import SignalCalc.Proofs.Signal.Built
import SignalCalc.Proofs.Signal.Exact

/-!
# Moving twice

Moving a sound rewrites three parameters only: where a line starts, the phase of a sine and the
size of a decay.  `Sound.untimed` is a sound without these, and moving does not change it, in
whatever arithmetic (`untimed_shift`).

The three parameters change by rules of their own: a line and a sine add, a decay multiplies by an
exponential.  In exact arithmetic each rule applied for `t₁` and then for `t₂` is the rule for
`t₁ + t₂`, and so is moving a whole sound (`shift_shift`).
-/

namespace SignalCalc.Signal

open SignalCalc.Builtin

/-! ## What moving leaves alone -/

section

variable {α : Type} [Scalar α]

mutual
/-- The sound without the parameters in which its time enters. -/
def Sound.untimed : Sound α → Sound α
  | .const v => .const v
  | .linear slope _ => .linear slope Scalar.zero
  | .sine frequency _ => .sine frequency Scalar.zero
  | .decay coefficient _ => .decay coefficient Scalar.zero
  | .noise seed => .noise seed
  | .minus s => .minus s.untimed
  | .reciprocal s => .reciprocal s.untimed
  | .binary op left right => .binary op left.untimed right.untimed
  | .apply f args => .apply f (untimedArguments args)

/-- The arguments of an applied function, the sounds among them without their time. -/
def untimedArguments : List (Argument α) → List (Argument α)
  | [] => []
  | .sound label s :: rest => .sound label s.untimed :: untimedArguments rest
  | .real label x :: rest => .real label x :: untimedArguments rest
  | .whole label n :: rest => .whole label n :: untimedArguments rest
end

/-- The argument without its time. -/
def Argument.untimed : Argument α → Argument α
  | .real label x => .real label x
  | .whole label n => .whole label n
  | .sound label s => .sound label s.untimed

lemma untimedArguments_eq_map (args : List (Argument α)) :
    untimedArguments args = args.map Argument.untimed := by
  induction args with
  | nil => rfl
  | cons a rest ih => cases a <;> simp [untimedArguments, Argument.untimed, ih]

/-- In any arithmetic a moved sound differs from the sound by its time only: its nodes and their
arrangement, the functions, the names, the order and the number of their arguments, the numbers
among these, seeds, constants, frequencies, slopes and coefficients stay. -/
theorem Sound.untimed_shift (s : Sound α) (t : α) : (s.shift t).untimed = s.untimed := by
  induction s with
  | const | linear | sine | decay | noise => rfl
  | minus s ih | reciprocal s ih => rw [shift, untimed, ih, untimed]
  | binary op left right ihl ihr => rw [shift, untimed, ihl, ihr, untimed]
  | apply f args ih =>
    rw [shift, untimed, untimed, shiftArguments_eq_map, untimedArguments_eq_map,
      untimedArguments_eq_map, List.map_map]
    congr 1
    refine List.map_congr_left fun a ha => ?_
    cases a with
    | real | whole => rfl
    | sound label s => exact congrArg (Argument.sound label) (ih label s ha)

end

/-! ## Moving in exact arithmetic -/

section

variable [FreeOperations]

/-- An argument moved twice is moved once, if the sound that it may be is. -/
lemma Argument.shift_shift {a : Argument ℝ} {t₁ t₂ : ℝ}
    (h : ∀ label s, a = .sound label s → (s.shift t₁).shift t₂ = s.shift (t₁ + t₂)) :
    (a.shift t₁).shift t₂ = a.shift (t₁ + t₂) := by
  cases a with
  | real | whole => rfl
  | sound label s => exact congrArg (Argument.sound label) (h label s rfl)

namespace Sound

/-- Moving by `t₁` and then by `t₂` is moving by `t₁ + t₂`. -/
lemma shift_shift (s : Sound ℝ) (t₁ t₂ : ℝ) : (s.shift t₁).shift t₂ = s.shift (t₁ + t₂) := by
  induction s with
  | const | noise => rfl
  | linear slope intercept =>
    simp only [shift, linear.injEq, true_and, Scalar.add_eq, Scalar.mul_eq]
    ring
  | sine frequency phase =>
    simp only [shift, sine.injEq, true_and, Scalar.add_eq, Scalar.mul_eq]
    ring
  | decay coefficient intercept =>
    simp only [shift, decay.injEq, true_and, Scalar.mul_eq, Scalar.exp_eq]
    rw [mul_add, Real.exp_add, mul_assoc]
  | minus s ih | reciprocal s ih => rw [shift, shift, ih, shift]
  | binary op left right ihl ihr => rw [shift, shift, ihl, ihr, shift]
  | apply f args ih =>
    rw [shift, shift, shift, shiftArguments_eq_map, shiftArguments_eq_map, shiftArguments_eq_map,
      List.map_map]
    congr 1
    refine List.map_congr_left fun a ha => Argument.shift_shift fun label s hs => ?_
    subst hs
    exact ih label s ha

/-- **Shifts compose.**  In exact arithmetic a sound moved by `t₁` and then by `t₂` is, node by
node, the sound moved by `t₁ + t₂`, and it is the sound itself in all but the starts of lines, the
phases of sines and the sizes of decays. -/
theorem shift_composes (s : Sound ℝ) (t₁ t₂ : ℝ) :
    (s.shift t₁).shift t₂ = s.shift (t₁ + t₂) ∧ (s.shift t₁).untimed = s.untimed :=
  ⟨s.shift_shift t₁ t₂, s.untimed_shift t₁⟩

/-- Moving by no time at all is no change. -/
lemma shift_zero (s : Sound ℝ) : s.shift 0 = s := by
  induction s with
  | const | noise => rfl
  | linear | sine | decay => simp [shift]
  | minus s ih | reciprocal s ih => rw [shift, ih]
  | binary op left right ihl ihr => rw [shift, ihl, ihr]
  | apply f args ih =>
    have hargs : ∀ a ∈ args, a.shift 0 = a := fun a ha => by
      cases a with
      | real | whole => rfl
      | sound label s => exact congrArg (Argument.sound label) (ih label s ha)
    rw [shift, shiftArguments_eq_map, List.map_congr_left hargs, List.map_id']

/-- In exact arithmetic a move can be taken back. -/
theorem shift_shift_neg (s : Sound ℝ) (t : ℝ) : (s.shift t).shift (-t) = s := by
  rw [shift_shift, add_neg_cancel, shift_zero]

end Sound

end

end SignalCalc.Signal
