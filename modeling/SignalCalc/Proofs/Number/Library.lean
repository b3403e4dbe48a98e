import SignalCalc.Builtin.RealFunction
import SignalCalc.Proofs.Number.Kinds

/-!
# What the float library refuses

`quotient`, `power` and the real functions catch the errors of the float library, and nothing is lost by
that.  The quotients that the library refuses are the infinities and NaN of float division, so
`quotient` is float division (`quotient_eq`).  A refused power is given as an infinity
(`isInf_power_of_error`), and all powers are those of the size of the base with a sign, except for those
of a negative base with a fractional exponent (`power_eq`).  A real function that is refused an argument
gives NaN (`unary_of_error`).
-/

namespace SignalCalc.Number

open Float.Model
open SignalCalc.Builtin

variable {x y : Float}

/-! ## Quotients -/

/-- The quotient by a zero has the sign of both. -/
lemma IsOrdinary.div_zero (hx : IsOrdinary x) (hy : (y == 0.0) = true) :
    x / y = copySign infinity x * copySign 1.0 y := by
  obtain ⟨s, m, e, hm, h⟩ := hx
  have hsign : isNegative x = (s == .negative) := by rw [isNegative, h]
  have hquotient : x / y = .ofModel (pack (UnpackedFloat.div .binary64 x.toModel.unpack
      y.toModel.unpack)) := rfl
  rw [hquotient, copySign, hsign, h]
  rcases zero_or_negZero hy with rfl | rfl <;> cases s <;> rfl

/-- **Division is that of floats.**  In place of the quotients by zero that the library refuses there are
the infinities and NaN of float division. -/
theorem quotient_eq (x y : Float) : quotient x y = x / y := by
  unfold quotient quotient?
  by_cases hy : (y == 0.0) = true
  · rw [if_pos hy]
    rcases kinds x with rfl | rfl | rfl | rfl | rfl | hx
    iterate 5 rcases zero_or_negZero hy with rfl | rfl <;> rfl
    have hspecial : (x == 0.0 || x.isNaN) = false := by rw [hx.beq_zero, hx.isNaN]; rfl
    dsimp only
    rw [hspecial, hx.div_zero hy]
    rfl
  · rw [if_neg hy]

/-! ## Powers -/

lemma isOddWhole_of_not_isWhole (h : isWhole y = false) : isOddWhole y = false := by
  unfold isWhole at h
  unfold isOddWhole
  cases hd : Dyadic.ofFloat? y with
  | none => rfl
  | some d =>
    rw [hd] at h
    have hwhole : d.isWhole = false := h
    rw [Option.any_some, hwhole, Bool.false_and]

lemma eq_infinity_of_beq (h : (x == infinity) = true) : x = infinity := by
  rcases eq_or_zeros h with h | ⟨-, h⟩
  · exact h
  · cases h

/-- A refused power is an infinity. -/
theorem isInf_power_of_error {e : PowerError} (h : power? x y = .error e) :
    (power x y).isInf = true := by
  rw [power, h]
  cases e with
  | zeroDivision =>
    show (if isOddWhole y then copySign infinity x else infinity).isInf = true
    rw [copySign]
    split
    · split <;> rfl
    · rfl
  | overflow =>
    show (if x < 0.0 && isOddWhole y then -infinity else infinity).isInf = true
    split <;> rfl

/-- The size of a zero is a zero. -/
lemma abs_beq_zero (hx : (x == 0.0) = true) : (x.abs == 0.0) = true := by
  rcases zero_or_negZero hx with rfl | rfl <;> rfl

/-- The size of the power of a zero with a negative exponent is infinite. -/
lemma powerOfSize_zero (hx : (x == 0.0) = true) (hy : y < 0.0) : powerOfSize x.abs y = infinity := by
  rw [powerOfSize, if_pos (abs_beq_zero hx), if_pos hy]

/-- The infinity for a refused power of a zero has the sign of the zero, if the exponent is odd. -/
lemma zeroDivision_eq (hx : (x == 0.0) = true) (odd : Bool) :
    (if odd then copySign infinity x else infinity) =
      if isNegative x && odd then -infinity else infinity := by
  rcases zero_or_negZero hx with rfl | rfl <;> cases odd <;> rfl

/-- A base whose power overflows is no zero, so its sign is told by the order. -/
lemma isNegative_of_overflow (hfinite : x.isFinite = true) (hzero : ¬((x == 0.0) = true ∧ y < 0.0))
    (hsize : powerOfSize x.abs y = infinity) : isNegative x = decide (x < 0.0) := by
  by_cases hx : (x == 0.0) = true
  · rw [powerOfSize, if_pos (abs_beq_zero hx), if_neg fun hy => hzero ⟨hx, hy⟩] at hsize
    exact absurd hsize (by decide)
  · obtain ⟨hneg, -, hsign⟩ | ⟨-, hneg, hsign⟩ := (isOrdinary_of_isFinite hfinite hx).neg_or_pos
    · rw [hsign, decide_eq_true hneg]
    · rw [hsign, decide_eq_false hneg]

/-- **Powers by the size of the base.**  A negative base gives a negative power for odd exponents.  A
finite one has no real power with a finite exponent that is not whole, and then it is NaN that is given,
unless the power of the size is beyond all floats. -/
theorem power_eq (x y : Float) : power x y =
    if y == 0.0 || x == 1.0 then 1.0
    else if x.isNaN || y.isNaN then nan
    else if x < 0.0 && x.isFinite && y.isFinite && !isWhole y then
      if (powerOfSize x.abs y).isInf then infinity else nan
    else if isNegative x && isOddWhole y then -powerOfSize x.abs y
    else powerOfSize x.abs y := by
  unfold power power?
  by_cases hone : (y == 0.0 || x == 1.0) = true
  · rw [if_pos hone, if_pos hone]
  rw [if_neg hone, if_neg hone]
  by_cases hnan : (x.isNaN || y.isNaN) = true
  · rw [if_pos hnan, if_pos hnan]
  rw [if_neg hnan, if_neg hnan]
  by_cases hdivision : (x == 0.0 && decide (y < 0.0)) = true
  · obtain ⟨hx, hy⟩ := Bool.and_eq_true_iff.1 hdivision
    have hneg : decide (x < 0.0) = false := by rcases zero_or_negZero hx with rfl | rfl <;> rfl
    rw [if_pos hdivision, powerOfSize_zero hx (of_decide_eq_true hy), hneg]
    exact zeroDivision_eq hx _
  rw [if_neg hdivision]
  dsimp only
  by_cases hunreal : (decide (x < 0.0) && x.isFinite && y.isFinite && !isWhole y) = true
  · rw [if_pos hunreal, if_pos hunreal]
    have hodd := isOddWhole_of_not_isWhole (Bool.not_eq_true' _ ▸ (Bool.and_eq_true_iff.1 hunreal).2)
    rw [hodd, Bool.and_false]
    cases (powerOfSize x.abs y).isInf <;> rfl
  rw [if_neg hunreal, if_neg hunreal]
  by_cases hover : (powerOfSize x.abs y == infinity && x.isFinite && y.isFinite) = true
  · obtain ⟨hleft, -⟩ := Bool.and_eq_true_iff.1 hover
    obtain ⟨hbeq, hfinite⟩ := Bool.and_eq_true_iff.1 hleft
    have hsize := eq_infinity_of_beq hbeq
    have hzero : ¬((x == 0.0) = true ∧ y < 0.0) := fun h =>
      hdivision (Bool.and_eq_true_iff.2 ⟨h.1, decide_eq_true h.2⟩)
    rw [if_pos hover, isNegative_of_overflow hfinite hzero hsize, hsize]
  · rw [if_neg hover]
    cases isNegative x && isOddWhole y <;> rfl

end SignalCalc.Number

namespace SignalCalc.Builtin.RealFunction

open SignalCalc.Number

variable {f : RealFunction} {x : Float} {e : FunctionError}

lemma eq_domain_of_call? {g : Float → Float} (h : call? g x = .error e) : e = .domain := by
  unfold call? at h
  dsimp only at h
  split at h
  · exact (Except.error.inj h).symm
  · split at h
    · exact (Except.error.inj h).symm
    · cases h

/-- The real functions are refused arguments outside their domain, and nothing else. -/
lemma eq_domain_of_unary? (h : f.unary? x = .error e) : e = .domain := by
  cases f with
  | sin | cos | tan | sqrt => exact eq_domain_of_call? h
  | ln =>
    rw [unary?] at h
    split at h
    · cases h
    · exact eq_domain_of_call? h
  | exp | abs | floor | max | min => cases h

/-- A refused argument gives NaN. -/
theorem unary_of_error (h : f.unary? x = .error e) : f.unary x = nan := by
  rw [unary, h, eq_domain_of_unary? h]
  rfl

end SignalCalc.Builtin.RealFunction
