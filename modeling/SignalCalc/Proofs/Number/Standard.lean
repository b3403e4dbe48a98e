import SignalCalc.Evaluation.Evaluator
import SignalCalc.Proofs.Number.Library
import SignalCalc.Proofs.Signal.Streaming

/-!
# Powers by the standard

IEEE 754 fixes the power of any two floats.  `StandardPower` has its rules: for NaN, for a zero or an
infinity on either side, for a base that is one, and for a negative base, whose power is that of its
size with a sign, if the exponent is a whole number, and NaN if it is not.  What remains is an ordinary
positive base with an ordinary exponent.  There the power is a real number to be rounded, which is left
to the float library (`positivePower`).

The rules give every pair of floats one power (`StandardPower.exists_power`, `StandardPower.eq_power`),
and it is the one that is computed, with one exception (`power_standard`): where a negative base has an
exponent that is no whole number, so that no real power exists, but the power of its size is beyond
all floats, infinity is given instead of NaN.

The comparison goes by the kinds of floats.  For each kind of base there is a lemma that says what
`power` is, and the rules are read off them.
-/

namespace SignalCalc.Number

open SignalCalc.Signal

variable {x y r : Float}

/-! ## The rules -/

/-- The power of an ordinary positive base with an ordinary exponent: that of the float library, but
infinity where the power is beyond all floats in any case. -/
def positivePower (x y : Float) : Float :=
  if x ≥ 2.0 && y ≥ 1024.0 then infinity else Float.pow x y

/-- The power of two numbers by the standard. -/
inductive StandardPower : Float → Float → Float → Prop
  -- Two numbers that settle the power whatever the other one is, NaN included.
  | exponentZero {x y : Float} (hy : (y == 0.0) = true) : StandardPower x y 1.0
  | baseOne {y : Float} : StandardPower 1.0 y 1.0
  | baseNan {y : Float} (hy : ¬(y == 0.0) = true) : StandardPower nan y nan
  | exponentNan {x : Float} (hx : x ≠ 1.0) : StandardPower x nan nan
  -- A zero keeps its sign for odd exponents.
  | zeroOddNegative {y : Float} (hodd : IsOddInteger y) (hneg : y < 0.0) :
    StandardPower 0.0 y infinity
  | negZeroOddNegative {y : Float} (hodd : IsOddInteger y) (hneg : y < 0.0) :
    StandardPower (-0.0) y (-infinity)
  | zeroNegative {x y : Float} (hx : (x == 0.0) = true) (hodd : ¬IsOddInteger y)
    (hneg : y < 0.0) : StandardPower x y infinity
  | zeroOddPositive {x y : Float} (hx : (x == 0.0) = true) (hodd : IsOddInteger y)
    (hpos : 0.0 < y) : StandardPower x y x
  | zeroPositive {x y : Float} (hx : (x == 0.0) = true) (hodd : ¬IsOddInteger y)
    (hpos : 0.0 < y) : StandardPower x y 0.0
  -- An infinite exponent looks at the size of the base.
  | minusOneInfinite {y : Float} (hy : y.isInf = true) : StandardPower (-1.0) y 1.0
  | smallInfinity {x : Float} (hx : x.abs < 1.0) : StandardPower x infinity 0.0
  | largeInfinity {x : Float} (hx : 1.0 < x.abs) : StandardPower x infinity infinity
  | smallNegInfinity {x : Float} (hx : x.abs < 1.0) : StandardPower x (-infinity) infinity
  | largeNegInfinity {x : Float} (hx : 1.0 < x.abs) : StandardPower x (-infinity) 0.0
  -- An infinity keeps its sign for odd exponents.
  | infinityNegative {y : Float} (hneg : y < 0.0) : StandardPower infinity y 0.0
  | infinityPositive {y : Float} (hpos : 0.0 < y) : StandardPower infinity y infinity
  | negInfinityOddNegative {y : Float} (hodd : IsOddInteger y) (hneg : y < 0.0) :
    StandardPower (-infinity) y (-0.0)
  | negInfinityOddPositive {y : Float} (hodd : IsOddInteger y) (hpos : 0.0 < y) :
    StandardPower (-infinity) y (-infinity)
  | negInfinityNegative {y : Float} (hodd : ¬IsOddInteger y) (hneg : y < 0.0) :
    StandardPower (-infinity) y 0.0
  | negInfinityPositive {y : Float} (hodd : ¬IsOddInteger y) (hpos : 0.0 < y) :
    StandardPower (-infinity) y infinity
  -- Finite numbers.
  | unreal {x y : Float} (hx : x.isFinite = true) (hneg : x < 0.0) (hy : y.isFinite = true)
    (hinteger : ¬IsInteger y) : StandardPower x y nan
  | positive {x y : Float} (hx : x.isFinite = true) (hpos : 0.0 < x) (hone : x ≠ 1.0)
    (hy : y.isFinite = true) (hzero : ¬(y == 0.0) = true) :
    StandardPower x y (positivePower x y)
  | negativeOdd {x y r : Float} (hx : x.isFinite = true) (hneg : x < 0.0) (hodd : IsOddInteger y)
    (hsize : StandardPower x.abs y r) : StandardPower x y (-r)
  | negativeEven {x y r : Float} (hx : x.isFinite = true) (hneg : x < 0.0)
    (hinteger : IsInteger y) (hodd : ¬IsOddInteger y) (hsize : StandardPower x.abs y r) :
    StandardPower x y r

/-- A power that is no real number: that of a finite negative base with a finite exponent that is
no whole number. -/
structure IsUnreal (x y : Float) : Prop where
  base : x.isFinite = true
  neg : x < 0.0
  exponent : y.isFinite = true
  integer : ¬IsInteger y

/-- No real power exists, and the power of the size is beyond all floats. -/
def OverflowsUnreal (x y : Float) : Prop :=
  IsUnreal x y ∧ ∃ r, StandardPower x.abs y r ∧ r.isInf = true

/-- Where the library is not asked for the power of a positive base, the real power is beyond all
floats. -/
theorem positivePower_eq {p q : ℚ} (hx : valueOf? x = some p) (hy : valueOf? y = some q) :
    positivePower x y = Float.pow x y ∨ positivePower x y = infinity ∧
      ∀ z v, valueOf? z = some v → (v : ℝ) < (p : ℝ) ^ (q : ℝ) := by
  obtain ⟨d, hd, rfl⟩ := Option.map_eq_some_iff.1 hx
  obtain ⟨d', hd', rfl⟩ := Option.map_eq_some_iff.1 hy
  rw [positivePower]
  split
  · rename_i hlarge
    obtain ⟨htwo, hmany⟩ := Bool.and_eq_true_iff.1 hlarge
    have hbase : (Dyadic.mk false (2 ^ 52) (-51)).toRat ≤ d.toRat :=
      (le_iff_toRat rfl hd).1 (of_decide_eq_true htwo)
    have hexponent : (Dyadic.mk false (2 ^ 52) (-42)).toRat ≤ d'.toRat :=
      (le_iff_toRat rfl hd').1 (of_decide_eq_true hmany)
    have htwo : (Dyadic.mk false (2 ^ 52) (-51)).toRat = 2 := by decide +kernel
    have hmany : (Dyadic.mk false (2 ^ 52) (-42)).toRat = 1024 := by decide +kernel
    have hbase' : (2 : ℝ) ≤ (d.toRat : ℝ) := by exact_mod_cast htwo ▸ hbase
    have hexponent' : ((1024 : ℤ) : ℝ) ≤ (d'.toRat : ℝ) := by exact_mod_cast hmany ▸ hexponent
    refine .inr ⟨rfl, fun z v hz => ?_⟩
    have hv : (v : ℝ) < (2 : ℝ) ^ (1024 : ℤ) := by
      exact_mod_cast (le_abs_self v).trans_lt (abs_lt_of_valueOf? hz)
    calc (v : ℝ) < (2 : ℝ) ^ (1024 : ℤ) := hv
      _ = (2 : ℝ) ^ ((1024 : ℤ) : ℝ) := (Real.rpow_intCast 2 1024).symm
      _ ≤ (2 : ℝ) ^ (d'.toRat : ℝ) := Real.rpow_le_rpow_of_exponent_le one_le_two hexponent'
      _ ≤ (d.toRat : ℝ) ^ (d'.toRat : ℝ) :=
        Real.rpow_le_rpow zero_le_two hbase' (le_trans (by norm_num) hexponent')
  · exact .inl rfl

/-! ## Powers by kinds -/

lemma power_exponentZero (hy : (y == 0.0) = true) : power x y = 1.0 := by
  rw [power_eq, hy]
  rfl

lemma power_one : power 1.0 y = 1.0 := by
  have hone : ((1.0 : Float) == 1.0) = true := rfl
  rw [power_eq, hone, Bool.or_true]
  rfl

lemma power_nan (hy : (y == 0.0) = false) : power nan y = nan := by
  have hone : (nan == 1.0) = false := rfl
  rw [power_eq, hy, hone]
  rfl

lemma power_toNan (hx : (x == 1.0) = false) : power x nan = nan := by
  have hzero : (nan == 0.0) = false := rfl
  have hnan : nan.isNaN = true := rfl
  rw [power_eq, hx, hzero, hnan, Bool.or_true]
  rfl

/-- Neither number is NaN, the base is not one and the exponent is not zero. -/
structure IsPlain (x y : Float) : Prop where
  base : x.isNaN = false
  exponent : y.isNaN = false
  one : (x == 1.0) = false
  zero : (y == 0.0) = false

lemma IsPlain.power_eq (h : IsPlain x y) : power x y =
    if x < 0.0 && x.isFinite && y.isFinite && !isWhole y then
      if (powerOfSize x.abs y).isInf then infinity else nan
    else if isNegative x && isOddWhole y then -powerOfSize x.abs y
    else powerOfSize x.abs y := by
  rw [Number.power_eq, h.one, h.zero, h.base, h.exponent]
  rfl

section
variable (hnan : y.isNaN = false) (hy : (y == 0.0) = false)
include hnan hy

lemma power_zero : power 0.0 y = if y < 0.0 then infinity else 0.0 := by
  rw [IsPlain.power_eq ⟨rfl, hnan, rfl, hy⟩]
  rfl

lemma power_negZero : power (-0.0) y =
    if isOddWhole y then if y < 0.0 then -infinity else -0.0
    else if y < 0.0 then infinity else 0.0 := by
  rw [IsPlain.power_eq ⟨rfl, hnan, rfl, hy⟩]
  have hsize : powerOfSize (-0.0 : Float).abs y = if y < 0.0 then infinity else 0.0 := rfl
  rw [hsize]
  cases isOddWhole y with
  | false => rfl
  | true => by_cases hneg : y < 0.0 <;> simp only [hneg, if_true, if_false] <;> rfl

lemma power_infinity : power infinity y = if y < 0.0 then 0.0 else infinity := by
  rw [IsPlain.power_eq ⟨rfl, hnan, rfl, hy⟩]
  rfl

lemma power_negInfinity : power (-infinity) y =
    if isOddWhole y then if y < 0.0 then -0.0 else -infinity
    else if y < 0.0 then 0.0 else infinity := by
  rw [IsPlain.power_eq ⟨rfl, hnan, rfl, hy⟩]
  have hsize : powerOfSize (-infinity).abs y = if y < 0.0 then 0.0 else infinity := rfl
  rw [hsize]
  cases isOddWhole y with
  | false => rfl
  | true => by_cases hneg : y < 0.0 <;> simp only [hneg, if_true, if_false] <;> rfl

end

/-! ## Ordinary bases -/

lemma IsOrdinary.powerOfSize_eq (hx : IsOrdinary x) : powerOfSize x y =
    if x == 1.0 then 1.0
    else if y.isInf then if (x > 1.0) == (y > 0.0) then infinity else 0.0
    else positivePower x y := by
  rw [powerOfSize, hx.beq_zero, hx.isInf]
  rfl

lemma IsOrdinary.power_of_pos (hx : IsOrdinary x) (hpos : 0.0 < x) (hnan : y.isNaN = false)
    (hy : (y == 0.0) = false) : power x y = powerOfSize x y := by
  cases hone : x == 1.0 with
  | true =>
    rw [hx.powerOfSize_eq, hone, eq_of_beq_one hone, power_one]
    rfl
  | false =>
    obtain ⟨-, hnonneg, hsign⟩ | ⟨-, hneg, hsign⟩ := hx.neg_or_pos
    · exact absurd hpos hnonneg
    · rw [IsPlain.power_eq ⟨hx.isNaN, hnan, hone, hy⟩, hx.abs_of_pos hpos, hsign,
        decide_eq_false hneg]
      rfl

lemma IsOrdinary.power_of_neg (hx : IsOrdinary x) (hneg : x < 0.0) (hnan : y.isNaN = false)
    (hy : (y == 0.0) = false) : power x y =
      if y.isFinite && !isWhole y then if (power x.abs y).isInf then infinity else nan
      else if isOddWhole y then -power x.abs y else power x.abs y := by
  have hone : (x == 1.0) = false := by
    rw [Bool.eq_false_iff]
    intro h
    rw [eq_of_beq_one h] at hneg
    exact absurd hneg (by decide)
  obtain ⟨-, -, hsign⟩ | ⟨-, hpos, -⟩ := hx.neg_or_pos
  · rw [IsPlain.power_eq ⟨hx.isNaN, hnan, hone, hy⟩, hx.abs.power_of_pos hx.abs_pos hnan hy, hsign,
      decide_eq_true hneg, hx.isFinite]
    rfl
  · exact absurd hneg hpos

/-- An infinite exponent looks at the size of the base only. -/
lemma power_infinite (hnan : x.isNaN = false) (hone : (x.abs == 1.0) = false)
    (hy : y.isInf = true) :
    power x y = if (x.abs > 1.0) == (y > 0.0) then infinity else 0.0 := by
  have hordinary : IsOrdinary x → power x y = power x.abs y := fun hx => by
    obtain ⟨hneg, -, -⟩ | ⟨hpos, -, -⟩ := hx.neg_or_pos
    · rcases isInf_cases hy with rfl | rfl <;> rw [hx.power_of_neg hneg rfl rfl] <;> rfl
    · rw [hx.abs_of_pos hpos]
  rcases kinds x with rfl | rfl | rfl | rfl | rfl | hx
  · cases hnan
  iterate 4 rcases isInf_cases hy with rfl | rfl <;> rfl
  · rw [hordinary hx]
    rcases isInf_cases hy with rfl | rfl <;>
      rw [hx.abs.power_of_pos hx.abs_pos rfl rfl, hx.abs.powerOfSize_eq, hone] <;> rfl

/-! ## The standard determines the power -/

/-- What the standard gives is the power, unless no real power exists. -/
lemma StandardPower.eq_power (h : StandardPower x y r) (hreal : ¬IsUnreal x y) :
    r = power x y := by
  induction h with
  | exponentZero hy => rw [power_exponentZero hy]
  | baseOne => rw [power_one]
  | baseNan hy => rw [power_nan (Bool.eq_false_iff.2 hy)]
  | exponentNan hx =>
    rw [power_toNan (Bool.eq_false_iff.2 fun h => hx (eq_of_beq_one h))]
  | @zeroOddNegative y hodd hneg =>
    obtain ⟨hnan, hzero, -⟩ := plain_of_neg hneg
    rw [power_zero hnan hzero, if_pos hneg]
  | @negZeroOddNegative y hodd hneg =>
    obtain ⟨hnan, hzero, -⟩ := plain_of_neg hneg
    rw [power_negZero hnan hzero, if_pos (isOddWhole_iff.2 hodd), if_pos hneg]
  | @zeroNegative x y hx hodd hneg =>
    obtain ⟨hnan, hzero, -⟩ := plain_of_neg hneg
    rcases zero_or_negZero hx with rfl | rfl
    · rw [power_zero hnan hzero, if_pos hneg]
    · rw [power_negZero hnan hzero, if_neg (mt isOddWhole_iff.1 hodd), if_pos hneg]
  | @zeroOddPositive x y hx hodd hpos =>
    obtain ⟨hnan, hzero, hneg⟩ := plain_of_pos hpos
    rcases zero_or_negZero hx with rfl | rfl
    · rw [power_zero hnan hzero, if_neg hneg]
    · rw [power_negZero hnan hzero, if_pos (isOddWhole_iff.2 hodd), if_neg hneg]
  | @zeroPositive x y hx hodd hpos =>
    obtain ⟨hnan, hzero, hneg⟩ := plain_of_pos hpos
    rcases zero_or_negZero hx with rfl | rfl
    · rw [power_zero hnan hzero, if_neg hneg]
    · rw [power_negZero hnan hzero, if_neg (mt isOddWhole_iff.1 hodd), if_neg hneg]
  | minusOneInfinite hy => rcases isInf_cases hy with rfl | rfl <;> rfl
  | smallInfinity hx | smallNegInfinity hx =>
    obtain ⟨hnan, hone, hle⟩ := size_of_lt_one hx
    rw [power_infinite hnan hone rfl, decide_eq_false hle]
    rfl
  | largeInfinity hx | largeNegInfinity hx =>
    obtain ⟨hnan, hone⟩ := size_of_one_lt hx
    rw [power_infinite hnan hone rfl, decide_eq_true hx]
    rfl
  | infinityNegative hneg =>
    obtain ⟨hnan, hzero, -⟩ := plain_of_neg hneg
    rw [power_infinity hnan hzero, if_pos hneg]
  | infinityPositive hpos =>
    obtain ⟨hnan, hzero, hneg⟩ := plain_of_pos hpos
    rw [power_infinity hnan hzero, if_neg hneg]
  | negInfinityOddNegative hodd hneg =>
    obtain ⟨hnan, hzero, -⟩ := plain_of_neg hneg
    rw [power_negInfinity hnan hzero, if_pos (isOddWhole_iff.2 hodd), if_pos hneg]
  | negInfinityOddPositive hodd hpos =>
    obtain ⟨hnan, hzero, hneg⟩ := plain_of_pos hpos
    rw [power_negInfinity hnan hzero, if_pos (isOddWhole_iff.2 hodd), if_neg hneg]
  | negInfinityNegative hodd hneg =>
    obtain ⟨hnan, hzero, -⟩ := plain_of_neg hneg
    rw [power_negInfinity hnan hzero, if_neg (mt isOddWhole_iff.1 hodd), if_pos hneg]
  | negInfinityPositive hodd hpos =>
    obtain ⟨hnan, hzero, hneg⟩ := plain_of_pos hpos
    rw [power_negInfinity hnan hzero, if_neg (mt isOddWhole_iff.1 hodd), if_neg hneg]
  | unreal hx hneg hy hinteger => exact absurd ⟨hx, hneg, hy, hinteger⟩ hreal
  | positive hx hpos hone hy hzero =>
    have hordinary := isOrdinary_of_pos hx hpos
    have hexponent := isOrdinary_of_isFinite hy hzero
    rw [hordinary.power_of_pos hpos hexponent.isNaN hexponent.beq_zero, hordinary.powerOfSize_eq,
      hexponent.isInf, Bool.eq_false_iff.2 fun h => hone (eq_of_beq_one h)]
    rfl
  | @negativeOdd x y r hx hneg hodd hsize ih =>
    have hordinary := isOrdinary_of_neg hx hneg
    have hexponent := hodd.isOrdinary
    have hsizeReal : ¬IsUnreal x.abs y := fun h => (plain_of_neg h.neg).2.2 hordinary.abs_pos
    rw [hordinary.power_of_neg hneg hexponent.isNaN hexponent.beq_zero, ih hsizeReal,
      isWhole_iff.2 hodd.isInteger, isOddWhole_iff.2 hodd, Bool.not_true, Bool.and_false]
    rfl
  | @negativeEven x y r hx hneg hinteger hodd hsize ih =>
    have hordinary := isOrdinary_of_neg hx hneg
    have hsizeReal : ¬IsUnreal x.abs y := fun h => (plain_of_neg h.neg).2.2 hordinary.abs_pos
    cases hzero : y == 0.0 with
    | true => rw [ih hsizeReal, power_exponentZero hzero, power_exponentZero hzero]
    | false =>
      have hexponent : y.isNaN = false := hinteger.isNaN
      rw [hordinary.power_of_neg hneg hexponent hzero, ih hsizeReal, isWhole_iff.2 hinteger,
        Bool.eq_false_iff.2 (mt isOddWhole_iff.1 hodd), Bool.not_true, Bool.and_false]
      rfl

/-- Where no real power exists the standard gives NaN. -/
lemma StandardPower.eq_nan (h : StandardPower x y r) (hu : IsUnreal x y) : r = nan := by
  cases h with
  | unreal => rfl
  | exponentZero hy => exact absurd (isInteger_of_zero hy) hu.integer
  | negativeEven _ _ hinteger => exact absurd hinteger hu.integer
  | negativeOdd _ _ hodd => exact absurd hodd.isInteger hu.integer
  | positive _ hpos => exact absurd hpos (plain_of_neg hu.neg).2.2
  | zeroNegative hx | zeroOddPositive hx | zeroPositive hx =>
    exact absurd hx (Bool.eq_false_iff.1 (plain_of_neg hu.neg).2.1)
  | minusOneInfinite hy => rcases isInf_cases hy with rfl | rfl <;> cases hu.exponent
  | baseOne | zeroOddNegative | negZeroOddNegative => exact absurd hu.neg (by decide)
  | baseNan | infinityNegative | infinityPositive | negInfinityOddNegative
  | negInfinityOddPositive | negInfinityNegative | negInfinityPositive => cases hu.base
  | exponentNan | smallInfinity | largeInfinity | smallNegInfinity | largeNegInfinity =>
    cases hu.exponent

/-! ## The standard has a power for all numbers -/

namespace StandardPower

lemma exists_infiniteExponent (hx : IsOrdinary x) (hy : y.isInf = true) :
    ∃ r, StandardPower x y r := by
  obtain ⟨hlt, -⟩ | ⟨hone, -⟩ | ⟨hlt, -⟩ := trichotomy (y := 1.0) hx.abs.isFinite rfl
  · rcases isInf_cases hy with rfl | rfl
    · exact ⟨_, smallInfinity hlt⟩
    · exact ⟨_, smallNegInfinity hlt⟩
  · rcases eq_one_or_minusOne hx hone with rfl | rfl
    · exact ⟨_, baseOne⟩
    · exact ⟨_, minusOneInfinite hy⟩
  · rcases isInf_cases hy with rfl | rfl
    · exact ⟨_, largeInfinity hlt⟩
    · exact ⟨_, largeNegInfinity hlt⟩

lemma exists_positive (hx : IsOrdinary x) (hpos : 0.0 < x) (hy : IsOrdinary y) :
    ∃ r, StandardPower x y r := by
  by_cases hone : x = 1.0
  · rw [hone]
    exact ⟨_, baseOne⟩
  · exact ⟨_, positive hx.isFinite hpos hone hy.isFinite (Bool.eq_false_iff.1 hy.beq_zero)⟩

lemma exists_ordinary (hx : IsOrdinary x) (hy : IsOrdinary y) : ∃ r, StandardPower x y r := by
  obtain ⟨hneg, -⟩ | ⟨hpos, -⟩ := hx.neg_or_pos
  · obtain ⟨r, hsize⟩ := exists_positive hx.abs hx.abs_pos hy
    by_cases hinteger : IsInteger y
    · by_cases hodd : IsOddInteger y
      · exact ⟨_, negativeOdd hx.isFinite hneg hodd hsize⟩
      · exact ⟨_, negativeEven hx.isFinite hneg hinteger hodd hsize⟩
    · exact ⟨_, unreal hx.isFinite hneg hy.isFinite hinteger⟩
  · exact exists_positive hx hpos hy

lemma exists_zeroBase (hx : (x == 0.0) = true) (hy : y < 0.0 ∨ 0.0 < y) :
    ∃ r, StandardPower x y r := by
  by_cases hodd : IsOddInteger y
  · rcases hy with hneg | hpos
    · rcases zero_or_negZero hx with rfl | rfl
      · exact ⟨_, zeroOddNegative hodd hneg⟩
      · exact ⟨_, negZeroOddNegative hodd hneg⟩
    · exact ⟨_, zeroOddPositive hx hodd hpos⟩
  · rcases hy with hneg | hpos
    · exact ⟨_, zeroNegative hx hodd hneg⟩
    · exact ⟨_, zeroPositive hx hodd hpos⟩

lemma exists_infiniteBase (hx : x.isInf = true) (hy : y < 0.0 ∨ 0.0 < y) :
    ∃ r, StandardPower x y r := by
  rcases isInf_cases hx with rfl | rfl <;> rcases hy with hneg | hpos
  · exact ⟨_, infinityNegative hneg⟩
  · exact ⟨_, infinityPositive hpos⟩
  · by_cases hodd : IsOddInteger y
    · exact ⟨_, negInfinityOddNegative hodd hneg⟩
    · exact ⟨_, negInfinityNegative hodd hneg⟩
  · by_cases hodd : IsOddInteger y
    · exact ⟨_, negInfinityOddPositive hodd hpos⟩
    · exact ⟨_, negInfinityPositive hodd hpos⟩

/-- Any two numbers have a power. -/
theorem exists_power (x y : Float) : ∃ r, StandardPower x y r := by
  cases hzero : y == 0.0 with
  | true => exact ⟨_, exponentZero hzero⟩
  | false =>
    cases hnan : y.isNaN with
    | true =>
      rw [Number.eq_nan hnan]
      by_cases hone : x = 1.0
      · rw [hone]
        exact ⟨_, baseOne⟩
      · exact ⟨_, exponentNan hone⟩
    | false =>
      have hsign := neg_or_pos hnan hzero
      rcases kinds x with rfl | rfl | rfl | rfl | rfl | hx
      · exact ⟨_, baseNan (Bool.eq_false_iff.1 hzero)⟩
      · exact exists_infiniteBase rfl hsign
      · exact exists_infiniteBase rfl hsign
      · exact exists_zeroBase rfl hsign
      · exact exists_zeroBase rfl hsign
      · rcases kinds y with rfl | rfl | rfl | rfl | rfl | hy
        · cases hnan
        · exact exists_infiniteExponent hx rfl
        · exact exists_infiniteExponent hx rfl
        · cases hzero
        · cases hzero
        · exact exists_ordinary hx hy

end StandardPower

/-- The power where no real power exists. -/
lemma IsUnreal.power_eq (h : IsUnreal x y) :
    power x y = if (power x.abs y).isInf then infinity else nan := by
  have hordinary := isOrdinary_of_neg h.base h.neg
  have hzero : (y == 0.0) = false := Bool.eq_false_iff.2 fun hzero =>
    h.integer (isInteger_of_zero hzero)
  rw [hordinary.power_of_neg h.neg (isNaN_of_isFinite h.exponent) hzero, h.exponent,
    Bool.eq_false_iff.2 (mt isWhole_iff.1 h.integer)]
  rfl

lemma overflowsUnreal_iff (h : IsUnreal x y) :
    OverflowsUnreal x y ↔ (power x.abs y).isInf = true := by
  have hsizeReal : ¬IsUnreal x.abs y := fun hu =>
    (plain_of_neg hu.neg).2.2 (isOrdinary_of_neg h.base h.neg).abs_pos
  constructor
  · rintro ⟨-, r, hr, hinf⟩
    rwa [← hr.eq_power hsizeReal]
  · intro hinf
    obtain ⟨r, hr⟩ := StandardPower.exists_power x.abs y
    rw [← hr.eq_power hsizeReal] at hinf
    exact ⟨h, r, hr, hinf⟩

/-! ## The powers that are computed -/

lemma sample_pow (left right : Stream Float) (n : ℕ) :
    (Stream.binary .pow left right).sample n = power (left.sample n) (right.sample n) := by
  rw [Stream.sample, Stream.after_binary]
  rfl

/-- **Powers follow the standard.**  Any two floats have one power by the standard.  It is the one
that is computed for them, that the operator `^` gives for two reals and that every sample of a power
of signals is, unless no real power exists and the power of the size overflows; then, and only then
among the powers that are no real numbers, infinity is given for NaN. -/
theorem power_standard (x y : Float) :
    (∃! r, StandardPower x y r) ∧
    (StandardPower x y (power x y) ↔ ¬OverflowsUnreal x y) ∧
    (OverflowsUnreal x y ↔ IsUnreal x y ∧ power x y = infinity) ∧
    Evaluation.applyBinary (.arithmetic .pow) (.real x) (.real y) = pure (.real (power x y)) ∧
    ∀ (left right : Stream Float) (n : ℕ),
      (Stream.binary .pow left right).sample n = power (left.sample n) (right.sample n) := by
  obtain ⟨r, hr⟩ := StandardPower.exists_power x y
  by_cases hu : IsUnreal x y
  · obtain rfl := hr.eq_nan hu
    have hpower := hu.power_eq
    refine ⟨⟨nan, hr, fun r' hr' => hr'.eq_nan hu⟩, ?_, ?_, rfl, sample_pow⟩ <;>
      rw [overflowsUnreal_iff hu, hpower]
    · split
      · exact ⟨fun h => absurd (h.eq_nan hu) (by decide), fun h => absurd ‹_› h⟩
      · exact ⟨fun _ => ‹_›, fun _ => hr⟩
    · split
      · exact ⟨fun _ => ⟨hu, rfl⟩, fun _ => ‹_›⟩
      · exact ⟨fun h => absurd h ‹_›, fun h => absurd h.2 (by decide)⟩
  · obtain rfl := hr.eq_power hu
    refine ⟨⟨_, hr, fun r' hr' => hr'.eq_power hu⟩, ?_, ?_, rfl, sample_pow⟩
    · exact ⟨fun _ h => hu h.1, fun _ => hr⟩
    · exact ⟨fun h => absurd h.1 hu, fun h => absurd h.1 hu⟩

/-- The power of minus two is infinity where no real power exists, and by the standard it is NaN. -/
theorem power_minusTwo :
    StandardPower (-2.0) 1024.5 nan ∧ power (-2.0) 1024.5 = infinity ∧ infinity ≠ nan := by
  refine ⟨.unreal rfl (by decide) rfl ?_, rfl, by decide⟩
  exact fun h => absurd (isWhole_iff.2 h) (by decide)

end SignalCalc.Number
