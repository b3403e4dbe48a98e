import SignalCalc.Proofs.Number.Order

/-!
# Kinds of floats

NaN, the two infinities and the two zeros are single floats: a float that unpacks like one of them is
that float (`unpack_injective`).  All others are ordinary.
So a statement about all floats splits into five constants and the ordinary floats (`kinds`).
-/

namespace SignalCalc.Number

open Float.Model
open Float.Model.UnpackedFloat

variable {x y : Float}

/-- Floats that unpack alike are one. -/
theorem unpack_injective (h : x.toModel.unpack = y.toModel.unpack) : x = y :=
  Float.toBits_inj.1 (UInt64.toBitVec_inj.1
    ((unpack_inj_of_valid x.toModel.valid y.toModel.valid).1 h))

/-- A finite float that is no zero. -/
def IsOrdinary (x : Float) : Prop :=
  ∃ s m e hm, x.toModel.unpack = .finite s m e hm

/-- The kinds of floats. -/
theorem kinds (x : Float) :
    x = nan ∨ x = infinity ∨ x = -infinity ∨ x = 0.0 ∨ x = -0.0 ∨ IsOrdinary x := by
  cases h : x.toModel.unpack with
  | notANumber => exact .inl (unpack_injective h)
  | infinity s =>
    cases s with
    | positive => exact .inr (.inl (unpack_injective h))
    | negative => exact .inr (.inr (.inl (unpack_injective h)))
  | zero s =>
    cases s with
    | positive => exact .inr (.inr (.inr (.inl (unpack_injective h))))
    | negative => exact .inr (.inr (.inr (.inr (.inl (unpack_injective h)))))
  | finite s m e hm => exact .inr (.inr (.inr (.inr (.inr ⟨s, m, e, hm, h⟩))))

lemma eq_nan (h : x.isNaN = true) : x = nan := by
  rw [Float.isNaN_eq_decide_eq_nan, decide_eq_true_iff] at h
  exact h

lemma isInf_cases (h : x.isInf = true) : x = infinity ∨ x = -infinity := by
  have hmodel : x.toModel.unpack.isInf = true := h
  cases hx : x.toModel.unpack with
  | infinity s =>
    cases s with
    | positive => exact .inl (unpack_injective hx)
    | negative => exact .inr (unpack_injective hx)
  | notANumber | zero | finite =>
    rw [hx] at hmodel
    cases hmodel

/-- Floats that compare equal are one float, or zeros. -/
lemma eq_or_zeros (h : (x == y) = true) : x = y ∨ (x == 0.0) = true ∧ (y == 0.0) = true := by
  obtain ⟨-, -, h | ⟨rfl, rfl⟩ | ⟨rfl, rfl⟩⟩ := Float.beq_iff_ne_nan_and_eq.1 h
  · exact .inl h
  · exact .inr ⟨rfl, rfl⟩
  · exact .inr ⟨rfl, rfl⟩

lemma zero_or_negZero (h : (x == 0.0) = true) : x = 0.0 ∨ x = -0.0 := by
  obtain ⟨-, -, h | ⟨h, -⟩ | ⟨h, -⟩⟩ := Float.beq_iff_ne_nan_and_eq.1 h
  · exact .inl h
  · exact .inl h
  · exact .inr h

/-! ## Ordinary floats -/

lemma isNaN_of_isFinite (hx : x.isFinite = true) : x.isNaN = false := by
  rcases kinds x with rfl | rfl | rfl | rfl | rfl | ⟨s, m, e, hm, h⟩
  · cases hx
  iterate 4 rfl
  show x.toModel.unpack.isNaN = false
  rw [h]
  rfl

namespace IsOrdinary

lemma isFinite (h : IsOrdinary x) : x.isFinite = true := by
  obtain ⟨s, m, e, hm, hx⟩ := h
  show x.toModel.unpack.isFinite = true
  rw [hx]
  rfl

lemma isNaN (h : IsOrdinary x) : x.isNaN = false := isNaN_of_isFinite h.isFinite

lemma isInf (h : IsOrdinary x) : x.isInf = false := by
  obtain ⟨s, m, e, hm, hx⟩ := h
  show x.toModel.unpack.isInf = false
  rw [hx]
  rfl

lemma beq_zero (h : IsOrdinary x) : (x == 0.0) = false := by
  obtain ⟨s, m, e, hm, hx⟩ := h
  rw [Bool.eq_false_iff, ne_eq, beq_iff, unpack_zero, hx]
  cases s <;> nofun

lemma abs (h : IsOrdinary x) : IsOrdinary x.abs := by
  have habs := unpack_abs h.isFinite
  obtain ⟨s, m, e, hm, hx⟩ := h
  rw [hx] at habs
  exact ⟨_, _, _, _, habs⟩

lemma neg_or_pos (h : IsOrdinary x) :
    (x < 0.0 ∧ ¬0.0 < x ∧ isNegative x = true) ∨ (0.0 < x ∧ ¬x < 0.0 ∧ isNegative x = false) := by
  obtain ⟨s, m, e, hm, hx⟩ := h
  rw [lt_iff, lt_iff, unpack_zero, isNegative, hx]
  cases s with
  | positive => exact .inr ⟨rfl, nofun, rfl⟩
  | negative => exact .inl ⟨rfl, nofun, rfl⟩

lemma abs_of_pos (hx : IsOrdinary x) (hpos : 0.0 < x) : x.abs = x := by
  refine unpack_injective ?_
  rw [unpack_abs hx.isFinite]
  rw [lt_iff, unpack_zero] at hpos
  obtain ⟨s, m, e, hm, h⟩ := hx
  rw [h] at hpos ⊢
  cases s with
  | positive => rfl
  | negative => cases hpos

lemma abs_pos (hx : IsOrdinary x) : 0.0 < x.abs := by
  rw [lt_iff, unpack_zero, unpack_abs hx.isFinite]
  obtain ⟨s, m, e, hm, h⟩ := hx
  rw [h]
  rfl

end IsOrdinary

/-- A float that is finite and neither zero is ordinary. -/
lemma isOrdinary_of_isFinite (hx : x.isFinite = true) (hzero : ¬(x == 0.0) = true) :
    IsOrdinary x := by
  rcases finite_cases hx with ⟨s, h⟩ | h
  · exact absurd (beq_iff.2 (by rw [h]; rfl)) hzero
  · exact h

/-! ## Order -/

lemma plain_of_neg (h : y < 0.0) : y.isNaN = false ∧ (y == 0.0) = false ∧ ¬0.0 < y := by
  rcases kinds y with rfl | rfl | rfl | rfl | rfl | hy
  · exact absurd h (by decide)
  · exact absurd h (by decide)
  · exact ⟨rfl, rfl, by decide⟩
  · exact absurd h (by decide)
  · exact absurd h (by decide)
  · obtain ⟨-, hpos, -⟩ | ⟨-, hneg, -⟩ := hy.neg_or_pos
    · exact ⟨hy.isNaN, hy.beq_zero, hpos⟩
    · exact absurd h hneg

lemma plain_of_pos (h : 0.0 < y) : y.isNaN = false ∧ (y == 0.0) = false ∧ ¬y < 0.0 := by
  rcases kinds y with rfl | rfl | rfl | rfl | rfl | hy
  · exact absurd h (by decide)
  · exact ⟨rfl, rfl, by decide⟩
  · exact absurd h (by decide)
  · exact absurd h (by decide)
  · exact absurd h (by decide)
  · obtain ⟨-, hpos, -⟩ | ⟨-, hneg, -⟩ := hy.neg_or_pos
    · exact absurd h hpos
    · exact ⟨hy.isNaN, hy.beq_zero, hneg⟩

lemma neg_or_pos (hnan : y.isNaN = false) (hzero : (y == 0.0) = false) : y < 0.0 ∨ 0.0 < y := by
  rcases kinds y with rfl | rfl | rfl | rfl | rfl | hy
  · cases hnan
  · exact .inr (by decide)
  · exact .inl (by decide)
  · cases hzero
  · cases hzero
  · exact hy.neg_or_pos.imp And.left And.left

lemma isOrdinary_of_neg (hx : x.isFinite = true) (hneg : x < 0.0) : IsOrdinary x :=
  isOrdinary_of_isFinite hx (Bool.eq_false_iff.1 (plain_of_neg hneg).2.1)

lemma isOrdinary_of_pos (hx : x.isFinite = true) (hpos : 0.0 < x) : IsOrdinary x :=
  isOrdinary_of_isFinite hx (Bool.eq_false_iff.1 (plain_of_pos hpos).2.1)

lemma exists_ofFloat?_of_isFinite (hx : x.isFinite = true) : ∃ d, Dyadic.ofFloat? x = some d := by
  refine exists_ofFloat?_of_ne (ne_notANumber hx) fun s hs => ?_
  have hfinite : x.toModel.unpack.isFinite = true := hx
  rw [hs] at hfinite
  cases hfinite

/-- Of two finite floats one is less than the other, or they are equal. -/
lemma trichotomy (hx : x.isFinite = true) (hy : y.isFinite = true) :
    (x < y ∧ ¬y < x ∧ (x == y) = false) ∨ ((x == y) = true ∧ ¬x < y ∧ ¬y < x) ∨
      (y < x ∧ ¬x < y ∧ (x == y) = false) := by
  obtain ⟨d, hd⟩ := exists_ofFloat?_of_isFinite hx
  obtain ⟨d', hd'⟩ := exists_ofFloat?_of_isFinite hy
  rw [← Bool.not_eq_true, beq_iff, lt_iff, lt_iff, compare_of_ofFloat? hd hd',
    compare_of_ofFloat? hd' hd, Option.some_inj, Option.some_inj, Option.some_inj,
    compare_lt_iff_lt, compare_lt_iff_lt, compare_eq_iff_eq]
  rcases lt_trichotomy d.toRat d'.toRat with h | h | h
  · exact .inl ⟨h, h.not_gt, h.ne⟩
  · exact .inr (.inl ⟨h, h.not_lt, h.not_gt⟩)
  · exact .inr (.inr ⟨h, h.not_gt, h.ne'⟩)

lemma eq_of_beq_one (h : (x == 1.0) = true) : x = 1.0 := by
  rcases eq_or_zeros h with h | ⟨-, h⟩
  · exact h
  · exact absurd h Bool.false_ne_true

lemma eq_one_or_minusOne (hx : IsOrdinary x) (hone : (x.abs == 1.0) = true) :
    x = 1.0 ∨ x = -1.0 := by
  have habs := congrArg (·.toModel.unpack) (eq_of_beq_one hone)
  simp only [unpack_abs hx.isFinite] at habs
  obtain ⟨s, m, e, hm, h⟩ := hx
  rw [h] at habs
  cases s with
  | positive => exact .inl (unpack_injective (h.trans habs))
  | negative =>
    refine .inr (unpack_injective (h.trans ?_))
    exact congrArg (withSign .negative) habs

/-- A size below or above one -/
lemma size_of_lt_one (hx : x.abs < 1.0) :
    x.isNaN = false ∧ (x.abs == 1.0) = false ∧ ¬x.abs > 1.0 := by
  rcases kinds x with rfl | rfl | rfl | rfl | rfl | h
  · exact absurd hx (by decide)
  · exact absurd hx (by decide)
  · exact absurd hx (by decide)
  · exact ⟨rfl, rfl, by decide⟩
  · exact ⟨rfl, rfl, by decide⟩
  · obtain ⟨-, hle, hne⟩ | ⟨-, hle, -⟩ | ⟨-, hle, -⟩ :=
      trichotomy (y := 1.0) (isFinite_abs h.isFinite) rfl
    · exact ⟨h.isNaN, hne, hle⟩
    · exact absurd hx hle
    · exact absurd hx hle

lemma size_of_one_lt (hx : 1.0 < x.abs) : x.isNaN = false ∧ (x.abs == 1.0) = false := by
  rcases kinds x with rfl | rfl | rfl | rfl | rfl | h
  · exact absurd hx (by decide)
  · exact ⟨rfl, rfl⟩
  · exact ⟨rfl, rfl⟩
  · exact ⟨rfl, rfl⟩
  · exact ⟨rfl, rfl⟩
  · obtain ⟨-, hle, -⟩ | ⟨-, -, hle⟩ | ⟨-, -, hne⟩ :=
      trichotomy (y := 1.0) (isFinite_abs h.isFinite) rfl
    · exact absurd hx hle
    · exact absurd hx hle
    · exact ⟨h.isNaN, hne⟩

/-! ## The numbers that floats stand for -/

/-- The number that a finite float stands for. -/
def valueOf? (x : Float) : Option ℚ := (Dyadic.ofFloat? x).map Dyadic.toRat

/-- A float that stands for a whole number. -/
def IsInteger (x : Float) : Prop := ∃ k : ℤ, valueOf? x = some (k : ℚ)

/-- A float that stands for an odd whole number. -/
def IsOddInteger (x : Float) : Prop := ∃ k : ℤ, valueOf? x = some (k : ℚ) ∧ Odd k

lemma Dyadic.isWhole_iff {d : Dyadic} : d.isWhole = true ↔ ∃ k : ℤ, d.toRat = k := by
  have hpos : (0 : ℚ) < d.magnitude.2 := by
    unfold Dyadic.magnitude
    split
    · exact one_pos
    · positivity
  have habs : d.isWhole = true ↔ ∃ k : ℕ, d.absRat = k := by
    rw [isWhole, beq_iff_eq, ← Nat.dvd_iff_mod_eq_zero, ← d.magnitude_div]
    refine exists_congr fun k => ?_
    rw [div_eq_iff hpos.ne']
    exact ⟨fun h => by rw [h]; push_cast; ring, fun h => by rw [mul_comm]; exact_mod_cast h⟩
  have hnonneg := d.absRat_nonneg
  rw [habs, toRat]
  constructor
  · rintro ⟨k, hk⟩
    rw [hk]
    split
    · exact ⟨-k, by push_cast; rfl⟩
    · exact ⟨k, by push_cast; rfl⟩
  · rintro ⟨k, hk⟩
    refine ⟨k.natAbs, ?_⟩
    have hcast : ((k.natAbs : ℕ) : ℚ) = |(k : ℚ)| := by rw [Nat.cast_natAbs, Int.cast_abs]
    rw [hcast, ← hk]
    split
    · rw [abs_neg, abs_of_nonneg hnonneg]
    · rw [abs_of_nonneg hnonneg]

lemma towardZero_intCast (k : ℤ) : towardZero k = k := by
  unfold towardZero
  split
  · exact Int.ceil_intCast k
  · exact Int.floor_intCast k

theorem isWhole_iff : isWhole x = true ↔ IsInteger x := by
  unfold isWhole IsInteger valueOf?
  cases Dyadic.ofFloat? x with
  | none => simp
  | some d => simp [Dyadic.isWhole_iff]

theorem isOddWhole_iff : isOddWhole x = true ↔ IsOddInteger x := by
  unfold isOddWhole IsOddInteger valueOf?
  cases Dyadic.ofFloat? x with
  | none => simp
  | some d =>
    simp only [Option.any_some, Option.map_some, Option.some.injEq, Bool.and_eq_true, beq_iff_eq,
      Dyadic.isWhole_iff, d.truncate_eq]
    constructor
    · rintro ⟨⟨k, hk⟩, hodd⟩
      rw [hk, towardZero_intCast] at hodd
      exact ⟨k, hk, Int.odd_iff.2 hodd⟩
    · rintro ⟨k, hk, hodd⟩
      rw [hk, towardZero_intCast]
      exact ⟨⟨k, rfl⟩, Int.odd_iff.1 hodd⟩

lemma exponent_le_of_ofParts {s s' : Sign} {e : BitVec 11} {m : BitVec 52} {mantissa : ℕ}
    {exponent : Int} {hmantissa : 0 < mantissa}
    (h : ofParts s e m = .finite s' mantissa exponent hmantissa) : exponent ≤ 971 := by
  have he := e.isLt
  have hplace : placeExponent e = (e.toNat : Int) - 1075 := rfl
  unfold ofParts at h
  split at h
  · split at h <;> cases h
  · rename_i hnan
    have hne : e.toNat ≠ 2047 := fun heq => hnan (BitVec.eq_of_toNat_eq heq)
    split at h
    · split at h
      · cases h
      · rename_i hzero _
        cases h
        rw [hzero]
        decide
    · cases h
      omega

/-- Finite floats are below `2 ^ 1024`. -/
theorem abs_lt_of_valueOf? {p : ℚ} (hx : valueOf? x = some p) : |p| < 2 ^ (1024 : ℤ) := by
  obtain ⟨d, hd, rfl⟩ := Option.map_eq_some_iff.1 hx
  have hpos : (0 : ℚ) < 2 ^ (1024 : ℤ) := by positivity
  have hsum : (53 : ℤ) + 971 = 1024 := rfl
  have hsize : ∀ {s m e hm}, x.toModel.unpack = .finite s m e hm →
      |(m * 2 ^ e : ℚ)| < 2 ^ (1024 : ℤ) := fun {s m e hm} h => by
    have hfull := isFull_of_unpack h
    have hexponent : e ≤ 971 := exponent_le_of_ofParts h
    have hmantissa : (m : ℚ) < 2 ^ (53 : ℤ) := by exact_mod_cast hfull.lt
    rw [abs_of_nonneg (by positivity)]
    calc (m * 2 ^ e : ℚ) < 2 ^ (53 : ℤ) * 2 ^ e := by gcongr
      _ ≤ 2 ^ (53 : ℤ) * 2 ^ (971 : ℤ) :=
        mul_le_mul_of_nonneg_left (zpow_le_zpow_right₀ one_le_two hexponent) (by positivity)
      _ = 2 ^ (1024 : ℤ) := by rw [← zpow_add₀ two_ne_zero, hsum]
  rcases ofFloat?_cases hd with ⟨s, -, h⟩ | ⟨m, e, hm, hunpack, -, h⟩ | ⟨m, e, hm, hunpack, -, h⟩
  · rw [h, abs_zero]
    exact hpos
  · rw [h]
    exact hsize hunpack
  · rw [h, abs_neg]
    exact hsize hunpack

lemma IsInteger.isNaN (h : IsInteger x) : x.isNaN = false := by
  obtain ⟨k, hk⟩ := h
  rcases kinds x with rfl | rfl | rfl | rfl | rfl | hx
  · cases hk
  · rfl
  · rfl
  · rfl
  · rfl
  · exact hx.isNaN

lemma isInteger_of_zero (h : (x == 0.0) = true) : IsInteger x := by
  rcases zero_or_negZero h with rfl | rfl <;> exact isWhole_iff.1 rfl

lemma IsOddInteger.isOrdinary (h : IsOddInteger x) : IsOrdinary x := by
  have hodd := isOddWhole_iff.2 h
  rcases kinds x with rfl | rfl | rfl | rfl | rfl | hx
  · cases hodd
  · cases hodd
  · cases hodd
  · cases hodd
  · cases hodd
  · exact hx

lemma IsOddInteger.isInteger (h : IsOddInteger x) : IsInteger x := by
  obtain ⟨k, hk, -⟩ := h
  exact ⟨k, hk⟩

end SignalCalc.Number
