import SignalCalc.Proofs.Number.Positive

/-!
# The order of floats

A finite float stands for a rational number (`Dyadic.toRat`).  Floats are compared place by place,
the exponents first; as the bits of a float hold its mantissa with as many digits as fit, this is the
order of the rational numbers (`compare_of_ofFloat?`).  Cutting a float to a whole number is rounding
the rational number toward zero (`Dyadic.truncate_eq`).

A product with a finite float that is no zero is a number where the other factor is one.
-/

namespace SignalCalc.Number

open Float.Model
open Float.Model.UnpackedFloat

variable {x y : Float} {d d' : Dyadic}

/-! ## The exact value -/

/-- The value of the number without its sign. -/
def Dyadic.absRat (d : Dyadic) : ℚ := d.mantissa * 2 ^ d.exponent

/-- The value of the number. -/
def Dyadic.toRat (d : Dyadic) : ℚ := if d.negative then -d.absRat else d.absRat

/-- The whole number next to a rational number, toward zero. -/
def towardZero (q : ℚ) : Int := if q < 0 then ⌈q⌉ else ⌊q⌋

lemma Dyadic.absRat_nonneg (d : Dyadic) : 0 ≤ d.absRat := by
  unfold Dyadic.absRat
  positivity

lemma Dyadic.magnitude_div (d : Dyadic) :
    (d.magnitude.1 : ℚ) / d.magnitude.2 = d.absRat := by
  unfold Dyadic.magnitude Dyadic.absRat
  split
  · rename_i h
    obtain ⟨n, hn⟩ := Int.eq_ofNat_of_zero_le h
    simp [hn]
  · rename_i h
    obtain ⟨n, hn⟩ := Int.eq_ofNat_of_zero_le (show 0 ≤ -d.exponent by omega)
    rw [show d.exponent = -(n : Int) by omega]
    simp [div_eq_mul_inv]

/-- Cutting a number is rounding its value toward zero. -/
lemma Dyadic.truncate_eq (d : Dyadic) : d.truncate = towardZero d.toRat := by
  have hfloor : ((d.magnitude.1 / d.magnitude.2 : ℕ) : Int) = ⌊d.absRat⌋ := by
    rw [← d.magnitude_div, Rat.floor_natCast_div_natCast]
    rfl
  have hnonneg := d.absRat_nonneg
  unfold Dyadic.truncate Dyadic.signed towardZero Dyadic.toRat
  rw [hfloor]
  cases d.negative with
  | false => simp [not_lt.2 hnonneg]
  | true =>
    rcases hnonneg.eq_or_lt with hzero | hpos
    · simp [← hzero]
    · simp [hpos, Int.ceil_neg]

/-! ## Comparison -/

/-- The mantissa of a float has 53 digits, unless its exponent is the least. -/
structure IsFull (mantissa : ℕ) (exponent : Int) : Prop where
  lt : mantissa < 2 ^ 53
  least : leastExponent ≤ exponent
  full : leastExponent < exponent → 2 ^ 52 ≤ mantissa

lemma isFull_of_ofParts {s s' : Sign} {e : BitVec 11} {m : BitVec 52} {mantissa : ℕ}
    {exponent : Int} {hmantissa : 0 < mantissa}
    (h : ofParts s e m = .finite s' mantissa exponent hmantissa) : IsFull mantissa exponent := by
  have hm := m.isLt
  have hplace : placeExponent e = (e.toNat : Int) - 1075 := rfl
  have hleast : leastExponent = -1074 := rfl
  unfold ofParts at h
  split at h
  · split at h <;> cases h
  · split at h
    · split at h
      · cases h
      · rename_i hzero _
        cases h
        have hexponent : placeExponent e + 1 = -1074 := by rw [hzero]; rfl
        exact ⟨by omega, by omega, by omega⟩
    · rename_i hzero
      cases h
      have hfull : (1#1 ++ m).toNat = 2 ^ 52 + m.toNat := by
        rw [BitVec.toNat_append, ← Nat.shiftLeft_add_eq_or_of_lt m.isLt]
        rfl
      have hpos : e.toNat ≠ 0 := fun heq => hzero (BitVec.eq_of_toNat_eq heq)
      exact ⟨by omega, by omega, by omega⟩

lemma isFull_of_unpack {s : Sign} {mantissa : ℕ} {exponent : Int} {hmantissa : 0 < mantissa}
    (h : x.toModel.unpack = .finite s mantissa exponent hmantissa) : IsFull mantissa exponent :=
  isFull_of_ofParts h

section Places

variable {m₁ m₂ : ℕ} {e₁ e₂ : Int}

/-- A higher exponent makes a larger number, whatever the mantissas. -/
lemma lt_of_exponent_lt (h₁ : IsFull m₁ e₁) (h₂ : IsFull m₂ e₂) (h : e₁ < e₂) :
    (m₁ * 2 ^ e₁ : ℚ) < m₂ * 2 ^ e₂ := by
  have hfull : (2 ^ 52 : ℚ) ≤ m₂ := by
    exact_mod_cast h₂.full (lt_of_le_of_lt h₁.least h)
  have hlt : (m₁ : ℚ) < 2 ^ 53 := by exact_mod_cast h₁.lt
  calc (m₁ * 2 ^ e₁ : ℚ) < 2 ^ 53 * 2 ^ e₁ := by gcongr
    _ = 2 ^ 52 * 2 ^ (e₁ + 1) := by
      rw [zpow_add_one₀ two_ne_zero]
      ring
    _ ≤ 2 ^ 52 * 2 ^ e₂ := by
      gcongr
      · exact one_le_two
      · exact h
    _ ≤ m₂ * 2 ^ e₂ := by gcongr

/-- Comparing the exponents and then the mantissas is comparing the numbers. -/
lemma compare_places (h₁ : IsFull m₁ e₁) (h₂ : IsFull m₂ e₂) :
    (compare e₁ e₂).then (compare m₁ m₂) = compare (m₁ * 2 ^ e₁ : ℚ) (m₂ * 2 ^ e₂) := by
  rcases lt_trichotomy e₁ e₂ with h | rfl | h
  · rw [compare_lt_iff_lt.2 h, compare_lt_iff_lt.2 (lt_of_exponent_lt h₁ h₂ h)]
    rfl
  · have hpos : (0 : ℚ) < 2 ^ e₁ := by positivity
    rw [compare_eq_iff_eq.2 rfl]
    rcases lt_trichotomy m₁ m₂ with h | rfl | h
    · have hlt : (m₁ * 2 ^ e₁ : ℚ) < m₂ * 2 ^ e₁ := by gcongr
      rw [compare_lt_iff_lt.2 h, compare_lt_iff_lt.2 hlt]
      rfl
    · rw [compare_eq_iff_eq.2 rfl, compare_eq_iff_eq.2 rfl]
      rfl
    · have hlt : (m₂ * 2 ^ e₁ : ℚ) < m₁ * 2 ^ e₁ := by gcongr
      rw [compare_gt_iff_gt.2 h, compare_gt_iff_gt.2 hlt]
      rfl
  · rw [compare_gt_iff_gt.2 h, compare_gt_iff_gt.2 (lt_of_exponent_lt h₂ h₁ h)]
    rfl

end Places

lemma compare_neg (p q : ℚ) : compare (-p) (-q) = compare q p := by
  rcases lt_trichotomy q p with h | rfl | h
  · rw [compare_lt_iff_lt.2 h, compare_lt_iff_lt.2 (neg_lt_neg h)]
  · rw [compare_eq_iff_eq.2 rfl, compare_eq_iff_eq.2 rfl]
  · rw [compare_gt_iff_gt.2 h, compare_gt_iff_gt.2 (neg_lt_neg h)]

lemma ofFloat?_cases (h : Dyadic.ofFloat? x = some d) :
    (∃ s, x.toModel.unpack = .zero s ∧ d.toRat = 0) ∨
    (∃ m e hm, x.toModel.unpack = .finite .positive m e hm ∧ 0 < m ∧ d.toRat = m * 2 ^ e) ∨
    ∃ m e hm, x.toModel.unpack = .finite .negative m e hm ∧ 0 < m ∧ d.toRat = -(m * 2 ^ e) := by
  rw [Dyadic.ofFloat?] at h
  cases hx : x.toModel.unpack with
  | zero s =>
    rw [hx] at h
    obtain rfl := Option.some.inj h
    exact .inl ⟨s, rfl, by simp [Dyadic.toRat, Dyadic.absRat]⟩
  | finite s m e hm =>
    rw [hx] at h
    obtain rfl := Option.some.inj h
    cases s with
    | positive => exact .inr (.inl ⟨m, e, hm, rfl, hm, rfl⟩)
    | negative => exact .inr (.inr ⟨m, e, hm, rfl, hm, rfl⟩)
  | infinity | notANumber =>
    rw [hx] at h
    cases h

/-- **Finite floats are compared by their values.** -/
theorem compare_of_ofFloat? (hx : Dyadic.ofFloat? x = some d) (hy : Dyadic.ofFloat? y = some d') :
    x.toModel.unpack.compare y.toModel.unpack = some (compare d.toRat d'.toRat) := by
  have hpos : ∀ {m : ℕ} {e : Int}, 0 < m → (0 : ℚ) < m * 2 ^ e := fun h => by positivity
  rcases ofFloat?_cases hx with ⟨s, hx, hd⟩ | ⟨m, e, hm, hx, hm', hd⟩ | ⟨m, e, hm, hx, hm', hd⟩ <;>
  rcases ofFloat?_cases hy with ⟨s', hy, hd'⟩ | ⟨m', e', hn, hy, hn', hd'⟩ |
    ⟨m', e', hn, hy, hn', hd'⟩ <;> rw [hx, hy, hd, hd', eq_comm]
  · exact congrArg some (compare_eq_iff_eq.2 rfl)
  · exact congrArg some (compare_lt_iff_lt.2 (hpos hn'))
  · exact congrArg some (compare_gt_iff_gt.2 (neg_neg_of_pos (hpos hn')))
  · exact congrArg some (compare_gt_iff_gt.2 (hpos hm'))
  · exact congrArg some (compare_places (isFull_of_unpack hx) (isFull_of_unpack hy)).symm
  · exact congrArg some (compare_gt_iff_gt.2 ((neg_neg_of_pos (hpos hn')).trans (hpos hm')))
  · exact congrArg some (compare_lt_iff_lt.2 (neg_neg_of_pos (hpos hm')))
  · exact congrArg some (compare_lt_iff_lt.2 ((neg_neg_of_pos (hpos hm')).trans (hpos hn')))
  · have hplaces := compare_places (isFull_of_unpack hx) (isFull_of_unpack hy)
    show _ = some ((compare e e').then (compare m m')).swap
    rw [hplaces, ← Std.OrientedOrd.eq_swap, compare_neg]

lemma le_iff : x ≤ y ↔ (x.toModel.unpack.compare y.toModel.unpack).any (·.isLE) = true := by
  show decide ((x.toModel.unpack.compare y.toModel.unpack).any (·.isLE) = true) = true ↔ _
  rw [decide_eq_true_iff]

lemma not_le_of_nan_left (h : x.toModel.unpack = .notANumber) : ¬x ≤ y := by
  rw [le_iff, h]
  nofun

lemma not_le_of_nan_right (h : y.toModel.unpack = .notANumber) : ¬x ≤ y := by
  rw [le_iff, h]
  cases x.toModel.unpack <;> nofun

lemma le_iff_toRat (hx : Dyadic.ofFloat? x = some d) (hy : Dyadic.ofFloat? y = some d') :
    x ≤ y ↔ d.toRat ≤ d'.toRat := by
  rw [le_iff, compare_of_ofFloat? hx hy]
  show (compare d.toRat d'.toRat).isLE = true ↔ _
  rw [Ordering.isLE_iff_ne_gt]
  exact compare_le_iff_le

lemma ne_notANumber_of_isNaN (h : x.isNaN = false) : x.toModel.unpack ≠ .notANumber := by
  have hnan : x.toModel.unpack.isNaN = false := h
  intro heq
  rw [heq] at hnan
  cases hnan

/-- A number that is no infinity has an exact value. -/
lemma exists_ofFloat?_of_ne (hx : x.toModel.unpack ≠ .notANumber)
    (hinfinite : ∀ s, x.toModel.unpack ≠ .infinity s) : ∃ d, Dyadic.ofFloat? x = some d := by
  rw [Dyadic.ofFloat?]
  cases hu : x.toModel.unpack with
  | notANumber => exact absurd hu hx
  | infinity s => exact absurd hu (hinfinite s)
  | zero | finite => exact ⟨_, rfl⟩

section Between

variable {l h : Float} {low high : Dyadic} (hl : Dyadic.ofFloat? l = some low)
  (hh : Dyadic.ofFloat? h = some high)

include hl in
lemma compare_infinity (s : Sign) : (UnpackedFloat.infinity s).compare l.toModel.unpack =
    some (match s with | .positive => .gt | .negative => .lt) := by
  rcases ofFloat?_cases hl with ⟨_, h, -⟩ | ⟨_, _, _, h, -⟩ | ⟨_, _, _, h, -⟩ <;> rw [h] <;>
    cases s <;> rfl

include hl in
lemma compare_infinity_right (s : Sign) :
    l.toModel.unpack.compare (UnpackedFloat.infinity s) =
      some (match s with | .positive => .lt | .negative => .gt) := by
  rcases ofFloat?_cases hl with ⟨_, h, -⟩ | ⟨_, _, _, h, -⟩ | ⟨_, _, _, h, -⟩ <;> rw [h] <;>
    cases s <;> rfl

include hl hh

/-- A number beyond neither of two finite floats lies between them. -/
lemma exists_between (hx : x.isNaN = false) (hlow : ¬x ≤ l) (hhigh : ¬h ≤ x) :
    ∃ d, Dyadic.ofFloat? x = some d ∧ low.toRat < d.toRat ∧ d.toRat < high.toRat := by
  have hinfinite : ∀ s, x.toModel.unpack ≠ .infinity s := by
    intro s hs
    rw [le_iff, hs, compare_infinity hl] at hlow
    rw [le_iff, hs, compare_infinity_right hh] at hhigh
    cases s with
    | positive => exact hhigh rfl
    | negative => exact hlow rfl
  obtain ⟨d, hd⟩ := exists_ofFloat?_of_ne (ne_notANumber_of_isNaN hx) hinfinite
  rw [le_iff_toRat hd hl, not_le] at hlow
  rw [le_iff_toRat hh hd, not_le] at hhigh
  exact ⟨d, hd, hlow, hhigh⟩

/-- The order of finite floats goes through any float between them. -/
lemma le_of_le_of_le (hlow : l ≤ x) (hhigh : x ≤ h) : low.toRat ≤ high.toRat := by
  have hnumber : x.toModel.unpack ≠ .notANumber := fun hx => not_le_of_nan_left hx hhigh
  have hinfinite : ∀ s, x.toModel.unpack ≠ .infinity s := by
    intro s hs
    rw [le_iff, hs, compare_infinity_right hl] at hlow
    rw [le_iff, hs, compare_infinity hh] at hhigh
    cases s with
    | positive => exact absurd hhigh Bool.false_ne_true
    | negative => exact absurd hlow Bool.false_ne_true
  obtain ⟨d, hd⟩ := exists_ofFloat?_of_ne hnumber hinfinite
  exact ((le_iff_toRat hl hd).1 hlow).trans ((le_iff_toRat hd hh).1 hhigh)

end Between

/-! ## Products -/

/-- A number stays one when it is packed. -/
lemma unpack_pack_ne {u : UnpackedFloat} (h : u ≠ .notANumber) :
    (Float.Model.pack u).unpack ≠ .notANumber := by
  obtain ⟨s, hs⟩ : ∃ s, withSign s u = u := by
    cases u with
    | notANumber => exact ⟨.positive, rfl⟩
    | infinity s | zero s | finite s => exact ⟨s, rfl⟩
  obtain ⟨e, m, hbits, hinfinite⟩ := exists_bits s h
  show UnpackedFloat.unpack Format.binary64 (UnpackedFloat.pack Format.binary64 u) ≠ _
  rw [← hs, hbits, unpack_bits]
  unfold ofParts
  split
  · rename_i he
    rw [if_pos (hinfinite he)]
    nofun
  · split
    · split <;> nofun
    · nofun

/-- The product of a number and a finite number other than zero is a number. -/
lemma isNaN_mul {s : Sign} {m : ℕ} {e : Int} {hm : 0 < m} (hx : x.isNaN = false)
    (hy : y.toModel.unpack = .finite s m e hm) : (x * y).isNaN = false := by
  have hmul : UnpackedFloat.mul Format.binary64 x.toModel.unpack y.toModel.unpack ≠
      .notANumber := by
    have hne := ne_notANumber_of_isNaN hx
    rw [hy]
    cases hu : x.toModel.unpack with
    | notANumber => exact absurd hu hne
    | infinity | zero => nofun
    | finite s' m' e' hm' =>
      show roundWithAccuracy Format.binary64 _ _ _ _ ≠ _
      unfold roundWithAccuracy
      dsimp only
      split <;> nofun
  have hpack := unpack_pack_ne hmul
  show (Float.Model.pack (UnpackedFloat.mul Format.binary64 x.toModel.unpack
    y.toModel.unpack)).unpack.isNaN = false
  cases h : (Float.Model.pack (UnpackedFloat.mul Format.binary64 x.toModel.unpack
    y.toModel.unpack)).unpack with
  | notANumber => exact absurd h hpack
  | infinity | zero | finite => rfl

/-- A product with a NaN is a NaN. -/
lemma unpack_nan_mul (hx : x.isNaN = true) : (x * y).toModel.unpack = .notANumber := by
  have hnan : x.toModel.unpack = .notANumber := by
    have hmodel : x.toModel.unpack.isNaN = true := hx
    cases h : x.toModel.unpack with
    | notANumber => rfl
    | infinity | zero | finite =>
      rw [h] at hmodel
      cases hmodel
  show (Float.Model.pack (UnpackedFloat.mul Format.binary64 x.toModel.unpack
    y.toModel.unpack)).unpack = _
  have hmul : UnpackedFloat.mul Format.binary64 .notANumber y.toModel.unpack = .notANumber := rfl
  have hpack : (Float.Model.pack .notANumber).unpack = .notANumber := rfl
  rw [hnan, hmul, hpack]

end SignalCalc.Number
