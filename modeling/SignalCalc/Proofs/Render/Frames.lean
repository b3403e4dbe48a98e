import SignalCalc.Proofs.Number.Order
import SignalCalc.Render.Wave

/-!
# Samples in a sound file

Every float has a sample of 32 bits (`toPcm_isPcmOf`): NaN is silence, what is scaled beyond the
range is the end of the range, and anything else is cut toward zero.  As the sample is in range,
it can be read back from its four bytes (`fromSigned_signedBytes`).
-/

namespace SignalCalc.Render

open SignalCalc.Number
open List

/-! ## Floats as samples -/

/-- The whole number is the sample of a float. -/
structure IsPcmOf (x : Float) (n : Int) : Prop where
  lower : -2 ^ 31 ≤ n
  upper : n ≤ 2 ^ 31 - 1
  nan : x.isNaN = true → n = 0
  high : x * 2147483647.0 ≥ 2147483647.0 → n = 2 ^ 31 - 1
  low : x * 2147483647.0 ≤ -2147483648.0 → n = -2 ^ 31
  between : x.isNaN = false → ¬x * 2147483647.0 ≥ 2147483647.0 →
    ¬x * 2147483647.0 ≤ -2147483648.0 →
    ∃ d, Dyadic.ofFloat? (x * 2147483647.0) = some d ∧ n = towardZero d.toRat

/-- The largest sample as an exact value. -/
def highest : Number.Dyadic := ⟨false, (2 ^ 31 - 1) * 2 ^ 22, -22⟩

/-- The smallest sample as an exact value. -/
def lowest : Number.Dyadic := ⟨true, 2 ^ 52, -21⟩

lemma ofFloat?_highest : Dyadic.ofFloat? 2147483647.0 = some highest := by
  decide +kernel

lemma ofFloat?_lowest : Dyadic.ofFloat? (-2147483648.0) = some lowest := by
  decide +kernel

lemma toRat_highest : highest.toRat = 2 ^ 31 - 1 := by
  norm_num [highest, Number.Dyadic.toRat, Number.Dyadic.absRat]

lemma toRat_lowest : lowest.toRat = -2 ^ 31 := by
  norm_num [lowest, Number.Dyadic.toRat, Number.Dyadic.absRat]

/-- What is cut toward zero stays in any range of whole numbers around zero. -/
lemma towardZero_bounds {q : ℚ} {l h : Int} (hl : l < q) (hh : q < h) :
    l ≤ towardZero q ∧ towardZero q ≤ h := by
  unfold towardZero
  split
  · exact ⟨(Int.lt_ceil.2 hl).le, Int.ceil_le.2 hh.le⟩
  · exact ⟨Int.le_floor.2 hl.le, (Int.floor_lt.2 hh).le⟩

/-- **Every float has a sample**, also an infinity or a NaN. -/
theorem toPcm_isPcmOf (x : Float) : IsPcmOf x (toPcm x) := by
  have hmax : pcmMax = 2 ^ 31 - 1 := by decide
  have hmin : pcmMin = -2 ^ 31 := by decide
  unfold toPcm
  dsimp only
  by_cases hnan : x.isNaN = true
  · have hmul := unpack_nan_mul (y := 2147483647.0) hnan
    have hhigh : ¬x * 2147483647.0 ≥ 2147483647.0 := not_le_of_nan_right hmul
    have hlow : ¬x * 2147483647.0 ≤ -2147483648.0 := not_le_of_nan_left hmul
    rw [if_pos hnan]
    exact ⟨by decide, by decide, fun _ => rfl, fun h => absurd h hhigh, fun h => absurd h hlow,
      fun h => absurd hnan (by rw [h]; exact Bool.false_ne_true)⟩
  rw [if_neg hnan]
  by_cases hhigh : x * 2147483647.0 ≥ 2147483647.0
  · have hlow : ¬x * 2147483647.0 ≤ -2147483648.0 := fun hlow => by
      have hle := le_of_le_of_le ofFloat?_highest ofFloat?_lowest hhigh hlow
      rw [toRat_highest, toRat_lowest] at hle
      norm_num at hle
    rw [if_pos hhigh, hmax]
    exact ⟨by decide, by decide, fun h => absurd h hnan, fun _ => rfl, fun h => absurd h hlow,
      fun _ h => absurd hhigh h⟩
  rw [if_neg hhigh]
  by_cases hlow : x * 2147483647.0 ≤ -2147483648.0
  · rw [if_pos hlow, hmin]
    exact ⟨by decide, by decide, fun h => absurd h hnan, fun h => absurd h hhigh, fun _ => rfl,
      fun _ _ h => absurd hlow h⟩
  have hscale : (2147483647.0 : Float).toModel.unpack =
      .finite .positive ((2 ^ 31 - 1) * 2 ^ 22) (-22) (by decide) := rfl
  have hproduct : (x * 2147483647.0).isNaN = false := isNaN_mul (Bool.eq_false_iff.2 hnan) hscale
  obtain ⟨d, hd, hl, hh⟩ := exists_between ofFloat?_lowest ofFloat?_highest hproduct hlow hhigh
  have htruncate : truncate? (x * 2147483647.0) = some (towardZero d.toRat) := by
    rw [truncate?, hd, Option.map_some, Dyadic.truncate_eq]
  have hbounds : -2 ^ 31 ≤ towardZero d.toRat ∧ towardZero d.toRat ≤ 2 ^ 31 - 1 :=
    towardZero_bounds (by rw [toRat_lowest] at hl; exact_mod_cast hl)
      (by rw [toRat_highest] at hh; exact_mod_cast hh)
  rw [if_neg hlow, htruncate, Option.getD_some]
  exact ⟨hbounds.1, hbounds.2, fun h => absurd h hnan, fun h => absurd h hhigh,
    fun h => absurd h hlow, fun _ _ _ => ⟨d, hd, rfl⟩⟩

/-! ## Samples as bytes -/

/-- The number of some bytes, the lowest first. -/
def fromBytes : List UInt8 → ℕ
  | [] => 0
  | b :: rest => b.toNat + 256 * fromBytes rest

/-- The signed number of four bytes. -/
def fromSigned (bytes : List UInt8) : Int :=
  if fromBytes bytes < 2 ^ 31 then fromBytes bytes else fromBytes bytes - 2 ^ 32

lemma fromBytes_littleEndian {width n : ℕ} (h : n < 256 ^ width) :
    fromBytes (littleEndian width n) = n := by
  induction width generalizing n with
  | zero => simp_all [littleEndian, fromBytes]
  | succ width ih =>
    have hrest : n / 256 < 256 ^ width := by
      rw [Nat.div_lt_iff_lt_mul (by decide), ← pow_succ]
      exact h
    have hbyte : (UInt8.ofNat (n % 256)).toNat = n % 256 :=
      UInt8.toNat_ofNat_of_lt' (Nat.mod_lt n (by decide))
    rw [littleEndian, fromBytes, ih hrest, hbyte]
    omega

/-- A sample in range is read back from its bytes. -/
lemma fromSigned_signedBytes {n : Int} (hlower : -2 ^ 31 ≤ n) (hupper : n ≤ 2 ^ 31 - 1) :
    fromSigned (signedBytes n) = n := by
  unfold fromSigned signedBytes
  rw [fromBytes_littleEndian (by omega)]
  split <;> omega

end SignalCalc.Render
