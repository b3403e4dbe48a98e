import SignalCalc.Number.Read
import SignalCalc.Proofs.Number.Sign

/-!
# Numerals are not negative

A numeral has no sign, and the float nearest to it is no NaN and not below zero (`zero_le_value`).
Rounding, packing, and the product or quotient of numbers with a plus sign keep the plus sign.  Only
infinity times zero, or a quotient of two zeros or two infinities, would give a NaN, and the powers of
ten that a numeral is scaled by are neither.
-/

namespace SignalCalc.Number

open Float.Model
open Float.Model.UnpackedFloat

variable {u v : UnpackedFloat} {x : Float}

/-- A number with a plus sign; infinity is one, and so is the positive zero. -/
def HasPlus : UnpackedFloat → Prop
  | .notANumber => False
  | .infinity s | .zero s | .finite s _ _ _ => s = .positive

/-- A number above zero that is no infinity. -/
def IsAboveZero : UnpackedFloat → Prop
  | .finite s _ _ _ => s = .positive
  | _ => False

/-! ## Packing -/

lemma hasPlus_ofParts {e : BitVec 11} {m : BitVec 52} (h : e = -1#_ → m = 0#_) :
    HasPlus (ofParts .positive e m) := by
  unfold ofParts
  split
  · rename_i he
    rw [if_pos (h he)]
    rfl
  · split
    · split <;> rfl
    · rfl

/-- The bits of a number that is packed are no bits of a NaN. -/
lemma exists_bits (s : Sign) (h : u ≠ .notANumber) : ∃ (e : BitVec 11) (m : BitVec 52),
    UnpackedFloat.pack Format.binary64 (withSign s u) = bits s e m ∧ (e = -1#_ → m = 0#_) := by
  cases u with
  | notANumber => exact absurd rfl h
  | infinity => exact ⟨-1#_, 0#_, rfl, fun _ => rfl⟩
  | zero => exact ⟨0#_, 0#_, rfl, fun _ => rfl⟩
  | finite s' mantissa exponent hmantissa =>
    unfold withSign UnpackedFloat.pack
    simp only
    split
    · exact ⟨-1#_, 0#_, rfl, fun _ => rfl⟩
    · rename_i hbiased
      split
      · refine ⟨_, _, rfl, fun he => ?_⟩
        have hmax : (-1#11).toNat = 2047 := by decide
        have hnat := congrArg BitVec.toNat he
        rw [BitVec.toNat_ofNat, hmax] at hnat
        omega
      · exact ⟨0#_, _, rfl, nofun⟩

lemma ne_notANumber_of_hasPlus (h : HasPlus u) : u ≠ .notANumber := by
  rintro rfl
  exact h

lemma withSign_of_hasPlus (h : HasPlus u) : withSign .positive u = u := by
  cases u with
  | notANumber => exact h.elim
  | infinity s | zero s | finite s =>
    obtain rfl : s = .positive := h
    rfl

/-- A number keeps its plus sign when it is packed. -/
lemma hasPlus_pack (h : HasPlus u) : HasPlus (Float.Model.pack u).unpack := by
  obtain ⟨e, m, hbits, hinfinite⟩ := exists_bits .positive (ne_notANumber_of_hasPlus h)
  show HasPlus (UnpackedFloat.unpack Format.binary64 (UnpackedFloat.pack Format.binary64 u))
  rw [← withSign_of_hasPlus h, hbits, unpack_bits]
  exact hasPlus_ofParts hinfinite

/-! ## Arithmetic -/

lemma hasPlus_roundWithAccuracy (format : Format) (mantissa : ℕ) (exponent : Int)
    (accuracy : Accuracy) :
    HasPlus (roundWithAccuracy format .positive mantissa exponent accuracy) := by
  unfold roundWithAccuracy
  dsimp only
  split <;> rfl

lemma hasPlus_mul (format : Format) (hu : HasPlus u) (hv : IsAboveZero v) :
    HasPlus (UnpackedFloat.mul format u v) := by
  cases v with
  | finite s m e hm =>
    obtain rfl : s = .positive := hv
    cases u with
    | notANumber => exact hu.elim
    | infinity s | zero s =>
      obtain rfl : s = .positive := hu
      rfl
    | finite s m' e' hm' =>
      obtain rfl : s = .positive := hu
      exact hasPlus_roundWithAccuracy format _ _ _
  | notANumber | infinity | zero => exact hv.elim

lemma hasPlus_div (format : Format) (hu : HasPlus u) (hv : IsAboveZero v) :
    HasPlus (UnpackedFloat.div format u v) := by
  cases v with
  | finite s m e hm =>
    obtain rfl : s = .positive := hv
    cases u with
    | notANumber => exact hu.elim
    | infinity s | zero s =>
      obtain rfl : s = .positive := hu
      rfl
    | finite s m' e' hm' =>
      obtain rfl : s = .positive := hu
      exact hasPlus_roundWithAccuracy format _ _ _
  | notANumber | infinity | zero => exact hv.elim

/-- Not below zero, and so no NaN. -/
lemma zero_le_of_hasPlus (h : HasPlus x.toModel.unpack) : 0.0 ≤ x := by
  show decide ((0.0 : Float).toModel.unpack.le x.toModel.unpack = true) = true
  rw [decide_eq_true_iff, unpack_zero]
  cases hx : x.toModel.unpack with
  | notANumber =>
    rw [hx] at h
    exact h.elim
  | infinity s | zero s | finite s =>
    rw [hx] at h
    obtain rfl : s = .positive := h
    rfl

lemma isNaN_of_hasPlus (h : HasPlus x.toModel.unpack) : x.isNaN = false := by
  show x.toModel.unpack.isNaN = false
  cases hx : x.toModel.unpack with
  | notANumber =>
    rw [hx] at h
    exact h.elim
  | infinity | zero | finite => rfl

/-! ## Numerals -/

lemma hasPlus_ofNat (n : ℕ) : HasPlus (UnpackedFloat.ofNat Format.binary64 n) := by
  unfold UnpackedFloat.ofNat UnpackedFloat.ofInt UnpackedFloat.normalize
  split
  · rename_i hlt
    have hneg : (n : Int) < 0 := Int.compare_eq_lt.1 hlt
    omega
  · rfl
  · exact hasPlus_roundWithAccuracy _ _ _ _

instance : DecidablePred IsAboveZero
  | .finite .positive _ _ _ => isTrue rfl
  | .finite .negative _ _ _ => isFalse nofun
  | .notANumber | .infinity _ | .zero _ => isFalse nofun

lemma isAboveZero_powers : ∀ power ∈ Float.exactlyRepresentablePowersOfTen,
    IsAboveZero power.toModel.unpack := by
  decide +kernel

lemma hasPlus_scaled (m : ℕ) (e : Int) :
    HasPlus (UnpackedFloat.ofScientific Format.binary64 m e) := by
  unfold UnpackedFloat.ofScientific
  split
  · rfl
  · split
    · rfl
    · split
      · rfl
      · split
        · refine hasPlus_mul _ ?_ ?_ <;> rfl
        · refine hasPlus_div _ ?_ ?_ <;> rfl

lemma hasPlus_ofScientific (m : ℕ) (negative : Bool) (e : ℕ) :
    HasPlus (Float.ofScientific m negative e).toModel.unpack := by
  unfold Float.ofScientific
  split
  · have hcoefficient : HasPlus m.toUInt64.toFloat.toModel.unpack := hasPlus_pack (hasPlus_ofNat _)
    dsimp only
    split
    · exact hasPlus_pack (hasPlus_div _ hcoefficient (isAboveZero_powers _ (Array.getElem_mem _)))
    · exact hasPlus_pack (hasPlus_mul _ hcoefficient (isAboveZero_powers _ (Array.getElem_mem _)))
  · exact hasPlus_pack (hasPlus_scaled _ _)

lemma hasPlus_value (n : Numeral) : HasPlus n.value.toModel.unpack := by
  unfold Numeral.value
  dsimp only
  split
  · rfl
  · split
    · rfl
    · exact hasPlus_ofScientific _ _ _

/-- The value of a numeral is not below zero. -/
theorem zero_le_value (n : Numeral) : 0.0 ≤ n.value := zero_le_of_hasPlus (hasPlus_value n)

/-- The value of a numeral is a number, or infinity. -/
theorem isNaN_value (n : Numeral) : n.value.isNaN = false := isNaN_of_hasPlus (hasPlus_value n)

end SignalCalc.Number
