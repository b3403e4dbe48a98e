import Mathlib
import SignalCalc.Number.Exact

/-!
# Signs of floats

Changing the sign of a float changes nothing else: its exact value keeps mantissa and exponent.
The bits of a float are a sign, an exponent and a mantissa, and packing what was unpacked from them
gives the same bits again, so a float with a new sign can be unpacked once more.
-/

namespace SignalCalc.Number

open Float.Model
open Float.Model.UnpackedFloat

/-! ## Packing and unpacking -/

/-- The same size with a sign. -/
def withSign (s : Sign) : UnpackedFloat → UnpackedFloat
  | .notANumber => .notANumber
  | .infinity _ => .infinity s
  | .zero _ => .zero s
  | .finite _ mantissa exponent hmantissa => .finite s mantissa exponent hmantissa

lemma abs_eq_withSign (u : UnpackedFloat) : u.abs = withSign .positive u := by cases u <;> rfl

lemma neg_withSign (s : Sign) (u : UnpackedFloat) : (withSign s u).neg = withSign (-s) u := by
  cases u <;> rfl

lemma withSign_withSign (s s' : Sign) (u : UnpackedFloat) :
    withSign s (withSign s' u) = withSign s u := by
  cases u <;> rfl

lemma ofBitVec_toBitVec (s : Sign) : Sign.ofBitVec s.toBitVec = s := by cases s <;> rfl

lemma unpackSign_packComponents {format : Format} {s : Sign} {e : BitVec format.exponentBits}
    {m : BitVec format.mantissaBitsWithoutImplicit} :
    unpackSign (packComponents format s e m) = s.toBitVec := by
  ext i hi
  obtain rfl : i = 0 := by omega
  simp [unpackSign, packComponents, BitVec.getLsbD_append, BitVec.getElem_append]

/-- The exponent of the last place of a float. -/
def placeExponent (e : BitVec 11) : Int :=
  (e.toNat : Int) - (Format.binary64.exponentBias + Format.binary64.mantissaBitsWithoutImplicit)

/-- A float from its sign, its exponent and its mantissa, as they stand in its bits. -/
def ofParts (s : Sign) (e : BitVec 11) (m : BitVec 52) : UnpackedFloat :=
  if e = -1#_ then
    if m = 0#_ then .infinity s else .notANumber
  else if e = 0#_ then
    if h : m = 0#_ then .zero s
    else .finite s m.toNat (placeExponent e + 1) (by
      simpa [BitVec.toNat_pos, BitVec.pos_iff_ne_zero] using h)
  else .finite s (1#1 ++ m).toNat (placeExponent e) (by
    rw [BitVec.toNat_append]
    exact Nat.lt_of_lt_of_le (by decide) Nat.left_le_or)

/-- The bits of a float from its parts. -/
def bits (s : Sign) (e : BitVec 11) (m : BitVec 52) : BitVec 64 :=
  packComponents Format.binary64 s e m

lemma unpack_eq (b : BitVec 64) : UnpackedFloat.unpack Format.binary64 b =
    ofParts (Sign.ofBitVec (@unpackSign Format.binary64 b))
      (@unpackExponent Format.binary64 b) (@unpackMantissa Format.binary64 b) :=
  rfl

section Bits

variable {s s' : Sign} {e : BitVec 11} {m : BitVec 52}

lemma unpack_bits : UnpackedFloat.unpack Format.binary64 (bits s e m) = ofParts s e m := by
  have hsign : @unpackSign Format.binary64 (bits s e m) = s.toBitVec := unpackSign_packComponents
  have hexponent : @unpackExponent Format.binary64 (bits s e m) = e :=
    unpackExponent_packComponents
  have hmantissa : @unpackMantissa Format.binary64 (bits s e m) = m :=
    unpackMantissa_packComponents
  rw [unpack_eq, hsign, hexponent, hmantissa, ofBitVec_toBitVec]

lemma withSign_ofParts : withSign s' (ofParts s e m) = ofParts s' e m := by
  unfold ofParts
  split
  · split <;> rfl
  · split
    · split <;> rfl
    · rfl

/-- Packing a number with a full mantissa leaves its first bit out. -/
lemma pack_normal {mantissa : ℕ} {hmantissa : 0 < mantissa} (hlow : e ≠ -1#_)
    (hlog : mantissa.log2 = 52) :
    UnpackedFloat.pack Format.binary64 (.finite s mantissa (placeExponent e) hmantissa) =
      bits s e (BitVec.ofNat 52 mantissa) := by
  have hbiased : (placeExponent e + Format.binary64.exponentBias +
      Format.binary64.mantissaBitsWithoutImplicit).toNat = e.toNat := by
    unfold placeExponent
    omega
  have hlt : e.toNat + 1 < 2 ^ 11 := by
    have hne : e.toNat ≠ (-1#11).toNat := fun heq => hlow (BitVec.eq_of_toNat_eq heq)
    have hmax : (-1#11).toNat = 2047 := by decide
    have hsize := e.isLt
    omega
  unfold UnpackedFloat.pack
  simp only [hbiased]
  rw [if_neg (Nat.not_le_of_lt hlt), if_pos (by rw [hlog]; rfl), BitVec.ofNat_toNat,
    BitVec.setWidth_eq]
  rfl

/-- Packing a number with a short mantissa keeps it. -/
lemma pack_subnormal {mantissa : ℕ} {hmantissa : 0 < mantissa} (hlog : mantissa.log2 < 52) :
    UnpackedFloat.pack Format.binary64 (.finite s mantissa (placeExponent 0#11 + 1) hmantissa) =
      bits s 0#11 (BitVec.ofNat 52 mantissa) := by
  have hbiased : (placeExponent 0#11 + 1 + Format.binary64.exponentBias +
      Format.binary64.mantissaBitsWithoutImplicit).toNat = 1 := by decide
  unfold UnpackedFloat.pack
  simp only [hbiased]
  rw [if_neg (by decide), if_neg ?_]
  · rfl
  · show ¬mantissa.log2 + 1 = 53
    omega

lemma pack_ofParts (h : ofParts s e m ≠ .notANumber) :
    UnpackedFloat.pack Format.binary64 (ofParts s e m) = bits s e m := by
  unfold ofParts at h ⊢
  by_cases he : e = -1#_
  · rw [if_pos he] at h ⊢
    by_cases hm : m = 0#_
    · rw [if_pos hm, he, hm]
      rfl
    · exact absurd (if_neg hm) h
  · rw [if_neg he]
    by_cases hzero : e = 0#_
    · rw [if_pos hzero]
      by_cases hm : m = 0#_
      · rw [dif_pos hm, hzero, hm]
        rfl
      · have hne : m.toNat ≠ 0 := fun heq => hm (BitVec.eq_of_toNat_eq heq)
        have hlog : m.toNat.log2 < 52 := (Nat.log2_lt hne).2 m.isLt
        rw [dif_neg hm, hzero, pack_subnormal hlog, BitVec.ofNat_toNat, BitVec.setWidth_eq]
    · have hfull : (1#1 ++ m).toNat = 2 ^ 52 + m.toNat := by
        rw [BitVec.toNat_append, ← Nat.shiftLeft_add_eq_or_of_lt m.isLt]
        rfl
      have hsize := m.isLt
      have hlog : (1#1 ++ m).toNat.log2 = 52 := by
        rw [hfull]
        exact (Nat.log2_eq_iff (by omega)).2 (by omega)
      have hmantissa : BitVec.ofNat 52 (1#1 ++ m).toNat = m := by
        refine BitVec.eq_of_toNat_eq ?_
        rw [BitVec.toNat_ofNat, hfull, Nat.add_mod_left, Nat.mod_eq_of_lt hsize]
      rw [if_neg hzero, pack_normal he hlog, hmantissa]

/-- A float can be unpacked again after it got another sign. -/
lemma unpack_pack_withSign {f : Float.Model} (hf : f.unpack ≠ .notANumber) :
    (Float.Model.pack (withSign s f.unpack)).unpack = withSign s f.unpack := by
  have hs : withSign s f.unpack ≠ .notANumber := by
    cases h : f.unpack with
    | notANumber => exact absurd h hf
    | _ => nofun
  show UnpackedFloat.unpack Format.binary64 (UnpackedFloat.pack Format.binary64
    (withSign s f.unpack)) = withSign s f.unpack
  have hparts : withSign s f.unpack = ofParts s (@unpackExponent Format.binary64 f.toBits.toBitVec)
      (@unpackMantissa Format.binary64 f.toBits.toBitVec) := withSign_ofParts
  rw [hparts] at hs ⊢
  rw [pack_ofParts hs, unpack_bits]

lemma toBitVec_ofBitVec (b : BitVec 1) : (Sign.ofBitVec b).toBitVec = b := by
  revert b
  decide

lemma append_parts (b : BitVec (1 + 11 + 52)) :
    b.extractLsb' 63 1 ++ b.extractLsb' 52 11 ++ b.extractLsb' 0 52 = b := by
  have hupper : 63 = 52 + 11 := rfl
  have hlower : 52 = 0 + 52 := rfl
  rw [BitVec.extractLsb'_append_extractLsb'_eq_extractLsb' hupper,
    BitVec.extractLsb'_append_extractLsb'_eq_extractLsb' hlower, BitVec.extractLsb'_eq_self]

/-- The parts of some bits make up these bits. -/
lemma bits_parts (b : BitVec 64) : bits (Sign.ofBitVec (@unpackSign Format.binary64 b))
    (@unpackExponent Format.binary64 b) (@unpackMantissa Format.binary64 b) = b := by
  unfold bits packComponents
  rw [toBitVec_ofBitVec]
  exact append_parts b

lemma pack_unpack {f : Float.Model} (hf : f.unpack ≠ .notANumber) :
    Float.Model.pack f.unpack = f := by
  have hparts : UnpackedFloat.pack Format.binary64 f.unpack = f.toBits.toBitVec := by
    have hpack := pack_ofParts hf
    rwa [bits_parts] at hpack
  obtain ⟨b, hb⟩ := f
  unfold Float.Model.pack
  simp only [hparts]

/-- Numbers that unpack alike are one, down to the sign of a zero. -/
lemma eq_of_unpack_eq {x y : Float} (hx : x.toModel.unpack ≠ .notANumber)
    (h : x.toModel.unpack = y.toModel.unpack) : x = y := by
  have hpack := pack_unpack hx
  rw [h, pack_unpack (h ▸ hx)] at hpack
  obtain ⟨x⟩ := x
  obtain ⟨y⟩ := y
  exact congrArg Float.ofModel hpack.symm

end Bits

/-! ## Size and comparison -/

variable {x : Float}

lemma finite_cases (hx : x.isFinite = true) :
    (∃ s, x.toModel.unpack = .zero s) ∨
      ∃ s mantissa exponent hmantissa,
        x.toModel.unpack = .finite s mantissa exponent hmantissa := by
  have hfinite : x.toModel.unpack.isFinite = true := hx
  cases h : x.toModel.unpack with
  | zero s => exact .inl ⟨s, rfl⟩
  | finite s mantissa exponent hmantissa => exact .inr ⟨s, mantissa, exponent, hmantissa, rfl⟩
  | infinity | notANumber =>
    rw [h] at hfinite
    cases hfinite

lemma ne_notANumber (hx : x.isFinite = true) : x.toModel.unpack ≠ .notANumber := by
  rcases finite_cases hx with ⟨s, h⟩ | ⟨s, m, e, hm, h⟩
  all_goals
    rw [h]
    nofun

lemma unpack_abs (hx : x.isFinite = true) :
    x.abs.toModel.unpack = withSign .positive x.toModel.unpack := by
  show (Float.Model.pack x.toModel.unpack.abs).unpack = _
  rw [abs_eq_withSign, unpack_pack_withSign (ne_notANumber hx)]

lemma isFinite_abs (hx : x.isFinite = true) : x.abs.isFinite = true := by
  show x.abs.toModel.unpack.isFinite = true
  rw [unpack_abs hx]
  rcases finite_cases hx with ⟨s, h⟩ | ⟨s, m, e, hm, h⟩
  all_goals
    rw [h]
    rfl

lemma abs_abs (hx : x.isFinite = true) : x.abs.abs = x.abs := by
  show Float.ofModel (Float.Model.pack x.abs.toModel.unpack.abs) =
    Float.ofModel (Float.Model.pack x.toModel.unpack.abs)
  rw [unpack_abs hx, abs_eq_withSign, abs_eq_withSign, withSign_withSign]

lemma unpack_neg_abs (hx : x.isFinite = true) :
    (-x.abs).toModel.unpack = withSign .negative x.toModel.unpack := by
  have hsign : x.abs.toModel.unpack.neg = withSign .negative x.abs.toModel.unpack := by
    rw [unpack_abs hx, neg_withSign, withSign_withSign]
    rfl
  show (Float.Model.pack x.abs.toModel.unpack.neg).unpack = _
  rw [hsign, unpack_pack_withSign (ne_notANumber (isFinite_abs hx)), unpack_abs hx,
    withSign_withSign]

lemma lt_iff {y : Float} : x < y ↔ x.toModel.unpack.compare y.toModel.unpack = some .lt := by
  have hlt : x < y ↔ (x.toModel.unpack.compare y.toModel.unpack == some .lt) = true := by
    show decide ((x.toModel.unpack.compare y.toModel.unpack == some .lt) = true) = true ↔ _
    rw [decide_eq_true_iff]
  rw [hlt, beq_iff_eq]

lemma beq_iff {y : Float} :
    (x == y) = true ↔ x.toModel.unpack.compare y.toModel.unpack = some .eq := by
  show (x.toModel.unpack.compare y.toModel.unpack == some .eq) = true ↔ _
  rw [beq_iff_eq]

lemma beq_self (hx : x.isFinite = true) : (x == x) = true := by
  rw [beq_iff]
  rcases finite_cases hx with ⟨s, h⟩ | ⟨s, m, e, hm, h⟩
  · rw [h]
    rfl
  · rw [h]
    cases s <;> simp [UnpackedFloat.compare]

lemma unpack_zero : (0.0 : Float).toModel.unpack = .zero .positive := rfl

lemma zero_beq (h : (x == 0.0) = true) : ((0.0 : Float) == x) = true := by
  rw [beq_iff, unpack_zero] at h ⊢
  cases hx : x.toModel.unpack with
  | zero s => rfl
  | notANumber =>
    rw [hx] at h
    cases h
  | infinity s | finite s =>
    rw [hx] at h
    cases s <;> cases h

/-- A finite float is below zero when it is negative and no zero. -/
lemma lt_zero_iff (hx : x.isFinite = true) :
    x < 0.0 ↔ ∃ mantissa exponent hmantissa,
      x.toModel.unpack = .finite .negative mantissa exponent hmantissa := by
  rw [lt_iff, unpack_zero]
  rcases finite_cases hx with ⟨s, h⟩ | ⟨s, m, e, hm, h⟩
  · rw [h]
    exact ⟨nofun, nofun⟩
  · rw [h]
    cases s with
    | negative => exact ⟨fun _ => ⟨m, e, hm, rfl⟩, fun _ => rfl⟩
    | positive => exact ⟨nofun, nofun⟩

/-- The size of a float that is not below zero is the float. -/
lemma abs_beq (hx : x.isFinite = true) (h : ¬x < 0.0) : (x.abs == x) = true := by
  have hself := beq_iff.1 (beq_self hx)
  rw [beq_iff, unpack_abs hx]
  rcases finite_cases hx with ⟨s, hunpack⟩ | ⟨s, m, e, hm, hunpack⟩
  · rw [hunpack]
    rfl
  · cases s with
    | negative => exact absurd ((lt_zero_iff hx).2 ⟨m, e, hm, hunpack⟩) h
    | positive =>
      rw [hunpack] at hself ⊢
      exact hself

/-- A float below zero is its size with a minus sign. -/
lemma neg_abs_beq (hx : x.isFinite = true) (h : x < 0.0) : (-x.abs == x) = true := by
  obtain ⟨m, e, hm, hunpack⟩ := (lt_zero_iff hx).1 h
  have hself := beq_iff.1 (beq_self hx)
  rw [beq_iff, unpack_neg_abs hx]
  rw [hunpack] at hself ⊢
  exact hself

/-- A float put together again from its size and its sign. -/
def reread (x : Float) : Float := if x < 0.0 then -x.abs else x.abs

lemma reread_beq (hx : x.isFinite = true) : (reread x == x) = true := by
  rw [reread]
  split
  · exact neg_abs_beq hx ‹_›
  · exact abs_beq hx ‹_›

lemma unpack_reread (hx : x.isFinite = true) (hzero : ¬∃ s, x.toModel.unpack = .zero s) :
    (reread x).toModel.unpack = x.toModel.unpack := by
  rw [reread]
  split
  · rename_i hlt
    obtain ⟨m, e, hm, h⟩ := (lt_zero_iff hx).1 hlt
    rw [unpack_neg_abs hx, h]
    rfl
  · rename_i hlt
    rcases finite_cases hx with h | ⟨s, m, e, hm, h⟩
    · exact absurd h hzero
    · cases s with
      | negative => exact absurd ((lt_zero_iff hx).2 ⟨m, e, hm, h⟩) hlt
      | positive =>
        rw [unpack_abs hx, h]
        rfl

lemma eq_neg_zero (h : x.toModel.unpack = .zero .negative) : x = -0.0 := by
  have hne : x.toModel.unpack ≠ .notANumber := by
    rw [h]
    nofun
  exact eq_of_unpack_eq hne (h.trans rfl)

lemma eq_zero_of_beq (h : (x == 0.0) = true) (hneg : x ≠ -0.0) : x = 0.0 := by
  rw [beq_iff, unpack_zero] at h
  cases hx : x.toModel.unpack with
  | zero s =>
    cases s with
    | negative => exact absurd (eq_neg_zero hx) hneg
    | positive => exact eq_of_unpack_eq (by rw [hx]; nofun) (hx.trans unpack_zero.symm)
  | notANumber =>
    rw [hx] at h
    cases h
  | infinity s | finite s =>
    rw [hx] at h
    cases s <;> cases h

/-- Only the sign of a zero is lost when a float is put together again. -/
lemma reread_eq (hx : x.isFinite = true) (hneg : x ≠ -0.0) : reread x = x := by
  by_cases hzero : ∃ s, x.toModel.unpack = .zero s
  · obtain ⟨s, hs⟩ := hzero
    have hx0 : x = 0.0 := eq_zero_of_beq (beq_iff.2 (by rw [hs, unpack_zero]; rfl)) hneg
    rw [hx0]
    decide +kernel
  · have hunpack := unpack_reread hx hzero
    exact eq_of_unpack_eq (by rw [hunpack]; exact ne_notANumber hx) hunpack

/-! ## Exact values -/

/-- A number of the same size that is not negative. -/
def Dyadic.size (d : Dyadic) : Dyadic := { d with negative := false }

/-- The exact value of a float that is no zero, and that of its size. -/
lemma exists_ofFloat? (hx : x.isFinite = true) (hzero : ¬∃ s, x.toModel.unpack = .zero s) :
    ∃ d, Dyadic.ofFloat? x = some d ∧ Dyadic.ofFloat? x.abs = some d.size ∧ d.mantissa ≠ 0 ∧
      (x < 0.0 ↔ d.negative = true) := by
  rw [Dyadic.ofFloat?, Dyadic.ofFloat?, unpack_abs hx, lt_zero_iff hx]
  rcases finite_cases hx with h | ⟨s, m, e, hm, h⟩
  · exact absurd h hzero
  · rw [h]
    refine ⟨_, rfl, rfl, Nat.ne_of_gt hm, ?_⟩
    cases s with
    | negative => exact ⟨fun _ => rfl, fun _ => ⟨m, e, hm, rfl⟩⟩
    | positive => exact ⟨nofun, fun hneg => absurd hneg Bool.false_ne_true⟩

lemma bounds_of_ofParts {s s' : Sign} {e : BitVec 11} {m : BitVec 52} {mantissa : ℕ}
    {exponent : Int} {hmantissa : 0 < mantissa}
    (h : ofParts s e m = .finite s' mantissa exponent hmantissa) :
    mantissa < 2 ^ 53 ∧ exponent ≤ 972 := by
  have he := e.isLt
  have hm := m.isLt
  have hplace : placeExponent e = (e.toNat : Int) - 1075 := rfl
  unfold ofParts at h
  split at h
  · split at h <;> cases h
  · rename_i hnan
    split at h
    · split at h
      · cases h
      · rename_i hzero _
        cases h
        rw [hzero] at hplace
        exact ⟨by omega, by rw [hzero, hplace]; decide⟩
    · cases h
      exact ⟨(1#1 ++ m).isLt, by omega⟩

/-- Mantissa and exponent of a float are bounded. -/
lemma bounds_of_ofFloat? {d : Dyadic} (h : Dyadic.ofFloat? x = some d) :
    d.mantissa < 2 ^ 53 ∧ d.exponent ≤ 972 := by
  rw [Dyadic.ofFloat?] at h
  cases hx : x.toModel.unpack with
  | finite s m e hm =>
    rw [hx] at h
    obtain rfl := Option.some.inj h
    exact bounds_of_ofParts hx
  | zero s =>
    rw [hx] at h
    obtain rfl := Option.some.inj h
    exact ⟨Nat.two_pow_pos 53, show (0 : Int) ≤ 972 by decide⟩
  | infinity | notANumber =>
    rw [hx] at h
    cases h

end SignalCalc.Number
