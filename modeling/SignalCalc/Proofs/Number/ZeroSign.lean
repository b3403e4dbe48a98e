import SignalCalc.Builtin.RealFunction
import SignalCalc.Proofs.Number.Standard

/-!
# The sign of a zero

The zeros differ in their sign only, and most of arithmetic keeps them together: sums, products,
quotients of zeros, roots and bounds of `0.0` and `-0.0` are equal, or zeros again.  `ZeroAlike` is
this relation between floats.  It is lost where a zero is divided by, where it is raised to a power
and, as far as can be known, where a sine, cosine or tangent is taken.

Adding a zero and multiplying by one is no change (`add_zero_eq`, `mul_one_eq`), but for the sign of a zero
that a zero is added to.
-/

namespace SignalCalc

/-- The functions of an angle.  They are those of the float library, of which nothing is known, not
even what they make of the sign of a zero. -/
def Builtin.RealFunction.isCircular : Builtin.RealFunction → Bool
  | .sin | .cos | .tan => true
  | _ => false

namespace Number

open Float.Model
open Float.Model.UnpackedFloat
open SignalCalc.Builtin

variable {x y z : Float}

/-- The same float, or two zeros. -/
def ZeroAlike (x y : Float) : Prop := x = y ∨ (x == 0.0) = true ∧ (y == 0.0) = true

instance : Decidable (ZeroAlike x y) :=
  inferInstanceAs (Decidable (x = y ∨ (x == 0.0) = true ∧ (y == 0.0) = true))

namespace ZeroAlike

@[refl] lemma refl (x : Float) : ZeroAlike x x := .inl rfl

lemma symm (h : ZeroAlike x y) : ZeroAlike y x := h.imp Eq.symm And.symm

lemma trans (hxy : ZeroAlike x y) (hyz : ZeroAlike y z) : ZeroAlike x z := by
  rcases hxy with rfl | ⟨hx, hy⟩
  · exact hyz
  · rcases hyz with rfl | ⟨-, hz⟩
    · exact .inr ⟨hx, hy⟩
    · exact .inr ⟨hx, hz⟩

/-- A function keeps zero-alike floats so if it does so with the two zeros. -/
lemma map {f : Float → Float} (hf : ZeroAlike (f 0.0) (f (-0.0))) (h : ZeroAlike x y) :
    ZeroAlike (f x) (f y) := by
  rcases h with rfl | ⟨hx, hy⟩
  · exact refl _
  · rcases zero_or_negZero hx with rfl | rfl <;> rcases zero_or_negZero hy with rfl | rfl
    · exact refl _
    · exact hf
    · exact hf.symm
    · exact refl _

end ZeroAlike

/-! ## Zeros in sums, products and quotients -/

lemma ofModel_pack_unpack (hx : x.isNaN = false) :
    Float.ofModel (Float.Model.pack x.toModel.unpack) = x := by
  rw [pack_unpack (ne_notANumber_of_isNaN hx)]

/-- An ordinary float is what it is with a zero added. -/
lemma IsOrdinary.add_zero (hx : IsOrdinary x) (hz : (z == 0.0) = true) :
    x + z = x ∧ z + x = x := by
  have hpack := ofModel_pack_unpack hx.isNaN
  obtain ⟨s, m, e, hm, h⟩ := hx
  have hleft : UnpackedFloat.add .binary64 x.toModel.unpack z.toModel.unpack =
      x.toModel.unpack := by
    rcases zero_or_negZero hz with rfl | rfl <;> rw [h] <;> rfl
  have hright : UnpackedFloat.add .binary64 z.toModel.unpack x.toModel.unpack =
      x.toModel.unpack := by
    rcases zero_or_negZero hz with rfl | rfl <;> rw [h] <;> rfl
  constructor
  · show Float.ofModel (.pack (UnpackedFloat.add .binary64 x.toModel.unpack z.toModel.unpack)) = x
    rw [hleft, hpack]
  · show Float.ofModel (.pack (UnpackedFloat.add .binary64 z.toModel.unpack x.toModel.unpack)) = x
    rw [hright, hpack]

lemma mul_eq_pack (x y : Float) : x * y =
    .ofModel (Float.Model.pack (UnpackedFloat.mul .binary64 x.toModel.unpack y.toModel.unpack)) :=
  rfl

lemma div_eq_pack (x y : Float) : x / y =
    .ofModel (Float.Model.pack (UnpackedFloat.div .binary64 x.toModel.unpack y.toModel.unpack)) :=
  rfl

lemma pack_zero_beq (s : Sign) :
    (Float.ofModel (Float.Model.pack (.zero s)) == 0.0) = true := by
  cases s <;> rfl

lemma exists_unpack_zero (hz : (z == 0.0) = true) : ∃ s, z.toModel.unpack = .zero s := by
  rcases zero_or_negZero hz with rfl | rfl
  · exact ⟨.positive, rfl⟩
  · exact ⟨.negative, rfl⟩

/-- A product of an ordinary float and a zero is a zero. -/
lemma IsOrdinary.mul_zero (hx : IsOrdinary x) (hz : (z == 0.0) = true) :
    (x * z == 0.0) = true ∧ (z * x == 0.0) = true := by
  obtain ⟨s, m, e, hm, h⟩ := hx
  obtain ⟨s', h'⟩ := exists_unpack_zero hz
  rw [mul_eq_pack, mul_eq_pack, h, h']
  exact ⟨pack_zero_beq (s * s'), pack_zero_beq (s' * s)⟩

/-- A quotient of a zero and an ordinary float is a zero. -/
lemma IsOrdinary.zero_div (hx : IsOrdinary x) (hz : (z == 0.0) = true) :
    (z / x == 0.0) = true := by
  obtain ⟨s, m, e, hm, h⟩ := hx
  obtain ⟨s', h'⟩ := exists_unpack_zero hz
  rw [div_eq_pack, h, h']
  exact pack_zero_beq (s' / s)

lemma unpack_neg (x : Float) : (-x).toModel.unpack = x.toModel.unpack.neg := by
  rcases kinds x with rfl | rfl | rfl | rfl | rfl | hx
  iterate 5 rfl
  obtain ⟨s, m, e, hm, h⟩ := hx
  have hneg : x.toModel.unpack.neg = withSign (-s) x.toModel.unpack := by
    rw [h]
    rfl
  show (Float.Model.pack x.toModel.unpack.neg).unpack = _
  rw [hneg, unpack_pack_withSign (by rw [h]; nofun)]

/-- A difference is the sum with the negative. -/
lemma sub_eq_add (x y : Float) : x - y = x + -y := by
  have happly : ∀ (s : Sign) (n : Int), (-s).apply n = -s.apply n := fun s n => by
    cases s with
    | positive => rfl
    | negative => exact (Int.neg_neg n).symm
  have hunpacked : ∀ u v : UnpackedFloat, UnpackedFloat.sub .binary64 u v =
      UnpackedFloat.add .binary64 u v.neg := fun u v => by
    cases u with
    | finite s m e hm =>
      cases v with
      | finite s' m' e' hm' =>
        show normalize _ (_ - _) _ _ = normalize _ (_ + _) _ _
        rw [happly, Int.sub_eq_add_neg]
      | _ => rfl
    | _ => cases v <;> rfl
  show Float.ofModel (Float.Model.pack (UnpackedFloat.sub .binary64 x.toModel.unpack
      y.toModel.unpack)) =
    Float.ofModel (Float.Model.pack (UnpackedFloat.add .binary64 x.toModel.unpack
      (-y).toModel.unpack))
  rw [unpack_neg, hunpacked]

/-! ## Arithmetic up to the signs of zeros -/

namespace ZeroAlike

lemma of_zeros (hx : (x == 0.0) = true) (hy : (y == 0.0) = true) : ZeroAlike x y := .inr ⟨hx, hy⟩

lemma neg (h : ZeroAlike x y) : ZeroAlike (-x) (-y) :=
  map (f := (- ·)) (.inr ⟨rfl, rfl⟩) h

lemma add_left (h : ZeroAlike x y) (z : Float) : ZeroAlike (x + z) (y + z) := by
  refine map (f := (· + z)) ?_ h
  rcases kinds z with rfl | rfl | rfl | rfl | rfl | hz
  iterate 3 exact .inl rfl
  iterate 2 exact .inr ⟨rfl, rfl⟩
  · exact .inl ((hz.add_zero rfl).2.trans (hz.add_zero rfl).2.symm)

lemma add_right (h : ZeroAlike x y) (z : Float) : ZeroAlike (z + x) (z + y) := by
  refine map (f := (z + ·)) ?_ h
  rcases kinds z with rfl | rfl | rfl | rfl | rfl | hz
  iterate 3 exact .inl rfl
  iterate 2 exact .inr ⟨rfl, rfl⟩
  · exact .inl ((hz.add_zero rfl).1.trans (hz.add_zero rfl).1.symm)

lemma mul_left (h : ZeroAlike x y) (z : Float) : ZeroAlike (x * z) (y * z) := by
  refine map (f := (· * z)) ?_ h
  rcases kinds z with rfl | rfl | rfl | rfl | rfl | hz
  iterate 3 exact .inl rfl
  iterate 2 exact .inr ⟨rfl, rfl⟩
  · exact of_zeros (hz.mul_zero rfl).2 (hz.mul_zero rfl).2

lemma mul_right (h : ZeroAlike x y) (z : Float) : ZeroAlike (z * x) (z * y) := by
  refine map (f := (z * ·)) ?_ h
  rcases kinds z with rfl | rfl | rfl | rfl | rfl | hz
  iterate 3 exact .inl rfl
  iterate 2 exact .inr ⟨rfl, rfl⟩
  · exact of_zeros (hz.mul_zero rfl).1 (hz.mul_zero rfl).1

lemma div_left (h : ZeroAlike x y) (z : Float) : ZeroAlike (x / z) (y / z) := by
  refine map (f := (· / z)) ?_ h
  rcases kinds z with rfl | rfl | rfl | rfl | rfl | hz
  · exact .inl rfl
  iterate 2 exact .inr ⟨rfl, rfl⟩
  iterate 2 exact .inl rfl
  · exact of_zeros (hz.zero_div rfl) (hz.zero_div rfl)

lemma quotient_left (h : ZeroAlike x y) (z : Float) : ZeroAlike (quotient x z) (quotient y z) := by
  rw [quotient_eq, quotient_eq]
  exact h.div_left z

lemma sub_left (h : ZeroAlike x y) (z : Float) : ZeroAlike (x - z) (y - z) := by
  rw [sub_eq_add, sub_eq_add]
  exact h.add_left (-z)

lemma sub_right (h : ZeroAlike x y) (z : Float) : ZeroAlike (z - x) (z - y) := by
  rw [sub_eq_add, sub_eq_add]
  exact h.neg.add_right z

/-- The sign of a zero exponent is not looked at. -/
lemma power_right (h : ZeroAlike x y) (z : Float) : power z x = power z y := by
  rcases h with rfl | ⟨hx, hy⟩
  · rfl
  · rw [power_exponentZero hx, power_exponentZero hy]

/-! ### Real functions -/

/-- Zeros of either sign stand at the same place in the order. -/
lemma compare_zero_left (s s' : Sign) (u : UnpackedFloat) :
    (UnpackedFloat.zero s).compare u = (UnpackedFloat.zero s').compare u := by
  cases u with
  | infinity t | finite t => cases t <;> rfl
  | notANumber | zero => rfl

lemma compare_zero_right (s s' : Sign) (u : UnpackedFloat) :
    u.compare (UnpackedFloat.zero s) = u.compare (UnpackedFloat.zero s') := by
  cases u with
  | infinity t | finite t => cases t <;> rfl
  | notANumber | zero => rfl

lemma lt_iff_left (h : ZeroAlike x y) (z : Float) : x < z ↔ y < z := by
  rcases h with rfl | ⟨hx, hy⟩
  · exact Iff.rfl
  · obtain ⟨s, hx⟩ := exists_unpack_zero hx
    obtain ⟨s', hy⟩ := exists_unpack_zero hy
    rw [lt_iff, lt_iff, hx, hy, compare_zero_left s s']

lemma lt_iff_right (h : ZeroAlike x y) (z : Float) : z < x ↔ z < y := by
  rcases h with rfl | ⟨hx, hy⟩
  · exact Iff.rfl
  · obtain ⟨s, hx⟩ := exists_unpack_zero hx
    obtain ⟨s', hy⟩ := exists_unpack_zero hy
    rw [lt_iff, lt_iff, hx, hy, compare_zero_right s s']

lemma unary {f : RealFunction} (hf : f.isCircular = false) (h : ZeroAlike x y) :
    ZeroAlike (f.unary x) (f.unary y) := by
  refine map (f := f.unary) ?_ h
  cases f with
  | sin | cos | tan => cases hf
  | exp | ln => exact .inl rfl
  | sqrt | abs | floor | max | min => exact .inr ⟨rfl, rfl⟩

lemma binary {f : RealFunction} (hf : f.isCircular = false) {a a' b b' : Float}
    (ha : ZeroAlike a a') (hb : ZeroAlike b b') : ZeroAlike (f.binary a b) (f.binary a' b') := by
  have hgreater : b > a ↔ b' > a' := (ha.lt_iff_left b).trans (hb.lt_iff_right a')
  have hless : b < a ↔ b' < a' := (hb.lt_iff_left a).trans (ha.lt_iff_right b')
  cases f with
  | max =>
    simp only [RealFunction.binary, RealFunction.binary?, orSpecial, hgreater]
    split <;> assumption
  | min =>
    simp only [RealFunction.binary, RealFunction.binary?, orSpecial, hless]
    split <;> assumption
  | _ => exact unary hf ha

/-- Real functions keep floats alike but for signs of zeros, with the exception of the circular
ones. -/
lemma apply {f : RealFunction} (hf : f.isCircular = false) {xs ys : List Float}
    (h : List.Forall₂ ZeroAlike xs ys) : ZeroAlike (f.apply xs) (f.apply ys) := by
  cases h with
  | nil => exact refl _
  | cons hx htail =>
    cases htail with
    | nil => exact unary hf hx
    | cons hy htail =>
      cases htail with
      | nil => exact binary hf hx hy
      | cons => exact refl _

end ZeroAlike

/-! ## Adding a zero -/

lemma add_zero_eq (hx : x ≠ -0.0) (hz : (z == 0.0) = true) : x + z = x := by
  rcases kinds x with rfl | rfl | rfl | rfl | rfl | hordinary
  · rcases zero_or_negZero hz with rfl | rfl <;> rfl
  · rcases zero_or_negZero hz with rfl | rfl <;> rfl
  · rcases zero_or_negZero hz with rfl | rfl <;> rfl
  · rcases zero_or_negZero hz with rfl | rfl <;> rfl
  · exact absurd rfl hx
  · exact (hordinary.add_zero hz).1

lemma add_zero_alike (x : Float) (hz : (z == 0.0) = true) : ZeroAlike (x + z) x := by
  by_cases hx : x = -0.0
  · rcases zero_or_negZero hz with rfl | rfl <;> rw [hx] <;> exact .inr ⟨rfl, rfl⟩
  · exact .inl (add_zero_eq hx hz)

lemma mul_zero_of_isFinite (hx : x.isFinite = true) (hz : (z == 0.0) = true) :
    (x * z == 0.0) = true := by
  rcases kinds x with rfl | rfl | rfl | rfl | rfl | hordinary
  · cases hx
  · cases hx
  · cases hx
  · rcases zero_or_negZero hz with rfl | rfl <;> rfl
  · rcases zero_or_negZero hz with rfl | rfl <;> rfl
  · exact (hordinary.mul_zero hz).1

lemma ZeroAlike.isFinite_eq (h : ZeroAlike x y) : x.isFinite = y.isFinite := by
  rcases h with rfl | ⟨hx, hy⟩
  · rfl
  · rcases zero_or_negZero hx with rfl | rfl <;> rcases zero_or_negZero hy with rfl | rfl <;> rfl

/-! ## Beyond finite floats -/

lemma nan_add (x : Float) : nan + x = nan := by
  rcases kinds x with rfl | rfl | rfl | rfl | rfl | hx <;> rfl

lemma add_nan (x : Float) : x + nan = nan := by
  rcases kinds x with rfl | rfl | rfl | rfl | rfl | ⟨s, m, e, hm, h⟩
  iterate 5 rfl
  have hadd : x + nan = .ofModel (Float.Model.pack
      (UnpackedFloat.add .binary64 x.toModel.unpack nan.toModel.unpack)) := rfl
  rw [hadd, h]
  rfl

lemma nan_mul (x : Float) : nan * x = nan := rfl

lemma mul_nan (x : Float) : x * nan = nan := by
  rcases kinds x with rfl | rfl | rfl | rfl | rfl | ⟨s, m, e, hm, h⟩
  iterate 5 rfl
  rw [mul_eq_pack, h]
  rfl

lemma not_isFinite_cases (hx : x.isFinite = false) : x = nan ∨ x = infinity ∨ x = -infinity := by
  rcases kinds x with rfl | rfl | rfl | rfl | rfl | hordinary
  · exact .inl rfl
  · exact .inr (.inl rfl)
  · exact .inr (.inr rfl)
  · cases hx
  · cases hx
  · rw [hordinary.isFinite] at hx
    cases hx

lemma mul_zero_of_not_isFinite (hx : x.isFinite = false) (hz : (z == 0.0) = true) :
    x * z = nan := by
  rcases not_isFinite_cases hx with rfl | rfl | rfl <;>
    rcases zero_or_negZero hz with rfl | rfl <;> rfl

lemma pack_not_isFinite {u : UnpackedFloat} (h : u.isFinite = false) :
    (Float.ofModel (Float.Model.pack u)).isFinite = false := by
  cases u with
  | notANumber => rfl
  | infinity s => cases s <;> rfl
  | zero | finite => cases h

lemma add_not_isFinite (hx : x.isFinite = false) (y : Float) : (x + y).isFinite = false := by
  have hu : x.toModel.unpack.isFinite = false := hx
  refine pack_not_isFinite ?_
  cases h : x.toModel.unpack with
  | notANumber => cases y.toModel.unpack <;> rfl
  | infinity s =>
    cases y.toModel.unpack with
    | infinity s' => cases s <;> cases s' <;> rfl
    | notANumber | zero | finite => rfl
  | zero | finite =>
    rw [h] at hu
    cases hu

lemma div_not_isFinite (hx : x.isFinite = false) (y : Float) : (x / y).isFinite = false := by
  have hu : x.toModel.unpack.isFinite = false := hx
  refine pack_not_isFinite ?_
  cases h : x.toModel.unpack with
  | notANumber => cases y.toModel.unpack <;> rfl
  | infinity s => cases y.toModel.unpack <;> rfl
  | zero | finite =>
    rw [h] at hu
    cases hu

lemma IsOrdinary.mul_not_isFinite (hx : IsOrdinary x) (hy : y.isFinite = false) :
    (x * y).isFinite = false := by
  obtain ⟨s, m, e, hm, h⟩ := hx
  have hu : y.toModel.unpack.isFinite = false := hy
  refine pack_not_isFinite ?_
  rw [h]
  cases h' : y.toModel.unpack with
  | notANumber | infinity => rfl
  | zero | finite =>
    rw [h'] at hu
    cases hu

lemma exponential_zero (hx : (x == 0.0) = true) : exponential x = 1.0 := by
  rcases zero_or_negZero hx with rfl | rfl <;> rfl

/-! ## Multiplying by one -/

lemma repeat_shiftRightOne (m k : ℕ) :
    k.repeat ExtendedMantissa.shiftRightOne ⟨m * 2 ^ k, false, false⟩ = ⟨m, false, false⟩ := by
  induction k generalizing m with
  | zero => rw [pow_zero, mul_one]; rfl
  | succ k ih =>
    have hshift : ExtendedMantissa.shiftRightOne ⟨m * 2, false, false⟩ = ⟨m, false, false⟩ := by
      simp [ExtendedMantissa.shiftRightOne]
    rw [pow_succ', ← mul_assoc, Nat.repeat, ih, hshift]

/-- The mantissa of a float stands at the exponent that it should have. -/
lemma targetExponent_of_isFull {m : ℕ} {e : Int} (hm : 0 < m) (h : IsFull m e) :
    Format.binary64.targetExponent (totalExponent m e) = e := by
  have hlog : m.log2 < 53 := (Nat.log2_lt hm.ne').2 h.lt
  have hfull : leastExponent < e → 52 ≤ m.log2 := fun hlt =>
    (Nat.le_log2 hm.ne').2 (h.full hlt)
  have hleast := h.least
  have htarget : Format.binary64.targetExponent (totalExponent m e) =
      max ((m.log2 : Int) + 1 + e - 53) (-1074) := rfl
  have hvalue : leastExponent = -1074 := rfl
  rw [htarget]
  omega

lemma shift_longer {m k : ℕ} {e : Int} (hm : 0 < m) (h : IsFull m e) :
    shiftToTargetExponent .binary64 (m * 2 ^ k) (e - k) .exact = (⟨m, false, false⟩, e) := by
  have htotal : totalExponent (m * 2 ^ k) (e - k) = totalExponent m e := by
    have hlog : (m * 2 ^ k).log2 = m.log2 + k := by
      induction k with
      | zero => rw [pow_zero, mul_one, add_zero]
      | succ k ih => rw [pow_succ', mul_left_comm, Nat.log2_two_mul (by positivity), ih, add_assoc]
    unfold totalExponent
    rw [hlog]
    omega
  have hamount : (e - (e - k)).toNat = k := by omega
  unfold shiftToTargetExponent
  rw [htotal, targetExponent_of_isFull hm h]
  unfold shiftToExponent
  dsimp only
  rw [hamount]
  refine Prod.ext (repeat_shiftRightOne m k) ?_
  show e - k + k = e
  omega

/-- Rounding a mantissa of a float that was made longer by zeros gives the mantissa back. -/
lemma roundWithAccuracy_longer {s : Sign} {m k : ℕ} {e : Int} (hm : 0 < m) (h : IsFull m e) :
    roundWithAccuracy .binary64 s (m * 2 ^ k) (e - k) .exact = .finite s m e hm := by
  have hagain := shift_longer (k := 0) hm h
  rw [pow_zero, mul_one, Nat.cast_zero, sub_zero] at hagain
  have hrounded : (ExtendedMantissa.mk m false false).roundedMantissa = m := rfl
  unfold roundWithAccuracy
  simp only [shift_longer hm h, hrounded, hagain]
  exact dif_neg hm.ne'

/-- A float times one is the float. -/
theorem mul_one_eq (x : Float) : x * 1.0 = x := by
  rcases kinds x with rfl | rfl | rfl | rfl | rfl | hx
  iterate 5 rfl
  have hpack := ofModel_pack_unpack hx.isNaN
  obtain ⟨s, m, e, hm, h⟩ := hx
  have hone : (1.0 : Float).toModel.unpack = .finite .positive (2 ^ 52) (-52) (by decide) := rfl
  have hmul : UnpackedFloat.mul .binary64 x.toModel.unpack (1.0 : Float).toModel.unpack =
      x.toModel.unpack := by
    rw [h, hone]
    have hsign : s * Sign.positive = s := by cases s <;> rfl
    show roundWithAccuracy .binary64 (s * .positive) (m * 2 ^ 52) (e - (52 : ℕ)) .exact = _
    rw [hsign, roundWithAccuracy_longer hm (isFull_of_unpack h)]
  rw [mul_eq_pack, hmul, hpack]

end Number

end SignalCalc
