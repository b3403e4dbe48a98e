import SignalCalc.Proofs.Number.Sign
import SignalCalc.Proofs.Syntax.Tokens
import SignalCalc.Signal.Printed
import SignalCalc.Value.Numeric

/-!
# Printed numbers

A finite real is printed as its size, with a minus sign in front if it is below zero
(`realText_eq`).  Whether the digits of a size read back as that size is left open here; those of a
whole number do, for they are read exactly and rounded once (`isNumeral_toDigits`).
-/

namespace SignalCalc.Number

open SignalCalc.Syntax.Token
open SignalCalc.Text

/-! ## Reals -/

lemma isWhole_size (d : Dyadic) : d.size.isWhole = d.isWhole := rfl

lemma magnitude_snd_pos (d : Dyadic) : 0 < d.magnitude.2 := by
  unfold Dyadic.magnitude
  split
  · exact Nat.one_pos
  · exact Nat.two_pow_pos _

lemma magnitude_fst_pos {d : Dyadic} (h : d.mantissa ≠ 0) : 0 < d.magnitude.1 := by
  have hpos := Nat.pos_of_ne_zero h
  unfold Dyadic.magnitude
  split
  · exact Nat.mul_pos hpos (Nat.two_pow_pos _)
  · exact hpos

/-- A whole number is printed with its sign. -/
lemma wholeText_neg {n : ℕ} (h : 0 < n) : wholeText (-(n : Int)) = "-" ++ wholeText n := by
  have hneg : -(n : Int) < 0 := by omega
  rw [wholeText, if_pos hneg, wholeText, if_neg (by omega), Int.natAbs_neg]

lemma wholeText_truncate {d : Dyadic} (hneg : d.negative = true) (hmantissa : d.mantissa ≠ 0)
    (hwhole : d.isWhole = true) : wholeText d.truncate = "-" ++ wholeText d.size.truncate := by
  have hquotient : 0 < d.magnitude.1 / d.magnitude.2 := by
    have hdvd : d.magnitude.2 ∣ d.magnitude.1 := Nat.dvd_of_mod_eq_zero (beq_iff_eq.1 hwhole)
    exact Nat.div_pos (Nat.le_of_dvd (magnitude_fst_pos hmantissa) hdvd) (magnitude_snd_pos d)
  rw [Dyadic.truncate, Dyadic.signed, if_pos hneg, wholeText_neg hquotient]
  rfl

/-- The digits of a float that is no zero are those of its size, with a minus sign in front if it
is below zero. -/
lemma exactText_eq {x : Float} (hx : x.isFinite = true) (hzero : ¬∃ s, x.toModel.unpack = .zero s) :
    exactText x = if x < 0.0 then "-" ++ exactText x.abs else exactText x.abs := by
  obtain ⟨d, hd, habs, -, hneg⟩ := exists_ofFloat? hx hzero
  unfold exactText RealFormat.text
  simp only [hd, habs]
  by_cases hlt : x < 0.0
  · rw [if_pos hlt, if_pos (hneg.1 hlt), ← String.ofList_append]
    rfl
  · rw [if_neg hlt, if_neg (mt hneg.2 hlt)]
    rfl

lemma realText_zero {x : Float} {s : Float.Model.UnpackedFloat.Sign}
    (hx : x.toModel.unpack = .zero s) : realText x = "0" := by
  have hfinite : x.isFinite = true := by
    show x.toModel.unpack.isFinite = true
    rw [hx]
    rfl
  have hd : Dyadic.ofFloat? x = some ⟨s == .negative, 0, 0⟩ := by rw [Dyadic.ofFloat?, hx]
  have hsmall : x.abs < 1e16 := by
    rw [lt_iff, unpack_abs hfinite, hx]
    rfl
  have htruncate : truncate? x = some 0 := by
    rw [truncate?, hd]
    cases s <;> rfl
  have hwhole : Number.isWhole x = true := by
    rw [Number.isWhole, hd]
    cases s <;> rfl
  unfold realText
  simp only [htruncate, hwhole, decide_eq_true hsmall, Bool.and_self, if_true]
  rfl

/-- A finite real is printed as its size, with a minus sign in front if it is below zero. -/
lemma realText_eq {x : Float} (hx : x.isFinite = true) :
    realText x = if x < 0.0 then "-" ++ realText x.abs else realText x.abs := by
  by_cases hzero : ∃ s, x.toModel.unpack = .zero s
  · obtain ⟨s, hs⟩ := hzero
    have habs : x.abs.toModel.unpack = .zero .positive := by
      rw [unpack_abs hx, hs]
      rfl
    have hlt : ¬x < 0.0 := by
      rw [lt_iff, hs]
      nofun
    rw [if_neg hlt, realText_zero hs, realText_zero habs]
  have hexact := exactText_eq hx hzero
  obtain ⟨d, hd, habs, hmantissa, hneg⟩ := exists_ofFloat? hx hzero
  unfold realText
  simp only [truncate?, Number.isWhole, hd, habs, abs_abs hx, Option.map_some, Option.any_some,
    isWhole_size]
  by_cases hlt : x < 0.0
  · rw [if_pos hlt] at hexact ⊢
    by_cases hwhole : (d.isWhole && decide (x.abs < 1e16)) = true
    · rw [if_pos hwhole, if_pos hwhole]
      exact wholeText_truncate (hneg.1 hlt) hmantissa (Bool.and_eq_true_iff.1 hwhole).1
    · rw [if_neg hwhole, if_neg hwhole, hexact]
  · have hsize : d.size = d := by
      rw [Dyadic.size, ← Bool.eq_false_iff.2 (mt hneg.2 hlt)]
    rw [if_neg hlt] at hexact ⊢
    rw [hsize, hexact]

/-! ## Whole numbers -/

lemma digitValue_of_ascii {c : Char} (h : c.isDigit = true) :
    Text.isDigit c = true ∧ digitValue c = c.toNat - '0'.toNat := by
  have hrange : 0x30 ≤ c.toNat ∧ c.toNat ≤ 0x39 := by
    simpa [Char.isDigit, UInt32.le_iff_toNat_le] using h
  have hfirst : digitZeros.find? (fun first => first ≤ c.toNat && c.toNat < first + 10) =
      some 0x30 := by
    have hin : (decide (0x30 ≤ c.toNat) && decide (c.toNat < 0x30 + 10)) = true := by
      simp only [Bool.and_eq_true, decide_eq_true_eq]
      omega
    exact List.find?_cons_of_pos hin
  have hvalue : digitValue? c = some (c.toNat - 0x30) := by
    rw [digitValue?, hfirst, Option.map_some]
  rw [Text.isDigit, digitValue, hvalue]
  exact ⟨rfl, rfl⟩

lemma digitsValue_of_ascii {cs : List Char} (h : ∀ c ∈ cs, c.isDigit = true) :
    digitsValue cs = Nat.ofDigitChars 10 cs 0 := by
  unfold digitsValue Nat.ofDigitChars
  generalize 0 = init
  induction cs generalizing init with
  | nil => rfl
  | cons c cs ih =>
    rw [List.foldl_cons, List.foldl_cons, (digitValue_of_ascii (h c List.mem_cons_self)).2]
    exact ih (fun d hd => h d (List.mem_cons_of_mem c hd)) _

/-- The digits of a whole number are one numeral. -/
lemma scan_toDigits (n : ℕ) : Numeral.scan (Nat.toDigits 10 n) = some (⟨n, 0⟩, []) := by
  have hascii : ∀ c ∈ Nat.toDigits 10 n, c.isDigit = true := fun c hc =>
    Nat.isDigit_of_mem_toDigits (by decide) (by decide) hc
  have hdigit : ∀ c ∈ Nat.toDigits 10 n, Text.isDigit c = true := fun c hc =>
    (digitValue_of_ascii (hascii c hc)).1
  have htake : (Nat.toDigits 10 n).takeWhile Text.isDigit = Nat.toDigits 10 n :=
    List.takeWhile_eq_self_iff.2 hdigit
  have hdrop : (Nat.toDigits 10 n).dropWhile Text.isDigit = [] := List.dropWhile_eq_nil_iff.2 hdigit
  have hnonempty : (Nat.toDigits 10 n).isEmpty = false := by
    rw [List.isEmpty_eq_false_iff]
    exact Nat.toDigits_ne_nil
  unfold Numeral.scan
  simp only [htake, hdrop, hnonempty, List.append_nil, digitsValue_of_ascii hascii,
    Nat.ofDigitChars_ten_toDigits]
  rfl

/-- More digits than a whole number has that is a float. -/
def mostDigits : ℕ := 400

/-- The digits of a whole number read back as its float. -/
lemma isNumeral_toDigits {n : ℕ} (hn : n < 10 ^ mostDigits) :
    IsNumeral (Nat.toDigits 10 n) (Float.ofNat n) := by
  refine ⟨_, scan_toDigits n, ?_⟩
  have hlength : (Nat.toDigits 10 n).length ≤ mostDigits :=
    (Nat.length_toDigits_le_iff (by decide) (by decide)).2 hn
  unfold Numeral.value
  simp only
  by_cases hzero : n = 0
  · rw [if_pos (.inl hzero), hzero]
    decide
  · have hmost : mostDigits = 400 := rfl
    rw [if_neg (by omega), if_neg (by omega)]
    rfl

/-- The float nearest to a whole number is that number. -/
def IsExact (n : Int) : Prop := Value.compareWhole n (Float.ofInt n) = some .eq

lemma truncate_of_signed {d : Dyadic} {n : Int}
    (h : d.signed d.magnitude.1 = n * d.magnitude.2) : d.truncate = n := by
  have hpos : (d.magnitude.2 : Int) ≠ 0 :=
    Int.natCast_ne_zero.2 (Nat.ne_of_gt (magnitude_snd_pos d))
  unfold Dyadic.truncate
  unfold Dyadic.signed at h ⊢
  split at h
  · have hsize : (d.magnitude.1 : Int) = -n * d.magnitude.2 := by rw [Int.neg_mul, ← h, Int.neg_neg]
    rw [if_pos ‹_›, Int.natCast_ediv, hsize, Int.mul_ediv_cancel _ hpos, Int.neg_neg]
  · rw [if_neg ‹_›, Int.natCast_ediv, h, Int.mul_ediv_cancel _ hpos]

namespace IsExact

variable {n : Int}

lemma exists_ofFloat? (h : IsExact n) :
    ∃ d, Dyadic.ofFloat? (Float.ofInt n) = some d ∧
      d.signed d.magnitude.1 = n * d.magnitude.2 := by
  unfold IsExact Value.compareWhole at h
  split at h
  · rename_i d hd
    exact ⟨d, hd, (Std.compare_eq_iff_eq.1 (Option.some.inj h)).symm⟩
  · split at h
    · cases h
    · split at h <;> cases h

lemma truncate?_eq (h : IsExact n) : truncate? (Float.ofInt n) = some n := by
  obtain ⟨d, hd, hsigned⟩ := h.exists_ofFloat?
  rw [truncate?, hd, Option.map_some, truncate_of_signed hsigned]

lemma isFinite (h : IsExact n) : (Float.ofInt n).isFinite = true := by
  obtain ⟨d, hd, -⟩ := h.exists_ofFloat?
  show (Float.ofInt n).toModel.unpack.isFinite = true
  rw [Dyadic.ofFloat?] at hd
  cases hx : (Float.ofInt n).toModel.unpack with
  | finite | zero => rfl
  | infinity | notANumber =>
    rw [hx] at hd
    cases hd

lemma not_zero (h : IsExact n) (hn : n ≠ 0) :
    ¬∃ s, (Float.ofInt n).toModel.unpack = .zero s := by
  rintro ⟨s, hs⟩
  obtain ⟨d, hd, hsigned⟩ := h.exists_ofFloat?
  rw [Dyadic.ofFloat?, hs] at hd
  obtain rfl := Option.some.inj hd
  have hzero : n * 1 = 0 := by
    rw [show n * 1 = _ from hsigned.symm]
    cases s <;> rfl
  omega

lemma natAbs_lt (h : IsExact n) : n.natAbs < 10 ^ mostDigits := by
  obtain ⟨d, hd, rfl⟩ := Option.map_eq_some_iff.1 h.truncate?_eq
  obtain ⟨hmantissa, hexponent⟩ := bounds_of_ofFloat? hd
  have hsize : d.truncate.natAbs = d.magnitude.1 / d.magnitude.2 := by
    unfold Dyadic.truncate Dyadic.signed
    split
    · rw [Int.natAbs_neg, Int.natAbs_natCast]
    · exact Int.natAbs_natCast _
  have hpower : ∀ j k : ℕ, 53 + k < 3 * j → 2 ^ 53 * 2 ^ k < 10 ^ j := by
    intro j k hk
    rw [← Nat.pow_add]
    calc 2 ^ (53 + k) < 2 ^ (3 * j) := Nat.pow_lt_pow_right (by decide) hk
      _ = (2 ^ 3) ^ j := Nat.pow_mul 2 3 j
      _ ≤ 10 ^ j := Nat.pow_le_pow_left (by decide) j
  have hlow := Int.toNat_le.2 hexponent
  rw [hsize]
  have hmost : mostDigits = 400 := rfl
  have hbound := hpower mostDigits d.exponent.toNat (by omega)
  refine Nat.lt_of_le_of_lt ((Nat.div_le_self _ _).trans ?_) hbound
  unfold Dyadic.magnitude
  split
  · exact Nat.mul_le_mul_right _ (Nat.le_of_lt hmantissa)
  · exact (Nat.le_of_lt hmantissa).trans (Nat.le_mul_of_pos_right _ (Nat.two_pow_pos _))

/-- The float of a whole number is that number also after it was put together again. -/
lemma compareWhole_reread (h : IsExact n) (hn : n ≠ 0) :
    Value.compareWhole n (reread (Float.ofInt n)) = some .eq := by
  have hsame : Dyadic.ofFloat? (reread (Float.ofInt n)) = Dyadic.ofFloat? (Float.ofInt n) := by
    rw [Dyadic.ofFloat?, unpack_reread h.isFinite (h.not_zero hn), Dyadic.ofFloat?]
  obtain ⟨d, hd, hsigned⟩ := h.exists_ofFloat?
  unfold Value.compareWhole
  rw [hsame, hd]
  exact congrArg some (Std.compare_eq_iff_eq.2 hsigned.symm)

end IsExact

/-- The float of a whole number is the float of its size, with a minus sign if it is negative. -/
lemma ofInt_eq (n : Int) :
    Float.ofInt n = if n < 0 then -(Float.ofNat n.natAbs) else Float.ofNat n.natAbs := by
  cases n with
  | ofNat n =>
    have hnot : ¬Int.ofNat n < 0 := Int.not_lt.2 (Int.natCast_nonneg n)
    rw [if_neg hnot]
    rfl
  | negSucc n =>
    rw [if_pos (Int.negSucc_lt_zero n)]
    rfl

end SignalCalc.Number
