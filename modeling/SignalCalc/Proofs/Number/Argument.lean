import SignalCalc.Proofs.Syntax.Tokens

/-!
# Numerals as arguments

A real can be handed in as a text, which is read with more freedom than program text: blanks, a sign,
underscores, and digits of all scripts, which become digits of one script first.  A numeral of program
text needs none of that.  It is read so as well, and as the same number (`readReal?_of_isNumeral`),
because a numeral is read the same way with its digits exchanged for digits of the same value
(`scan_map`).
-/

namespace SignalCalc.Number

open SignalCalc.Syntax.Token
open SignalCalc.Text

variable {c : Char} {cs : List Char} {f : Char → Char} {n : Numeral} {v : Float}

/-- The characters of a numeral that are no digits. -/
def marks : List Char := ['.', 'e', 'E', '+', '-']

/-- A character that a numeral may hold. -/
def InNumeral (c : Char) : Prop := isDigit c = true ∨ c ∈ marks

/-! ## The characters of a numeral -/

lemma exists_exponentSign (cs : List Char) :
    ∃ sign, cs = sign ++ (exponentSign cs).2 ∧ ∀ c ∈ sign, c ∈ marks := by
  unfold exponentSign
  split
  · exact ⟨['+'], rfl, by simp [marks]⟩
  · exact ⟨['-'], rfl, by simp [marks]⟩
  · exact ⟨[], rfl, nofun⟩

lemma inNumeral_of_scanExponent (h : (scanExponent cs).2 = []) : ∀ c ∈ cs, InNumeral c := by
  cases cs with
  | nil => exact nofun
  | cons e cs =>
    rw [scanExponent_cons] at h
    split at h
    · rename_i hcomplete
      have hletter : e = 'e' ∨ e = 'E' := by simpa using (Bool.and_eq_true_iff.1 hcomplete).1
      have hdigits : ∀ c ∈ (exponentSign cs).2, isDigit c = true := List.dropWhile_eq_nil_iff.1 h
      obtain ⟨sign, hsplit, hsign⟩ := exists_exponentSign cs
      refine List.forall_mem_cons.2 ⟨.inr (by rcases hletter with rfl | rfl <;> decide), ?_⟩
      rw [hsplit]
      exact List.forall_mem_append.2 ⟨fun c hc => .inr (hsign c hc), fun c hc => .inl (hdigits c hc)⟩
    · cases h

/-- Digits, and what stands behind them. -/
lemma inNumeral_of_dropWhile (h : ∀ c ∈ cs.dropWhile isDigit, InNumeral c) : ∀ c ∈ cs, InNumeral c := by
  intro c hc
  rw [← List.takeWhile_append_dropWhile (p := isDigit) (l := cs)] at hc
  rcases List.mem_append.1 hc with hdigit | hrest
  · exact .inl (List.mem_takeWhile_imp hdigit)
  · exact h c hrest

lemma inNumeral_of_scan (h : Numeral.scan cs = some (n, [])) : ∀ c ∈ cs, InNumeral c := by
  refine inNumeral_of_dropWhile ?_
  by_cases hpoint : ∃ more, cs.dropWhile isDigit = '.' :: more
  · obtain ⟨more, hafter⟩ := hpoint
    rw [scan_of_point hafter] at h
    split at h
    · cases h
    · have hend : (scanExponent (more.dropWhile isDigit)).2 = [] :=
        congrArg Prod.snd (Option.some.inj h)
      rw [hafter]
      exact List.forall_mem_cons.2
        ⟨.inr (by decide), inNumeral_of_dropWhile (inNumeral_of_scanExponent hend)⟩
  · rw [scan_of_no_point (not_exists.1 hpoint)] at h
    split at h
    · cases h
    · exact inNumeral_of_scanExponent (congrArg Prod.snd (Option.some.inj h))

/-! ## Digits exchanged for digits -/

/-- Digits go to digits of the same value, and nothing else goes to a mark of a numeral. -/
structure KeepsNumerals (f : Char → Char) : Prop where
  digit : ∀ c, isDigit (f c) = isDigit c
  value : ∀ c, digitValue (f c) = digitValue c
  mark : ∀ c, ∀ m ∈ marks, f c = m ↔ c = m

namespace KeepsNumerals

variable (h : KeepsNumerals f)

include h

lemma takeWhile_map (cs : List Char) :
    (cs.map f).takeWhile isDigit = (cs.takeWhile isDigit).map f := by
  rw [List.takeWhile_map, show isDigit ∘ f = isDigit from funext h.digit]

lemma dropWhile_map (cs : List Char) :
    (cs.map f).dropWhile isDigit = (cs.dropWhile isDigit).map f := by
  rw [List.dropWhile_map, show isDigit ∘ f = isDigit from funext h.digit]

lemma digitsValue_map (cs : List Char) : digitsValue (cs.map f) = digitsValue cs := by
  simp only [digitsValue, List.foldl_map, h.value]

lemma beq_mark {m : Char} (hm : m ∈ marks) (c : Char) : (f c == m) = (c == m) := by
  rw [Bool.eq_iff_iff, beq_iff_eq, beq_iff_eq, h.mark c m hm]

lemma exponentSign_map (cs : List Char) :
    exponentSign (cs.map f) = ((exponentSign cs).1, (exponentSign cs).2.map f) := by
  cases cs with
  | nil => rfl
  | cons c cs =>
    have hplus := h.mark c '+' (by decide)
    have hminus := h.mark c '-' (by decide)
    unfold exponentSign
    simp only [List.map_cons]
    grind

lemma scanExponent_map (cs : List Char) :
    scanExponent (cs.map f) = ((scanExponent cs).1, (scanExponent cs).2.map f) := by
  cases cs with
  | nil => rfl
  | cons c cs =>
    rw [List.map_cons, scanExponent_cons, scanExponent_cons, h.exponentSign_map,
      h.beq_mark (by decide), h.beq_mark (by decide)]
    simp only [h.takeWhile_map, h.dropWhile_map, h.digitsValue_map, List.isEmpty_map]
    split
    · rfl
    · rfl

lemma numeralOf_map (whole fraction rest : List Char) :
    numeralOf (whole.map f) (fraction.map f) (rest.map f) =
      ((numeralOf whole fraction rest).1, (numeralOf whole fraction rest).2.map f) := by
  simp only [numeralOf, ← List.map_append, h.digitsValue_map, h.scanExponent_map, List.length_map]

/-- A numeral is the same with other digits of the same values. -/
lemma scan_map (cs : List Char) :
    Numeral.scan (cs.map f) = (Numeral.scan cs).map fun r => (r.1, r.2.map f) := by
  by_cases hpoint : ∃ more, cs.dropWhile isDigit = '.' :: more
  · obtain ⟨more, hafter⟩ := hpoint
    have hmapped : (cs.map f).dropWhile isDigit = '.' :: more.map f := by
      rw [h.dropWhile_map, hafter, List.map_cons, (h.mark '.' '.' (by decide)).2 rfl]
    rw [scan_of_point hafter, scan_of_point hmapped]
    simp only [h.takeWhile_map, h.dropWhile_map, List.isEmpty_map, h.numeralOf_map]
    split
    · rfl
    · rfl
  · have hnone : ∀ more, cs.dropWhile isDigit ≠ '.' :: more := not_exists.1 hpoint
    have hmapped : ∀ more, (cs.map f).dropWhile isDigit ≠ '.' :: more := by
      intro more hafter
      rw [h.dropWhile_map, List.map_eq_cons_iff] at hafter
      obtain ⟨c, rest, hdrop, hc, -⟩ := hafter
      rw [(h.mark c '.' (by decide)).1 hc] at hdrop
      exact hnone rest hdrop
    rw [scan_of_no_point hnone, scan_of_no_point hmapped]
    simp only [h.takeWhile_map, h.dropWhile_map, List.isEmpty_map]
    split
    · rfl
    · exact congrArg some (h.numeralOf_map _ [] _)

end KeepsNumerals

/-! ## Digits of one script -/

/-- No digit of any script is cut off as a blank. -/
lemma isTrimmed_of_isDigit (h : isDigit c = true) : isTrimmed c = false := by
  obtain ⟨first, hmem, hrange⟩ := exists_first_of_isDigit h
  have hzeros : ∀ z ∈ digitZeros, z = 0x30 ∨ 0x660 ≤ z ∧ z + 10 ≤ 0x1680 ∨
      0x1681 ≤ z ∧ z + 10 ≤ 0x2000 ∨ 0x3001 ≤ z := by decide
  have hzero := hzeros first hmem
  simp only [isTrimmed, inRange, Bool.or_eq_false_iff, Bool.and_eq_false_iff,
    decide_eq_false_iff_not]
  refine ⟨⟨⟨⟨⟨⟨⟨⟨⟨?_, ?_⟩, ?_⟩, ?_⟩, ?_⟩, ?_⟩, ?_⟩, ?_⟩, ?_⟩, ?_⟩
  all_goals omega

lemma digitValue?_lt {d : ℕ} (h : digitValue? c = some d) : d < 10 := by
  obtain ⟨first, hzero, rfl⟩ := Option.map_eq_some_iff.1 h
  have hrange := List.find?_some hzero
  simp only [Bool.and_eq_true, decide_eq_true_eq] at hrange
  omega

/-- What a character becomes: itself, unless it is a blank or a digit of another script. -/
lemma plainCharacter_cases (c : Char) :
    (c.toNat < 127 ∨ isDigit c = false) ∧ plainCharacter c = c ∨
      127 ≤ c.toNat ∧ isDigit c = false ∧ plainCharacter c = ' ' ∨
      127 ≤ c.toNat ∧ ∃ d < 10, digitValue? c = some d ∧
        plainCharacter c = Char.ofNat ('0'.toNat + d) := by
  unfold plainCharacter
  split
  · rename_i hsmall
    exact .inl ⟨.inl hsmall, rfl⟩
  · rename_i hlarge
    split
    · rename_i hblank
      refine .inr (.inl ⟨Nat.le_of_not_lt hlarge, Bool.eq_false_iff.2 fun hdigit => ?_, rfl⟩)
      rw [isTrimmed_of_isDigit hdigit] at hblank
      cases hblank
    · split
      · rename_i d hd
        exact .inr (.inr ⟨Nat.le_of_not_lt hlarge, d, digitValue?_lt hd, hd, rfl⟩)
      · rename_i hnone
        exact .inl ⟨.inr (by rw [isDigit, hnone]; rfl), rfl⟩

lemma digitValue?_ofNat : ∀ d < 10, digitValue? (Char.ofNat ('0'.toNat + d)) = some d := by decide

lemma ne_mark_of_le {m : Char} (hc : 127 ≤ c.toNat) (hm : m ∈ marks) : c ≠ m := by
  rintro rfl
  have hsmall : ∀ m ∈ marks, m.toNat < 127 := by simp [marks]
  exact absurd (hsmall c hm) (Nat.not_lt.2 hc)

lemma keepsNumerals_plainCharacter : KeepsNumerals plainCharacter where
  digit c := by
    obtain ⟨-, hsame⟩ | ⟨-, hdigit, hblank⟩ | ⟨-, d, hlt, hd, hplain⟩ := plainCharacter_cases c
    · rw [hsame]
    · rw [hblank, hdigit]
      decide
    · rw [hplain, isDigit, isDigit, hd, digitValue?_ofNat d hlt]
  value c := by
    obtain ⟨-, hsame⟩ | ⟨-, hdigit, hblank⟩ | ⟨-, d, hlt, hd, hplain⟩ := plainCharacter_cases c
    · rw [hsame]
    · rw [hblank, digitValue, digitValue, Option.not_isSome_iff_eq_none.1 (Bool.eq_false_iff.1 hdigit)]
      decide
    · rw [hplain, digitValue, digitValue, hd, digitValue?_ofNat d hlt]
  mark c m hm := by
    obtain ⟨-, hsame⟩ | ⟨hlarge, -, hblank⟩ | ⟨hlarge, d, hlt, -, hplain⟩ := plainCharacter_cases c
    · rw [hsame]
    · have hspace : ' ' ∉ marks := by decide
      rw [hblank]
      exact iff_of_false (fun heq => hspace (heq ▸ hm)) (ne_mark_of_le hlarge hm)
    · have hdigit : ∀ d < 10, Char.ofNat ('0'.toNat + d) ∉ marks := by decide
      rw [hplain]
      exact iff_of_false (fun heq => hdigit d hlt (heq ▸ hm)) (ne_mark_of_le hlarge hm)

/-- The digits of the first script and the marks of a numeral. -/
def plainMarks : List Char := ['0', '1', '2', '3', '4', '5', '6', '7', '8', '9'] ++ marks

lemma mem_plainMarks : ∀ d < 10, Char.ofNat ('0'.toNat + d) ∈ plainMarks := by decide

lemma plainCharacter_mem (h : InNumeral c) : plainCharacter c ∈ plainMarks := by
  obtain ⟨hkind, hsame⟩ | ⟨hlarge, hdigit, -⟩ | ⟨-, d, hlt, -, hplain⟩ := plainCharacter_cases c
  · rw [hsame]
    rcases h with hdigit | hmark
    · obtain hsmall | hnone := hkind
      · obtain ⟨hlow, hhigh⟩ := isDigit_of_lt hdigit (hsmall.trans (by decide))
        have hmem := mem_plainMarks (c.toNat - 0x30) (by omega)
        rwa [show '0'.toNat = 0x30 from rfl, Nat.add_sub_of_le hlow, Char.ofNat_toNat] at hmem
      · rw [hdigit] at hnone
        cases hnone
    · exact List.mem_append_right _ hmark
  · rcases h with hsome | hmark
    · rw [hdigit] at hsome
      cases hsome
    · exact absurd rfl (ne_mark_of_le hlarge hmark)
  · rw [hplain]
    exact mem_plainMarks d hlt

/-! ## Reading -/

lemma joinDigits?_of_ne {previous : Char} (hprevious : previous ≠ '_') (h : ∀ c ∈ cs, c ≠ '_') :
    joinDigits? previous cs = some cs := by
  induction cs generalizing previous with
  | nil => rw [joinDigits?, if_neg (by simpa using hprevious)]
  | cons c cs ih =>
    obtain ⟨hc, hcs⟩ := List.forall_mem_cons.1 h
    rw [joinDigits?, if_neg (by simpa using hc), if_neg (by simp [hprevious]), ih hc hcs]
    rfl

lemma dropWhile_of_forall {p : Char → Bool} (h : ∀ c ∈ cs, p c = false) : cs.dropWhile p = cs := by
  cases cs with
  | nil => rfl
  | cons c cs => rw [List.dropWhile_cons_of_neg (by simp [h c List.mem_cons_self])]

lemma trimmed_of_forall {p : Char → Bool} (h : ∀ c ∈ cs, p c = false) : trimmed p cs = cs := by
  have hreverse : ∀ c ∈ cs.reverse, p c = false := fun c hc => h c (List.mem_reverse.1 hc)
  rw [trimmed, dropWhile_of_forall h, dropWhile_of_forall hreverse, List.reverse_reverse]

/-- A numeral is read as its value where no name of infinity or NaN stands. -/
lemma readUnsigned?_of_scan (hscan : Numeral.scan cs = some (n, []))
    (hstart : ∀ c ∈ cs.head?, c.toLower ≠ 'i' ∧ c.toLower ≠ 'n') :
    readUnsigned? cs = some n.value := by
  have hword {word : String} {first : Char} {more : List Char} (hword : word.toList = first :: more)
      (hfirst : first = 'i' ∨ first = 'n') : String.ofList (cs.map Char.toLower) ≠ word := by
    intro heq
    have hlist := congrArg String.toList heq
    rw [String.toList_ofList, hword, List.map_eq_cons_iff] at hlist
    obtain ⟨c, rest, rfl, rfl, -⟩ := hlist
    exact hfirst.elim (hstart c rfl).1 (hstart c rfl).2
  unfold readUnsigned?
  split
  · exact absurd ‹_› (hword rfl (.inl rfl))
  · exact absurd ‹_› (hword rfl (.inl rfl))
  · exact absurd ‹_› (hword rfl (.inr rfl))
  · rw [hscan]

/-- Text of digits and marks that starts with no sign is an argument as it stands. -/
lemma readReal?_of_plainArgument {text : String} (hplain : plainArgument? text = some cs)
    (hsign : ∀ c ∈ cs.head?, c ≠ '-' ∧ c ≠ '+') : readReal? text = readUnsigned? cs := by
  unfold readReal?
  rw [hplain, Option.bind_eq_bind, Option.bind_some]
  split
  · exact absurd rfl (hsign '-' rfl).1
  · exact absurd rfl (hsign '+' rfl).2
  · rfl

/-- **A numeral is a real.**  A numeral of program text, in the digits of any script, is read as a real
with the same value. -/
lemma readReal?_of_isNumeral {text : String} (h : IsNumeral text.toList v) :
    readReal? text = some v := by
  obtain ⟨c, rest, htext, hstart⟩ := h.head
  obtain ⟨n, hscan, rfl⟩ := h
  have hchars := inNumeral_of_scan hscan
  have hplain : ∀ c ∈ text.toList.map plainCharacter, c ∈ plainMarks := by
    simpa using fun c hc => plainCharacter_mem (hchars c hc)
  have hargument : plainArgument? text = some (text.toList.map plainCharacter) := by
    have hblank : ∀ c ∈ plainMarks, isArgumentBlank c = false := by
      simp [plainMarks, marks, isArgumentBlank, inRange]
    have hjoint : '_' ∉ plainMarks := by decide
    rw [plainArgument?, trimmed_of_forall fun c hc => hblank c (hplain c hc),
      joinDigits?_of_ne (by decide) fun c hc heq => hjoint (heq ▸ hplain c hc)]
  have hhead : ∀ d ∈ (text.toList.map plainCharacter).head?,
      (d ≠ '-' ∧ d ≠ '+') ∧ d.toLower ≠ 'i' ∧ d.toLower ≠ 'n' := by
    have hmarks : plainMarks.all (fun d => !startsNumeral d ||
        (d != '-' && d != '+') && (d.toLower != 'i' && d.toLower != 'n')) = true := by decide
    intro d hd
    have hmem := hplain d (List.mem_of_mem_head? hd)
    have hfirst : startsNumeral d = true := by
      rw [htext, List.map_cons, List.head?_cons, Option.mem_some] at hd
      rwa [← hd, startsNumeral, keepsNumerals_plainCharacter.digit,
        keepsNumerals_plainCharacter.beq_mark (by decide)]
    simpa [hfirst] using List.all_eq_true.1 hmarks d hmem
  rw [readReal?_of_plainArgument hargument fun c hc => (hhead c hc).1]
  refine readUnsigned?_of_scan ?_ fun c hc => (hhead c hc).2
  rw [keepsNumerals_plainCharacter.scan_map, hscan]
  rfl

end SignalCalc.Number
