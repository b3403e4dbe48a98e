import SignalCalc.Proofs.Number.Positive
import SignalCalc.Proofs.Syntax.Words

/-!
# Scanned words are words

A scanner stops where its word ends.  So what it has read is a word by itself, whatever stands
behind it: a sign, a name (`isName_of_name`), a numeral (`isNumeral_of_number`), or a text between quotes
(`isQuotable_of_string`).  The value of a numeral is not below zero.
-/

namespace SignalCalc.Syntax.Token

open SignalCalc.Number
open SignalCalc.Text

variable {front rest : List Char} {p : Char → Bool}

/-! ## Signs -/

lemma literal_eq_some {word text rest : List Char} (h : literal word text = some rest) :
    text = word ++ rest := by
  unfold literal at h
  split at h
  · rename_i hpre
    obtain ⟨after, rfl⟩ := List.isPrefixOf_iff_prefix.1 hpre
    simp at h
    rw [h]
  · cases h

lemma slash_eq_some {text : List Char} (h : slash text = some rest) :
    text = '/' :: rest ∧ NoComment rest := by
  unfold slash at h
  split at h
  · cases h
  · cases h
  · rename_i more hline hcomment
    obtain rfl := Option.some.inj h
    refine ⟨rfl, fun hhead => ?_, fun hhead => ?_⟩
    · obtain ⟨line, rfl⟩ := List.head?_eq_some_iff.1 hhead
      exact hline line rfl
    · obtain ⟨line, rfl⟩ := List.head?_eq_some_iff.1 hhead
      exact hcomment line rfl
  · cases h

/-! ## Names and strings -/

lemma isName_of_name (h : name (front ++ rest) = some rest) : IsName front := by
  cases htext : front ++ rest with
  | nil =>
    rw [htext] at h
    cases h
  | cons c cs =>
    rw [htext, name] at h
    split at h
    · rename_i hc
      have hdrop : cs.dropWhile continuesName = rest := Option.some.inj h
      have hfront : front = c :: cs.takeWhile continuesName := by
        refine List.append_cancel_right (?_ : front ++ rest = _ ++ rest)
        rw [htext, List.cons_append, ← hdrop, List.takeWhile_append_dropWhile]
      exact ⟨c, _, hfront, hc, fun d hd => List.mem_takeWhile_imp hd⟩
    · cases h

lemma exists_string_eq {text : List Char} (h : string text = some rest) :
    ∃ s, IsQuotable s ∧ text = '"' :: (s ++ '"' :: rest) := by
  unfold string at h
  split at h
  · rename_i more
    split at h
    · rename_i after hafter
      obtain rfl := Option.some.inj h
      refine ⟨more.takeWhile fun c => c != '"' && c != '\n', fun c hc => ?_, ?_⟩
      · simpa using List.mem_takeWhile_imp hc
      · rw [← hafter, List.takeWhile_append_dropWhile]
    · cases h
  · cases h

lemma isQuotable_of_string (h : string (front ++ rest) = some rest) :
    IsQuotable (unquoted (String.ofList front)).toList := by
  obtain ⟨s, hs, htext⟩ := exists_string_eq h
  have hfront : front = '"' :: (s ++ ['"']) := by
    refine List.append_cancel_right (?_ : front ++ rest = _ ++ rest)
    rw [htext, List.cons_append, List.append_assoc, List.singleton_append]
  rwa [hfront, unquoted_ofList, String.toList_ofList]

/-! ## Numerals -/

/-- Where dropping leaves the second part, the first part is all that was dropped. -/
lemma takeWhile_of_dropWhile_append (h : (front ++ rest).dropWhile p = rest) :
    (front ++ rest).takeWhile p = front ∧ front.takeWhile p = front ∧ front.dropWhile p = [] := by
  have hparts : (front ++ rest).takeWhile p ++ (front ++ rest).dropWhile p = front ++ rest :=
    List.takeWhile_append_dropWhile
  have htake : (front ++ rest).takeWhile p = front := by
    rw [h] at hparts
    exact List.append_cancel_right hparts
  have hall : ∀ c ∈ front, p c = true := fun c hc => List.mem_takeWhile_imp (htake.symm ▸ hc)
  exact ⟨htake, List.takeWhile_eq_self_iff.2 hall, List.dropWhile_eq_nil_iff.2 hall⟩

/-- A complete exponent takes at least one digit. -/
lemma length_exponent_lt {cs : List Char}
    (h : ((exponentSign cs).2.takeWhile isDigit).isEmpty = false) :
    ((exponentSign cs).2.dropWhile isDigit).length < cs.length := by
  have hparts : (exponentSign cs).2.takeWhile isDigit ++ (exponentSign cs).2.dropWhile isDigit =
      (exponentSign cs).2 := List.takeWhile_append_dropWhile
  have hlength := congrArg List.length hparts
  have hpos : 0 < ((exponentSign cs).2.takeWhile isDigit).length :=
    List.length_pos_iff.2 (List.isEmpty_eq_false_iff.1 h)
  have hle := (exponentSign_suffix cs).length_le
  rw [List.length_append] at hlength
  omega

/-- An exponent of which nothing is read is none. -/
lemma scanExponent_eq_zero {cs : List Char} (h : (scanExponent cs).2 = cs) :
    (scanExponent cs).1 = 0 := by
  cases cs with
  | nil => rfl
  | cons c cs =>
    rw [scanExponent_cons] at h ⊢
    split at h
    · rename_i hcomplete
      have hlt := length_exponent_lt (by simpa using (Bool.and_eq_true_iff.1 hcomplete).2)
      have hlength := congrArg List.length h
      simp only [List.length_cons] at hlength
      omega
    · rename_i hnone
      rw [if_neg hnone]

/-- An exponent does not depend on what stands behind it. -/
lemma scanExponent_front (h : (scanExponent (front ++ rest)).2 = rest) :
    scanExponent front = ((scanExponent (front ++ rest)).1, []) := by
  cases front with
  | nil =>
    rw [List.nil_append] at h ⊢
    rw [scanExponent_eq_zero h]
    rfl
  | cons c cs =>
    rw [List.cons_append, scanExponent_cons] at h
    split at h
    · rename_i hcomplete
      have hcs : cs ≠ [] := by
        rintro rfl
        have hlt := length_exponent_lt (by simpa using (Bool.and_eq_true_iff.1 hcomplete).2)
        have hlength := congrArg List.length h
        simp only [List.nil_append] at hlt hlength
        omega
      simp only [exponentSign_append hcs] at h hcomplete
      obtain ⟨htake, hself, hdrop⟩ := takeWhile_of_dropWhile_append h
      rw [htake] at hcomplete
      rw [List.cons_append, scanExponent_cons, scanExponent_cons, exponentSign_append hcs]
      simp only [htake, hself, hdrop, if_pos hcomplete]
    · have hlength := congrArg List.length h
      simp only [List.length_cons, List.length_append] at hlength
      omega

lemma numeralOf_front {whole fraction : List Char} {n : Numeral}
    (h : numeralOf whole fraction (front ++ rest) = (n, rest)) :
    numeralOf whole fraction front = (n, []) := by
  obtain ⟨hn, hrest⟩ := Prod.mk.inj h
  rw [numeralOf, scanExponent_front hrest, hn]

/-- A row of digits ends where another character follows. -/
lemma span_digits {whole exponent : List Char} (hwhole : ∀ c ∈ whole, isDigit c = true)
    (hexponent : ∀ c ∈ exponent.head?, isDigit c = false) :
    (whole ++ exponent).takeWhile isDigit = whole ∧
      (whole ++ exponent).dropWhile isDigit = exponent := by
  rw [takeWhile_append_of_head hexponent, dropWhile_append_of_head hexponent,
    List.takeWhile_eq_self_iff.2 hwhole, List.dropWhile_eq_nil_iff.2 hwhole]
  exact ⟨rfl, rfl⟩

/-- What follows a row of digits starts with no digit. -/
lemma head_of_dropWhile {text : List Char} (h : text.dropWhile isDigit = front ++ rest) :
    ∀ c ∈ front.head?, isDigit c = false := by
  intro c hc
  have hhead := List.head?_dropWhile_not isDigit text
  rw [h, List.head?_append, Option.mem_def.1 hc] at hhead
  simpa using hhead

/-- A numeral does not depend on what stands behind it. -/
lemma scan_front {n : Numeral} (h : Numeral.scan (front ++ rest) = some (n, rest)) :
    Numeral.scan front = some (n, []) := by
  have hwhole : ∀ c ∈ (front ++ rest).takeWhile isDigit, isDigit c = true := fun c hc =>
    List.mem_takeWhile_imp hc
  have hparts : (front ++ rest).takeWhile isDigit ++ (front ++ rest).dropWhile isDigit =
      front ++ rest := List.takeWhile_append_dropWhile
  by_cases hpoint : ∃ more, (front ++ rest).dropWhile isDigit = '.' :: more
  · obtain ⟨more, hafter⟩ := hpoint
    rw [scan_of_point hafter] at h
    rw [hafter] at hparts
    generalize (front ++ rest).takeWhile isDigit = whole at h hwhole hparts
    split at h
    · cases h
    · rename_i hsome
      have hnumeral := Option.some.inj h
      obtain ⟨exponent, hexponent⟩ := scanExponent_suffix (more.dropWhile isDigit)
      rw [show (scanExponent (more.dropWhile isDigit)).2 = rest from congrArg Prod.snd hnumeral]
        at hexponent
      have hdigits : ∀ c ∈ more.takeWhile isDigit, isDigit c = true := fun c hc =>
        List.mem_takeWhile_imp hc
      obtain ⟨htake, hdrop⟩ := span_digits hdigits (head_of_dropWhile hexponent.symm)
      have hfront : front = whole ++ '.' :: (more.takeWhile isDigit ++ exponent) := by
        refine List.append_cancel_right (?_ : front ++ rest = _ ++ rest)
        rw [← hparts, List.append_assoc, List.cons_append, List.append_assoc, hexponent,
          List.takeWhile_append_dropWhile]
      have hpointHead : ∀ c ∈ ('.' :: (more.takeWhile isDigit ++ exponent)).head?,
          isDigit c = false := by
        rintro _ ⟨rfl⟩
        decide
      obtain ⟨htakeFront, hdropFront⟩ := span_digits hwhole hpointHead
      rw [← hfront] at htakeFront hdropFront
      rw [scan_of_point hdropFront, htakeFront, htake, hdrop, if_neg hsome]
      exact congrArg some (numeralOf_front (hexponent ▸ hnumeral))
  · rw [scan_of_no_point (not_exists.1 hpoint)] at h
    split at h
    · cases h
    · rename_i hsome
      have hnumeral := Option.some.inj h
      obtain ⟨exponent, hexponent⟩ := scanExponent_suffix ((front ++ rest).dropWhile isDigit)
      rw [show (scanExponent ((front ++ rest).dropWhile isDigit)).2 = rest from
        congrArg Prod.snd hnumeral] at hexponent
      obtain ⟨htake, hdrop⟩ := span_digits hwhole (head_of_dropWhile hexponent.symm)
      have hfront : front = (front ++ rest).takeWhile isDigit ++ exponent := by
        refine List.append_cancel_right (?_ : front ++ rest = _ ++ rest)
        rw [List.append_assoc, hexponent, hparts]
      rw [← hfront] at htake hdrop
      have hnone : ∀ more, front.dropWhile isDigit ≠ '.' :: more := by
        intro more hmore
        rw [hdrop] at hmore
        exact hpoint ⟨more ++ rest, by rw [← hexponent, hmore, List.cons_append]⟩
      rw [scan_of_no_point hnone, htake, hdrop, if_neg hsome]
      exact congrArg some (numeralOf_front (hexponent ▸ hnumeral))

/-- What a scanner of numerals has read is a numeral. -/
lemma isNumeral_of_number (h : number (front ++ rest) = some rest) :
    IsNumeral front (numberValue (String.ofList front)) := by
  obtain ⟨⟨n, after⟩, hscan, rfl⟩ := Option.map_eq_some_iff.1 h
  have hfront := scan_front hscan
  refine ⟨n, hfront, ?_⟩
  rw [numberValue, String.toList_ofList, hfront]

lemma IsNumeral.zero_le {digits : List Char} {v : Float} (h : IsNumeral digits v) : 0.0 ≤ v := by
  obtain ⟨n, -, rfl⟩ := h
  exact zero_le_value n

lemma IsNumeral.isNaN {digits : List Char} {v : Float} (h : IsNumeral digits v) :
    v.isNaN = false := by
  obtain ⟨n, -, rfl⟩ := h
  exact isNaN_value n

end SignalCalc.Syntax.Token
