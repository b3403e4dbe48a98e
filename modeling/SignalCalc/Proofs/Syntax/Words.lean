import SignalCalc.Proofs.Syntax.Tokenwise

/-!
# Words are read locally

A scanner reads a word without a look at what stands behind a break: a blank, a slash, a quote or a
line feed.  `ReadsLocally` says so of signs, names and numerals, and that each of them takes at least
one character.
-/

namespace SignalCalc.Syntax

open SignalCalc.Number
open SignalCalc.Syntax.Parser
open SignalCalc.Syntax.Token
open SignalCalc.Text

variable {text rest front more w : List Char}

/-- The characters at which every word ends, strings and the slash left out. -/
def isBreak (c : Char) : Bool := c == ' ' || c == '\n' || c == '/' || c == '"'

/-- The text is empty or starts with a break. -/
def Breaks (text : List Char) : Prop := ∀ c ∈ text.head?, isBreak c = true

/-- What is read depends on the text up to a break alone, and is never empty. -/
structure ReadsLocally (scanner : List Char → Option (List Char)) : Prop where
  append : ∀ front more, Breaks more → scanner (front ++ more) = (scanner front).map (· ++ more)
  proper : ∀ text rest, scanner text = some rest → ∃ front, front ≠ [] ∧ text = front ++ rest

lemma Breaks.cases (h : Breaks text) : text = [] ∨ ∃ c rest, text = c :: rest ∧
    (c = ' ' ∨ c = '\n' ∨ c = '/' ∨ c = '"') := by
  cases text with
  | nil => exact .inl rfl
  | cons c rest =>
    have hc := h c rfl
    simp only [isBreak, Bool.or_eq_true, beq_iff_eq, or_assoc] at hc
    exact .inr ⟨c, rest, rfl, hc⟩

/-- A text up to its first break, and from there on. -/
lemma exists_break (text : List Char) :
    ∃ front more, text = front ++ more ∧ (∀ c ∈ front, isBreak c = false) ∧ Breaks more := by
  refine ⟨text.takeWhile (!isBreak ·), text.dropWhile (!isBreak ·),
    List.takeWhile_append_dropWhile.symm, fun c hc => ?_, fun c hc => ?_⟩
  · simpa using List.mem_takeWhile_imp hc
  · have hhead := List.head?_dropWhile_not (!isBreak ·) text
    rw [Option.mem_def.1 hc] at hhead
    simpa using hhead

lemma Breaks.ends (h : Breaks text) : Ends text := by
  rcases h.cases with rfl | ⟨c, rest, rfl, rfl | rfl | rfl | rfl⟩
  · exact ends_nil
  all_goals exact ends_cons (by decide) (by decide) (by decide) rest

lemma Breaks.noSign (h : Breaks text) : NoSign text := by
  rintro c hc
  have hbreak := h c hc
  constructor
  · rintro rfl
    exact absurd hbreak (by decide)
  · rintro rfl
    exact absurd hbreak (by decide)

/-! ## Signs -/

lemma literal_eq_none (h : ¬w <+: text) : literal w text = none := by
  rw [literal, if_neg (mt List.isPrefixOf_iff_prefix.1 h)]

lemma isSign_iff :
    isSign w = true ↔ w ≠ [] ∧ ∀ c ∈ w, c ≠ '/' ∧ c ≠ '"' ∧ isSpace c = false := by
  simp [isSign, and_assoc]

/-- A sign does not go on behind a break. -/
lemma prefix_of_isSign (hw : isSign w = true) (hmore : Breaks more) (h : w <+: front ++ more) :
    w <+: front := by
  rcases List.prefix_or_prefix_of_prefix h (List.prefix_append front more) with hpre | hpre
  · exact hpre
  · obtain ⟨later, rfl⟩ := hpre
    cases later with
    | nil => simp
    | cons c later =>
      have hlater : c :: later <+: more := (List.prefix_append_right_inj front).1 h
      obtain ⟨rest, rfl⟩ := hlater
      have hc := (isSign_iff.1 hw).2 c (by simp)
      rcases hmore.cases with hnil | ⟨_, _, heq, hbreak⟩
      · cases hnil
      · obtain ⟨rfl, -⟩ := List.cons.inj heq
        rcases hbreak with rfl | rfl | rfl | rfl
        · exact absurd hc.2.2 (by decide)
        · exact absurd hc.2.2 (by decide)
        · exact absurd rfl hc.1
        · exact absurd rfl hc.2.1

lemma literal_readsLocally (hw : isSign w = true) : ReadsLocally (literal w) where
  append front more hmore := by
    by_cases hpre : w <+: front
    · obtain ⟨rest, rfl⟩ := hpre
      rw [List.append_assoc, literal_append, literal_append, Option.map_some]
    · rw [literal_eq_none hpre, literal_eq_none (mt (prefix_of_isSign hw hmore) hpre),
        Option.map_none]
  proper text rest h := by
    by_cases hpre : w <+: text
    · obtain ⟨after, rfl⟩ := hpre
      rw [literal_append] at h
      exact ⟨w, (isSign_iff.1 hw).1, by rw [Option.some.inj h]⟩
    · rw [literal_eq_none hpre] at h
      cases h

lemma assign_equals (rest : List Char) :
    assign ('=' :: rest) = if rest.head? = some '=' then none else some rest := by
  unfold assign
  split
  · rename_i heq
    obtain ⟨-, rfl⟩ := List.cons.inj heq
    rfl
  · rename_i hnone heq
    obtain ⟨-, rfl⟩ := List.cons.inj heq
    rw [if_neg]
    intro hhead
    obtain ⟨more, rfl⟩ := List.head?_eq_some_iff.1 hhead
    exact hnone more rfl
  · rename_i hnone
    exact absurd rfl (hnone rest)

lemma assign_readsLocally : ReadsLocally assign where
  append front more hmore := by
    have hhead : more.head? ≠ some '=' := fun h => absurd (hmore _ h) (by decide)
    cases front with
    | nil =>
      rcases hmore.cases with rfl | ⟨c, rest, rfl, -⟩
      · rfl
      · exact assign_cons_of_ne (fun h => hhead (congrArg some h)) rest
    | cons c front =>
      by_cases hc : c = '='
      · rw [hc, List.cons_append, assign_equals, assign_equals]
        cases front with
        | nil => rw [List.nil_append, if_neg hhead, if_neg nofun, Option.map_some, List.nil_append]
        | cons d front =>
          rw [List.cons_append, List.head?_cons, List.head?_cons]
          split
          · rfl
          · rfl
      · rw [List.cons_append, assign_cons_of_ne hc, assign_cons_of_ne hc, Option.map_none]
  proper text rest h := by
    cases text with
    | nil => cases h
    | cons c text =>
      by_cases hc : c = '='
      · rw [hc, assign_equals] at h
        split at h
        · cases h
        · exact ⟨['='], List.cons_ne_nil _ _, by rw [hc, Option.some.inj h]; rfl⟩
      · rw [assign_cons_of_ne hc] at h
        cases h

/-! ## Names and numerals -/

lemma name_readsLocally : ReadsLocally name where
  append front more hmore := by
    cases front with
    | nil =>
      refine name_eq_none fun c hc => ?_
      exact (Bool.or_eq_false_iff.1 (hmore.ends c hc).1).1
    | cons c front =>
      rw [List.cons_append, name, name, dropWhile_append_of_head fun d hd => (hmore.ends d hd).1]
      split
      · rfl
      · rfl
  proper text rest h := by
    cases text with
    | nil => cases h
    | cons c text =>
      rw [name] at h
      split at h
      · obtain rfl := Option.some.inj h
        exact ⟨c :: text.takeWhile continuesName, List.cons_ne_nil _ _, by simp⟩
      · cases h

lemma exponentSign_suffix (cs : List Char) : (exponentSign cs).2 <:+ cs := by
  unfold exponentSign
  split
  · exact List.suffix_cons _ _
  · exact List.suffix_cons _ _
  · exact List.suffix_refl _

lemma scanExponent_suffix (cs : List Char) : (scanExponent cs).2 <:+ cs := by
  cases cs with
  | nil => exact List.suffix_refl _
  | cons c cs =>
    rw [scanExponent_cons]
    split
    · exact ((List.dropWhile_suffix _).trans (exponentSign_suffix cs)).trans
        (List.suffix_cons c cs)
    · exact List.suffix_refl _

lemma number_readsLocally : ReadsLocally number where
  append front more hmore := by
    rw [number, number, scan_append hmore.ends (.inl hmore.noSign), Option.map_map,
      Option.map_map]
    rfl
  proper text rest h := by
    obtain ⟨r, hscan, rfl⟩ := Option.map_eq_some_iff.1 h
    have htext : text.takeWhile isDigit ++ text.dropWhile isDigit = text :=
      List.takeWhile_append_dropWhile
    by_cases hpoint : ∃ more, text.dropWhile isDigit = '.' :: more
    · obtain ⟨more, hafter⟩ := hpoint
      rw [scan_of_point hafter] at hscan
      split at hscan
      · cases hscan
      · obtain rfl := Option.some.inj hscan
        obtain ⟨taken, htaken⟩ :=
          (scanExponent_suffix (more.dropWhile isDigit)).trans (List.dropWhile_suffix isDigit)
        refine ⟨text.takeWhile isDigit ++ '.' :: taken, by simp, ?_⟩
        rw [List.append_assoc, List.cons_append, numeralOf, htaken, ← hafter, htext]
    · rw [scan_of_no_point (not_exists.1 hpoint)] at hscan
      split at hscan
      · cases hscan
      · rename_i hwhole
        obtain rfl := Option.some.inj hscan
        obtain ⟨taken, htaken⟩ := scanExponent_suffix (text.dropWhile isDigit)
        refine ⟨text.takeWhile isDigit ++ taken, ?_, ?_⟩
        · exact List.append_ne_nil_of_left_ne_nil (mt List.isEmpty_iff.2 hwhole) _
        · rw [List.append_assoc, numeralOf, htaken, htext]

end SignalCalc.Syntax
