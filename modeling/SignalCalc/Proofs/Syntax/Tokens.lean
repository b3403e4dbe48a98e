import Mathlib.Data.List.TakeWhile
import Mathlib.Data.Nat.Notation
import Mathlib.Tactic.Lemma
import SignalCalc.Syntax.Token

/-!
# Words of program text

A name, a numeral or a string is read whole where the text behind it does not go on with it.
`Ends rest` says that no name and no numeral can go on with `rest`; a string needs no such
condition, for it carries its own end.

Names, numerals and strings start with different characters, and none of them with an operator or
a parenthesis, so a scanner that looks for one of them fails at the others.
-/

namespace SignalCalc.Syntax.Token

open SignalCalc.Number
open SignalCalc.Text

/-- The text is a name. -/
def IsName (x : List Char) : Prop :=
  ∃ c cs, x = c :: cs ∧ startsName c = true ∧ ∀ d ∈ cs, continuesName d = true

/-- The text is a numeral with a value. -/
def IsNumeral (digits : List Char) (v : Float) : Prop :=
  ∃ n, Numeral.scan digits = some (n, []) ∧ n.value = v

/-- The text fits between the quotes of a string. -/
def IsQuotable (s : List Char) : Prop := ∀ c ∈ s, c ≠ '"' ∧ c ≠ '\n'

/-- Neither a name nor a numeral goes on here. -/
def Ends (rest : List Char) : Prop :=
  ∀ c ∈ rest.head?, continuesName c = false ∧ isDigit c = false ∧ c ≠ '.'

lemma ends_nil : Ends [] := nofun

lemma ends_cons {c : Char} (hname : continuesName c = false) (hdigit : isDigit c = false)
    (hpoint : c ≠ '.') (rest : List Char) : Ends (c :: rest) := by
  intro d hd
  obtain rfl := Option.some.inj hd
  exact ⟨hname, hdigit, hpoint⟩

/-! ## Reading up to the end of a word -/

lemma takeWhile_append_of_head {p : Char → Bool} {rest : List Char}
    (h : ∀ c ∈ rest.head?, p c = false) (xs : List Char) :
    (xs ++ rest).takeWhile p = xs.takeWhile p := by
  induction xs with
  | nil =>
    cases rest with
    | nil => rfl
    | cons c rest => simp [h c rfl]
  | cons x xs ih => cases hx : p x <;> simp [hx, ih]

lemma dropWhile_append_of_head {p : Char → Bool} {rest : List Char}
    (h : ∀ c ∈ rest.head?, p c = false) (xs : List Char) :
    (xs ++ rest).dropWhile p = xs.dropWhile p ++ rest := by
  induction xs with
  | nil =>
    cases rest with
    | nil => rfl
    | cons c rest => simp [h c rfl]
  | cons x xs ih => cases hx : p x <;> simp [hx, ih]

lemma name_append {x rest : List Char} (hx : IsName x) (hrest : Ends rest) :
    name (x ++ rest) = some rest := by
  obtain ⟨c, cs, rfl, hc, hcs⟩ := hx
  rw [List.cons_append, name, if_pos hc, dropWhile_append_of_head fun d hd => (hrest d hd).1,
    List.dropWhile_eq_nil_iff.2 hcs, List.nil_append]

lemma suffix_of_name {text after : List Char} (h : name text = some after) : after <:+ text := by
  cases text with
  | nil => cases h
  | cons c cs =>
    rw [name] at h
    split at h
    · obtain rfl := Option.some.inj h
      exact (List.dropWhile_suffix _).trans (List.suffix_cons c cs)
    · cases h

lemma string_append {s : List Char} (hs : IsQuotable s) (rest : List Char) :
    string ('"' :: (s ++ '"' :: rest)) = some rest := by
  have hinside : ∀ c ∈ s, (c != '"' && c != '\n') = true := fun c hc => by
    simp [(hs c hc).1, (hs c hc).2]
  have hdrop : (s ++ '"' :: rest).dropWhile (fun c => c != '"' && c != '\n') = '"' :: rest := by
    rw [dropWhile_append_of_head (fun c hc => by obtain rfl := Option.some.inj hc; rfl),
      List.dropWhile_eq_nil_iff.2 hinside, List.nil_append]
  rw [string, hdrop]
  rfl

lemma unquoted_ofList (s : List Char) :
    unquoted (String.ofList ('"' :: (s ++ ['"']))) = String.ofList s := by
  rw [unquoted, String.toList_ofList, List.drop_one, List.tail_cons, List.dropLast_concat]

lemma literal_append (w rest : List Char) : literal w (w ++ rest) = some rest := by
  rw [literal, if_pos (List.isPrefixOf_iff_prefix.2 (List.prefix_append w rest)), List.drop_left]

lemma literal_cons_of_ne {a b : Char} (h : a ≠ b) (w rest : List Char) :
    literal (a :: w) (b :: rest) = none := by
  rw [literal, if_neg]
  simp [List.isPrefixOf, h]

lemma literal_nil (a : Char) (w : List Char) : literal (a :: w) [] = none := by
  rw [literal, if_neg]
  simp [List.isPrefixOf]

/-! ## Numerals -/

lemma scanExponent_nil_append {rest : List Char} (h : Ends rest) :
    scanExponent rest = (0, rest) := by
  have hletter : ∀ c more, rest = c :: more → (c == 'e' || c == 'E') = false := by
    rintro c more rfl
    have hc := (h c rfl).1
    simp only [Bool.or_eq_false_iff, beq_eq_false_iff_ne]
    constructor
    · rintro rfl
      exact absurd hc (by decide)
    · rintro rfl
      exact absurd hc (by decide)
  unfold scanExponent
  split
  · rw [if_neg (by rw [hletter _ _ rfl]; exact Bool.false_ne_true)]
  · rw [if_neg (by rw [hletter _ _ rfl]; exact Bool.false_ne_true)]
  · rw [if_neg (by rw [hletter _ _ rfl]; exact Bool.false_ne_true)]
  · rfl

lemma takeWhile_isDigit_append {rest : List Char} (h : Ends rest) (xs : List Char) :
    (xs ++ rest).takeWhile isDigit = xs.takeWhile isDigit :=
  takeWhile_append_of_head (fun c hc => (h c hc).2.1) xs

lemma dropWhile_isDigit_append {rest : List Char} (h : Ends rest) (xs : List Char) :
    (xs ++ rest).dropWhile isDigit = xs.dropWhile isDigit ++ rest :=
  dropWhile_append_of_head (fun c hc => (h c hc).2.1) xs

/-- The sign of an exponent and what follows it. -/
def exponentSign : List Char → Bool × List Char
  | '+' :: rest => (false, rest)
  | '-' :: rest => (true, rest)
  | rest => (false, rest)

lemma exponentSign_append {cs : List Char} (h : cs ≠ []) (rest : List Char) :
    exponentSign (cs ++ rest) = ((exponentSign cs).1, (exponentSign cs).2 ++ rest) := by
  cases cs with
  | nil => exact absurd rfl h
  | cons c cs =>
    by_cases hplus : c = '+'
    · rw [hplus]
      rfl
    · by_cases hminus : c = '-'
      · rw [hminus]
        rfl
      · simp [exponentSign, hplus, hminus]

/-- An exponent is read where it is complete, and nothing otherwise. -/
lemma scanExponent_cons (c : Char) (cs : List Char) :
    scanExponent (c :: cs) =
      if (c == 'e' || c == 'E') && !((exponentSign cs).2.takeWhile isDigit).isEmpty then
        (if (exponentSign cs).1 then -(digitsValue ((exponentSign cs).2.takeWhile isDigit) : Int)
          else digitsValue ((exponentSign cs).2.takeWhile isDigit),
          (exponentSign cs).2.dropWhile isDigit)
      else (0, c :: cs) := by
  have hcomplete : ∀ (negative : Bool) (rest : List Char),
      (if c == 'e' || c == 'E' then
        if (rest.takeWhile isDigit).isEmpty then (0, c :: cs)
        else (if negative then -(digitsValue (rest.takeWhile isDigit) : Int)
          else digitsValue (rest.takeWhile isDigit), rest.dropWhile isDigit)
      else (0, c :: cs)) =
      if (c == 'e' || c == 'E') && !(rest.takeWhile isDigit).isEmpty then
        (if negative then -(digitsValue (rest.takeWhile isDigit) : Int)
          else digitsValue (rest.takeWhile isDigit), rest.dropWhile isDigit)
      else (0, c :: cs) := by
    intro negative rest
    cases c == 'e' || c == 'E' <;> cases (rest.takeWhile isDigit).isEmpty <;> rfl
  rw [← hcomplete]
  cases cs with
  | nil => rfl
  | cons d cs =>
    by_cases hplus : d = '+'
    · rw [hplus]
      rfl
    · by_cases hminus : d = '-'
      · rw [hminus]
        rfl
      · simp [scanExponent, exponentSign, hplus, hminus]

/-- No sign stands here, which could belong to an exponent. -/
def NoSign (rest : List Char) : Prop := ∀ c ∈ rest.head?, c ≠ '+' ∧ c ≠ '-'

lemma exponentSign_of_noSign {rest : List Char} (h : NoSign rest) :
    exponentSign rest = (false, rest) := by
  unfold exponentSign
  split
  · exact absurd rfl (h '+' rfl).1
  · exact absurd rfl (h '-' rfl).2
  · rfl

/-- Text that no numeral goes on with changes nothing.  An `e` at the very end may still get a
sign, unless the exponent is complete. -/
lemma scanExponent_append {cs rest : List Char} (hrest : Ends rest)
    (hsign : NoSign rest ∨ (scanExponent cs).2 = []) :
    scanExponent (cs ++ rest) = ((scanExponent cs).1, (scanExponent cs).2 ++ rest) := by
  cases cs with
  | nil => exact scanExponent_nil_append hrest
  | cons c cs =>
    have hexponent : exponentSign (cs ++ rest) =
        ((exponentSign cs).1, (exponentSign cs).2 ++ rest) := by
      cases cs with
      | nil =>
        rcases hsign with hsign | hcomplete
        · exact exponentSign_of_noSign hsign
        · rw [scanExponent_cons] at hcomplete
          simp [exponentSign] at hcomplete
      | cons d cs => exact exponentSign_append (List.cons_ne_nil d cs) rest
    rw [List.cons_append, scanExponent_cons, scanExponent_cons, hexponent]
    simp only [takeWhile_isDigit_append hrest, dropWhile_isDigit_append hrest]
    split
    · rfl
    · rfl

/-- A numeral with these digits before and after the point, and what follows its exponent. -/
def numeralOf (whole fraction rest : List Char) : Numeral × List Char :=
  (⟨digitsValue (whole ++ fraction), (scanExponent rest).1 - fraction.length⟩,
    (scanExponent rest).2)

lemma scan_of_point {digits more : List Char} (h : digits.dropWhile isDigit = '.' :: more) :
    Numeral.scan digits =
      if (digits.takeWhile isDigit).isEmpty && (more.takeWhile isDigit).isEmpty then none
      else some (numeralOf (digits.takeWhile isDigit) (more.takeWhile isDigit)
        (more.dropWhile isDigit)) := by
  unfold Numeral.scan
  simp only [h]
  rfl

lemma scan_of_no_point {digits : List Char} (h : ∀ more, digits.dropWhile isDigit ≠ '.' :: more) :
    Numeral.scan digits =
      if (digits.takeWhile isDigit).isEmpty then none
      else some (numeralOf (digits.takeWhile isDigit) [] (digits.dropWhile isDigit)) := by
  unfold Numeral.scan
  simp only
  split
  · rfl
  · rfl

lemma numeralOf_append {whole fraction cs rest : List Char} (hrest : Ends rest)
    (hsign : NoSign rest ∨ (scanExponent cs).2 = []) :
    numeralOf whole fraction (cs ++ rest) =
      ((numeralOf whole fraction cs).1, (numeralOf whole fraction cs).2 ++ rest) := by
  rw [numeralOf, numeralOf, scanExponent_append hrest hsign]

lemma scan_append {digits rest : List Char} (hrest : Ends rest)
    (hsign : NoSign rest ∨ ∃ n, Numeral.scan digits = some (n, [])) :
    Numeral.scan (digits ++ rest) = (Numeral.scan digits).map fun r => (r.1, r.2 ++ rest) := by
  have hremaining {r : Numeral × List Char} (hscan : Numeral.scan digits = some r) :
      NoSign rest ∨ r.2 = [] := by
    refine hsign.imp id fun ⟨n, hcomplete⟩ => ?_
    rw [← Option.some.inj (hcomplete.symm.trans hscan)]
  by_cases hpoint : ∃ more, digits.dropWhile isDigit = '.' :: more
  · obtain ⟨more, hafter⟩ := hpoint
    have hboth : (digits ++ rest).dropWhile isDigit = '.' :: (more ++ rest) := by
      rw [dropWhile_isDigit_append hrest, hafter, List.cons_append]
    rw [scan_of_point hafter] at hremaining ⊢
    rw [scan_of_point hboth, takeWhile_isDigit_append hrest, takeWhile_isDigit_append hrest,
      dropWhile_isDigit_append hrest]
    split
    · rfl
    · rename_i hsome
      rw [numeralOf_append hrest (hremaining (if_neg hsome)), Option.map_some]
  · have hnone : ∀ more, digits.dropWhile isDigit ≠ '.' :: more := not_exists.1 hpoint
    have hboth : ∀ more, (digits ++ rest).dropWhile isDigit ≠ '.' :: more := by
      intro more hafter
      rw [dropWhile_isDigit_append hrest] at hafter
      cases hdrop : digits.dropWhile isDigit with
      | nil =>
        rw [hdrop, List.nil_append] at hafter
        exact absurd rfl (hrest '.' (by rw [hafter]; rfl)).2.2
      | cons c cs =>
        rw [hdrop, List.cons_append] at hafter
        exact hnone cs ((List.cons.inj hafter).1 ▸ hdrop)
    rw [scan_of_no_point hnone] at hremaining ⊢
    rw [scan_of_no_point hboth, takeWhile_isDigit_append hrest, dropWhile_isDigit_append hrest]
    split
    · rfl
    · rename_i hsome
      rw [numeralOf_append hrest (hremaining (if_neg hsome)), Option.map_some]

lemma number_append {digits rest : List Char} {v : Float} (h : IsNumeral digits v)
    (hrest : Ends rest) : number (digits ++ rest) = some rest := by
  obtain ⟨n, hscan, -⟩ := h
  rw [number, scan_append hrest (.inr ⟨n, hscan⟩), hscan]
  rfl

lemma numberValue_ofList {digits : List Char} {v : Float} (h : IsNumeral digits v) :
    numberValue (String.ofList digits) = v := by
  obtain ⟨n, hscan, hv⟩ := h
  rw [numberValue, String.toList_ofList, hscan]
  exact hv

/-! ## First characters -/

/-- The characters that a numeral starts with. -/
def startsNumeral (c : Char) : Bool := isDigit c || c == '.'

lemma number_eq_none {text : List Char} (h : ∀ c ∈ text.head?, startsNumeral c = false) :
    number text = none := by
  have hdigit : ∀ c ∈ text.head?, isDigit c = false := fun c hc =>
    (Bool.or_eq_false_iff.1 (h c hc)).1
  have hwhole : text.takeWhile isDigit = [] := takeWhile_append_of_head hdigit []
  have hafter : text.dropWhile isDigit = text := dropWhile_append_of_head hdigit []
  have hpoint : ∀ rest, text ≠ '.' :: rest := by
    rintro rest rfl
    exact absurd (h '.' rfl) (by decide)
  unfold number Numeral.scan
  simp only [hwhole, hafter, List.isEmpty_nil, if_true]
  rfl

lemma IsNumeral.head {digits : List Char} {v : Float} (h : IsNumeral digits v) :
    ∃ c cs, digits = c :: cs ∧ startsNumeral c = true := by
  obtain ⟨n, hscan, -⟩ := h
  by_contra hnone
  have hhead : ∀ c ∈ digits.head?, startsNumeral c = false := by
    intro c hc
    cases digits with
    | nil => cases hc
    | cons d ds =>
      obtain rfl := Option.some.inj hc
      exact Bool.eq_false_iff.2 fun hstart => hnone ⟨d, ds, rfl, hstart⟩
  have hnumber := number_eq_none hhead
  rw [number, hscan] at hnumber
  cases hnumber

lemma name_eq_none {text : List Char} (h : ∀ c ∈ text.head?, startsName c = false) :
    name text = none := by
  cases text with
  | nil => rfl
  | cons c cs => rw [name, if_neg (by rw [h c rfl]; exact Bool.false_ne_true)]

lemma string_eq_none {text : List Char} (h : ∀ c ∈ text.head?, c ≠ '"') : string text = none := by
  cases text with
  | nil => rfl
  | cons c cs =>
    unfold string
    split
    · rename_i heq
      exact absurd (List.cons.inj heq).1 (h c rfl)
    · rfl

lemma exists_first_of_isDigit {c : Char} (h : isDigit c = true) :
    ∃ first ∈ digitZeros, first ≤ c.toNat ∧ c.toNat < first + 10 := by
  obtain ⟨d, hd⟩ := Option.isSome_iff_exists.1 h
  obtain ⟨first, hzero, -⟩ := Option.map_eq_some_iff.1 hd
  have hrange := List.find?_some hzero
  simp only [Bool.and_eq_true, decide_eq_true_eq] at hrange
  exact ⟨first, List.mem_of_find?_eq_some hzero, hrange⟩

/-- A digit of the first scripts is one of the ten ASCII digits. -/
lemma isDigit_of_lt {c : Char} (h : isDigit c = true) (hlt : c.toNat < 0x660) :
    0x30 ≤ c.toNat ∧ c.toNat < 0x3A := by
  obtain ⟨first, hmem, hrange⟩ := exists_first_of_isDigit h
  have hzeros : ∀ z ∈ digitZeros, z = 0x30 ∨ 0x660 ≤ z := by decide
  rcases hzeros first hmem with rfl | hz
  · exact hrange
  · omega

/-- No digit of any script is a blank. -/
lemma isSpace_of_isDigit {c : Char} (h : isDigit c = true) : isSpace c = false := by
  obtain ⟨first, hmem, hrange⟩ := exists_first_of_isDigit h
  have hzeros : ∀ z ∈ digitZeros, z = 0x30 ∨ 0x660 ≤ z ∧ z + 10 ≤ 0x1680 ∨
      0x1681 ≤ z ∧ z + 10 ≤ 0x180E ∨ 0x180F ≤ z ∧ z + 10 ≤ 0x2000 ∨ 0x3001 ≤ z := by decide
  have hzero := hzeros first hmem
  have hspace : c.toNat ≠ ' '.toNat → c ≠ ' ' := fun hne heq => hne (congrArg Char.toNat heq)
  have hne : c.toNat ≠ ' '.toNat := by
    show c.toNat ≠ 0x20
    omega
  simp only [isSpace, inRange, Bool.or_eq_false_iff, Bool.and_eq_false_iff, decide_eq_false_iff_not,
    beq_eq_false_iff_ne]
  refine ⟨⟨⟨⟨⟨⟨⟨⟨⟨⟨?_, hspace hne⟩, ?_⟩, ?_⟩, ?_⟩, ?_⟩, ?_⟩, ?_⟩, ?_⟩, ?_⟩, ?_⟩
  all_goals omega

lemma toNat_of_startsName {c : Char} (h : startsName c = true) :
    c.toNat = 0x24 ∨ 0x41 ≤ c.toNat ∧ c.toNat ≤ 0x7A := by
  rw [startsName, Bool.or_eq_true, Bool.or_eq_true, beq_iff_eq, beq_iff_eq] at h
  rcases h with (hletter | rfl) | rfl
  · rcases Bool.or_eq_true_iff.1 hletter with hupper | hlower
    · obtain ⟨hlow, hhigh⟩ := of_decide_eq_true hupper
      have htop := UInt32.le_iff_toNat_le.1 hhigh
      exact .inr ⟨UInt32.le_iff_toNat_le.1 hlow, htop.trans (by decide)⟩
    · obtain ⟨hlow, hhigh⟩ := Bool.and_eq_true_iff.1 hlower
      have hbottom := UInt32.le_iff_toNat_le.1 (of_decide_eq_true hlow)
      exact .inr ⟨le_trans (by decide) hbottom, UInt32.le_iff_toNat_le.1 (of_decide_eq_true hhigh)⟩
  · exact .inr (by decide)
  · exact .inl rfl

/-- No name starts with a digit, in any script. -/
lemma startsNumeral_of_startsName {c : Char} (h : startsName c = true) :
    startsNumeral c = false := by
  have hname := toNat_of_startsName h
  refine Bool.or_eq_false_iff.2 ⟨Bool.eq_false_iff.2 fun hdigit => ?_, ?_⟩
  · have hrange := isDigit_of_lt hdigit (by omega)
    omega
  · rw [beq_eq_false_iff_ne]
    rintro rfl
    exact absurd h (by decide)

lemma isSpace_of_startsName {c : Char} (h : startsName c = true) : isSpace c = false := by
  have hname := toNat_of_startsName h
  have hspace : c ≠ ' ' := by
    rintro rfl
    exact absurd h (by decide)
  simp only [isSpace, inRange, Bool.or_eq_false_iff, Bool.and_eq_false_iff, decide_eq_false_iff_not,
    beq_eq_false_iff_ne]
  refine ⟨⟨⟨⟨⟨⟨⟨⟨⟨⟨?_, hspace⟩, ?_⟩, ?_⟩, ?_⟩, ?_⟩, ?_⟩, ?_⟩, ?_⟩, ?_⟩, ?_⟩
  all_goals omega

/-- The characters that an expression without an operator starts with. -/
def startsPrimary (c : Char) : Bool := startsNumeral c || c == '"' || startsName c || c == '('

lemma startsPrimary_iff {c : Char} :
    startsPrimary c = true ↔
      isDigit c = true ∨ c = '.' ∨ c = '"' ∨ startsName c = true ∨ c = '(' := by
  simp only [startsPrimary, startsNumeral, Bool.or_eq_true, beq_iff_eq, or_assoc]

lemma isSpace_of_startsPrimary {c : Char} (h : startsPrimary c = true) : isSpace c = false := by
  rcases startsPrimary_iff.1 h with hdigit | rfl | rfl | hname | rfl
  · exact isSpace_of_isDigit hdigit
  · decide
  · decide
  · exact isSpace_of_startsName hname
  · decide

lemma ne_of_startsPrimary {c d : Char} (h : startsPrimary c = true)
    (hd : startsPrimary d = false) : c ≠ d := by
  rintro rfl
  rw [h] at hd
  cases hd

end SignalCalc.Syntax.Token
