import SignalCalc.Proofs.Syntax.Cut

/-!
# Words at a cut

A word that ends in front of a cut is read without the text behind it, too (`WordCut`).  A word that goes
on behind the cut is missing in the beginning, or the beginning ends with a shorter one; behind a numeral
the letter of an exponent may be left.  A slash or an equals sign at the very end of the beginning may
be a word there alone (`LaxWordCut`), but then nothing follows it.

What follows an expression is seen by its sign behind the layout (`signAt`).
-/

namespace SignalCalc.Syntax

open SignalCalc.Number
open SignalCalc.Syntax.Layout
open SignalCalc.Syntax.Parser
open SignalCalc.Syntax.Token
open SignalCalc.Text

variable {α β : Type} {source : String} {more s t : List Char} {A A' : List Char} {n n' d e : ℕ}
  {B C : List Char → Prop}

/-! ## Signs -/

/-- The sign at the start of a text, one that neither starts a comment nor stands for itself. -/
def signOf : List Char → Option Char
  | c :: rest =>
    if c = '=' ∧ rest.head? ≠ some '=' ∨
      c = '/' ∧ (rest = [] ∨ rest.head? = some '/' ∨ rest.head? = some '*') then none
    else some c
  | [] => none

/-- The sign behind the layout of a line. -/
def signAt (text : List Char) : Option Char := signOf (inside text)

/-- None of these signs stands behind the layout of the line. -/
def Blocked (signs text : List Char) : Prop := ∀ c ∈ signAt text, c ∉ signs

lemma signOf_append {c : Char} (h : signOf t = some c) (more : List Char) :
    signOf (t ++ more) = some c := by
  cases t with
  | nil => cases h
  | cons a t =>
    rw [signOf] at h
    split at h
    · cases h
    · rename_i hsign
      rw [List.cons_append, signOf, if_neg, h]
      cases t with
      | nil =>
        have ha : a ≠ '=' ∧ a ≠ '/' := by simpa [not_or] using hsign
        simp [ha.1, ha.2]
      | cons b t => simpa using hsign

lemma IsSpent.inside_eq (h : IsSpent t) : inside t = t := by
  cases h with
  | nil => rfl
  | slash => exact inside_slash nofun
  | opening hrest => exact (Starts.opening hrest : Starts isLineBlank _).inside_eq

lemma IsSpent.signOf_eq (h : IsSpent t) : signOf t = none := by
  cases h <;> simp [signOf]

lemma IsSpent.blocked (h : IsSpent t) : Blocked A t := by
  rw [Blocked, signAt, h.inside_eq, h.signOf_eq]
  exact nofun

/-- A sign that stands in front of the cut stands there whatever is behind the cut. -/
lemma Blocked.of_append (h : Blocked A (t ++ more)) : Blocked A t := by
  intro c hc
  rcases inside_cut t more with hinside | ⟨-, hspent⟩
  · refine h c ?_
    rw [signAt, hinside]
    exact signOf_append hc more
  · rw [signAt, hspent.signOf_eq] at hc
    cases hc

lemma Blocked.mono (h : Blocked A t) (hA : A' ⊆ A) : Blocked A' t := fun c hc hmem => h c hc (hA hmem)

/-! ## Words -/

/-- Reading a word at the start of a text with `more` behind it and of the text alone. -/
inductive WordCut (more : List Char) (B : List Char → Prop) (scanner : List Char → Option (List Char))
    (s : List Char) : Prop where
  | within {r} : scanner s = some r → scanner (s ++ more) = some (r ++ more) → WordCut more B scanner s
  | fail : scanner s = none → scanner (s ++ more) = none → WordCut more B scanner s
  | beyond {r} : scanner (s ++ more) = some r → r.length < more.length → (∀ r' ∈ scanner s, B r') →
    WordCut more B scanner s

/-- The same, but the last character of the text may be a word there alone. -/
inductive LaxWordCut (more : List Char) (scanner : List Char → Option (List Char)) (s : List Char) :
    Prop where
  | within {r} : scanner s = some r → scanner (s ++ more) = some (r ++ more) → LaxWordCut more scanner s
  | beyond : (∀ r ∈ scanner (s ++ more), r.length < more.length) → (∀ r' ∈ scanner s, r' = []) →
    LaxWordCut more scanner s

section Scanners

variable {scanner : List Char → Option (List Char)}

lemma WordCut.lax (h : WordCut more (· = []) scanner s) : LaxWordCut more scanner s := by
  cases h with
  | within hs hmore => exact .within hs hmore
  | fail hs hmore => exact .beyond (by simp [hmore]) (by simp [hs])
  | beyond hmore hlt hs => exact .beyond (by simpa [hmore] using hlt) hs

lemma WordCut.mono (h : WordCut more B scanner s) (hB : ∀ r, B r → C r) : WordCut more C scanner s := by
  cases h with
  | within hs hmore => exact .within hs hmore
  | fail hs hmore => exact .fail hs hmore
  | beyond hmore hlt hs => exact .beyond hmore hlt fun r' hr' => hB r' (hs r' hr')

lemma length_lt_of_takesWord (h : TakesWord scanner) {r : List Char} (hread : scanner s = some r) :
    r.length < s.length := by
  obtain ⟨front, hfront, rfl⟩ := h s r hread
  have hpos := List.length_pos_iff.2 hfront
  rw [List.length_append]
  omega

/-- No word stands in the empty text. -/
lemma WordCut.nil (h : TakesWord scanner) : WordCut more B scanner [] := by
  have hnil : scanner [] = none := by
    cases hread : scanner [] with
    | none => rfl
    | some r => exact absurd (length_lt_of_takesWord h hread) (Nat.not_lt_zero _)
  cases hread : scanner more with
  | none => exact .fail hnil hread
  | some r => exact .beyond hread (length_lt_of_takesWord h hread) (by simp [hnil])

/-- A word takes the whole text, and what is behind it perhaps. -/
lemma WordCut.of_suffix {r : List Char} (hs : scanner s = some []) (hmore : scanner (s ++ more) = some r)
    (hr : r <:+ more) (hB : B []) : WordCut more B scanner s := by
  rcases Nat.lt_or_ge r.length more.length with hlt | hle
  · refine .beyond hmore hlt fun r' hr' => ?_
    rw [hs] at hr'
    exact Option.some.inj hr' ▸ hB
  · refine .within hs ?_
    rw [hmore, hr.eq_of_length (Nat.le_antisymm hr.length_le hle), List.nil_append]

end Scanners

lemma literal_cut (w s : List Char) : WordCut more Never (literal w) s := by
  by_cases hs : w <+: s
  · obtain ⟨r, rfl⟩ := hs
    exact .within (literal_append w r) (by rw [List.append_assoc, literal_append])
  · by_cases hmore : w <+: s ++ more
    · obtain ⟨r, hr⟩ := hmore
      refine .beyond (r := r) (by rw [← hr, literal_append]) ?_ (by simp [literal_eq_none hs])
      have hlength := congrArg List.length hr
      simp only [List.length_append] at hlength
      by_contra hle
      exact hs (List.prefix_of_prefix_length_le ⟨r, hr⟩ (List.prefix_append s more) (by omega))
    · exact .fail (literal_eq_none hs) (literal_eq_none hmore)

lemma slash_cut (s : List Char) : LaxWordCut more slash s := by
  cases hread : slash s with
  | none =>
    refine .beyond (fun r hr => ?_) (by simp [hread])
    obtain ⟨heq, hnext⟩ := slash_eq_some hr
    cases s with
    | nil =>
      obtain rfl : more = _ := heq
      exact Nat.lt_succ_self _
    | cons c s =>
      obtain ⟨rfl, rfl⟩ := List.cons.inj heq
      have halone : NoComment s := by
        cases s with
        | nil => exact ⟨nofun, nofun⟩
        | cons d s => exact hnext
      rw [slash_append halone] at hread
      cases hread
  | some r =>
    obtain ⟨rfl, hnext⟩ := slash_eq_some hread
    by_cases hmore : NoComment (r ++ more)
    · exact .within hread (slash_append hmore)
    · refine .beyond (fun r' hr' => ?_) fun r' hr' => ?_
      · obtain ⟨heq, hnext'⟩ := slash_eq_some hr'
        obtain ⟨-, rfl⟩ := List.cons.inj heq
        exact absurd hnext' hmore
      · obtain rfl := Option.some.inj (hread.symm.trans hr')
        by_contra hne
        exact hmore (hnext.append hne more)

lemma assign_cut (s : List Char) : LaxWordCut more assign s := by
  cases s with
  | nil => exact (WordCut.nil assign_readsLocally.proper).lax
  | cons c s =>
    by_cases hc : c = '='
    · subst hc
      cases s with
      | nil =>
        by_cases hmore : more.head? = some '='
        · refine .beyond ?_ ?_
          · simp [assign_equals, hmore]
          · simp [assign_equals]
        · exact .within (r := []) rfl (by simp [assign_equals, hmore])
      | cons d s =>
        by_cases hd : d = '='
        · refine .beyond ?_ ?_
          · simp [assign_equals, hd]
          · simp [assign_equals, hd]
        · exact .within (r := d :: s) (by simp [assign_equals, hd]) (by simp [assign_equals, hd])
    · refine .beyond ?_ ?_
      · simp [List.cons_append, assign_cons_of_ne hc]
      · simp [assign_cons_of_ne hc]

/-- Characters of a set are dropped up to one in front of the cut, or all in front of it are dropped. -/
lemma dropWhile_cut (p : Char → Bool) (s more : List Char) :
    (s.dropWhile p = [] ∧ (s ++ more).dropWhile p = more.dropWhile p ∧
      s.takeWhile p = s ∧ (s ++ more).takeWhile p = s ++ more.takeWhile p) ∨
    (s.dropWhile p ≠ [] ∧ (s ++ more).dropWhile p = s.dropWhile p ++ more ∧
      (s ++ more).takeWhile p = s.takeWhile p) := by
  by_cases hdrop : s.dropWhile p = []
  · have htake : s.takeWhile p = s := by
      simpa [hdrop] using List.takeWhile_append_dropWhile (p := p) (l := s)
    refine .inl ⟨hdrop, ?_, htake, ?_⟩
    · rw [List.dropWhile_append, hdrop]
      rfl
    · rw [List.takeWhile_append, htake, if_pos rfl]
  · refine .inr ⟨hdrop, ?_, ?_⟩
    · rw [List.dropWhile_append, if_neg (by simpa using hdrop)]
    · rw [List.takeWhile_append, if_neg]
      intro hlength
      have hsum := congrArg List.length (List.takeWhile_append_dropWhile (p := p) (l := s))
      rw [List.length_append, hlength] at hsum
      exact hdrop (List.length_eq_zero_iff.1 (by omega))

lemma name_cut (s : List Char) : WordCut more (· = []) name s := by
  cases s with
  | nil => exact .nil name_readsLocally.proper
  | cons c s =>
    cases hc : startsName c with
    | false => exact .fail (by simp [name, hc]) (by simp [name, hc])
    | true =>
      have hname (text : List Char) : name (c :: text) = some (text.dropWhile continuesName) := by
        rw [name, if_pos hc]
      rcases dropWhile_cut continuesName s more with ⟨hdrop, hdrop', -⟩ | ⟨-, hdrop', -⟩
      · refine .of_suffix (r := more.dropWhile continuesName) ?_ ?_ (List.dropWhile_suffix _) rfl
        · rw [hname, hdrop]
        · rw [List.cons_append, hname, hdrop']
      · exact .within (hname s) (by rw [List.cons_append, hname, hdrop'])

lemma string_cut (s : List Char) : WordCut more Never string s := by
  cases s with
  | nil => exact .nil string_takesWord
  | cons c s =>
    by_cases hc : c = '"'
    · subst hc
      obtain ⟨body, rest, hbody, rfl, hrest⟩ := exists_quotable s
      have hfeed (text : List Char) : ∀ c ∈ ('\n' :: text).head?, c = '\n' := fun c hc =>
        (Option.some.inj hc).symm
      cases rest with
      | nil =>
        have hopen : string ('"' :: (body ++ [])) = none := string_open hbody nofun
        obtain ⟨body', rest', hbody', rfl, hrest'⟩ := exists_quotable more
        have hboth : IsQuotable (body ++ body') := fun d hd =>
          (List.mem_append.1 hd).elim (hbody d) (hbody' d)
        rw [List.append_nil] at hopen ⊢
        cases rest' with
        | nil =>
          refine .fail hopen ?_
          rw [List.cons_append, List.append_nil]
          have hend : ∀ c ∈ ([] : List Char).head?, c = '\n' := nofun
          simpa using string_open hboth hend
        | cons d rest' =>
          rcases hrest' d rfl with rfl | rfl
          · refine .beyond (r := rest') ?_ ?_ (by simp [hopen])
            · rw [List.cons_append, ← List.append_assoc]
              exact string_append hboth rest'
            · simp only [List.length_append, List.length_cons]
              omega
          · refine .fail hopen ?_
            rw [List.cons_append, ← List.append_assoc]
            exact string_open hboth (hfeed rest')
      | cons d rest =>
        rcases hrest d rfl with rfl | rfl
        · refine .within (string_append hbody rest) ?_
          rw [List.cons_append, List.append_assoc, List.cons_append]
          exact string_append hbody (rest ++ more)
        · refine .fail (string_open hbody (hfeed rest)) ?_
          rw [List.cons_append, List.append_assoc, List.cons_append]
          exact string_open hbody (hfeed _)
    · have hnone (text : List Char) : string (c :: text) = none :=
        string_eq_none fun d hd => Option.some.inj hd ▸ hc
      exact .fail (hnone s) (hnone (s ++ more))

/-! ## Numerals -/

/-- A numeral without its last characters leaves nothing of them, or what may be an exponent. -/
def LeavesExponent (text : List Char) : Prop := ∀ c ∈ text.head?, c = 'e' ∨ c = 'E'

lemma number_of_point {u v : List Char} (h : u.dropWhile isDigit = '.' :: v) :
    number u = if (u.takeWhile isDigit).isEmpty && (v.takeWhile isDigit).isEmpty then none
      else some (scanExponent (v.dropWhile isDigit)).2 := by
  rw [number, scan_of_point h]
  split
  · rfl
  · rfl

lemma number_of_no_point {u : List Char} (h : ∀ v, u.dropWhile isDigit ≠ '.' :: v) :
    number u = if (u.takeWhile isDigit).isEmpty then none
      else some (scanExponent (u.dropWhile isDigit)).2 := by
  rw [number, scan_of_no_point h]
  split
  · rfl
  · rfl

/-- Behind digits a numeral goes on with what follows them. -/
lemma exists_number_of_digits {u : List Char} (h : u.takeWhile isDigit ≠ []) :
    ∃ r, number u = some r ∧ r <:+ u.dropWhile isDigit := by
  have hdigits : (u.takeWhile isDigit).isEmpty = false := by simpa using h
  by_cases hpoint : ∃ v, u.dropWhile isDigit = '.' :: v
  · obtain ⟨v, hv⟩ := hpoint
    rw [number_of_point hv, hdigits, hv]
    exact ⟨_, rfl, ((scanExponent_suffix _).trans (List.dropWhile_suffix _)).trans
      (List.suffix_cons _ _)⟩
  · rw [number_of_no_point (not_exists.1 hpoint), hdigits]
    exact ⟨_, rfl, scanExponent_suffix _⟩

lemma scanExponent_of_letter {c : Char} (hc : (c == 'e' || c == 'E') = true) (cs : List Char) :
    (scanExponent (c :: cs)).2 = if (exponentSign cs).2.takeWhile isDigit = [] then c :: cs
      else (exponentSign cs).2.dropWhile isDigit := by
  rw [scanExponent_cons, hc]
  by_cases hdigits : (exponentSign cs).2.takeWhile isDigit = []
  · simp [hdigits]
  · simp [hdigits]

lemma exists_exponentSign_append (cs more : List Char) : ∃ w, w <:+ more ∧
    (exponentSign (cs ++ more)).2 = (exponentSign cs).2 ++ w ∧ ((exponentSign cs).2 = [] ∨ w = more) := by
  by_cases hcs : cs = []
  · subst hcs
    exact ⟨_, exponentSign_suffix more, rfl, .inl rfl⟩
  · exact ⟨more, List.suffix_refl more, by rw [exponentSign_append hcs], .inr rfl⟩

lemma scanExponent_cut (hs : s ≠ []) (more : List Char) :
    (scanExponent (s ++ more)).2 = (scanExponent s).2 ++ more ∨
      (scanExponent (s ++ more)).2.length < more.length ∧ LeavesExponent (scanExponent s).2 := by
  cases s with
  | nil => exact absurd rfl hs
  | cons c cs =>
    cases hletter : c == 'e' || c == 'E' with
    | false =>
      rw [List.cons_append, scanExponent_cons, scanExponent_cons, hletter]
      exact .inl rfl
    | true =>
      have hleaves : LeavesExponent (c :: cs) := fun d hd => by
        obtain rfl := Option.some.inj hd
        simpa using hletter
      obtain ⟨w, hw, hsign, hrest⟩ := exists_exponentSign_append cs more
      rw [List.cons_append, scanExponent_of_letter hletter, scanExponent_of_letter hletter, hsign]
      generalize (exponentSign cs).2 = u at hrest ⊢
      rcases dropWhile_cut isDigit u w with ⟨hdrop, hdrop', htake, htake'⟩ | ⟨hdrop, hdrop', htake'⟩
      · rw [hdrop, hdrop', htake, htake']
        by_cases hu : u = []
        · subst hu
          rw [if_pos rfl, List.nil_append]
          split
          · exact .inl rfl
          · rename_i hdigits
            refine .inr ⟨?_, hleaves⟩
            have hsum := congrArg List.length (List.takeWhile_append_dropWhile (p := isDigit) (l := w))
            have hpos := List.length_pos_iff.2 hdigits
            rw [List.length_append] at hsum
            have hle := hw.length_le
            omega
        · obtain rfl := hrest.resolve_left hu
          rw [if_neg hu, if_neg (by simp [hu]), List.nil_append]
          have hsuffix := List.dropWhile_suffix isDigit (l := w)
          rcases Nat.lt_or_ge (w.dropWhile isDigit).length w.length with hlt | hle
          · exact .inr ⟨hlt, nofun⟩
          · exact .inl (hsuffix.eq_of_length (Nat.le_antisymm hsuffix.length_le hle))
      · have hu : u ≠ [] := by
          rintro rfl
          exact hdrop rfl
        obtain rfl := hrest.resolve_left hu
        rw [hdrop', htake']
        split
        · exact .inl rfl
        · exact .inl rfl

lemma number_cut_point {v : List Char} (hs : s.dropWhile isDigit = '.' :: v)
    (hdrop : (s ++ more).dropWhile isDigit = s.dropWhile isDigit ++ more)
    (htake : (s ++ more).takeWhile isDigit = s.takeWhile isDigit) :
    WordCut more LeavesExponent number s := by
  have hmore : (s ++ more).dropWhile isDigit = '.' :: (v ++ more) := by rw [hdrop, hs, List.cons_append]
  have hread := number_of_point hs
  have hread' := number_of_point hmore
  rw [htake] at hread'
  rcases dropWhile_cut isDigit v more with ⟨hv, hv', htakev, htakev'⟩ | ⟨hv, hv', htakev'⟩
  · rw [htakev, hv] at hread
    rw [htakev', hv'] at hread'
    have hsum := congrArg List.length (List.takeWhile_append_dropWhile (p := isDigit) (l := more))
    have hsuffix := scanExponent_suffix (more.dropWhile isDigit)
    rw [List.length_append] at hsum
    split at hread
    · rename_i hempty
      split at hread'
      · exact .fail hread hread'
      · rename_i hdigits
        -- The first digits stand behind the cut.
        have hpos : 0 < (more.takeWhile isDigit).length := by
          rw [List.length_pos_iff]
          intro hnone
          rw [hnone, List.append_nil] at hdigits
          exact hdigits hempty
        have hle := hsuffix.length_le
        exact .beyond hread' (by omega) (by simp [hread])
    · rename_i hdigits
      have hdigits' : ¬((s.takeWhile isDigit).isEmpty &&
          (v ++ more.takeWhile isDigit).isEmpty) = true := by
        refine mt (fun hempty => ?_) hdigits
        simp only [Bool.and_eq_true, List.isEmpty_iff, List.append_eq_nil_iff] at hempty ⊢
        exact ⟨hempty.1, hempty.2.1⟩
      rw [if_neg hdigits'] at hread'
      exact .of_suffix hread hread' (hsuffix.trans (List.dropWhile_suffix _)) nofun
  · rw [htakev', hv'] at hread'
    split at hread
    · rename_i hempty
      rw [if_pos hempty] at hread'
      exact .fail hread hread'
    · rename_i hdigits
      rw [if_neg hdigits] at hread'
      rcases scanExponent_cut hv more with heq | ⟨hlt, hleaves⟩
      · exact .within hread (by rw [hread', heq])
      · exact .beyond hread' hlt (by simpa [hread] using hleaves)

lemma number_cut (s : List Char) : WordCut more LeavesExponent number s := by
  rcases dropWhile_cut isDigit s more with ⟨hdrop, hdrop', htake, htake'⟩ | ⟨hdrop, hdrop', htake⟩
  · by_cases hs : s = []
    · subst hs
      exact .nil number_readsLocally.proper
    · obtain ⟨r, hr, hsuffix⟩ := exists_number_of_digits (u := s ++ more) (by simp [htake', hs])
      rw [hdrop'] at hsuffix
      refine .of_suffix ?_ hr (hsuffix.trans (List.dropWhile_suffix _)) nofun
      rw [number_of_no_point (by simp [hdrop]), htake, hdrop, if_neg (by simpa using hs)]
      rfl
  · by_cases hpoint : ∃ v, s.dropWhile isDigit = '.' :: v
    · obtain ⟨v, hv⟩ := hpoint
      exact number_cut_point hv hdrop' htake
    · have hread := number_of_no_point (not_exists.1 hpoint)
      have hread' : number (s ++ more) = if (s.takeWhile isDigit).isEmpty then none
          else some (scanExponent (s.dropWhile isDigit ++ more)).2 := by
        rw [number_of_no_point, htake, hdrop']
        intro v hv
        rw [hdrop'] at hv
        cases hrest : s.dropWhile isDigit with
        | nil => exact hdrop hrest
        | cons c rest =>
          rw [hrest] at hv
          obtain ⟨rfl, -⟩ := List.cons.inj hv
          exact hpoint ⟨rest, hrest⟩
      split at hread
      · rename_i hempty
        rw [if_pos hempty] at hread'
        exact .fail hread hread'
      · rename_i hdigits
        rw [if_neg hdigits] at hread'
        rcases scanExponent_cut hdrop more with heq | ⟨hlt, hleaves⟩
        · exact .within hread (by rw [hread', heq])
        · exact .beyond hread' hlt (by simpa [hread] using hleaves)

end SignalCalc.Syntax
