import SignalCalc.Proofs.Syntax.Comments
import SignalCalc.Proofs.Syntax.CutRules

/-!
# The end of a statement at a cut

The end of a statement in front of a cut is found without the text behind the cut, too
(`ends_cut`).  In layout it may be found without that text alone: what looks for an end may go on from
an opening that is none, the last two characters of `/*/`, and then a closing behind the cut
matters.  `KeepsEnd` says that it does not; layout without such a slash keeps its ends
(`ending?_blank_append`).
-/

namespace SignalCalc.Syntax.Layout

open SignalCalc.Text

variable {text more rest body w : List Char} {c : Char}

/-! ## Where the end of a statement is looked for -/

lemma endingComment?_skip (h : c = '*' → text.head? ≠ some '/') :
    endingComment? (c :: text) = endingComment? text := by
  rw [endingComment?]
  rintro after rfl rfl
  exact h rfl rfl

lemma endingComment?_of_ne (h : c ≠ '*') (text : List Char) :
    endingComment? (c :: text) = endingComment? text :=
  endingComment?_skip fun heq => absurd heq h

lemma endingComment?_closing (text : List Char) :
    endingComment? ('*' :: '/' :: text) = (ending? text).or (endingComment? text) := by
  rw [endingComment?]
  cases ending? text <;> rfl

lemma endingComment?_skip_body (h : IsCommentBody body) (rest : List Char) :
    endingComment? (body ++ '*' :: '/' :: rest) = endingComment? ('*' :: '/' :: rest) := by
  induction body with
  | nil => rfl
  | cons c body ih =>
    rw [List.cons_append, endingComment?_skip, ih h.tail]
    intro hc hhead
    obtain ⟨after, hafter⟩ := List.head?_eq_some_iff.1 hhead
    exact h.not_closing hc rest after hafter

lemma ending?_line_blank (hc : c = ' ' ∨ c = '\t') (text : List Char) :
    ending? (c :: text) = ending? text := by
  rcases hc with rfl | rfl
  · rw [ending?]
  · rw [ending?]

lemma ending?_mark (hc : c = ';' ∨ c = '\n') (text : List Char) : ending? (c :: text) = some text := by
  rcases hc with rfl | rfl
  · rw [ending?]
  · rw [ending?]

/-- What a text starts with that may end a statement. -/
inductive EndFront : List Char → Prop where
  | nil : EndFront []
  | blank {c : Char} {text : List Char} : c = ' ' ∨ c = '\t' → EndFront (c :: text)
  | mark {c : Char} {text : List Char} : c = ';' ∨ c = '\n' → EndFront (c :: text)
  | comment (text : List Char) : EndFront ('/' :: '*' :: text)
  | line (text : List Char) : EndFront ('/' :: '/' :: text)
  | slash : EndFront ['/']
  | other {c : Char} {text : List Char} : (∀ more, ending? (c :: (text ++ more)) = none) →
    EndFront (c :: text)

lemma ending?_other (hblank : c ≠ ' ' ∧ c ≠ '\t') (hmark : c ≠ ';' ∧ c ≠ '\n') (hslash : c ≠ '/')
    (text : List Char) : ending? (c :: text) = none := by
  rw [ending?]
  · exact fun rest heq => hslash (List.cons.inj heq).1
  · exact fun rest heq => hslash (List.cons.inj heq).1
  · exact fun rest heq => hblank.1 (List.cons.inj heq).1
  · exact fun rest heq => hblank.2 (List.cons.inj heq).1
  · exact fun rest heq => hmark.1 (List.cons.inj heq).1
  · exact fun rest heq => hmark.2 (List.cons.inj heq).1

lemma ending?_slash (hc : c ≠ '/' ∧ c ≠ '*') (text : List Char) : ending? ('/' :: c :: text) = none := by
  rw [ending?]
  · exact fun rest heq => hc.2 (List.cons.inj (List.cons.inj heq).2).1
  · exact fun rest heq => hc.1 (List.cons.inj (List.cons.inj heq).2).1
  · exact fun rest heq => absurd (List.cons.inj heq).1 (by decide)
  · exact fun rest heq => absurd (List.cons.inj heq).1 (by decide)
  · exact fun rest heq => absurd (List.cons.inj heq).1 (by decide)
  · exact fun rest heq => absurd (List.cons.inj heq).1 (by decide)

lemma EndFront.of (text : List Char) : EndFront text := by
  cases text with
  | nil => exact .nil
  | cons c text =>
    by_cases hblank : c = ' ' ∨ c = '\t'
    · exact .blank hblank
    by_cases hmark : c = ';' ∨ c = '\n'
    · exact .mark hmark
    by_cases hslash : c = '/'
    · subst hslash
      cases text with
      | nil => exact .slash
      | cons d text =>
        by_cases hline : d = '/'
        · exact hline ▸ .line text
        by_cases hstar : d = '*'
        · exact hstar ▸ .comment text
        · exact .other fun more => ending?_slash ⟨hline, hstar⟩ _
    · exact .other fun more => ending?_other (not_or.1 hblank) (not_or.1 hmark) hslash _

/-! ## In front of the cut -/

lemma endInLine_length {semicolon : Option (List Char)} (h : endInLine semicolon text = some rest) :
    semicolon = some rest ∨ rest.length < text.length := by
  fun_induction endInLine semicolon text with
  | case1 semicolon after =>
    obtain rfl := Option.some.inj h
    exact .inr (Nat.lt_succ_self _)
  | case2 semicolon after ih =>
    rcases ih h with heq | hlt
    · obtain rfl := Option.some.inj heq
      exact .inr (Nat.lt_succ_self _)
    · exact .inr (Nat.lt_succ_of_lt hlt)
  | case3 semicolon c after _ _ ih => exact (ih h).imp_right Nat.lt_succ_of_lt
  | case4 semicolon => exact .inl h

lemma endInLine_cut {semicolon : Option (List Char)}
    (h : endInLine (semicolon.map (· ++ more)) (text ++ more) = some (rest ++ more)) :
    endInLine semicolon text = some rest := by
  fun_induction endInLine semicolon text with
  | case1 semicolon after =>
    rw [List.cons_append, endInLine] at h
    exact congrArg some (List.append_cancel_right (Option.some.inj h))
  | case2 semicolon after ih =>
    rw [List.cons_append, endInLine] at h
    exact ih h
  | case3 semicolon c after hfeed hsemi ih =>
    rw [List.cons_append, endInLine] at h
    · exact ih h
    · exact hfeed
    · exact hsemi
  | case4 semicolon =>
    rcases endInLine_length h with heq | hlt
    · obtain ⟨after, rfl, heq⟩ := Option.map_eq_some_iff.1 heq
      exact congrArg some (List.append_cancel_right (Option.some.inj heq))
    · rw [List.nil_append, List.length_append] at hlt
      omega

lemma endInLine_isSome_append {semicolon semicolon' : Option (List Char)}
    (hsemi : semicolon.isSome → semicolon'.isSome) (h : (endInLine semicolon text).isSome)
    (more : List Char) : (endInLine semicolon' (text ++ more)).isSome := by
  fun_induction endInLine semicolon text generalizing semicolon' with
  | case1 semicolon after => rw [List.cons_append, endInLine, Option.isSome_some]
  | case2 semicolon after ih =>
    rw [List.cons_append, endInLine]
    exact ih (fun _ => rfl) h
  | case3 semicolon c after hfeed hsemi' ih =>
    rw [List.cons_append, endInLine]
    · exact ih hsemi h
    · exact hfeed
    · exact hsemi'
  | case4 semicolon =>
    have hsome := hsemi h
    rw [List.nil_append]
    fun_induction endInLine semicolon' more with
    | case1 => rfl
    | case2 semicolon' after ih => exact ih (fun _ => rfl) rfl
    | case3 semicolon' c after _ _ ih => exact ih hsemi hsome
    | case4 semicolon' => exact hsome

/-- What a comment starts with that may close it. -/
inductive CommentFront : List Char → Prop where
  | nil : CommentFront []
  | closing (text : List Char) : CommentFront ('*' :: '/' :: text)
  | star : CommentFront ['*']
  | skip {c : Char} {text : List Char} : (c = '*' → text ≠ [] ∧ text.head? ≠ some '/') →
    CommentFront (c :: text)

lemma CommentFront.of (text : List Char) : CommentFront text := by
  cases text with
  | nil => exact .nil
  | cons c text =>
    by_cases hc : c = '*'
    · subst hc
      cases text with
      | nil => exact .star
      | cons d text =>
        by_cases hd : d = '/'
        · exact hd ▸ .closing text
        · exact .skip fun _ => ⟨List.cons_ne_nil _ _, fun hhead => hd (Option.some.inj hhead)⟩
    · exact .skip fun heq => absurd heq hc

lemma endingComment?_skip_append (h : c = '*' → text ≠ [] ∧ text.head? ≠ some '/') (more : List Char) :
    endingComment? (c :: text ++ more) = endingComment? (text ++ more) := by
  refine endingComment?_skip fun hc hhead => ?_
  obtain ⟨hne, hslash⟩ := h hc
  cases text with
  | nil => exact hne rfl
  | cons d text => exact hslash hhead

/-- A comment before the end of a statement is closed. -/
lemma endingComment?_length (h : endingComment? text = some rest) : rest.length + 2 < text.length := by
  induction hlength : text.length using Nat.strongRecOn generalizing text with
  | ind k ih =>
    cases CommentFront.of text with
    | nil => cases h
    | closing text =>
      rw [endingComment?_closing, Option.or_eq_some_iff] at h
      rw [← hlength]
      rcases h with hfound | ⟨-, hlater⟩
      · exact Nat.add_lt_add_right (ending?_length hfound) 2
      · exact Nat.lt_add_right 2 (ih text.length (by simp at hlength; omega) hlater rfl)
    | star => cases h
    | @skip c text hskip =>
      rw [endingComment?_skip fun hc => (hskip hc).2] at h
      exact hlength ▸ Nat.lt_succ_of_lt (ih text.length (by simp at hlength; omega) h rfl)

/-- A slash in front of the end of a statement starts a comment. -/
lemma ending?_slash_length (h : ending? ('/' :: text) = some rest) : rest.length < text.length := by
  cases text with
  | nil => cases h
  | cons c text =>
    by_cases hstar : c = '*'
    · subst hstar
      have hlt := endingComment?_length (show endingComment? text = some rest from h)
      rw [List.length_cons]
      omega
    by_cases hline : c = '/'
    · subst hline
      rcases endInLine_length (show endInLine none text = some rest from h) with hnone | hlt
      · cases hnone
      · exact Nat.lt_succ_of_lt hlt
    · rw [ending?_slash ⟨hline, hstar⟩] at h
      cases h

/-- A statement that ends in the beginning of a text ends in the text. -/
lemma ends_isSome_append (more : List Char) :
    ((ending? text).isSome → (ending? (text ++ more)).isSome) ∧
      ((endingComment? text).isSome → (endingComment? (text ++ more)).isSome) := by
  induction hlength : text.length using Nat.strongRecOn generalizing text with
  | ind k ih =>
    constructor
    · intro h
      cases EndFront.of text with
      | nil => cases h
      | @blank c text hc =>
        rw [ending?_line_blank hc] at h
        rw [List.cons_append, ending?_line_blank hc]
        exact (ih text.length (by simp at hlength; omega) rfl).1 h
      | mark hc =>
        rw [List.cons_append, ending?_mark hc]
        rfl
      | comment text => exact (ih text.length (by simp at hlength; omega) rfl).2 h
      | line text => exact endInLine_isSome_append id h more
      | slash => cases h
      | @other c text hnone =>
        have hnone := hnone []
        rw [List.append_nil] at hnone
        rw [hnone] at h
        cases h
    · intro h
      cases CommentFront.of text with
      | nil => cases h
      | closing text =>
        obtain ⟨hending, hcomment⟩ := ih text.length (by simp at hlength; omega) rfl
        rw [List.cons_append, List.cons_append, endingComment?_closing, Option.isSome_or]
        rw [endingComment?_closing, Option.isSome_or, Bool.or_eq_true] at h
        exact Bool.or_eq_true _ _ ▸ h.imp hending hcomment
      | star => cases h
      | @skip c text hskip =>
        rw [endingComment?_skip fun hc => (hskip hc).2] at h
        rw [endingComment?_skip_append hskip]
        exact (ih text.length (by simp at hlength; omega) rfl).2 h

/-- The end of a statement in front of the cut does not depend on the text behind it. -/
lemma ends_cut :
    (ending? (text ++ more) = some (rest ++ more) → ending? text = some rest) ∧
      (endingComment? (text ++ more) = some (rest ++ more) → endingComment? text = some rest) := by
  induction hlength : text.length using Nat.strongRecOn generalizing text with
  | ind k ih =>
    have hshort : ¬(rest ++ more).length < more.length := by simp
    constructor
    · intro h
      cases EndFront.of text with
      | nil => exact absurd (ending?_length h) hshort
      | @blank c text hc =>
        rw [List.cons_append, ending?_line_blank hc] at h
        rw [ending?_line_blank hc]
        exact (ih text.length (by simp at hlength; omega) rfl).1 h
      | mark hc =>
        rw [List.cons_append, ending?_mark hc] at h
        rw [ending?_mark hc, List.append_cancel_right (Option.some.inj h)]
      | comment text => exact (ih text.length (by simp at hlength; omega) rfl).2 h
      | line text => exact endInLine_cut (show endInLine (Option.map _ none) (text ++ more) = _ from h)
      | slash => exact absurd (ending?_slash_length h) hshort
      | other hnone =>
        rw [List.cons_append, hnone] at h
        cases h
    · intro h
      cases CommentFront.of text with
      | nil => exact absurd (Nat.lt_of_add_right_lt (endingComment?_length h)) hshort
      | closing text =>
        obtain ⟨hending, hcomment⟩ := ih text.length (by simp at hlength; omega) rfl
        rw [List.cons_append, List.cons_append, endingComment?_closing, Option.or_eq_some_iff] at h
        rw [endingComment?_closing, Option.or_eq_some_iff]
        refine h.imp hending fun ⟨hnone, hlater⟩ => ⟨?_, hcomment hlater⟩
        by_contra hsome
        have hends := (ends_isSome_append more).1 (Option.isSome_iff_ne_none.2 hsome)
        rw [hnone] at hends
        cases hends
      | star =>
        have hlt := endingComment?_length h
        rw [List.length_append, List.length_append, List.length_singleton] at hlt
        omega
      | @skip c text hskip =>
        rw [endingComment?_skip_append hskip] at h
        rw [endingComment?_skip fun hc => (hskip hc).2]
        exact (ih text.length (by simp at hlength; omega) rfl).2 h

/-! ## In layout -/

/-- The text ends a statement at the same place whatever is behind it. -/
structure KeepsEnd (more text : List Char) : Prop where
  ending : ∀ rest, ending? text = some rest → ending? (text ++ more) = some (rest ++ more)
  comment : ∀ rest, endingComment? text = some rest → endingComment? (text ++ more) = some (rest ++ more)
  /-- It ends none where a comment that is open in front of it has to go on. -/
  stretched : ending? text = none → (endingComment? text).isSome → ending? (text ++ more) = none

namespace KeepsEnd

lemma nil : KeepsEnd more [] := ⟨nofun, nofun, fun _ h => nomatch h⟩

lemma blank (h : KeepsEnd more text) (hc : c = ' ' ∨ c = '\t') : KeepsEnd more (c :: text) := by
  have hstar : c ≠ '*' := by rcases hc with rfl | rfl <;> decide
  have hcomment := endingComment?_of_ne hstar
  refine ⟨fun rest hrest => ?_, fun rest hrest => ?_, fun hnone hsome => ?_⟩
  · rw [List.cons_append, ending?_line_blank hc]
    exact h.ending rest ((ending?_line_blank hc text).symm.trans hrest)
  · rw [List.cons_append, hcomment]
    exact h.comment rest ((hcomment text).symm.trans hrest)
  · rw [ending?_line_blank hc] at hnone
    rw [hcomment] at hsome
    rw [List.cons_append, ending?_line_blank hc]
    exact h.stretched hnone hsome

lemma mark (h : KeepsEnd more text) (hc : c = ';' ∨ c = '\n') : KeepsEnd more (c :: text) := by
  have hstar : c ≠ '*' := by rcases hc with rfl | rfl <;> decide
  have hcomment := endingComment?_of_ne hstar
  refine ⟨fun rest hrest => ?_, fun rest hrest => ?_, fun hnone _ => ?_⟩
  · rw [ending?_mark hc] at hrest
    obtain rfl := Option.some.inj hrest
    rw [List.cons_append, ending?_mark hc]
  · rw [List.cons_append, hcomment]
    exact h.comment rest ((hcomment text).symm.trans hrest)
  · rw [ending?_mark hc] at hnone
    cases hnone

/-- No statement ends here. -/
lemma other (hending : ∀ s, ending? (c :: (text ++ s)) = none)
    (hcomment : ∀ rest, endingComment? (c :: text) = some rest →
      endingComment? (c :: text ++ more) = some (rest ++ more)) : KeepsEnd more (c :: text) := by
  refine ⟨fun rest hrest => ?_, hcomment, fun _ _ => hending more⟩
  have hnone := hending []
  rw [List.append_nil, hrest] at hnone
  cases hnone

lemma skip (h : KeepsEnd more text) (hne : text ≠ []) (hc : c = '*' → text.head? ≠ some '/') :
    ∀ rest, endingComment? (c :: text) = some rest →
      endingComment? (c :: text ++ more) = some (rest ++ more) := by
  intro rest hrest
  rw [endingComment?_skip_append fun heq => ⟨hne, hc heq⟩]
  exact h.comment rest ((endingComment?_skip hc).symm.trans hrest)

lemma closing (h : KeepsEnd more text) : ∀ rest, endingComment? ('*' :: '/' :: text) = some rest →
    endingComment? ('*' :: '/' :: (text ++ more)) = some (rest ++ more) := by
  intro rest hrest
  rw [endingComment?_closing, Option.or_eq_some_iff] at hrest
  rw [endingComment?_closing, Option.or_eq_some_iff]
  refine hrest.imp (h.ending rest) fun ⟨hnone, hlater⟩ => ⟨?_, h.comment rest hlater⟩
  exact h.stretched hnone (Option.isSome_of_eq_some hlater)

/-- A comment opens here. -/
lemma opening (hne : text ≠ []) (hslash : text.head? ≠ some '/')
    (h : ∀ rest, endingComment? text = some rest → endingComment? (text ++ more) = some (rest ++ more)) :
    KeepsEnd more ('/' :: '*' :: text) := by
  have hskip : endingComment? ('/' :: '*' :: text) = endingComment? text := by
    rw [endingComment?_of_ne (by decide), endingComment?_skip fun _ => hslash]
  refine ⟨h, fun rest hrest => ?_, fun hnone hsome => ?_⟩
  · rw [List.cons_append, endingComment?_of_ne (by decide),
      endingComment?_skip_append fun _ => ⟨hne, hslash⟩]
    exact h rest (hskip.symm.trans hrest)
  · have hnone : endingComment? text = none := hnone
    rw [hskip, hnone] at hsome
    cases hsome

/-- A line comment opens here. -/
lemma line (hbody : '\n' ∉ body) (h : KeepsEnd more (body ++ '\n' :: w)) :
    KeepsEnd more ('/' :: '/' :: (body ++ '\n' :: w)) := by
  have hline (s : List Char) : ending? ('/' :: '/' :: (body ++ '\n' :: s)) = some s :=
    endInLine_body hbody s
  refine ⟨fun rest hrest => ?_, fun rest hrest => ?_, fun hnone _ => ?_⟩
  · obtain rfl := Option.some.inj ((hline w).symm.trans hrest)
    simpa using hline (w ++ more)
  · rw [endingComment?_of_ne (by decide), endingComment?_of_ne (by decide)] at hrest
    rw [List.cons_append, List.cons_append, endingComment?_of_ne (by decide),
      endingComment?_of_ne (by decide)]
    exact h.comment rest hrest
  · rw [hline] at hnone
    cases hnone

lemma space (h : KeepsEnd more text) (hc : isSpace c = true ∨ c = ';') : KeepsEnd more (c :: text) := by
  by_cases hblank : c = ' ' ∨ c = '\t'
  · exact h.blank hblank
  by_cases hmark : c = ';' ∨ c = '\n'
  · exact h.mark hmark
  have hplain : c ≠ '/' ∧ c ≠ '*' := by
    rcases hc with hc | rfl
    · exact ⟨fun heq => absurd hc (heq ▸ by decide), fun heq => absurd hc (heq ▸ by decide)⟩
    · decide
  refine .other (fun s => ending?_other (not_or.1 hblank) (not_or.1 hmark) hplain.1 _) ?_
  simp only [List.cons_append, endingComment?_of_ne hplain.2]
  exact h.comment

/-- A star in a line comment, which may close another comment. -/
lemma star (h : KeepsEnd more (c :: text)) (hclosing : c = '/' → KeepsEnd more text) :
    KeepsEnd more ('*' :: c :: text) := by
  refine .other (fun s => ending?_other (by decide) (by decide) (by decide) _) ?_
  by_cases hc : c = '/'
  · subst hc
    exact (hclosing rfl).closing
  · exact h.skip (List.cons_ne_nil _ _) fun _ hhead => hc (Option.some.inj hhead)

/-- A slash in a line comment, which may open another comment. -/
lemma slash (hslash : ¬['/', '*', '/'] <:+: '/' :: c :: text) (h : KeepsEnd more (c :: text))
    (hopening : c = '*' → text ≠ [] ∧ KeepsEnd more text)
    (hline : c = '/' → KeepsEnd more ('/' :: c :: text)) : KeepsEnd more ('/' :: c :: text) := by
  by_cases hstar : c = '*'
  · subst hstar
    obtain ⟨hne, hrest⟩ := hopening rfl
    refine .opening hne (fun hhead => ?_) hrest.comment
    obtain ⟨after, rfl⟩ := List.head?_eq_some_iff.1 hhead
    exact hslash ⟨[], after, rfl⟩
  by_cases hcomment : c = '/'
  · exact hline hcomment
  · refine .other (fun s => ending?_slash ⟨hcomment, hstar⟩ _) ?_
    exact h.skip (List.cons_ne_nil _ _) nofun

/-- The next character of a line comment. -/
lemma inLine (hfeed : '\n' ∉ c :: body) (hslash : ¬['/', '*', '/'] <:+: c :: (body ++ '\n' :: w))
    (h : KeepsEnd more (body ++ '\n' :: w))
    (hnext : ∀ d body', body = d :: body' → KeepsEnd more (body' ++ '\n' :: w)) :
    KeepsEnd more (c :: (body ++ '\n' :: w)) := by
  by_cases hblank : c = ' ' ∨ c = '\t'
  · exact h.blank hblank
  by_cases hmark : c = ';' ∨ c = '\n'
  · exact h.mark hmark
  by_cases hplain : c ≠ '*' ∧ c ≠ '/'
  · refine .other (fun s => ending?_other (not_or.1 hblank) (not_or.1 hmark) hplain.2 _) ?_
    exact h.skip (by simp) fun heq => absurd heq hplain.1
  -- What follows the star or the slash is in the line, or it is the line feed.
  have hc : c = '*' ∨ c = '/' := by
    by_contra hne
    exact hplain (not_or.1 hne)
  cases body with
  | nil =>
    rcases hc with rfl | rfl
    · exact .star h nofun
    · exact .slash hslash h nofun nofun
  | cons d body =>
    have hrest := hnext d body rfl
    have hbody : '\n' ∉ body := fun hmem => hfeed (List.mem_cons_of_mem _ (List.mem_cons_of_mem _ hmem))
    rcases hc with rfl | rfl
    · exact .star h fun _ => hrest
    · refine .slash hslash h (fun _ => ⟨by simp, hrest⟩) ?_
      rintro rfl
      exact .line hbody hrest

end KeepsEnd

/-- A part of layout between statements: it starts between its parts, or in a line comment. -/
inductive Covered : List Char → Prop where
  | blank {w : List Char} : IsBlank w → Covered w
  | line {body w : List Char} : '\n' ∉ body → IsBlank w → Covered (body ++ '\n' :: w)

/-- Layout in which no comment seems to be closed by its opening keeps the ends of statements. -/
lemma Covered.keepsEnd (h : Covered text) (hslash : ¬['/', '*', '/'] <:+: text) :
    KeepsEnd more text := by
  induction hlength : text.length using Nat.strongRecOn generalizing text with
  | ind k ih =>
    have hpart {s : List Char} (hs : Covered s) (front : List Char) (hne : front ≠ [])
        (hfront : front ++ s = text) : KeepsEnd more s := by
      have hpos := List.length_pos_iff.2 hne
      refine ih s.length ?_ hs (fun hoccurs => hslash (hoccurs.trans ⟨front, [], ?_⟩)) rfl
      · rw [← hlength, ← hfront, List.length_append]
        omega
      · rw [List.append_nil, hfront]
    cases h with
    | blank hb =>
      cases hb with
      | nil => exact .nil
      | @space c w hc hb => exact (hpart (.blank hb) [c] (List.cons_ne_nil _ _) rfl).space hc
      | @comment body w hbody hb =>
        have hw := hpart (.blank hb) ('/' :: '*' :: (body ++ ['*', '/'])) (List.cons_ne_nil _ _) (by simp)
        refine .opening (by simp) (fun hhead => ?_) fun rest hrest => ?_
        · obtain ⟨after, hafter⟩ := List.head?_eq_some_iff.1 hhead
          exact hslash ⟨[], after, by rw [hafter]; rfl⟩
        · rw [endingComment?_skip_body hbody] at hrest
          rw [List.append_assoc, List.cons_append, List.cons_append, endingComment?_skip_body hbody]
          exact hw.closing rest hrest
      | @line body w hbody hb =>
        exact .line hbody (hpart (.line hbody hb) ['/', '/'] (List.cons_ne_nil _ _) rfl)
    | @line body w hfeed hb =>
      cases body with
      | nil => exact (hpart (.blank hb) ['\n'] (List.cons_ne_nil _ _) rfl).mark (.inr rfl)
      | cons c body =>
        have hbody : '\n' ∉ body := fun hmem => hfeed (List.mem_cons_of_mem _ hmem)
        refine .inLine hfeed hslash (hpart (.line hbody hb) [c] (List.cons_ne_nil _ _) rfl) ?_
        rintro d body' rfl
        have hbody' : '\n' ∉ body' := fun hmem => hbody (List.mem_cons_of_mem _ hmem)
        exact hpart (.line hbody' hb) [c, d] (List.cons_ne_nil _ _) rfl

/-- The end of a statement in layout does not depend on the text behind the layout. -/
lemma ending?_blank_append (hb : IsBlank text) (hslash : ¬['/', '*', '/'] <:+: text)
    (h : ending? text = some rest) : ending? (text ++ more) = some (rest ++ more) :=
  ((Covered.blank hb).keepsEnd hslash).ending rest h

end SignalCalc.Syntax.Layout
