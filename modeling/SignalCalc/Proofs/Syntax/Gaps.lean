import Mathlib.Data.Nat.Notation
import Mathlib.Tactic.Lemma
import SignalCalc.Syntax.Layout

/-!
# Layout that can be skipped

Three sorts of layout in program text: `IsGap` is what may stand within a line of program,
`IsBlank` what may stand between statements, and `IsSeparator` what ends one statement before the
next.  The scanners of `Layout` skip each of them, whatever text follows: `inside_gap`,
`between_blank`, `terminator?_separator`.

The body of a block comment holds no closing.  It may begin with a slash, and it may end with a
star, for neither makes a closing together with the marks around it.
-/

namespace SignalCalc.Syntax.Layout

open SignalCalc.Text

/-- The text between the marks of a block comment. -/
def IsCommentBody (body : List Char) : Prop := ¬['*', '/'] <:+: body

/-- Blanks and closed block comments. -/
inductive IsGap : List Char → Prop where
  | nil : IsGap []
  | blank {c : Char} {g : List Char} : c = ' ' ∨ c = '\t' → IsGap g → IsGap (c :: g)
  | comment {body g : List Char} : IsCommentBody body → IsGap g →
    IsGap ('/' :: '*' :: (body ++ '*' :: '/' :: g))

/-- Blanks of all kinds, semicolons, closed block comments, and line comments up to the line feed
that ends them. -/
inductive IsBlank : List Char → Prop where
  | nil : IsBlank []
  | space {c : Char} {b : List Char} : isSpace c = true ∨ c = ';' → IsBlank b → IsBlank (c :: b)
  | comment {body b : List Char} : IsCommentBody body → IsBlank b →
    IsBlank ('/' :: '*' :: (body ++ '*' :: '/' :: b))
  | line {body b : List Char} : '\n' ∉ body → IsBlank b →
    IsBlank ('/' :: '/' :: (body ++ '\n' :: b))

/-- The end of a statement, and all layout before the next one. -/
inductive IsSeparator : List Char → Prop where
  | mark {g b : List Char} {c : Char} : IsGap g → c = ';' ∨ c = '\n' → IsBlank b →
    IsSeparator (g ++ c :: b)
  | line {g body b : List Char} : IsGap g → '\n' ∉ body → IsBlank b →
    IsSeparator (g ++ '/' :: '/' :: (body ++ '\n' :: b))

/-! ## Closings of comments -/

lemma IsCommentBody.tail {c : Char} {body : List Char} (h : IsCommentBody (c :: body)) :
    IsCommentBody body := fun hclosing => h (hclosing.trans (List.suffix_cons c body).isInfix)

/-- The first closing after the opening of a comment is the one behind its body. -/
lemma IsCommentBody.not_closing {c : Char} {body : List Char} (h : IsCommentBody (c :: body))
    (hc : c = '*') (rest more : List Char) : body ++ '*' :: '/' :: rest ≠ '/' :: more := by
  intro heq
  cases body with
  | nil => simp at heq
  | cons d body =>
    obtain ⟨rfl, -⟩ := List.cons.inj heq
    exact h (hc ▸ (List.prefix_append ['*', '/'] body).isInfix)

lemma insideComment_body {opening body : List Char} (h : IsCommentBody body) (rest : List Char) :
    insideComment opening (body ++ '*' :: '/' :: rest) = inside rest := by
  induction body with
  | nil => rw [List.nil_append, insideComment]
  | cons c body ih =>
    rw [List.cons_append, insideComment, ih h.tail]
    exact fun more hc => h.not_closing hc rest more

lemma betweenComment_body {opening body : List Char} (h : IsCommentBody body) (rest : List Char) :
    betweenComment opening (body ++ '*' :: '/' :: rest) = between rest := by
  induction body with
  | nil => rw [List.nil_append, betweenComment]
  | cons c body ih =>
    rw [List.cons_append, betweenComment, ih h.tail]
    exact fun more hc => h.not_closing hc rest more

lemma endingComment?_body {body rest found : List Char} (h : IsCommentBody body)
    (hrest : ending? rest = some found) :
    endingComment? (body ++ '*' :: '/' :: rest) = some found := by
  induction body with
  | nil => rw [List.nil_append, endingComment?, hrest]
  | cons c body ih =>
    rw [List.cons_append, endingComment?, ih h.tail]
    exact fun more hc => h.not_closing hc rest more

lemma betweenLine_body {body : List Char} (h : '\n' ∉ body) (rest : List Char) :
    betweenLine (body ++ '\n' :: rest) = between rest := by
  induction body with
  | nil => rw [List.nil_append, betweenLine]
  | cons c body ih =>
    obtain ⟨hc, hbody⟩ := not_or.1 (mt List.mem_cons.2 h)
    rw [List.cons_append, betweenLine, ih hbody]
    exact fun heq => hc heq.symm

lemma endInLine_body {semicolon : Option (List Char)} {body : List Char} (h : '\n' ∉ body)
    (rest : List Char) : endInLine semicolon (body ++ '\n' :: rest) = some rest := by
  induction body generalizing semicolon with
  | nil => rw [List.nil_append, endInLine]
  | cons c body ih =>
    obtain ⟨hc, hbody⟩ := not_or.1 (mt List.mem_cons.2 h)
    by_cases hsemi : c = ';'
    · rw [hsemi, List.cons_append, endInLine, ih hbody]
    · rw [List.cons_append, endInLine, ih hbody]
      · exact fun heq => hc heq.symm
      · exact hsemi

/-! ## Layout of each sort is skipped -/

lemma between_comment (text : List Char) :
    between ('/' :: '*' :: text) = betweenComment ('/' :: '*' :: text) text := rfl

lemma between_line (text : List Char) : between ('/' :: '/' :: text) = betweenLine text := rfl

lemma between_char {c : Char} {text : List Char} (hline : ∀ rest, c = '/' → text ≠ '/' :: rest)
    (hcomment : ∀ rest, c = '/' → text ≠ '*' :: rest) :
    between (c :: text) = if isSpace c || c == ';' then between text else c :: text := by
  conv => lhs; unfold between
  split
  · rename_i heq
    obtain ⟨hc, htext⟩ := List.cons.inj heq
    exact absurd htext (hline _ hc)
  · rename_i heq
    obtain ⟨hc, htext⟩ := List.cons.inj heq
    exact absurd htext (hcomment _ hc)
  · rename_i heq
    obtain ⟨rfl, rfl⟩ := List.cons.inj heq
    rfl
  · rename_i heq
    cases heq

lemma inside_gap {g : List Char} (h : IsGap g) (rest : List Char) :
    inside (g ++ rest) = inside rest := by
  induction h with
  | nil => rfl
  | blank hc _ ih =>
    rcases hc with rfl | rfl
    · rw [List.cons_append, inside, ih]
    · rw [List.cons_append, inside, ih]
  | comment hbody _ ih =>
    rw [List.cons_append, List.cons_append, inside, List.append_assoc, List.cons_append,
      List.cons_append, insideComment_body hbody, ih]

lemma ending?_gap {g rest found : List Char} (h : IsGap g) (hrest : ending? rest = some found) :
    ending? (g ++ rest) = some found := by
  induction h with
  | nil => exact hrest
  | blank hc _ ih =>
    rcases hc with rfl | rfl
    · rw [List.cons_append, ending?, ih]
    · rw [List.cons_append, ending?, ih]
  | comment hbody _ ih =>
    rw [List.cons_append, List.cons_append, ending?, List.append_assoc, List.cons_append,
      List.cons_append, endingComment?_body hbody ih]

lemma between_blank {b : List Char} (h : IsBlank b) (rest : List Char) :
    between (b ++ rest) = between rest := by
  induction h with
  | nil => rfl
  | @space c b hc _ ih =>
    have hslash : c ≠ '/' := by
      rintro rfl
      rcases hc with hc | hc
      · exact absurd hc (by decide)
      · exact absurd hc (by decide)
    have hskipped : (isSpace c || c == ';') = true := by
      simpa only [Bool.or_eq_true, beq_iff_eq] using hc
    rw [List.cons_append, between_char (fun _ hc => absurd hc hslash)
      (fun _ hc => absurd hc hslash), if_pos hskipped, ih]
  | comment hbody _ ih =>
    rw [List.cons_append, List.cons_append, between_comment, List.append_assoc, List.cons_append,
      List.cons_append, betweenComment_body hbody, ih]
  | line hbody _ ih =>
    rw [List.cons_append, List.cons_append, between_line, List.append_assoc, List.cons_append,
      betweenLine_body hbody, ih]

lemma IsGap.isBlank {g : List Char} (h : IsGap g) : IsBlank g := by
  induction h with
  | nil => exact .nil
  | blank hc _ ih =>
    rcases hc with rfl | rfl
    · exact .space (.inl (by decide)) ih
    · exact .space (.inl (by decide)) ih
  | comment hbody _ ih => exact .comment hbody ih

lemma IsBlank.append {b b' : List Char} (h : IsBlank b) (h' : IsBlank b') : IsBlank (b ++ b') := by
  induction h with
  | nil => exact h'
  | space hc _ ih => exact .space hc ih
  | comment hbody _ ih =>
    rw [List.cons_append, List.cons_append, List.append_assoc]
    exact .comment hbody ih
  | line hbody _ ih =>
    rw [List.cons_append, List.cons_append, List.append_assoc]
    exact .line hbody ih

lemma IsGap.append {g g' : List Char} (h : IsGap g) (h' : IsGap g') : IsGap (g ++ g') := by
  induction h with
  | nil => exact h'
  | blank hc _ ih => exact .blank hc ih
  | comment hbody _ ih =>
    rw [List.cons_append, List.cons_append, List.append_assoc]
    exact .comment hbody ih

lemma isGap_of_blanks {g : List Char} (h : ∀ c ∈ g, c = ' ' ∨ c = '\t') : IsGap g := by
  induction g with
  | nil => exact .nil
  | cons c g ih =>
    exact .blank (h c List.mem_cons_self) (ih fun d hd => h d (List.mem_cons_of_mem c hd))

lemma ending?_blanks {g : List Char} (h : ∀ c ∈ g, c = ' ' ∨ c = '\t') (rest : List Char) :
    ending? (g ++ rest) = ending? rest := by
  induction g with
  | nil => rfl
  | cons c g ih =>
    have hrest := ih fun d hd => h d (List.mem_cons_of_mem c hd)
    rcases h c List.mem_cons_self with rfl | rfl
    · rw [List.cons_append, ending?, hrest]
    · rw [List.cons_append, ending?, hrest]

lemma IsSeparator.isBlank {s : List Char} (h : IsSeparator s) : IsBlank s := by
  cases h with
  | mark hg hc hb =>
    refine hg.isBlank.append (.space ?_ hb)
    rcases hc with rfl | rfl
    · exact .inr rfl
    · exact .inl (by decide)
  | line hg hbody hb => exact hg.isBlank.append (.line hbody hb)

/-- A separator ends a statement, and the next one starts behind it. -/
lemma terminator?_separator {s : List Char} (h : IsSeparator s) (rest : List Char) :
    terminator? (s ++ rest) = some (between rest) := by
  cases h with
  | @mark g b c hg hc hb =>
    have hmark : ending? (c :: (b ++ rest)) = some (b ++ rest) := by
      rcases hc with rfl | rfl
      · rw [ending?]
      · rw [ending?]
    rw [terminator?, List.append_assoc, List.cons_append, ending?_gap hg hmark, Option.map_some,
      between_blank hb]
  | @line g body b hg hbody hb =>
    have hline : ending? ('/' :: '/' :: (body ++ '\n' :: (b ++ rest))) = some (b ++ rest) := by
      rw [ending?, endInLine_body hbody]
    rw [terminator?, List.append_assoc, List.cons_append, List.cons_append, List.append_assoc,
      List.cons_append, ending?_gap hg hline, Option.map_some, between_blank hb]

/-! ## Text that is no layout -/

lemma inside_cons {c : Char} (hspace : c ≠ ' ') (htab : c ≠ '\t') (hslash : c ≠ '/')
    (rest : List Char) : inside (c :: rest) = c :: rest := by
  rw [inside]
  · exact fun _ heq => hslash (List.cons.inj heq).1
  · exact fun _ heq => hspace (List.cons.inj heq).1
  · exact fun _ heq => htab (List.cons.inj heq).1

lemma inside_slash {rest : List Char} (h : rest.head? ≠ some '*') :
    inside ('/' :: rest) = '/' :: rest := by
  rw [inside]
  · intro more heq
    obtain ⟨-, rfl⟩ := List.cons.inj heq
    exact h rfl
  · exact fun _ heq => absurd (List.cons.inj heq).1 (by decide)
  · exact fun _ heq => absurd (List.cons.inj heq).1 (by decide)

lemma between_cons {c : Char} (hspace : isSpace c = false) (hsemi : c ≠ ';') (hslash : c ≠ '/')
    (rest : List Char) : between (c :: rest) = c :: rest := by
  have hkept : ¬(isSpace c || c == ';') = true := by simp [hspace, hsemi]
  rw [between_char (fun _ hc => absurd hc hslash) (fun _ hc => absurd hc hslash), if_neg hkept]

lemma between_slash {rest : List Char} (hslash : rest.head? ≠ some '/')
    (hstar : rest.head? ≠ some '*') : between ('/' :: rest) = '/' :: rest := by
  rw [between_char, if_neg (by decide)]
  · rintro more - rfl
    exact hslash rfl
  · rintro more - rfl
    exact hstar rfl

end SignalCalc.Syntax.Layout
