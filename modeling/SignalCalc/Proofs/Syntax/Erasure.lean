import SignalCalc.Proofs.Syntax.Gaps
import SignalCalc.Proofs.Syntax.Follow

/-!
# Comments erased

`erased` is a text with one space in the place of each comment.  Comments are found from left to
right outside strings: a block comment runs to the first closing behind its opening, and without a
closing it is none; a line comment runs up to the next line feed.  A quote that is not closed on its
line holds the rest of this line, for no program goes on behind it.

A line comment leaves a space in front of the line feed.  Layout within a line stops at the comment
in the one text and at the line feed in the other, so the two texts are related by `Loose` there.
-/

namespace SignalCalc.Syntax.Layout

open SignalCalc.Text

/-- A block comment that is open at the start of the text has a closing. -/
def closes : List Char → Bool
  | '*' :: '/' :: _ => true
  | _ :: rest => closes rest
  | [] => false

mutual
/-- The text with one space in the place of each comment. -/
def erased : List Char → List Char
  | '/' :: '*' :: rest =>
    if closes rest then ' ' :: erasedComment rest else '/' :: '*' :: erased rest
  | '/' :: '/' :: rest => ' ' :: erasedLine rest
  | '"' :: rest => '"' :: erasedQuoted rest
  | c :: rest => c :: erased rest
  | [] => []

/-- From within a block comment. -/
def erasedComment : List Char → List Char
  | '*' :: '/' :: rest => erased rest
  | _ :: rest => erasedComment rest
  | [] => []

/-- From within a line comment. -/
def erasedLine : List Char → List Char
  | '\n' :: rest => '\n' :: erased rest
  | _ :: rest => erasedLine rest
  | [] => []

/-- From within a string. -/
def erasedQuoted : List Char → List Char
  | '"' :: rest => '"' :: erased rest
  | '\n' :: rest => '\n' :: erased rest
  | c :: rest => c :: erasedQuoted rest
  | [] => []
end

example : String.ofList (erased "a /* b */ \"//\" // c; d".toList) = "a   \"//\"  " := by decide

/-! ## One comment, one character -/

variable {s s' text rest line body front g b : List Char} {c : Char}

lemma closes_cons (c : Char) (text : List Char) :
    closes (c :: text) = (c == '*' && text.head? == some '/' || closes text) := by
  rw [closes.eq_def]
  split
  · rename_i heq
    obtain ⟨rfl, rfl⟩ := List.cons.inj heq
    rfl
  · rename_i hclosing heq
    obtain ⟨rfl, rfl⟩ := List.cons.inj heq
    have hfirst : (c == '*' && text.head? == some '/') = false := by
      rw [Bool.and_eq_false_iff, beq_eq_false_iff_ne, beq_eq_false_iff_ne]
      by_contra hboth
      obtain ⟨hstar, hslash⟩ := not_or.1 hboth
      obtain ⟨more, hmore⟩ := List.head?_eq_some_iff.1 (not_not.1 hslash)
      exact hclosing more (not_not.1 hstar) hmore
    rw [hfirst, Bool.false_or]
  · rename_i heq
    cases heq

lemma exists_body_of_closes (h : closes text = true) :
    ∃ body rest, IsCommentBody body ∧ text = body ++ '*' :: '/' :: rest := by
  induction text with
  | nil => cases h
  | cons c text ih =>
    by_cases hfirst : c = '*' ∧ text.head? = some '/'
    · obtain ⟨rfl, hslash⟩ := hfirst
      obtain ⟨rest, rfl⟩ := List.head?_eq_some_iff.1 hslash
      exact ⟨[], rest, by simp [IsCommentBody], rfl⟩
    · rw [closes_cons] at h
      have htext : closes text = true := by simpa [hfirst] using h
      obtain ⟨body, rest, hbody, rfl⟩ := ih htext
      refine ⟨c :: body, rest, fun hinfix => ?_, rfl⟩
      rcases List.infix_cons_iff.1 hinfix with hprefix | hinfix
      · obtain ⟨more, hmore⟩ := hprefix
        obtain ⟨rfl, rfl⟩ := List.cons.inj hmore
        exact hfirst ⟨rfl, rfl⟩
      · exact hbody hinfix

lemma closes_append (body rest : List Char) : closes (body ++ '*' :: '/' :: rest) = true := by
  induction body with
  | nil => rfl
  | cons c body ih => rw [List.cons_append, closes_cons, ih, Bool.or_true]

lemma erasedComment_body (h : IsCommentBody body) (rest : List Char) :
    erasedComment (body ++ '*' :: '/' :: rest) = erased rest := by
  induction body with
  | nil => rfl
  | cons c body ih =>
    rw [List.cons_append, erasedComment, ih h.tail]
    exact fun more hc => h.not_closing hc rest more

lemma erased_comment (h : IsCommentBody body) (rest : List Char) :
    erased ('/' :: '*' :: (body ++ '*' :: '/' :: rest)) = ' ' :: erased rest := by
  show (if closes (body ++ '*' :: '/' :: rest) then _ else _) = _
  rw [if_pos (closes_append body rest), erasedComment_body h]

lemma erased_opening (h : closes rest = false) :
    erased ('/' :: '*' :: rest) = '/' :: '*' :: erased rest := by
  show (if closes rest then _ else _) = _
  rw [if_neg (by rw [h]; exact Bool.false_ne_true)]

lemma erased_line (line : List Char) : erased ('/' :: '/' :: line) = ' ' :: erasedLine line := rfl

lemma erased_quote (rest : List Char) : erased ('"' :: rest) = '"' :: erasedQuoted rest := rfl

/-- A character that starts neither a comment nor a string is kept. -/
lemma erased_cons (hquote : c ≠ '"') (hslash : c = '/' → NoComment rest) :
    erased (c :: rest) = c :: erased rest := by
  rw [erased]
  · rintro more rfl rfl
    exact (hslash rfl).2 rfl
  · rintro more rfl rfl
    exact (hslash rfl).1 rfl
  · exact hquote

lemma erased_append (h : ∀ c ∈ front, c ≠ '/' ∧ c ≠ '"') (rest : List Char) :
    erased (front ++ rest) = front ++ erased rest := by
  induction front with
  | nil => rfl
  | cons c front ih =>
    obtain ⟨⟨hslash, hquote⟩, hfront⟩ := List.forall_mem_cons.1 h
    rw [List.cons_append, erased_cons hquote fun hc => absurd hc hslash, ih hfront,
      List.cons_append]

/-! ## Line comments -/

/-- The text behind the end of this line. -/
def nextLine? : List Char → Option (List Char)
  | '\n' :: rest => some rest
  | _ :: rest => nextLine? rest
  | [] => none

lemma nextLine?_body (h : '\n' ∉ body) (rest : List Char) :
    nextLine? (body ++ '\n' :: rest) = some rest := by
  induction body with
  | nil => rfl
  | cons c body ih =>
    obtain ⟨hc, hbody⟩ := not_or.1 (mt List.mem_cons.2 h)
    rw [List.cons_append, nextLine?, ih hbody]
    exact fun heq => hc heq.symm

lemma exists_body_of_nextLine? (h : nextLine? line = some rest) :
    ∃ body, '\n' ∉ body ∧ line = body ++ '\n' :: rest := by
  fun_induction nextLine? line with
  | case1 after =>
    obtain rfl := Option.some.inj h
    exact ⟨[], List.not_mem_nil, rfl⟩
  | case2 c after hfeed ih =>
    obtain ⟨body, hbody, rfl⟩ := ih h
    exact ⟨c :: body, by simpa [hbody] using fun heq => hfeed heq.symm, rfl⟩
  | case3 => cases h

lemma betweenLine_eq (line : List Char) : betweenLine line = (nextLine? line).elim [] between := by
  fun_induction nextLine? line with
  | case1 after => rw [betweenLine, Option.elim_some]
  | case2 c after hfeed ih =>
    rw [betweenLine, ih]
    exact hfeed
  | case3 => rw [betweenLine, Option.elim_none]

/-- A line comment leaves the line feed that ends it, if there is one. -/
lemma erasedLine_eq (line : List Char) :
    erasedLine line = (nextLine? line).elim [] ('\n' :: erased ·) := by
  fun_induction nextLine? line with
  | case1 after => rw [erasedLine, Option.elim_some]
  | case2 c after hfeed ih =>
    rw [erasedLine, ih]
    exact hfeed
  | case3 => rw [erasedLine, Option.elim_none]

/-! ## What is left at the start -/

/-- What is left of a text starts like the text, or with the space of a comment. -/
lemma head?_erased (hc : c ∈ (erased text).head?) :
    c = ' ' ∨ c ∈ text.head? := by
  unfold erased at hc
  split at hc
  · split at hc
    · exact .inl (Option.some.inj hc).symm
    · exact .inr hc
  · exact .inl (Option.some.inj hc).symm
  all_goals exact .inr hc

lemma erased_eq_nil_iff : erased text = [] ↔ text = [] := by
  constructor
  · intro h
    unfold erased at h
    split at h
    · split at h
      · cases h
      · cases h
    · cases h
    · cases h
    · cases h
    · rfl
  · rintro rfl
    rfl

lemma head?_erasedQuoted (text : List Char) : (erasedQuoted text).head? = text.head? := by
  unfold erasedQuoted
  split
  all_goals rfl

lemma closes_cons_of_head? {more : List Char} (h : closes (c :: text) = false)
    (hmore : closes more = false) (hhead : more.head? = some '/' → text.head? = some '/') :
    closes (c :: more) = false := by
  rw [closes_cons, Bool.or_eq_false_iff] at h ⊢
  refine ⟨?_, hmore⟩
  rw [Bool.and_eq_false_iff, beq_eq_false_iff_ne, beq_eq_false_iff_ne] at h ⊢
  exact h.1.imp id (mt hhead)

lemma head?_erased_slash (h : (erased text).head? = some '/') : text.head? = some '/' :=
  (head?_erased h).resolve_left (by decide)

lemma closes_tail (h : closes (c :: text) = false) : closes text = false := by
  rw [closes_cons, Bool.or_eq_false_iff] at h
  exact h.2

mutual
/-- No closing comes up where there was none. -/
theorem closes_erased {text : List Char} (h : closes text = false) :
    closes (erased text) = false := by
  unfold erased
  split
  · rename_i rest
    have hrest := closes_tail (closes_tail h)
    rw [if_neg (by rw [hrest]; exact Bool.false_ne_true)]
    exact closes_cons_of_head? h
      (closes_cons_of_head? (closes_tail h) (closes_erased hrest) head?_erased_slash) nofun
  · rename_i rest
    rw [closes_cons, closes_erasedLine (closes_tail (closes_tail h))]
    rfl
  · rename_i rest
    rw [closes_cons, closes_erasedQuoted (closes_tail h)]
    rfl
  · exact closes_cons_of_head? h (closes_erased (closes_tail h)) head?_erased_slash
  · rfl

theorem closes_erasedLine {text : List Char} (h : closes text = false) :
    closes (erasedLine text) = false := by
  unfold erasedLine
  split
  · rw [closes_cons, closes_erased (closes_tail h)]
    rfl
  · exact closes_erasedLine (closes_tail h)
  · rfl

theorem closes_erasedQuoted {text : List Char} (h : closes text = false) :
    closes (erasedQuoted text) = false := by
  unfold erasedQuoted
  split
  · rw [closes_cons, closes_erased (closes_tail h)]
    rfl
  · rw [closes_cons, closes_erased (closes_tail h)]
    rfl
  · rename_i rest _ _
    exact closes_cons_of_head? h (closes_erasedQuoted (closes_tail h))
      (head?_erasedQuoted rest ▸ id)
  · rfl
end

/-! ## Layout -/

lemma noComment_erased (h : NoComment text) : NoComment (erased text) :=
  ⟨mt head?_erased_slash h.1, fun hstar => h.2 ((head?_erased hstar).resolve_left (by decide))⟩

/-- The text starts with no layout whose characters are `blanks`. -/
inductive Starts (blanks : Char → Bool) : List Char → Prop where
  | nil : Starts blanks []
  | opening {rest : List Char} : closes rest = false → Starts blanks ('/' :: '*' :: rest)
  | cons {c : Char} {rest : List Char} : blanks c = false → (c = '/' → NoComment rest) →
    Starts blanks (c :: rest)

lemma Starts.erased {blanks : Char → Bool} (h : Starts blanks text) :
    Starts blanks (erased text) := by
  cases h with
  | nil => exact .nil
  | opening hrest => exact erased_opening hrest ▸ .opening (closes_erased hrest)
  | @cons c rest hc hslash =>
    by_cases hquote : c = '"'
    · obtain rfl := hquote
      exact erased_quote rest ▸ .cons hc nofun
    · rw [erased_cons hquote hslash]
      exact .cons hc fun heq => noComment_erased (hslash heq)

/-- The blanks within a line. -/
def isLineBlank (c : Char) : Bool := c == ' ' || c == '\t'

lemma insideComment_of_closes {opening : List Char} (h : closes text = false) :
    insideComment opening text = opening := by
  induction text with
  | nil => rw [insideComment]
  | cons c text ih =>
    rw [insideComment, ih (closes_tail h)]
    rintro rest rfl rfl
    cases h

lemma Starts.inside_eq (h : Starts isLineBlank text) : inside text = text := by
  cases h with
  | nil => rfl
  | opening hrest => rw [inside, insideComment_of_closes hrest]
  | @cons c rest hc hslash =>
    rw [isLineBlank, Bool.or_eq_false_iff, beq_eq_false_iff_ne, beq_eq_false_iff_ne] at hc
    by_cases heq : c = '/'
    · rw [heq, inside_slash (hslash heq).2]
    · exact inside_cons hc.1 hc.2 heq rest

/-- The characters of layout between statements. -/
def isBetweenBlank (c : Char) : Bool := isSpace c || c == ';'

lemma betweenComment_of_closes {opening : List Char} (h : closes text = false) :
    betweenComment opening text = opening := by
  induction text with
  | nil => rw [betweenComment]
  | cons c text ih =>
    rw [betweenComment, ih (closes_tail h)]
    rintro rest rfl rfl
    cases h

lemma Starts.between_eq (h : Starts isBetweenBlank text) : between text = text := by
  cases h with
  | nil => rfl
  | opening hrest => rw [between_comment, betweenComment_of_closes hrest]
  | @cons c rest hc hslash =>
    have hkept : ¬(isSpace c || c == ';') = true := Bool.eq_false_iff.1 hc
    rw [between_char, if_neg hkept]
    · rintro more heq rfl
      exact (hslash heq).1 rfl
    · rintro more heq rfl
      exact (hslash heq).2 rfl

/-- What a text starts with: the layout whose characters are `blanks`, or something else. -/
inductive Front (blanks : Char → Bool) : List Char → Prop where
  | starts {text : List Char} : Starts blanks text → Front blanks text
  | blank {c : Char} {rest : List Char} : blanks c = true → Front blanks (c :: rest)
  | comment {body rest : List Char} : IsCommentBody body →
    Front blanks ('/' :: '*' :: (body ++ '*' :: '/' :: rest))
  | line (line : List Char) : Front blanks ('/' :: '/' :: line)

lemma Front.of (blanks : Char → Bool) (text : List Char) : Front blanks text := by
  cases text with
  | nil => exact .starts .nil
  | cons c text =>
    by_cases hslash : c = '/' → NoComment text
    · cases hblank : blanks c with
      | false => exact .starts (.cons hblank hslash)
      | true => exact .blank hblank
    · obtain ⟨rfl, hcomment⟩ := Classical.not_imp.1 hslash
      rcases Decidable.not_and_iff_not_or_not.1 hcomment with hhead | hhead
      · obtain ⟨line, rfl⟩ := List.head?_eq_some_iff.1 (not_not.1 hhead)
        exact .line line
      · obtain ⟨rest, rfl⟩ := List.head?_eq_some_iff.1 (not_not.1 hhead)
        cases hcloses : closes rest with
        | false => exact .starts (.opening hcloses)
        | true =>
          obtain ⟨body, rest, hbody, rfl⟩ := exists_body_of_closes hcloses
          exact .comment hbody

lemma eq_comment_append {body rest g more : List Char} (hrest : rest = g ++ more) :
    '/' :: '*' :: (body ++ '*' :: '/' :: rest) =
      '/' :: '*' :: (body ++ '*' :: '/' :: g) ++ more := by
  simp [hrest]

/-- Layout within a line stops at other text or at a line comment. -/
lemma exists_gap_inside (text : List Char) : ∃ g, IsGap g ∧ text = g ++ inside text ∧
    (Starts isLineBlank (inside text) ∨ ∃ line, inside text = '/' :: '/' :: line) := by
  induction hlength : text.length using Nat.strongRecOn generalizing text with
  | ind k ih =>
    cases Front.of isLineBlank text with
    | starts hstarts => exact ⟨[], .nil, hstarts.inside_eq.symm,
      .inl (hstarts.inside_eq.symm ▸ hstarts)⟩
    | @blank c rest hblank =>
      have hc : c = ' ' ∨ c = '\t' := by simpa [isLineBlank] using hblank
      obtain ⟨g, hg, hrest, hstops⟩ := ih rest.length (by simp at hlength; omega) rest rfl
      have hinside : inside (c :: rest) = inside rest := inside_gap (IsGap.blank hc .nil) rest
      rw [hinside]
      exact ⟨c :: g, .blank hc hg, congrArg (c :: ·) hrest, hstops⟩
    | @comment body rest hbody =>
      obtain ⟨g, hg, hrest, hstops⟩ := ih rest.length (by simp at hlength; omega) rest rfl
      have hinside : inside ('/' :: '*' :: (body ++ '*' :: '/' :: rest)) = inside rest := by
        rw [inside, insideComment_body hbody]
      rw [hinside]
      exact ⟨_, .comment hbody hg, eq_comment_append hrest, hstops⟩
    | line line =>
      have hinside : inside ('/' :: '/' :: line) = '/' :: '/' :: line :=
        inside_slash fun h => absurd (Option.some.inj h) (by decide)
      exact ⟨[], .nil, hinside.symm, .inr ⟨line, hinside⟩⟩

/-- Layout between statements stops at other text; if it does not, the text may end in a line
comment. -/
lemma exists_blank_between (text : List Char) : ∃ b, IsBlank b ∧
    ((text = b ++ between text ∧ Starts isBetweenBlank (between text)) ∨
      ∃ line, nextLine? line = none ∧ text = b ++ '/' :: '/' :: line ∧ between text = []) := by
  induction hlength : text.length using Nat.strongRecOn generalizing text with
  | ind k ih =>
    cases Front.of isBetweenBlank text with
    | starts hstarts =>
      exact ⟨[], .nil, .inl ⟨hstarts.between_eq.symm, hstarts.between_eq.symm ▸ hstarts⟩⟩
    | @blank c rest hblank =>
      have hc : isSpace c = true ∨ c = ';' := by simpa [isBetweenBlank] using hblank
      obtain ⟨b, hb, hstops⟩ := ih rest.length (by simp at hlength; omega) rest rfl
      have hbetween : between (c :: rest) = between rest :=
        between_blank (IsBlank.space hc .nil) rest
      rw [hbetween]
      refine ⟨c :: b, .space hc hb, hstops.imp ?_ ?_⟩
      · exact fun ⟨hrest, hstarts⟩ => ⟨congrArg (c :: ·) hrest, hstarts⟩
      · exact fun ⟨line, hline, hrest, hend⟩ => ⟨line, hline, congrArg (c :: ·) hrest, hend⟩
    | @comment body rest hbody =>
      obtain ⟨b, hb, hstops⟩ := ih rest.length (by simp at hlength; omega) rest rfl
      rw [between_comment, betweenComment_body hbody]
      refine ⟨_, .comment hbody hb, hstops.imp ?_ ?_⟩
      · exact fun ⟨hrest, hstarts⟩ => ⟨eq_comment_append hrest, hstarts⟩
      · exact fun ⟨line, hline, hrest, hend⟩ => ⟨line, hline, eq_comment_append hrest, hend⟩
    | line line =>
      rw [between_line, betweenLine_eq]
      cases hnext : nextLine? line with
      | none => exact ⟨[], .nil, .inr ⟨line, hnext, rfl, rfl⟩⟩
      | some rest =>
        obtain ⟨body, hbody, rfl⟩ := exists_body_of_nextLine? hnext
        obtain ⟨b, hb, hstops⟩ := ih rest.length (by simp at hlength; omega) rest rfl
        have happend {more : List Char} (hrest : rest = b ++ more) :
            '/' :: '/' :: (body ++ '\n' :: rest) = '/' :: '/' :: (body ++ '\n' :: b) ++ more := by
          simp [hrest]
        refine ⟨_, .line hbody hb, hstops.imp ?_ ?_⟩
        · exact fun ⟨hrest, hstarts⟩ => ⟨happend hrest, hstarts⟩
        · exact fun ⟨line, hline, hrest, hend⟩ => ⟨line, hline, happend hrest, hend⟩

/-! ## Layout of an erased text -/

lemma erased_gap (h : IsGap g) : ∃ blanks, (∀ c ∈ blanks, c = ' ' ∨ c = '\t') ∧
    ∀ rest, erased (g ++ rest) = blanks ++ erased rest := by
  induction h with
  | nil => exact ⟨[], nofun, fun _ => rfl⟩
  | @blank c g hc _ ih =>
    obtain ⟨blanks, hblanks, hrest⟩ := ih
    refine ⟨c :: blanks, List.forall_mem_cons.2 ⟨hc, hblanks⟩, fun rest => ?_⟩
    rw [List.cons_append, List.cons_append, ← hrest]
    rcases hc with rfl | rfl
    · exact erased_cons (by decide) nofun
    · exact erased_cons (by decide) nofun
  | comment hbody _ ih =>
    obtain ⟨blanks, hblanks, hrest⟩ := ih
    refine ⟨' ' :: blanks, List.forall_mem_cons.2 ⟨.inl rfl, hblanks⟩, fun rest => ?_⟩
    rw [List.cons_append, List.cons_append, List.append_assoc, List.cons_append, List.cons_append,
      erased_comment hbody, hrest, List.cons_append]

lemma erased_blank (h : IsBlank b) :
    ∃ b', IsBlank b' ∧ ∀ rest, erased (b ++ rest) = b' ++ erased rest := by
  induction h with
  | nil => exact ⟨[], .nil, fun _ => rfl⟩
  | @space c b hc _ ih =>
    obtain ⟨b', hb', hrest⟩ := ih
    refine ⟨c :: b', .space hc hb', fun rest => ?_⟩
    rw [List.cons_append, List.cons_append, ← hrest]
    refine erased_cons ?_ ?_
    · rintro rfl
      exact absurd hc (by decide)
    · rintro rfl
      exact absurd hc (by decide)
  | comment hbody _ ih =>
    obtain ⟨b', hb', hrest⟩ := ih
    refine ⟨' ' :: b', .space (.inl (by decide)) hb', fun rest => ?_⟩
    rw [List.cons_append, List.cons_append, List.append_assoc, List.cons_append, List.cons_append,
      erased_comment hbody, hrest, List.cons_append]
  | line hbody _ ih =>
    obtain ⟨b', hb', hrest⟩ := ih
    refine ⟨' ' :: '\n' :: b', .space (.inl (by decide)) (.space (.inl (by decide)) hb'),
      fun rest => ?_⟩
    rw [List.cons_append, List.cons_append, List.append_assoc, List.cons_append, erased_line,
      erasedLine_eq, nextLine?_body hbody, Option.elim_some, hrest, List.cons_append,
      List.cons_append]

/-- The text behind the layout between statements is erased like the rest. -/
lemma between_erased (text : List Char) : between (erased text) = erased (between text) := by
  obtain ⟨b, hb, ⟨htext, hstarts⟩ | ⟨line, hline, htext, hend⟩⟩ := exists_blank_between text
  · obtain ⟨b', hb', hrest⟩ := erased_blank hb
    calc between (erased text)
        = between (b' ++ erased (between text)) := by rw [← hrest, ← htext]
      _ = erased (between text) := by rw [between_blank hb', hstarts.erased.between_eq]
  · obtain ⟨b', hb', hrest⟩ := erased_blank hb
    rw [hend, htext, hrest, between_blank hb', erased_line, erasedLine_eq, hline]
    rfl

end SignalCalc.Syntax.Layout
