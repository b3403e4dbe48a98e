import SignalCalc.Proofs.Syntax.Loose
import SignalCalc.Proofs.Syntax.Scanned

/-!
# A text that goes on in the next line

No word goes on behind a line feed, so a text with more lines behind it starts with the same words as
the text alone.  Layout may go on: a block comment that is open at the end of the text is no comment
there, and one if a later line closes it.  `ClosesComments` excludes this, and such a text is read like
its continuation, word by word (`tokenwise_continued`).

Whether comments are closed is seen from the end, too: a statement has no comment in it that is left
open (`closesComments_of_statement`).
-/

namespace SignalCalc.Syntax

open SignalCalc.Syntax.Grammar
open SignalCalc.Syntax.Layout
open SignalCalc.Syntax.Parser
open SignalCalc.Syntax.Token
open SignalCalc.Text

variable {s rest front kept body b : List Char} {blanks : Char → Bool}
  {scanner : List Char → Option (List Char)} {P : Prop}

/-- No comment of the text is left open: the lines behind it keep their comments to themselves. -/
def ClosesComments (s : List Char) : Prop :=
  ∀ b, erased (s ++ '\n' :: b) = erased s ++ '\n' :: erased b

lemma erased_feed (b : List Char) : erased ('\n' :: b) = '\n' :: erased b :=
  erased_cons (by decide) nofun

lemma closesComments_nil : ClosesComments [] := erased_feed

/-- What a text starts with does not matter if it is erased by itself. -/
lemma closesComments_append (h : ∀ rest, erased (front ++ rest) = kept ++ erased rest) :
    ClosesComments (front ++ rest) ↔ ClosesComments rest := by
  refine forall_congr' fun b => ?_
  rw [List.append_assoc, h, h, List.append_assoc, List.append_right_inj]

lemma closesComments_gap (h : IsGap front) : ClosesComments (front ++ rest) ↔ ClosesComments rest := by
  obtain ⟨blanks, -, herased⟩ := erased_gap h
  exact closesComments_append herased

lemma closesComments_blank (h : IsBlank front) :
    ClosesComments (front ++ rest) ↔ ClosesComments rest := by
  obtain ⟨b, -, herased⟩ := erased_blank h
  exact closesComments_append herased

lemma noComment_append (h : NoComment rest) (b : List Char) : NoComment (rest ++ '\n' :: b) := by
  cases rest with
  | nil => exact ⟨by simp, by simp⟩
  | cons c rest => exact h

lemma closesComments_cons {c : Char} (hquote : c ≠ '"') (hslash : c = '/' → NoComment rest) :
    ClosesComments (c :: rest) ↔ ClosesComments rest := by
  refine forall_congr' fun b => ?_
  rw [List.cons_append, erased_cons hquote hslash,
    erased_cons hquote fun hc => noComment_append (hslash hc) b, List.cons_append,
    List.cons_inj_right]

lemma closesComments_quoted (h : IsQuotable body) :
    ClosesComments ('"' :: (body ++ '"' :: rest)) ↔ ClosesComments rest := by
  refine forall_congr' fun b => ?_
  rw [List.cons_append, List.append_assoc, List.cons_append, erased_quote, erased_quote,
    erasedQuoted_append h, erasedQuoted_append h, erasedQuoted, erasedQuoted, List.cons_append,
    List.append_assoc, List.cons_append, List.cons_inj_right, List.append_right_inj,
    List.cons_inj_right]

lemma closes_of_closesComments (h : ClosesComments ('/' :: '*' :: rest)) : closes rest = true := by
  by_contra hopen
  -- A closing in the next line would make a comment of the opening.
  have hclosed : closes (rest ++ ['\n', '*', '/']) = true := by
    simpa using closes_append (rest ++ ['\n']) []
  have hopening := h ['*', '/']
  rw [erased_opening (Bool.eq_false_iff.2 hopen), List.cons_append, List.cons_append, erased,
    if_pos hclosed] at hopening
  cases hopening

lemma feed_not_mem_of_nextLine? {line : List Char} (h : nextLine? line = none) : '\n' ∉ line := by
  fun_induction nextLine? line with
  | case1 => cases h
  | case2 c rest hfeed ih => simpa [ih h] using fun heq => hfeed heq.symm
  | case3 => exact List.not_mem_nil

/-- A line comment ends with its line at the latest. -/
lemma closesComments_line {line : List Char} (h : nextLine? line = none) :
    ClosesComments ('/' :: '/' :: line) := by
  intro b
  rw [List.cons_append, List.cons_append, erased_line, erased_line, erasedLine_eq, erasedLine_eq,
    nextLine?_body (feed_not_mem_of_nextLine? h), h]
  rfl

/-- Layout between statements closes its comments. -/
lemma closesComments_between : ClosesComments (between s) ↔ ClosesComments s := by
  obtain ⟨b, hb, ⟨hs, -⟩ | ⟨line, hline, rfl, hend⟩⟩ := exists_blank_between s
  · conv => rhs; rw [hs]
    exact (closesComments_blank hb).symm
  · rw [hend, closesComments_blank hb]
    exact iff_of_true closesComments_nil (closesComments_line hline)

/-! ## Layout -/

/-- Text that is no layout is none with more lines behind it either. -/
lemma starts_append (h : Starts blanks s) (hs : ClosesComments s) (hfeed : blanks '\n' = false ∨ s ≠ [])
    (b : List Char) : Starts blanks (s ++ '\n' :: b) := by
  cases h with
  | nil => exact .cons (hfeed.resolve_right (· rfl)) nofun
  | opening hrest =>
    rw [closes_of_closesComments hs] at hrest
    cases hrest
  | cons hc hslash => exact .cons hc fun heq => noComment_append (hslash heq) b

lemma inside_append (hs : ClosesComments s) (b : List Char) :
    inside (s ++ '\n' :: b) = inside s ++ '\n' :: b ∧ ClosesComments (inside s) := by
  obtain ⟨g, hg, htext, hstops⟩ := exists_gap_inside s
  have hinside : ClosesComments (inside s) := by
    rw [htext] at hs
    exact (closesComments_gap hg).1 hs
  refine ⟨?_, hinside⟩
  have hskip : inside (s ++ '\n' :: b) = inside (inside s ++ '\n' :: b) := by
    conv => lhs; rw [htext, List.append_assoc, inside_gap hg]
  rw [hskip]
  rcases hstops with hstarts | ⟨line, hline⟩
  · exact (starts_append hstarts hinside (.inl rfl) b).inside_eq
  · rw [hline]
    exact inside_line _

/-- The layout between statements goes on into the lines behind a text if there is nothing else. -/
lemma between_append (hs : ClosesComments s) (b : List Char) :
    between (s ++ '\n' :: b) = if between s = [] then between b else between s ++ '\n' :: b := by
  have hfeed : between ('\n' :: b) = between b := between_blank (.space (.inl (by decide)) .nil) b
  obtain ⟨bl, hbl, ⟨hs', hstarts⟩ | ⟨line, hline, rfl, hend⟩⟩ := exists_blank_between s
  · have hbetween : ClosesComments (between s) := by
      rw [hs'] at hs
      exact (closesComments_blank hbl).1 hs
    have hskip : between (s ++ '\n' :: b) = between (between s ++ '\n' :: b) := by
      conv => lhs; rw [hs', List.append_assoc, between_blank hbl]
    rw [hskip]
    split
    · rename_i hnil
      rw [hnil, List.nil_append, hfeed]
    · rename_i hne
      exact (starts_append hstarts hbetween (.inr hne) b).between_eq
  · rw [hend, if_pos rfl, List.append_assoc, between_blank hbl, List.cons_append, List.cons_append,
      between_line, betweenLine_body (feed_not_mem_of_nextLine? hline)]

/-! ## Words -/

/-- Words stand in one line: more lines behind a text do not change what is read at its start, and no
comment begins in what is read. -/
structure ReadsInLine (scanner : List Char → Option (List Char)) : Prop where
  append : ∀ s b, scanner (s ++ '\n' :: b) = (scanner s).map (· ++ '\n' :: b)
  proper : ∀ s rest, scanner s = some rest →
    ∃ front, front ≠ [] ∧ s = front ++ rest ∧ (ClosesComments s ↔ ClosesComments rest)

lemma breaks_feed (b : List Char) : Breaks ('\n' :: b) := fun _ hc => Option.some.inj hc ▸ rfl

lemma ReadsLocally.readsInLine (h : ReadsLocally scanner) : ReadsInLine scanner where
  append s b := h.append s ('\n' :: b) (breaks_feed b)
  proper s rest hread := by
    obtain ⟨plain, more, rfl, hplain, hmore⟩ := exists_break s
    rw [h.append plain more hmore] at hread
    obtain ⟨left, hleft, rfl⟩ := Option.map_eq_some_iff.1 hread
    obtain ⟨front, hne, rfl⟩ := h.proper plain left hleft
    have hfront : ∀ c ∈ front, c ≠ '/' ∧ c ≠ '"' := by
      intro c hc
      have hbreak := hplain c (List.mem_append_left left hc)
      exact ⟨fun heq => absurd hbreak (heq ▸ by decide), fun heq => absurd hbreak (heq ▸ by decide)⟩
    refine ⟨front, hne, List.append_assoc front left more, ?_⟩
    rw [List.append_assoc]
    exact closesComments_append (erased_append hfront)

lemma slash_readsInLine : ReadsInLine slash where
  append s b := by
    cases hread : slash s with
    | some rest =>
      obtain ⟨rfl, hrest⟩ := slash_eq_some hread
      exact slash_append (noComment_append hrest b)
    | none =>
      rw [Option.map_none]
      cases s with
      | nil => rfl
      | cons c rest =>
        by_cases hslash : c = '/'
        · subst hslash
          have hcomment : ¬NoComment rest := fun hrest => by
            rw [slash_append hrest] at hread
            cases hread
          rcases Decidable.not_and_iff_not_or_not.1 hcomment with hhead | hhead
          · obtain ⟨line, rfl⟩ := List.head?_eq_some_iff.1 (not_not.1 hhead)
            rfl
          · obtain ⟨line, rfl⟩ := List.head?_eq_some_iff.1 (not_not.1 hhead)
            rfl
        · exact slash_cons_of_ne hslash _
  proper s rest hread := by
    obtain ⟨rfl, hrest⟩ := slash_eq_some hread
    exact ⟨['/'], List.cons_ne_nil _ _, rfl, closesComments_cons (by decide) fun _ => hrest⟩

lemma string_readsInLine : ReadsInLine string where
  append s b := by
    have hfeed (rest : List Char) : ∀ c ∈ ('\n' :: rest).head?, c = '\n' := fun c hc =>
      (Option.some.inj hc).symm
    by_cases hquote : s.head? = some '"'
    · obtain ⟨text, rfl⟩ := List.head?_eq_some_iff.1 hquote
      obtain ⟨body, rest, hbody, rfl, hrest⟩ := exists_quotable text
      rw [List.cons_append, List.append_assoc]
      cases rest with
      | nil =>
        have hend : ∀ c ∈ ([] : List Char).head?, c = '\n' := nofun
        rw [List.nil_append, string_open hbody (hfeed b), string_open hbody hend, Option.map_none]
      | cons c rest =>
        rcases hrest c rfl with rfl | rfl
        · rw [List.cons_append, string_append hbody, string_append hbody, Option.map_some]
        · rw [List.cons_append, string_open hbody (hfeed _), string_open hbody (hfeed _),
            Option.map_none]
    · have hnone : ∀ c ∈ s.head?, c ≠ '"' := fun c hc heq => hquote (heq ▸ hc)
      have hnone' : ∀ c ∈ (s ++ '\n' :: b).head?, c ≠ '"' := by
        cases s with
        | nil => exact fun c hc => hfeed b c hc ▸ by decide
        | cons c rest => exact hnone
      rw [string_eq_none hnone, string_eq_none hnone', Option.map_none]
  proper s rest hread := by
    obtain ⟨body, hbody, rfl⟩ := exists_string_eq hread
    exact ⟨'"' :: (body ++ ['"']), List.cons_ne_nil _ _, by simp, closesComments_quoted hbody⟩

/-- Texts are read alike if words in one line are. -/
lemma tokenwise_of_readsInLine {R : List Char → List Char → Prop}
    (hinside : ∀ s s', R s s' → R (inside s) (inside s'))
    (hwords : ∀ scanner, ReadsInLine scanner → TakesAlike R scanner) : Tokenwise R where
  inside := hinside
  sign _ hw := hwords _ (literal_readsLocally hw).readsInLine
  slash := hwords _ slash_readsInLine
  assign := hwords _ assign_readsLocally.readsInLine
  name := hwords _ name_readsLocally.readsInLine
  string := hwords _ string_readsInLine
  number := hwords _ number_readsLocally.readsInLine

/-- The second text has more lines behind the first one, which closes its comments. -/
def Continued (b : List Char) (s s' : List Char) : Prop := s' = s ++ '\n' :: b ∧ ClosesComments s

/-- A text is read like the same text with more lines behind it. -/
lemma tokenwise_continued (b : List Char) : Tokenwise (Continued b) := by
  refine tokenwise_of_readsInLine ?_ fun scanner h => ?_
  · rintro s _ ⟨rfl, hs⟩
    exact inside_append hs b
  · rintro s _ ⟨rfl, hs⟩
    rw [h.append]
    cases hread : scanner s with
    | none => exact .inl ⟨rfl, rfl⟩
    | some rest =>
      obtain ⟨front, hne, rfl, hrest⟩ := h.proper s rest hread
      exact .inr ⟨front, rest, rest ++ '\n' :: b, hne, rfl, List.append_assoc front rest _, rfl, rfl,
        rfl, hrest.1 hs⟩

/-- A text is read like itself, and comments are closed before what was read if they are behind it. -/
lemma tokenwise_closes (P : Prop) :
    Tokenwise fun s s' => s = s' ∧ (ClosesComments s' → P) := by
  refine tokenwise_of_readsInLine ?_ fun scanner h => ?_
  · rintro s _ ⟨rfl, hs⟩
    obtain ⟨g, hg, htext, -⟩ := exists_gap_inside s
    refine ⟨rfl, fun hinside => hs ?_⟩
    rw [htext]
    exact (closesComments_gap hg).2 hinside
  · rintro s _ ⟨rfl, hs⟩
    cases hread : scanner s with
    | none => exact .inl ⟨rfl, rfl⟩
    | some rest =>
      obtain ⟨front, hne, rfl, hrest⟩ := h.proper s rest hread
      exact .inr ⟨front, rest, rest, hne, rfl, rfl, rfl, rfl, rfl, fun hclosed => hs (hrest.2 hclosed)⟩

/-- A statement leaves no comment open. -/
lemma closesComments_of_statement {c later : Cursor} {node : Node}
    (h : statement c = some (node, later)) (hlater : ClosesComments later.rest) :
    ClosesComments c.rest := by
  have halike := statement_alike (tokenwise_closes (ClosesComments c.rest)) c c ⟨rfl, id⟩
    (Nat.lt_succ_self _) (Nat.lt_succ_self _)
  rw [h] at halike
  cases halike with
  | some hread => exact hread.2.1.2 hlater

end SignalCalc.Syntax
