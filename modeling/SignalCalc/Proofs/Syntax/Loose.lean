import SignalCalc.Proofs.Syntax.Erasure
import SignalCalc.Proofs.Syntax.Words

/-!
# A text and the same text without comments

Layout within a line stops in front of a line comment.  Where the comments are erased it stops behind
the space that is left of the comment, at the line feed.  So a position in the one text belongs to a
position in the other by `Loose`.  The two texts go on with the same words (`tokenwise_loose`), and the
rules of the grammar read them alike.
-/

namespace SignalCalc.Syntax

open SignalCalc.Syntax.Layout
open SignalCalc.Syntax.Parser
open SignalCalc.Syntax.Token
open SignalCalc.Text

variable {s s' text rest front more line body : List Char}

/-- The second text is what is left of the first one without its comments, or of a line comment
without its space. -/
def Loose (s s' : List Char) : Prop :=
  s' = erased s ∨ ∃ line, s = '/' :: '/' :: line ∧ s' = erasedLine line

lemma head?_erasedLine {c : Char} (hc : c ∈ (erasedLine line).head?) : c = '\n' := by
  rw [erasedLine_eq] at hc
  cases hnext : nextLine? line with
  | none =>
    rw [hnext] at hc
    cases hc
  | some rest =>
    rw [hnext] at hc
    exact (Option.some.inj hc).symm

lemma breaks_erasedLine (line : List Char) : Breaks (erasedLine line) := fun _ hc =>
  head?_erasedLine hc ▸ rfl

lemma Breaks.erased (h : Breaks text) : Breaks (erased text) := by
  intro c hc
  rcases head?_erased hc with rfl | hc
  · rfl
  · exact h c hc

/-! ## Words -/

/-- Related texts start with the same characters up to a break. -/
lemma Loose.exists_append (h : Loose s s') : ∃ front more more', s = front ++ more ∧
    s' = front ++ more' ∧ Breaks more ∧ Breaks more' ∧
    ∀ rest, rest <:+ front → Loose (rest ++ more) (rest ++ more') := by
  rcases h with rfl | ⟨line, rfl, rfl⟩
  · obtain ⟨front, more, rfl, hfront, hmore⟩ := exists_break s
    have hplain : ∀ c ∈ front, c ≠ '/' ∧ c ≠ '"' := by
      intro c hc
      have hbreak := hfront c hc
      constructor
      · rintro rfl
        exact absurd hbreak (by decide)
      · rintro rfl
        exact absurd hbreak (by decide)
    refine ⟨front, more, Layout.erased more, rfl, erased_append hplain more, hmore, hmore.erased,
      fun rest hrest => .inl ?_⟩
    exact (erased_append (fun c hc => hplain c (hrest.subset hc)) more).symm
  · refine ⟨[], _, _, rfl, rfl, ?_, breaks_erasedLine line, fun rest hrest => .inr ⟨line, ?_⟩⟩
    · intro c hc
      obtain rfl := Option.some.inj hc
      rfl
    · obtain rfl := List.suffix_nil.1 hrest
      exact ⟨rfl, rfl⟩

lemma ReadsLocally.takesAlike {scanner : List Char → Option (List Char)}
    (h : ReadsLocally scanner) : TakesAlike Loose scanner := by
  intro s s' hloose
  obtain ⟨front, more, more', rfl, rfl, hmore, hmore', hrest⟩ := hloose.exists_append
  rw [h.append front more hmore, h.append front more' hmore']
  cases hread : scanner front with
  | none => exact .inl ⟨rfl, rfl⟩
  | some rest =>
    obtain ⟨taken, htaken, rfl⟩ := h.proper front rest hread
    refine .inr ⟨taken, rest ++ more, rest ++ more', htaken, ?_, ?_, rfl, rfl, ?_⟩
    · exact List.append_assoc taken rest more
    · exact List.append_assoc taken rest more'
    · exact hrest rest (List.suffix_append taken rest)

lemma slash_eq_none (h : text.head? ≠ some '/') : slash text = none := by
  cases text with
  | nil => rfl
  | cons c text => exact slash_cons_of_ne (fun hc => h (congrArg some hc)) text

lemma slash_takesAlike : TakesAlike Loose slash := by
  rintro s _ (rfl | ⟨line, rfl, rfl⟩)
  · cases Front.of (fun _ => false) s with
    | starts hstarts =>
      cases hstarts with
      | nil => exact .inl ⟨rfl, rfl⟩
      | opening hrest => exact .inl ⟨rfl, by rw [erased_opening hrest]; rfl⟩
      | @cons c rest _ hslash =>
        by_cases hc : c = '/'
        · obtain rfl := hc
          rw [erased_cons (by decide) hslash]
          exact .inr ⟨['/'], rest, Layout.erased rest, List.cons_ne_nil _ _, rfl, rfl,
            slash_append (hslash rfl), slash_append (noComment_erased (hslash rfl)), .inl rfl⟩
        · refine .inl ⟨slash_cons_of_ne hc rest, slash_eq_none fun hhead => hc ?_⟩
          exact Option.some.inj (head?_erased_slash hhead)
    | blank hblank => cases hblank
    | comment hbody => exact .inl ⟨rfl, by rw [erased_comment hbody]; rfl⟩
    | line line => exact .inl ⟨rfl, by rw [erased_line]; rfl⟩
  · refine .inl ⟨rfl, slash_eq_none fun hhead => ?_⟩
    exact absurd (head?_erasedLine hhead) (by decide)

/-! ## Strings -/

lemma exists_quotable (text : List Char) : ∃ body rest, IsQuotable body ∧ text = body ++ rest ∧
    ∀ c ∈ rest.head?, c = '"' ∨ c = '\n' := by
  refine ⟨text.takeWhile fun c => c != '"' && c != '\n', text.dropWhile fun c => c != '"' && c != '\n',
    fun c hc => ?_, List.takeWhile_append_dropWhile.symm, fun c hc => ?_⟩
  · simpa using List.mem_takeWhile_imp hc
  · have hhead := List.head?_dropWhile_not (fun c => c != '"' && c != '\n') text
    rw [Option.mem_def.1 hc] at hhead
    simpa [Classical.or_iff_not_imp_left] using hhead

lemma erasedQuoted_append (h : IsQuotable body) (rest : List Char) :
    erasedQuoted (body ++ rest) = body ++ erasedQuoted rest := by
  induction body with
  | nil => rfl
  | cons c body ih =>
    obtain ⟨⟨hquote, hfeed⟩, hbody⟩ := List.forall_mem_cons.1 h
    rw [List.cons_append, erasedQuoted, ih hbody, List.cons_append]
    · exact hquote
    · exact hfeed

/-- A string that its line does not close is none. -/
lemma string_open (h : IsQuotable body) (hrest : ∀ c ∈ rest.head?, c = '\n') :
    string ('"' :: (body ++ rest)) = none := by
  have hinside : ∀ c ∈ body, (c != '"' && c != '\n') = true := fun c hc => by
    simp [(h c hc).1, (h c hc).2]
  have hdrop : (body ++ rest).dropWhile (fun c => c != '"' && c != '\n') = rest := by
    rw [dropWhile_append_of_head (fun c hc => by rw [hrest c hc]; rfl),
      List.dropWhile_eq_nil_iff.2 hinside, List.nil_append]
  rw [string, hdrop]
  cases rest with
  | nil => rfl
  | cons c rest =>
    obtain rfl := hrest c rfl
    rfl

lemma string_takesAlike : TakesAlike Loose string := by
  rintro s _ (rfl | ⟨line, rfl, rfl⟩)
  · by_cases hquote : s.head? = some '"'
    · obtain ⟨text, rfl⟩ := List.head?_eq_some_iff.1 hquote
      obtain ⟨body, rest, hbody, rfl, hrest⟩ := exists_quotable text
      rw [erased_quote, erasedQuoted_append hbody]
      cases rest with
      | nil => exact .inl ⟨string_open hbody nofun, string_open hbody nofun⟩
      | cons c rest =>
        rcases hrest c rfl with rfl | rfl
        · rw [erasedQuoted]
          refine .inr ⟨'"' :: (body ++ ['"']), rest, Layout.erased rest, List.cons_ne_nil _ _, ?_, ?_,
            string_append hbody rest, string_append hbody _, .inl rfl⟩
          · simp
          · simp
        · rw [erasedQuoted]
          have hfeed (rest : List Char) : ∀ c ∈ ('\n' :: rest).head?, c = '\n' := fun c hc =>
            (Option.some.inj hc).symm
          exact .inl ⟨string_open hbody (hfeed rest), string_open hbody (hfeed _)⟩
    · refine .inl ⟨string_eq_none fun c hc heq => hquote (heq ▸ hc), string_eq_none ?_⟩
      rintro _ hc rfl
      exact hquote ((head?_erased hc).resolve_left (by decide))
  · refine .inl ⟨rfl, string_eq_none fun c hc => ?_⟩
    rw [head?_erasedLine hc]
    decide

/-! ## Layout within a line -/

lemma inside_line (line : List Char) : inside ('/' :: '/' :: line) = '/' :: '/' :: line :=
  inside_slash fun h => absurd (Option.some.inj h) (by decide)

lemma inside_erasedLine (line : List Char) : inside (erasedLine line) = erasedLine line := by
  rw [erasedLine_eq]
  cases nextLine? line with
  | none => rfl
  | some rest => exact inside_cons (by decide) (by decide) (by decide) _

lemma Loose.inside (h : Loose s s') : Loose (inside s) (inside s') := by
  rcases h with rfl | ⟨line, rfl, rfl⟩
  · obtain ⟨g, hg, htext, hstops⟩ := exists_gap_inside s
    obtain ⟨blanks, hblanks, hrest⟩ := erased_gap hg
    have herased : Layout.inside (erased s) = Layout.inside (erased (Layout.inside s)) := by
      conv => lhs; rw [htext, hrest, inside_gap (isGap_of_blanks hblanks)]
    rw [herased]
    rcases hstops with hstarts | ⟨line, hline⟩
    · exact .inl hstarts.erased.inside_eq
    · rw [hline, erased_line]
      exact .inr ⟨line, rfl, (inside_gap (.blank (.inl rfl) .nil) _).trans (inside_erasedLine line)⟩
  · exact .inr ⟨line, inside_line line, inside_erasedLine line⟩

/-- The layout between statements leads to the same text but for its comments. -/
lemma Loose.between (h : Loose s s') : between s' = erased (between s) := by
  rcases h with rfl | ⟨line, rfl, rfl⟩
  · exact between_erased s
  · rw [between_line, betweenLine_eq, erasedLine_eq]
    cases nextLine? line with
    | none => rfl
    | some rest =>
      rw [Option.elim_some, Option.elim_some, ← between_erased]
      exact between_blank (.space (.inl (by decide)) .nil) (erased rest)

/-- The two texts consist of the same words. -/
lemma tokenwise_loose : Tokenwise Loose where
  inside _ _ h := h.inside
  sign _ hw := (literal_readsLocally hw).takesAlike
  slash := slash_takesAlike
  assign := assign_readsLocally.takesAlike
  name := name_readsLocally.takesAlike
  string := string_takesAlike
  number := number_readsLocally.takesAlike

/-! ## Ends of statements -/

/-- The text behind a mark that ends a statement, with a line comment in front of a line feed. -/
def afterMark? : List Char → Option (List Char)
  | ';' :: rest => some rest
  | '\n' :: rest => some rest
  | '/' :: '/' :: line => nextLine? line
  | _ => none

/-- The text behind the end of a statement, where a block comment runs to the first closing and a
line comment to the line feed. -/
def plainEnding? (text : List Char) : Option (List Char) := afterMark? (inside text)

/-- Such an end is a separator, -/
lemma exists_separator_of_plainEnding? (h : plainEnding? text = some rest) :
    ∃ s, IsSeparator s ∧ text = s ++ rest := by
  obtain ⟨g, hg, htext, -⟩ := exists_gap_inside text
  unfold plainEnding? afterMark? at h
  rw [htext]
  split at h
  · rename_i after heq
    obtain rfl := Option.some.inj h
    exact ⟨g ++ [';'], .mark hg (.inl rfl) .nil, by rw [heq]; simp⟩
  · rename_i after heq
    obtain rfl := Option.some.inj h
    exact ⟨g ++ ['\n'], .mark hg (.inr rfl) .nil, by rw [heq]; simp⟩
  · rename_i line heq
    obtain ⟨body, hbody, rfl⟩ := exists_body_of_nextLine? h
    exact ⟨g ++ '/' :: '/' :: (body ++ ['\n']), .line hg hbody .nil, by rw [heq]; simp⟩
  · cases h

/-- and there is one in front of every text behind a separator. -/
lemma isSome_plainEnding? {sep : List Char} (h : IsSeparator sep) (rest : List Char) :
    (plainEnding? (sep ++ rest)).isSome = true := by
  cases h with
  | @mark g b c hg hc _ =>
    rw [plainEnding?, List.append_assoc, inside_gap hg, List.cons_append,
      inside_mark (.inr (.inr hc))]
    rcases hc with rfl | rfl
    · rfl
    · rfl
  | @line g body b hg hbody _ =>
    rw [plainEnding?, List.append_assoc, inside_gap hg, List.cons_append, List.cons_append,
      inside_line, List.append_assoc, List.cons_append, afterMark?, nextLine?_body hbody]
    rfl

lemma endingComment?_of_closes (h : closes text = false) : endingComment? text = none := by
  induction text with
  | nil => rw [endingComment?]
  | cons c text ih =>
    rw [endingComment?, ih (closes_tail h)]
    rintro rest rfl rfl
    cases h

/-- A character other than a mark ends no statement, unless it starts layout or a comment. -/
lemma ending?_eq_none (h : Starts isLineBlank text) (hsemi : text.head? ≠ some ';')
    (hfeed : text.head? ≠ some '\n') : ending? text = none ∧ afterMark? text = none := by
  cases h with
  | nil => exact ⟨rfl, rfl⟩
  | opening hrest => exact ⟨by rw [ending?, endingComment?_of_closes hrest], rfl⟩
  | @cons c rest hc hslash =>
    obtain ⟨hspace, htab⟩ : c ≠ ' ' ∧ c ≠ '\t' := by simpa [isLineBlank] using hc
    have hopening (d : Char) (more : List Char) (hd : d = '/' ∨ d = '*') :
        c :: rest ≠ '/' :: d :: more := by
      intro heq
      obtain ⟨rfl, rfl⟩ := List.cons.inj heq
      rcases hd with rfl | rfl
      · exact (hslash rfl).1 rfl
      · exact (hslash rfl).2 rfl
    constructor
    · unfold Layout.ending?
      split <;> simp_all
    · unfold afterMark?
      split <;> simp_all

lemma ending?_erased_of_starts (h : Starts isLineBlank text) :
    ending? (erased text) = (afterMark? text).map erased := by
  have hkept {c : Char} (hc : c ≠ ' ') (hhead : text.head? ≠ some c) :
      (erased text).head? ≠ some c := fun hleft => hhead ((head?_erased hleft).resolve_left hc)
  by_cases hsemi : text.head? = some ';'
  · obtain ⟨rest, rfl⟩ := List.head?_eq_some_iff.1 hsemi
    rw [erased_cons (c := ';') (by decide) (absurd · (by decide)), ending?, afterMark?, Option.map_some]
  · by_cases hfeed : text.head? = some '\n'
    · obtain ⟨rest, rfl⟩ := List.head?_eq_some_iff.1 hfeed
      rw [erased_cons (c := '\n') (by decide) (absurd · (by decide)), ending?, afterMark?, Option.map_some]
    · rw [(ending?_eq_none h.erased (hkept (by decide) hsemi) (hkept (by decide) hfeed)).1,
        (ending?_eq_none h hsemi hfeed).2, Option.map_none]

lemma ending?_erasedLine (line : List Char) :
    ending? (erasedLine line) = (nextLine? line).map erased := by
  rw [erasedLine_eq]
  cases nextLine? line with
  | none => rfl
  | some rest => rw [Option.elim_some, ending?, Option.map_some]

/-- Without its comments, a text has its statements end where they end plainly with them. -/
lemma Loose.ending? (h : Loose s s') : Layout.ending? s' = (plainEnding? s).map erased := by
  rcases h with rfl | ⟨line, rfl, rfl⟩
  · obtain ⟨g, hg, htext, hstops⟩ := exists_gap_inside s
    obtain ⟨blanks, hblanks, hrest⟩ := erased_gap hg
    have hskip : Layout.ending? (erased s) = Layout.ending? (erased (Layout.inside s)) := by
      conv => lhs; rw [htext, hrest, ending?_blanks hblanks]
    rw [hskip, plainEnding?]
    rcases hstops with hstarts | ⟨line, hline⟩
    · exact ending?_erased_of_starts hstarts
    · rw [hline, erased_line, Layout.ending?, ending?_erasedLine, afterMark?]
  · rw [ending?_erasedLine, plainEnding?, inside_line, afterMark?]

end SignalCalc.Syntax
