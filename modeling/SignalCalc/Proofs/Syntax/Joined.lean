import SignalCalc.Proofs.Syntax.Comments
import SignalCalc.Proofs.Syntax.Continued

/-!
# Texts one after the other

Two source texts with a line feed between them should have the statements of both.  They do if the
first text ends each of its statements at a separator, where the line feed may belong to the last one
(`parse_joined`).

The layout behind a last statement may be more than that.  Blanks of all kinds may stand at the end of
a text, and not all of them may stand in front of a separator: `1` with a carriage return behind it is
a program, and with another line it is none (`parse_joined_return`).  A semicolon in a line comment ends
a statement if no line feed ends the comment, and not any more if one follows.
-/

namespace SignalCalc.Syntax

open SignalCalc.Syntax.Grammar
open SignalCalc.Syntax.Layout
open SignalCalc.Syntax.Parser
open SignalCalc.Text

variable {a b : String} {c c' d later : Cursor} {node : Node} {nodes more : List Node}
  {text sep : List Char} {n n' : ℕ}

/-- A separator stands behind each statement from here on.  The one behind the last statement may end
with a line feed behind the text. -/
def SeparatedThrough (c : Cursor) : Prop :=
  SeparatedFrom c ∧ ∀ d, Continues c d → nextStatement d = none →
    ∃ sep, IsSeparator sep ∧ sep <+: d.rest ++ ['\n']

/-- A separator stands behind each statement of a text that a line feed follows. -/
def EndsStatements (source : String) : Prop :=
  ∀ node c, (skip between *> statement) (Cursor.start source) = some (node, c) → SeparatedThrough c

/-- The statements that are read from a position on, without their places, if nothing but layout is
left. -/
def readFrom? (p : Parser (List Node)) (c : Cursor) : Option (List Node) :=
  (p c).bind fun r => if between r.2.rest = [] then some (r.1.map Node.bare) else none

/-! ## Statements from a position on -/

lemma between_between (text : List Char) : between (between text) = between text := by
  obtain ⟨-, -, ⟨-, hstarts⟩ | ⟨-, -, -, hend⟩⟩ := exists_blank_between text
  · exact hstarts.between_eq
  · rw [hend]
    rfl

lemma rest_moveTo_between (c : Cursor) (hsuffix : text <:+ c.rest) :
    (c.moveTo (between text)).rest = between text :=
  Cursor.rest_moveTo (between_suffix hsuffix)

lemma readFrom?_many (c : Cursor) : readFrom? (many nextStatement) c =
    if between (manyFrom nextStatement c).2.rest = [] then
      some ((manyFrom nextStatement c).1.map Node.bare) else none := rfl

lemma readFrom?_many_of_none (h : nextStatement c = none) :
    readFrom? (many nextStatement) c = if between c.rest = [] then some [] else none := by
  rw [readFrom?_many, manyFrom_of_none h]
  rfl

lemma readFrom?_many_of_some (h : nextStatement c = some (node, later)) :
    readFrom? (many nextStatement) c =
      (readFrom? (many nextStatement) later).map (node.bare :: ·) := by
  rw [readFrom?_many, readFrom?_many, manyFrom_of_some h (nextStatement_length h)]
  split
  · rfl
  · rfl

/-- The statements of a program behind the layout in front of them. -/
lemma readFrom?_sepBy (d : Cursor) :
    readFrom? (sepBy statement (scan terminator?)) d =
      match statement d with
      | some (node, later) => (readFrom? (many nextStatement) later).map (node.bare :: ·)
      | none => if between d.rest = [] then some [] else none := by
  have hsepBy : sepBy statement (scan terminator?) d =
      (maybe (sepBy1 statement (scan terminator?)) d).bind fun r => some (r.1.getD [], r.2) := rfl
  unfold readFrom?
  rw [hsepBy, maybe]
  cases hfirst : statement d with
  | none =>
    have hone : sepBy1 statement (scan terminator?) d = none := run_bind_of_none hfirst
    rw [hone]
    rfl
  | some r =>
    have hone : sepBy1 statement (scan terminator?) d =
        some (r.1 :: (manyFrom nextStatement r.2).1, (manyFrom nextStatement r.2).2) :=
      run_bind_of_some hfirst
    rw [hone]
    show (if between (manyFrom nextStatement r.2).2.rest = [] then
        some (r.1.bare :: (manyFrom nextStatement r.2).1.map Node.bare) else none) =
      (readFrom? (many nextStatement) r.2).map (r.1.bare :: ·)
    rw [readFrom?_many]
    split
    · rfl
    · rfl

lemma readStatements?_eq (source : String) : readStatements? terminator? source =
    readFrom? (sepBy statement (scan terminator?))
      ((Cursor.start source).moveTo (between source.toList)) := by
  have hskip : statementsOf terminator? (Cursor.start source) =
      sepBy statement (scan terminator?)
        ((Cursor.start source).moveTo (between source.toList)) := rfl
  rw [readStatements?, hskip, readFrom?]

/-! ## The same text at another place -/

lemma tokenwise_eq : Tokenwise Eq := by
  refine tokenwise_of_readsInLine (fun _ _ h => congrArg inside h) fun scanner h => ?_
  rintro s _ rfl
  cases hread : scanner s with
  | none => exact .inl ⟨rfl, rfl⟩
  | some rest =>
    obtain ⟨front, hne, hs, -⟩ := h.proper s rest hread
    exact .inr ⟨front, rest, rest, hne, hs, hs, rfl, rfl, rfl⟩

lemma terminator_takesAlike : TakesAlike Eq terminator? := by
  rintro s _ rfl
  cases hread : terminator? s with
  | none => exact .inl ⟨rfl, rfl⟩
  | some rest =>
    obtain ⟨front, rfl⟩ := terminator?_suffix (List.suffix_refl s) hread
    refine .inr ⟨front, rest, rest, ?_, rfl, rfl, rfl, rfl, rfl⟩
    rintro rfl
    exact absurd (terminator?_length hread) (Nat.lt_irrefl _)

/-- What is read depends on the text from the position on alone. -/
lemma readFrom?_sepBy_congr (h : c.rest = c'.rest) :
    readFrom? (sepBy statement (scan terminator?)) c =
      readFrom? (sepBy statement (scan terminator?)) c' := by
  have halike := (statement_alike tokenwise_eq).sepBy terminator_takesAlike.scan c c' h
    (Nat.lt_succ_self _) (Nat.lt_succ_self _)
  unfold readFrom?
  generalize sepBy statement (scan terminator?) c = read,
    sepBy statement (scan terminator?) c' = read' at halike ⊢
  cases halike with
  | none => rfl
  | some hread =>
    obtain ⟨hsame, hrest, -⟩ := hread
    rw [Option.bind_some, Option.bind_some, hrest, map_bare_eq hsame]

/-! ## Separators -/

/-- The next statement stands behind the separator and the layout around it. -/
lemma nextStatement_of_separator (hsep : IsSeparator sep) (h : c.rest = sep ++ text) :
    nextStatement c = statement (c.moveTo (between text)) := by
  have hscan : scan terminator? c = some ((), c.moveTo (between text)) :=
    scan_eq_some.2 ⟨_, h ▸ terminator?_separator hsep text, rfl⟩
  exact run_bind_of_some (f := fun _ => statement) hscan

lemma SeparatedThrough.separator (h : SeparatedThrough c)
    (hnext : nextStatement c = some (node, later)) : ∃ sep, IsSeparator sep ∧ sep <+: c.rest :=
  h.1 c node later (.refl c) hnext

lemma SeparatedThrough.behind (h : SeparatedThrough c)
    (hnext : nextStatement c = some (node, later)) : SeparatedThrough later :=
  ⟨fun d node' last hreach => h.1 d node' last (.step hnext hreach),
    fun d hreach => h.2 d (.step hnext hreach)⟩

lemma separatedThrough_last (hnext : (nextStatement c).isNone)
    (hsep : (plainTerminator? (c.rest ++ ['\n'])).isSome) : SeparatedThrough c := by
  have hnone := Option.isNone_iff_eq_none.1 hnext
  refine ⟨separatedFrom_of_none hnone, fun d hreach _ => ?_⟩
  cases hreach with
  | refl => exact exists_separator_iff.2 (Option.isSome_iff_exists.1 hsep)
  | step hstep _ =>
    rw [hnone] at hstep
    cases hstep

lemma separatedThrough_next (hnext : (nextStatement c).map Prod.snd = some later)
    (hsep : (plainTerminator? c.rest).isSome) (h : SeparatedThrough later) : SeparatedThrough c := by
  obtain ⟨⟨node, later⟩, hread, rfl⟩ := Option.map_eq_some_iff.1 hnext
  have hseparator := exists_separator_iff.2 (Option.isSome_iff_exists.1 hsep)
  refine ⟨(separatedFrom_iff hread).2 ⟨hseparator, h.1⟩, fun d hreach hlast => ?_⟩
  cases hreach with
  | refl =>
    rw [hread] at hlast
    cases hlast
  | step hstep hreach =>
    rw [hread] at hstep
    obtain ⟨-, rfl⟩ := Prod.mk.inj (Option.some.inj hstep)
    exact h.2 d hreach hlast

/-- A text that is read to its end leaves no comment open behind a statement. -/
lemma closesComments_of_readFrom? (hsep : SeparatedThrough c)
    (hread : readFrom? (many nextStatement) c = some nodes) : ClosesComments c.rest := by
  induction hlength : c.rest.length using Nat.strongRecOn generalizing c nodes with
  | ind k ih =>
    cases hnext : nextStatement c with
    | none =>
      rw [readFrom?_many_of_none hnext, Option.ite_none_right_eq_some] at hread
      exact closesComments_between.1 (hread.1 ▸ closesComments_nil)
    | some r =>
      obtain ⟨node, later⟩ := r
      rw [readFrom?_many_of_some hnext] at hread
      obtain ⟨nodes, hnodes, -⟩ := Option.map_eq_some_iff.1 hread
      have hlater := ih _ (hlength ▸ nextStatement_length hnext) (hsep.behind hnext) hnodes rfl
      obtain ⟨sep, hsep, text, htext⟩ := hsep.separator hnext
      rw [nextStatement_of_separator hsep htext.symm] at hnext
      have hstatement := closesComments_of_statement hnext hlater
      rw [rest_moveTo_between c ⟨sep, htext⟩] at hstatement
      rw [← htext]
      exact (closesComments_blank hsep.isBlank).2 (closesComments_between.1 hstatement)

/-! ## With more lines behind the text -/

/-- A statement that a text starts with is read, layout in front of it skipped, with more lines behind
the text, too. -/
lemma statement_continued {lines : List Char} (hc : text <:+ c.rest)
    (hd : text ++ '\n' :: lines <:+ d.rest) (hclosed : ClosesComments text)
    (hread : statement (c.moveTo (between text)) = some (node, later)) :
    ∃ node' later', statement (d.moveTo (between (text ++ '\n' :: lines))) = some (node', later') ∧
      node'.bare = node.bare ∧ later'.rest = later.rest ++ '\n' :: lines := by
  have hne : between text ≠ [] := by
    intro hnil
    rw [statement_fails_nil _ ((rest_moveTo_between c hc).trans hnil)] at hread
    cases hread
  have hbetween : between (text ++ '\n' :: lines) = between text ++ '\n' :: lines := by
    rw [between_append hclosed, if_neg hne]
  have hcontinued : Continued lines (c.moveTo (between text)).rest
      (d.moveTo (between (text ++ '\n' :: lines))).rest := by
    rw [rest_moveTo_between c hc, rest_moveTo_between d hd]
    exact ⟨hbetween, closesComments_between.2 hclosed⟩
  have halike := statement_alike (tokenwise_continued lines) _ _ hcontinued (Nat.lt_succ_self _)
    (Nat.lt_succ_self _)
  rw [hread] at halike
  generalize statement (d.moveTo (between (text ++ '\n' :: lines))) = read at halike ⊢
  cases halike with
  | some hread => exact ⟨_, _, rfl, hread.1.symm, hread.2.1.1⟩

/-- Behind the last statement of a text the statements of the next text follow. -/
lemma readFrom?_many_last (hc : between c.rest = []) (hsep : IsSeparator sep)
    (hfront : sep <+: c.rest ++ ['\n']) (hd : d.rest = c.rest ++ '\n' :: b.toList) :
    readFrom? (many nextStatement) d = readStatements? terminator? b := by
  obtain ⟨text, htext⟩ := hfront
  have hrest : d.rest = sep ++ (text ++ b.toList) := by
    rw [hd, ← List.append_assoc, htext, List.append_assoc, List.singleton_append]
  have hclosed : ClosesComments c.rest := closesComments_between.1 (hc ▸ closesComments_nil)
  have hbetween : between d.rest = between b.toList := by
    rw [hd, between_append hclosed, if_pos hc]
  have hbehind : between (text ++ b.toList) = between b.toList := by
    rw [← hbetween, hrest, between_blank hsep.isBlank]
  have hmoved : (d.moveTo (between b.toList)).rest = between b.toList := by
    rw [← hbehind]
    exact rest_moveTo_between d ⟨sep, hrest.symm⟩
  have hnext : nextStatement d = statement (d.moveTo (between b.toList)) := by
    rw [nextStatement_of_separator hsep hrest, hbehind]
  have hstart : ((Cursor.start b).moveTo (between b.toList)).rest = between b.toList :=
    rest_moveTo_between (Cursor.start b) (List.suffix_refl _)
  rw [readStatements?_eq, ← readFrom?_sepBy_congr (hmoved.trans hstart.symm), readFrom?_sepBy]
  cases hstatement : statement (d.moveTo (between b.toList)) with
  | none =>
    rw [readFrom?_many_of_none (hnext.trans hstatement), hmoved, hbetween, between_between]
  | some r => exact readFrom?_many_of_some (hnext.trans hstatement)

/-- Behind a statement of a text those of the text follow, and then those of the next one. -/
lemma readFrom?_many_joined (hsep : SeparatedThrough c)
    (hc : readFrom? (many nextStatement) c = some nodes)
    (hb : readStatements? terminator? b = some more) (hd : d.rest = c.rest ++ '\n' :: b.toList) :
    readFrom? (many nextStatement) d = some (nodes ++ more) := by
  induction hlength : c.rest.length using Nat.strongRecOn generalizing c d nodes with
  | ind k ih =>
    have hclosed := closesComments_of_readFrom? hsep hc
    cases hnext : nextStatement c with
    | none =>
      obtain ⟨sep, hissep, hfront⟩ := hsep.2 c (.refl c) hnext
      rw [readFrom?_many_of_none hnext, Option.ite_none_right_eq_some] at hc
      obtain ⟨hend, hnodes⟩ := hc
      obtain rfl := Option.some.inj hnodes
      rw [readFrom?_many_last hend hissep hfront hd, hb, List.nil_append]
    | some r =>
      obtain ⟨node, later⟩ := r
      rw [readFrom?_many_of_some hnext] at hc
      obtain ⟨nodes, hnodes, rfl⟩ := Option.map_eq_some_iff.1 hc
      obtain ⟨sep, hissep, text, htext⟩ := hsep.separator hnext
      have hrest : d.rest = sep ++ (text ++ '\n' :: b.toList) := by
        rw [hd, ← htext, List.append_assoc]
      have hbehind : ClosesComments text := by
        rw [← htext] at hclosed
        exact (closesComments_blank hissep.isBlank).1 hclosed
      obtain ⟨node', later', hstatement, hsame, hlater⟩ :=
        statement_continued ⟨sep, htext⟩ ⟨sep, hrest.symm⟩ hbehind
          ((nextStatement_of_separator hissep htext.symm).symm.trans hnext)
      rw [readFrom?_many_of_some ((nextStatement_of_separator hissep hrest).trans hstatement),
        ih _ (hlength ▸ nextStatement_length hnext) (hsep.behind hnext) hnodes hlater rfl, hsame]
      rfl

/-! ## Whole texts -/

lemma toList_joined (a b : String) : (a ++ "\n" ++ b).toList = a.toList ++ '\n' :: b.toList := by
  simp

lemma readStatements?_joined (hsep : EndsStatements a)
    (ha : readStatements? terminator? a = some nodes)
    (hb : readStatements? terminator? b = some more) :
    readStatements? terminator? (a ++ "\n" ++ b) = some (nodes ++ more) := by
  have hstart : ((Cursor.start a).moveTo (between a.toList)).rest = between a.toList :=
    rest_moveTo_between (Cursor.start a) (List.suffix_refl _)
  rw [readStatements?_eq, readFrom?_sepBy] at ha
  rw [readStatements?_eq, toList_joined]
  cases hfirst : statement ((Cursor.start a).moveTo (between a.toList)) with
  | none =>
    simp only [hfirst, hstart, between_between, Option.ite_none_right_eq_some] at ha
    obtain ⟨hend, hnodes⟩ := ha
    obtain rfl := Option.some.inj hnodes
    have hclosed : ClosesComments a.toList := closesComments_between.1 (hend ▸ closesComments_nil)
    rw [between_append hclosed, if_pos hend, List.nil_append, ← hb, readStatements?_eq]
    refine readFrom?_sepBy_congr ?_
    have hb : b.toList <:+ (Cursor.start b).rest := List.suffix_refl _
    rw [rest_moveTo_between (Cursor.start b) hb]
    exact rest_moveTo_between _ ⟨a.toList ++ ['\n'], by simp [Cursor.start]⟩
  | some r =>
    obtain ⟨node, later⟩ := r
    simp only [hfirst] at ha
    obtain ⟨nodes, hnodes, rfl⟩ := Option.map_eq_some_iff.1 ha
    have hlater := hsep node later hfirst
    have hclosed : ClosesComments a.toList := by
      have hstatement := closesComments_of_statement hfirst
        (closesComments_of_readFrom? hlater hnodes)
      rw [hstart] at hstatement
      exact closesComments_between.1 hstatement
    have ha : a.toList <:+ (Cursor.start a).rest := List.suffix_refl _
    have hjoined : a.toList ++ '\n' :: b.toList <:+ (Cursor.start (a ++ "\n" ++ b)).rest :=
      (toList_joined a b).symm ▸ List.suffix_refl _
    obtain ⟨node', later', hstatement, hsame, hrest⟩ :=
      statement_continued ha hjoined hclosed hfirst
    rw [readFrom?_sepBy, hstatement]
    simp only [readFrom?_many_joined hlater hnodes hb hrest, Option.map_some, hsame, List.cons_append]

/-- **Texts compose line by line.**  If two texts parse, and the first one ends each of its statements at
a separator, then the text with one after the other has the statements of both. -/
theorem parse_joined (ha : bareStatements? a = some nodes) (hb : bareStatements? b = some more)
    (hsep : EndsStatements a) : bareStatements? (a ++ "\n" ++ b) = some (nodes ++ more) := by
  rw [bareStatements?_eq] at ha hb ⊢
  exact readStatements?_joined hsep ha hb

/-- Two statements with a comment behind them, and a third one in the next line. -/
theorem parse_joined_commentedLine : ∃ nodes more,
    bareStatements? "1; 2 // c" = some nodes ∧ nodes.length = 2 ∧
      bareStatements? "3" = some more ∧ more.length = 1 ∧ EndsStatements "1; 2 // c" ∧
      bareStatements? ("1; 2 // c" ++ "\n" ++ "3") = some (nodes ++ more) := by
  have hfirst : ((skip between *> statement) (Cursor.start "1; 2 // c")).map Prod.snd =
      some ⟨"; 2 // c".toList, 1, 2⟩ := by
    decide +kernel
  have hends : EndsStatements "1; 2 // c" := by
    intro node c hread
    rw [hread] at hfirst
    obtain rfl : c = _ := Option.some.inj hfirst
    have hlast : SeparatedThrough ⟨" // c".toList, 1, 5⟩ :=
      separatedThrough_last (by decide +kernel) (by decide +kernel)
    exact separatedThrough_next (by decide +kernel) (by decide +kernel) hlast
  obtain ⟨nodes, hnodes, hlength⟩ := Option.map_eq_some_iff.1
    (show (bareStatements? "1; 2 // c").map List.length = some 2 by decide +kernel)
  obtain ⟨more, hmore, hlength'⟩ := Option.map_eq_some_iff.1
    (show (bareStatements? "3").map List.length = some 1 by decide +kernel)
  exact ⟨nodes, more, hnodes, hlength, hmore, hlength', hends, parse_joined hnodes hmore hends⟩

/-- Each of two texts is a program, and with a carriage return at the end of the first one they are none
together. -/
theorem parse_joined_return :
    (bareStatements? "1\x0d").map List.length = some 1 ∧
      (bareStatements? "2").map List.length = some 1 ∧
      (bareStatements? ("1\x0d" ++ "\n" ++ "2")).isNone := by
  decide +kernel

-- A line feed ends the comment behind the first statement, and the second one is lost in it.
example : (bareStatements? "1 // a; 2").map List.length = some 2 ∧
    (bareStatements? ("1 // a; 2" ++ "\n" ++ "3")).map List.length = some 2 := by
  decide +kernel

end SignalCalc.Syntax
