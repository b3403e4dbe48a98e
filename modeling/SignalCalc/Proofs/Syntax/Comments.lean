import SignalCalc.Proofs.Syntax.Loose
import SignalCalc.Proofs.Syntax.Programs

/-!
# Comments and the statements of a program

A comment should mean as much as a space.  It does so within a statement and before the first one.
Behind a statement it may mean more: the end of the statement is looked for in the comment too.  In
`1 // a; 2` nothing but the semicolon in the comment ends the first statement, so the comment stops
there and `2` is a second statement.  In `1 /* a */ 2 /* b */; 3` the first comment goes on to the
second closing, and `2` is read by nobody.

`parse_uncommented_iff` draws the line.  A text and the same text without comments have the
same statements exactly if each statement with another one behind it ends at a separator, where block
comments run to the first closing and line comments to the line feed, or if neither text parses.
-/

namespace SignalCalc.Syntax

open SignalCalc.Syntax.Grammar
open SignalCalc.Syntax.Layout
open SignalCalc.Syntax.Parser

variable {s s' text rest : List Char} {source : String} {n n' : ℕ}

/-- A source text with one space in the place of each comment. -/
def uncommented (source : String) : String := String.ofList (erased source.toList)

/-- The statements of a source text without their places, if it parses. -/
def bareStatements? (source : String) : Option (List Node) :=
  (parse source).toOption.map (·.map Node.bare)

/-- Statements are read one after the other from the first position on, up to the second one. -/
inductive Continues : Cursor → Cursor → Prop where
  | refl (c : Cursor) : Continues c c
  | step {c mid later : Cursor} {node : Node} : nextStatement c = some (node, mid) →
    Continues mid later → Continues c later

/-- A separator stands between each two statements from here on. -/
def SeparatedFrom (c : Cursor) : Prop :=
  ∀ d node later, Continues c d → nextStatement d = some (node, later) →
    ∃ sep, IsSeparator sep ∧ sep <+: d.rest

/-- A separator stands between each two statements of a source text. -/
def SeparatesStatements (source : String) : Prop :=
  ∀ node c, (skip between *> statement) (Cursor.start source) = some (node, c) → SeparatedFrom c

/-! ## Ends of statements -/

/-- The end of a statement and the layout behind it, where comments end as they do elsewhere. -/
def plainTerminator? (text : List Char) : Option (List Char) := (plainEnding? text).map between

lemma terminator?_of_plain (h : plainTerminator? text = some rest) :
    terminator? text = some rest := by
  obtain ⟨after, hafter, rfl⟩ := Option.map_eq_some_iff.1 h
  obtain ⟨sep, hsep, rfl⟩ := exists_separator_of_plainEnding? hafter
  exact terminator?_separator hsep after

lemma exists_separator_iff :
    (∃ sep, IsSeparator sep ∧ sep <+: text) ↔ ∃ rest, plainTerminator? text = some rest := by
  constructor
  · rintro ⟨sep, hsep, after, rfl⟩
    obtain ⟨found, hfound⟩ := Option.isSome_iff_exists.1 (isSome_plainEnding? hsep after)
    exact ⟨between found, by rw [plainTerminator?, hfound, Option.map_some]⟩
  · rintro ⟨rest, h⟩
    obtain ⟨after, hafter, -⟩ := Option.map_eq_some_iff.1 h
    obtain ⟨sep, hsep, rfl⟩ := exists_separator_of_plainEnding? hafter
    exact ⟨sep, hsep, List.prefix_append sep after⟩

/-- The end of a statement is never empty. -/
lemma ending?_length (h : ending? text = some rest) : rest.length < text.length := by
  have hrefl (more : List Char) : more <:+ more := List.suffix_refl more
  unfold ending? at h
  split at h
  · exact Nat.lt_succ_of_lt (Nat.lt_succ_of_le (endingComment?_suffix (hrefl _) h).length_le)
  · exact Nat.lt_succ_of_lt (Nat.lt_succ_of_le (endInLine_suffix (by simp) (hrefl _) h).length_le)
  · exact Nat.lt_succ_of_le (ending?_suffix (hrefl _) h).length_le
  · exact Nat.lt_succ_of_le (ending?_suffix (hrefl _) h).length_le
  · obtain rfl := Option.some.inj h
    exact Nat.lt_succ_self _
  · obtain rfl := Option.some.inj h
    exact Nat.lt_succ_self _
  · cases h

lemma terminator?_length (h : terminator? text = some rest) : rest.length < text.length := by
  obtain ⟨after, hafter, rfl⟩ := Option.map_eq_some_iff.1 h
  exact (between_suffix (List.suffix_refl after)).length_le.trans_lt (ending?_length hafter)

lemma Loose.terminator? (h : Loose s s') :
    Layout.terminator? s' = (plainTerminator? s).map erased := by
  rw [Layout.terminator?, plainTerminator?, h.ending?, Option.map_map, Option.map_map]
  exact congrArg (Option.map · (plainEnding? s)) (funext between_erased)

lemma scan_terminator_alike :
    ReadsAlike Loose n n' 1 (fun _ _ => True) (scan plainTerminator?) (scan terminator?) := by
  intro c c' hloose _ _
  have hterminator := hloose.terminator?
  cases hplain : plainTerminator? c.rest with
  | none =>
    rw [hplain] at hterminator
    rw [Fails.scan hplain c rfl, Fails.scan hterminator c' rfl]
    exact .none
  | some rest =>
    rw [hplain, Option.map_some] at hterminator
    have hlax := terminator?_of_plain hplain
    rw [scan_eq_some (u := ()).2 ⟨rest, hplain, rfl⟩,
      scan_eq_some (u := ()).2 ⟨_, hterminator, rfl⟩]
    refine .some ⟨trivial, ?_⟩
    rw [Cursor.rest_moveTo (terminator?_suffix (List.suffix_refl _) hlax),
      Cursor.rest_moveTo (terminator?_suffix (List.suffix_refl _) hterminator)]
    exact ⟨.inl rfl, terminator?_length hlax, terminator?_length hterminator⟩

/-! ## Statements up to their ends -/

/-- A statement behind the end of another one. -/
def statementBehind (terminator : List Char → Option (List Char)) : Parser Node :=
  scan terminator *> statement

/-- The statements of a program, without the layout behind the last one. -/
def statementsOf (terminator : List Char → Option (List Char)) : Parser (List Node) :=
  skip between *> sepBy statement (scan terminator)

/-- The statements of a source text without their places, if nothing but layout is left. -/
def readStatements? (terminator : List Char → Option (List Char)) (source : String) :
    Option (List Node) :=
  (statementsOf terminator (Cursor.start source)).bind fun r =>
    if between r.2.rest = [] then some (r.1.map Node.bare) else none

lemma program_eq (c : Cursor) : program c = (statementsOf terminator? c).map fun r =>
    (r.1, r.2.moveTo (between r.2.rest)) := by
  show ((statementsOf terminator? c).bind fun r => _) = _
  cases statementsOf terminator? c with
  | none => rfl
  | some r => rfl

lemma bareStatements?_eq (source : String) :
    bareStatements? source = readStatements? terminator? source := by
  unfold bareStatements? readStatements? parse
  rw [program_eq]
  generalize statementsOf terminator? (Cursor.start source) = read
  cases read with
  | none => rfl
  | some r =>
    obtain ⟨nodes, c⟩ := r
    have hrest := Cursor.rest_moveTo (between_suffix (List.suffix_refl c.rest))
    simp only [Option.map_some, Option.bind_some]
    generalize between c.rest = left at hrest ⊢
    generalize c.moveTo left = later at hrest ⊢
    obtain ⟨rest, line, col⟩ := later
    obtain rfl : rest = left := hrest
    cases rest with
    | nil => rfl
    | cons c rest => rfl

lemma statementsOf_alike : ReadsAlike Loose n n' 0 (List.Forall₂ SameTree)
    (statementsOf plainTerminator?) (statementsOf terminator?) := by
  have hskip : ReadsAlike Loose n n' 0 (fun _ _ => True) (skip between) (skip between) := by
    intro c c' hloose _ _
    have hsuffix := between_suffix (List.suffix_refl c.rest)
    have hsuffix' := between_suffix (List.suffix_refl c'.rest)
    refine .some ⟨trivial, ?_⟩
    rw [Cursor.rest_moveTo hsuffix, Cursor.rest_moveTo hsuffix']
    exact ⟨.inl hloose.between, hsuffix.length_le, hsuffix'.length_le⟩
  exact hskip.bind_empty fun _ _ _ =>
    (statement_alike tokenwise_loose).sepBy scan_terminator_alike

/-- A text without its comments is read like the text itself, if comments are kept out of the ends of
statements there. -/
lemma readStatements?_uncommented (source : String) :
    readStatements? terminator? (uncommented source) = readStatements? plainTerminator? source := by
  have hstart : (Cursor.start (uncommented source)).rest = erased source.toList :=
    String.toList_ofList
  have halike := statementsOf_alike (Cursor.start source) (Cursor.start (uncommented source))
    (.inl hstart) (Nat.lt_succ_self _) (Nat.lt_succ_self _)
  unfold readStatements?
  generalize statementsOf plainTerminator? (Cursor.start source) = read,
    statementsOf terminator? (Cursor.start (uncommented source)) = read' at halike ⊢
  cases halike with
  | none => rfl
  | some hread =>
    obtain ⟨hsame, hloose, -⟩ := hread
    rw [Option.bind_some, Option.bind_some, hloose.between, map_bare_eq hsame]
    simp only [erased_eq_nil_iff]

/-! ## Where separators stand -/

lemma statement_length {c later : Cursor} {node : Node} (h : statement c = some (node, later)) :
    later.rest.length ≤ c.rest.length := by
  have halike := statement_alike tokenwise_loose c ⟨erased c.rest, 1, 1⟩ (.inl rfl)
    (Nat.lt_succ_self _) (Nat.lt_succ_self _)
  rw [h] at halike
  generalize statement ⟨erased c.rest, 1, 1⟩ = read at halike
  cases halike with
  | some hread => exact hread.2.2.1

lemma nextStatement_length {c later : Cursor} {node : Node}
    (h : nextStatement c = some (node, later)) : later.rest.length < c.rest.length := by
  rw [nextStatement, seqRight_eq_bind, run_bind] at h
  obtain ⟨⟨u, mid⟩, hmid, hstatement⟩ := Option.bind_eq_some_iff.1 h
  obtain ⟨rest, hrest, rfl⟩ := scan_eq_some.1 hmid
  have hsuffix := Cursor.rest_moveTo (terminator?_suffix (List.suffix_refl _) hrest)
  have hle := statement_length hstatement
  rw [hsuffix] at hle
  exact hle.trans_lt (terminator?_length hrest)

lemma statementBehind_of_plain {c : Cursor} (h : plainTerminator? c.rest = some rest) :
    statementBehind plainTerminator? c = nextStatement c := by
  have hplain : scan plainTerminator? c = some ((), c.moveTo rest) := scan_eq_some.2 ⟨rest, h, rfl⟩
  have hlax : scan terminator? c = some ((), c.moveTo rest) :=
    scan_eq_some.2 ⟨rest, terminator?_of_plain h, rfl⟩
  exact (run_bind_of_some hplain).trans (run_bind_of_some (f := fun _ => statement) hlax).symm

lemma statementBehind_of_not_plain {c : Cursor} (h : plainTerminator? c.rest = none) :
    statementBehind plainTerminator? c = none :=
  Fails.seqRight (.scan h) c rfl

lemma separatedFrom_of_none {c : Cursor} (h : nextStatement c = none) : SeparatedFrom c := by
  intro d node later hreach hnext
  cases hreach with
  | refl =>
    rw [h] at hnext
    cases hnext
  | step hstep _ =>
    rw [h] at hstep
    cases hstep

lemma separatedFrom_iff {c later : Cursor} {node : Node} (h : nextStatement c = some (node, later)) :
    SeparatedFrom c ↔ (∃ sep, IsSeparator sep ∧ sep <+: c.rest) ∧ SeparatedFrom later := by
  constructor
  · intro hsep
    exact ⟨hsep c node later (.refl c) h, fun d node' last hreach hnext =>
      hsep d node' last (.step h hreach) hnext⟩
  · rintro ⟨hfirst, hlater⟩ d node' last hreach hnext
    cases hreach with
    | refl => exact hfirst
    | step hstep hreach =>
      rw [h] at hstep
      obtain ⟨-, rfl⟩ := Prod.mk.inj (Option.some.inj hstep)
      exact hlater d node' last hreach hnext

/-- The statements behind the first one are the same for both ways to end them, if separators stand
between them, and are more for the way that looks into comments otherwise. -/
lemma manyFrom_plain (c : Cursor) :
    (SeparatedFrom c ∧
      manyFrom (statementBehind plainTerminator?) c = manyFrom nextStatement c) ∨
    (¬SeparatedFrom c ∧ (manyFrom (statementBehind plainTerminator?) c).1.length <
      (manyFrom nextStatement c).1.length) := by
  induction hlength : c.rest.length using Nat.strongRecOn generalizing c with
  | ind k ih =>
    cases hplain : plainTerminator? c.rest with
    | none =>
      have hnone : ¬∃ sep, IsSeparator sep ∧ sep <+: c.rest := by
        rw [exists_separator_iff, hplain]
        exact nofun
      rw [manyFrom_of_none (statementBehind_of_not_plain hplain)]
      cases hnext : nextStatement c with
      | none => exact .inl ⟨separatedFrom_of_none hnext, (manyFrom_of_none hnext).symm⟩
      | some r =>
        rw [manyFrom_of_some hnext (nextStatement_length hnext), separatedFrom_iff hnext]
        exact .inr ⟨fun hsep => hnone hsep.1, Nat.zero_lt_succ _⟩
    | some rest =>
      have hsep := exists_separator_iff.2 ⟨rest, hplain⟩
      have hsame := statementBehind_of_plain hplain
      cases hnext : nextStatement c with
      | none =>
        rw [manyFrom_of_none hnext, manyFrom_of_none (hsame.trans hnext)]
        exact .inl ⟨separatedFrom_of_none hnext, rfl⟩
      | some r =>
        have hlt := nextStatement_length hnext
        rw [manyFrom_of_some hnext hlt, manyFrom_of_some (hsame.trans hnext) hlt,
          separatedFrom_iff hnext]
        refine (ih r.2.rest.length (hlength ▸ hlt) r.2 rfl).imp ?_ ?_
        · rintro ⟨hlater, heq⟩
          exact ⟨⟨hsep, hlater⟩, by rw [heq]⟩
        · rintro ⟨hlater, hshorter⟩
          exact ⟨fun hboth => hlater hboth.2, Nat.succ_lt_succ hshorter⟩

lemma statementsOf_eq (terminator : List Char → Option (List Char)) (c : Cursor) :
    statementsOf terminator c =
      match (skip between *> statement) c with
      | some (node, later) => some (node :: (manyFrom (statementBehind terminator) later).1,
          (manyFrom (statementBehind terminator) later).2)
      | none => some ([], c.moveTo (between c.rest)) := by
  have hsepBy : statementsOf terminator c =
      (maybe (sepBy1 statement (scan terminator)) (c.moveTo (between c.rest))).bind
        fun r => some (r.1.getD [], r.2) := rfl
  have hfirst : (skip between *> statement) c = statement (c.moveTo (between c.rest)) := rfl
  rw [hsepBy, hfirst, maybe]
  cases hread : statement (c.moveTo (between c.rest)) with
  | none =>
    have hone : sepBy1 statement (scan terminator) (c.moveTo (between c.rest)) = none :=
      run_bind_of_none hread
    rw [hone]
    rfl
  | some r =>
    have hone : sepBy1 statement (scan terminator) (c.moveTo (between c.rest)) =
        some (r.1 :: (manyFrom (statementBehind terminator) r.2).1,
          (manyFrom (statementBehind terminator) r.2).2) := run_bind_of_some hread
    rw [hone]
    rfl

lemma readStatements?_plain (source : String) :
    (SeparatesStatements source ∧
      readStatements? plainTerminator? source = readStatements? terminator? source) ∨
    (¬SeparatesStatements source ∧ ∀ nodes nodes',
      readStatements? plainTerminator? source = some nodes →
        readStatements? terminator? source = some nodes' → nodes.length < nodes'.length) := by
  unfold readStatements? SeparatesStatements
  rw [statementsOf_eq, statementsOf_eq]
  generalize (skip between *> statement) (Cursor.start source) = first
  cases first with
  | none => exact .inl ⟨nofun, rfl⟩
  | some r =>
    simp only [Option.bind_some]
    rcases manyFrom_plain r.2 with ⟨hsep, heq⟩ | ⟨hsep, hlt⟩
    · refine .inl ⟨?_, ?_⟩
      · intro node c hc
        obtain rfl := Option.some.inj hc
        exact hsep
      · rw [heq]
        rfl
    · refine .inr ⟨fun hall => hsep (hall r.1 r.2 rfl), fun nodes nodes' hnodes hnodes' => ?_⟩
      obtain ⟨-, hnodes⟩ := Option.ite_none_right_eq_some.1 hnodes
      obtain ⟨-, hnodes'⟩ := Option.ite_none_right_eq_some.1 hnodes'
      obtain rfl := Option.some.inj hnodes
      obtain rfl := Option.some.inj hnodes'
      rw [List.length_map, List.length_map]
      exact Nat.succ_lt_succ hlt

/-- A text and the same text without comments have the same statements exactly if separators stand
between the statements, or if neither text parses. -/
theorem parse_uncommented_iff (source : String) :
    bareStatements? (uncommented source) = bareStatements? source ↔
      SeparatesStatements source ∨
        (bareStatements? source = none ∧ bareStatements? (uncommented source) = none) := by
  rw [bareStatements?_eq, bareStatements?_eq, readStatements?_uncommented]
  rcases readStatements?_plain source with ⟨hsep, heq⟩ | ⟨hsep, hlt⟩
  · exact ⟨fun _ => .inl hsep, fun _ => heq⟩
  · constructor
    · intro heq
      cases hread : readStatements? terminator? source with
      | none => exact .inr ⟨rfl, heq.trans hread⟩
      | some nodes => exact absurd (hlt nodes nodes (heq.trans hread) hread) (Nat.lt_irrefl _)
    · rintro (hsep' | ⟨hnone, hnone'⟩)
      · exact absurd hsep' hsep
      · rw [hnone, hnone']

/-- A line comment at the end of the text may hold a statement: its last semicolon ends it. -/
theorem parse_uncommented_semicolon :
    (bareStatements? "1 // a; 2").map List.length = some 2 ∧
      (bareStatements? (uncommented "1 // a; 2")).map List.length = some 1 := by
  decide +kernel

-- A block comment goes on to the later closing, and hides what stands between.
example : (bareStatements? "1 /* a */ 2 /* b */; 3").map List.length = some 2 ∧
    (bareStatements? (uncommented "1 /* a */ 2 /* b */; 3")).isNone := by
  decide +kernel

end SignalCalc.Syntax
