import SignalCalc.Proofs.Syntax.CutEnds
import SignalCalc.Proofs.Syntax.Joined

/-!
# What stands in front of an error

Reading a program stops where no statement goes on, and an error stands there if layout is not all that
is left.  The text in front of an error is a program, too: each of its statements is read as before,
since it ends in front of the error, and no other statement is read behind the last one.

The last part needs a condition.  What looks for the end of a statement may take the last two characters
of `/*/` for a closing, and in the text up to the error it goes on from there if the closing that it finds
in the whole text stands behind the error (`parse_error_stretched`).
-/

namespace SignalCalc.Syntax

open SignalCalc.Syntax.Grammar
open SignalCalc.Syntax.Layout
open SignalCalc.Syntax.Parser
open SignalCalc.Text

variable {source : String} {more before text : List Char} {c c' later : Cursor} {node : Node}
  {statements : List Node}

/-! ## Where reading stops -/

lemma statement_fails_of_noExpression (h : NoExpression text) : statement.Fails text := by
  have hname : name.Fails text := by
    refine name_fails (Token.name_eq_none fun x hx => ?_)
    have hstart := h.head x hx
    simp only [Token.startsPrimary, Bool.or_eq_false_iff] at hstart
    exact hstart.1.2
  exact .orElse (.bind (.located (.bind hname))) (.orElse (.bind (.located (.bind hname)))
    (expression_fails_of_noExpression h))

lemma nextStatement_stays : nextStatement.Stays source :=
  .seqRight (scan_stays _) statement_ensures.stays

lemma statementsOf_of_none (h : (skip between *> statement) c = none) :
    statementsOf terminator? c = some ([], c.moveTo (between c.rest)) := by
  rw [statementsOf_eq, h]

lemma statementsOf_of_some (h : (skip between *> statement) c = some (node, later)) :
    statementsOf terminator? c =
      some (node :: (manyFrom nextStatement later).1, (manyFrom nextStatement later).2) := by
  rw [statementsOf_eq, h]
  rfl

/-- A text is a program if layout alone is left where reading stops. -/
lemma parse_of_stop (h : statementsOf terminator? (Cursor.start source) = some (statements, later))
    (hend : between later.rest = []) : parse source = .ok statements := by
  refine parse_eq_ok.2 ⟨later.moveTo (between later.rest), ?_, ?_⟩
  · rw [program_eq, h, Option.map_some]
  · rw [rest_moveTo_between later (List.suffix_refl _), hend]

/-- What an error shows is what is left, behind layout, where reading stops. -/
lemma exists_stop_of_parse_error {e : ParseError} (h : parse source = .error e) :
    ∃ statements later, statementsOf terminator? (Cursor.start source) = some (statements, later) ∧
      between later.rest = e.rest := by
  obtain ⟨statements, last, hrun⟩ := exists_program (Cursor.start source)
  have hrun' := hrun
  rw [program_eq, Option.map_eq_some_iff] at hrun'
  obtain ⟨⟨statements', later⟩, hread, hlast⟩ := hrun'
  obtain ⟨rfl, rfl⟩ := Prod.mk.inj hlast
  refine ⟨statements', later, hread, ?_⟩
  rw [← rest_moveTo_between later (List.suffix_refl _)]
  unfold parse at h
  rw [hrun] at h
  split at h
  · cases h
  · rename_i heq
    obtain ⟨-, rfl⟩ := Prod.mk.inj (Option.some.inj heq)
    exact congrArg ParseError.rest (Except.error.inj h)
  · rename_i hnone
    cases hnone

/-! ## Statements in front of a cut -/

lemma suffix_of_cut {rest : List Char} (hrest : rest <:+ text ++ more) (hle : more.length ≤ rest.length) :
    ∃ front, rest = front ++ more := by
  obtain ⟨front, hfront⟩ := List.suffix_of_suffix_length_le (List.suffix_append text more) hrest hle
  exact ⟨front, hfront.symm⟩

/-- A statement behind layout that ends in front of the cut is read in the beginning, too. -/
lemma statement_cut (hmore : more ≠ []) (hc : c.StandsIn source) (hcut : c.rest = c'.rest ++ more)
    (htext : text <:+ c'.rest) (h : statement (c.moveTo (between (text ++ more))) = some (node, later))
    (hle : more.length ≤ later.rest.length) :
    ∃ node' later', statement (c'.moveTo (between text)) = some (node', later') ∧
      later.rest = later'.rest ++ more := by
  obtain ⟨front, hfront⟩ := htext
  have hrest : (c.moveTo (between (text ++ more))).rest = between (text ++ more) :=
    rest_moveTo_between c ⟨front, by rw [← List.append_assoc, hfront, hcut]⟩
  have hrest' : (c'.moveTo (between text)).rest = between text := rest_moveTo_between c' ⟨front, hfront⟩
  have hlater := (statement_ensures _ _ _ (hc.moveTo _) h).1.2
  rcases between_cut text hmore with hbetween | ⟨hlt, -⟩
  · have hrun := statement_readsCut.run (c.moveTo (between (text ++ more))) (c'.moveTo (between text))
      (hc.moveTo _) (by rw [hrest, hrest', hbetween]) (Nat.lt_succ_self _) (Nat.lt_succ_self _)
    rw [h] at hrun
    generalize statement (c'.moveTo (between text)) = read at hrun ⊢
    cases hrun with
    | within hrest _ => exact ⟨_, _, rfl, hrest⟩
    | beyond_fail hshort => exact absurd hle (Nat.not_le_of_lt hshort)
    | beyond hshort _ => exact absurd hle (Nat.not_le_of_lt hshort)
  · rw [hrest] at hlater
    omega

/-- A statement that ends in front of the cut is the next one in the beginning, too. -/
lemma nextStatement_cut (hmore : more ≠ []) (hc : c.StandsIn source) (hcut : c.rest = c'.rest ++ more)
    (h : nextStatement c = some (node, later)) (hle : more.length ≤ later.rest.length) :
    ∃ node' later', nextStatement c' = some (node', later') ∧ later.rest = later'.rest ++ more := by
  rw [nextStatement, seqRight_eq_bind, run_bind] at h
  obtain ⟨⟨u, mid⟩, hmid, hstatement⟩ := Option.bind_eq_some_iff.1 h
  obtain ⟨t, ht, rfl⟩ := scan_eq_some.1 hmid
  obtain ⟨r, hr, rfl⟩ := Option.map_eq_some_iff.1 ht
  have hsuffix : r <:+ c.rest := ending?_suffix (List.suffix_refl _) hr
  have hlater := (statement_ensures _ _ _ (hc.moveTo _) hstatement).1.2
  rw [rest_moveTo_between c hsuffix] at hlater
  have hlength := (between_suffix (List.suffix_refl r)).length_le
  -- The statement before it ends in front of the cut.
  rw [hcut] at hsuffix hr
  obtain ⟨found, rfl⟩ := suffix_of_cut hsuffix (by omega)
  have hfound : ending? c'.rest = some found := ends_cut.1 hr
  obtain ⟨node', later', hread, hrest⟩ := statement_cut hmore hc hcut
    (ending?_suffix (List.suffix_refl _) hfound) hstatement hle
  refine ⟨node', later', ?_, hrest⟩
  have hscan : scan terminator? c' = some ((), c'.moveTo (between found)) :=
    scan_eq_some.2 ⟨_, by rw [terminator?, hfound, Option.map_some], rfl⟩
  exact (run_bind_of_some (f := fun _ => statement) hscan).trans hread

/-- Behind the last statement there is layout up to the cut, and no statement in the beginning. -/
lemma nextStatement_last (hmore : more ≠ []) (hc : c.StandsIn source) (hcut : c.rest = c'.rest ++ more)
    (h : nextStatement c = none) (hend : between c.rest = more)
    (hslash : ¬['/', '*', '/'] <:+: c'.rest) : nextStatement c' = none ∧ between c'.rest = [] := by
  have hblank : IsBlank c'.rest := by
    obtain ⟨b, hb, ⟨hrest, -⟩ | ⟨-, -, -, hnil⟩⟩ := exists_blank_between c.rest
    · rw [hend, hcut] at hrest
      exact List.append_cancel_right hrest ▸ hb
    · exact absurd (hend.symm.trans hnil) hmore
  refine ⟨?_, ?_⟩
  · cases hending : ending? c'.rest with
    | none => exact Fails.seqRight (.scan (by rw [terminator?, hending]; rfl)) c' rfl
    | some found =>
      have hfound : ending? c.rest = some (found ++ more) := by
        rw [hcut]
        exact ending?_blank_append hblank hslash hending
      have hscan : scan terminator? c = some ((), c.moveTo (between (found ++ more))) :=
        scan_eq_some.2 ⟨_, by rw [terminator?, hfound, Option.map_some], rfl⟩
      have hscan' : scan terminator? c' = some ((), c'.moveTo (between found)) :=
        scan_eq_some.2 ⟨_, by rw [terminator?, hending, Option.map_some], rfl⟩
      have hnone : statement (c.moveTo (between (found ++ more))) = none :=
        (run_bind_of_some (f := fun _ => statement) hscan).symm.trans h
      refine (run_bind_of_some (f := fun _ => statement) hscan').trans ?_
      have hrest := rest_moveTo_between c (ending?_suffix (List.suffix_refl _) hfound)
      have hrest' := rest_moveTo_between c' (ending?_suffix (List.suffix_refl _) hending)
      rcases between_cut found hmore with hbetween | ⟨-, hspent⟩
      · have hrun := statement_readsCut.run (c.moveTo (between (found ++ more)))
          (c'.moveTo (between found)) (hc.moveTo _) (by rw [hrest, hrest', hbetween])
          (Nat.lt_succ_self _) (Nat.lt_succ_self _)
        rw [hnone] at hrun
        generalize statement (c'.moveTo (between found)) = read at hrun ⊢
        cases hrun with
        | fail => rfl
      · exact statement_fails_of_noExpression hspent.noExpression _ hrest'
  · have hnil := between_blank hblank []
    rwa [List.append_nil] at hnil

/-- Reading the beginning stops with layout alone left if reading the text stops at the cut. -/
lemma manyFrom_cut (hmore : more ≠ []) (hc : c.StandsIn source)
    (hc' : c'.StandsIn (String.ofList before)) (hcut : c.rest = c'.rest ++ more)
    (hend : between (manyFrom nextStatement c).2.rest = more) (hslash : ¬['/', '*', '/'] <:+: before) :
    between (manyFrom nextStatement c').2.rest = [] := by
  induction hlength : c.rest.length using Nat.strongRecOn generalizing c c' with
  | ind k ih =>
    cases hnext : nextStatement c with
    | none =>
      rw [manyFrom_of_none hnext] at hend
      obtain ⟨front, hfront, -⟩ := hc'
      rw [String.toList_ofList] at hfront
      obtain ⟨hnone, hnil⟩ := nextStatement_last hmore hc hcut hnext hend fun hoccurs =>
        hslash (hoccurs.trans ⟨front, [], by rw [List.append_nil, hfront]⟩)
      rw [manyFrom_of_none hnone]
      exact hnil
    | some r =>
      obtain ⟨node, later⟩ := r
      have hlt := nextStatement_length hnext
      rw [manyFrom_of_some hnext hlt] at hend
      have hlater := (nextStatement_stays c node later hc hnext).1.1
      have hstop := (Ensures.many nextStatement_stays later _ _ hlater rfl).1.2
      have hleft := (between_suffix (List.suffix_refl (manyFrom nextStatement later).2.rest)).length_le
      obtain ⟨node', later', hread, hrest⟩ := nextStatement_cut hmore hc hcut hnext
        ((hend ▸ hleft).trans hstop)
      have hlater' := (nextStatement_stays c' node' later' hc' hread).1.1
      rw [manyFrom_of_some hread (nextStatement_length hread)]
      exact ih _ (hlength ▸ hlt) hlater hlater' hrest hend rfl

/-- The text in front of an error is a program. -/
lemma parse_before {e : ParseError} (h : parse source = .error e)
    (hsource : source.toList = before ++ e.rest) (hslash : ¬['/', '*', '/'] <:+: before) :
    ∃ statements, parse (String.ofList before) = .ok statements := by
  have hne := (standsIn_of_parse_error h).2
  obtain ⟨statements, stop, hread, hend⟩ := exists_stop_of_parse_error h
  have hstart := Cursor.start_standsIn source
  have hstart' := Cursor.start_standsIn (String.ofList before)
  have hcut : (Cursor.start source).rest = (Cursor.start (String.ofList before)).rest ++ e.rest := by
    show source.toList = (String.ofList before).toList ++ e.rest
    rw [String.toList_ofList, hsource]
  have hbefore : (Cursor.start (String.ofList before)).rest = before := String.toList_ofList
  cases hfirst : (skip between *> statement) (Cursor.start source) with
  | none =>
    rw [statementsOf_of_none hfirst] at hread
    obtain ⟨-, rfl⟩ := Prod.mk.inj (Option.some.inj hread)
    rw [rest_moveTo_between _ (List.suffix_refl _), between_between] at hend
    -- Layout stands in front of the error alone.
    have hnil : between before = [] := by
      obtain ⟨b, hb, ⟨hrest, -⟩ | ⟨-, -, -, hnil⟩⟩ := exists_blank_between source.toList
      · have hend : between source.toList = e.rest := hend
        rw [hend, hsource] at hrest
        rw [List.append_cancel_right hrest, ← List.append_nil b, between_blank hb]
        rfl
      · exact absurd (hend.symm.trans hnil) hne
    have hstop : ((Cursor.start (String.ofList before)).moveTo
        (between (Cursor.start (String.ofList before)).rest)).rest = [] := by
      rw [rest_moveTo_between _ (List.suffix_refl _), hbefore, hnil]
    have hfails : (skip between *> statement) (Cursor.start (String.ofList before)) = none :=
      statement_fails_nil _ hstop
    exact ⟨[], parse_of_stop (statementsOf_of_none hfails) (hstop.symm ▸ rfl)⟩
  | some r =>
    obtain ⟨node, later⟩ := r
    rw [statementsOf_of_some hfirst] at hread
    obtain ⟨-, rfl⟩ := Prod.mk.inj (Option.some.inj hread)
    have hfirst : statement ((Cursor.start source).moveTo
        (between ((Cursor.start (String.ofList before)).rest ++ e.rest))) = some (node, later) :=
      hcut ▸ hfirst
    have hlater := (statement_ensures _ _ _ (hstart.moveTo _) hfirst).1.1
    have hstop := (Ensures.many nextStatement_stays later _ _ hlater rfl).1.2
    have hleft := (between_suffix (List.suffix_refl (manyFrom nextStatement later).2.rest)).length_le
    obtain ⟨node', later', hread, hrest⟩ := statement_cut hne hstart hcut (List.suffix_refl _) hfirst
      ((hend ▸ hleft).trans hstop)
    have hlater' := (statement_ensures _ _ _ (hstart'.moveTo _) hread).1.1
    have hfirst' : (skip between *> statement) (Cursor.start (String.ofList before)) =
      some (node', later') := hread
    have hnil := manyFrom_cut hne hlater hlater' hrest hend hslash
    exact ⟨_, parse_of_stop (statementsOf_of_some hfirst') hnil⟩

/-! ## What an error says -/

/-- The first bytes of a text are a beginning of it, with a sign for each byte of a broken character. -/
lemma exists_cutBytesFrom (limit : ℕ) (text : List Char) : ∃ quoted k,
    cutBytesFrom limit text = quoted ++ List.replicate k replacement ∧ quoted <+: text ∧ k < 4 ∧
      (quoted = text ∧ k = 0 ∨ (quoted.map Char.utf8Size).sum + k = limit) := by
  induction text generalizing limit with
  | nil => exact ⟨[], 0, rfl, List.prefix_refl [], by decide, .inl ⟨rfl, rfl⟩⟩
  | cons c text ih =>
    rw [cutBytesFrom]
    split
    · obtain ⟨quoted, k, hcut, hprefix, hk, hbytes⟩ := ih (limit - c.utf8Size)
      refine ⟨c :: quoted, k, by rw [hcut, List.cons_append], List.cons_prefix_cons.2 ⟨rfl, hprefix⟩,
        hk, ?_⟩
      refine hbytes.imp (fun ⟨hwhole, hk⟩ => ⟨by rw [hwhole], hk⟩) fun hsum => ?_
      rw [List.map_cons, List.sum_cons]
      omega
    · rename_i hsize
      have hlt := Nat.lt_of_not_le hsize
      exact ⟨[], limit, rfl, List.nil_prefix, hlt.trans_le (Char.utf8Size_le_four c),
        .inr (Nat.zero_add limit)⟩

/-- The error stands behind a text: at its line and column, at a character that no layout between
statements has, and its message shows the line from there on, or as much of it as twenty bytes hold. -/
structure ParseError.StandsBehind (e : ParseError) (source : String) (before : List Char) : Prop where
  source : source.toList = before ++ e.rest
  line : e.line = lineAfter before
  col : e.col = columnAfter before
  starts : ∃ c after, e.rest = c :: after ∧ c ≠ ';' ∧ isSpace c = false
  shows : ∃ quoted k, quoted ≠ [] ∧ quoted <+: e.rest.takeWhile (· != '\n') ∧ k < 4 ∧
    (quoted = e.rest.takeWhile (· != '\n') ∧ k = 0 ∨ (quoted.map Char.utf8Size).sum + k = 20) ∧
    e.message = "Parse Error in input text at L" ++ toString e.line ++ ":C" ++ toString e.col ++
      ". Rule 'program' parsed successfully, but failed to consume the entire input. " ++
      "Unconsumed text begins with: '" ++ String.ofList (quoted ++ List.replicate k replacement) ++
      "...'"

lemma starts_of_parse_error {e : ParseError} (h : parse source = .error e) :
    ∃ c after, e.rest = c :: after ∧ c ≠ ';' ∧ isSpace c = false := by
  obtain ⟨-, stop, -, hend⟩ := exists_stop_of_parse_error h
  have hne := (standsIn_of_parse_error h).2
  obtain ⟨-, -, ⟨-, hstarts⟩ | ⟨-, -, -, hnil⟩⟩ := exists_blank_between stop.rest
  · rw [hend] at hstarts
    cases hrest : e.rest with
    | nil => exact absurd hrest hne
    | cons c after =>
      rw [hrest] at hstarts
      refine ⟨c, after, rfl, ?_⟩
      cases hstarts with
      | opening => decide
      | cons hc => simpa [isBetweenBlank, and_comm] using hc
  · exact absurd (hend.symm.trans hnil) hne

lemma shows_of_parse_error {e : ParseError} (h : parse source = .error e) :
    ∃ quoted k, quoted ≠ [] ∧ quoted <+: e.rest.takeWhile (· != '\n') ∧ k < 4 ∧
      (quoted = e.rest.takeWhile (· != '\n') ∧ k = 0 ∨ (quoted.map Char.utf8Size).sum + k = 20) ∧
      e.excerpt = String.ofList (quoted ++ List.replicate k replacement) := by
  obtain ⟨c, after, hrest, -, hspace⟩ := starts_of_parse_error h
  have hline : e.rest.takeWhile (· != '\n') = c :: after.takeWhile (· != '\n') := by
    rw [hrest, List.takeWhile_cons_of_pos]
    simp only [bne_iff_ne, ne_eq]
    rintro rfl
    exact absurd hspace (by decide)
  obtain ⟨quoted, k, hcut, hprefix, hk, hbytes⟩ := exists_cutBytesFrom 20 (e.rest.takeWhile (· != '\n'))
  refine ⟨quoted, k, ?_, hprefix, hk, hbytes, by rw [ParseError.excerpt, cutBytes, hcut]⟩
  rintro rfl
  rcases hbytes with ⟨hwhole, -⟩ | hsum
  · rw [hline] at hwhole
    cases hwhole
  · rw [List.map_nil, List.sum_nil] at hsum
    omega

/-- **A parse error points behind a program.**  Whatever text does not parse, the error stands in it at a
character that no layout between statements has, and shows the text from there on.  The text in front of
it is a program, unless it has `/*/` in it. -/
theorem parse_error_position {e : ParseError} (h : parse source = .error e) :
    ∃ before, e.StandsBehind source before ∧ (¬['/', '*', '/'] <:+: before →
      ∃ statements, parse (String.ofList before) = .ok statements) := by
  obtain ⟨before, hsource, hline, hcol⟩ := (standsIn_of_parse_error h).1
  obtain ⟨quoted, k, hne, hprefix, hk, hbytes, hexcerpt⟩ := shows_of_parse_error h
  have hmessage : e.message = "Parse Error in input text at L" ++ toString e.line ++ ":C" ++
      toString e.col ++
      ". Rule 'program' parsed successfully, but failed to consume the entire input. " ++
      "Unconsumed text begins with: '" ++ String.ofList (quoted ++ List.replicate k replacement) ++
      "...'" := by
    unfold ParseError.message
    rw [hexcerpt]
  have hstands : e.StandsBehind source before :=
    ⟨hsource, hline, hcol, starts_of_parse_error h, quoted, k, hne, hprefix, hk, hbytes, hmessage⟩
  exact ⟨before, hstands, parse_before h hsource⟩

/-- The error of a text that does not parse. -/
def parseError? (source : String) : Option ParseError :=
  match parse source with
  | .error e => some e
  | .ok _ => none

lemma parseError?_eq_some {e : ParseError} : parseError? source = some e ↔ parse source = .error e := by
  unfold parseError?
  generalize parse source = read
  cases read with
  | ok statements => simp
  | error e' => simp

/-- A parenthesis that is open behind a comment. -/
theorem parse_error_position_open : ∃ e, parse "x = 1; // a\n (2" = .error e ∧
    ∃ before, e.StandsBehind "x = 1; // a\n (2" before ∧ e.line = 2 ∧ e.col = 2 ∧
      ∃ statements, parse (String.ofList before) = .ok statements := by
  have hparse : parse "x = 1; // a\n (2" = .error ⟨2, 2, ['(', '2']⟩ :=
    parseError?_eq_some.1 (by decide +kernel)
  obtain ⟨before, hstands, hprogram⟩ := parse_error_position hparse
  refine ⟨_, hparse, before, hstands, rfl, rfl, hprogram ?_⟩
  have hbefore : before = "x = 1; // a\n ".toList :=
    List.append_cancel_right (hstands.source.symm.trans (by decide +kernel))
  rw [hbefore]
  decide +kernel

/-- In front of the error a comment is open in the line comment, and closed behind the error.  Without
what is behind the error the end of the statement is looked for in the line comment again, and a number is
read there. -/
theorem parse_error_stretched :
    parseError? ("1/**/\x0d//*//*/;2)\n" ++ ")*/;") = some ⟨2, 1, ")*/;".toList⟩ ∧
      (parseError? "1/**/\x0d//*//*/;2)\n").isSome := by
  decide +kernel

end SignalCalc.Syntax
