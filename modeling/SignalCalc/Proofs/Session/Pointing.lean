import SignalCalc.Proofs.Evaluation.Blame
import SignalCalc.Proofs.Session.Excerpt
import SignalCalc.Proofs.Session.Kept

/-!
# What error messages point at

An error belongs to a node, or to text that is no part of a program.  Either was read from a source
text, though not always from the one that is run: a function that an earlier text defined fails at a
node of that text.  The excerpt in the message is cut from the text that is run in any case.

So a message points at the token of its error if the token stands in the text that is run, and if the
lines in front of it end plainly (`handle_pointing`).  A token of an earlier text is pointed at in a
text that does not hold it (`handle_pointing_definedEarlier`).
-/

namespace SignalCalc

open SignalCalc.Syntax
open SignalCalc.Evaluation
open SignalCalc.Session
open SignalCalc.Text
open List

/-- The node is a part of the program that a text is read as. -/
def Syntax.Node.IsReadIn (origin : String) (node : Node) : Prop :=
  ∃ statements, parse origin = .ok statements ∧ node ∈ Node.partsOf statements

/-- The token of an error, with its place and its text, was read in a source text.  The token of a
text that is no program is what is left over of it. -/
def Result.HasToken (origin : String) (loc : Location) (text : List Char) : Result → Prop
  | .value _ => False
  | .failed _ node _ =>
    node.IsReadIn origin ∧ node.loc = some loc ∧ loc.text = some (String.ofList text)
  | .malformed e =>
    parse origin = .error e ∧ loc.line = e.line ∧ loc.col = e.col ∧ text = e.rest

/-- A text stands in the source at a place. -/
def StandsAt (source : String) (loc : Location) (before text after : List Char) : Prop :=
  source.toList = before ++ text ++ after ∧ loc.line = lineAfter before ∧ loc.col = columnAfter before

/-- The message holds an excerpt of the source that marks the line around a text, with a caret under
the text. -/
def ShowsAt (message source : String) (loc : Location) (before text after : List Char) : Prop :=
  ∃ head tail : String, message = head ++ excerpt source loc.line loc.col ++ tail ∧
    PointsAt (excerpt source loc.line loc.col) loc.line loc.col
      (lastLine before ++ firstLine (text ++ after)) ∧
    firstLine text <+: (lastLine before ++ firstLine (text ++ after)).drop (loc.col - 1)

/-- A statement that failed is reported at one of some nodes. -/
def Result.IsWithin (N : Node → Prop) : Result → Prop
  | .value _ => True
  | .failed _ node _ => N node
  | .malformed _ => False

namespace Session

variable {N : Node → Prop} {s : Session} {m : Machine} {statements : List Node} {source : String}
  {texts : List String}

/-- The texts that a session has run, the last one first. -/
inductive HasRun : Session → List String → Prop where
  | bare : HasRun bare []
  | fresh : HasRun fresh [prelude]
  | handle {s : Session} {texts : List String} (source : String) :
    HasRun s texts → HasRun (s.handle source).2 (source :: texts)

/-! ## Nodes of errors -/

/-- The node is a part of one of the programs. -/
def IsReadInOne (texts : List String) (node : Node) : Prop := ∃ origin ∈ texts, node.IsReadIn origin

lemma readsWithin_of_mem (hmem : source ∈ texts) : ReadsWithin (IsReadInOne texts) source :=
  fun statements h _ => Node.isWithin_of_mem fun _ hpart => ⟨source, hmem, statements, h, hpart⟩

lemma isWithin_cons (source : String) {store : Store}
    (h : store.All (Value.IsWithin (IsReadInOne texts))) :
    store.All (Value.IsWithin (IsReadInOne (source :: texts))) := by
  intro scope hscope entry hentry
  have hvalue := h scope hscope entry hentry
  generalize entry.2 = v at hvalue
  cases v with
  | function f =>
    cases f with
    | user f =>
      intro part hpart
      obtain ⟨origin, hmem, hread⟩ := hvalue part hpart
      exact ⟨origin, mem_cons_of_mem _ hmem, hread⟩
    | real | constructor => exact trivial
  | _ => exact trivial

/-- The next text fails at nodes of its own or of functions from texts before. -/
lemma handle_staysWithin (hs : s.machine.store.All (Value.IsWithin (IsReadInOne texts)))
    (source : String) :
    (s.handle source).2.machine.store.All (Value.IsWithin (IsReadInOne (source :: texts))) ∧
      ∀ result ∈ (s.handle source).1, result.IsWithin (IsReadInOne (source :: texts)) ∨
        ∃ e, result = .malformed e ∧ parse source = .error e := by
  obtain ⟨hlast, hresults⟩ := handle_keeps isWithin_lasting (isWithin_cons source hs)
    (readsWithin_of_mem mem_cons_self)
  refine ⟨hlast, fun result hresult => (hresults result hresult).imp_left fun hkept => ?_⟩
  cases result with
  | value => exact trivial
  | failed | malformed => exact hkept

lemma evaluate_staysWithin (hs : s.machine.store.All (Value.IsWithin (IsReadInOne texts)))
    (source : String) :
    (s.evaluate source).2.cleared.store.All (Value.IsWithin (IsReadInOne (source :: texts))) :=
  (evaluate_keeps isWithin_lasting (isWithin_cons source hs) (readsWithin_of_mem mem_cons_self)).1

lemma HasRun.isWithin (h : s.HasRun texts) :
    s.machine.store.All (Value.IsWithin (IsReadInOne texts)) := by
  induction h with
  | bare => exact bare_keeps isWithin_lasting
  | fresh => exact evaluate_staysWithin (bare_keeps isWithin_lasting) prelude
  | handle source _ ih => exact (handle_staysWithin ih source).1

/-! ## Messages -/

lemma ofFailure_eq_ok {cause : Cause} {node : Node} {frames : List Frame} {message : String}
    {place : Option Location} {loc : Location} (hloc : node.loc = some loc)
    (h : Report.ofFailure source cause node frames = .ok (.error message place)) :
    place = some loc ∧ ∃ head tail : String,
      message = head ++ excerpt source loc.line loc.col ++ tail := by
  unfold Report.ofFailure at h
  rw [hloc] at h
  split at h
  · obtain ⟨rfl, rfl⟩ := Report.error.inj (Except.ok.inj h)
    exact ⟨rfl, _, "", String.append_empty.symm⟩
  · cases hstack : Report.stackText frames with
    | error e =>
      rw [hstack] at h
      cases h
    | ok stack =>
      rw [hstack] at h
      obtain ⟨rfl, rfl⟩ := Report.error.inj (Except.ok.inj h)
      exact ⟨rfl, _, "\n" ++ stack, by rw [← String.append_assoc]; rfl⟩

/-- A message that holds an excerpt of the source at a place shows the text there. -/
lemma showsAt_of_excerpt {message head tail : String} {loc : Location}
    {before text after : List Char}
    (hmessage : message = head ++ excerpt source loc.line loc.col ++ tail)
    (hstands : StandsAt source loc before text after) (htext : text ≠ [])
    (hplain : hasPlainEnds before = true) : ShowsAt message source loc before text after := by
  obtain ⟨hsource, hline, hcol⟩ := hstands
  refine ⟨head, tail, hmessage, ?_, ?_⟩
  · rw [hline, hcol]
    exact excerpt_pointsAt (by rw [hsource, append_assoc]) hplain
      (append_ne_nil_of_left_ne_nil htext after)
  · rw [hcol, columnAfter_eq, Nat.add_sub_cancel, drop_left]
    exact firstLine_prefix text after

lemma isPlacedIn_of_isReadIn {origin : String} {node : Node} (h : node.IsReadIn origin) :
    node.IsPlacedIn origin := by
  obtain ⟨statements, hparse, hpart⟩ := h
  obtain ⟨statement, hstatement, hmem⟩ := Node.mem_partsOf.1 hpart
  exact ((isReadStatement_of_parse hparse statement hstatement).2.parts node hmem).2

/-- A token was read at its place. -/
lemma exists_standsAt_of_hasToken {origin : String} {loc : Location} {text : List Char}
    {result : Result} (h : result.HasToken origin loc text) :
    text ≠ [] ∧ ∃ before after, StandsAt origin loc before text after := by
  cases result with
  | value v => exact h.elim
  | failed cause node frames =>
    obtain ⟨hread, hloc, htext⟩ := h
    obtain ⟨loc', hloc', before, text', after, hsource, hne, hline, hcol, htext'⟩ :=
      isPlacedIn_of_isReadIn hread
    obtain rfl := Option.some.inj (hloc.symm.trans hloc')
    obtain rfl : text = text' := String.ofList_inj.1 (Option.some.inj (htext.symm.trans htext'))
    exact ⟨hne, before, after, hsource, hline, hcol⟩
  | malformed e =>
    obtain ⟨hparse, hline, hcol, rfl⟩ := h
    obtain ⟨⟨before, hsource, hline', hcol'⟩, hne⟩ := standsIn_of_parse_error hparse
    exact ⟨hne, before, [], by rw [hsource, append_nil], hline.trans hline', hcol.trans hcol'⟩

/-- An error has a token of the text that is run or of one before, and its message an excerpt at the
place of the token. -/
lemma exists_token (hs : s.HasRun texts) {result : Result} (hresult : result ∈ (s.handle source).1)
    {message : String} {place : Option Location}
    (hreport : Report.ofResult source result = .ok (.error message place)) :
    ∃ loc text, place = some loc ∧ (∃ origin ∈ source :: texts, result.HasToken origin loc text) ∧
      ∃ head tail : String, message = head ++ excerpt source loc.line loc.col ++ tail := by
  have hwithin := (handle_staysWithin hs.isWithin source).2 result hresult
  cases result with
  | value v =>
    rw [Report.ofResult] at hreport
    cases htext : v.text with
    | ok text =>
      rw [htext] at hreport
      cases hreport
    | error e =>
      rw [htext] at hreport
      cases hreport
  | failed cause node frames =>
    have hnode : IsReadInOne (source :: texts) node := by
      obtain hnode | ⟨e, heq, -⟩ := hwithin
      · exact hnode
      · cases heq
    obtain ⟨origin, hmem, hread⟩ := hnode
    obtain ⟨loc, hloc, -, text, -, -, -, -, -, htext⟩ := isPlacedIn_of_isReadIn hread
    obtain ⟨hplace, hmessage⟩ := ofFailure_eq_ok hloc hreport
    exact ⟨loc, text, hplace, ⟨origin, hmem, hread, hloc, htext⟩, hmessage⟩
  | malformed e =>
    obtain ⟨_, ⟨rfl⟩, hparse⟩ := hwithin.resolve_left id
    obtain ⟨rfl, rfl⟩ := Report.error.inj (Except.ok.inj hreport)
    exact ⟨_, e.rest, rfl, ⟨source, mem_cons_self, hparse, rfl, rfl, rfl⟩, _, "",
      String.append_empty.symm⟩

/-- **Messages point at their tokens.**  The error of a text belongs to a token of this text or of one
that was run before.  Where the token stands in the text that is run, behind lines that end plainly, the
excerpt in the message marks its line alone, and the line reads like the token from the caret on. -/
theorem handle_pointing (hs : s.HasRun texts) {result : Result} (hresult : result ∈ (s.handle source).1)
    {message : String} {place : Option Location}
    (hreport : Report.ofResult source result = .ok (.error message place)) :
    ∃ loc text, place = some loc ∧ text ≠ [] ∧
      (∃ origin ∈ source :: texts, result.HasToken origin loc text ∧
        ∃ before after, StandsAt origin loc before text after) ∧
      ∀ before after, StandsAt source loc before text after → hasPlainEnds before = true →
        ShowsAt message source loc before text after := by
  obtain ⟨loc, text, hplace, ⟨origin, hmem, htoken⟩, head, tail, hmessage⟩ :=
    exists_token hs hresult hreport
  obtain ⟨hne, hstands⟩ := exists_standsAt_of_hasToken htoken
  exact ⟨loc, text, hplace, hne, ⟨origin, hmem, htoken, hstands⟩, fun before after hat hplain =>
    showsAt_of_excerpt hmessage hat hne hplain⟩

/-- The message and the place of the error that a result is reported as. -/
def errorOf? (source : String) (result : Result) : Option (String × Option Location) :=
  match Report.ofResult source result with
  | .ok (.error message place) => some (message, place)
  | _ => none

lemma ofResult_of_errorOf? {result : Result} {message : String} {place : Option Location}
    (h : errorOf? source result = some (message, place)) :
    Report.ofResult source result = .ok (.error message place) := by
  unfold errorOf? at h
  split at h
  · rename_i hreport
    obtain ⟨rfl, rfl⟩ := Prod.mk.inj (Option.some.inj h)
    exact hreport
  · cases h

/-- The second line of a text fails, and the message shows it. -/
theorem handle_pointing_secondLine :
    ∃ result ∈ (Session.bare.handle "true\nx").1, ∃ message place,
      Report.ofResult "true\nx" result = .ok (.error message (some place)) ∧
      place.line = 2 ∧ place.col = 1 ∧
      ShowsAt message "true\nx" place "true\n".toList ['x'] [] := by
  have hrun : some ("UndefinedVariable: undefined variable 'x'\n(line 2, col 1)\n" ++
        "  1 | true\n> 2 | x\n    | ^", some ⟨2, 1, some "identifier", some "x"⟩) ∈
      (Session.bare.handle "true\nx").1.map (errorOf? "true\nx") := by
    decide +kernel
  obtain ⟨result, hmem, herror⟩ := mem_map.1 hrun
  have hreport := ofResult_of_errorOf? herror
  obtain ⟨loc, text, hplace, -, ⟨origin, -, htoken, -⟩, hshows⟩ := handle_pointing .bare hmem hreport
  obtain rfl := Option.some.inj hplace
  obtain rfl : text = ['x'] := by
    cases result with
    | value v => exact htoken.elim
    | failed cause node frames => exact String.ofList_inj.1 (Option.some.inj htoken.2.2).symm
    | malformed e =>
      cases congrArg (Option.map Location.tag) (Report.error.inj (Except.ok.inj hreport)).2
  exact ⟨result, hmem, _, _, hreport, rfl, rfl,
    hshows "true\n".toList [] ⟨by decide, by decide, by decide⟩ (by decide)⟩

/-- The body of a function fails that an earlier text defines.  No line of the message is the line that
the token was read from. -/
theorem handle_pointing_definedEarlier :
    ∃ result ∈ ((Session.bare.handle "f() = y").2.handle "f()").1, ∃ message place,
      Report.ofResult "f()" result = .ok (.error message (some place)) ∧
      StandsAt "f() = y" place "f() = ".toList ['y'] [] ∧
      "> 1 | f()".toList ∈ message.toList.splitOn '\n' ∧
      ∀ shown ∈ message.toList.splitOn '\n', ¬"f() = y".toList <:+ shown := by
  have hrun : some ("UndefinedVariable: undefined variable 'y'\n(line 1, col 7)\n" ++
        "> 1 | f()\n    |       ^\nSonus stacktrace: (f)", some ⟨1, 7, some "identifier", some "y"⟩) ∈
      ((Session.bare.handle "f() = y").2.handle "f()").1.map (errorOf? "f()") := by
    decide +kernel
  obtain ⟨result, hmem, herror⟩ := mem_map.1 hrun
  refine ⟨result, hmem, _, _, ofResult_of_errorOf? herror, ⟨?_, ?_, ?_⟩, ?_, ?_⟩
  · decide
  · decide
  · decide
  · decide +kernel
  · decide +kernel

end Session

end SignalCalc
