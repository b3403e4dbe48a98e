import SignalCalc.Session.Prelude
import SignalCalc.Syntax.Program
import SignalCalc.Evaluation.Evaluator

/-!
# Sessions

A session runs one source text after the other and keeps what they define.

* `Session.handle` runs every statement of a text and gives one result for each; a failing
  statement does not keep the next one from running.
* `Session.evaluate` runs a text up to the first failing statement and gives the value of the
  last one.
-/

namespace SignalCalc

open SignalCalc.Syntax

/-- A calculator with what it has been told so far. -/
structure Session where
  machine : Machine

/-- What became of a statement. -/
inductive Result where
  | value (v : Value)
  /-- The failure, with the calls that had not returned, the innermost first, and the node at
  which it is reported. -/
  | failed (cause : Cause) (node : Node) (frames : List Frame)
  /-- A text that is no program has this as its only result. -/
  | malformed (e : ParseError)

namespace Session

/-- A machine whose first scope is given, with nothing else in it. -/
def machineOf (bindings : List (String × Value)) : Machine :=
  ⟨⟨#[⟨none, bindings⟩]⟩, [], 0, []⟩

/-- The machine with no calls pending and an empty trace. -/
def cleared (s : Session) : Machine :=
  { s.machine with frames := [], events := [] }

/-- Runs a statement in the first scope.  Calls that an earlier failure left pending are
forgotten first. -/
def runStatement (m : Machine) (statement : Node) : Except Failure Value × Machine :=
  Evaluation.eval statement Store.root { m with frames := [] }

/-- The result of a statement, from how its evaluation ended. -/
def resultOf (statement : Node) (frames : List Frame) : Except Failure Value → Result
  | .ok v => .value v
  | .error failure => .failed failure.cause (failure.node.getD statement) frames

/-- Runs statements one after the other, each with its result. -/
def runAll (m : Machine) : List Node → List Result × Machine
  | [] => ([], m)
  | statement :: rest =>
    let (outcome, after) := runStatement m statement
    let (results, last) := runAll after rest
    (resultOf statement after.frames outcome :: results, last)

/-- Runs statements up to the first failure; the value is that of the last one. -/
def runUntilFailure (m : Machine) (value : Value) : List Node → Except Failure Value × Machine
  | [] => (.ok value, m)
  | statement :: rest =>
    match runStatement m statement with
    | (.ok v, after) => runUntilFailure after v rest
    | (.error failure, after) => (.error failure, after)

/-- Runs all statements of a source text. -/
def handle (s : Session) (source : String) : List Result × Session :=
  match parse source with
  | .error e => ([.malformed e], ⟨{ s.machine with events := [] }⟩)
  | .ok statements =>
    let (results, m) := runAll { s.machine with events := [] } statements
    (results, ⟨m⟩)

/-- Why a source text has no value. -/
inductive EvaluateError where
  | malformed (e : ParseError)
  | failed (failure : Failure)

/-- The value of the last statement of a source text, nothing for an empty one. -/
def evaluate (s : Session) (source : String) : Except EvaluateError Value × Session :=
  match parse source with
  | .error e => (.error (.malformed e), ⟨s.cleared⟩)
  | .ok statements =>
    match runUntilFailure s.cleared .nothing statements with
    | (.ok v, m) => (.ok v, ⟨m⟩)
    | (.error failure, m) => (.error (.failed failure), ⟨m⟩)

/-- A session that knows the built-in names only. -/
def bare : Session := ⟨machineOf builtins⟩

/-- A session that has run the prelude. -/
def fresh : Session := ⟨(bare.evaluate prelude).2.cleared⟩

/-- A session that has run the prelude, or one that has not. -/
def start (withPrelude : Bool) : Session := if withPrelude then fresh else bare

/-- Gives a name a value from outside. -/
def bind (s : Session) (name : String) (value : Value) : Session :=
  ⟨{ s.machine with store := s.machine.store.bind Store.root name value }⟩

/-- The value of a name. -/
def lookup? (s : Session) (name : String) : Option Value :=
  s.machine.store.lookup? Store.root name

/-- The names bound so far, in the order in which they were first bound. -/
def names (s : Session) : List String := s.machine.store.names Store.root

/-- The names bound in a session and not before, in the order in which they were first bound. -/
def namesSince (s before : Session) : List String :=
  s.names.filter fun name => !before.names.contains name

/-- The names of the calls that had not returned, the outermost first. -/
def pendingCalls (s : Session) : List String :=
  (s.machine.frames.map (·.name)).reverse

/-- The trace of the last source text, a line for each step. -/
def trace (s : Session) : String :=
  String.join (s.machine.events.reverse.map fun event => event.line ++ "\n")

end Session

end SignalCalc
