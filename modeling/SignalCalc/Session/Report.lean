import SignalCalc.Session.Basic
import SignalCalc.Session.Excerpt
import SignalCalc.Syntax.Record

/-!
# Reports

What a session tells about the result of a statement: a value as text, or a message with the
place of the error, an excerpt of the source and the calls that were pending.

A value without a text, which only a whole number from outside can be, cannot be reported.
-/

namespace SignalCalc

open SignalCalc.Syntax

/-- A reported result. -/
inductive Report where
  | value (v : Value) (text : String)
  | error (message : String) (place : Option Location)

namespace Report

/-- An argument of a pending call: signals by their type, functions by their name. -/
def argumentText : Value → Except TooLarge String
  | .sound _ => .ok "Sound"
  | .function f => .ok f.name
  | v => v.text

/-- A pending call with its arguments. -/
def frameText (frame : Frame) : Except TooLarge String := do
  let args ← frame.args.mapM argumentText
  return "(" ++ " ".intercalate
    ((if frame.name.isEmpty then "<call>" else frame.name) ::
      (if (" ".intercalate args).isEmpty then [] else args)) ++ ")"

/-- The pending calls, the outermost first; `frames` starts with the innermost. -/
def stackText (frames : List Frame) : Except TooLarge String := do
  let texts ← frames.reverse.mapM frameText
  return "Sonus stacktrace: " ++ " ".intercalate texts

/-- The message of an error with its place and the lines of the source around it.  The excerpt
is taken from the text that is being run, also when the place lies in an earlier one. -/
def locatedMessage (source message : String) : Option Location → String
  | none => message
  | some loc =>
    message ++ "\n(line " ++ toString loc.line ++ ", col " ++ toString loc.col ++ ")\n" ++
      Session.excerpt source loc.line loc.col

/-- The report of a failed statement. -/
def ofFailure (source : String) (cause : Cause) (node : Node) (frames : List Frame) :
    Except TooLarge Report := do
  let message := locatedMessage source (cause.title ++ ": " ++ cause.message) node.loc
  if frames.isEmpty then
    return .error message node.loc
  return .error (message ++ "\n" ++ (← stackText frames)) node.loc

/-- The report of a text that is no program. -/
def ofParseError (source : String) (e : ParseError) : Report :=
  .error ("ParseError: " ++ e.message ++ "\n" ++ Session.excerpt source e.line e.col)
    (some ⟨e.line, e.col, none, none⟩)

/-- The report of a result; `source` is the text that was run. -/
def ofResult (source : String) : Result → Except TooLarge Report
  | .value v => do return .value v (← v.text)
  | .failed cause node frames => ofFailure source cause node frames
  | .malformed e => .ok (ofParseError source e)

/-- An error message after its line and column, which may be missing.  A message that starts
with them already stays as it is. -/
def headed (message : String) (line col : Option String) : String :=
  match line with
  | none => message
  | some line =>
    if message.startsWith "Error on line " then message
    else
      "Error on line " ++ line ++
        (match col with
         | some col => ", col " ++ col
         | none => "") ++ ": " ++ message

/-- An error without a message is an unknown one. -/
def orUnknown (message : String) : String :=
  if message.isEmpty then "Unknown error" else message

/-- The text of an error, headed by its place; a value has none. -/
def errorText : Report → String
  | value _ _ => ""
  | error message place =>
    headed (orUnknown message) (place.map fun loc => toString loc.line)
      (place.map fun loc => toString loc.col)

/-- The text of an error that is told by a record: its message, and a token with the line, and a
column unless that is null. -/
def textOfRecord (message token : Record) : String :=
  let field (name : String) : Option Record :=
    match token with
    | .fields entries => Record.find? entries name
    | _ => none
  headed (orUnknown (if message.isVacant then "" else message.shown))
    ((field "line").map Record.shown)
    ((field "col").bind fun col => match col with
      | .null => none
      | col => some col.shown)

end Report

end SignalCalc
