import SignalCalc.Syntax.Cursor
import SignalCalc.Number.Read

/-!
# Tokens

Scanners for the words of program text.  Each takes a text and gives what follows the token at
its start, or nothing if the token is not there.
-/

namespace SignalCalc.Syntax.Token

open SignalCalc.Number

/-- A fixed word. -/
def literal (word : List Char) (text : List Char) : Option (List Char) :=
  if word.isPrefixOf text then some (text.drop word.length) else none

/-- A slash that does not open a comment. -/
def slash : List Char → Option (List Char)
  | '/' :: '/' :: _ => none
  | '/' :: '*' :: _ => none
  | '/' :: rest => some rest
  | _ => none

/-- An equals sign that is not followed by another. -/
def assign : List Char → Option (List Char)
  | '=' :: '=' :: _ => none
  | '=' :: rest => some rest
  | _ => none

/-- The characters a name may start with. -/
def startsName (c : Char) : Bool := c.isAlpha || c == '_' || c == '$'

/-- The characters a name may go on with. -/
def continuesName (c : Char) : Bool := startsName c || c.isDigit

/-- A name. -/
def name : List Char → Option (List Char)
  | c :: rest => if startsName c then some (rest.dropWhile continuesName) else none
  | [] => none

/-- A string on one line; there are no escapes. -/
def string : List Char → Option (List Char)
  | '"' :: rest =>
    match rest.dropWhile fun c => c != '"' && c != '\n' with
    | '"' :: after => some after
    | _ => none
  | _ => none

/-- A decimal numeral. -/
def number (text : List Char) : Option (List Char) :=
  (Numeral.scan text).map (·.2)

/-- The value of a numeral. -/
def numberValue (text : String) : Float :=
  match Numeral.scan text.toList with
  | some (n, _) => n.value
  | none => nan

/-- The text of a string without its quotes, which are its first and last character. -/
def unquoted (text : String) : String :=
  String.ofList (text.toList.drop 1).dropLast

end SignalCalc.Syntax.Token
