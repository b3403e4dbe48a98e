import SignalCalc.Value.Numeric
import SignalCalc.Signal.Printed
import SignalCalc.Signal.Stream
import SignalCalc.Text.Quoted

/-!
# Text of values

Three texts of a value:

* `Value.text` shows a result;
* `Value.describe` names a value in an error message;
* `Value.literal` stands for a value in a listing.

The first two write a whole number through its float, so a whole number beyond every float has
neither.
-/

namespace SignalCalc

open SignalCalc.Signal
open SignalCalc.Text

/-! ## Listings -/

/-- Items in brackets. -/
def listText (items : List String) : String := "[" ++ ", ".intercalate items ++ "]"

/-- Items in parentheses; a single one keeps its comma. -/
def tupleText : List String → String
  | [] => "()"
  | [item] => "(" ++ item ++ ",)"
  | items => "(" ++ ", ".intercalate items ++ ")"

/-- A function of the given name and parameters as it is shown. -/
def functionText (name : String) (params : List String) : String :=
  "<function " ++ name ++ "(" ++ ", ".intercalate params ++ ")>"

/-- A function as it is shown. -/
def Function.text (f : Function) : String := functionText f.name f.parameterNames

/-- An applied function as it is shown. -/
def Signal.Applied.text (f : Applied) : String :=
  functionText f.name ((f.signature ()).params.map (·.name))

/-- The name of a combination of two sounds. -/
def Signal.Operator.title : Operator → String
  | add => "Add"
  | sub => "Sub"
  | mul => "Mul"
  | div => "Div"
  | pow => "Pow"

mutual
/-- A sound in a listing: its kind and its fields. -/
def Signal.Sound.literal : Sound Float → String
  | .const v => "Const(value=" ++ Number.exactText v ++ ")"
  | .linear slope intercept =>
    "Linear(slope=" ++ Number.exactText slope ++ ", intercept=" ++ Number.exactText intercept ++
      ")"
  | .sine frequency phase =>
    "Sin(frequency=" ++ Number.exactText frequency ++ ", phase=" ++ Number.exactText phase ++ ")"
  | .decay coefficient intercept =>
    "Exp(coefficient=" ++ Number.exactText coefficient ++ ", intercept=" ++
      Number.exactText intercept ++ ")"
  | .noise none => "Rand(seed=None)"
  | .noise (some seed) => "Rand(seed=" ++ Number.wholeText seed ++ ")"
  | .minus s => "Minus(sound=" ++ s.literal ++ ")"
  | .reciprocal s => "Reciprocal(sound=" ++ s.literal ++ ")"
  | .binary op left right =>
    op.title ++ "(left=" ++ left.literal ++ ", right=" ++ right.literal ++ ")"
  | .apply f args =>
    "FunctionSound(function=" ++ f.text ++ ", positional=" ++
      tupleText (Signal.Sound.positionalLiterals args) ++ ", named=" ++
      tupleText (Signal.Sound.namedLiterals args) ++ ")"

/-- The arguments without a name, in a listing. -/
def Signal.Sound.positionalLiterals : List (Argument Float) → List String
  | [] => []
  | .real none x :: rest => Number.exactText x :: positionalLiterals rest
  | .whole none n :: rest => Number.wholeText n :: positionalLiterals rest
  | .sound none s :: rest => s.literal :: positionalLiterals rest
  | _ :: rest => positionalLiterals rest

/-- The arguments with a name, in a listing. -/
def Signal.Sound.namedLiterals : List (Argument Float) → List String
  | [] => []
  | .real (some name) x :: rest =>
    tupleText [quoted name, Number.exactText x] :: namedLiterals rest
  | .whole (some name) n :: rest =>
    tupleText [quoted name, Number.wholeText n] :: namedLiterals rest
  | .sound (some name) s :: rest => tupleText [quoted name, s.literal] :: namedLiterals rest
  | _ :: rest => namedLiterals rest
end

namespace Value

mutual
/-- A value in a listing. -/
def literal : Value → String
  | real x => Number.exactText x
  | whole n => Number.wholeText n
  | bool true => "True"
  | bool false => "False"
  | string s => quoted s
  | sound s => s.literal
  | function f => f.text
  | nothing => "None"
  | list items => listText (literals items)

/-- The values of a list in a listing. -/
def literals : List Value → List String
  | [] => []
  | v :: rest => v.literal :: literals rest
end

/-! ## Results and messages -/

/-- A value as a result: reals as a program writes them, strings in double quotes, sounds as the
expression that builds them. -/
def text : Value → Except TooLarge String
  | real x => .ok (realText x)
  | whole n => (fun _ => wholeNumberText n) <$> floatOf n
  | bool b => .ok (if b then "true" else "false")
  | string s => .ok ("\"" ++ s ++ "\"")
  | sound s => .ok s.text
  | function f => .ok f.text
  | nothing => .ok "()"
  | list items => .ok (listText (literals items))

/-- A value in an error message: its type, and the value itself where it is short. -/
def describe : Value → Except TooLarge String
  | real x => .ok ("real " ++ Number.shortText x)
  | whole n => (fun x => "real " ++ Number.shortText x) <$> floatOf n
  | bool b => .ok (if b then "bool true" else "bool false")
  | string s => .ok ("string \"" ++ s ++ "\"")
  | function f => .ok ("function " ++ f.name)
  | v => .ok v.typeName

end Value

end SignalCalc
