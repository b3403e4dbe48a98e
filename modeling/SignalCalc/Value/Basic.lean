import SignalCalc.Syntax.Node

/-!
# Values

What expressions evaluate to.  Programs compute reals, bools, strings, sounds and functions.
Values handed in from outside may also be whole numbers that stay exact, lists, or nothing.

A function defined by a program remembers the scope of its definition by number, so that later
changes of that scope are seen by its calls, and carries a serial number that tells it from every
other function.
-/

namespace SignalCalc

open SignalCalc.Builtin
open SignalCalc.Signal

/-- The number of a scope. -/
abbrev ScopeId := Nat

/-- A function defined by a program. -/
structure UserFunction where
  name : String
  params : List String
  body : Syntax.Node
  /-- The scope that the definition was evaluated in. -/
  scope : ScopeId
  /-- What tells the function from all others. -/
  serial : Nat

/-- A function value. -/
inductive Function where
  | real (f : RealFunction)
  | constructor (c : Constructor)
  | user (f : UserFunction)

/-- A value. -/
inductive Value where
  | real (x : Float)
  /-- A whole number from outside, which counts as a real and stays exact until it meets one. -/
  | whole (n : Int)
  | bool (b : Bool)
  | string (s : String)
  | sound (s : Sound Float)
  | function (f : Function)
  /-- The absence of a value. -/
  | nothing
  /-- A list from outside. -/
  | list (items : List Value)

namespace Function

/-- The name a function was defined by. -/
def name : Function → String
  | real f => f.name
  | constructor c => c.name
  | user f => f.name

/-- The names of the parameters. -/
def parameterNames : Function → List String
  | real f => f.parameterNames
  | constructor c => (c.parameters ()).map (·.name)
  | user f => f.params

end Function

namespace Value

/-- The type of a value as error messages name it. -/
def typeName : Value → String
  | real _ | whole _ => "real"
  | bool _ => "bool"
  | string _ => "string"
  | sound _ => "Sound"
  | function _ => "function"
  | nothing => "NoneType"
  | list _ => "list"

/-- The value is a signal. -/
def isSound : Value → Bool
  | sound _ => true
  | _ => false

end Value

end SignalCalc
