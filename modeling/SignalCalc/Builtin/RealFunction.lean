import SignalCalc.Number.Power

/-!
# Real functions

The built-in functions from reals to a real.  They are the functions that can be applied to a
signal sample by sample.
-/

namespace SignalCalc.Builtin

/-- The built-in functions from reals to a real. -/
inductive RealFunction where
  | sin | cos | tan | exp | ln | sqrt | abs | floor | max | min
  deriving DecidableEq, Repr

namespace RealFunction

/-- All real functions. -/
def all : List RealFunction := [sin, cos, tan, exp, ln, sqrt, abs, floor, max, min]

/-- The name a program calls the function by. -/
def name : RealFunction → String
  | sin => "sin"
  | cos => "cos"
  | tan => "tan"
  | exp => "exp"
  | ln => "ln"
  | sqrt => "sqrt"
  | abs => "abs"
  | floor => "floor"
  | max => "max"
  | min => "min"

/-- The names of the parameters. -/
def parameterNames : RealFunction → List String
  | max | min => ["a", "b"]
  | _ => ["x"]

/-- The largest whole number that is not above a float; never a negative zero. -/
def floorFloat (x : Float) : Float :=
  match Number.Dyadic.ofFloat? x with
  | some d => Float.ofInt d.floor
  | none => x

/-- The function of one real, with the errors of the float library. -/
def unary? : RealFunction → Float → Except Number.FunctionError Float
  | sin, x => Number.call? Float.sin x
  | cos, x => Number.call? Float.cos x
  | tan, x => Number.call? Float.tan x
  | exp, x => .ok (Number.exponential x)
  | ln, x => if x == 0.0 then .ok (-Number.infinity) else Number.call? Float.log x
  | sqrt, x => Number.call? Float.sqrt x
  | abs, x => .ok (Float.abs x)
  | floor, x => .ok (floorFloat x)
  | max, x | min, x => .ok x

/-- The function of two reals: the first one unless the second is strictly beyond it. -/
def binary? : RealFunction → Float → Float → Except Number.FunctionError Float
  | max, a, b => .ok (if b > a then b else a)
  | min, a, b => .ok (if b < a then b else a)
  | f, a, _ => f.unary? a

/-- The function of one real.  Outside its domain the value is NaN. -/
def unary (f : RealFunction) (x : Float) : Float := Number.orSpecial (f.unary? x)

/-- The function of two reals. -/
def binary (f : RealFunction) (a b : Float) : Float := Number.orSpecial (f.binary? a b)

/-- The value at a row of arguments, one for each parameter. -/
def apply (f : RealFunction) : List Float → Float
  | [x] => f.unary x
  | [a, b] => f.binary a b
  | _ => Number.nan

end RealFunction

end SignalCalc.Builtin
