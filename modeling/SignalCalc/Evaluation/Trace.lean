import SignalCalc.Value.Text

/-!
# Traces

What an evaluation does, step by step, for someone who looks for a fault in a program.
-/

namespace SignalCalc

open SignalCalc.Text

/-- The sorts of functions. -/
inductive FunctionSort where
  | real
  | constructor
  | user
  deriving DecidableEq, Repr

/-- The sort of a function. -/
def Function.sort : Function → FunctionSort
  | .real _ => .real
  | .constructor _ => .constructor
  | .user _ => .user

/-- The name of a sort in a trace. -/
def FunctionSort.name : FunctionSort → String
  | real => "RealFunction"
  | constructor => "PrimitiveFunction"
  | user => "UserFunction"

/-- A step of an evaluation. -/
inductive Event where
  | assigned (name typeName : String)
  | defined (name : String) (params : List String)
  /-- A real function became a signal instead of being called. -/
  | promoted (function : String) (typeNames : List String)
  | called (sort : FunctionSort) (function : String) (count : Nat)
  deriving DecidableEq, Repr

/-- The line of a step in a trace. -/
def Event.line : Event → String
  | assigned name typeName => "[DBG] ASSIGN " ++ name ++ " " ++ typeName
  | defined name params => "[DBG] DEFINE " ++ name ++ " " ++ listText (params.map quoted)
  | promoted function typeNames =>
    "[DBG] PROMOTE " ++ function ++ " " ++ listText (typeNames.map quoted)
  | called sort function count =>
    "[DBG] Evaluator.call " ++ sort.name ++ " " ++ function ++ " argc " ++ toString count

end SignalCalc
