import SignalCalc.Value.Numeric
import SignalCalc.Call.Signature

/-!
# What parameters accept

The kinds of parameters, read as conditions on values.
-/

namespace SignalCalc

open SignalCalc.Builtin
open SignalCalc.Call
open SignalCalc.Signal

namespace Value

/-- The value that a parameter of a kind makes of an argument: a real parameter holds a float, a
sound parameter a signal. -/
def accept (kind : Kind) (v : Value) : Except Refusal Value :=
  match kind, v with
  | .any, v => .ok v
  | .real, real x => .ok (real x)
  | .real, whole n =>
    match Number.wholeFloat? n with
    | some x => .ok (real x)
    | none => .error .tooLarge
  | .sound, v =>
    match v.lift? with
    | some (.ok s) => .ok (sound s)
    | some (.error _) => .error .tooLarge
    | none => .error .wrongKind
  | .bool, bool b => .ok (bool b)
  | .string, string s => .ok (string s)
  | _, _ => .error .wrongKind

/-- A parameter of a real function takes signals too. -/
def acceptReal (kind : Kind) (v : Value) : Except Refusal Value :=
  if v.isSound then .ok v else v.accept kind

end Value

namespace Function

/-- The name and the parameters of a function. -/
def signature : Function → Signature Value
  | real f => ⟨f.name, f.parameterNames.map fun name => ⟨name, .real, none⟩⟩
  | constructor c => ⟨c.name, c.parameters (Value.real 0.0)⟩
  | user f => ⟨f.name, f.params.map fun param => ⟨param, .any, none⟩⟩

/-- What the parameters of a function accept. -/
def accept : Function → Kind → Value → Except Refusal Value
  | real _ => Value.acceptReal
  | _ => Value.accept

/-- The values of the parameters in a call. -/
def bind (f : Function) (positional : List Value) (named : List (String × Value)) :
    Except (BindError Value) (List Value) :=
  f.signature.bind f.accept positional named

end Function

end SignalCalc
