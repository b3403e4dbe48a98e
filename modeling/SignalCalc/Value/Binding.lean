import SignalCalc.Value.Accept
import SignalCalc.Value.Same
import SignalCalc.Value.Text

/-!
# Bindings

The values of the parameters of a call, as things to look at: parameters and bindings have a
text, and parameters can be compared.
-/

namespace SignalCalc

open SignalCalc.Call
open SignalCalc.Text

/-- A parameter as it is shown: its name, its kind and its default. -/
def Call.Parameter.text (p : Parameter Value) : String :=
  "Parameter<" ++ p.name ++ ":" ++ p.kind.name ++
    (match p.default with
     | some v => "=" ++ v.literal
     | none => "") ++ ">"

/-- Equality of parameters: the same name and kind, and equal defaults. -/
def Call.Parameter.same (p q : Parameter Value) : Bool :=
  p.name == q.name && p.kind == q.kind &&
    match p.default, q.default with
    | none, none => true
    | some v, some w => v.same w
    | _, _ => false

/-- The values of all parameters of a call. -/
structure Binding where
  function : String
  slots : List Value

namespace Binding

/-- A signal is among the values. -/
def hasSound (b : Binding) : Bool := b.slots.any Value.isSound

/-- A binding as it is shown. -/
def text (b : Binding) : String :=
  "<Binding " ++ b.function ++ " " ++ listText (Value.literals b.slots) ++ ">"

end Binding

/-- A function as its calls see it, without what it computes. -/
structure Callable where
  signature : Signature Value
  /-- The parameters take signals although they are real ones. -/
  takesSignals : Bool

namespace Callable

/-- The calls of a function. -/
def ofFunction (f : Function) : Callable :=
  ⟨f.signature, match f with | .real _ => true | _ => false⟩

/-- The function as it is shown. -/
def text (c : Callable) : String :=
  functionText c.signature.name (c.signature.params.map (·.name))

/-- The values of the parameters in a call.  Of several values for one name the last counts. -/
def bind (c : Callable) (positional : List Value) (named : List (String × Value)) :
    Except (BindError Value) Binding :=
  (⟨c.signature.name, ·⟩) <$>
    c.signature.bind (if c.takesSignals then Value.acceptReal else Value.accept) positional
      (lastWins named)

end Callable

end SignalCalc
