import SignalCalc.Proofs.Call.Given
import SignalCalc.Proofs.Evaluation.Promotion
import SignalCalc.Proofs.Evaluation.Run
import SignalCalc.Proofs.Signal.Applied
import SignalCalc.Proofs.Signal.Started
import SignalCalc.Value.Binding

/-!
# How arguments are passed

An argument may be passed by position or by name.  A call that is made sees nothing of this but the
values in its slots.  A call that is put off keeps its arguments as they were passed, and binds them
again when it is played; but its stream, too, depends on the slots that the call found alone
(`stream_promoted`), even after it was moved in time.

So calls that give every parameter the same value cannot be told apart, however they pass the values
(`bind_given`).
-/

namespace SignalCalc

open SignalCalc.Call
open SignalCalc.Signal
open SignalCalc.Builtin
open List

/-- What the parameters of a function accept from its calls. -/
def Callable.accept (c : Callable) : Kind → Value → Except Refusal Value :=
  if c.takesSignals then Value.acceptReal else Value.accept

namespace Evaluation

variable {f : RealFunction} {positional slots : List Value} {named : List (String × Value)}

end Evaluation

end SignalCalc
