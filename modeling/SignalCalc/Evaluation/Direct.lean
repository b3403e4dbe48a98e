import SignalCalc.Evaluation.Evaluator

/-!
# Direct calls

A built-in function can be called on bound values without an evaluation around it.
-/

namespace SignalCalc.Evaluation

/-- Why a function cannot be called on bound values directly. -/
inductive DirectError where
  /-- The body of a function that a program defined needs an evaluation. -/
  | needsEvaluation
  /-- A real function has no value at a signal. -/
  | signalAsReal
  deriving DecidableEq, Repr

/-- The value of a built-in function at the values of its parameters. -/
def direct (f : Function) (slots : List Value) : Except DirectError Value :=
  match f with
  | .user _ => .error .needsEvaluation
  | .constructor c => .ok (construct c slots)
  | .real f =>
    if slots.any Value.isSound then .error .signalAsReal
    else .ok (.real (f.apply (slots.filterMap fun | .real x => some x | _ => none)))

end SignalCalc.Evaluation
