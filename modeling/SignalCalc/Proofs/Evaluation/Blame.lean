import SignalCalc.Proofs.Evaluation.Lasting

/-!
# Where an evaluation can fail

An evaluation looks at the parts of its node, and at those of the bodies of functions that it calls.
Functions are looked up or made on the way, and none is made up: the body of every function that comes
up stands in the node, or in a function that was there before.  So does the node that a failure is
reported at.

`isWithin_lasting` says this of any set of nodes: what starts among them stays among them.  It is a
condition on values that lasts.
-/

namespace SignalCalc

open SignalCalc.Syntax

variable {N : Node → Prop}

/-- A function of a program has its body among some nodes. -/
def Value.IsWithin (N : Node → Prop) : Value → Prop
  | .function (.user f) => f.body.IsWithin N
  | _ => True

lemma Value.IsInert.isWithin {v : Value} (h : v.IsInert) : v.IsWithin N := by
  cases v with
  | function f =>
    cases f with
    | user f => exact h.elim
    | real | constructor => trivial
  | _ => trivial

namespace Evaluation

/-- **Failures are reported where the evaluation has been.**  If the node and the bodies of all
functions in scope are among some nodes, so are the bodies of the functions in scope afterwards, that
of the result, and the node of a failure. -/
theorem isWithin_lasting : Lasting N (Value.IsWithin N) where
  inert h := h.isWithin
  literal _ := trivial
  append _ _ := trivial
  user := Iff.rfl

/-- A computation that starts with functions among some nodes ends so: all names have values among
them, its result is good, and a failure is reported at one of them. -/
def StaysWithin {α : Type} (N : Node → Prop) (P : α → Prop) (x : Eval α) : Prop :=
  ∀ m, m.store.All (Value.IsWithin N) →
    (x m).2.store.All (Value.IsWithin N) ∧
      Meets P (fun failure => ∀ node ∈ failure.node, N node) (x m).1

end Evaluation

end SignalCalc
