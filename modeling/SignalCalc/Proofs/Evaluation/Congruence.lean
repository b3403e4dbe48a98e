import Mathlib.Data.Nat.Notation
import Mathlib.Tactic.Lemma
import SignalCalc.Proofs.Evaluation.Run

/-!
# One level deeper

The evaluator is put together from few building blocks, and a bound on the nesting goes through all
of them.  A relation between computations that the building blocks keep (`Congruent`) therefore holds
between the evaluation of a node within one bound and within the next (`Congruent.evalWithin`).  The
only place where the two differ is the bound itself, where the first fails.

A property of single computations is such a relation, too.
-/

namespace SignalCalc.Evaluation

open SignalCalc.Builtin
open SignalCalc.Signal
open SignalCalc.Syntax

/-- A relation that every building block of the evaluator keeps.  Whatever an evaluation that was too
deep is compared with, the two are related. -/
structure Congruent (R : ∀ ⦃α : Type⦄, Eval α → Eval α → Prop) : Prop where
  pure {α : Type} (a : α) : R (Pure.pure a) (Pure.pure a)
  fail {α : Type} (cause : Cause) : R (fail cause : Eval α) (fail cause)
  tooDeep {α : Type} (y : Eval α) : R (Evaluation.fail .tooDeep) y
  note (event : Event) : R (note event) (note event)
  /-- Neither pending calls nor steps change but by their own operations. -/
  modifyGet {α : Type} {f : Machine → α × Machine} (hframes : ∀ m, (f m).2.frames = m.frames)
    (hevents : ∀ m, (f m).2.events = m.events) :
    R (MonadStateOf.modifyGet f : Eval α) (MonadStateOf.modifyGet f)
  bind {α β : Type} {x y : Eval α} {f g : α → Eval β} (hx : R x y) (hf : ∀ a, R (f a) (g a)) :
    R (x >>= f) (y >>= g)
  claim {α : Type} {x y : Eval α} (node : Node) (hx : R x y) : R (claim node x) (claim node y)
  framed {α : Type} {x y : Eval α} (frame : Frame) (hx : R x y) :
    R (framed frame x) (framed frame y)

namespace Congruent

variable {R : ∀ ⦃α : Type⦄, Eval α → Eval α → Prop} (hR : Congruent R)

include hR

/-! ## Operators -/

lemma exactly {α : Type} (r : Except TooLarge α) :
    R (Evaluation.exactly r) (Evaluation.exactly r) := by
  cases r with
  | ok a => exact hR.pure a
  | error e => exact hR.fail _

lemma applyArithmetic (op : Operator) (v w : Value) :
    R (Evaluation.applyArithmetic op v w) (Evaluation.applyArithmetic op v w) := by
  unfold Evaluation.applyArithmetic
  split
  · exact hR.exactly _
  · split
    · exact hR.bind (hR.exactly _) fun l => hR.bind (hR.exactly _) fun r => hR.pure _
    · exact hR.pure _
    · exact hR.fail _

lemma applyEquality (op : BinaryOperator) (v w : Value) :
    R (Evaluation.applyEquality op v w) (Evaluation.applyEquality op v w) := by
  unfold Evaluation.applyEquality
  split
  · exact hR.exactly _
  · split
    · exact hR.pure _
    · exact hR.pure _
    · exact hR.fail _

lemma applyBinary (op : BinaryOperator) (v w : Value) :
    R (Evaluation.applyBinary op v w) (Evaluation.applyBinary op v w) := by
  cases op with
  | arithmetic op => exact hR.applyArithmetic op v w
  | equal | unequal => exact hR.bind (hR.applyEquality _ v w) fun b => hR.pure _
  | less | greater =>
    simp only [Evaluation.applyBinary]
    split
    · exact hR.pure _
    · exact hR.fail _
  | and | or | other _ => exact hR.fail _

lemma applyUnary (op : UnaryOperator) (v : Value) :
    R (Evaluation.applyUnary op v) (Evaluation.applyUnary op v) := by
  unfold Evaluation.applyUnary
  split
  case h_8 => exact hR.bind (hR.exactly _) fun x => hR.pure _
  case h_11 => exact hR.fail _
  all_goals exact hR.pure _

lemma applyLogical (op : BinaryOperator) (decisive : Bool) {left left' right right' : Eval Value}
    (hleft : R left left') (hright : R right right') :
    R (Evaluation.applyLogical op decisive left right)
      (Evaluation.applyLogical op decisive left' right') := by
  refine hR.bind hleft fun l => ?_
  split
  · split
    · exact hR.pure _
    · refine hR.bind hright fun r => ?_
      split
      · exact hR.pure _
      · exact hR.fail _
  · exact hR.fail _

/-! ## Functions -/

section

variable {body body' : Node → ScopeId → Eval Value}
  (hbody : ∀ node scope, R (body node scope) (body' node scope))

include hbody

lemma call (f : Function) (slots : List Value) :
    R (Evaluation.call body f slots) (Evaluation.call body' f slots) := by
  refine hR.bind (hR.note _) fun _ => ?_
  cases f with
  | real f => exact hR.pure _
  | constructor c => exact hR.pure _
  | user f =>
    exact hR.bind (hR.modifyGet (fun _ => rfl) fun _ => rfl) fun scope => hbody f.body scope

lemma invoke (f : Function) (positional : List Value) (named : List (String × Value)) :
    R (Evaluation.invoke body f positional named) (Evaluation.invoke body' f positional named) := by
  cases h : f.bind positional named with
  | error e =>
    rw [invoke_of_error h, invoke_of_error h]
    exact hR.fail _
  | ok slots =>
    by_cases hf : Promotes f slots
    · obtain ⟨⟨g, rfl⟩, hsound⟩ := hf
      rw [invoke_promoted h hsound, invoke_promoted h hsound]
      exact hR.bind (hR.note _) fun _ => hR.pure _
    · rw [invoke_framed h hf, invoke_framed h hf]
      exact hR.framed _ (hR.call hbody f slots)

end

lemma evalArguments {value value' : Node → Eval Value} (hvalue : ∀ arg, R (value arg) (value' arg))
    (function : String) (args : List Node) (positional : List Value)
    (named : List (String × Value)) :
    R (Evaluation.evalArguments value function args positional named)
      (Evaluation.evalArguments value' function args positional named) := by
  induction args generalizing positional named with
  | nil => exact hR.pure _
  | cons arg rest ih =>
    by_cases hkeyword : ∃ loc name v, arg = .keyword loc name v
    · obtain ⟨loc, name, v, rfl⟩ := hkeyword
      cases hname : named.any (·.1 == name) with
      | true =>
        rw [evalArguments_keyword_twice loc name v hname,
          evalArguments_keyword_twice loc name v hname]
        exact hR.fail _
      | false =>
        rw [evalArguments_keyword loc name v hname, evalArguments_keyword loc name v hname]
        exact hR.bind (hvalue v) fun _ => ih _ _
    · have hplain : ∀ loc name v, arg ≠ .keyword loc name v := fun loc name v h =>
        hkeyword ⟨loc, name, v, h⟩
      rw [evalArguments_positional hplain, evalArguments_positional hplain]
      exact hR.bind (hvalue arg) fun _ => ih _ _

lemma define (scope : ScopeId) (name : String) (params : List String) (body : Node) :
    R (Evaluation.define scope name params body) (Evaluation.define scope name params body) := by
  unfold Evaluation.define
  split
  · exact hR.fail _
  · exact hR.modifyGet (fun _ => rfl) fun _ => rfl

lemma assign (scope : ScopeId) (name : String) (v : Value) :
    R (Evaluation.assign scope name v) (Evaluation.assign scope name v) :=
  hR.modifyGet (fun _ => rfl) fun _ => rfl

/-! ## Nodes -/

/-- A relation that the building blocks keep holds from one bound to the next. -/
theorem evalWithin (depth : ℕ) (node : Node) (scope : ScopeId) :
    R (Evaluation.evalWithin depth node scope) (Evaluation.evalWithin (depth + 1) node scope) := by
  induction depth generalizing node scope with
  | zero => exact hR.tooDeep _
  | succ depth ih =>
    cases node with
    | number | string => exact hR.claim _ (hR.pure _)
    | identifier loc name =>
      refine hR.claim _ (hR.bind (hR.modifyGet (fun _ => rfl) fun _ => rfl) fun m => ?_)
      split
      · exact hR.pure _
      · exact hR.fail _
    | unary loc op operand =>
      exact hR.claim _ (hR.bind (ih _ _) fun v => hR.applyUnary op v)
    | binary loc op left right =>
      by_cases hand : op = .and
      · subst hand
        exact hR.claim _ (hR.applyLogical _ _ (ih _ _) (ih _ _))
      · by_cases hor : op = .or
        · subst hor
          exact hR.claim _ (hR.applyLogical _ _ (ih _ _) (ih _ _))
        · rw [evalWithin_binary hand hor, evalWithin_binary hand hor]
          exact hR.claim _ (hR.bind (ih _ _) fun l => hR.bind (ih _ _) fun r =>
            hR.applyBinary op l r)
    | invocation loc callee args =>
      refine hR.claim _ (hR.bind (ih _ _) fun v => ?_)
      split
      · exact hR.bind (hR.evalArguments (fun arg => ih arg scope) _ _ _ _) fun _ =>
          hR.invoke ih _ _ _
      · exact hR.fail _
    | assignment loc name value =>
      exact hR.claim _ (hR.bind (ih _ _) fun v => hR.bind (hR.assign _ _ _) fun _ =>
        hR.bind (hR.note _) fun _ => hR.pure _)
    | definition loc name params body =>
      exact hR.claim _ (hR.bind (hR.define _ _ _ _) fun f => hR.bind (hR.assign _ _ _) fun _ =>
        hR.bind (hR.note _) fun _ => hR.pure _)
    | block statements =>
      refine hR.claim _ ?_
      generalize Value.nothing = last
      induction statements generalizing last with
      | nil => exact hR.pure _
      | cons statement rest ihr => exact hR.bind (ih _ _) fun v => ihr v
    | empty | keyword | missing => exact hR.claim _ (hR.fail _)

end Congruent

end SignalCalc.Evaluation
