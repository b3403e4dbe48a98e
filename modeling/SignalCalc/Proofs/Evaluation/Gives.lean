import Mathlib.Data.List.Forall2
import SignalCalc.Proofs.Evaluation.Run

/-!
# Evaluations that bind nothing

`Gives store x v` says that a computation ends with a value wherever the scopes are those of a
store, and that it leaves them as they are.  So do all the evaluations that only compute: those of
numbers, names, operators, and calls of built-in functions.

`Node.height` is how deep the evaluator goes into a node, the bodies of functions left out.  An
evaluation that is given at least this depth does not end for want of it.
-/

namespace SignalCalc.Syntax.Node

mutual
/-- How many nodes are evaluated inside each other. -/
def height : Node → ℕ
  | number _ _ | string _ _ | identifier _ _ | empty _ | missing | definition _ _ _ _ => 1
  | unary _ _ operand => operand.height + 1
  | binary _ _ left right => max left.height right.height + 1
  | keyword _ _ value => value.height
  | invocation _ callee args => max callee.height (heightAll args) + 1
  | assignment _ _ value => value.height + 1
  | block statements => heightAll statements + 1

/-- How many nodes are evaluated inside each other in any of the nodes. -/
def heightAll : List Node → ℕ
  | [] => 0
  | node :: rest => max node.height (heightAll rest)
end

end SignalCalc.Syntax.Node

namespace SignalCalc.Evaluation

open SignalCalc.Builtin
open SignalCalc.Signal
open SignalCalc.Syntax

variable {α β : Type} {store : Store}

/-- The computation ends with this value in every machine with these scopes, and binds nothing. -/
def Gives (store : Store) (x : Eval α) (a : α) : Prop :=
  ∀ m : Machine, m.store = store → ∃ m₁, x m = (.ok a, m₁) ∧ m₁.store = store

namespace Gives

lemma pure (a : α) : Gives store (Pure.pure a) a := fun m hm => ⟨m, rfl, hm⟩

lemma bind {x : Eval α} {f : α → Eval β} {a : α} {b : β} (hx : Gives store x a)
    (hf : Gives store (f a) b) : Gives store (x >>= f) b := by
  intro m hm
  obtain ⟨m₁, hrun, hm₁⟩ := hx m hm
  obtain ⟨m₂, hrun', hm₂⟩ := hf m₁ hm₁
  exact ⟨m₂, (run_bind_of_ok hrun).trans hrun', hm₂⟩

lemma claim {x : Eval α} {a : α} (node : Node) (hx : Gives store x a) :
    Gives store (claim node x) a := by
  intro m hm
  obtain ⟨m₁, hrun, hm₁⟩ := hx m hm
  exact ⟨m₁, run_claim_eq_ok.2 hrun, hm₁⟩

lemma note (event : Event) : Gives store (note event) () := fun _ hm => ⟨_, rfl, hm⟩

lemma framed {x : Eval α} {a : α} (frame : Frame) (hx : Gives store x a) :
    Gives store (framed frame x) a := by
  have hmodify : ∀ f : Machine → Machine, (∀ m, (f m).store = m.store) →
      Gives store (modify f : Eval PUnit) ⟨⟩ := fun f hf m hm => ⟨f m, rfl, (hf m).trans hm⟩
  exact .bind (hmodify _ fun _ => rfl) (.bind hx (.bind (hmodify _ fun _ => rfl) (.pure a)))

end Gives

/-! ## Calls -/

variable {body : Node → ScopeId → Eval Value} {positional slots : List Value}
  {named : List (String × Value)}

/-- What a real function makes of the values of its parameters. -/
def outcome (f : RealFunction) (positional : List Value) (named : List (String × Value))
    (slots : List Value) : Value :=
  if slots.any Value.isSound then .sound (promoted f positional named)
  else .real (f.apply (slots.filterMap fun | .real x => some x | _ => none))

lemma invoke_real_gives {f : RealFunction}
    (h : (Function.real f).bind positional named = .ok slots) :
    Gives store (invoke body (.real f) positional named) (outcome f positional named slots) := by
  rw [outcome]
  by_cases hsound : slots.any Value.isSound = true
  · rw [invoke_promoted h hsound, if_pos hsound]
    exact .bind (.note _) (.pure _)
  · rw [invoke_framed h fun hf => hsound hf.2, if_neg hsound]
    exact .framed _ (.bind (.note _) (.pure _))

lemma invoke_constructor_gives {c : Constructor}
    (h : (Function.constructor c).bind positional named = .ok slots) :
    Gives store (invoke body (.constructor c) positional named) (construct c slots) := by
  have hnot : ¬Promotes (.constructor c) slots := fun hf => by
    obtain ⟨⟨g, hg⟩, -⟩ := hf
    cases hg
  rw [invoke_framed h hnot]
  exact .framed _ (.bind (.note _) (.pure _))

/-! ## Arguments -/

/-- A value in a call, with the name it is given by. -/
abbrev Given := Option String × Value

/-- The values given without a name. -/
def positionalValues (given : List Given) : List Value :=
  given.filterMap fun entry => match entry.1 with
    | none => some entry.2
    | some _ => none

/-- The values given by name. -/
def namedValues (given : List Given) : List (String × Value) :=
  given.filterMap fun entry => entry.1.map fun name => (name, entry.2)

/-- The argument gives this value under this name. -/
inductive ArgumentGives (store : Store) (value : Node → Eval Value) : Node → Given → Prop where
  | positional {arg : Node} {v : Value} : (∀ loc name e, arg ≠ .keyword loc name e) →
    Gives store (value arg) v → ArgumentGives store value arg (none, v)
  | keyword {loc : Option Location} {name : String} {e : Node} {v : Value} :
    Gives store (value e) v → ArgumentGives store value (.keyword loc name e) (some name, v)

/-- Arguments with different names give their values from left to right. -/
lemma evalArguments_gives {value : Node → Eval Value} {args : List Node} {given : List Given}
    (h : List.Forall₂ (ArgumentGives store value) args given) (function : String)
    (hnodup : ((named ++ namedValues given).map Prod.fst).Nodup) :
    Gives store (evalArguments value function args positional named)
      (positional ++ positionalValues given, named ++ namedValues given) := by
  induction h generalizing positional named with
  | nil =>
    rw [positionalValues, namedValues, List.filterMap_nil, List.filterMap_nil, List.append_nil,
      List.append_nil]
    exact .pure _
  | cons harg _ ih =>
    cases harg with
    | @positional arg v hkeyword hv =>
      rw [evalArguments_positional hkeyword]
      refine .bind hv ?_
      have hrest := @ih (positional ++ [v]) named hnodup
      rwa [List.append_assoc] at hrest
    | @keyword loc name e v hv =>
      have hfree : named.any (·.1 == name) = false := by
        rw [List.map_append, List.nodup_append] at hnodup
        refine List.any_eq_false.2 fun entry hentry hsame => ?_
        exact hnodup.2.2 entry.1 (List.mem_map_of_mem hentry) name List.mem_cons_self
          (beq_iff_eq.1 hsame)
      rw [evalArguments_keyword loc name e hfree]
      refine .bind hv ?_
      have hrest := @ih positional (named ++ [(name, v)]) (by rwa [List.append_assoc])
      rwa [List.append_assoc] at hrest

/-! ## Nodes -/

section Nodes

variable {depth : ℕ} {scope : ScopeId} {loc : Option Location}

lemma number_gives (x : Float) :
    Gives store (evalWithin (depth + 1) (.number loc x) scope) (.real x) := .claim _ (.pure _)

lemma identifier_gives {name : String} {v : Value} (h : store.lookup? scope name = some v) :
    Gives store (evalWithin (depth + 1) (.identifier loc name) scope) v := by
  intro m hm
  refine ⟨m, ?_, hm⟩
  rw [evalWithin_identifier, hm, h]

lemma unary_gives {op : UnaryOperator} {operand : Node} {v w : Value}
    (hoperand : Gives store (evalWithin depth operand scope) v)
    (hop : applyUnary op v = Pure.pure w) :
    Gives store (evalWithin (depth + 1) (.unary loc op operand) scope) w := by
  refine .claim _ (.bind hoperand ?_)
  rw [hop]
  exact .pure w

lemma binary_gives {op : Operator} {left right : Node} {v w u : Value}
    (hleft : Gives store (evalWithin depth left scope) v)
    (hright : Gives store (evalWithin depth right scope) w)
    (hop : applyArithmetic op v w = Pure.pure u) :
    Gives store (evalWithin (depth + 1) (.binary loc (.arithmetic op) left right) scope) u := by
  refine .claim _ (.bind hleft (.bind hright ?_))
  show Gives store (applyArithmetic op v w) u
  rw [hop]
  exact .pure u

lemma invocation_gives {callee : Node} {args : List Node} {f : Function} {given : List Given}
    {v : Value} (hcallee : Gives store (evalWithin depth callee scope) (.function f))
    (hargs : List.Forall₂ (ArgumentGives store fun arg => evalWithin depth arg scope) args given)
    (hnodup : ((namedValues given).map Prod.fst).Nodup)
    (hinvoke : Gives store
      (invoke (evalWithin depth) f (positionalValues given) (namedValues given)) v) :
    Gives store (evalWithin (depth + 1) (.invocation loc callee args) scope) v := by
  refine .claim _ (.bind hcallee ?_)
  have harguments := @evalArguments_gives store [] [] _ _ _ hargs f.name hnodup
  exact .bind harguments hinvoke

end Nodes

end SignalCalc.Evaluation
