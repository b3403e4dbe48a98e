import Mathlib.Tactic.Lemma
import SignalCalc.Syntax.Node

/-!
# Expressions of program text

A `Node` may have shapes that no program text has.  `Node.IsExpression` picks out the expressions
that can be written: definitions and assignments stand nowhere in them, and an argument given by
name stands only among the arguments of a call.  `Node.bare` is a tree without its places.
-/

namespace SignalCalc.Syntax

/-- The operator can be written. -/
def UnaryOperator.IsWritten : UnaryOperator → Prop
  | other _ => False
  | _ => True

/-- The operator can be written. -/
def BinaryOperator.IsWritten : BinaryOperator → Prop
  | other _ => False
  | _ => True

namespace Node

mutual
/-- An expression of program text. -/
def IsExpression : Node → Prop
  | number _ _ => True
  | string _ _ => True
  | identifier _ _ => True
  | empty _ => True
  | unary _ op operand => op.IsWritten ∧ operand.IsExpression
  | binary _ op left right => op.IsWritten ∧ left.IsExpression ∧ right.IsExpression
  | invocation _ callee args => callee.IsExpression ∧ AreArguments args
  | keyword _ _ _ => False
  | assignment _ _ _ => False
  | definition _ _ _ _ => False
  | block _ => False
  | missing => False

/-- Arguments of a call in program text. -/
def AreArguments : List Node → Prop
  | [] => True
  | keyword _ _ value :: rest => value.IsExpression ∧ AreArguments rest
  | arg :: rest => arg.IsExpression ∧ AreArguments rest
end

mutual
/-- The tree without its places. -/
def bare : Node → Node
  | number _ value => number none value
  | string _ text => string none text
  | identifier _ name => identifier none name
  | unary _ op operand => unary none op operand.bare
  | binary _ op left right => binary none op left.bare right.bare
  | keyword _ name value => keyword none name value.bare
  | invocation _ callee args => invocation none callee.bare (bareAll args)
  | assignment _ name value => assignment none name value.bare
  | definition _ name params body => definition none name params body.bare
  | empty _ => empty none
  | block statements => block (bareAll statements)
  | missing => missing

/-- The trees without their places. -/
def bareAll : List Node → List Node
  | [] => []
  | node :: rest => node.bare :: bareAll rest
end

lemma bareAll_eq_map (nodes : List Node) : bareAll nodes = nodes.map bare := by
  induction nodes with
  | nil => rfl
  | cons node rest ih => rw [bareAll, ih, List.map_cons]

lemma areArguments_cons {arg : Node} {rest : List Node}
    (h : ∀ loc name value, arg ≠ keyword loc name value) :
    AreArguments (arg :: rest) ↔ arg.IsExpression ∧ AreArguments rest := by
  cases arg with
  | keyword loc name value => exact absurd rfl (h loc name value)
  | _ => simp only [AreArguments]

/-! ## Trees that differ in places alone -/

section Bare

variable {node e e' : Node}

lemma bare_eq_number {v : Float} (h : node.bare = number none v) : ∃ loc, node = number loc v := by
  cases node <;> cases h
  exact ⟨_, rfl⟩

lemma bare_eq_string {text : String} (h : node.bare = string none text) :
    ∃ loc, node = string loc text := by
  cases node <;> cases h
  exact ⟨_, rfl⟩

lemma bare_eq_identifier {x : String} (h : node.bare = identifier none x) :
    ∃ loc, node = identifier loc x := by
  cases node <;> cases h
  exact ⟨_, rfl⟩

lemma bare_eq_unary {op : UnaryOperator} (h : node.bare = unary none op e) :
    ∃ loc operand, node = unary loc op operand ∧ operand.bare = e := by
  cases node <;> cases h
  exact ⟨_, _, rfl, rfl⟩

lemma bare_eq_binary {op : BinaryOperator} (h : node.bare = binary none op e e') :
    ∃ loc left right, node = binary loc op left right ∧ left.bare = e ∧ right.bare = e' := by
  cases node <;> cases h
  exact ⟨_, _, _, rfl, rfl, rfl⟩

lemma bare_eq_invocation {nodes : List Node} (h : node.bare = invocation none e (bareAll nodes)) :
    ∃ loc callee args, node = invocation loc callee args ∧ callee.bare = e ∧
      args.map bare = nodes.map bare := by
  cases node with
  | invocation loc callee args =>
    rw [bare, invocation.injEq, bareAll_eq_map, bareAll_eq_map] at h
    exact ⟨loc, callee, args, rfl, h.2⟩
  | _ => cases h

lemma bare_eq_keyword {name : String} (h : node.bare = keyword none name e) :
    ∃ loc value, node = keyword loc name value ∧ value.bare = e := by
  cases node <;> cases h
  exact ⟨_, _, rfl, rfl⟩

lemma keyword_of_bare_eq {loc : Option Location} {name : String} {value : Node}
    (h : (keyword loc name value).bare = e.bare) : ∃ loc' value', e = keyword loc' name value' := by
  cases e with
  | keyword loc' name' value' =>
    obtain ⟨-, rfl, -⟩ := keyword.inj h
    exact ⟨loc', value', rfl⟩
  | _ => cases h

end Bare

mutual
/-- Places do not matter for what an expression is. -/
lemma isExpression_bare : ∀ node : Node, node.bare.IsExpression ↔ node.IsExpression
  | number _ _ | string _ _ | identifier _ _ | empty _ => Iff.rfl
  | unary _ _ operand => and_congr_right fun _ => isExpression_bare operand
  | binary _ _ left right =>
    and_congr_right fun _ => and_congr (isExpression_bare left) (isExpression_bare right)
  | invocation _ callee args => and_congr (isExpression_bare callee) (areArguments_bareAll args)
  | keyword _ _ _ | assignment _ _ _ | definition _ _ _ _ | block _ | missing => Iff.rfl

/-- Nor for what the arguments of a call are. -/
lemma areArguments_bareAll : ∀ nodes : List Node, AreArguments (bareAll nodes) ↔ AreArguments nodes
  | [] => Iff.rfl
  | node :: rest => by
    cases node with
    | keyword loc name value =>
      exact and_congr (isExpression_bare value) (areArguments_bareAll rest)
    | _ =>
      rw [bareAll, areArguments_cons (by nofun), areArguments_cons (by nofun)]
      exact and_congr (isExpression_bare _) (areArguments_bareAll rest)
end

end Node

end SignalCalc.Syntax
