import SignalCalc.Proofs.Syntax.Expression
import SignalCalc.Proofs.Syntax.Places
import SignalCalc.Proofs.Syntax.Tokens

/-!
# The parts of a tree

`Node.parts` lists a tree and all trees in it.  Two conditions are put on every part of a tree that
was read: its words are words of program text (`Node.HasWords`), and it has a place in the source
(`Node.IsPlacedIn`).  Whether the parts fit together is another matter, which `Node.IsExpression`
settles.
-/

namespace SignalCalc.Syntax

open SignalCalc.Syntax.Token

namespace Node

mutual
/-- The tree and all trees in it. -/
def parts : Node → List Node
  | unary loc op operand => unary loc op operand :: operand.parts
  | binary loc op left right => binary loc op left right :: (left.parts ++ right.parts)
  | keyword loc name value => keyword loc name value :: value.parts
  | invocation loc callee args => invocation loc callee args :: (callee.parts ++ partsOf args)
  | assignment loc name value => assignment loc name value :: value.parts
  | definition loc name params body => definition loc name params body :: body.parts
  | block statements => block statements :: partsOf statements
  | node => [node]

/-- All trees in a list of trees. -/
def partsOf : List Node → List Node
  | [] => []
  | node :: rest => node.parts ++ partsOf rest
end

lemma self_mem_parts (node : Node) : node ∈ node.parts := by
  cases node <;> exact List.mem_cons_self

lemma mem_partsOf {part : Node} {nodes : List Node} :
    part ∈ partsOf nodes ↔ ∃ node ∈ nodes, part ∈ node.parts := by
  induction nodes with
  | nil => simp [partsOf]
  | cons node rest ih => simp [partsOf, ih]

/-- The words in a node itself are words of program text. -/
def HasWords : Node → Prop
  | number _ value => 0.0 ≤ value ∧ value.isNaN = false
  | string _ text => IsQuotable text.toList
  | identifier _ name => IsName name.toList
  | unary _ op _ => op.IsWritten
  | binary _ op _ _ => op.IsWritten
  | keyword _ name _ => IsName name.toList
  | assignment _ name _ => IsName name.toList
  | definition _ name params _ => IsName name.toList ∧ ∀ x ∈ params, IsName x.toList
  | _ => True

/-- The node has a place, which holds its text in the source. -/
def IsPlacedIn (source : String) (node : Node) : Prop :=
  ∃ loc, node.loc = some loc ∧ loc.LiesIn source

end Node

end SignalCalc.Syntax
