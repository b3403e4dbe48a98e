import SignalCalc.Signal.Sound

/-!
# Syntax trees

The statements and expressions of a program.  Every node may carry the place it was read from;
`Node.same` compares trees without those places.

The type is wider than what program text can express: statements may stand inside expressions, a
list of statements counts as one node, and a node may be missing.  Trees handed in from outside
may have any of these shapes.
-/

namespace SignalCalc.Syntax

/-- A place in a source text: line and column from 1, what was read there, and its text. -/
structure Location where
  line : Nat
  col : Nat
  tag : Option String
  text : Option String
  deriving DecidableEq, Repr

/-- The operators before an operand. -/
inductive UnaryOperator where
  | plus | minus
  /-- One divided by the operand. -/
  | slash
  | not
  /-- An operator that no program text contains. -/
  | other (symbol : String)
  deriving DecidableEq, Repr

/-- The written operator. -/
def UnaryOperator.symbol : UnaryOperator → String
  | plus => "+"
  | minus => "-"
  | slash => "/"
  | not => "!"
  | other symbol => symbol

/-- The operator written so. -/
def UnaryOperator.ofSymbol : String → UnaryOperator
  | "+" => plus
  | "-" => minus
  | "/" => slash
  | "!" => not
  | symbol => other symbol

/-- The operators between two operands. -/
inductive BinaryOperator where
  | or | and
  | equal | unequal
  | less | greater
  | arithmetic (op : Signal.Operator)
  /-- An operator that no program text contains. -/
  | other (symbol : String)
  deriving DecidableEq, Repr

/-- The written operator. -/
def BinaryOperator.symbol : BinaryOperator → String
  | or => "||"
  | and => "&&"
  | equal => "=="
  | unequal => "!="
  | less => "<"
  | greater => ">"
  | arithmetic op => op.symbol
  | other symbol => symbol

/-- The operator written so. -/
def BinaryOperator.ofSymbol : String → BinaryOperator
  | "||" => or
  | "&&" => and
  | "==" => equal
  | "!=" => unequal
  | "<" => less
  | ">" => greater
  | "+" => arithmetic .add
  | "-" => arithmetic .sub
  | "*" => arithmetic .mul
  | "/" => arithmetic .div
  | "^" => arithmetic .pow
  | symbol => other symbol

/-- A node of a syntax tree. -/
inductive Node where
  | number (loc : Option Location) (value : Float)
  | string (loc : Option Location) (text : String)
  | identifier (loc : Option Location) (name : String)
  | unary (loc : Option Location) (op : UnaryOperator) (operand : Node)
  | binary (loc : Option Location) (op : BinaryOperator) (left right : Node)
  /-- An argument given by name. -/
  | keyword (loc : Option Location) (name : String) (value : Node)
  | invocation (loc : Option Location) (callee : Node) (args : List Node)
  | assignment (loc : Option Location) (name : String) (value : Node)
  | definition (loc : Option Location) (name : String) (params : List String) (body : Node)
  /-- The expression `()`. -/
  | empty (loc : Option Location)
  /-- A list of statements in the place of a node. -/
  | block (statements : List Node)
  /-- No node, in the place of one. -/
  | missing

namespace Node

/-- The place a node was read from. -/
def loc : Node → Option Location
  | number loc _ | string loc _ | identifier loc _ | unary loc _ _ | binary loc _ _ _
  | keyword loc _ _ | invocation loc _ _ | assignment loc _ _ | definition loc _ _ _
  | empty loc => loc
  | block _ | missing => none

mutual
/-- Equality of trees, places left out. -/
def same : Node → Node → Bool
  | number _ a, number _ b => a == b
  | string _ a, string _ b => a == b
  | identifier _ a, identifier _ b => a == b
  | unary _ op a, unary _ op' a' => op == op' && a.same a'
  | binary _ op a b, binary _ op' a' b' => op == op' && a.same a' && b.same b'
  | keyword _ name a, keyword _ name' a' => name == name' && a.same a'
  | invocation _ f args, invocation _ f' args' => f.same f' && sameAll args args'
  | assignment _ name a, assignment _ name' a' => name == name' && a.same a'
  | definition _ name params a, definition _ name' params' a' =>
    name == name' && params == params' && a.same a'
  | empty _, empty _ => true
  | block as, block bs => sameAll as bs
  | missing, missing => true
  | _, _ => false

/-- Equality of lists of trees, places left out. -/
def sameAll : List Node → List Node → Bool
  | [], [] => true
  | a :: as, b :: bs => a.same b && sameAll as bs
  | _, _ => false
end

end Node

end SignalCalc.Syntax
