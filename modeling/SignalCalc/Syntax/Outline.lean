import SignalCalc.Syntax.Node
import SignalCalc.Number.Written
import SignalCalc.Text.Quoted

/-!
# Outlines of syntax trees

A tree on one line: the kind of every node and its parts in angle brackets.
-/

namespace SignalCalc.Syntax

open SignalCalc.Text

namespace Node

mutual
/-- A tree on one line. -/
def outline : Node → String
  | number _ value => "Number<" ++ Number.exactText value ++ ">"
  | string _ text => "String<" ++ quoted text ++ ">"
  | identifier _ name => "Identifier<" ++ quoted name ++ ">"
  | unary _ op operand => "Unary<" ++ op.symbol ++ " " ++ operand.outline ++ ">"
  | binary _ op left right =>
    "Binary<" ++ left.outline ++ " " ++ op.symbol ++ " " ++ right.outline ++ ">"
  | keyword _ name value => "KeywordArgument<" ++ name ++ "=" ++ value.outline ++ ">"
  | invocation _ callee args =>
    "Invocation<" ++ callee.outline ++ " [" ++ ", ".intercalate (outlines args) ++ "]>"
  | assignment _ name value => "Assignment<" ++ name ++ " = " ++ value.outline ++ ">"
  | definition _ name params body =>
    "Definition<" ++ name ++ "(" ++ ", ".intercalate params ++ ") = " ++ body.outline ++ ">"
  | empty _ => "Empty<>"
  | block statements => "[" ++ ", ".intercalate (outlines statements) ++ "]"
  | missing => "None"

/-- Trees, each on one line. -/
def outlines : List Node → List String
  | [] => []
  | n :: rest => n.outline :: outlines rest
end

end Node

end SignalCalc.Syntax
