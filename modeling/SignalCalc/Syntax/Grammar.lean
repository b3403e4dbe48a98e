import SignalCalc.Syntax.Token
import SignalCalc.Syntax.Layout

/-!
# The grammar

Programs are statements separated by semicolons or line ends.  Binary operators bind, from the
loosest to the tightest, as `||`, `&&`, `== !=`, `< >`, `+ -`, `* /`, and all of them associate
to the left; the operators before an operand bind tighter, `^` tighter still and to the right,
and calls the tightest.

Every rule is a `Parser`.  The recursion of the grammar goes through the operand of a prefix
operator alone, so the rules for expressions are written for a given parser of such operands;
`operand` ties the knot with a bound on the nesting, and the length of the text is such a bound.
-/

namespace SignalCalc.Syntax

open SignalCalc.Syntax.Parser

namespace Grammar

/-- Blanks and block comments within a line. -/
def gap : Parser Unit := skip Layout.inside

/-- A fixed word. -/
def word (w : String) : Parser Unit := scan (Token.literal w.toList)

/-- A comma with its layout. -/
def comma : Parser Unit := gap *> word "," *> gap

/-- Something in parentheses. -/
def parenthesized {α : Type} (p : Parser α) : Parser α := do
  word "("
  gap
  let a ← p
  gap
  word ")"
  return a

/-- A name with its place. -/
def name : Parser (Location × String) := do
  let (loc, ()) ← located "identifier" (scan Token.name)
  return (loc, loc.text.getD "")

/-- An equals sign with its layout. -/
def equals : Parser Unit := gap *> scan Token.assign *> gap

/-- An operator from a list of words, with its place. -/
def operatorOf (tag : String) (scanners : List (List Char → Option (List Char))) :
    Parser (Location × BinaryOperator) := do
  let (loc, ()) ← located tag (scan fun text => scanners.findSome? (· text))
  return (loc, .ofSymbol (loc.text.getD ""))

/-- Operands joined by operators of one level, from left to right. -/
def leftAssociative (operand : Parser Node) (operator : Parser (Location × BinaryOperator)) :
    Parser Node := do
  let first ← operand
  let others ← many do
    gap
    let op ← operator
    gap
    let right ← operand
    return (op, right)
  return others.foldl (fun left other => .binary (some other.1.1) other.1.2 left other.2) first

/-- The levels of operators, the loosest first. -/
def levels : List (Parser (Location × BinaryOperator)) :=
  [operatorOf "or_op" [Token.literal ['|', '|']],
   operatorOf "and_op" [Token.literal ['&', '&']],
   operatorOf "eq_op" [Token.literal ['=', '='], Token.literal ['!', '=']],
   operatorOf "cmp_op" [Token.literal ['<'], Token.literal ['>']],
   operatorOf "add_op" [Token.literal ['+'], Token.literal ['-']],
   operatorOf "mul_op" [Token.literal ['*'], Token.slash]]

/-- An expression over its operands. -/
def expressionOver (operand : Parser Node) : Parser Node :=
  levels.foldr (fun level inner => leftAssociative inner level) operand

/-- A numeral. -/
def number : Parser Node := do
  let (loc, ()) ← located "number" (scan Token.number)
  return .number (some loc) (Token.numberValue (loc.text.getD ""))

/-- A string. -/
def string : Parser Node := do
  let (loc, ()) ← located "string" (scan Token.string)
  return .string (some loc) (Token.unquoted (loc.text.getD ""))

/-- A name as an expression. -/
def identifier : Parser Node := do
  let (loc, x) ← name
  return .identifier (some loc) x

/-- Parentheses, which only group, or hold nothing. -/
def group (expression : Parser Node) : Parser Node := do
  let (loc, inner) ← located "group" (parenthesized (maybe expression))
  return inner.getD (.empty (some loc))

/-- An expression that needs no operator. -/
def primary (expression : Parser Node) : Parser Node :=
  number <|> string <|> identifier <|> group expression

/-- An argument given by name. -/
def keyword (expression : Parser Node) : Parser Node := do
  let (loc, x, value) ← located "keyword" do
    let (_, x) ← name
    equals
    let value ← expression
    return (x, value)
  return .keyword (some loc) x value

/-- The arguments of a call. -/
def arguments (expression : Parser Node) : Parser (List Node) :=
  parenthesized (sepBy (keyword expression <|> expression) comma)

/-- An expression with the calls after it.  All of them have the place of the whole chain. -/
def calls (expression : Parser Node) : Parser Node := do
  let (loc, callee, argumentLists) ← located "postfix" do
    let callee ← primary expression
    let argumentLists ← many (arguments expression)
    return (callee, argumentLists)
  return argumentLists.foldl (fun f args => .invocation (some loc) f args) callee

/-- A power; its exponent may carry prefix operators. -/
def power (operand : Parser Node) : Parser Node := do
  let base ← calls (expressionOver operand)
  let tail ← maybe do
    gap
    let op ← operatorOf "pow_op" [Token.literal ['^']]
    gap
    let exponent ← operand
    return (op, exponent)
  match tail with
  | some ((loc, op), exponent) => return .binary (some loc) op base exponent
  | none => return base

/-- An operator before an operand. -/
def prefixed (operand : Parser Node) : Parser Node := do
  let (loc, op, inner) ← located "unary" do
    let (op, ()) ← located "unary_op" (scan fun text =>
      [Token.literal ['+'], Token.literal ['-'], Token.slash, Token.literal ['!']].findSome?
        (· text))
    gap
    let inner ← operand
    return (op, inner)
  return .unary (some loc) (.ofSymbol (op.text.getD "")) inner

/-- An operand of the binary operators, nested less deep than the bound. -/
def operand : Nat → Parser Node
  | 0 => failure
  | depth + 1 => prefixed (operand depth) <|> power (operand depth)

/-- An expression.  Each level of nesting takes at least one character, so the length of the
text bounds the depth. -/
def expression : Parser Node := fun c =>
  expressionOver (operand (c.rest.length + 1)) c

/-- A definition of a function. -/
def definition : Parser Node := do
  let (loc, f, params, body) ← located "definition" do
    let (_, f) ← name
    gap
    let params ← parenthesized (sepBy name comma)
    equals
    let body ← expression
    return (f, params.map (·.2), body)
  return .definition (some loc) f params body

/-- An assignment. -/
def assignment : Parser Node := do
  let (loc, x, value) ← located "assignment" do
    let (_, x) ← name
    equals
    let value ← expression
    return (x, value)
  return .assignment (some loc) x value

/-- A statement. -/
def statement : Parser Node := definition <|> assignment <|> expression

/-- A program, which may be empty. -/
def program : Parser (List Node) := do
  skip Layout.between
  let statements ← sepBy statement (scan Layout.terminator?)
  skip Layout.between
  return statements

end Grammar

end SignalCalc.Syntax
