import SignalCalc.Evaluation.Failure
import SignalCalc.Evaluation.Scope
import SignalCalc.Evaluation.Trace

/-!
# Evaluation

`Evaluation.eval` computes the value of a node in a scope.  Operators on reals compute at once;
as soon as one operand is a signal, the other is lifted to a constant one and the result is a
bigger signal.  In the same way a real function is not called on a signal: the result is the
signal that applies it at every time.

The state goes on when an evaluation fails: scopes keep what was bound, and the frames of the
calls that did not return stay as the trace of the failure.

Evaluation goes at most `depthLimit` nodes deep.  The bound stands for the stack of the machine that
evaluates, which is not modelled as such.
-/

namespace SignalCalc

open SignalCalc.Builtin
open SignalCalc.Signal
open SignalCalc.Syntax

/-- A call that has not returned. -/
structure Frame where
  name : String
  args : List Value

/-- What an evaluation reads and changes. -/
structure Machine where
  store : Store
  /-- The calls that have not returned, the innermost first. -/
  frames : List Frame
  /-- The serial number of the next function. -/
  nextSerial : Nat
  /-- The steps so far, the last first. -/
  events : List Event

/-- A computation that may fail and keeps the state in either case. -/
abbrev Eval := ExceptT Failure (StateM Machine)

namespace Evaluation

/-- How deep nodes may be nested during evaluation, calls included.  The bound stands for the host's
stack.  That one is counted in host frames, several for each node, and runs out earlier: a recursion
that is a few hundred calls deep has a value here and may have none there.  A recursion without end
has none in either case. -/
def depthLimit : Nat := 1000

/-- Ends with a cause; the node comes later. -/
def fail {α : Type} (cause : Cause) : Eval α := throw ⟨cause, none⟩

/-- Notes a step in the trace. -/
def note (event : Event) : Eval Unit :=
  modify fun m => { m with events := event :: m.events }

/-- Binds a name in a scope. -/
def assign (scope : ScopeId) (name : String) (value : Value) : Eval Unit :=
  modify fun m => { m with store := m.store.bind scope name value }

/-- An error of the program that no inner node has claimed belongs to this node. -/
def claim {α : Type} (node : Node) (action : Eval α) : Eval α :=
  tryCatch action fun failure =>
    throw ⟨failure.cause,
      if failure.cause.isLanguageError then failure.node.or (some node) else failure.node⟩

/-- A result on whole numbers, which may be beyond every float. -/
def exactly {α : Type} : Except TooLarge α → Eval α
  | .ok a => pure a
  | .error e => fail (.tooLarge e)

/-! ## Operators -/

/-- An operator on two numbers, on two signals, on a number and a signal, or on two strings. -/
def applyArithmetic (op : Operator) (left right : Value) : Eval Value :=
  match Value.arithmetic? op left right with
  | some result => exactly result
  | none =>
    match left.lift?, right.lift?, op, left, right with
    | some l, some r, _, _, _ => do
      let l ← exactly l
      let r ← exactly r
      return .sound (.binary op l r)
    | _, _, .add, .string a, .string b => return .string (a ++ b)
    | _, _, _, _, _ => fail (.mismatch op.symbol [left, right])

/-- Equality of two numbers, two truth values or two strings. -/
def applyEquality (op : BinaryOperator) (left right : Value) : Eval Bool :=
  match Value.numbersEqual? left right with
  | some result => exactly result
  | none =>
    match left, right with
    | .bool a, .bool b => return a == b
    | .string a, .string b => return a == b
    | _, _ => fail (.mismatch op.symbol [left, right])

/-- An operator whose operands both have values already. -/
def applyBinary (op : BinaryOperator) (left right : Value) : Eval Value :=
  match op with
  | .arithmetic op => applyArithmetic op left right
  | .equal => do return .bool (← applyEquality op left right)
  | .unequal => do return .bool (!(← applyEquality op left right))
  | .less =>
    match Value.less? left right with
    | some b => return .bool b
    | none => fail (.mismatch op.symbol [left, right])
  | .greater =>
    match Value.less? right left with
    | some b => return .bool b
    | none => fail (.mismatch op.symbol [left, right])
  | .and | .or | .other _ => fail (.mismatch op.symbol [left, right])

/-- An operator before its operand. -/
def applyUnary (op : UnaryOperator) (operand : Value) : Eval Value :=
  match op, operand with
  | .plus, .real x => return .real x
  | .plus, .whole n => return .whole n
  | .plus, .sound s => return .sound s
  | .minus, .real x => return .real (-x)
  | .minus, .whole n => return .whole (-n)
  | .minus, .sound s => return .sound (.minus s)
  | .slash, .real x => return .real (Number.quotient 1.0 x)
  | .slash, .whole n => do return .real (Number.quotient 1.0 (← exactly (Value.floatOf n)))
  | .slash, .sound s => return .sound (.reciprocal s)
  | .not, .bool b => return .bool !b
  | _, _ => fail (.mismatch op.symbol [operand])

/-- A logical operator.  The value `decisive` of the left operand settles it alone, and then the
right operand is not evaluated. -/
def applyLogical (op : BinaryOperator) (decisive : Bool) (left right : Eval Value) :
    Eval Value := do
  match ← left with
  | .bool l =>
    if l == decisive then
      return .bool l
    match ← right with
    | .bool r => return .bool r
    | r => fail (.mismatch op.symbol [.bool l, r])
  | l => fail (.mismatch op.symbol [l])

/-! ## Functions -/

/-- The first name that stands twice in a list, at its second place. -/
def repeatedName? : List String → List String → Option String
  | _, [] => none
  | seen, name :: rest =>
    if seen.contains name then some name else repeatedName? (name :: seen) rest

/-- A new function with a body, closed over a scope. -/
def define (scope : ScopeId) (name : String) (params : List String) (body : Node) :
    Eval Function :=
  match repeatedName? [] params with
  | some param => fail (.duplicateParameter name param)
  | none =>
    modifyGet fun m =>
      (.user ⟨name, params, body, scope, m.nextSerial⟩,
        { m with nextSerial := m.nextSerial + 1 })

/-- An argument as the signal of a promoted call keeps it. -/
def promotedArgument (label : Option String) : Value → Argument Float
  | .real x => .real label x
  | .whole n => .whole label n
  | .sound s => .sound label s
  | _ => .real label Number.nan

/-- The signal that applies a real function at every time. -/
def promoted (f : RealFunction) (positional : List Value) (named : List (String × Value)) :
    Sound Float :=
  .apply (.real f)
    (positional.map (promotedArgument none) ++
      named.map fun entry => promotedArgument (some entry.1) entry.2)

/-- The signal that a constructor builds from the values of its parameters.  A seed that is not
finite fixes nothing. -/
def construct : Constructor → List Value → Value
  | .sine, [.real frequency, .real phase] => .sound (.sine frequency phase)
  | .decay, [.real tau] => .sound (.decay (Number.quotient (-1.0) tau) 1.0)
  | .linear, [.real slope, .real intercept] => .sound (.linear slope intercept)
  | .rand, [] => .sound (.noise none)
  | .noise, [.real seed] => .sound (.noise (Number.truncate? seed))
  | .const, [.sound s] => .sound s
  | .shift, [.sound s, .real seconds] => .sound (s.shift seconds)
  | _, _ => .nothing

/-- A call of a function with the values of its parameters; `body` evaluates the body of a
function that a program defined. -/
def call (body : Node → ScopeId → Eval Value) (f : Function) (slots : List Value) :
    Eval Value := do
  note (.called f.sort f.name slots.length)
  match f with
  | .real f => return .real (f.apply (slots.filterMap fun | .real x => some x | _ => none))
  | .constructor c => return construct c slots
  | .user f =>
    let scope ← modifyGet fun m =>
      let (id, store) := m.store.push ⟨some f.scope, f.params.zip slots⟩
      (id, { m with store })
    body f.body scope

/-- Gives a function its arguments.  A real function that gets a signal becomes a signal; any
other call gets a frame while it runs, and the frame stays if it fails. -/
def invoke (body : Node → ScopeId → Eval Value) (f : Function) (positional : List Value)
    (named : List (String × Value)) : Eval Value := do
  let slots ← match f.bind positional named with
    | .ok slots => pure slots
    | .error e => fail (.ofBindError f.name e)
  match f, slots.any Value.isSound with
  | .real g, true =>
    note (.promoted g.name (slots.map Value.typeName))
    return .sound (promoted g positional named)
  | _, _ =>
    modify fun m => { m with frames := ⟨f.name, slots⟩ :: m.frames }
    let result ← call body f slots
    modify fun m => { m with frames := m.frames.drop 1 }
    return result

/-- The values of arguments from left to right, those without a name and those with one. -/
def evalArguments (value : Node → Eval Value) (function : String) :
    List Node → List Value → List (String × Value) →
      Eval (List Value × List (String × Value))
  | [], positional, named => return (positional, named)
  | .keyword _ name arg :: rest, positional, named => do
    if named.any (·.1 == name) then
      fail (.secondValue function name)
    let v ← value arg
    evalArguments value function rest positional (named ++ [(name, v)])
  | arg :: rest, positional, named => do
    let v ← value arg
    evalArguments value function rest (positional ++ [v]) named

/-! ## Nodes -/

/-- The value of a node in a scope, with nodes nested less deep than the bound. -/
def evalWithin : Nat → Node → ScopeId → Eval Value
  | 0, _, _ => fail .tooDeep
  | depth + 1, node, scope => claim node do
    match node with
    | .number _ value => return .real value
    | .string _ text => return .string text
    | .identifier _ name =>
      match (← get).store.lookup? scope name with
      | some value => return value
      | none => fail (.undefinedVariable name)
    | .unary _ op operand =>
      let v ← evalWithin depth operand scope
      applyUnary op v
    | .binary _ .and left right =>
      applyLogical .and false (evalWithin depth left scope) (evalWithin depth right scope)
    | .binary _ .or left right =>
      applyLogical .or true (evalWithin depth left scope) (evalWithin depth right scope)
    | .binary _ op left right =>
      let l ← evalWithin depth left scope
      let r ← evalWithin depth right scope
      applyBinary op l r
    | .invocation _ callee args =>
      match ← evalWithin depth callee scope with
      | .function f =>
        let (positional, named) ←
          evalArguments (fun arg => evalWithin depth arg scope) f.name args [] []
        invoke (evalWithin depth) f positional named
      | v => fail (.naming [v] (.notAFunction v))
    | .assignment _ name value =>
      let v ← evalWithin depth value scope
      assign scope name v
      note (.assigned name v.typeName)
      return v
    | .definition _ name params body =>
      let f ← define scope name params body
      assign scope name (.function f)
      note (.defined name params)
      return .function f
    | .empty _ => fail .emptyExpression
    | .block statements =>
      statements.foldlM (fun _ statement => evalWithin depth statement scope) .nothing
    | .keyword .. | .missing => fail (.notEvaluable node)

/-- The value of a node in a scope. -/
def eval (node : Node) (scope : ScopeId) : Eval Value :=
  evalWithin depthLimit node scope

end Evaluation

end SignalCalc
