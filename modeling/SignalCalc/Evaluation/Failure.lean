import SignalCalc.Value.Text
import SignalCalc.Value.Accept
import SignalCalc.Syntax.Outline

/-!
# Failures

Why an evaluation ends without a value.  Most causes are errors of the program, and each of them
has a name and a message; the others cannot come from program text alone.  A `Failure` also
holds the innermost node that was being evaluated when an error of the program came up.
-/

namespace SignalCalc

open SignalCalc.Call

/-- Why an evaluation ends without a value. -/
inductive Cause where
  | undefinedVariable (name : String)
  /-- An operator or a function met values that it is not made for. -/
  | typeMismatch (operator : String) (operands : List Value)
  | arityMismatch (function : String) (expected found : Nat)
  | notAFunction (value : Value)
  | emptyExpression
  | unknownParameter (function name : String)
  /-- One parameter got two values. -/
  | secondValue (function name : String)
  /-- A definition names a parameter twice. -/
  | duplicateParameter (function name : String)
  /-- The node has no value: it is no expression. -/
  | notEvaluable (node : Syntax.Node)
  /-- A whole number that has no float. -/
  | tooLarge (e : TooLarge)
  /-- Calls are nested too deep. -/
  | tooDeep

namespace Cause

/-- An error that a program makes, as opposed to a limit of the calculator. -/
def isLanguageError : Cause → Bool
  | notEvaluable _ | tooLarge _ | tooDeep => false
  | _ => true

/-- The name of the kind of error. -/
def title : Cause → String
  | undefinedVariable _ => "UndefinedVariable"
  | typeMismatch _ _ => "TypeMismatch"
  | arityMismatch _ _ _ => "ArityMismatch"
  | notAFunction _ => "NotAFunction"
  | emptyExpression => "EmptyExpression"
  | unknownParameter _ _ | secondValue _ _ => "UnknownParameter"
  | duplicateParameter _ _ => "DuplicateParameter"
  | notEvaluable _ | tooLarge _ => "InternalError"
  | tooDeep => "RecursionError"

/-- A value in a message.  Causes hold only values that have a description. -/
def described (v : Value) : String :=
  match v.describe with
  | .ok text => text
  | .error _ => v.typeName

/-- The message of an error. -/
def message : Cause → String
  | undefinedVariable name => "undefined variable '" ++ name ++ "'"
  | typeMismatch operator operands =>
    "'" ++ operator ++ "' cannot be applied to (" ++
      ", ".intercalate (operands.map described) ++ ")"
  | arityMismatch function expected found =>
    "expected " ++ toString expected ++ " argument(s)" ++
      (if function.isEmpty then "" else " for '" ++ function ++ "'") ++
      ", found " ++ toString found
  | notAFunction value => described value ++ " is not callable"
  | emptyExpression => "empty expression '()' has no value"
  | unknownParameter function name => "'" ++ function ++ "' has no parameter '" ++ name ++ "'"
  | secondValue function name =>
    "'" ++ function ++ "' got a second value for parameter '" ++ name ++ "'"
  | duplicateParameter function name =>
    "'" ++ function ++ "' declares parameter '" ++ name ++ "' more than once"
  | notEvaluable node => "Cannot evaluate node " ++ node.outline
  | tooLarge e => e.message
  | tooDeep => "maximum call depth exceeded"

/-- A cause that names values, which all need a description: a whole number beyond every float
has none, and then that is the cause. -/
def naming (values : List Value) (cause : Cause) : Cause :=
  match values.mapM Value.describe with
  | .ok _ => cause
  | .error e => tooLarge e

/-- An operator met values that it is not made for. -/
def mismatch (operator : String) (operands : List Value) : Cause :=
  naming operands (typeMismatch operator operands)

/-- Arguments do not fit the function they were given to. -/
def ofBindError (function : String) : BindError Value → Cause
  | .arity expected found => arityMismatch function expected found
  | .unknownName name => unknownParameter function name
  | .secondValue name => secondValue function name
  | .wrongKind value => mismatch function [value]
  | .tooLarge => tooLarge .number

end Cause

/-- An evaluation that ended without a value, and where. -/
structure Failure where
  cause : Cause
  /-- The innermost node under evaluation, for an error of the program. -/
  node : Option Syntax.Node

end SignalCalc
