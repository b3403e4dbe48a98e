import SignalCalc.Signal.Scalar
import SignalCalc.Builtin.Constructor
import SignalCalc.Call.Signature

/-!
# Sounds

A `Sound` is a finite expression that stands for a real function of time in seconds.  Building
one computes no sample.  `Sound.shift` moves a sound in time in closed form: the result at time
`x` is the sound at time `x + t`.
-/

namespace SignalCalc.Signal

open SignalCalc.Builtin

/-- The binary operators on numbers and signals. -/
inductive Operator where
  | add | sub | mul | div | pow
  deriving DecidableEq, Repr

/-- The written operator. -/
def Operator.symbol : Operator → String
  | add => "+"
  | sub => "-"
  | mul => "*"
  | div => "/"
  | pow => "^"

/-- An operator on scalars. -/
def Operator.apply {α : Type} [Scalar α] : Operator → α → α → α
  | add => Scalar.add
  | sub => Scalar.sub
  | mul => Scalar.mul
  | div => Scalar.div
  | pow => Scalar.pow

/-- What stands before the arguments of an applied sound.  Programs apply real functions only;
a sound handed in from outside may name any function. -/
inductive Applied where
  | real (f : RealFunction)
  | constructor (c : Constructor)
  | defined (name : String) (params : List String)
  deriving DecidableEq, Repr

/-- The name of the function. -/
def Applied.name : Applied → String
  | real f => f.name
  | constructor c => c.name
  | defined name _ => name

mutual
/-- A signal expression over the scalars `α`. -/
inductive Sound (α : Type) where
  /-- The same value always. -/
  | const (value : α)
  /-- `slope * t + intercept`. -/
  | linear (slope intercept : α)
  /-- `sin (2 π frequency t + phase)`. -/
  | sine (frequency phase : α)
  /-- `intercept * exp (coefficient * t)`. -/
  | decay (coefficient intercept : α)
  /-- White noise, uniform in `[-1, 1)`; a seed fixes it. -/
  | noise (seed : Option Int)
  | minus (s : Sound α)
  | reciprocal (s : Sound α)
  | binary (op : Operator) (left right : Sound α)
  /-- A function applied to its arguments at every time. -/
  | apply (f : Applied) (args : List (Argument α))

/-- An argument of an applied function, with the name it was given by, if any. -/
inductive Argument (α : Type) where
  | real (label : Option String) (x : α)
  /-- A whole number handed in from outside, which stays exact. -/
  | whole (label : Option String) (n : Int)
  | sound (label : Option String) (s : Sound α)
end

namespace Argument

variable {α : Type}

/-- The name an argument was given by. -/
def label : Argument α → Option String
  | real label _ | whole label _ | sound label _ => label

end Argument

namespace Sound

variable {α : Type} [Scalar α]

mutual
/-- The sound moved by `t` seconds: its value at any time `x` is that of `s` at `x + t`. -/
def shift (t : α) : Sound α → Sound α
  | const v => const v
  | linear slope intercept => linear slope (Scalar.add intercept (Scalar.mul slope t))
  | sine frequency phase =>
    sine frequency (Scalar.add phase (Scalar.mul (Scalar.mul Scalar.tau frequency) t))
  | decay coefficient intercept =>
    decay coefficient (Scalar.mul intercept (Scalar.exp (Scalar.mul coefficient t)))
  | noise seed => noise seed
  | minus s => minus (s.shift t)
  | reciprocal s => reciprocal (s.shift t)
  | binary op left right => binary op (left.shift t) (right.shift t)
  | apply f args => apply f (shiftArguments t args)

/-- Only the signals among the arguments move. -/
def shiftArguments (t : α) : List (Argument α) → List (Argument α)
  | [] => []
  | .sound label s :: rest => .sound label (s.shift t) :: shiftArguments t rest
  | .real label x :: rest => .real label x :: shiftArguments t rest
  | .whole label n :: rest => .whole label n :: shiftArguments t rest
end

end Sound

end SignalCalc.Signal
