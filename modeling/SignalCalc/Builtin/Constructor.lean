import SignalCalc.Call.Signature

/-!
# Built-in functions on signals

The built-in functions that build signals or move them in time.  Their parameters have kinds of
their own, and they are called at once: they are never applied sample by sample.
-/

namespace SignalCalc.Builtin

/-- The built-in functions that give a signal. -/
inductive Constructor where
  /-- A sine of a frequency, with a phase that may be left out. -/
  | sine
  /-- A decay by a factor of `e` in every `tau` seconds. -/
  | decay
  /-- A straight line. -/
  | linear
  /-- Noise that no seed fixes. -/
  | rand
  /-- Noise that its seed fixes. -/
  | noise
  /-- A real as a constant signal. -/
  | const
  /-- A signal moved in time. -/
  | shift
  deriving DecidableEq, Repr

namespace Constructor

/-- All constructors, in the order of their names. -/
def all : List Constructor := [const, decay, linear, noise, rand, sine, shift]

/-- The name a program calls the function by. -/
def name : Constructor → String
  | sine => "Sin"
  | decay => "Exp"
  | linear => "Linear"
  | rand => "Rand"
  | noise => "Noise"
  | const => "Const"
  | shift => "shift"

/-- The parameters; `start` is the phase that a sine has unless the call gives one. -/
def parameters {β : Type} (start : β) : Constructor → List (Call.Parameter β)
  | sine => [⟨"frequency", .real, none⟩, ⟨"phase", .real, some start⟩]
  | decay => [⟨"tau", .real, none⟩]
  | linear => [⟨"slope", .real, none⟩, ⟨"intercept", .real, none⟩]
  | rand => []
  | noise => [⟨"seed", .real, none⟩]
  | const => [⟨"value", .sound, none⟩]
  | shift => [⟨"sound", .sound, none⟩, ⟨"seconds", .real, none⟩]

end Constructor

end SignalCalc.Builtin
