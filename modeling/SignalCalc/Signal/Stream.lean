import SignalCalc.Signal.Sound
import SignalCalc.Signal.Generator

/-!
# Streams of samples

A `Stream` is the state of a sound that is being played at a fixed rate: `Stream.step` gives the
next sample and the state after it.  Lines, sines and decays are not evaluated again for every
sample; their streams add, rotate and multiply.

`Sound.stream` starts a sound.  Only applied functions can refuse to start, because their
arguments are bound when the stream is built.  In the stream of an applied function each slot
either keeps its real or holds the stream of its own argument.
-/

namespace SignalCalc.Signal

open SignalCalc.Builtin
open SignalCalc.Call

mutual
/-- The state of a sound that is being played. -/
inductive Stream (α : Type) where
  | const (value : α)
  | linear (current step : α)
  | sine (current rotation : Phasor α)
  | decay (current ratio : α)
  | noise (generator : Generator)
  | minus (s : Stream α)
  | reciprocal (s : Stream α)
  | binary (op : Operator) (left right : Stream α)
  | apply (f : Applied) (slots : List (Slot α))

/-- A parameter of an applied function while it is being played. -/
inductive Slot (α : Type) where
  | fixed (x : α)
  | live (s : Stream α)
end

/-- Arguments that do not fit the function they are applied to. -/
structure StreamError (α : Type) where
  function : String
  cause : BindError (Argument α)

/-- An argument together with the slot it would fill. -/
abbrev Prepared (α : Type) := Argument α × Except (StreamError α) (Slot α)

namespace Applied

variable {β : Type}

/-- The parameters of an applied function. -/
def signature (start : β) : Applied → Signature β
  | real f => ⟨f.name, f.parameterNames.map fun name => ⟨name, .real, none⟩⟩
  | constructor c => ⟨c.name, c.parameters start⟩
  | defined name params => ⟨name, params.map fun param => ⟨param, .any, none⟩⟩

/-- A real function takes a signal in any place. -/
def takesSignals : Applied → Bool
  | real _ => true
  | _ => false

end Applied

section Start

variable {α : Type} [Scalar α]

/-- What a parameter of an applied function makes of an argument: a real parameter takes reals,
and signals if the function is a real function; a sound parameter takes a real as a constant. -/
def acceptPrepared (takesSignals : Bool) (kind : Kind) (p : Prepared α) :
    Except Refusal (Prepared α) :=
  match kind, p.1 with
  | .any, _ => .ok p
  | .real, .real _ _ => .ok p
  | .real, .whole label n =>
    match Scalar.ofWhole? (α := α) n with
    | some x => .ok (.real label x, .ok (.fixed x))
    | none => .error .tooLarge
  | .sound, .real label x => .ok (.sound label (.const x), .ok (.live (.const x)))
  | .sound, .whole label n =>
    match Scalar.ofWhole? (α := α) n with
    | some x => .ok (.sound label (.const x), .ok (.live (.const x)))
    | none => .error .tooLarge
  | .sound, .sound _ _ => .ok p
  | .real, .sound _ _ => if takesSignals then .ok p else .error .wrongKind
  | _, _ => .error .wrongKind

/-- The slots of an applied function from its prepared arguments. -/
def Applied.slots (f : Applied) (prepared : List (Prepared α)) :
    Except (StreamError α) (List (Slot α)) :=
  let positional := prepared.filter (·.1.label.isNone)
  let named := prepared.filterMap fun p => p.1.label.map fun name => (name, p)
  match (f.signature (.real none Scalar.zero, .ok (.fixed Scalar.zero))).bind
      (acceptPrepared f.takesSignals) positional (lastWins named) with
  | .ok bound => bound.mapM (·.2)
  | .error cause => .error ⟨f.name, match cause with
      | .arity expected found => .arity expected found
      | .unknownName name => .unknownName name
      | .secondValue name => .secondValue name
      | .wrongKind p => .wrongKind p.1
      | .tooLarge => .tooLarge⟩

/-- A sine at a rate.  A phase or an angle per sample that is not finite has no direction, and
such a sine has no value at any sample. -/
def sineStream (rate frequency phase : α) : Stream α :=
  let angle := Scalar.mul Scalar.tau (Scalar.perSample frequency rate)
  if Scalar.isFinite phase && Scalar.isFinite angle then
    .sine (Scalar.direction phase) (Scalar.direction angle)
  else
    .sine ⟨Scalar.undefined, Scalar.undefined⟩ ⟨Scalar.undefined, Scalar.undefined⟩

mutual
/-- A sound at the start of being played at a rate.  Noise without a seed may be any noise; it
is played like noise of seed zero. -/
def Sound.stream (rate : α) : Sound α → Except (StreamError α) (Stream α)
  | .const v => .ok (.const v)
  | .linear slope intercept => .ok (.linear intercept (Scalar.perSample slope rate))
  | .sine frequency phase => .ok (sineStream rate frequency phase)
  | .decay coefficient intercept =>
    .ok (.decay intercept (Scalar.exp (Scalar.perSample coefficient rate)))
  | .noise seed => .ok (.noise (Generator.ofSeed (seed.getD 0)))
  | .minus s => .minus <$> s.stream rate
  | .reciprocal s => .reciprocal <$> s.stream rate
  | .binary op left right => do
    let l ← left.stream rate
    let r ← right.stream rate
    return .binary op l r
  | .apply f args => .apply f <$> f.slots (prepare rate args)

/-- The arguments of an applied function, each with the slot it would fill. -/
def prepare (rate : α) : List (Argument α) → List (Prepared α)
  | [] => []
  | .real label x :: rest => (.real label x, .ok (.fixed x)) :: prepare rate rest
  | .whole label n :: rest =>
    (.whole label n, .ok (.fixed ((Scalar.ofWhole? n).getD Scalar.undefined))) ::
      prepare rate rest
  | .sound label s :: rest => (.sound label s, .live <$> s.stream rate) :: prepare rate rest
end

end Start

namespace Stream

variable {α : Type} [Scalar α]

/-- The sample of an applied function from the values in its slots. -/
def applyTo (f : Applied) (values : List α) : α :=
  match f with
  | .real f => Scalar.apply f values
  | .constructor .const => values.headD Scalar.undefined
  | _ => Scalar.undefined

mutual
/-- The next sample and the state after it. -/
def step : Stream α → α × Stream α
  | const v => (v, const v)
  | linear current change => (current, linear (Scalar.add current change) change)
  | sine current rotation => (current.im, sine (Scalar.mulPhasor current rotation) rotation)
  | decay current ratio => (current, decay (Scalar.mul current ratio) ratio)
  | noise generator =>
    let (n, after) := generator.draw
    (Scalar.ofDraw n, noise after)
  | minus s =>
    let (x, after) := s.step
    (Scalar.neg x, minus after)
  | reciprocal s =>
    let (x, after) := s.step
    (Scalar.reciprocal x, reciprocal after)
  | binary op left right =>
    let (l, leftAfter) := left.step
    let (r, rightAfter) := right.step
    (op.apply l r, binary op leftAfter rightAfter)
  | apply f slots =>
    let (values, after) := stepSlots slots
    (applyTo f values, apply f after)

/-- The values of all slots; a fixed slot keeps its real. -/
def stepSlots : List (Slot α) → List α × List (Slot α)
  | [] => ([], [])
  | .fixed x :: rest =>
    let (values, after) := stepSlots rest
    (x :: values, .fixed x :: after)
  | .live s :: rest =>
    let (x, sAfter) := s.step
    let (values, after) := stepSlots rest
    (x :: values, .live sAfter :: after)
end

/-- The next samples, put behind those already taken, and the state after them. -/
def collect : Nat → Stream α → Array α → Array α × Stream α
  | 0, s, taken => (taken, s)
  | n + 1, s, taken =>
    let (x, after) := s.step
    collect n after (taken.push x)

/-- The next `n` samples and the state after them. -/
def take (n : Nat) (s : Stream α) : Array α × Stream α := s.collect n #[]

theorem size_collect (n : Nat) (s : Stream α) (taken : Array α) :
    (s.collect n taken).1.size = taken.size + n := by
  induction n generalizing s taken with
  | zero => rfl
  | succ n ih =>
    rw [collect, ih]
    simp
    omega

@[simp] theorem size_take (n : Nat) (s : Stream α) : (s.take n).1.size = n := by
  simp [take, size_collect]

end Stream

/-! ## Functions that give no number

A sound handed in from outside may apply a function that is no real function.  Such a sound can
be shown, moved and started, but it has no samples.  What goes wrong is known before the first
sample is taken. -/

/-- What a sample turns out to be. -/
inductive Yield where
  | number
  | sound
  deriving DecidableEq, Repr

/-- Why a stream has no samples. -/
inductive Fault where
  /-- A signal stands where a number is needed. -/
  | notANumber
  /-- A number stands where a signal is needed. -/
  | notASignal
  /-- A function defined by a program cannot be applied sample by sample. -/
  | notApplicable
  deriving DecidableEq, Repr

namespace Stream

variable {α : Type}

/-- What an applied function gives for arguments of the given sorts. -/
def yieldOf (f : Applied) (args : List Yield) : Except Fault Yield :=
  match f with
  | .real _ => if args.contains .sound then .error .notANumber else .ok .number
  | .constructor .const => .ok (args.headD .number)
  | .constructor .shift =>
    if args.headD .number == .sound then .ok .sound else .error .notASignal
  | .constructor _ => .ok .sound
  | .defined _ _ => .error .notApplicable

mutual
/-- What the samples of a stream are, or the first fault on the way to one. -/
def yields : Stream α → Except Fault Yield
  | const _ | linear _ _ | sine _ _ | decay _ _ | noise _ => .ok .number
  | minus s => s.yields
  | reciprocal s => s.yields
  | binary op left right => do
    let l ← left.yields
    let r ← right.yields
    if l == .number && r == .number then return .number
    else if op == .pow then throw .notANumber
    else return .sound
  | apply f slots => do yieldOf f (← slotYields slots)

/-- What the slots of an applied function hold. -/
def slotYields : List (Slot α) → Except Fault (List Yield)
  | [] => .ok []
  | .fixed _ :: rest => do return .number :: (← slotYields rest)
  | .live s :: rest => do
    let y ← s.yields
    return y :: (← slotYields rest)
end

/-- The fault that keeps a stream from giving numbers, if there is one. -/
def fault? (s : Stream α) : Option Fault :=
  match s.yields with
  | .ok .number => none
  | .ok .sound => some .notANumber
  | .error fault => some fault

end Stream

end SignalCalc.Signal
