import SignalCalc.Signal.Stream
import SignalCalc.Evaluation.Failure

/-!
# Rendering

A value is rendered by playing it for a time: a signal as it is, a real as a constant signal.
The count of samples is the time in seconds times the rate, cut to a whole number.
-/

namespace SignalCalc.Render

open SignalCalc.Signal

/-- Why a value cannot be rendered. -/
inductive RenderError where
  /-- The value is no signal, or a function in it does not fit its arguments. -/
  | cause (cause : Cause)
  /-- The count of samples is no number. -/
  | countUndefined
  /-- The count of samples is infinite. -/
  | countInfinite
  /-- The signal has no samples. -/
  | fault (fault : Fault)
  /-- A sound file needs a positive frame rate. -/
  | badFrameRate
  /-- The sizes in the header of a sound file have 32 bits. -/
  | headerTooLarge

/-- A value as a signal. -/
def asSound (v : Value) : Except Cause (Sound Float) :=
  match v.lift? with
  | some (.ok s) => .ok s
  | some (.error e) => .error (.tooLarge e)
  | none => .error (.mismatch "render" [v])

/-- An argument of an applied function as a value. -/
def argumentValue : Argument Float → Value
  | .real _ x => .real x
  | .whole _ n => .whole n
  | .sound _ s => .sound s

/-- The cause of a stream that cannot start. -/
def streamCause (e : StreamError Float) : Cause :=
  .ofBindError e.function <|
    match e.cause with
    | .arity expected found => .arity expected found
    | .unknownName name => .unknownName name
    | .secondValue name => .secondValue name
    | .wrongKind arg => .wrongKind (argumentValue arg)
    | .tooLarge => .tooLarge

/-- A sound at the start of being played. -/
def start (rate : Float) (s : Sound Float) : Except RenderError (Stream Float) :=
  match s.stream rate with
  | .ok stream => .ok stream
  | .error e => .error (.cause (streamCause e))

/-- The next samples of a stream, and the stream after them. -/
def play (n : Nat) (stream : Stream Float) : Except RenderError (Array Float × Stream Float) :=
  match stream.fault? with
  | some fault => if n = 0 then .ok (#[], stream) else .error (.fault fault)
  | none => .ok (stream.take n)

/-- The count of samples in a time; none for a time before zero. -/
def sampleCount (rate seconds : Float) : Except RenderError Nat :=
  let product := seconds * rate
  match Number.truncate? product with
  | some n => .ok n.toNat
  | none => .error (if product.isNaN then .countUndefined else .countInfinite)

/-- The samples of a value. -/
def samples (v : Value) (rate seconds : Float) : Except RenderError (Array Float) := do
  let s ← (asSound v).mapError .cause
  let stream ← start rate s
  let count ← sampleCount rate seconds
  return (← play count stream).1

end SignalCalc.Render
