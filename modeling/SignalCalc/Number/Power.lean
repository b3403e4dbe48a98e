import SignalCalc.Number.Library

/-!
# Arithmetic that never fails

Programs compute with all floats and get an answer from every operation.  `quotient`, `power` and
`exponential` are the operations of the float library with an infinity or NaN in place of an error or of
a complex number.  `realsEqual` is the tolerant equality of the calculator.
-/

namespace SignalCalc.Number

/-- The quotient of two floats.  By zero it is NaN for a zero and for NaN, and an infinity with the
sign of a quotient for all others. -/
def quotient (a b : Float) : Float :=
  match quotient? a b with
  | some x => x
  | none => if a == 0.0 || a.isNaN then nan else copySign infinity a * copySign 1.0 b

/-- The power of two floats.  A complex power is NaN.  A refused one is an infinity, negative if the
exponent is an odd whole number and the base is negative, be it a zero. -/
def power (base exponent : Float) : Float :=
  match power? base exponent with
  | .ok (.real x) => x
  | .ok .complex => nan
  | .error .zeroDivision => if isOddWhole exponent then copySign infinity base else infinity
  | .error .overflow => if base < 0.0 && isOddWhole exponent then -infinity else infinity

/-- The exponential function, infinity where it is beyond all floats. -/
def exponential (x : Float) : Float :=
  match exponential? x with
  | some y => y
  | none => infinity

/-- What a function of the library gives, with NaN or infinity in place of an error. -/
def orSpecial : Except FunctionError Float → Float
  | .ok x => x
  | .error .domain => nan
  | .error .overflow => infinity

/-! ## Equality -/

/-- Reals closer than this count as equal. -/
def equalityTolerance : Float := 1e-6

/-- Equality of reals up to the tolerance; an infinity equals itself. -/
def realsEqual (a b : Float) : Bool :=
  a == b || (a - b).abs < equalityTolerance

end SignalCalc.Number
