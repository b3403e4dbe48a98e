import SignalCalc.Number.Exact

/-!
# The float library

The float library refuses what has no float for an answer, and each operation has errors of its own.

* A quotient by zero is refused (`quotient?`).
* A power of zero with a negative exponent is refused, and one beyond all floats.  A negative base
  with a fractional exponent has a complex power (`power?`).
* The exponential function is refused where it is beyond all floats (`exponential?`).
* A function of one float is refused where its value is NaN without an argument that is NaN, or
  infinite at a finite argument (`call?`).

Powers and exponentials at zeros, ones, infinities and NaN are stated here case by case; only what
lies between is left to the library.
-/

namespace SignalCalc.Number

/-- A size with the sign of another number. -/
def copySign (size sign : Float) : Float :=
  if isNegative sign then -size.abs else size.abs

/-! ## Quotients -/

/-- The quotient of two floats; none by zero. -/
def quotient? (a b : Float) : Option Float :=
  if b == 0.0 then none else some (a / b)

/-! ## Powers -/

/-- Why two floats have no power. -/
inductive PowerError where
  /-- A zero with a negative exponent, which is a division by zero. -/
  | zeroDivision
  /-- A power beyond all floats. -/
  | overflow
  deriving DecidableEq, Repr

/-- The power of two floats. -/
inductive LibraryPower where
  | real (x : Float)
  /-- A complex number.  Nothing is made of its value. -/
  | complex
  deriving DecidableEq, Repr

/-- Real powers of a base that is not negative; neither number is NaN and the exponent is not
zero.  From base two and exponent 1024 on every power is beyond all floats. -/
def powerOfSize (size exponent : Float) : Float :=
  if size == 0.0 then (if exponent < 0.0 then infinity else 0.0)
  else if size.isInf then (if exponent < 0.0 then 0.0 else infinity)
  else if size == 1.0 then 1.0
  else if exponent.isInf then (if (size > 1.0) == (exponent > 0.0) then infinity else 0.0)
  else if size ≥ 2.0 && exponent ≥ 1024.0 then infinity
  else Float.pow size exponent

/-- The power of two floats.  A negative base, zero and infinity included, gives a negative power
for odd exponents.  Only powers of finite numbers can be beyond all floats; a complex one is if the
power of the size of its base is. -/
def power? (base exponent : Float) : Except PowerError LibraryPower :=
  if exponent == 0.0 || base == 1.0 then .ok (.real 1.0)
  else if base.isNaN || exponent.isNaN then .ok (.real nan)
  else if base == 0.0 && exponent < 0.0 then .error .zeroDivision
  else
    let size := powerOfSize base.abs exponent
    if base < 0.0 && base.isFinite && exponent.isFinite && !isWhole exponent then
      if size.isInf then .error .overflow else .ok .complex
    else if size == infinity && base.isFinite && exponent.isFinite then .error .overflow
    else if isNegative base && isOddWhole exponent then .ok (.real (-size))
    else .ok (.real size)

/-! ## Functions of one float -/

/-- The exponential function; none beyond all floats.  It is one at zero of either sign. -/
def exponential? (x : Float) : Option Float :=
  let value :=
    if x.isNaN then nan
    else if x == 0.0 then 1.0
    else if x.isInf then (if x > 0.0 then infinity else 0.0)
    else Float.exp x
  if value.isInf && x.isFinite then none else some value

/-- Why a function of the library has no value. -/
inductive FunctionError where
  /-- The argument is outside the domain, or a pole. -/
  | domain
  /-- The value is beyond all floats. -/
  | overflow
  deriving DecidableEq, Repr

/-- A function of the library with its checks. -/
def call? (f : Float → Float) (x : Float) : Except FunctionError Float :=
  let value := f x
  if value.isNaN && !x.isNaN then .error .domain
  else if value.isInf && x.isFinite then .error .domain
  else .ok value

end SignalCalc.Number
