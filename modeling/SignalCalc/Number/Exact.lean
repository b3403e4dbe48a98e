/-!
# Exact values of floats

A finite float is a whole number times a power of two.  This file takes that number apart, so
that every question about size, parity, rounding or digits is answered in `Nat` and `Int` and
never by a second, rounded, computation.

* `Dyadic.ofFloat?` is the exact value of a finite float.
* `Dyadic.truncate` and `Dyadic.floor` round it to a whole number.
* `wholeFloat?` is the float nearest to a whole number, where one is near.
* `nearestQuotient` is the float nearest to a quotient of whole numbers.
-/

namespace SignalCalc

-- Powers of whole numbers are the ones that are computed, also where those of monoids are known.
-- A literal exponent is written with its type, since the default for one is the power of monoids.
attribute [scoped instance (high)] instPowNat

end SignalCalc

namespace SignalCalc.Number

/-- The number `± mantissa * 2 ^ exponent`.  The sign is kept apart so that a negative zero
remains one. -/
structure Dyadic where
  negative : Bool
  mantissa : Nat
  exponent : Int
  deriving DecidableEq, Repr

namespace Dyadic

/-- The exact value of a float; NaN and the infinities have none. -/
def ofFloat? (x : Float) : Option Dyadic :=
  match x.toModel.unpack with
  | .finite sign mantissa exponent _ => some ⟨sign == .negative, mantissa, exponent⟩
  | .zero sign => some ⟨sign == .negative, 0, 0⟩
  | .infinity _ => none
  | .notANumber => none

/-- The size of the number as a fraction: numerator and denominator. -/
def magnitude (d : Dyadic) : Nat × Nat :=
  if 0 ≤ d.exponent then (d.mantissa * 2 ^ d.exponent.toNat, 1)
  else (d.mantissa, 2 ^ (-d.exponent).toNat)

/-- The number gets its sign back after a computation on its size. -/
def signed (d : Dyadic) (n : Nat) : Int :=
  if d.negative then -(n : Int) else n

/-- The number cut to a whole number, toward zero. -/
def truncate (d : Dyadic) : Int :=
  d.signed (d.magnitude.1 / d.magnitude.2)

/-- No part of the number stands behind the point. -/
def isWhole (d : Dyadic) : Bool :=
  d.magnitude.1 % d.magnitude.2 == 0

/-- The largest whole number that is not above the number. -/
def floor (d : Dyadic) : Int :=
  if d.negative && !d.isWhole then d.truncate - 1 else d.truncate

end Dyadic

/-- A float cut to a whole number, toward zero; NaN and the infinities have no such number. -/
def truncate? (x : Float) : Option Int :=
  (Dyadic.ofFloat? x).map Dyadic.truncate

/-- A finite float without a part behind the point. -/
def isWhole (x : Float) : Bool :=
  (Dyadic.ofFloat? x).any Dyadic.isWhole

/-- A finite float that is an odd whole number. -/
def isOddWhole (x : Float) : Bool :=
  (Dyadic.ofFloat? x).any fun d => d.isWhole && d.truncate % 2 == 1

/-- The sign bit of a float; NaN counts as positive. -/
def isNegative (x : Float) : Bool :=
  match x.toModel.unpack with
  | .finite sign _ _ _ => sign == .negative
  | .zero sign => sign == .negative
  | .infinity sign => sign == .negative
  | .notANumber => false

/-- Positive infinity. -/
def infinity : Float := 1.0 / 0.0

/-- The value that is no number. -/
def nan : Float := 0.0 / 0.0

/-- The float nearest to a whole number; none if that would be an infinity. -/
def wholeFloat? (n : Int) : Option Float :=
  let x := Float.ofInt n
  if x.isFinite then some x else none

/-- A quotient rounded to the nearest whole number, a half to the even one. -/
def roundHalfEven (num den : Nat) : Nat :=
  let below := num / den
  let rest := 2 * (num % den)
  if rest < den || (rest == den && below % 2 == 0) then below else below + 1

/-- `n * base ^ e` as a factor of a numerator, and of a denominator for a negative `e`. -/
def powerFraction (base : Nat) (e : Int) : Nat × Nat :=
  if 0 ≤ e then (base ^ e.toNat, 1) else (1, base ^ (-e).toNat)

/-- The largest power of two that is not above `num / den`, as its exponent. -/
def quotientLog2 (num den : Nat) : Int :=
  let guess := (num.log2 : Int) - den.log2
  let (up, down) := powerFraction 2 guess
  if den * up ≤ num * down then guess else guess - 1

/-- The exponent of the least float above zero. -/
def leastExponent : Int := -1074

/-- The float nearest to a quotient, a tie going to the even one, or infinity.  Its mantissa has 53
bits unless the exponent is the least one.  The bits of a float are counted on from those of the
least float of the same exponent, so a mantissa that rounds up to 54 bits needs no care. -/
def nearestQuotient (num den : Nat) : Float :=
  if num = 0 then 0.0
  else
    let exponent := max (quotientLog2 num den - 52) leastExponent
    let (up, down) := powerFraction 2 exponent
    let mantissa := roundHalfEven (num * down) (den * up)
    let bits := (exponent - leastExponent).toNat * 2 ^ (52 : Nat) + mantissa
    if bits < 0x7ff0000000000000 then Float.ofBits (UInt64.ofNat bits) else infinity

/-- The float nearest to the quotient of two whole numbers; none if that would be an infinity. -/
def wholeQuotient? (a b : Int) : Option Float :=
  let size := nearestQuotient a.natAbs b.natAbs
  if size.isFinite then some (if (a < 0) != (b < 0) then -size else size) else none

end SignalCalc.Number
