import SignalCalc.Number.Power
import SignalCalc.Builtin.RealFunction

/-!
# Scalars

Signals are built over any type of numbers with the operations of `Scalar`.  Programs run over
floats; the same definitions read over the exact reals are what the laws of time speak about.
-/

namespace SignalCalc.Signal

open SignalCalc.Builtin

/-- A point of the plane, as a complex number. -/
structure Phasor (α : Type) where
  re : α
  im : α
  deriving DecidableEq, Repr

/-- Numbers that signals can be built over. -/
class Scalar (α : Type) where
  add : α → α → α
  sub : α → α → α
  mul : α → α → α
  div : α → α → α
  pow : α → α → α
  neg : α → α
  zero : α
  one : α
  exp : α → α
  /-- A full turn. -/
  tau : α
  /-- The point of the unit circle at an angle. -/
  direction : α → Phasor α
  /-- The change over one sample of what changes by an amount in a second. -/
  perSample : α → α → α
  isFinite : α → Bool
  /-- The value of what has no value. -/
  undefined : α
  /-- The number equal to, or nearest to, a whole number, where there is one. -/
  ofWhole? : Int → Option α
  /-- The number in `[-1, 1)` of a draw from the 53-bit numbers. -/
  ofDraw : Nat → α
  /-- The value of a real function at a row of arguments. -/
  apply : RealFunction → List α → α

namespace Scalar

variable {α : Type} [Scalar α]

/-- The product of complex numbers. -/
def mulPhasor (a b : Phasor α) : Phasor α :=
  ⟨sub (mul a.re b.re) (mul a.im b.im), add (mul a.re b.im) (mul a.im b.re)⟩

/-- One divided by a number. -/
def reciprocal (x : α) : α := div one x

end Scalar

/-- Floats as they are, with a full turn of `2 π` rounded.  At the angle zero, of either sign,
the point of the unit circle keeps the angle as its height. -/
instance : Scalar Float where
  add := (· + ·)
  sub := (· - ·)
  mul := (· * ·)
  div := Number.quotient
  pow := Number.power
  neg := (- ·)
  zero := 0.0
  one := 1.0
  exp := Number.exponential
  tau := 6.283185307179586
  direction p := if p == 0.0 then ⟨1.0, p⟩ else ⟨Float.cos p, Float.sin p⟩
  perSample := Number.quotient
  isFinite := Float.isFinite
  undefined := Number.nan
  ofWhole? := Number.wholeFloat?
  ofDraw n := -1.0 + 2.0 * (n.toUInt64.toFloat / 9007199254740992.0)
  apply := RealFunction.apply

end SignalCalc.Signal
