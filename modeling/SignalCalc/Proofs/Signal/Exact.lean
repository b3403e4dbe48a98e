import Mathlib
import SignalCalc.Signal.Sound

/-!
# Signals in exact arithmetic

The laws of time hold where nothing is rounded.  Here signals are read over the real numbers:
sums, differences, products and negatives are exact, a full turn is `2 π`, points of the unit
circle are cosines and sines, and what changes by an amount in a second changes by that amount
divided by the rate in a sample.

The laws of time do not depend on what division, powers and the real functions are, since these
are only ever applied sample by sample.  So they are left open, as `FreeOperations`.

A stream does not evaluate a line, a sine or a decay again for every sample: it adds, rotates and
multiplies.  The closed forms of these recurrences are `iterate_add`, `iterate_mulPhasor` and
`iterate_mul_exp`.
-/

namespace SignalCalc.Signal

open SignalCalc.Builtin

/-- The operations on real numbers that the laws of time leave open. -/
class FreeOperations where
  div : ℝ → ℝ → ℝ
  pow : ℝ → ℝ → ℝ
  apply : RealFunction → List ℝ → ℝ
  undefined : ℝ
  ofDraw : ℕ → ℝ

/-- Real numbers as they are: nothing is rounded, all of them are finite, and all whole numbers
are among them. -/
noncomputable instance [FreeOperations] : Scalar ℝ where
  add := (· + ·)
  sub := (· - ·)
  mul := (· * ·)
  div := FreeOperations.div
  pow := FreeOperations.pow
  neg := (- ·)
  zero := 0
  one := 1
  exp := Real.exp
  tau := 2 * Real.pi
  direction p := ⟨Real.cos p, Real.sin p⟩
  perSample x rate := x / rate
  isFinite _ := true
  undefined := FreeOperations.undefined
  ofWhole? n := some n
  ofDraw := FreeOperations.ofDraw
  apply := FreeOperations.apply

/-- Division and powers of real numbers, and the real functions as they are on real numbers. -/
@[reducible]
noncomputable def usualOperations : FreeOperations where
  div := (· / ·)
  pow := (· ^ ·)
  apply
    | .sin, [x] => Real.sin x
    | .cos, [x] => Real.cos x
    | .tan, [x] => Real.tan x
    | .exp, [x] => Real.exp x
    | .ln, [x] => Real.log x
    | .sqrt, [x] => √x
    | .abs, [x] => |x|
    | .floor, [x] => ⌊x⌋
    | .max, [a, b] => max a b
    | .min, [a, b] => min a b
    | _, _ => 0
  undefined := 0
  ofDraw n := -1 + 2 * (n / 2 ^ 53)

namespace Scalar

variable [FreeOperations]

@[simp] lemma add_eq (x y : ℝ) : Scalar.add x y = x + y := rfl

@[simp] lemma mul_eq (x y : ℝ) : Scalar.mul x y = x * y := rfl

@[simp] lemma exp_eq (x : ℝ) : Scalar.exp x = Real.exp x := rfl

@[simp] lemma tau_eq : (Scalar.tau : ℝ) = 2 * Real.pi := rfl

@[simp] lemma perSample_eq (x rate : ℝ) : Scalar.perSample x rate = x / rate := rfl

/-! ## Recurrences in closed form -/

lemma iterate_add (x change : ℝ) (n : ℕ) :
    (Scalar.add · change)^[n] x = x + n * change := by
  show (· + change)^[n] x = _
  rw [add_right_iterate, nsmul_eq_mul]

lemma iterate_mul_exp (x c : ℝ) (n : ℕ) :
    (Scalar.mul · (Scalar.exp c))^[n] x = x * Real.exp (n * c) := by
  show (· * Real.exp c)^[n] x = _
  rw [mul_right_iterate, Real.exp_nat_mul]

/-- Multiplying points of the unit circle adds their angles. -/
lemma mulPhasor_direction (a b : ℝ) :
    mulPhasor (direction a) (direction b) = direction (a + b) := by
  show Phasor.mk _ _ = Phasor.mk _ _
  rw [Real.cos_add, Real.sin_add, add_comm (_ * _)]
  rfl

lemma iterate_mulPhasor (a b : ℝ) (n : ℕ) :
    (mulPhasor · (direction b))^[n] (direction a) = direction (a + n * b) := by
  induction n with
  | zero => rw [Function.iterate_zero_apply, Nat.cast_zero, zero_mul, add_zero]
  | succ n ih =>
    have hangle : a + ((n + 1 : ℕ) : ℝ) * b = a + n * b + b := by
      push_cast
      ring
    rw [Function.iterate_succ_apply', ih, mulPhasor_direction, hangle]

end Scalar

/-- A sine divided by a line, kept above a decay that is given by name. -/
noncomputable def fadedSine : Sound ℝ :=
  .apply (.real .max)
    [.sound (some "b") (.binary .mul (.decay (-3) 2) (.const 4)),
      .sound (some "a") (.binary .div (.sine 440 1) (.linear 2 1))]

end SignalCalc.Signal
