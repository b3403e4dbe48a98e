import SignalCalc.Value.Basic

/-!
# Arithmetic on values

Operators on two numbers.  Floats are combined as floats.  Whole numbers from outside are exact
among themselves and become floats when they meet one; a whole number beyond every float cannot,
and that is the only way for arithmetic to fail.
-/

namespace SignalCalc

open SignalCalc.Signal

/-- A whole number that has no float, with the way it came up. -/
inductive TooLarge where
  /-- A whole number beyond every float. -/
  | number
  /-- A quotient of whole numbers beyond every float. -/
  | quotient
  deriving DecidableEq, Repr

/-- The message that tells of it. -/
def TooLarge.message : TooLarge → String
  | number => "int too large to convert to float"
  | quotient => "integer division result too large for a float"

namespace Value

/-- The float of a whole number. -/
def floatOf (n : Int) : Except TooLarge Float :=
  match Number.wholeFloat? n with
  | some x => .ok x
  | none => .error .number

/-- The quotient of two whole numbers.  By zero it is NaN or an infinity, like that of floats. -/
def wholeQuotient (a b : Int) : Except TooLarge Float :=
  if b = 0 then
    if a = 0 then .ok Number.nan else (Number.quotient · 0.0) <$> floatOf a
  else
    match Number.wholeQuotient? a b with
    | some x => .ok x
    | none => .error .quotient

/-- A power one side of which is beyond every float: an infinity, with the sign of the true
power.  The exponent decides the sign and needs to have a float for that. -/
def powerBeyond (negativeBase : Bool) (exponent : Int ⊕ Float) : Except TooLarge Float :=
  if negativeBase then do
    let odd ← match exponent with
      | .inl n => do
        let _ ← floatOf n
        pure (n % 2 == 1)
      | .inr x => pure (Number.isOddWhole x)
    return if odd then -Number.infinity else Number.infinity
  else .ok Number.infinity

/-- A power of a float with a whole exponent.  Where it is infinite the exponent itself decides
the sign, not its float. -/
def powerToWhole (a : Float) (b : Int) : Except TooLarge Float :=
  match Number.wholeFloat? b with
  | none => powerBeyond (a < 0.0) (.inl b)
  | some y =>
    let p := Number.power a y
    .ok <|
      if p.isInf && a.isFinite then
        if Number.isNegative a && b % 2 == 1 then -Number.infinity else Number.infinity
      else p

/-- A power of whole numbers.  With an exponent that is not negative it is exact before it
becomes a float. -/
def wholePower (a b : Int) : Except TooLarge Float :=
  if 0 ≤ b then
    if a.natAbs ≤ 1 then floatOf (if b = 0 then 1 else if b % 2 = 0 then a * a else a)
    else if b > 2000 then .error .number
    else floatOf (a ^ b.toNat)
  else
    match Number.wholeFloat? a, Number.wholeFloat? b with
    | some x, some y => .ok (Number.power x y)
    | _, _ => powerBeyond (a < 0) (.inl b)

/-- An operator on whole numbers. -/
def wholeArithmetic (op : Operator) (a b : Int) : Except TooLarge Value :=
  match op with
  | .add => .ok (whole (a + b))
  | .sub => .ok (whole (a - b))
  | .mul => .ok (whole (a * b))
  | .div => real <$> wholeQuotient a b
  | .pow => real <$> wholePower a b

/-- An operator on two numbers; nothing if one of the values is no number. -/
def arithmetic? (op : Operator) : Value → Value → Option (Except TooLarge Value)
  | real a, real b => some (.ok (real (op.apply a b)))
  | whole a, whole b => some (wholeArithmetic op a b)
  | real a, whole b => some <|
    match op with
    | .pow => real <$> powerToWhole a b
    | op => (fun y => real (op.apply a y)) <$> floatOf b
  | whole a, real b => some <|
    match Number.wholeFloat? a, op with
    | some x, op => .ok (real (op.apply x b))
    | none, .pow => real <$> powerBeyond (a < 0) (.inr b)
    | none, _ => .error .number
  | _, _ => none

/-- The order of a whole number and a float, both taken exactly. -/
def compareWhole (n : Int) (x : Float) : Option Ordering :=
  match Number.Dyadic.ofFloat? x with
  | some d =>
    let size := d.magnitude
    some (compare (n * size.2) (d.signed size.1))
  | none => if x.isNaN then none else some (if x > 0.0 then .lt else .gt)

/-- The strict order of two numbers; nothing if one of the values is no number. -/
def less? : Value → Value → Option Bool
  | real a, real b => some (a < b)
  | whole a, whole b => some (a < b)
  | whole a, real b => some (compareWhole a b == some .lt)
  | real a, whole b => some (compareWhole b a == some .gt)
  | _, _ => none

/-- The tolerant equality of two numbers; nothing if one of the values is no number. -/
def numbersEqual? : Value → Value → Option (Except TooLarge Bool)
  | real a, real b => some (.ok (Number.realsEqual a b))
  | whole a, whole b => some (.ok (a == b))
  | whole a, real b => some <|
    if compareWhole a b == some .eq then .ok true else (Number.realsEqual · b) <$> floatOf a
  | real a, whole b => some <|
    if compareWhole b a == some .eq then .ok true else (Number.realsEqual a ·) <$> floatOf b
  | _, _ => none

/-- A number or a signal as a signal; nothing for other values. -/
def lift? : Value → Option (Except TooLarge (Sound Float))
  | real x => some (.ok (.const x))
  | whole n => some (Sound.const <$> floatOf n)
  | sound s => some (.ok s)
  | _ => none

end Value

end SignalCalc
