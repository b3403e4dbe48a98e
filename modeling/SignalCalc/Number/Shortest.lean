import SignalCalc.Number.Exact

/-!
# Decimal digits of a float

Two ways to choose digits for an exact binary number:

* `shortest` gives the fewest digits that read back as the same float, and among those the
  digits nearest to its value;
* `rounded` gives a fixed count of digits, a half going to the even neighbour.

Both compare whole numbers only.  `shortest` looks for the coarsest grid `10 ^ g` that has a
point in the interval of reals rounding to the float: a coarser grid means fewer digits.
-/

namespace SignalCalc.Number

/-- The decimal number `coefficient * 10 ^ exponent`. -/
structure Decimal where
  coefficient : Nat
  exponent : Int
  deriving DecidableEq, Repr

/-- The reals that round to a float, in quarters of its last place: `low` and `high` around
`value`, ends included when `closed`. -/
structure RoundingInterval where
  low : Nat
  value : Nat
  high : Nat
  closed : Bool
  unit : Int

/-- The interval reaches half a place to both sides.  Below a power of two places are half as
wide, except at the smallest exponent. -/
def RoundingInterval.ofMagnitude (mantissa : Nat) (exponent : Int) : RoundingInterval :=
  let narrow := mantissa == 2 ^ (52 : Nat) && exponent > -1074
  { low := 4 * mantissa - (if narrow then 1 else 2)
    value := 4 * mantissa
    high := 4 * mantissa + 2
    closed := mantissa % 2 == 0
    unit := exponent - 2 }

/-- The point of the grid `10 ^ g` in the interval that is nearest to the value, a tie going to
the even one.  Only the two neighbours of the value need a look: if any point of the grid lies in
the interval, one of them does. -/
def RoundingInterval.nearest? (i : RoundingInterval) (g : Int) : Option Decimal :=
  let (twoUp, twoDown) := powerFraction 2 i.unit
  let (tenUp, tenDown) := powerFraction 10 g
  let scale := twoUp * tenDown
  let whole := twoDown * tenUp
  let below := i.value * scale / whole
  let inside (d : Nat) : Bool :=
    let point := d * whole
    if i.closed then i.low * scale ≤ point && point ≤ i.high * scale
    else i.low * scale < point && point < i.high * scale
  let nearest := roundHalfEven (i.value * scale) whole
  let other := if nearest = below then below + 1 else below
  if inside nearest then some ⟨nearest, g⟩
  else if inside other then some ⟨other, g⟩
  else none

/-- The first grid with a point in the interval, from `10 ^ g` downward. -/
def RoundingInterval.coarsest (i : RoundingInterval) : Nat → Int → Option Decimal
  | 0, _ => none
  | steps + 1, g =>
    match i.nearest? g with
    | some d => some d
    | none => i.coarsest steps (g - 1)

/-- A power of ten above `mantissa * 2 ^ exponent` and at most two places above its first
digit; `30103 / 100000` is just above the decimal logarithm of two. -/
def decimalBound (mantissa : Nat) (exponent : Int) : Int :=
  Int.fdiv (((mantissa.log2 : Int) + 1 + exponent) * 30103) 100000 + 1

/-- The fewest digits that read back as the float of this size.  A float needs at most
seventeen, and the search starts at most two places above the first of them. -/
def shortest (mantissa : Nat) (exponent : Int) : Decimal :=
  if mantissa = 0 then ⟨0, 0⟩
  else
    ((RoundingInterval.ofMagnitude mantissa exponent).coarsest 20
      (decimalBound mantissa exponent)).getD ⟨0, 0⟩

/-- The exponent of the first decimal digit of `num / den`, searched downward. -/
def leadingExponent (num den : Nat) : Nat → Int → Int
  | 0, g => g
  | steps + 1, g =>
    let (tenUp, tenDown) := powerFraction 10 g
    if den * tenUp ≤ num * tenDown then g else leadingExponent num den steps (g - 1)

/-- The float of this size rounded to a count of significant digits. -/
def rounded (digits : Nat) (mantissa : Nat) (exponent : Int) : Decimal :=
  if mantissa = 0 then ⟨0, 0⟩
  else
    let (twoUp, twoDown) := powerFraction 2 exponent
    let lead := leadingExponent (mantissa * twoUp) twoDown 4 (decimalBound mantissa exponent)
    let grid := lead - digits + 1
    let (tenUp, tenDown) := powerFraction 10 grid
    ⟨roundHalfEven (mantissa * twoUp * tenDown) (twoDown * tenUp), grid⟩

end SignalCalc.Number
