import SignalCalc.Number.Shortest

/-!
# Written reals

How a decimal number is laid out as text.  A `RealFormat` says where positional writing ends
and whether a whole number keeps its point; the two formats of the calculator are values of it.

* `exactText` is the text that reads back as the same float.
* `shortText` is the six-digit text of error messages.
* `wholeText` writes whole numbers.
-/

namespace SignalCalc.Number

/-- The layout of a decimal number. -/
structure RealFormat where
  /-- The least exponent of the first digit that is still written positionally. -/
  leastPositional : Int
  /-- The exponent of the first digit from which powers of ten are written. -/
  scientificFrom : Int
  /-- A whole number ends in `.0`. -/
  keepsPoint : Bool

/-- The digits of a coefficient without the zeros at its end. -/
def significantDigits (coefficient : Nat) : List Char :=
  ((Nat.toDigits 10 coefficient).reverse.dropWhile (· == '0')).reverse

/-- A whole number in decimal digits. -/
def wholeText (n : Int) : String :=
  if n < 0 then "-" ++ String.ofList (Nat.toDigits 10 n.natAbs)
  else String.ofList (Nat.toDigits 10 n.natAbs)

/-- An exponent with its sign and at least two digits. -/
def exponentText (e : Int) : List Char :=
  let digits := Nat.toDigits 10 e.natAbs
  'e' :: (if e < 0 then '-' else '+') :: (if digits.length < 2 then '0' :: digits else digits)

/-- Digits whose first one stands for tens to the power `lead`, written positionally. -/
def positionalText (format : RealFormat) (digits : List Char) (lead : Int) : List Char :=
  if lead < 0 then
    '0' :: '.' :: List.replicate ((-lead).toNat - 1) '0' ++ digits
  else
    let before := lead.toNat + 1
    if digits.length ≤ before then
      digits ++ List.replicate (before - digits.length) '0' ++
        (if format.keepsPoint then ['.', '0'] else [])
    else digits.take before ++ '.' :: digits.drop before

/-- Digits whose first one stands for tens to the power `lead`, written with that power. -/
def scientificText (digits : List Char) (lead : Int) : List Char :=
  match digits with
  | [] => []
  | [digit] => digit :: exponentText lead
  | digit :: others => digit :: '.' :: others ++ exponentText lead

/-- A decimal number in a format. -/
def RealFormat.layout (format : RealFormat) (d : Decimal) : List Char :=
  if d.coefficient = 0 then positionalText format ['0'] 0
  else
    let digits := significantDigits d.coefficient
    let lead := d.exponent + (Nat.toDigits 10 d.coefficient).length - 1
    if format.leastPositional ≤ lead && lead < format.scientificFrom then
      positionalText format digits lead
    else scientificText digits lead

/-- Any float: digits chosen from its exact size, then laid out; the others have a name. -/
def RealFormat.text (format : RealFormat) (digits : Nat → Int → Decimal) (x : Float) : String :=
  match Dyadic.ofFloat? x with
  | some d =>
    let body := format.layout (digits d.mantissa d.exponent)
    String.ofList (if d.negative then '-' :: body else body)
  | none => if x.isNaN then "nan" else if x < 0.0 then "-inf" else "inf"

/-- Positional below ten to the sixteenth and from a ten-thousandth, with a point always. -/
def exactFormat : RealFormat := ⟨-4, 16, true⟩

/-- The layout of six-digit text: powers of ten from a million on, no point after a whole
number. -/
def shortFormat : RealFormat := ⟨-4, 6, false⟩

/-- The fewest digits that read back as the same float. -/
def exactText (x : Float) : String := exactFormat.text shortest x

/-- Six significant digits. -/
def shortText (x : Float) : String := shortFormat.text (rounded 6) x

end SignalCalc.Number
