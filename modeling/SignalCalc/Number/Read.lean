import SignalCalc.Number.Exact
import SignalCalc.Text.Digit
import SignalCalc.Text.Blank

/-!
# Reading reals

`Numeral.scan` reads the longest decimal numeral at the start of a text: digits with at most one
point, then an exponent if one is complete.  The same numeral stands in program text and in
arguments; `readReal?` reads an argument, which may also carry blanks around it, a sign, an
underscore between two digits, or a name of infinity or NaN; `readWhole?` reads a whole number
that is written in the same way.
-/

namespace SignalCalc.Number

open SignalCalc.Text

/-- A decimal numeral `coefficient * 10 ^ exponent` as it was written. -/
structure Numeral where
  coefficient : Nat
  exponent : Int
  deriving DecidableEq, Repr

/-- The whole number that a row of digits writes. -/
def digitsValue (digits : List Char) : Nat :=
  digits.foldl (fun n c => 10 * n + digitValue c) 0

/-- The float nearest to a numeral.  Beyond the largest and below the smallest float no power
of ten needs to be computed. -/
def Numeral.value (n : Numeral) : Float :=
  let lead := n.exponent + (Nat.toDigits 10 n.coefficient).length
  if n.coefficient = 0 ∨ lead < -400 then 0.0
  else if lead > 400 then infinity
  else Float.ofScientific n.coefficient (n.exponent < 0) n.exponent.natAbs

/-- A power of ten after a mantissa, `e` with an optional sign and at least one digit; zero and
nothing read if it is not complete. -/
def scanExponent (cs : List Char) : Int × List Char :=
  let complete (negative : Bool) (rest : List Char) : Int × List Char :=
    let digits := rest.takeWhile isDigit
    if digits.isEmpty then (0, cs)
    else (if negative then -(digitsValue digits : Int) else digitsValue digits,
      rest.dropWhile isDigit)
  match cs with
  | e :: '+' :: rest => if e == 'e' || e == 'E' then complete false rest else (0, cs)
  | e :: '-' :: rest => if e == 'e' || e == 'E' then complete true rest else (0, cs)
  | e :: rest => if e == 'e' || e == 'E' then complete false rest else (0, cs)
  | [] => (0, cs)

/-- The numeral at the start of a text and what follows it: digits, a point and more digits, or
a point and at least one digit; then an exponent. -/
def Numeral.scan (cs : List Char) : Option (Numeral × List Char) :=
  let whole := cs.takeWhile isDigit
  let afterWhole := cs.dropWhile isDigit
  let finish (fraction rest : List Char) : Numeral × List Char :=
    let (exponent, remaining) := scanExponent rest
    (⟨digitsValue (whole ++ fraction), exponent - fraction.length⟩, remaining)
  match afterWhole with
  | '.' :: rest =>
    let fraction := rest.takeWhile isDigit
    if whole.isEmpty && fraction.isEmpty then none
    else some (finish fraction (rest.dropWhile isDigit))
  | _ => if whole.isEmpty then none else some (finish [] afterWhole)

/-- A text without its underscores, each of which stands between two digits. -/
def joinDigits? (previous : Char) : List Char → Option (List Char)
  | [] => if previous == '_' then none else some []
  | c :: rest =>
    if c == '_' then
      if previous.isDigit then joinDigits? c rest else none
    else if previous == '_' && !c.isDigit then none
    else (joinDigits? c rest).map (c :: ·)

/-- The plain form of a character of an argument: digits of all scripts become ASCII digits and
foreign blanks become spaces. -/
def plainCharacter (c : Char) : Char :=
  if c.toNat < 127 then c
  else if isTrimmed c then ' '
  else match digitValue? c with
    | some d => Char.ofNat ('0'.toNat + d)
    | none => c

/-- The blanks that may stand around a real in an argument. -/
def isArgumentBlank (c : Char) : Bool := inRange 0x9 0xD c || c == ' '

/-- A real without a sign. -/
def readUnsigned? (cs : List Char) : Option Float :=
  match String.ofList (cs.map Char.toLower) with
  | "inf" => some infinity
  | "infinity" => some infinity
  | "nan" => some nan
  | _ =>
    match Numeral.scan cs with
    | some (n, []) => some n.value
    | _ => none

/-- The characters of a number that is written in an argument: without the blanks around it and
the underscores in it, and with digits of one script. -/
def plainArgument? (text : String) : Option (List Char) :=
  joinDigits? ' ' (trimmed isArgumentBlank (text.toList.map plainCharacter))

/-- A real as it is written in an argument. -/
def readReal? (text : String) : Option Float := do
  match ← plainArgument? text with
  | '-' :: rest => (readUnsigned? rest).map (- ·)
  | '+' :: rest => readUnsigned? rest
  | plain => readUnsigned? plain

/-- A whole number in digits only. -/
def readNatural? (cs : List Char) : Option Nat :=
  if cs.isEmpty || !cs.all Char.isDigit then none else some (digitsValue cs)

/-- A whole number as it is written in an argument. -/
def readWhole? (text : String) : Option Int := do
  match ← plainArgument? text with
  | '-' :: rest => (readNatural? rest).map fun n => -(n : Int)
  | '+' :: rest => (readNatural? rest).map Int.ofNat
  | plain => (readNatural? plain).map Int.ofNat

end SignalCalc.Number
