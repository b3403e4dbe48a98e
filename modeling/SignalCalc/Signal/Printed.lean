import SignalCalc.Signal.Sound
import SignalCalc.Number.Written

/-!
# Printed sounds

A sound is printed as the expression that builds it, with as few parentheses as the binding
strengths allow.  A real inside it is printed as a program writes it.
-/

namespace SignalCalc

open SignalCalc.Builtin

/-- A real as a program writes it: whole numbers below ten to the sixteenth without a point,
all others with the fewest digits that read back. -/
def realText (x : Float) : String :=
  match Number.truncate? x with
  | some n =>
    if Number.isWhole x && x.abs < 1e16 then Number.wholeText n else Number.exactText x
  | none => Number.exactText x

/-- A whole number as a program writes it; from ten to the sixteenth on like its float. -/
def wholeNumberText (n : Int) : String :=
  if n.natAbs < 10 ^ (16 : Nat) then Number.wholeText n else Number.exactText (Float.ofInt n)

namespace Signal

/-- How strongly a printed sound holds together. -/
inductive Strength where
  | loosest | sum | product | sign | power | atom
  deriving DecidableEq, Repr

/-- Strengths in order. -/
def Strength.rank : Strength → Nat
  | loosest => 0
  | sum => 1
  | product => 2
  | sign => 3
  | power => 4
  | atom => 5

/-- The strength of a binary operator. -/
def Operator.strength : Operator → Strength
  | add | sub => .sum
  | mul | div => .product
  | pow => .power

/-- The strength of a printed sound.  A negative constant is printed with a sign. -/
def Sound.strength : Sound Float → Strength
  | .const v => if v < 0.0 then .sign else .atom
  | .minus _ | .reciprocal _ => .sign
  | .binary op _ _ => op.strength
  | _ => .atom

/-- A printed sound needs parentheses in a place of the given strength: if it is looser than the
place, or as loose and on the side to which operators of its level do not associate. -/
def Sound.needsParentheses (s : Sound Float) (place : Strength) (rightSide : Bool) : Bool :=
  let own := s.strength
  let isPower := match s with
    | .binary .pow _ _ => true
    | _ => false
  own.rank < place.rank || (own == place && own != .atom && rightSide != isPower)

/-- Text in parentheses, where needed. -/
def parenthesizedIf (needed : Bool) (text : String) : String :=
  if needed then "(" ++ text ++ ")" else text

/-- The name of an argument and an equals sign. -/
def labelText : Option String → String
  | some name => name ++ "="
  | none => ""

mutual
/-- A sound without parentheses around it. -/
def Sound.text : Sound Float → String
  | .const v => realText v
  | .linear slope intercept => "Linear(" ++ realText slope ++ ", " ++ realText intercept ++ ")"
  | .sine frequency phase =>
    if phase == 0.0 then "Sin(" ++ realText frequency ++ ")"
    else "Sin(" ++ realText frequency ++ ", " ++ realText phase ++ ")"
  | .decay coefficient intercept =>
    "Exp\x7b" ++ realText coefficient ++ ", " ++ realText intercept ++ "\x7d"
  | .noise none => "Rand()"
  | .noise (some seed) => "Noise(" ++ Number.wholeText seed ++ ")"
  | .minus s => "-" ++ parenthesizedIf (s.needsParentheses .sign true) s.text
  | .reciprocal s => "/" ++ parenthesizedIf (s.needsParentheses .sign true) s.text
  | .binary op left right =>
    parenthesizedIf (left.needsParentheses op.strength false) left.text ++
      " " ++ op.symbol ++ " " ++
      parenthesizedIf (right.needsParentheses op.strength true) right.text
  | .apply f args => f.name ++ "(" ++ ", ".intercalate (Sound.argumentTexts args) ++ ")"

/-- The arguments of an applied function, with the names they were given by. -/
def Sound.argumentTexts : List (Argument Float) → List String
  | [] => []
  | .real label x :: rest => (labelText label ++ realText x) :: argumentTexts rest
  | .whole label n :: rest => (labelText label ++ wholeNumberText n) :: argumentTexts rest
  | .sound label s :: rest => (labelText label ++ s.text) :: argumentTexts rest
end

end Signal

end SignalCalc
