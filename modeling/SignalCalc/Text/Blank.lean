/-!
# Kinds of blank characters

Three sets, each for one job:

* `isSpace`: the characters that layout between statements may hold;
* `isTrimmed`: the characters cut from the ends of a line that was typed in;
* `isLineEnd`: the characters that end a line of an excerpt.

They differ: U+180E separates statements and is not trimmed, U+001C is trimmed and separates
nothing.
-/

namespace SignalCalc.Text

/-- Code points from `first` to `last`. -/
def inRange (first last : Nat) (c : Char) : Bool := first ≤ c.toNat && c.toNat ≤ last

/-- The blanks that may stand between statements. -/
def isSpace (c : Char) : Bool :=
  inRange 0x9 0xD c || c == ' ' || inRange 0x85 0x85 c || inRange 0xA0 0xA0 c ||
    inRange 0x1680 0x1680 c || inRange 0x180E 0x180E c || inRange 0x2000 0x200A c ||
    inRange 0x2028 0x2029 c || inRange 0x202F 0x202F c || inRange 0x205F 0x205F c ||
    inRange 0x3000 0x3000 c

/-- The blanks cut from both ends of a typed line. -/
def isTrimmed (c : Char) : Bool :=
  inRange 0x9 0xD c || inRange 0x1C 0x20 c || inRange 0x85 0x85 c || inRange 0xA0 0xA0 c ||
    inRange 0x1680 0x1680 c || inRange 0x2000 0x200A c || inRange 0x2028 0x2029 c ||
    inRange 0x202F 0x202F c || inRange 0x205F 0x205F c || inRange 0x3000 0x3000 c

/-- A text without the characters of a set at its two ends. -/
def trimmed (p : Char → Bool) (cs : List Char) : List Char :=
  ((cs.dropWhile p).reverse.dropWhile p).reverse

/-- The characters that end a line; a carriage return and the line feed after it end one line
together. -/
def isLineEnd (c : Char) : Bool :=
  inRange 0xA 0xD c || inRange 0x1C 0x1E c || inRange 0x85 0x85 c || inRange 0x2028 0x2029 c

/-- The lines of a text, without their ends.  `line` holds the current line backward; a last
line that is empty is none. -/
def linesFrom (line : List Char) : List Char → List (List Char)
  | [] => if line.isEmpty then [] else [line.reverse]
  | '\r' :: '\n' :: rest => line.reverse :: linesFrom [] rest
  | c :: rest =>
    if isLineEnd c then line.reverse :: linesFrom [] rest else linesFrom (c :: line) rest

/-- The lines of a text, without their ends. -/
def lines (text : String) : List String :=
  (linesFrom [] text.toList).map String.ofList

end SignalCalc.Text
