/-!
# Bytes of text

Cutting a text after a number of bytes, and reading bytes as text.
-/

namespace SignalCalc.Text

/-- The sign for a byte that is part of no character. -/
def replacement : Char := Char.ofNat 0xFFFD

/-- The first bytes of a text.  Each byte of a character that the cut falls into becomes the
sign for a broken one. -/
def cutBytesFrom : Nat → List Char → List Char
  | _, [] => []
  | limit, c :: rest =>
    if c.utf8Size ≤ limit then c :: cutBytesFrom (limit - c.utf8Size) rest
    else List.replicate limit replacement

/-- The first bytes of a text. -/
def cutBytes (limit : Nat) (text : List Char) : String :=
  String.ofList (cutBytesFrom limit text)

/-- The text that bytes encode, if they encode one. -/
def decode? (bytes : ByteArray) : Option String := String.fromUTF8? bytes

end SignalCalc.Text
