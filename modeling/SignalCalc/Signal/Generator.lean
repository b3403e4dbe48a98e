import SignalCalc.Number.Exact

/-!
# The noise generator

A Mersenne twister with 624 words of state.  A seed of any size is cut into 32-bit words, and
`Generator.ofSeed` mixes all of them into the state; `Generator.draw` gives a number of 53 bits
and the next state.
-/

namespace SignalCalc.Signal

/-- The count of words in the state. -/
def stateSize : Nat := 624

/-- The state words and the count of those already used. -/
structure Generator where
  words : Array UInt32
  used : Nat
  deriving DecidableEq, Repr

namespace Generator

/-- The word at an index, which the callers keep below the size of the state. -/
def wordAt (words : Array UInt32) (i : Nat) : UInt32 := words.getD i 0

/-- A word with its two high bits folded down. -/
def folded (w : UInt32) : UInt32 := w ^^^ (w >>> 30)

/-- The state filled from one word by a linear recurrence. -/
def fill (seed : UInt32) : Array UInt32 :=
  (List.range (stateSize - 1)).foldl
    (fun words i =>
      words.push (1812433253 * folded (wordAt words i) + UInt32.ofNat (i + 1)))
    #[seed]

/-- After the last index mixing goes on at index one, with the last word copied to the front. -/
def wrap (words : Array UInt32) (i : Nat) : Array UInt32 × Nat :=
  if i < stateSize then (words, i)
  else (words.setIfInBounds 0 (wordAt words (stateSize - 1)), 1)

/-- The 32-bit words of a number, the lowest first; at least one. -/
def seedWords (n : Nat) : List UInt32 :=
  if _h : n < 2 ^ (32 : Nat) then [UInt32.ofNat n]
  else UInt32.ofNat (n % 2 ^ (32 : Nat)) :: seedWords (n / 2 ^ (32 : Nat))
termination_by n
decreasing_by omega

/-- One step of mixing in a seed word, taken from the key in rotation. -/
def mixKey (key : Array UInt32) (state : Array UInt32 × Nat) (k : Nat) : Array UInt32 × Nat :=
  let (words, i) := state
  let j := k % key.size
  let mixed := (wordAt words i ^^^ (folded (wordAt words (i - 1)) * 1664525)) +
    wordAt key j + UInt32.ofNat j
  wrap (words.setIfInBounds i mixed) (i + 1)

/-- One step of the second round of mixing, without the key. -/
def mixIndex (state : Array UInt32 × Nat) (_ : Nat) : Array UInt32 × Nat :=
  let (words, i) := state
  let mixed := (wordAt words i ^^^ (folded (wordAt words (i - 1)) * 1566083941)) - UInt32.ofNat i
  wrap (words.setIfInBounds i mixed) (i + 1)

/-- The generator of a seed; the sign of the seed does not count. -/
def ofSeed (seed : Int) : Generator :=
  let key := (seedWords seed.natAbs).toArray
  let first := (List.range (max stateSize key.size)).foldl (mixKey key) (fill 19650218, 1)
  let second := (List.range (stateSize - 1)).foldl mixIndex first
  ⟨second.1.setIfInBounds 0 0x80000000, stateSize⟩

/-- The recurrence of the twister at one index. -/
def twist (words : Array UInt32) (i : Nat) : Array UInt32 :=
  let joined := (wordAt words i &&& 0x80000000) |||
    (wordAt words ((i + 1) % stateSize) &&& 0x7fffffff)
  let turned := (joined >>> 1) ^^^ (if joined &&& 1 == 0 then 0 else 0x9908b0df)
  words.setIfInBounds i (wordAt words ((i + 397) % stateSize) ^^^ turned)

/-- The output scrambling of a state word. -/
def temper (w : UInt32) : UInt32 :=
  let a := w ^^^ (w >>> 11)
  let b := a ^^^ ((a <<< 7) &&& 0x9d2c5680)
  let c := b ^^^ ((b <<< 15) &&& 0xefc60000)
  c ^^^ (c >>> 18)

/-- The next word of output.  When all state words are used the whole state is renewed. -/
def next (g : Generator) : UInt32 × Generator :=
  let g := if g.used < stateSize then g
    else ⟨(List.range stateSize).foldl twist g.words, 0⟩
  (temper (wordAt g.words g.used), ⟨g.words, g.used + 1⟩)

/-- The next number of 53 bits: 27 bits of one word, then 26 bits of the next. -/
def draw (g : Generator) : Nat × Generator :=
  let (a, g) := g.next
  let (b, g) := g.next
  ((a >>> 5).toNat * 2 ^ (26 : Nat) + (b >>> 6).toNat, g)

end Generator

end SignalCalc.Signal
