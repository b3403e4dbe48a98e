import SignalCalc.Syntax.Node

/-!
# Cursors and parsers

A `Cursor` is a position in a source text: the text from there on, with line and column.  A
`Parser` reads something at a cursor and moves it, or fails and leaves it where it was.
Alternatives are ordered: the first that succeeds is taken, and no later failure comes back to it.
-/

namespace SignalCalc.Syntax

/-- A position in a source text.  Only a line feed ends a line; columns count characters. -/
structure Cursor where
  rest : List Char
  line : Nat
  col : Nat
  deriving DecidableEq, Repr

namespace Cursor

/-- The first position of a text. -/
def start (text : String) : Cursor := ⟨text.toList, 1, 1⟩

/-- The position after the next character. -/
def next (c : Cursor) : Cursor :=
  match c.rest with
  | [] => c
  | '\n' :: rest => ⟨rest, c.line + 1, 1⟩
  | _ :: rest => ⟨rest, c.line, c.col + 1⟩

/-- The position after a number of characters. -/
def skip : Nat → Cursor → Cursor
  | 0, c => c
  | n + 1, c => skip n c.next

/-- The position at which a later part of the text starts. -/
def moveTo (c : Cursor) (rest : List Char) : Cursor :=
  c.skip (c.rest.length - rest.length)

/-- The text from one position to a later one. -/
def textTo (c later : Cursor) : String :=
  String.ofList (c.rest.take (c.rest.length - later.rest.length))

/-- The place of what was read from one position to a later one. -/
def locationTo (c later : Cursor) (tag : String) : Location :=
  ⟨c.line, c.col, some tag, some (c.textTo later)⟩

@[simp] theorem rest_start (text : String) : (start text).rest = text.toList := rfl

@[simp] theorem rest_next (c : Cursor) : c.next.rest = c.rest.drop 1 := by
  unfold next
  split <;> simp_all

@[simp] theorem rest_skip (n : Nat) (c : Cursor) : (c.skip n).rest = c.rest.drop n := by
  induction n generalizing c with
  | zero => rfl
  | succ n ih => simp [skip, ih]

/-- Moving to an end of the text arrives there. -/
theorem rest_moveTo {c : Cursor} {rest : List Char} (h : rest <:+ c.rest) :
    (c.moveTo rest).rest = rest := by
  obtain ⟨front, hfront⟩ := h
  simp [moveTo, ← hfront]

/-- The text between two positions is what stands before the later one. -/
theorem textTo_append {c later : Cursor} {front : List Char}
    (h : c.rest = front ++ later.rest) : c.textTo later = String.ofList front := by
  simp [textTo, h]

end Cursor

/-- A reader of something at a cursor. -/
abbrev Parser := StateT Cursor Option

namespace Parser

variable {α β : Type}

/-- Reads what a scanner accepts; the scanner gives the rest of the text. -/
def scan (scanner : List Char → Option (List Char)) : Parser Unit := fun c =>
  (scanner c.rest).map fun rest => ((), c.moveTo rest)

/-- Skips layout, which never fails. -/
def skip (layout : List Char → List Char) : Parser Unit := fun c =>
  some ((), c.moveTo (layout c.rest))

/-- Reads something and notes its place. -/
def located (tag : String) (p : Parser α) : Parser (Location × α) := fun c =>
  match p c with
  | some (a, later) => some ((c.locationTo later tag, a), later)
  | none => none

/-- Reads something, or nothing. -/
def maybe (p : Parser α) : Parser (Option α) := fun c =>
  match p c with
  | some (a, later) => some (some a, later)
  | none => some (none, c)

/-- Reads as many as there are, one after the other.  Reading ends where nothing is consumed. -/
def manyFrom (p : Parser α) (c : Cursor) : List α × Cursor :=
  match p c with
  | none => ([], c)
  | some (a, later) =>
    if later.rest.length < c.rest.length then
      let (others, last) := manyFrom p later
      (a :: others, last)
    else ([], c)
termination_by c.rest.length

/-- Reads as many as there are, one after the other. -/
def many (p : Parser α) : Parser (List α) := fun c => some (manyFrom p c)

/-- Reads one or more with something in between. -/
def sepBy1 (p : Parser α) (separator : Parser β) : Parser (List α) := do
  let first ← p
  let others ← many (separator *> p)
  return first :: others

/-- Reads any number, none included, with something in between. -/
def sepBy (p : Parser α) (separator : Parser β) : Parser (List α) := do
  return (← maybe (sepBy1 p separator)).getD []

theorem scan_eq_some {scanner : List Char → Option (List Char)} {c later : Cursor} {u : Unit} :
    scan scanner c = some (u, later) ↔
      ∃ rest, scanner c.rest = some rest ∧ c.moveTo rest = later := by
  simp [scan]

/-- Noting the place changes nothing else. -/
theorem located_eq_some {tag : String} {p : Parser α} {c later : Cursor} {loc : Location}
    {a : α} :
    located tag p c = some ((loc, a), later) ↔
      p c = some (a, later) ∧ loc = c.locationTo later tag := by
  unfold located
  split <;> simp_all
  grind

end Parser

end SignalCalc.Syntax
