import SignalCalc.Text.Blank

/-!
# Excerpts

The lines around a place in a source text, numbered, with a mark at the line and a caret under
the column.
-/

namespace SignalCalc.Session

/-- How many lines an excerpt shows before and after the marked one. -/
def excerptRadius : Nat := 2

/-- A number filled up with blanks on the left. -/
def padded (width n : Nat) : String :=
  let digits := toString n
  String.ofList (List.replicate (width - digits.length) ' ') ++ digits

/-- A line of an excerpt, with the caret line after the marked one. -/
def excerptLine (width line col : Nat) (numbered : Nat × String) : List String :=
  let marked := numbered.1 == line
  let shown := (if marked then "> " else "  ") ++ padded width numbered.1 ++ " | " ++ numbered.2
  if marked then
    [shown, "  " ++ String.ofList (List.replicate width ' ') ++ " | " ++
      String.ofList (List.replicate (col - 1) ' ') ++ "^"]
  else [shown]

/-- The lines around a place; none if the text has no such line. -/
def excerpt (source : String) (line col : Nat) : String :=
  let lines := Text.lines source
  if line < 1 || lines.length < line then ""
  else
    let first := max 1 (line - excerptRadius)
    let last := min lines.length (line + excerptRadius)
    let width := (toString last).length
    let numbered := (List.range lines.length).map (· + 1) |>.zip lines
    let shown := numbered.filter fun entry => first ≤ entry.1 && entry.1 ≤ last
    "\n".intercalate (shown.flatMap (excerptLine width line col))

end SignalCalc.Session
