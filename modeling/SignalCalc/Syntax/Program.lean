import SignalCalc.Syntax.Grammar
import SignalCalc.Text.Utf8

/-!
# Reading programs

`parse` reads a whole source text.  A program may be empty, so reading never fails at the start:
the only error is text that is left over, and the error stands at its first character.

Texts may be nested as deep as they like.  The bound that the host's stack sets to the nesting of what is
read is left out here; only evaluation has one (`Evaluation.depthLimit`).
-/

namespace SignalCalc.Syntax

/-- The place and the beginning of text that is no part of a program. -/
structure ParseError where
  line : Nat
  col : Nat
  /-- The text that is left over. -/
  rest : List Char
  deriving DecidableEq, Repr

/-- The beginning of left-over text as an error shows it: at most twenty bytes of its first
line. -/
def ParseError.excerpt (e : ParseError) : String :=
  Text.cutBytes 20 (e.rest.takeWhile (· != '\n'))

/-- The message of an error. -/
def ParseError.message (e : ParseError) : String :=
  "Parse Error in input text at L" ++ toString e.line ++ ":C" ++ toString e.col ++
    ". Rule 'program' parsed successfully, but failed to consume the entire input. " ++
    "Unconsumed text begins with: '" ++ e.excerpt ++ "...'"

/-- The statements of a source text. -/
def parse (source : String) : Except ParseError (List Node) :=
  match Grammar.program (Cursor.start source) with
  | some (statements, ⟨[], _, _⟩) => .ok statements
  | some (_, c) => .error ⟨c.line, c.col, c.rest⟩
  | none => .error ⟨1, 1, source.toList⟩

end SignalCalc.Syntax
