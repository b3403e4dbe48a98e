import Mathlib.Data.Nat.Notation
import Mathlib.Tactic.Lemma
import SignalCalc.Syntax.Cursor

/-!
# Places in a source text

Cursors count lines and columns on their way through a text and never look back at it.  A place is
right when it can be checked against the text: `lineAfter` and `columnAfter` read line and column off
what stands in front of a position, `c.StandsIn source` says that a cursor has counted so, and
`loc.LiesIn source` that the text of a place is what stands in the source at its line and column.

Every move of a cursor is a number of steps, so one step is all there is to prove.
-/

namespace SignalCalc.Syntax

variable {source : String} {c later : Cursor} {before : List Char}

/-- The line that goes on behind a text, counted from 1; only a line feed ends a line. -/
def lineAfter (before : List Char) : ℕ := before.count '\n' + 1

/-- The column behind a text, counted from 1. -/
def columnAfter (before : List Char) : ℕ := (before.reverse.takeWhile (· != '\n')).length + 1

lemma lineAfter_feed (before : List Char) :
    lineAfter (before ++ ['\n']) = lineAfter before + 1 := by
  simp [lineAfter]

lemma columnAfter_feed (before : List Char) : columnAfter (before ++ ['\n']) = 1 := by
  simp [columnAfter]

lemma lineAfter_of_ne {a : Char} (ha : a ≠ '\n') (before : List Char) :
    lineAfter (before ++ [a]) = lineAfter before := by
  simp [lineAfter, ha]

lemma columnAfter_of_ne {a : Char} (ha : a ≠ '\n') (before : List Char) :
    columnAfter (before ++ [a]) = columnAfter before + 1 := by
  simp [columnAfter, ha]

/-- The text of a place, which is not empty, stands in the source at the line and the column of the
place. -/
def Location.LiesIn (source : String) (loc : Location) : Prop :=
  ∃ before text after, source.toList = before ++ text ++ after ∧ text ≠ [] ∧
    loc.line = lineAfter before ∧ loc.col = columnAfter before ∧
    loc.text = some (String.ofList text)

/-- The place is that of something of a kind that was read from the source. -/
def Location.IsReadAs (source tag : String) (loc : Location) : Prop :=
  loc.LiesIn source ∧ loc.tag = some tag

lemma Location.LiesIn.text_eq {loc : Location} (h : loc.LiesIn source) :
    loc.text = some (loc.text.getD "") := by
  obtain ⟨_, _, _, _, _, _, _, htext⟩ := h
  rw [htext, Option.getD_some]

namespace Cursor

/-- A position of the source with its line and its column. -/
def StandsIn (source : String) (c : Cursor) : Prop :=
  ∃ before, source.toList = before ++ c.rest ∧ c.line = lineAfter before ∧
    c.col = columnAfter before

lemma start_standsIn (source : String) : (start source).StandsIn source := ⟨[], rfl, rfl, rfl⟩

/-- One step counts right. -/
lemma StandsIn.next (h : c.StandsIn source) : c.next.StandsIn source := by
  obtain ⟨before, hsource, hline, hcol⟩ := h
  unfold Cursor.next
  split
  · exact ⟨before, hsource, hline, hcol⟩
  · rename_i rest hrest
    refine ⟨before ++ ['\n'], ?_, ?_, (columnAfter_feed before).symm⟩
    · rw [hsource, hrest, List.append_assoc, List.singleton_append]
    · rw [lineAfter_feed, hline]
  · rename_i a rest hne hrest
    refine ⟨before ++ [a], ?_, ?_, ?_⟩
    · rw [hsource, hrest, List.append_assoc, List.singleton_append]
    · rw [lineAfter_of_ne hne, hline]
    · rw [columnAfter_of_ne hne, hcol]

lemma StandsIn.skip (h : c.StandsIn source) (n : ℕ) : (c.skip n).StandsIn source := by
  induction n generalizing c with
  | zero => exact h
  | succ n ih => exact ih h.next

lemma StandsIn.moveTo (h : c.StandsIn source) (rest : List Char) :
    (c.moveTo rest).StandsIn source :=
  h.skip _

lemma length_moveTo_le (c : Cursor) (rest : List Char) :
    (c.moveTo rest).rest.length ≤ c.rest.length := by
  rw [Cursor.moveTo, rest_skip, List.length_drop]
  omega

/-- What is read from a position on has its place in the source. -/
lemma StandsIn.locationTo (h : c.StandsIn source) (hlater : later.rest.length < c.rest.length)
    (tag : String) : (c.locationTo later tag).IsReadAs source tag := by
  obtain ⟨before, hsource, hline, hcol⟩ := h
  refine ⟨⟨before, c.rest.take (c.rest.length - later.rest.length),
    c.rest.drop (c.rest.length - later.rest.length), ?_, ?_, hline, hcol, rfl⟩, rfl⟩
  · rw [hsource, List.append_assoc, List.take_append_drop]
  · rw [← List.length_pos_iff, List.length_take]
    omega

end Cursor

end SignalCalc.Syntax
