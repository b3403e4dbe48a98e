import SignalCalc.Text.Blank

/-!
# Layout

The text that means nothing by itself, in three roles:

* `inside` skips blanks and block comments within a line of program;
* `between` skips everything that may stand between statements;
* `terminator?` reads the end of a statement and the layout after it.

A block comment runs from its opening to the first closing, a line comment to the end of the
line.  The terminator alone reads further when it has to: a block comment may go on to a later
closing if only that leads to the end of the statement, and a line comment that no line feed
ends may end at its last semicolon.
-/

namespace SignalCalc.Syntax.Layout

open SignalCalc.Text

mutual
/-- The text after blanks and block comments of one line. -/
def inside : List Char → List Char
  | '/' :: '*' :: rest => insideComment ('/' :: '*' :: rest) rest
  | ' ' :: rest => inside rest
  | '\t' :: rest => inside rest
  | text => text

/-- In a block comment that started at `opening`; one without a closing is no layout. -/
def insideComment (opening : List Char) : List Char → List Char
  | '*' :: '/' :: rest => inside rest
  | _ :: rest => insideComment opening rest
  | [] => opening
end

mutual
/-- The text after all layout between statements. -/
def between : List Char → List Char
  | '/' :: '/' :: rest => betweenLine rest
  | '/' :: '*' :: rest => betweenComment ('/' :: '*' :: rest) rest
  | c :: rest => if isSpace c || c == ';' then between rest else c :: rest
  | [] => []

/-- In a line comment between statements. -/
def betweenLine : List Char → List Char
  | '\n' :: rest => between rest
  | _ :: rest => betweenLine rest
  | [] => []

/-- In a block comment between statements that started at `opening`. -/
def betweenComment (opening : List Char) : List Char → List Char
  | '*' :: '/' :: rest => between rest
  | _ :: rest => betweenComment opening rest
  | [] => opening
end

/-- In a line comment after a statement: the text after the line feed that ends it, or else the
text after the last semicolon found so far. -/
def endInLine (semicolon : Option (List Char)) : List Char → Option (List Char)
  | '\n' :: rest => some rest
  | ';' :: rest => endInLine (some rest) rest
  | _ :: rest => endInLine semicolon rest
  | [] => semicolon

mutual
/-- The text after the semicolon or line feed that ends a statement. -/
def ending? : List Char → Option (List Char)
  | '/' :: '*' :: rest => endingComment? rest
  | '/' :: '/' :: rest => endInLine none rest
  | ' ' :: rest => ending? rest
  | '\t' :: rest => ending? rest
  | ';' :: rest => some rest
  | '\n' :: rest => some rest
  | _ => none

/-- In a block comment after a statement: the first closing that leads to an ending. -/
def endingComment? : List Char → Option (List Char)
  | '*' :: '/' :: rest =>
    match ending? rest with
    | some found => some found
    | none => endingComment? rest
  | _ :: rest => endingComment? rest
  | [] => none
end

/-- The text after the end of a statement and the layout that follows it. -/
def terminator? (text : List Char) : Option (List Char) :=
  (ending? text).map between

/-! ## Layout is skipped from the front -/

theorem suffix_of_cons {text whole : List Char} {a : Char} (h : a :: text <:+ whole) :
    text <:+ whole :=
  (List.suffix_cons _ _).trans h

mutual
/-- What follows layout within a line is an end of the text. -/
theorem inside_suffix {text whole : List Char} (h : text <:+ whole) : inside text <:+ whole := by
  unfold inside
  split
  · exact insideComment_suffix h (suffix_of_cons (suffix_of_cons h))
  · exact inside_suffix (suffix_of_cons h)
  · exact inside_suffix (suffix_of_cons h)
  · exact h

theorem insideComment_suffix {opening text whole : List Char} (ho : opening <:+ whole)
    (h : text <:+ whole) : insideComment opening text <:+ whole := by
  unfold insideComment
  split
  · exact inside_suffix (suffix_of_cons (suffix_of_cons h))
  · exact insideComment_suffix ho (suffix_of_cons h)
  · exact ho
end

mutual
/-- What follows layout between statements is an end of the text. -/
theorem between_suffix {text whole : List Char} (h : text <:+ whole) :
    between text <:+ whole := by
  unfold between
  split
  · exact betweenLine_suffix (suffix_of_cons (suffix_of_cons h))
  · exact betweenComment_suffix h (suffix_of_cons (suffix_of_cons h))
  · split
    · exact between_suffix (suffix_of_cons h)
    · exact h
  · exact List.nil_suffix

theorem betweenLine_suffix {text whole : List Char} (h : text <:+ whole) :
    betweenLine text <:+ whole := by
  unfold betweenLine
  split
  · exact between_suffix (suffix_of_cons h)
  · exact betweenLine_suffix (suffix_of_cons h)
  · exact List.nil_suffix

theorem betweenComment_suffix {opening text whole : List Char} (ho : opening <:+ whole)
    (h : text <:+ whole) : betweenComment opening text <:+ whole := by
  unfold betweenComment
  split
  · exact between_suffix (suffix_of_cons (suffix_of_cons h))
  · exact betweenComment_suffix ho (suffix_of_cons h)
  · exact ho
end

theorem endInLine_suffix {semicolon : Option (List Char)} {text rest whole : List Char}
    (hs : ∀ after ∈ semicolon, after <:+ whole) (h : text <:+ whole)
    (hr : endInLine semicolon text = some rest) : rest <:+ whole := by
  fun_induction endInLine semicolon text with
  | case1 semicolon after =>
    obtain rfl := Option.some.inj hr
    exact suffix_of_cons h
  | case2 semicolon after ih =>
    exact ih (fun _ hm => Option.mem_some.1 hm ▸ suffix_of_cons h) (suffix_of_cons h) hr
  | case3 semicolon c after _ _ ih => exact ih hs (suffix_of_cons h) hr
  | case4 semicolon => exact hs rest hr

mutual
/-- What follows the end of a statement is an end of the text. -/
theorem ending?_suffix {text rest whole : List Char} (h : text <:+ whole)
    (hr : ending? text = some rest) : rest <:+ whole := by
  unfold ending? at hr
  split at hr
  · exact endingComment?_suffix (suffix_of_cons (suffix_of_cons h)) hr
  · exact endInLine_suffix (by simp) (suffix_of_cons (suffix_of_cons h)) hr
  · exact ending?_suffix (suffix_of_cons h) hr
  · exact ending?_suffix (suffix_of_cons h) hr
  · obtain rfl := Option.some.inj hr
    exact suffix_of_cons h
  · obtain rfl := Option.some.inj hr
    exact suffix_of_cons h
  · simp at hr

theorem endingComment?_suffix {text rest whole : List Char} (h : text <:+ whole)
    (hr : endingComment? text = some rest) : rest <:+ whole := by
  unfold endingComment? at hr
  split at hr
  · split at hr
    · obtain rfl := Option.some.inj hr
      rename_i found
      exact ending?_suffix (suffix_of_cons (suffix_of_cons h)) found
    · exact endingComment?_suffix (suffix_of_cons (suffix_of_cons h)) hr
  · exact endingComment?_suffix (suffix_of_cons h) hr
  · simp at hr
end

theorem terminator?_suffix {text rest whole : List Char} (h : text <:+ whole)
    (hr : terminator? text = some rest) : rest <:+ whole := by
  obtain ⟨after, ha, rfl⟩ := Option.map_eq_some_iff.1 hr
  exact between_suffix (ending?_suffix h ha)

end SignalCalc.Syntax.Layout
