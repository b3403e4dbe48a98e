import Mathlib.Data.List.TakeWhile
import SignalCalc.Proofs.Syntax.Places
import SignalCalc.Session.Excerpt

/-!
# What an excerpt shows

Places count lines by their line feeds, and excerpts are cut from lines that many more characters end.
The two agree on a place if every line in front of it ends plainly (`Text.hasPlainEnds`): with a line
feed, which a carriage return may precede.  Then the lines of the excerpt are as `PointsAt` says
(`excerpt_pointsAt`): one of them is marked, it is the line of the place, and the caret stands in the
next line under the column of the place.
-/

namespace SignalCalc.Text

open SignalCalc.Syntax

variable {before rest line : List Char}

/-- Every line in the text ends with a line feed, which a carriage return may precede. -/
def hasPlainEnds : List Char → Bool
  | [] => true
  | '\r' :: '\n' :: rest => hasPlainEnds rest
  | c :: rest => (c == '\n' || !isLineEnd c) && hasPlainEnds rest

/-- What a text holds behind its last line feed. -/
def lastLine (before : List Char) : List Char := (before.reverse.takeWhile (· != '\n')).reverse

/-- What a text holds up to its first line end. -/
def firstLine (rest : List Char) : List Char := rest.takeWhile (!isLineEnd ·)

lemma columnAfter_eq (before : List Char) : columnAfter before = (lastLine before).length + 1 := by
  rw [columnAfter, lastLine, List.length_reverse]

lemma firstLine_prefix (text after : List Char) : firstLine text <+: firstLine (text ++ after) := by
  rw [firstLine, firstLine, List.takeWhile_append]
  split
  · exact (List.takeWhile_prefix _).trans (List.prefix_append _ _)
  · exact List.prefix_rfl

/-! ## Lines in front of a place -/

lemma takeWhile_feed (xs ys : List Char) :
    (xs ++ '\n' :: ys).takeWhile (· != '\n') = xs.takeWhile (· != '\n') := by
  induction xs with
  | nil => rfl
  | cons x xs ih => simp [List.takeWhile_cons, ih]

lemma linesFrom_feed (line rest : List Char) :
    linesFrom line ('\n' :: rest) = line.reverse :: linesFrom [] rest := by
  rw [linesFrom]
  · rfl
  · exact fun _ h => absurd h (by decide)

lemma linesFrom_of_isLineEnd_eq_false {c : Char} (h : isLineEnd c = false) (line rest : List Char) :
    linesFrom line (c :: rest) = linesFrom (c :: line) rest := by
  rw [linesFrom, if_neg (by rw [h]; exact Bool.false_ne_true)]
  rintro _ rfl
  exact absurd h (by decide)

/-- Plain ends are counted alike. -/
lemma linesFrom_append (hplain : hasPlainEnds before = true) (hline : '\n' ∉ line) :
    ∃ above : List (List Char), above.length = before.count '\n' ∧
      linesFrom line (before ++ rest) =
        above ++ linesFrom ((before.reverse ++ line).takeWhile (· != '\n')) rest := by
  fun_induction hasPlainEnds before generalizing line with
  | case1 =>
    refine ⟨[], rfl, ?_⟩
    rw [List.reverse_nil, List.nil_append, List.nil_append, List.nil_append,
      List.takeWhile_eq_self_iff.2 fun c hc => by simpa using fun h : c = '\n' => hline (h ▸ hc)]
  | case2 more ih =>
    obtain ⟨above, hlength, heq⟩ := @ih [] hplain List.not_mem_nil
    refine ⟨line.reverse :: above, by simp [hlength], ?_⟩
    rw [List.cons_append, List.cons_append, linesFrom, heq, List.cons_append]
    simp [takeWhile_feed]
  | case3 c more hreturn ih =>
    obtain ⟨hc, hmore⟩ := Bool.and_eq_true_iff.1 hplain
    by_cases hfeed : c = '\n'
    · subst hfeed
      obtain ⟨above, hlength, heq⟩ := @ih [] hmore List.not_mem_nil
      refine ⟨line.reverse :: above, by simp [hlength], ?_⟩
      rw [List.cons_append, linesFrom_feed, heq, List.cons_append]
      simp [takeWhile_feed]
    · have hinside : isLineEnd c = false := by simpa [hfeed] using hc
      have hline' : '\n' ∉ c :: line := by simp [hline, Ne.symm hfeed]
      obtain ⟨above, hlength, heq⟩ := ih hmore hline'
      refine ⟨above, by rw [hlength, List.count_cons_of_ne hfeed], ?_⟩
      rw [List.cons_append, linesFrom_of_isLineEnd_eq_false hinside, heq, List.reverse_cons,
        List.append_assoc, List.singleton_append]

/-- The line that goes on with a text ends where the first line of the text does. -/
lemma linesFrom_eq_cons (h : line ≠ [] ∨ rest ≠ []) :
    ∃ below, linesFrom line rest = (line.reverse ++ firstLine rest) :: below := by
  fun_induction linesFrom line rest with
  | case1 line hline => exact absurd (List.isEmpty_iff.1 hline) (by simpa using h)
  | case2 line hline => exact ⟨[], by simp [firstLine]⟩
  | case3 line rest ih => exact ⟨linesFrom [] rest, by simp [firstLine, isLineEnd, inRange]⟩
  | case4 line c rest hreturn hend ih => exact ⟨linesFrom [] rest, by simp [firstLine, hend]⟩
  | case5 line c rest hreturn hinside ih =>
    obtain ⟨below, heq⟩ := ih (.inl (List.cons_ne_nil _ _))
    exact ⟨below, by simp [heq, firstLine, hinside]⟩

lemma feed_not_mem_linesFrom (hline : '\n' ∉ line) : ∀ l ∈ linesFrom line rest, '\n' ∉ l := by
  fun_induction linesFrom line rest with
  | case1 => exact nofun
  | case2 line _ => simpa using hline
  | case3 line rest ih =>
    exact List.forall_mem_cons.2 ⟨by simpa using hline, ih List.not_mem_nil⟩
  | case4 line c rest hreturn hend ih =>
    exact List.forall_mem_cons.2 ⟨by simpa using hline, ih List.not_mem_nil⟩
  | case5 line c rest hreturn hinside ih =>
    refine ih ?_
    have hc : '\n' ≠ c := by
      rintro rfl
      exact hinside rfl
    simp [hline, hc]

/-- **Lines agree behind plain ends.**  Of a text whose lines end plainly up to a place, the line at
the place is what stands around it, and as many lines are above it as the place counts. -/
theorem lines_eq {source : String} (hsource : source.toList = before ++ rest)
    (hplain : hasPlainEnds before = true) (hrest : rest ≠ []) :
    ∃ above below, lines source =
        above ++ String.ofList (lastLine before ++ firstLine rest) :: below ∧
      above.length + 1 = lineAfter before := by
  obtain ⟨above, hlength, heq⟩ : ∃ above : List (List Char), above.length = before.count '\n' ∧
      linesFrom [] (before ++ rest) = above ++ linesFrom (lastLine before).reverse rest := by
    simpa [lastLine] using linesFrom_append hplain List.not_mem_nil
  obtain ⟨below, hbelow⟩ : ∃ below, linesFrom (lastLine before).reverse rest =
      ((lastLine before).reverse.reverse ++ firstLine rest) :: below :=
    linesFrom_eq_cons (.inr hrest)
  refine ⟨above.map String.ofList, below.map String.ofList, ?_, ?_⟩
  · rw [lines, hsource, heq, hbelow, List.reverse_reverse, List.map_append, List.map_cons]
  · rw [List.length_map, hlength, lineAfter]

end SignalCalc.Text

namespace SignalCalc.Session

open SignalCalc.Syntax
open SignalCalc.Text

/-- Of the lines of an excerpt exactly one is marked.  It holds the number of a line and what stands
in that line, and in the next one a caret stands under a column of it. -/
def PointsAt (excerpt : String) (number col : ℕ) (shown : List Char) : Prop :=
  ∃ above below : List (List Char), ∃ blanks under : List Char,
    excerpt.toList.splitOn '\n' =
      above ++ ('>' :: (blanks ++ (toString number).toList ++ [' ', '|', ' ']) ++ shown) ::
        (' ' :: under ++ List.replicate (col - 1) ' ' ++ ['^']) :: below ∧
    (∀ c ∈ blanks, c = ' ') ∧
    under.length = (blanks ++ (toString number).toList ++ [' ', '|', ' ']).length ∧
    ∀ other ∈ above ++ below, other.head? = some ' '

/-! ## Lines of an excerpt -/

variable {width line col n : ℕ} {text : String}

lemma toList_padded (width n : ℕ) : (padded width n).toList =
    List.replicate (width - (toString n).length) ' ' ++ (toString n).toList := by
  simp [padded]

lemma toList_toString (n : ℕ) : (toString n).toList = Nat.toDigits 10 n := String.toList_ofList

lemma length_toString_le {m n : ℕ} (h : m ≤ n) : (toString m).length ≤ (toString n).length := by
  have hlt : n < 10 ^ (Nat.toDigits 10 n).length :=
    (Nat.length_toDigits_le_iff (by decide) Nat.length_toDigits_pos).1 le_rfl
  rw [← String.length_toList, ← String.length_toList, toList_toString, toList_toString]
  exact (Nat.length_toDigits_le_iff (by decide) Nat.length_toDigits_pos).2 (h.trans_lt hlt)

lemma feed_not_mem_padded (width n : ℕ) : '\n' ∉ (padded width n).toList := by
  rw [toList_padded, List.mem_append, not_or]
  refine ⟨fun h => absurd (List.eq_of_mem_replicate h) (by decide), fun h => ?_⟩
  rw [toList_toString] at h
  exact absurd (Nat.isDigit_of_mem_toDigits (by decide) (by decide) h) (by decide)

lemma excerptLine_of_ne (h : n ≠ line) :
    excerptLine width line col (n, text) = ["  " ++ padded width n ++ " | " ++ text] := by
  simp [excerptLine, h]

lemma excerptLine_self :
    excerptLine width line col (line, text) =
      ["> " ++ padded width line ++ " | " ++ text,
        "  " ++ String.ofList (List.replicate width ' ') ++ " | " ++
          String.ofList (List.replicate (col - 1) ' ') ++ "^"] := by
  simp [excerptLine]

/-- An excerpt has the lines that it is put together from. -/
lemma feed_not_mem_excerptLine (htext : '\n' ∉ text.toList) :
    ∀ shown ∈ excerptLine width line col (n, text), '\n' ∉ shown.toList := by
  have hpadded := feed_not_mem_padded width n
  have hblanks (k : ℕ) : '\n' ∉ List.replicate k ' ' := fun h =>
    absurd (List.eq_of_mem_replicate h) (by decide)
  by_cases hn : n = line
  · subst hn
    rw [excerptLine_self]
    simp [htext, hpadded, hblanks]
  · rw [excerptLine_of_ne hn]
    simp [htext, hpadded]

/-! ## Numbered lines -/

/-- The lines of a text with their numbers, split at one of them. -/
lemma zip_numbers (above below : List String) :
    ((List.range (above ++ text :: below).length).map (· + 1)).zip (above ++ text :: below) =
      ((List.range above.length).map (· + 1)).zip above ++ (above.length + 1, text) ::
        ((List.range below.length).map (above.length + 1 + · + 1)).zip below := by
  have hrange : (List.range (above ++ text :: below).length).map (· + 1) =
      (List.range above.length).map (· + 1) ++ (above.length + 1) ::
        (List.range below.length).map (above.length + 1 + · + 1) := by
    rw [List.length_append, List.length_cons, List.range_add, List.range_succ_eq_map, List.map_append]
    simp [Function.comp_def, Nat.add_assoc, Nat.add_comm 1]
  rw [hrange, List.zip_append (by simp), List.zip_cons_cons]

lemma fst_le_of_mem_zip {above : List String} {entry : ℕ × String}
    (h : entry ∈ ((List.range above.length).map (· + 1)).zip above) : entry.1 ≤ above.length := by
  obtain ⟨k, hk, hentry⟩ := List.mem_map.1 (List.of_mem_zip h).1
  have hlt := List.mem_range.1 hk
  omega

lemma lt_fst_of_mem_zip {below : List String} {k : ℕ} {entry : ℕ × String}
    (h : entry ∈ ((List.range below.length).map (k + · + 1)).zip below) : k < entry.1 := by
  obtain ⟨j, -, hentry⟩ := List.mem_map.1 (List.of_mem_zip h).1
  omega

/-- Lines other than the one of the place are not marked. -/
lemma flatMap_excerptLine {entries : List (ℕ × String)} (h : ∀ entry ∈ entries, entry.1 ≠ line) :
    ∀ other ∈ entries.flatMap (excerptLine width line col), other.toList.head? = some ' ' := by
  intro other hother
  obtain ⟨⟨n, text⟩, hentry, hmem⟩ := List.mem_flatMap.1 hother
  rw [excerptLine_of_ne (h _ hentry), List.mem_singleton] at hmem
  rw [hmem]
  simp

/-! ## Excerpts -/

/-- The lines of an excerpt are those of the source around one of them, which has its lines twice. -/
lemma excerpt_eq {source : String} {above below : List String}
    (hlines : lines source = above ++ text :: below) (col : ℕ) :
    ∃ (width : ℕ) (before after : List (ℕ × String)),
      excerpt source (above.length + 1) col =
        "\n".intercalate (before.flatMap (excerptLine width (above.length + 1) col) ++
          (excerptLine width (above.length + 1) col (above.length + 1, text) ++
            after.flatMap (excerptLine width (above.length + 1) col))) ∧
      (toString (above.length + 1)).length ≤ width ∧
      (∀ entry ∈ before ++ after, entry.1 ≠ above.length + 1) ∧
      ∀ entry ∈ before ++ after, entry.2 ∈ lines source := by
  have hlength : above.length + 1 ≤ (lines source).length := by
    rw [hlines, List.length_append, List.length_cons]
    omega
  have hlast : above.length + 1 ≤ min (lines source).length (above.length + 1 + excerptRadius) :=
    le_min hlength (Nat.le_add_right _ _)
  have hfirst : max 1 (above.length + 1 - excerptRadius) ≤ above.length + 1 :=
    max_le (Nat.le_add_left _ _) (Nat.sub_le _ _)
  have hinside : ¬(decide (above.length + 1 < 1) || decide ((lines source).length < above.length + 1)) =
      true := by
    rw [Bool.or_eq_true, decide_eq_true_eq, decide_eq_true_eq]
    omega
  have hexcerpt := excerpt.eq_1 source (above.length + 1) col
  rw [if_neg hinside] at hexcerpt
  dsimp only at hexcerpt
  rw [hexcerpt]
  generalize max 1 (above.length + 1 - excerptRadius) = first at hfirst
  generalize min (lines source).length (above.length + 1 + excerptRadius) = last at hlast
  rw [hlines, zip_numbers, List.filter_append,
    List.filter_cons_of_pos (by simpa using ⟨hfirst, hlast⟩), List.flatMap_append,
    List.flatMap_cons]
  refine ⟨_, _, _, rfl, length_toString_le hlast, ?_, ?_⟩
  · intro entry hentry
    rcases List.mem_append.1 hentry with hentry | hentry
    · have hle := fst_le_of_mem_zip (List.mem_filter.1 hentry).1
      omega
    · have hlt := lt_fst_of_mem_zip (List.mem_filter.1 hentry).1
      omega
  · intro entry hentry
    rcases List.mem_append.1 hentry with hentry | hentry
    · exact List.mem_append_left _ (List.of_mem_zip (List.mem_filter.1 hentry).1).2
    · exact List.mem_append_right _
        (List.mem_cons_of_mem _ (List.of_mem_zip (List.mem_filter.1 hentry).1).2)

/-- An excerpt of a text that has the line points at it. -/
lemma pointsAt_of_lines {source : String} {above below : List String} {shown : List Char}
    (hlines : lines source = above ++ String.ofList shown :: below) (col : ℕ) :
    PointsAt (excerpt source (above.length + 1) col) (above.length + 1) col shown := by
  have hfeed : ∀ l ∈ lines source, '\n' ∉ l.toList := by
    intro l hl
    obtain ⟨cs, hcs, rfl⟩ := List.mem_map.1 hl
    rw [String.toList_ofList]
    exact feed_not_mem_linesFrom List.not_mem_nil cs hcs
  obtain ⟨width, before, after, hexcerpt, hwidth, hne, hmem⟩ := excerpt_eq hlines col
  obtain ⟨hbefore, hafter⟩ := List.forall_mem_append.1 hne
  have hinside : ∀ {entries : List (ℕ × String)}, (∀ entry ∈ entries, entry.2 ∈ lines source) →
      ∀ shown ∈ entries.flatMap (excerptLine width (above.length + 1) col),
        '\n' ∉ shown.toList := by
    intro entries hentries shown hshown
    obtain ⟨⟨n, text⟩, hentry, hline⟩ := List.mem_flatMap.1 hshown
    exact feed_not_mem_excerptLine (hfeed _ (hentries _ hentry)) shown hline
  obtain ⟨hbefore', hafter'⟩ := List.forall_mem_append.1 hmem
  have hmarked : String.ofList shown ∈ lines source := by
    rw [hlines]
    exact List.mem_append_right _ List.mem_cons_self
  refine ⟨(before.flatMap (excerptLine width (above.length + 1) col)).map String.toList,
    (after.flatMap (excerptLine width (above.length + 1) col)).map String.toList,
    ' ' :: List.replicate (width - (toString (above.length + 1)).length) ' ',
    ' ' :: (List.replicate width ' ' ++ [' ', '|', ' ']), ?_, ?_, ?_, ?_⟩
  · rw [hexcerpt, String.toList_intercalate, show "\n".toList = ['\n'] from rfl,
      List.splitOn_intercalate]
    · rw [excerptLine_self]
      simp [toList_padded]
    · intro l hl
      obtain ⟨other, hother, rfl⟩ := List.mem_map.1 hl
      rcases List.mem_append.1 hother with hother | hother
      · exact hinside hbefore' other hother
      · rcases List.mem_append.1 hother with hother | hother
        · exact feed_not_mem_excerptLine (hfeed _ hmarked) other hother
        · exact hinside hafter' other hother
    · rw [excerptLine_self]
      simp
  · simp
  · simp only [List.length_cons, List.length_append, List.length_replicate, String.length_toList,
      List.length_nil]
    omega
  · intro other hother
    rcases List.mem_append.1 hother with hother | hother
    · obtain ⟨l, hl, rfl⟩ := List.mem_map.1 hother
      exact flatMap_excerptLine hbefore l hl
    · obtain ⟨l, hl, rfl⟩ := List.mem_map.1 hother
      exact flatMap_excerptLine hafter l hl

/-- **An excerpt points at its place.**  If all lines in front of a place end plainly, the marked line
of the excerpt is the line of the source around the place, up to its end, and the caret stands where
the place is. -/
theorem excerpt_pointsAt {source : String} {before rest : List Char}
    (hsource : source.toList = before ++ rest) (hplain : hasPlainEnds before = true)
    (hrest : rest ≠ []) :
    PointsAt (excerpt source (lineAfter before) (columnAfter before)) (lineAfter before)
      (columnAfter before) (lastLine before ++ firstLine rest) := by
  obtain ⟨above, below, hlines, hline⟩ := lines_eq hsource hplain hrest
  rw [← hline]
  exact pointsAt_of_lines hlines _

-- A form feed ends a line of an excerpt and none that places count, so another line is marked.
example : excerpt "// \x0c\ny" 2 1 = "  1 | // \n> 2 | \n    | ^\n  3 | y" := by decide +kernel

end SignalCalc.Session
