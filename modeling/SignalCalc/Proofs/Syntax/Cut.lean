import SignalCalc.Proofs.Syntax.Continued
import SignalCalc.Proofs.Syntax.Parsed

/-!
# A text and its beginning

What a parser reads from a text may depend on what stands behind the words that it takes: it looks for
more and goes back.  So cutting a text off may change what is read from its beginning.
`ReadsCut source more n n' d B p p'` compares a parser on a text with a parser on the same text without
`more` at its end.  Where the first one stops in front of the cut, the second one stops there too; where
the first one fails, so does the second.  Where the first one goes on behind the cut, the second one
fails, or it stops at a text of which `B` holds; what can follow is not read from such a text.

A text that goes on behind the cut may do so in its layout.  Then the beginning `IsSpent`: it is used up,
or open where a comment would start.
-/

namespace SignalCalc.Syntax

open SignalCalc.Syntax.Layout
open SignalCalc.Syntax.Parser
open SignalCalc.Syntax.Token
open SignalCalc.Text

/-- The text is used up, but for the beginning of a comment. -/
inductive IsSpent : List Char → Prop where
  | nil : IsSpent []
  | slash : IsSpent ['/']
  | opening {rest : List Char} : closes rest = false → IsSpent ('/' :: '*' :: rest)

namespace Parser

variable {α β : Type} {source : String} {more : List Char} {n n' m m' d e : ℕ}
  {B C : List Char → Prop}

/-- How the reading of a text of length `k` with more behind it and that of the text alone end. -/
inductive EndsAlike (more : List Char) (d k : ℕ) (B : List Char → Prop) :
    Option (α × Cursor) → Option (α × Cursor) → Prop where
  | fail : EndsAlike more d k B none none
  | within {a a' later later'} : later.rest = later'.rest ++ more → later'.rest.length + d ≤ k →
    EndsAlike more d k B (some (a, later)) (some (a', later'))
  | beyond_fail {a later} : later.rest.length < more.length → EndsAlike more d k B (some (a, later)) none
  | beyond {a a' later later'} : later.rest.length < more.length → B later'.rest →
    EndsAlike more d k B (some (a, later)) (some (a', later'))

/-- The first parser reads from a text what the second one reads from the text without `more` at its
end, unless it goes on behind the cut. -/
structure ReadsCut (source : String) (more : List Char) (n n' d : ℕ) (B : List Char → Prop)
    (p p' : Parser α) : Prop where
  stays : p.Stays source
  run : ∀ c c' : Cursor, c.StandsIn source → c.rest = c'.rest ++ more → c.rest.length < n →
    c'.rest.length < n' → EndsAlike more d c'.rest.length B (p c) (p' c')

/-- Of no text. -/
def Never (_ : List Char) : Prop := False

namespace ReadsCut

variable {p p' q q' : Parser α} {f f' : α → Parser β}

/-! ## Bounds and conditions -/

lemma within (h : ReadsCut source more n n' d B p p') (hm : m ≤ n) (hm' : m' ≤ n') :
    ReadsCut source more m m' d B p p' :=
  ⟨h.stays, fun c c' hc hcut hlt hlt' => h.run c c' hc hcut (by omega) (by omega)⟩

lemma mono (h : ReadsCut source more n n' d B p p') (hB : ∀ s, B s → C s) :
    ReadsCut source more n n' d C p p' := by
  refine ⟨h.stays, fun c c' hc hcut hlt hlt' => ?_⟩
  have hrun := h.run c c' hc hcut hlt hlt'
  generalize p c = r, p' c' = r' at hrun ⊢
  cases hrun with
  | fail => exact .fail
  | within hrest hle => exact .within hrest hle
  | beyond_fail hshort => exact .beyond_fail hshort
  | beyond hshort hB' => exact .beyond hshort (hB _ hB')

lemma weaken (h : ReadsCut source more n n' d B p p') : ReadsCut source more n n' 0 B p p' := by
  refine ⟨h.stays, fun c c' hc hcut hlt hlt' => ?_⟩
  have hrun := h.run c c' hc hcut hlt hlt'
  generalize p c = r, p' c' = r' at hrun ⊢
  cases hrun with
  | fail => exact .fail
  | within hrest hle => exact .within hrest (by omega)
  | beyond_fail hshort => exact .beyond_fail hshort
  | beyond hshort hB => exact .beyond hshort hB

/-- Nothing has to be shown for texts shorter than zero. -/
lemma of_zero_left (h : p.Stays source) : ReadsCut source more 0 n' d B p p' :=
  ⟨h, fun _ _ _ _ hlt _ => absurd hlt (Nat.not_lt_zero _)⟩

lemma of_zero_right (h : p.Stays source) : ReadsCut source more n 0 d B p p' :=
  ⟨h, fun _ _ _ _ _ hlt => absurd hlt (Nat.not_lt_zero _)⟩

/-! ## One thing after the other -/

lemma pure {a a' : α} : ReadsCut source more n n' 0 B (Pure.pure a) (Pure.pure a') :=
  ⟨.pure trivial, fun _ _ _ hcut _ _ => .within hcut (Nat.le_refl _)⟩

/-- Where the first part goes on behind the cut, what comes second stops at such a text in the
beginning, and fails there if it does so in the whole. -/
lemma bind_of_beyond (hp : ReadsCut source more n n' d B p p')
    (hf : ∀ a a', ReadsCut source more (n - d) (n' - d) e C (f a) (f' a'))
    (hlands : ∀ a s, B s → (f' a).Lands s C)
    (hfails : ∀ a a' c s, B s → f a c = none → (f' a').Fails s) :
    ReadsCut source more n n' (d + e) C (p >>= f) (p' >>= f') := by
  refine ⟨Ensures.andThen hp.stays fun a => (hf a a).stays, fun c c' hc hcut hlt hlt' => ?_⟩
  have hrun := hp.run c c' hc hcut hlt hlt'
  have hstays := hp.stays c
  generalize hfirst : p c = r, hfirst' : p' c' = r' at hrun hstays
  cases hrun with
  | fail =>
    rw [run_bind_of_none hfirst, run_bind_of_none hfirst']
    exact .fail
  | @within a a' later later' hrest hle =>
    have hlater := (hstays a later hc rfl).1.1
    rw [hcut, List.length_append] at hlt
    have hsecond := (hf a a').run later later' hlater hrest
      (by rw [hrest, List.length_append]; omega) (by omega)
    rw [run_bind_of_some hfirst, run_bind_of_some hfirst']
    generalize f a later = s, f' a' later' = s' at hsecond
    cases hsecond with
    | fail => exact .fail
    | within hrest hle' => exact .within hrest (by omega)
    | beyond_fail hshort => exact .beyond_fail hshort
    | beyond hshort hC => exact .beyond hshort hC
  | @beyond_fail a later hshort =>
    have hsecond := (hf a a).stays later
    rw [run_bind_of_some hfirst, run_bind_of_none hfirst']
    generalize f a later = s at hsecond
    cases s with
    | none => exact .fail
    | some r =>
      have hle := (hsecond r.1 r.2 (hstays a later hc rfl).1.1 rfl).1.2
      exact .beyond_fail (hle.trans_lt hshort)
  | @beyond a a' later later' hshort hB =>
    have hsecond := (hf a a).stays later
    have hfails := hfails a a' later later'.rest hB
    have hlands := hlands a' later'.rest hB later' rfl
    rw [run_bind_of_some hfirst, run_bind_of_some hfirst']
    generalize f a later = s at hsecond hfails
    cases s with
    | none =>
      rw [hfails rfl later' rfl]
      exact .fail
    | some r =>
      have hle := (hsecond r.1 r.2 (hstays a later hc rfl).1.1 rfl).1.2
      generalize f' a' later' = s' at hlands
      cases s' with
      | none => exact .beyond_fail (hle.trans_lt hshort)
      | some r' => exact .beyond (hle.trans_lt hshort) (hlands r'.1 r'.2 rfl)

/-- What comes second is not read from such a text. -/
lemma bind (hp : ReadsCut source more n n' d B p p')
    (hf : ∀ a a', ReadsCut source more (n - d) (n' - d) e C (f a) (f' a'))
    (hB : ∀ a s, B s → (f' a).Fails s) :
    ReadsCut source more n n' (d + e) C (p >>= f) (p' >>= f') :=
  hp.bind_of_beyond hf (fun a s hs => (hB a s hs).lands) fun _ a' _ s hs _ => hB a' s hs

/-- What comes second does not fail, and takes such a text to another one. -/
lemma bind_total (hp : ReadsCut source more n n' d B p p')
    (hf : ∀ a a', ReadsCut source more (n - d) (n' - d) 0 C (f a) (f' a'))
    (htotal : ∀ a c, f a c ≠ none) (hB : ∀ a s, B s → (f' a).Lands s C) :
    ReadsCut source more n n' d C (p >>= f) (p' >>= f') :=
  hp.bind_of_beyond hf hB fun a _ c _ _ hnone => absurd hnone (htotal a c)

/-- The result is made into another one. -/
lemma map {g g' : α → β} (hp : ReadsCut source more n n' d B p p') :
    ReadsCut source more n n' d B (p >>= fun a => Pure.pure (g a)) (p' >>= fun a => Pure.pure (g' a)) :=
  hp.bind_total (fun _ _ => .pure) (fun _ _ => nofun) fun _ _ hs => .pure hs

lemma located {tag : String} (hp : ReadsCut source more n n' d B p p') :
    ReadsCut source more n n' d B (located tag p) (located tag p') := by
  refine ⟨fun c r later hc hrun => ?_, fun c c' hc hcut hlt hlt' => ?_⟩
  · exact ⟨(hp.stays c r.2 later hc (located_eq_some.1 hrun).1).1, trivial⟩
  · have hrun := hp.run c c' hc hcut hlt hlt'
    unfold Parser.located
    generalize p c = r, p' c' = r' at hrun ⊢
    cases hrun with
    | fail => exact .fail
    | within hrest hle => exact .within hrest hle
    | beyond_fail hshort => exact .beyond_fail hshort
    | beyond hshort hB => exact .beyond hshort hB

/-! ## Alternatives -/

/-- If the first alternative goes on behind the cut and is not read from the beginning, the second one
is not read from it either, or stops at such a text. -/
lemma orElse (hp : ReadsCut source more n n' d B p p') (hq : ReadsCut source more n n' d B q q')
    (hother : ∀ c c' : Cursor, c.rest = c'.rest ++ more → p c ≠ none → p' c' = none →
      q'.Lands c'.rest B) :
    ReadsCut source more n n' d B (p <|> q) (p' <|> q') := by
  refine ⟨.orElse hp.stays hq.stays, fun c c' hc hcut hlt hlt' => ?_⟩
  have hrun := hp.run c c' hc hcut hlt hlt'
  have hother := hother c c' hcut
  rw [run_orElse, run_orElse]
  generalize p c = r, p' c' = r' at hrun hother ⊢
  cases hrun with
  | fail => exact hq.run c c' hc hcut hlt hlt'
  | within hrest hle => exact .within hrest hle
  | beyond hshort hB => exact .beyond hshort hB
  | beyond_fail hshort =>
    have hlands := hother (by simp) rfl c' rfl
    show EndsAlike more d _ B _ (q' c')
    generalize q' c' = s' at hlands
    cases s' with
    | none => exact .beyond_fail hshort
    | some r' => exact .beyond hshort (hlands r'.1 r'.2 rfl)

/-- Nothing is asked for where the first parser goes on behind the cut. -/
lemma orElse_any (hp : ReadsCut source more n n' d (fun _ => True) p p')
    (hq : ReadsCut source more n n' d (fun _ => True) q q') :
    ReadsCut source more n n' d (fun _ => True) (p <|> q) (p' <|> q') :=
  hp.orElse hq fun _ _ _ _ _ _ _ _ _ _ => trivial

/-- A part that may be missing is not read from the beginning if it goes on behind the cut. -/
lemma maybe (hp : ReadsCut source more n n' 0 B p p')
    (hstart : ∀ c c' : Cursor, c.rest = c'.rest ++ more → p c ≠ none → B c'.rest) :
    ReadsCut source more n n' 0 B (maybe p) (maybe p') := by
  refine ⟨(Ensures.maybe hp.stays).stays, fun c c' hc hcut hlt hlt' => ?_⟩
  have hrun := hp.run c c' hc hcut hlt hlt'
  have hstart := hstart c c' hcut
  unfold Parser.maybe
  generalize p c = r, p' c' = r' at hrun hstart ⊢
  cases hrun with
  | fail => exact .within hcut (Nat.le_refl _)
  | within hrest hle => exact .within hrest hle
  | beyond_fail hshort => exact .beyond hshort (hstart (by simp))
  | beyond hshort hB => exact .beyond hshort hB

/-! ## Repetitions -/

lemma many (hp : ReadsCut source more n n' 1 B p p')
    (hstart : ∀ c c' : Cursor, c.rest = c'.rest ++ more → p c ≠ none → C c'.rest)
    (hB : ∀ s, B s → C s ∧ p'.Fails s) :
    ReadsCut source more n n' 0 C (many p) (many p') := by
  refine ⟨(Ensures.many hp.stays).stays, fun c c' hc hcut hlt hlt' => ?_⟩
  show EndsAlike more 0 _ C (some (manyFrom p c)) (some (manyFrom p' c'))
  induction hlength : c.rest.length using Nat.strongRecOn generalizing c c' with
  | ind k ih =>
    have hrun := hp.run c c' hc hcut hlt hlt'
    have hstart := hstart c c' hcut
    have hstays := hp.stays c
    generalize hread : p c = r, hread' : p' c' = r' at hrun hstart hstays
    have hlength' : c'.rest.length + more.length = c.rest.length := by
      rw [hcut, List.length_append]
    have hbehind : ∀ a later, r = some (a, later) → later.rest.length < more.length →
        (manyFrom p c).2.rest.length < more.length := by
      rintro a later rfl hshort
      have hlater := (hstays a later hc rfl).1.1
      rw [manyFrom_of_some hread (by omega)]
      exact (Ensures.many hp.stays later _ _ hlater rfl).1.2.trans_lt hshort
    cases hrun with
    | fail =>
      rw [manyFrom_of_none hread, manyFrom_of_none hread']
      exact .within hcut (Nat.le_refl _)
    | @within a a' later later' hrest hle =>
      have hlater := (hstays a later hc rfl).1.1
      have hshorter : later.rest.length < c.rest.length := by
        rw [hrest, List.length_append]
        omega
      rw [manyFrom_of_some hread hshorter, manyFrom_of_some hread' hle]
      have hothers := ih _ (hlength ▸ hshorter) later later' hlater hrest (hshorter.trans hlt)
        (by omega) rfl
      generalize manyFrom p later = s, manyFrom p' later' = s' at hothers
      cases hothers with
      | within hrest hle' => exact .within hrest (hle'.trans (by omega))
      | beyond hshort hC => exact .beyond hshort hC
    | beyond_fail hshort =>
      rw [manyFrom_of_none hread']
      exact .beyond (hbehind _ _ rfl hshort) (hstart (by simp))
    | @beyond a a' later later' hshort hB' =>
      refine .beyond (hbehind a later rfl hshort) ?_
      obtain ⟨hC, hfails⟩ := hB _ hB'
      rw [manyFrom, hread']
      simp only
      split
      · rw [manyFrom_of_none (hfails later' rfl)]
        exact hC
      · exact hstart (by simp)

end ReadsCut

end Parser

/-! ## Layout -/

/-- The layout that may start with certain blanks is skipped, and no other text. -/
structure SkipsLayout (blanks : Char → Bool) (layout : List Char → List Char) : Prop where
  suffix : ∀ text, layout text <:+ text
  starts : ∀ text, Starts blanks text → layout text = text
  comment : ∀ body rest, IsCommentBody body →
    layout ('/' :: '*' :: (body ++ '*' :: '/' :: rest)) = layout rest
  line : ∀ line, layout ('/' :: '/' :: line) = '/' :: '/' :: line ∨ layout ('/' :: '/' :: line) <:+ line

variable {blanks : Char → Bool} {layout : List Char → List Char} {text more rest : List Char}

lemma skipsLayout_inside : SkipsLayout isLineBlank inside where
  suffix text := inside_suffix (List.suffix_refl text)
  starts _ h := h.inside_eq
  comment body rest hbody := by rw [inside, insideComment_body hbody]
  line line := .inl (inside_line line)

lemma skipsLayout_between : SkipsLayout isBetweenBlank between where
  suffix text := between_suffix (List.suffix_refl text)
  starts _ h := h.between_eq
  comment body rest hbody := by rw [between_comment, betweenComment_body hbody]
  line line := .inr (betweenLine_suffix (List.suffix_refl line))

/-- The layout ends in front of the cut, where it ends without the text behind the cut, or it takes some
of that text. -/
def LayoutCut (layout : List Char → List Char) (text more : List Char) : Prop :=
  layout (text ++ more) = layout text ++ more ∨
    (layout (text ++ more)).length < more.length ∧ IsSpent (layout text)

lemma length_lt_of_closes {body : List Char} (h : closes text = false)
    (heq : text ++ more = body ++ '*' :: '/' :: rest) : rest.length < more.length := by
  have hlength := congrArg List.length heq
  simp only [List.length_append, List.length_cons] at hlength
  by_contra hle
  -- The closing would stand in front of the cut.
  have hprefix : body ++ ['*', '/'] <+: text := by
    have hwhole : body ++ ['*', '/'] <+: text ++ more := by
      rw [heq]
      exact ⟨rest, by simp⟩
    refine List.prefix_of_prefix_length_le hwhole (List.prefix_append text more) ?_
    simp only [List.length_append, List.length_cons, List.length_nil]
    omega
  obtain ⟨after, rfl⟩ := hprefix
  rw [List.append_assoc, List.cons_append, List.cons_append, List.nil_append, closes_append] at h
  cases h

lemma SkipsLayout.cut_slash (hl : SkipsLayout blanks layout) (h : blanks '/' = false)
    (more : List Char) : LayoutCut layout ['/'] more := by
  have hself : layout ['/'] = ['/'] := hl.starts _ (.cons h fun _ => ⟨nofun, nofun⟩)
  rw [LayoutCut, hself]
  generalize htext : ['/'] ++ more = text
  cases Front.of blanks text with
  | starts hstarts =>
    left
    rw [hl.starts _ hstarts]
  | blank hblank =>
    obtain ⟨rfl, -⟩ := List.cons.inj htext
    rw [h] at hblank
    cases hblank
  | @comment body rest hbody =>
    obtain ⟨-, rfl⟩ := List.cons.inj htext
    refine .inr ⟨?_, .slash⟩
    rw [hl.comment body rest hbody]
    refine (hl.suffix rest).length_le.trans_lt ?_
    simp only [List.length_cons, List.length_append]
    omega
  | line line =>
    obtain ⟨-, rfl⟩ := List.cons.inj htext
    rcases hl.line line with hline | hline
    · exact .inl hline
    · exact .inr ⟨Nat.lt_succ_of_le hline.length_le, .slash⟩

lemma SkipsLayout.cut_of_starts (hl : SkipsLayout blanks layout) (h : Starts blanks text)
    (more : List Char) : LayoutCut layout text more := by
  have hself := hl.starts text h
  rw [LayoutCut, hself]
  cases h with
  | nil =>
    have hsuffix := hl.suffix more
    rcases Nat.lt_or_ge (layout more).length more.length with hlt | hle
    · exact .inr ⟨hlt, .nil⟩
    · exact .inl (hsuffix.eq_of_length (Nat.le_antisymm hsuffix.length_le hle))
  | @opening rest hrest =>
    cases hcloses : closes (rest ++ more) with
    | false => exact .inl (hl.starts _ (.opening hcloses))
    | true =>
      obtain ⟨body, after, hbody, heq⟩ := exists_body_of_closes hcloses
      refine .inr ⟨?_, .opening hrest⟩
      rw [List.cons_append, List.cons_append, heq, hl.comment body after hbody]
      exact (hl.suffix after).length_le.trans_lt (length_lt_of_closes hrest heq)
  | @cons c rest hc hslash =>
    by_cases hlone : c = '/' ∧ rest = []
    · obtain ⟨rfl, rfl⟩ := hlone
      have hcut := hl.cut_slash hc more
      rwa [LayoutCut, hself] at hcut
    · refine .inl (hl.starts _ (.cons hc fun hc' => ?_))
      exact (hslash hc').append (fun hrest => hlone ⟨hc', hrest⟩) more

lemma length_lt_of_nextLine? {line : List Char} (hline : '\n' ∉ line)
    (h : nextLine? (line ++ more) = some rest) : rest.length < more.length := by
  obtain ⟨body, -, heq⟩ := exists_body_of_nextLine? h
  rcases List.append_eq_append_iff.1 heq with ⟨after, -, rfl⟩ | ⟨after, rfl, hrest⟩
  · simp only [List.length_append, List.length_cons]
    omega
  · cases after with
    | nil =>
      obtain rfl : more = _ := hrest.symm
      exact Nat.lt_succ_self _
    | cons c after =>
      obtain ⟨rfl, -⟩ := List.cons.inj hrest
      exact absurd (List.mem_append_right body List.mem_cons_self) hline

lemma inside_cut (text more : List Char) : LayoutCut inside text more := by
  obtain ⟨g, hg, htext, hstops⟩ := exists_gap_inside text
  have hskip : inside (text ++ more) = inside (inside text ++ more) := by
    conv => lhs; rw [htext, List.append_assoc, inside_gap hg]
  rw [LayoutCut, hskip]
  rcases hstops with hstarts | ⟨line, hline⟩
  · have hcut := skipsLayout_inside.cut_of_starts hstarts more
    rwa [LayoutCut, hstarts.inside_eq] at hcut
  · rw [hline]
    exact .inl (inside_line _)

lemma between_cut (text : List Char) (hmore : more ≠ []) : LayoutCut between text more := by
  obtain ⟨b, hb, ⟨htext, hstarts⟩ | ⟨line, hline, rfl, hend⟩⟩ := exists_blank_between text
  · have hskip : between (text ++ more) = between (between text ++ more) := by
      conv => lhs; rw [htext, List.append_assoc, between_blank hb]
    have hcut := skipsLayout_between.cut_of_starts hstarts more
    rw [LayoutCut, hskip]
    rwa [LayoutCut, hstarts.between_eq] at hcut
  · refine .inr ⟨?_, hend ▸ .nil⟩
    rw [List.append_assoc, between_blank hb, List.cons_append, List.cons_append, between_line,
      betweenLine_eq]
    have hpos := List.length_pos_iff.2 hmore
    cases hnext : nextLine? (line ++ more) with
    | none => exact hpos
    | some rest =>
      exact (between_suffix (List.suffix_refl rest)).length_le.trans_lt
        (length_lt_of_nextLine? (feed_not_mem_of_nextLine? hline) hnext)

end SignalCalc.Syntax
