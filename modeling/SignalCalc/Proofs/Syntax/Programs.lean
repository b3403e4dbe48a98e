import SignalCalc.Proofs.Syntax.Statements
import SignalCalc.Syntax.Program

/-!
# Programs are read back

`WrittenProgram statements text` says that a source text is a way to write a list of statements:
with layout before the first one, a separator between each two, and blanks or one more separator
at the end.  `parse_eq` says that such a text is read as these statements.

A block comment may stand at the end of the text only with a separator behind it.  Without one the
end of the last statement is looked for in the comment too, up to any later closing.
-/

namespace SignalCalc.Syntax

open SignalCalc.Syntax.Grammar
open SignalCalc.Syntax.Layout
open SignalCalc.Syntax.Parser
open SignalCalc.Syntax.Token
open SignalCalc.Text

variable {t rest g s : List Char} {node : Node}

/-- The text behind the last statement. -/
def IsTail (tail : List Char) : Prop := (∀ c ∈ tail, c = ' ' ∨ c = '\t') ∨ IsSeparator tail

/-- The text of one or more statements, from the first of them on. -/
inductive WrittenStatements : List Node → List Char → Prop where
  | last {node : Node} {t tail : List Char} : WrittenStatement node t → IsTail tail →
    WrittenStatements [node] (t ++ tail)
  | cons {node : Node} {nodes : List Node} {t s u : List Char} : WrittenStatement node t →
    IsSeparator s → WrittenStatements nodes u → WrittenStatements (node :: nodes) (t ++ (s ++ u))

/-- The text of a program. -/
inductive WrittenProgram : List Node → List Char → Prop where
  | empty {b : List Char} : IsBlank b → WrittenProgram [] b
  | statements {nodes : List Node} {b u : List Char} : IsBlank b → WrittenStatements nodes u →
    WrittenProgram nodes (b ++ u)

/-! ## Where statements start and end -/

lemma WrittenStatement.startsOperand (h : WrittenStatement node t) : StartsOperand t := by
  have hname : ∀ {x more : List Char}, IsName x → StartsOperand (x ++ more) := by
    rintro _ more ⟨c, cs, rfl, hc, -⟩
    exact ⟨c, cs ++ more, rfl, .inl (startsPrimary_iff.2 (.inr (.inr (.inr (.inl hc)))))⟩
  cases h with
  | expression h => exact h.startsOperand
  | assignment hx _ _ _ => exact hname hx
  | definition hf _ _ _ _ _ _ _ _ => exact hname hf

lemma StartsOperand.between_append (h : StartsOperand t) (rest : List Char) :
    between (t ++ rest) = t ++ rest := by
  obtain ⟨c, cs, rfl, hc⟩ := h
  rcases hc with hc | rfl | rfl | rfl | ⟨rfl, hne, hcomment⟩
  · exact between_cons (isSpace_of_startsPrimary hc) (ne_of_startsPrimary hc (by decide))
      (ne_of_startsPrimary hc (by decide)) _
  · exact between_cons (by decide) (by decide) (by decide) _
  · exact between_cons (by decide) (by decide) (by decide) _
  · exact between_cons (by decide) (by decide) (by decide) _
  · exact between_slash (hcomment.append hne rest).1 (hcomment.append hne rest).2

lemma FollowsStatement.gap_append (hg : IsGap g) (h : FollowsStatement rest) :
    FollowsStatement (g ++ rest) := by
  refine ⟨⟨h.argument.1.gap_append hg, ?_⟩, ?_⟩
  · rw [inside_gap hg]
    exact h.argument.2
  · rw [inside_gap hg]
    exact h.call

lemma followsStatement_nil : FollowsStatement [] := ⟨⟨follows_nil, rfl⟩, nofun⟩

lemma followsStatement_separator (hs : IsSeparator s) (rest : List Char) :
    FollowsStatement (s ++ rest) := by
  cases hs with
  | @mark g b c hg hc _ =>
    have hmark : IsMark c := .inr (.inr hc)
    rw [List.append_assoc]
    refine FollowsStatement.gap_append hg ⟨followsArgument_mark (g := []) hmark .nil _, ?_⟩
    rw [List.cons_append, inside_mark hmark]
    rcases hc with rfl | rfl
    all_goals exact fun h => absurd (Option.some.inj h) (by decide)
  | @line g body b hg _ _ =>
    rw [List.append_assoc]
    have hsolid : inside ('/' :: '/' :: (body ++ '\n' :: b) ++ rest) =
        '/' :: '/' :: (body ++ '\n' :: b) ++ rest :=
      inside_slash fun h => absurd (Option.some.inj h) (by decide)
    refine FollowsStatement.gap_append hg ⟨⟨follows_lineComment _, ?_⟩, ?_⟩
    · rw [hsolid]
      exact assign_cons_of_ne (by decide) _
    · rw [hsolid]
      exact fun h => absurd (Option.some.inj h) (by decide)

namespace IsTail

variable {tail : List Char}

lemma between_eq_nil (h : IsTail tail) : between tail = [] := by
  have hblank : IsBlank tail := h.elim (fun h => (isGap_of_blanks h).isBlank) IsSeparator.isBlank
  have hskip := between_blank hblank []
  rwa [List.append_nil] at hskip

lemma followsStatement (h : IsTail tail) : FollowsStatement tail := by
  rcases h with h | h
  · have hgap := followsStatement_nil.gap_append (isGap_of_blanks h)
    rwa [List.append_nil] at hgap
  · have hseparator := followsStatement_separator h []
    rwa [List.append_nil] at hseparator

end IsTail

/-! ## Reading -/

lemma statement_fails_nil : statement.Fails [] := by
  have hname : name.Fails [] := name_fails rfl
  refine .orElse (.bind (.located (.bind hname))) (.orElse (.bind (.located (.bind hname))) ?_)
  exact fun c hc => expressionOver_fails noOperand_nil _ c hc

/-- A statement behind the end of another one. -/
def nextStatement : Parser Node := scan terminator? *> statement

lemma nextStatement_fails {tail : List Char} (h : IsTail tail) : nextStatement.Fails tail := by
  rcases h with h | h
  · have hending : ending? tail = ending? [] := List.append_nil tail ▸ ending?_blanks h []
    refine .seqRight (.scan ?_)
    rw [terminator?, hending]
    rfl
  · have hterminator : (scan terminator?).Reads (fun _ => True) tail [] :=
      .scan (terminator?_separator h [])
    have hlands := hterminator.lands
    rw [List.append_nil] at hlands
    exact hlands.bind_fails fun _ _ hmid => hmid ▸ statement_fails_nil

lemma nextStatement_reads (hs : IsSeparator s) (h : WrittenStatement node t)
    (hrest : FollowsStatement rest) : nextStatement.Reads (·.bare = node.bare) (s ++ t) rest := by
  refine .seqRight (.scan ?_) (h.readsBack hrest)
  rw [terminator?_separator hs, h.startsOperand.between_append]

/-- Statements are read one after the other, up to the tail. -/
lemma WrittenStatements.readsBack {nodes : List Node} {u : List Char}
    (h : WrittenStatements nodes u) :
    ∃ node others t w tail, nodes = node :: others ∧ u = t ++ (w ++ tail) ∧
      WrittenStatement node t ∧ FollowsStatement (w ++ tail) ∧ IsTail tail ∧
      (many nextStatement).Reads (fun read => read.map Node.bare = others.map Node.bare) w
        tail := by
  induction h with
  | @last node t tail h htail =>
    refine ⟨node, [], t, [], tail, rfl, rfl, h, htail.followsStatement, htail, ?_⟩
    exact (Reads.many_nil (nextStatement_fails htail)).mono fun read hread => hread ▸ rfl
  | @cons node nodes t s u h hs _ ih =>
    obtain ⟨second, others, t', w, tail, rfl, rfl, h', hfollows, htail, hothers⟩ := ih
    have hsplit : s ++ (t' ++ (w ++ tail)) = (s ++ t') ++ w ++ tail := by
      simp only [List.append_assoc]
    refine ⟨node, second :: others, t, (s ++ t') ++ w, tail, rfl, by rw [hsplit], h, ?_, htail, ?_⟩
    · rw [← hsplit]
      exact followsStatement_separator hs _
    · have hne : s ++ t' ≠ [] := by
        obtain ⟨c, cs, rfl, -⟩ := h'.startsOperand
        simp
      refine (Reads.many_cons hne (nextStatement_reads hs h' hfollows) hothers).mono ?_
      rintro _ ⟨read, reads, rfl, hread, hreads⟩
      rw [List.map_cons, List.map_cons, hread, hreads]

lemma WrittenProgram.readsBack {nodes : List Node} {u : List Char} (h : WrittenProgram nodes u) :
    program.Reads (fun read => read.map Node.bare = nodes.map Node.bare) u [] := by
  cases h with
  | @empty b hb =>
    have hskip : (skip between).Reads (fun _ => True) u [] := .skip (between_blank hb [])
    have hnone : (sepBy statement (scan terminator?)).Reads (· = []) [] [] :=
      .bind_nil (.maybe_none (.bind statement_fails_nil)) fun r hr => .pure (hr ▸ rfl)
    refine .bind_nil hskip fun _ _ => .bind_nil hnone fun read hread => ?_
    exact .bind_nil (.skip rfl) fun _ _ => .pure (hread ▸ rfl)
  | @statements _ b u hb h =>
    obtain ⟨node, others, t, w, tail, rfl, rfl, h, hfollows, htail, hothers⟩ := h.readsBack
    have hskip : (skip between).Reads (fun _ => True) b ((t ++ (w ++ tail)) ++ []) := by
      refine .skip ((between_blank hb _).trans ?_)
      rw [List.append_nil, h.startsOperand.between_append]
    have hsome : (sepBy statement (scan terminator?)).Reads
        (fun read => read.map Node.bare = (node :: others).map Node.bare) (t ++ w) tail := by
      refine .bind_nil (.maybe_some (P := fun read =>
        read.map Node.bare = (node :: others).map Node.bare) ?_) ?_
      · refine .bind (h.readsBack hfollows) fun first hfirst => ?_
        refine .bind_nil hothers fun reads hreads => .pure ?_
        rw [List.map_cons, List.map_cons, hfirst, hreads]
      · rintro _ ⟨read, rfl, hread⟩
        exact .pure hread
    have htail' : (skip between).Reads (fun _ => True) tail [] := by
      refine .skip ?_
      rw [List.append_nil, htail.between_eq_nil]
    refine .bind hskip fun _ _ => ?_
    rw [← List.append_assoc]
    refine .bind (by rwa [List.append_nil]) fun read hread => ?_
    exact .bind_nil htail' fun _ _ => .pure hread

/-- A text that is a way to write some statements is read as these statements. -/
lemma WrittenProgram.parse_eq {nodes : List Node} {text : List Char}
    (h : WrittenProgram nodes text) :
    ∃ read, parse (String.ofList text) = .ok read ∧ read.map Node.bare = nodes.map Node.bare := by
  have hstart : (Cursor.start (String.ofList text)).rest = text ++ [] := by
    rw [Cursor.rest_start, String.toList_ofList, List.append_nil]
  obtain ⟨read, later, hrun, hread, hlater⟩ := h.readsBack _ hstart
  refine ⟨read, ?_, hread⟩
  unfold parse
  rw [hrun]
  obtain ⟨_, line, col⟩ := later
  subst hlater
  rfl

/-- The text of an expression is read as that expression alone. -/
lemma Written.parse_eq {text : String} (h : Written (.level 0) node text.toList) :
    ∃ read, parse text = .ok [read] ∧ read.bare = node.bare := by
  have hprogram : WrittenProgram [node] text.toList := by
    have htext := @WrittenProgram.statements _ [] _ .nil
      (@WrittenStatements.last _ _ [] (.expression h) (.inl nofun))
    rwa [List.append_nil] at htext
  obtain ⟨reads, hparse, hbare⟩ := hprogram.parse_eq
  rw [String.ofList_toList] at hparse
  obtain ⟨read, rfl⟩ : ∃ read, reads = [read] := by
    have hlength := congrArg List.length hbare
    rw [List.length_map, List.length_map] at hlength
    exact List.length_eq_one_iff.1 hlength
  exact ⟨read, hparse, List.head_eq_of_cons_eq hbare⟩

end SignalCalc.Syntax
