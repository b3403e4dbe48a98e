import SignalCalc.Proofs.Call.Related
import SignalCalc.Proofs.Syntax.Operands

/-!
# Written expressions are read back

`Written.readsBack` says that the text of an expression is read as that expression, in every place
and with every text behind it that lets the expression end.  The proof is by induction on how the
text is written, and each constructor of `Written` is one rule of the grammar.

The grammar bounds how deep operands are nested.  Every level of nesting takes at least one
character, so the length of the text is bound enough, and it is the length that the induction
carries along.
-/

namespace SignalCalc.Syntax

open SignalCalc.Syntax.Grammar
open SignalCalc.Syntax.Layout
open SignalCalc.Syntax.Parser
open SignalCalc.Syntax.Token

variable {e : Node} {t : List Char} {k : ℕ}

/-- An operand of level `k` is read wherever one is looked for.  What each of the rules of the
level needs is kept, for a longer expression may go on from any of them. -/
structure ReadsOperand (k : ℕ) (e : Node) (t : List Char) : Prop where
  row : k < 6 → ∀ depth, t.length ≤ depth → ReadsFirst depth k e t
  whole : k ≤ 6 → ∀ depth, t.length ≤ depth → ReadsAt depth k e t
  chain : k = 7 → ∀ depth, t.length ≤ depth + 1 → ReadsCallee (expressionOver (operand depth)) e t

/-- The text is read as the expression in its place. -/
def ReadsIn : Place → Node → List Char → Prop
  | .argument, e, t => ∀ depth, t.length ≤ depth → ∀ rest, FollowsArgument rest →
      (argument (expressionOver (operand depth))).Reads (·.bare = e.bare) t rest
  | .level k, e, t => ReadsOperand k e t

namespace ReadsOperand

lemma of_row (hk : k < 6) (h : ∀ depth, t.length ≤ depth → ReadsFirst depth k e t) :
    ReadsOperand k e t :=
  ⟨fun _ => h, fun _ depth hdepth => (h depth hdepth).readsAt hk, fun hk' => by omega⟩

lemma of_whole (h : ∀ depth, t.length ≤ depth → ReadsAt depth 6 e t) : ReadsOperand 6 e t :=
  ⟨fun hk => by omega, fun _ => h, fun hk => by omega⟩

lemma of_chain
    (h : ∀ depth, t.length ≤ depth + 1 → ReadsCallee (expressionOver (operand depth)) e t) :
    ReadsOperand 7 e t :=
  ⟨fun hk => by omega, fun hk => by omega, fun _ => h⟩

/-- An operand that binds tighter than its place. -/
lemma tighter (hk : k ≤ 6) (h : ReadsOperand (k + 1) e t) (ht : Written (.level (k + 1)) e t) :
    ReadsOperand k e t := by
  rcases Nat.lt_or_eq_of_le hk with hlt | rfl
  · exact of_row hlt fun depth hdepth => (h.whole hlt depth hdepth).readsFirst hlt
  · refine of_whole fun depth hdepth => ?_
    obtain ⟨c, cs, rfl, hc⟩ := ht.startsPrimary
    cases depth with
    | zero => cases hdepth
    | succ depth => exact (h.chain rfl depth hdepth).readsAt rfl hc

/-- An expression is read between parentheses. -/
lemma parentheses {g g' : List Char} (h : ReadsOperand 0 e t) (ht : StartsOperand t)
    (hg : IsGap g) (hg' : IsGap g') : ReadsOperand 7 e ('(' :: (g ++ (t ++ (g' ++ [')'])))) := by
  refine of_chain fun depth hdepth => ?_
  have hlength : t.length ≤ depth := by
    simp only [List.length_cons, List.length_append] at hdepth
    omega
  refine readsCallee_group (P := fun inner => ∃ node, inner = some node ∧ node.bare = e.bare)
    (fun rest => ?_) ?_
  · have hfollows : Follows 0 (g' ++ ')' :: rest) := (follows_mark (.inl rfl) rest).gap_append hg'
    exact parenthesized_reads hg hg' (.maybe_some (h.whole (by omega) depth hlength _ hfollows))
      (ht.inside_append _)
  · rintro _ ⟨node, rfl, hnode⟩ loc
    exact hnode

/-- Parentheses may hold nothing. -/
lemma empty {loc : Option Location} {g : List Char} (hg : IsGap g) :
    ReadsOperand 7 (.empty loc) ('(' :: (g ++ [')'])) := by
  refine of_chain fun depth _ => readsCallee_group (P := (· = none)) (fun rest => ?_) ?_
  · have hnone : (maybe (expressionOver (operand depth))).Reads (· = none) []
        ([] ++ ')' :: rest) :=
      .maybe_none (expressionOver_fails (noOperand_parenthesis rest) depth)
    exact parenthesized_reads hg .nil hnone (inside_mark (.inl rfl) rest)
  · rintro _ rfl loc'
    rfl

lemma call {loc : Option Location} {g g' u : List Char} {args : List (Node × List Char)}
    (h : ReadsOperand 7 e t)
    (hargs : ∀ arg ∈ args, StartsOperand arg.2 ∧ ReadsIn .argument arg.1 arg.2)
    (hu : Separated (args.map Prod.snd) u) (hg : IsGap g) (hg' : IsGap g') :
    ReadsOperand 7 (.invocation loc e (args.map Prod.fst))
      (t ++ '(' :: (g ++ (u ++ (g' ++ [')'])))) := by
  refine of_chain fun depth hdepth => ?_
  simp only [List.length_append, List.length_cons] at hdepth
  refine (h.chain rfl depth (by omega)).call fun rest => ?_
  have hargument : ∀ arg ∈ args, ∀ more, FollowsArgument more →
      (argument (expressionOver (operand depth))).Reads (·.bare = arg.1.bare) arg.2 more := by
    intro arg harg
    have hlength := hu.length_le arg.2 (List.mem_map_of_mem harg)
    exact (hargs arg harg).2 depth (by omega)
  refine (parenthesized_sepBy_reads (Q := fun e node => node.bare = e.bare)
    (fun c g more hc hg => followsArgument_mark hc hg more)
    (fun arg harg => (hargs arg harg).1.inside_append) hargument
    (fun more => argument_fails (noOperand_parenthesis more)) hu hg hg').mono fun as has => ?_
  exact Call.map_eq_of_forall₂ has

end ReadsOperand

/-- **Expressions are read back.** The text of an expression is read as that expression, whatever
text follows that lets it end. -/
theorem Written.readsBack {place : Place} (h : Written place e t) : ReadsIn place e t := by
  induction h with
  | number hdigits => exact .of_chain fun _ _ => readsCallee_number hdigits
  | string hs => exact .of_chain fun _ _ => readsCallee_string hs
  | identifier hx => exact .of_chain fun _ _ => readsCallee_identifier hx
  | empty hg => exact .empty hg
  | parentheses h hg hg' ih => exact .parentheses ih h.startsOperand hg hg'
  | call _ hargs hu hg hg' ih ihargs =>
    exact .call ih (fun arg harg => ⟨(hargs arg harg).startsOperand, ihargs arg harg⟩) hu hg hg'
  | @power loc base exponent t t' g g' h h' hg hg' ih ih' =>
    refine .of_whole fun depth hdepth => ?_
    obtain ⟨c, cs, rfl, hc⟩ := h.startsPrimary
    simp only [List.length_append, List.length_cons] at hdepth
    obtain ⟨depth, rfl⟩ : ∃ d, depth = d + 1 := ⟨depth - 1, by omega⟩
    have hbase := ih.chain rfl depth (by rw [List.length_cons]; omega)
    exact hbase.power rfl hc (ih'.whole le_rfl depth (by omega)) h'.startsOperand hg hg'
  | @unary loc op e t g hop h hg hslash ih =>
    refine .of_whole fun depth hdepth => ?_
    have hsymbol : 0 < op.symbol.toList.length := by
      cases op with
      | other symbol => exact hop.elim
      | _ => decide
    simp only [List.length_append] at hdepth
    obtain ⟨depth, rfl⟩ : ∃ d, depth = d + 1 := ⟨depth - 1, by omega⟩
    exact prefixed_reads hop (ih.whole le_rfl depth (by omega)) h.startsOperand hg hslash
  | @binary loc op left right t t' g g' hlevel h h' hg hg' hslash ih ih' =>
    refine .of_row (by omega) fun depth hdepth => ?_
    simp only [List.length_append] at hdepth
    exact (ih.row (by omega) depth (by omega)).binary hlevel
      (ih'.whole (by omega) depth (by omega)) h'.startsOperand hg hg' hslash
  | tighter hk h ih => exact ih.tighter hk h
  | positional h ih =>
    intro depth hdepth rest hrest
    exact .orElse_right (keyword_fails (h.notNamed hrest.1.ends hrest.2))
      (ih.whole (by omega) depth hdepth rest hrest.1)
  | @keyword loc x e t g g' hx h hg hg' ih =>
    intro depth hdepth rest hrest
    simp only [List.length_append, List.length_cons] at hdepth
    exact .orElse_left (keyword_reads hx hg hg' h.startsOperand
      (ih.whole (by omega) depth (by omega) rest hrest.1))

/-- An expression is read by the rule for expressions. -/
lemma Written.expression_reads (h : Written (.level 0) e t) {rest : List Char}
    (hrest : Follows 0 rest) : expression.Reads (·.bare = e.bare) t rest := by
  intro c hc
  have hlength : t.length ≤ c.rest.length + 1 := by
    rw [hc, List.length_append]
    omega
  exact (h.readsBack).whole (by omega) _ hlength rest hrest c hc

end SignalCalc.Syntax
