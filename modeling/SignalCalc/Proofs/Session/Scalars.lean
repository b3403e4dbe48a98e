import SignalCalc.Proofs.Printing.RoundTrip
import SignalCalc.Proofs.Session.Strings

/-!
# Printed scalars evaluate back

A real, a truth value or a string that comes up in a session is printed as a text that is read as one
expression, and a new session evaluates that expression to an equal value (`evaluate_printed_scalar`).
For strings this needs that none of them holds a quote or the end of a line, for there is no way to write
either between quotes.  Truth values are printed as names, and a session may bind these again, but a new
session knows them.
-/

namespace SignalCalc

open SignalCalc.Evaluation
open SignalCalc.Number
open SignalCalc.Signal
open SignalCalc.Syntax

/-- The name of a truth value. -/
def truthName (b : Bool) : String := if b then "true" else "false"

namespace Store

/-- The truth values have their names. -/
def KnowsTruth (store : Store) : Prop :=
  ∀ b, store.lookup? root (truthName b) = some (.bool b)

/-- The name of this truth value is bound to it. -/
def bindsTruth (store : Store) (b : Bool) : Bool :=
  match store.lookup? root (truthName b) with
  | some (.bool c) => c == b
  | _ => false

lemma knowsTruth_of_all {store : Store} (h : [true, false].all store.bindsTruth = true) :
    store.KnowsTruth := by
  intro b
  have hb := List.all_eq_true.1 h b (by cases b <;> decide)
  unfold bindsTruth at hb
  split at hb
  · rename_i c heq
    rw [heq, beq_iff_eq.1 hb]
  · cases hb

end Store

namespace Value

/-- A finite real, a truth value or a string. -/
def IsScalar : Value → Prop
  | real x => x.isFinite = true
  | bool _ | string _ => True
  | _ => False

/-- The expression that a scalar is printed as. -/
def scalarNode : Value → Node
  | real x => realNode x
  | bool b => .identifier none (truthName b)
  | string text => .string none text
  | _ => .missing

/-- The value of that expression, which may have another zero in the place of a zero. -/
def rereadScalar : Value → Value
  | real x => real (reread x)
  | v => v

variable {v : Value} {store : Store}

/-- The text of a scalar is a way to write its expression. -/
lemma IsScalar.written (h : v.IsScalar) (hread : ∀ x, v = real x → ReadsBack x)
    (hquotable : v.IsQuotable) :
    ∃ text, v.text = .ok text ∧ Written (.level 0) v.scalarNode text.toList := by
  cases v with
  | real x => exact ⟨_, rfl, written_number h (hread x rfl)⟩
  | bool b =>
    have hname : Token.IsName (truthName b).toList := isName_of_spellsName (by cases b <;> decide)
    exact ⟨_, rfl, (Written.identifier hname).loosen (Nat.zero_le _) (by decide)⟩
  | string text =>
    refine ⟨_, rfl, ?_⟩
    rw [String.toList_append, String.toList_append]
    exact (Written.string hquotable).loosen (Nat.zero_le _) (by decide)
  | _ => exact h.elim

lemma IsScalar.isExpression (h : v.IsScalar) : v.scalarNode.IsExpression := by
  cases v with
  | real x => exact signedNode_isExpression _ _
  | bool | string => trivial
  | _ => exact h.elim

lemma IsScalar.gives (h : v.IsScalar) (hstore : store.KnowsTruth) :
    ExpressionGives store v.scalarNode v.rereadScalar := by
  cases v with
  | real x => exact realNode_expressionGives x
  | bool b =>
    intro node hnode depth hdepth
    obtain ⟨loc, rfl⟩ := Node.bare_eq_identifier hnode
    obtain ⟨depth, rfl⟩ := Nat.exists_eq_add_of_le' hdepth
    exact identifier_gives (hstore b)
  | string text =>
    intro node hnode depth hdepth
    obtain ⟨loc, rfl⟩ := Node.bare_eq_string hnode
    obtain ⟨depth, rfl⟩ := Nat.exists_eq_add_of_le' hdepth
    exact .claim _ (.pure _)
  | _ => exact h.elim

/-- At most a sign stands round the number, the name or the string. -/
lemma IsScalar.height_le (h : v.IsScalar) {node : Node} (hnode : node.bare = v.scalarNode.bare) :
    node.height ≤ 2 := by
  cases v with
  | real x =>
    rw [scalarNode, realNode] at hnode
    cases hneg : decide (x < 0.0) with
    | false =>
      rw [hneg] at hnode
      obtain ⟨loc, rfl⟩ := Node.bare_eq_number hnode
      exact Nat.le_succ 1
    | true =>
      rw [hneg] at hnode
      obtain ⟨loc, operand, rfl, hoperand⟩ := Node.bare_eq_unary hnode
      obtain ⟨loc', rfl⟩ := Node.bare_eq_number hoperand
      exact le_rfl
  | bool b =>
    obtain ⟨loc, rfl⟩ := Node.bare_eq_identifier hnode
    exact Nat.le_succ 1
  | string text =>
    obtain ⟨loc, rfl⟩ := Node.bare_eq_string hnode
    exact Nat.le_succ 1
  | _ => exact h.elim

lemma IsScalar.same (h : v.IsScalar) : v.rereadScalar.same v = true := by
  cases v with
  | real x => exact reread_beq h
  | bool b => exact beq_self_eq_true b
  | string text => exact beq_self_eq_true text
  | _ => exact h.elim

end Value

namespace Session

variable {s : Session} {source : String} {v : Value}

set_option maxRecDepth 8000 in
lemma bindsTruth_prelude : [true, false].all (storeAfter prelude.toList).bindsTruth = true := by
  simp only [prelude, String.intercalate_cons_cons, String.intercalate_singleton,
    String.toList_append, String.reduceToList]
  decide +kernel

/-- New sessions know the truth values, whether they have run the prelude or not. -/
lemma start_knowsTruth (withPrelude : Bool) : (start withPrelude).machine.store.KnowsTruth := by
  cases withPrelude with
  | false => exact Store.knowsTruth_of_all (by decide +kernel)
  | true =>
    have hknows := Store.knowsTruth_of_all bindsTruth_prelude
    rw [start, if_pos rfl, fresh, store_evaluate]
    exact hknows

/-- A text that is one expression has the value of that expression. -/
lemma evaluate_expression {node e : Node} (hparse : parse source = .ok [node])
    (hbare : node.bare = e.bare) (hheight : node.height ≤ depthLimit)
    (hgives : ExpressionGives s.machine.store e v) : (s.evaluate source).1 = .ok v := by
  obtain ⟨m, hrun, -⟩ := hgives node hbare depthLimit hheight { s.cleared with frames := [] } rfl
  have hstatement : runStatement s.cleared node = (.ok v, m) := hrun
  unfold evaluate
  rw [hparse]
  simp only [runUntilFailure, hstatement]

/-- **Printed scalars evaluate back.**  Let a string, a truth value or a finite real whose digits read
back be the result of a text, or come up while the text runs, in a session that source texts alone have
brought about.  If it is a string, it holds neither a quote nor the end of a line.  It is printed as a
text that is read as one expression, and a new session evaluates that text to an equal value. -/
theorem evaluate_printed_scalar (hs : s.Reached)
    (hv : .value v ∈ (s.handle source).1 ∨ (s.evaluate source).1 = .ok v ∨ s.Computes source v)
    (hscalar : v.IsScalar) (hread : ∀ x, v = .real x → ReadsBack x) :
    (∀ string, v = .string string → ∀ c ∈ string.toList, c ≠ '"' ∧ c ≠ '\n') ∧
      ∃ text node, v.text = .ok text ∧ parse text = .ok [node] ∧ node.IsExpression ∧
        ∀ withPrelude, ∃ w, ((start withPrelude).evaluate text).1 = .ok w ∧ w.same v = true := by
  have hquotable : v.IsQuotable := by
    rcases hv with hresult | hvalue | hcomputes
    · exact isQuotable_of_handle hs hresult
    · exact isQuotable_of_evaluate hs hvalue
    · exact hcomputes.isQuotable hs
  refine ⟨fun string hstring => ?_, ?_⟩
  · subst hstring
    exact hquotable
  obtain ⟨text, htext, hwritten⟩ := hscalar.written hread hquotable
  obtain ⟨node, hparse, hbare⟩ := hwritten.parse_eq
  have hexpression : node.IsExpression := by
    rw [← Node.isExpression_bare, hbare, Node.isExpression_bare]
    exact hscalar.isExpression
  refine ⟨text, node, htext, hparse, hexpression, fun withPrelude => ?_⟩
  have hheight : node.height ≤ depthLimit := (hscalar.height_le hbare).trans (by decide)
  exact ⟨_, evaluate_expression hparse hbare hheight (hscalar.gives (start_knowsTruth withPrelude)),
    hscalar.same⟩

/-- The result is this string or this real. -/
def isResult (v : Value) : Result → Bool
  | .value w =>
    match v, w with
    | .string a, .string b => a == b
    | .real x, .real y => x = y
    | _, _ => false
  | _ => false

lemma mem_of_any_isResult {results : List Result} (h : results.any (isResult v) = true) :
    .value v ∈ results := by
  obtain ⟨result, hmem, hresult⟩ := List.any_eq_true.1 h
  unfold isResult at hresult
  split at hresult
  · split at hresult
    · rwa [beq_iff_eq.1 hresult]
    · rwa [of_decide_eq_true hresult]
    · cases hresult
  · cases hresult

/-- A session with a function that joins strings. -/
def joining : Session := ((start false).handle "sign = \" // \"; join(a, b) = a + sign + b").2

theorem evaluate_printed_scalar_joined :
    (∀ c ∈ "(1 // x*/".toList, c ≠ '"' ∧ c ≠ '\n') ∧
      ∀ v ∈ [Value.string "(1 // x*/", .real (-0.5)],
        .value v ∈ (joining.handle "join(b = \"x*/\", a = \"(1\"); 1 / (1 - 3)").1 ∧
        ∃ text node, v.text = .ok text ∧ parse text = .ok [node] ∧ node.IsExpression ∧
          ∀ withPrelude, ∃ w, ((start withPrelude).evaluate text).1 = .ok w ∧ w.same v = true := by
  have hreached : joining.Reached := .handle _ (.start false)
  have hstring : .value (.string "(1 // x*/") ∈
      (joining.handle "join(b = \"x*/\", a = \"(1\"); 1 / (1 - 3)").1 :=
    mem_of_any_isResult (by decide +kernel)
  have hreal : .value (.real (-0.5)) ∈
      (joining.handle "join(b = \"x*/\", a = \"(1\"); 1 / (1 - 3)").1 :=
    mem_of_any_isResult (by decide +kernel)
  have hreads : ReadsBack (-0.5) := ⟨⟨5, -1⟩, by decide +kernel, by decide +kernel⟩
  have hjoined := evaluate_printed_scalar hreached (.inl hstring) trivial nofun
  have hfinite : (-0.5 : Float).isFinite = true := by decide +kernel
  have hhalf := evaluate_printed_scalar hreached (.inl hreal) hfinite fun x hx =>
    Value.real.inj hx ▸ hreads
  exact ⟨hjoined.1 _ rfl, List.forall_mem_cons.2 ⟨⟨hstring, hjoined.2⟩,
    List.forall_mem_singleton.2 ⟨hreal, hhalf.2⟩⟩⟩

end Session

end SignalCalc
