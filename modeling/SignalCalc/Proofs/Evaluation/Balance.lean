import SignalCalc.Proofs.Evaluation.Congruence

/-!
# Calls return, and a bound that suffices is forgotten

Three facts about every evaluation, each of them kept by the building blocks of the evaluator:

* an evaluation that succeeds has returned from all its calls, so the calls that were pending before
  it are pending after it (`evalWithin_balanced`);
* one that was not too deep comes out the same within every larger bound (`evalWithin_deeper`);
* an error of the program belongs to a node (`exists_node_of_evalWithin`).
-/

namespace SignalCalc.Evaluation

open SignalCalc.Syntax

variable {α : Type} {m m₁ : Machine}

/-- A computation that succeeds leaves the pending calls as they were. -/
def Balanced (x : Eval α) : Prop := ∀ m a m₁, x m = (.ok a, m₁) → m₁.frames = m.frames

/-- The computation came to the bound on the nesting. -/
def IsTooDeep : Except Failure α → Prop
  | .error ⟨.tooDeep, _⟩ => True
  | _ => False

instance (r : Except Failure α) : Decidable (IsTooDeep r) :=
  match r with
  | .error ⟨.tooDeep, _⟩ => isTrue trivial
  | .error ⟨.undefinedVariable _, _⟩ | .error ⟨.typeMismatch _ _, _⟩
  | .error ⟨.arityMismatch _ _ _, _⟩ | .error ⟨.notAFunction _, _⟩ | .error ⟨.emptyExpression, _⟩
  | .error ⟨.unknownParameter _ _, _⟩ | .error ⟨.secondValue _ _, _⟩
  | .error ⟨.duplicateParameter _ _, _⟩ | .error ⟨.notEvaluable _, _⟩ | .error ⟨.tooLarge _, _⟩
  | .ok _ => isFalse not_false

lemma exists_of_isTooDeep {r : Except Failure α × Machine} (h : IsTooDeep r.1) :
    ∃ node m₁, r = (.error ⟨.tooDeep, node⟩, m₁) := by
  obtain ⟨r, m₁⟩ := r
  unfold IsTooDeep at h
  split at h
  · exact ⟨_, m₁, Prod.ext ‹_› rfl⟩
  · exact h.elim

/-- The second computation does what the first does, unless the first is too deep. -/
def Outlasts (x y : Eval α) : Prop := ∀ m, IsTooDeep (x m).1 ∨ y m = x m

/-! ## Calls return -/

lemma Balanced.congruent : Congruent fun _ x _ => Balanced x where
  pure a m b m₁ hrun := by
    obtain ⟨-, rfl⟩ := Prod.mk.inj hrun
    rfl
  fail cause m a m₁ hrun := by cases hrun
  tooDeep y m a m₁ hrun := by cases hrun
  note event m a m₁ hrun := by
    obtain ⟨-, rfl⟩ := Prod.mk.inj hrun
    rfl
  modifyGet hframes hevents m a m₁ hrun := by
    obtain ⟨-, rfl⟩ := Prod.mk.inj hrun
    exact hframes m
  bind hx hf m b m₂ hrun := by
    obtain ⟨a, m₁, hfirst, hsecond⟩ := run_bind_eq_ok.1 hrun
    exact (hf a m₁ b m₂ hsecond).trans (hx m a m₁ hfirst)
  claim node hx m a m₁ hrun := hx m a m₁ (run_claim_eq_ok.1 hrun)
  framed {_ x _} frame hx m a m₂ hrun := by
    rw [run_framed] at hrun
    rcases hinner : x { m with frames := frame :: m.frames } with ⟨_ | b, m₁⟩
    · rw [hinner] at hrun
      cases hrun
    · rw [hinner] at hrun
      obtain ⟨-, rfl⟩ := Prod.mk.inj hrun
      show m₁.frames.drop 1 = m.frames
      rw [hx _ b m₁ hinner]
      rfl

/-- **Every call returns.**  An evaluation that succeeds leaves the pending calls as they were. -/
theorem evalWithin_balanced (depth : ℕ) (node : Node) (scope : ScopeId) :
    Balanced (evalWithin depth node scope) :=
  Balanced.congruent.evalWithin depth node scope

/-! ## Bounds -/

lemma Outlasts.refl (x : Eval α) : Outlasts x x := fun _ => .inr rfl

lemma Outlasts.congruent : Congruent fun _ x y => Outlasts x y where
  pure a := .refl _
  fail cause := .refl _
  tooDeep y m := .inl trivial
  note event := .refl _
  modifyGet _ _ := .refl _
  bind {_ _ x y _ _} hx hf m := by
    rw [run_bind, run_bind]
    rcases hx m with hdeep | hsame
    · obtain ⟨node, m₁, hrun⟩ := exists_of_isTooDeep hdeep
      rw [hrun]
      exact .inl trivial
    · rw [hsame]
      rcases x m with ⟨failure | a, m₁⟩
      · exact .inr rfl
      · exact hf a m₁
  claim {_ x y} node hx m := by
    rw [run_claim, run_claim]
    rcases hx m with hdeep | hsame
    · obtain ⟨inner, m₁, hrun⟩ := exists_of_isTooDeep hdeep
      rw [hrun]
      exact .inl trivial
    · exact .inr (by rw [hsame])
  framed {_ x y} frame hx m := by
    rw [run_framed, run_framed]
    rcases hx { m with frames := frame :: m.frames } with hdeep | hsame
    · obtain ⟨node, m₁, hrun⟩ := exists_of_isTooDeep hdeep
      rw [hrun]
      exact .inl trivial
    · exact .inr (by rw [hsame])

/-- A bound that suffices might as well be larger. -/
theorem evalWithin_deeper {depth : ℕ} {node : Node} {scope : ScopeId}
    (h : ¬IsTooDeep (evalWithin depth node scope m).1) :
    evalWithin (depth + 1) node scope m = evalWithin depth node scope m :=
  (Outlasts.congruent.evalWithin depth node scope m).resolve_left h

/-! ## The node of an error -/

/-- An error of the program that comes out of a node has been claimed by a node. -/
lemma exists_node_of_evalWithin {depth : ℕ} {node : Node} {scope : ScopeId} {failure : Failure}
    (h : (evalWithin depth node scope m).1 = .error failure)
    (hlanguage : failure.cause.isLanguageError = true) : ∃ inner, failure.node = some inner := by
  cases depth with
  | zero =>
    obtain rfl := Except.error.inj h
    cases hlanguage
  | succ depth =>
    obtain ⟨x, hx⟩ : ∃ x, evalWithin (depth + 1) node scope = claim node x := ⟨_, rfl⟩
    rw [hx, run_claim] at h
    cases houtcome : (x m).1 with
    | ok a =>
      rw [houtcome] at h
      cases h
    | error inner =>
      rw [houtcome] at h
      obtain rfl := Except.error.inj h
      replace hlanguage : inner.cause.isLanguageError = true := hlanguage
      show ∃ e, (if inner.cause.isLanguageError then inner.node.or (some node) else inner.node) = some e
      rw [if_pos hlanguage]
      cases inner.node with
      | none => exact ⟨node, rfl⟩
      | some e => exact ⟨e, rfl⟩

end SignalCalc.Evaluation
