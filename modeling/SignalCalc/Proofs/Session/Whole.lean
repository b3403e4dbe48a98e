import SignalCalc.Proofs.Evaluation.Balance
import SignalCalc.Proofs.Session.Atomic

/-!
# Programs as a whole

A program can be run statement by statement, with a result for each, or evaluated in one go as a list
of statements.  The first way forgets pending calls before each statement and goes on after a failure;
the second starts with no pending calls once and stops at the first failure.  They agree
(`evaluate_agrees`): a statement that succeeds leaves no calls behind, and an error names a node
inside its statement, so the list around it does not show.

In one go every node is nested one deeper, so the two agree up to the bound on the nesting.
-/

namespace SignalCalc.Session

open SignalCalc.Syntax
open SignalCalc.Evaluation
open List

variable {s : Session} {source : String} {statement : Node} {statements : List Node}
  {m m₁ : Machine} {last : Value}

/-- Evaluates the statements of a program in one go, as one node. -/
def evalWhole (s : Session) (statements : List Node) : Except Failure Value × Machine :=
  Evaluation.eval (.block statements) Store.root s.cleared

/-! ## One go or one by one -/

lemma runStatement_of_frames (h : m.frames = []) (statement : Node) :
    runStatement m statement = Evaluation.eval statement Store.root m := by
  obtain ⟨store, frames, nextSerial, events⟩ := m
  subst h
  rfl

/-- Statements that follow each other without a look at the pending calls find none, so they run
as they do one by one. -/
lemma foldlM_eq_runUntilFailure {depth : ℕ} (hdepth : depthLimit = depth + 1) (hm : m.frames = [])
    (hdeep : ¬IsTooDeep (statements.foldlM
      (fun _ statement => evalWithin depth statement Store.root) last m).1) :
    statements.foldlM (fun _ statement => evalWithin depth statement Store.root) last m =
      runUntilFailure m last statements := by
  induction statements generalizing m last with
  | nil => rfl
  | cons statement rest ih =>
    rw [foldlM_cons, run_bind] at hdeep ⊢
    rw [runUntilFailure, runStatement_of_frames hm, Evaluation.eval, hdepth]
    have hstatement : ¬IsTooDeep (evalWithin depth statement Store.root m).1 := by
      intro h
      obtain ⟨node, m₁, hrun⟩ := exists_of_isTooDeep h
      rw [hrun] at hdeep
      exact hdeep trivial
    rw [evalWithin_deeper hstatement]
    rcases hrun : evalWithin depth statement Store.root m with ⟨failure | v, m₁⟩
    · rfl
    · rw [hrun] at hdeep
      exact ih ((evalWithin_balanced depth statement Store.root m v m₁ hrun).trans hm) hdeep

lemma claimedBy_of_node {failure : Failure} (node : Node)
    (h : failure.cause.isLanguageError = true → ∃ inner, failure.node = some inner) :
    claimedBy node failure = failure := by
  obtain ⟨cause, inner⟩ := failure
  unfold claimedBy
  split
  · rename_i hlanguage
    obtain ⟨e, rfl⟩ := h hlanguage
    rfl
  · rfl

/-- An error of a run belongs to a node in the statement that failed. -/
lemma exists_node_of_runUntilFailure {failure : Failure}
    (h : (runUntilFailure m last statements).1 = .error failure)
    (hlanguage : failure.cause.isLanguageError = true) : ∃ node, failure.node = some node := by
  induction statements generalizing m last with
  | nil => cases h
  | cons statement rest ih =>
    rw [runUntilFailure] at h
    rcases hrun : runStatement m statement with ⟨failure' | v, m₁⟩
    · rw [hrun] at h
      obtain rfl := Except.error.inj h
      exact exists_node_of_evalWithin (congrArg Prod.fst hrun) hlanguage
    · rw [hrun] at h
      exact ih h

/-- **One go is as good as one by one.**  A program that is evaluated in one go, and not too deep, ends
as if its statements were run one by one up to the first failure. -/
theorem evalWhole_eq (hdeep : ¬IsTooDeep (s.evalWhole statements).1) :
    s.evalWhole statements = runUntilFailure s.cleared .nothing statements := by
  have hclaim : s.evalWhole statements = claim (.block statements)
      (statements.foldlM (fun _ statement => evalWithin 999 statement Store.root) .nothing)
      s.cleared := rfl
  rw [hclaim, run_claim] at hdeep ⊢
  have hinner : ¬IsTooDeep (statements.foldlM
      (fun _ statement => evalWithin 999 statement Store.root) .nothing s.cleared).1 := by
    intro h
    obtain ⟨node, m₁, hrun⟩ := exists_of_isTooDeep h
    rw [hrun] at hdeep
    exact hdeep trivial
  rw [foldlM_eq_runUntilFailure rfl rfl hinner]
  rcases hrun : runUntilFailure s.cleared .nothing statements with ⟨failure | v, m₁⟩
  · have hnode := exists_node_of_runUntilFailure (congrArg Prod.fst hrun)
    show (Except.error (claimedBy (.block statements) failure), m₁) = _
    rw [claimedBy_of_node _ hnode]
  · rfl

/-! ## Up to the first failure -/

/-- All statements give values, or those before the first that fails do. -/
lemma runUntilFailure_cases (m : Machine) (last : Value) (statements : List Node) :
    (∃ values : List Value, (runAll m statements).1 = values.map Result.value ∧
      runUntilFailure m last statements =
        (.ok (values.getLast?.getD last), (runAll m statements).2)) ∨
    ∃ before statement after, ∃ values : List Value, ∃ failure m₁,
      statements = before ++ statement :: after ∧ (runAll m before).1 = values.map Result.value ∧
      runStatement (runAll m before).2 statement = (.error failure, m₁) ∧
      runUntilFailure m last statements = (.error failure, m₁) := by
  induction statements generalizing m last with
  | nil => exact .inl ⟨[], rfl, rfl⟩
  | cons statement rest ih =>
    rcases hrun : runStatement m statement with ⟨failure | v, m₁⟩
    · refine .inr ⟨[], statement, rest, [], failure, m₁, rfl, rfl, hrun, ?_⟩
      rw [runUntilFailure, hrun]
    · have hcons (before : List Node) : runAll m (statement :: before) =
          (.value v :: (runAll m₁ before).1, (runAll m₁ before).2) := by
        rw [runAll_cons, hrun]
        rfl
      have huntil : runUntilFailure m last (statement :: rest) = runUntilFailure m₁ v rest := by
        rw [runUntilFailure, hrun]
      rcases ih m₁ v with ⟨values, hresults, hend⟩ |
        ⟨before, failed, after, values, failure, m₂, rfl, hresults, hfailed, hend⟩
      · refine .inl ⟨v :: values, ?_, ?_⟩
        · rw [hcons, hresults, map_cons]
        · rw [huntil, hend, hcons, getLast?_cons, Option.getD_some]
      · refine .inr ⟨statement :: before, failed, after, v :: values, failure, m₂, rfl, ?_, ?_, ?_⟩
        · rw [hcons, hresults, map_cons]
        · rw [hcons, hfailed]
        · rw [huntil, hend]

/-- Pending calls do not matter to a program. -/
lemma runAll_cleared (s : Session) (statements : List Node) :
    (runAll s.cleared statements).1 = (runAll s.opened statements).1 ∧
      (runAll s.cleared statements).2.store = s.scopesAfter statements := by
  cases statements with
  | nil => exact ⟨rfl, rfl⟩
  | cons statement rest => exact ⟨rfl, rfl⟩

/-- How a program ends that is evaluated as a whole, next to the results of its statements and the
scopes that these leave. -/
structure EndsLike (s : Session) (statements : List Node) (results : List Result) (scopes : Store)
    (outcome : Except Failure Value × Machine) : Prop where
  /-- There is a value exactly when all statements give values, and it is the last of them. -/
  value : ∀ v, outcome.1 = .ok v ↔
    ∃ values : List Value, results = values.map Result.value ∧ v = values.getLast?.getD .nothing
  scopes : ∀ v, outcome.1 = .ok v → outcome.2.store = scopes
  fails : (∃ failure, outcome.1 = .error failure) ↔ ∃ result ∈ results, result.value? = none
  /-- The failure is that of the first statement that fails, at the same node and with the same calls
  pending, and the scopes are those after this statement. -/
  failure : ∀ failure, outcome.1 = .error failure →
    ∃ before statement after, ∃ values : List Value, ∃ node more,
      statements = before ++ statement :: after ∧
      results = values.map Result.value ++ .failed failure.cause node outcome.2.frames :: more ∧
      values.length = before.length ∧
      (failure.cause.isLanguageError = true → failure.node = some node) ∧
      outcome.2.store = s.scopesAfter (before ++ [statement])

/-- A program that runs until a failure ends like one whose statements are all run. -/
lemma runUntilFailure_endsLike (s : Session) (statements : List Node) :
    s.EndsLike statements (runAll s.opened statements).1 (s.scopesAfter statements)
      (runUntilFailure s.cleared .nothing statements) := by
  obtain ⟨hresults, hscopes⟩ := runAll_cleared s statements
  rcases runUntilFailure_cases s.cleared .nothing statements with ⟨values, hvalues, hend⟩ |
    ⟨before, statement, after, values, failure, m₁, rfl, hvalues, hfailed, hend⟩
  · rw [hend, ← hresults, hvalues]
    refine ⟨fun v => ⟨?_, ?_⟩, fun v _ => hscopes, ⟨?_, ?_⟩, nofun⟩
    · intro h
      exact ⟨values, rfl, (Except.ok.inj h).symm⟩
    · rintro ⟨values', hsame, rfl⟩
      rw [map_injective_iff.2 (fun a b h => Result.value.inj h) hsame]
    · rintro ⟨failure, ⟨⟩⟩
    · rintro ⟨result, hmem, hnone⟩
      obtain ⟨v, -, rfl⟩ := mem_map.1 hmem
      cases hnone
  · have hsplit : (runAll s.opened (before ++ statement :: after)).1 = map Result.value values ++
        .failed failure.cause (failure.node.getD statement) m₁.frames :: (runAll m₁ after).1 := by
      rw [← hresults, runAll_append, hvalues, runAll_cons, hfailed]
      rfl
    have hscopes : m₁.store = s.scopesAfter (before ++ [statement]) := by
      rw [← (runAll_cleared s (before ++ [statement])).2, runAll_append, runAll_cons, hfailed]
      rfl
    have hlength : values.length = before.length := by
      rw [← length_runAll s.cleared before, hvalues, length_map]
    have hfails : ∃ result ∈ (runAll s.opened (before ++ statement :: after)).1,
        result.value? = none := by
      rw [hsplit]
      exact ⟨_, mem_append_right _ mem_cons_self, rfl⟩
    rw [hend]
    refine ⟨fun v => ⟨nofun, ?_⟩, nofun, ⟨fun _ => hfails, fun _ => ⟨failure, rfl⟩⟩, ?_⟩
    · rintro ⟨values', hall, -⟩
      obtain ⟨result, hmem, hnone⟩ := hfails
      rw [hall] at hmem
      obtain ⟨v, -, rfl⟩ := mem_map.1 hmem
      cases hnone
    · rintro _ ⟨rfl⟩
      refine ⟨before, statement, after, values, failure.node.getD statement, _, rfl, hsplit, hlength,
        fun hlanguage => ?_, hscopes⟩
      obtain ⟨node, hnode⟩ := exists_node_of_evalWithin (congrArg Prod.fst hfailed) hlanguage
      rw [hnode, Option.getD_some]

/-- **Both ways to run a program agree.**  A program that is evaluated in one go, and not too deep, ends
as the session says that runs it up to its first failure.  It has a value exactly when all its
statements have values, and the first failure is the same, with its node, the calls pending and the
scopes that are left.  Where source texts alone have brought the session about, every failure is an
error of the program. -/
theorem evaluate_agrees (hparse : parse source = .ok statements)
    (hdeep : ¬IsTooDeep (s.evalWhole statements).1) :
    s.evaluate source =
        ((s.evalWhole statements).1.mapError .failed, ⟨(s.evalWhole statements).2⟩) ∧
      s.EndsLike statements (s.handle source).1 (s.handle source).2.machine.store
        (s.evalWhole statements) ∧
      (s.Reached → ∀ failure, (s.evalWhole statements).1 = .error failure →
        failure.cause.isLanguageError = true) := by
  refine ⟨?_, ?_, fun hs failure hfailure => ?_⟩
  · have hrun := evalWhole_eq hdeep
    generalize s.evalWhole statements = outcome at hrun ⊢
    unfold evaluate
    rw [hparse]
    simp only [← hrun]
    obtain ⟨failure | v, m₁⟩ := outcome
    · rfl
    · rfl
  · rw [handle_of_ok hparse, evalWhole_eq hdeep]
    exact runUntilFailure_endsLike s statements
  · obtain ⟨_, _, _, values, node, more, -, hresults, -⟩ :=
      (runUntilFailure_endsLike s statements).failure failure (evalWhole_eq hdeep ▸ hfailure)
    have hmem : Result.failed failure.cause node
        (runUntilFailure s.cleared .nothing statements).2.frames ∈ (s.handle source).1 := by
      rw [handle_of_ok hparse, hresults]
      exact mem_append_right _ mem_cons_self
    refine (handle_ordinary hs source _ hmem).1.1.resolve_right fun hcause => hdeep ?_
    rw [hfailure]
    obtain ⟨cause, inner⟩ := failure
    obtain rfl : cause = .tooDeep := hcause
    trivial

/-- A definition that is called too early, and a statement behind it. -/
def calledEarly : String := "f(x) = x + y; a = f(1); y = 2"

theorem evaluate_agrees_calledEarly : ∃ statements, parse calledEarly = .ok statements ∧
    ¬IsTooDeep ((start false).evalWhole statements).1 ∧
    (∃ failure, ((start false).evalWhole statements).1 = .error failure ∧
      ((start false).evalWhole statements).2.frames.length = 1) ∧
    (start false).EndsLike statements ((start false).handle calledEarly).1
      ((start false).handle calledEarly).2.machine.store ((start false).evalWhole statements) := by
  have hrun : (parse calledEarly).toOption.map (fun statements =>
      let outcome := (start false).evalWhole statements
      (decide (IsTooDeep outcome.1), outcome.1.toOption.isNone, outcome.2.frames.length)) =
      some (false, true, 1) := by
    decide +kernel
  obtain ⟨statements, hstatements, hend⟩ := Option.map_eq_some_iff.1 hrun
  have hparse : parse calledEarly = .ok statements := by
    cases hparse : parse calledEarly with
    | error e =>
      rw [hparse] at hstatements
      cases hstatements
    | ok read =>
      rw [hparse] at hstatements
      rw [Option.some.inj hstatements]
  obtain ⟨hdeep, houtcome⟩ := Prod.mk.inj hend
  obtain ⟨hfails, hframes⟩ := Prod.mk.inj houtcome
  refine ⟨statements, hparse, of_decide_eq_false hdeep, ?_,
    (evaluate_agrees hparse (of_decide_eq_false hdeep)).2.1⟩
  cases hcause : ((start false).evalWhole statements).1 with
  | error failure => exact ⟨failure, rfl, hframes⟩
  | ok v =>
    rw [hcause] at hfails
    cases hfails

end SignalCalc.Session
