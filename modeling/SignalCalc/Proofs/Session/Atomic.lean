import SignalCalc.Proofs.Session.Results

/-!
# Statements are atomic

A statement of a source text either gives a value, and then it binds at most its own name to it, or
it fails, and then it has bound nothing.  Failed statements leave something behind all the same: the
calls that were pending, and the scopes of calls that are over.  Nothing looks at these again
(`runStatement_executed`), so a program runs as if its failing statements were not there
(`runAll_pruned`).

`handle_atomic` is the main result.
-/

namespace SignalCalc

open SignalCalc.Syntax
open SignalCalc.Evaluation
open List

/-- The value that a statement gave, if it gave one. -/
def Result.value? : Result → Option Value
  | .value v => some v
  | _ => none

/-- A program with its results, and what is left of both without some of the failing statements. -/
inductive Pruned : List Node → List Result → List Node → List Result → Prop where
  | nil : Pruned [] [] [] []
  | keep (statement : Node) (result : Result) {statements kept : List Node}
    {results keptResults : List Result} : Pruned statements results kept keptResults →
      Pruned (statement :: statements) (result :: results) (statement :: kept)
        (result :: keptResults)
  | drop (statement : Node) (cause : Cause) (node : Node) (frames : List Frame)
    {statements kept : List Node} {results keptResults : List Result} :
    Pruned statements results kept keptResults →
      Pruned (statement :: statements) (.failed cause node frames :: results) kept keptResults

namespace Session

variable {statement : Node} {statements before after : List Node} {m m' : Machine} {s : Session}

/-! ## Runs of several statements -/

lemma runAll_cons (m : Machine) (statement : Node) (rest : List Node) :
    runAll m (statement :: rest) =
      (resultOf statement (runStatement m statement).2.frames (runStatement m statement).1 ::
        (runAll (runStatement m statement).2 rest).1,
      (runAll (runStatement m statement).2 rest).2) := rfl

lemma runAll_append (m : Machine) (before after : List Node) :
    runAll m (before ++ after) =
      ((runAll m before).1 ++ (runAll (runAll m before).2 after).1,
        (runAll (runAll m before).2 after).2) := by
  induction before generalizing m with
  | nil => rfl
  | cons statement rest ih => rw [cons_append, runAll_cons, ih, runAll_cons, cons_append]

lemma length_runAll (m : Machine) (statements : List Node) :
    (runAll m statements).1.length = statements.length := by
  induction statements generalizing m with
  | nil => rfl
  | cons statement rest ih => rw [runAll_cons, length_cons, length_cons, ih]

lemma value?_resultOf (statement : Node) (frames : List Frame) (outcome : Except Failure Value) :
    (resultOf statement frames outcome).value? = outcome.toOption := by
  cases outcome <;> rfl

/-- Leaving out failing statements changes neither the other results nor how the machine looks. -/
theorem runAll_pruned {kept : List Node} {keptResults : List Result}
    (hstatements : ∀ statement ∈ statements, statement.IsStatement)
    (h : Machine.Alike { m with frames := [] } { m' with frames := [] })
    (hpruned : Pruned statements (runAll m statements).1 kept keptResults) :
    (runAll m' kept).1 = keptResults ∧
      Machine.Alike { (runAll m statements).2 with frames := [] }
        { (runAll m' kept).2 with frames := [] } := by
  induction statements generalizing m m' kept keptResults with
  | nil =>
    cases hpruned
    exact ⟨rfl, h⟩
  | cons statement rest ih =>
    obtain ⟨hstatement, hrest⟩ := forall_mem_cons.1 hstatements
    have hrun := runStatement_executed hstatement h
    rw [runAll_cons] at hpruned ⊢
    generalize hresult : resultOf statement _ _ = result at hpruned
    cases hpruned with
    | keep _ _ hpruned =>
      obtain ⟨hresults, halike⟩ := ih hrest (hrun.alike.withoutCalls) hpruned
      rw [runAll_cons, hresults, ← hrun.outcome, ← hrun.alike.frames, hresult]
      exact ⟨rfl, halike⟩
    | drop _ cause node frames hpruned =>
      -- The statement was run in the first machine alone, which looks as it did before.
      obtain ⟨failure, hfailure⟩ : ∃ failure, (runStatement m statement).1 = .error failure := by
        cases houtcome : (runStatement m statement).1 with
        | ok v =>
          rw [houtcome] at hresult
          cases hresult
        | error failure => exact ⟨failure, rfl⟩
      have hkept : m.store.KeptIn (runStatement m statement).2.store := by
        have hbound := hrun.kept
        rwa [hfailure, Except.toOption, Store.boundBy_none] at hbound
      obtain ⟨bindings, hroot⟩ := h.orderly.root
      have hroot' := h.root.symm.trans hroot
      exact ih hrest ⟨(hrun.alike.withoutCalls).orderly, h.orderly',
        (hkept _ _ hroot).trans hroot'.symm, rfl,
        (hrun.nextSerial failure hfailure).trans h.nextSerial⟩ hpruned

/-! ## Source texts -/

/-- The scopes after some statements of a source text. -/
def scopesAfter (s : Session) (statements : List Node) : Store := (runAll s.opened statements).2.store

/-- A program that runs with these results runs one statement after the other, and those that fail
might as well not be there. -/
structure RunsAtomically (s : Session) (statements : List Node) (results : List Result) : Prop where
  /-- There is one result for every statement. -/
  length : results.length = statements.length
  /-- A statement leaves all scopes as they were, but for the name that it binds to its value. -/
  effect : ∀ before statement after, statements = before ++ statement :: after →
    ∃ result, results[before.length]? = some result ∧ (∀ e, result ≠ .malformed e) ∧
      ((s.scopesAfter before).boundBy statement result.value?).KeptIn
        (s.scopesAfter (before ++ [statement]))
  /-- Without some of the failing statements the other results are the same, and so is the first
  scope in the end. -/
  pruned : ∀ kept keptResults, Pruned statements results kept keptResults →
    (runAll s.opened kept).1 = keptResults ∧
      (s.scopesAfter kept).scopes[Store.root]? = (s.scopesAfter statements).scopes[Store.root]?

/-- A program runs one statement after the other in an orderly machine. -/
lemma runAll_atomically (h : s.machine.IsOrderly)
    (hstatements : ∀ statement ∈ statements, statement.IsStatement) :
    s.RunsAtomically statements (runAll s.opened statements).1 := by
  have hopened := isOrderly_opened h
  refine ⟨length_runAll _ _, ?_, fun kept keptResults hpruned => ?_⟩
  · rintro before statement after rfl
    have hbefore : ∀ other ∈ before, other.IsStatement := fun other hother =>
      hstatements other (mem_append_left _ hother)
    have hstatement := hstatements statement (mem_append_right _ mem_cons_self)
    have horderly := (runAll_isComputed hbefore hopened).1
    have hrun := runStatement_executed hstatement (horderly.alike.withoutCalls)
    have hcomputed : (resultOf statement (runStatement (runAll s.opened before).2 statement).2.frames
        (runStatement (runAll s.opened before).2 statement).1).IsComputed :=
      resultOf_isComputed hrun.meets hrun.alike.orderly.arguments
    have hplace : (runAll s.opened (before ++ statement :: after)).1[before.length]? =
        some (resultOf statement (runStatement (runAll s.opened before).2 statement).2.frames
          (runStatement (runAll s.opened before).2 statement).1) := by
      rw [runAll_append, runAll_cons, getElem?_append_right (length_runAll _ _).le, length_runAll,
        Nat.sub_self, getElem?_cons_zero]
    refine ⟨_, hplace, ?_, ?_⟩
    · intro e he
      rw [he] at hcomputed
      exact hcomputed
    · rw [value?_resultOf, scopesAfter, scopesAfter, runAll_append, runAll_cons]
      exact hrun.kept
  · obtain ⟨hresults, halike⟩ := runAll_pruned hstatements
      (hopened.alike.withoutCalls) hpruned
    exact ⟨hresults, halike.root.symm⟩

/-- **Statements are atomic.**  If a source text is no program, that is its one result, and nothing
is bound.  Otherwise its statements run one after the other, each of them binds at most its own name
to the value that it gives, and those that fail might as well not be there.  Nor does any call
change a scope that existed before it. -/
theorem handle_atomic (hs : s.Reached) (source : String) :
    (∀ e, parse source = .error e →
      (s.handle source).1 = [.malformed e] ∧ (s.handle source).2.machine.store = s.machine.store) ∧
    (∀ statements, parse source = .ok statements →
      s.RunsAtomically statements (s.handle source).1 ∧
        (s.handle source).2.machine.store = s.scopesAfter statements) ∧
    ∀ (m : Machine) (depth : ℕ) (f : Function) (positional : List Value)
      (named : List (String × Value)), m.IsOrderly → f.IsComputed →
        AreComputed (positional, named) →
        m.store.KeptIn (invoke (evalWithin depth) f positional named m).2.store := by
  refine ⟨fun e he => ?_, fun statements hparse => ?_, ?_⟩
  · rw [handle_of_error he]
    exact ⟨rfl, rfl⟩
  · have hrun := runAll_atomically hs.isOrderly (parse_isStatement hparse)
    rw [handle_of_ok hparse]
    exact ⟨hrun, rfl⟩
  · intro m depth f positional named hm hf hargs
    have hbody : ∀ node id id', node.IsExpression →
        Mirrors id id' Value.IsComputed (evalWithin depth node id) (evalWithin depth node id') :=
      fun node id id' hnode => evalWithin_mirrors depth hnode id id'
    have hinvoke : Mirrors Store.root Store.root Value.IsComputed
        (invoke (evalWithin depth) f positional named)
        (invoke (evalWithin depth) f positional named) := invoke_mirrors hbody hf hargs
    exact (hinvoke m m hm.alike (.inl ⟨rfl, rfl⟩)).kept

theorem handle_atomic_unbound :
    (start false).Reached ∧ ∃ statements, parse "a = 1; b; c = a" = .ok statements ∧
      statements.length = 3 ∧
      (start false).RunsAtomically statements ((start false).handle "a = 1; b; c = a").1 := by
  have hthree : (match parse "a = 1; b; c = a" with
      | .ok statements => statements.length == 3
      | .error _ => false) = true := by
    decide +kernel
  refine ⟨.start false, ?_⟩
  split at hthree
  · rename_i statements hparse
    exact ⟨statements, hparse, beq_iff_eq.1 hthree,
      ((handle_atomic (.start false) _).2.1 statements hparse).1⟩
  · cases hthree

end Session

end SignalCalc
