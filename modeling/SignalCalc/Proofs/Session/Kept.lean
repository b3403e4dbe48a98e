import SignalCalc.Proofs.Evaluation.Lasting
import SignalCalc.Proofs.Session.Atomic

/-!
# What sessions keep

A source text is run statement by statement, from the machine that the statements in front left behind.
So a condition that lasts is kept by whole texts (`runAll_keeps`, `runUntilFailure_keeps`), and every
statement starts where it holds (`Runs.isKept`).  With that it holds of all that the session computes on
the way, not only of the results.
-/

namespace SignalCalc

open SignalCalc.Syntax
open SignalCalc.Evaluation
open List

variable {N : Node → Prop} {V : Value → Prop}

/-- A value that meets a condition, or a failure at one of some nodes. -/
def Result.IsKept (N : Node → Prop) (V : Value → Prop) : Result → Prop
  | .value v => V v
  | .failed _ node _ => N node
  | .malformed _ => False

namespace Session

variable {s : Session} {m : Machine} {statements : List Node} {source : String}

lemma runStatement_keeps (hV : Lasting N V) {statement : Node} (h : statement.IsWithin N)
    (hm : m.store.All V) :
    (runStatement m statement).2.store.All V ∧
      Meets V (fun failure => ∀ node ∈ failure.node, N node) (runStatement m statement).1 :=
  hV.evalWithin depthLimit h Store.root { m with frames := [] } hm

lemma runAll_keeps (hV : Lasting N V) (h : ∀ statement ∈ statements, statement.IsWithin N)
    (hm : m.store.All V) :
    (runAll m statements).2.store.All V ∧
      ∀ result ∈ (runAll m statements).1, result.IsKept N V := by
  induction statements generalizing m with
  | nil => exact ⟨hm, nofun⟩
  | cons statement rest ih =>
    obtain ⟨hstatement, hrest⟩ := forall_mem_cons.1 h
    obtain ⟨hafter, houtcome⟩ := runStatement_keeps hV hstatement hm
    rw [runAll_cons]
    generalize runStatement m statement = run at hafter houtcome ⊢
    obtain ⟨outcome, after⟩ := run
    obtain ⟨hlast, hresults⟩ := ih hrest hafter
    refine ⟨hlast, forall_mem_cons.2 ⟨?_, hresults⟩⟩
    cases outcome with
    | ok v => exact houtcome
    | error failure =>
      show N (failure.node.getD statement)
      cases hnode : failure.node with
      | none => exact hstatement.self
      | some inner => exact houtcome inner hnode

lemma runUntilFailure_keeps (hV : Lasting N V) (h : ∀ statement ∈ statements, statement.IsWithin N)
    (hm : m.store.All V) (last : Value) (hlast : V last) :
    (runUntilFailure m last statements).2.store.All V ∧
      ∀ v, (runUntilFailure m last statements).1 = .ok v → V v := by
  induction statements generalizing m last with
  | nil =>
    refine ⟨hm, ?_⟩
    rintro _ ⟨⟩
    exact hlast
  | cons statement rest ih =>
    obtain ⟨hstatement, hrest⟩ := forall_mem_cons.1 h
    obtain ⟨hafter, houtcome⟩ := runStatement_keeps hV hstatement hm
    rw [runUntilFailure]
    generalize runStatement m statement = outcome at hafter houtcome
    obtain ⟨failure | v, after⟩ := outcome
    · refine ⟨hafter, ?_⟩
      rintro _ ⟨⟩
    · exact ih hrest hafter v houtcome

/-- A source text is run as parts among the nodes, if it is a program. -/
def ReadsWithin (N : Node → Prop) (source : String) : Prop :=
  ∀ statements, parse source = .ok statements → ∀ statement ∈ statements, statement.IsWithin N

lemma handle_keeps (hV : Lasting N V) (hs : s.machine.store.All V) (hsource : ReadsWithin N source) :
    (s.handle source).2.machine.store.All V ∧ ∀ result ∈ (s.handle source).1,
      result.IsKept N V ∨ ∃ e, result = .malformed e ∧ parse source = .error e := by
  have hopened : s.opened.store.All V := hs
  cases hparse : parse source with
  | error e =>
    rw [handle_of_error hparse]
    exact ⟨hopened, forall_mem_singleton.2 (.inr ⟨e, rfl, rfl⟩)⟩
  | ok statements =>
    rw [handle_of_ok hparse]
    obtain ⟨hlast, hresults⟩ := runAll_keeps hV (hsource statements hparse) hopened
    exact ⟨hlast, fun result hresult => .inl (hresults result hresult)⟩

lemma cleared_keeps (hs : s.machine.store.All V) : s.cleared.store.All V := hs

lemma evaluate_keeps (hV : Lasting N V) (hs : s.machine.store.All V)
    (hsource : ReadsWithin N source) :
    (s.evaluate source).2.machine.store.All V ∧ ∀ v, (s.evaluate source).1 = .ok v → V v := by
  have hcleared := cleared_keeps hs
  unfold evaluate
  cases hparse : parse source with
  | error e => exact ⟨hcleared, nofun⟩
  | ok statements =>
    obtain ⟨hlast, hvalue⟩ := runUntilFailure_keeps hV (hsource statements hparse) hcleared .nothing
      (hV.inert trivial)
    dsimp only
    generalize runUntilFailure s.cleared .nothing statements = out at hlast hvalue
    obtain ⟨_ | v, m⟩ := out
    · exact ⟨hlast, nofun⟩
    · refine ⟨hlast, ?_⟩
      rintro _ ⟨⟩
      exact hvalue v rfl

lemma isInert_of_mem_builtins {entry : String × Value} (h : entry ∈ builtins) : entry.2.IsInert := by
  rcases mem_append.1 h with h | h
  · rcases mem_append.1 h with h | h
    · obtain ⟨c, -, rfl⟩ := mem_map.1 h
      exact trivial
    · obtain ⟨f, -, rfl⟩ := mem_map.1 h
      exact trivial
  · simp only [mem_cons, not_mem_nil, or_false] at h
    rcases h with rfl | rfl | rfl | rfl <;> exact trivial

lemma bare_keeps (hV : Lasting N V) : bare.machine.store.All V := by
  intro scope hscope entry hentry
  obtain rfl := Array.mem_singleton.1 hscope
  exact hV.inert (isInert_of_mem_builtins hentry)

lemma fresh_keeps (hV : Lasting N V) (hprelude : ReadsWithin N prelude) :
    fresh.machine.store.All V :=
  cleared_keeps (evaluate_keeps hV (bare_keeps hV) hprelude).1

/-- Source texts bring about no values but those that meet a condition that lasts. -/
theorem Reached.keeps (hV : Lasting N V) (hsources : ∀ source, ReadsWithin N source)
    (h : s.Reached) : s.machine.store.All V := by
  induction h with
  | start withPrelude =>
    cases withPrelude with
    | false => exact bare_keeps hV
    | true => exact fresh_keeps hV (hsources prelude)
  | handle source _ ih => exact (handle_keeps hV ih (hsources source)).1
  | evaluate source _ ih => exact (evaluate_keeps hV ih (hsources source)).1

/-! ## The tasks of a source text -/

/-- The evaluation of a statement. -/
def taskOf (m : Machine) (statement : Node) : Task :=
  ⟨depthLimit, statement, Store.root, { m with frames := [] }⟩

/-- The session runs a statement of the text as this task, where it handles or evaluates the text. -/
inductive Runs (s : Session) (source : String) : Task → Prop where
  | handling {before after : List Node} {statement : Node} :
    parse source = .ok (before ++ statement :: after) →
      Runs s source (taskOf (runAll s.opened before).2 statement)
  | evaluating {before after : List Node} {statement : Node} {v : Value} {m : Machine} :
    parse source = .ok (before ++ statement :: after) →
      runUntilFailure s.cleared .nothing before = (.ok v, m) →
      Runs s source (taskOf m statement)

/-- The session computes the value while it runs the text: it is that of a statement, or of anything that
is evaluated for one. -/
def Computes (s : Session) (source : String) (v : Value) : Prop :=
  ∃ t calls u m, s.Runs source t ∧ UnderWay t calls u ∧ u.run = (.ok v, m)

/-- Every statement of a text starts with values in scope that meet the condition. -/
lemma Runs.isKept (hV : Lasting N V) {t : Task} (h : s.Runs source t) (hs : s.machine.store.All V)
    (hsource : ReadsWithin N source) : t.IsKept N V := by
  cases h with
  | handling hparse =>
    obtain ⟨hbefore, hrest⟩ := forall_mem_append.1 (hsource _ hparse)
    exact ⟨hrest _ mem_cons_self, (runAll_keeps hV hbefore (m := s.opened) hs).1⟩
  | evaluating hparse hrun =>
    obtain ⟨hbefore, hrest⟩ := forall_mem_append.1 (hsource _ hparse)
    have hkeeps := (runUntilFailure_keeps hV hbefore (m := s.cleared) hs .nothing
      (hV.inert trivial)).1
    rw [hrun] at hkeeps
    exact ⟨hrest _ mem_cons_self, hkeeps⟩

/-- What a session computes meets every condition that lasts and holds of its names. -/
theorem Computes.isKept (hV : Lasting N V) {v : Value} (h : s.Computes source v)
    (hs : s.machine.store.All V) (hsource : ReadsWithin N source) : V v := by
  obtain ⟨t, calls, u, m, ht, hu, hrun⟩ := h
  obtain ⟨⟨hnode, hstore⟩, -⟩ := hu.isKept hV (ht.isKept hV hs hsource)
  exact ((hV.evalWithin u.depth hnode u.scope).of_ok hstore hrun).2

end Session

end SignalCalc
