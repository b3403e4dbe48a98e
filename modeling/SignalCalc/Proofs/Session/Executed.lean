import SignalCalc.Proofs.Evaluation.Mirrored
import SignalCalc.Proofs.Syntax.Spelling
import SignalCalc.Session.Basic

/-!
# The execution of statements

A statement computes a value by evaluating an expression, which leaves all scopes as they were, and
binds at most one name to it afterwards.  `Executed` says this of one statement in two machines that
look alike: it ends alike in both, and the scopes that were there are there after it, but for the
one name if it gave a value.

So a machine that a program leaves is orderly (`runAll_isComputed`), and the results of a program are
its values and ordinary failures.
-/

namespace SignalCalc

open SignalCalc.Syntax
open SignalCalc.Evaluation
open List

/-- The name that a statement binds, if it binds one. -/
def Syntax.Node.target? : Node → Option String
  | .assignment _ name _ | .definition _ name _ _ => some name
  | _ => none

/-- The scopes after a statement: if it gave a value, the name that it binds has this value in the
first scope. -/
def Store.boundBy (s : Store) (statement : Node) (value? : Option Value) : Store :=
  match statement.target?, value? with
  | some name, some v => s.bind Store.root name v
  | _, _ => s

lemma Store.boundBy_none (s : Store) (statement : Node) : s.boundBy statement none = s := by
  unfold boundBy
  cases statement.target? <;> rfl

lemma Store.boundBy_of_target?_eq_none {statement : Node} (h : statement.target? = none)
    (s : Store) (value? : Option Value) : s.boundBy statement value? = s := by
  unfold boundBy
  rw [h]

namespace Evaluation

variable {statement : Node} {m m' : Machine}

/-- A statement ends alike in two machines, and binds no more than its own name. -/
structure Executed (statement : Node) (m m' : Machine) (r r' : Except Failure Value × Machine) :
    Prop where
  outcome : r.1 = r'.1
  meets : Meets Value.IsComputed (·.cause.IsOrdinary) r.1
  alike : r.2.Alike r'.2
  kept : (m.store.boundBy statement r.1.toOption).KeptIn r.2.store
  nextSerial : ∀ failure, r.1 = .error failure → r.2.nextSerial = m.nextSerial

lemma Mirrored.executed {r r' : Except Failure Value × Machine}
    (h : Mirrored Value.IsComputed m m' r r') (htarget : statement.target? = none) :
    Executed statement m m' r r' := by
  refine ⟨h.outcome, h.meets, h.alike, ?_, fun _ _ => h.nextSerial⟩
  rw [Store.boundBy_of_target?_eq_none htarget]
  exact h.kept

/-! ## Assignments and definitions -/

lemma evalWithin_assignment (depth : ℕ) (loc : Option Location) (name : String) (e : Node)
    (m : Machine) : evalWithin (depth + 1) (.assignment loc name e) Store.root m =
      match evalWithin depth e Store.root m with
      | (.ok v, m₁) => (.ok v, ⟨m₁.store.bind Store.root name v, m₁.frames, m₁.nextSerial,
          .assigned name v.typeName :: m₁.events⟩)
      | (.error failure, m₁) => (.error (claimedBy (.assignment loc name e) failure), m₁) := by
  show claim _ (_ >>= _) m = _
  rw [run_claim, run_bind]
  rcases evalWithin depth e Store.root m with ⟨_ | v, m₁⟩ <;> rfl

/-- The function that a definition makes in a machine. -/
def defined (m : Machine) (name : String) (params : List String) (body : Node) : Function :=
  .user ⟨name, params, body, Store.root, m.nextSerial⟩

lemma evalWithin_definition (depth : ℕ) (loc : Option Location) (name : String)
    (params : List String) (body : Node) (m : Machine) :
    evalWithin (depth + 1) (.definition loc name params body) Store.root m =
      match repeatedName? [] params with
      | some param => (.error ⟨.duplicateParameter name param,
          some (.definition loc name params body)⟩, m)
      | none => (.ok (.function (defined m name params body)),
          ⟨m.store.bind Store.root name (.function (defined m name params body)), m.frames,
            m.nextSerial + 1, .defined name params :: m.events⟩) := by
  show claim _ (define Store.root name params body >>= _) m = _
  rw [run_claim, run_bind, define]
  cases repeatedName? [] params <;> rfl

lemma assignment_executed (h : m.Alike m') (depth : ℕ) (loc : Option Location) (name : String)
    {e : Node} (he : e.IsExpression) :
    Executed (.assignment loc name e) m m' (evalWithin (depth + 1) (.assignment loc name e) Store.root m)
      (evalWithin (depth + 1) (.assignment loc name e) Store.root m') := by
  obtain ⟨hsame, hmeets, halike, hkept, -, hserial⟩ :=
    evalWithin_mirrors depth he Store.root Store.root m m' h (.inl ⟨rfl, rfl⟩)
  rw [evalWithin_assignment, evalWithin_assignment]
  generalize evalWithin depth e Store.root m = out at *
  generalize evalWithin depth e Store.root m' = out' at *
  obtain ⟨r, m₁⟩ := out
  obtain ⟨r', m₁'⟩ := out'
  simp only at hsame hmeets halike hkept hserial
  subst hsame
  cases r with
  | error failure => exact ⟨rfl, hmeets, halike, hkept, fun _ _ => hserial⟩
  | ok v =>
    exact ⟨rfl, hmeets, halike.bindRoot name hmeets halike.nextSerial _ _,
      hkept.bind Store.root name v, nofun⟩

lemma definition_executed (h : m.Alike m') (depth : ℕ) (loc : Option Location) (name : String)
    (params : List String) {body : Node} (hbody : body.IsExpression) :
    Executed (.definition loc name params body) m m'
      (evalWithin (depth + 1) (.definition loc name params body) Store.root m)
      (evalWithin (depth + 1) (.definition loc name params body) Store.root m') := by
  rw [evalWithin_definition, evalWithin_definition]
  cases repeatedName? [] params with
  | some param => exact ⟨rfl, .inl rfl, h, .refl _, fun _ _ => rfl⟩
  | none =>
    have hf : (Value.function (defined m name params body)).IsComputed := ⟨hbody, rfl⟩
    have hsame : defined m' name params body = defined m name params body := by
      rw [defined, defined, h.nextSerial]
    rw [hsame]
    exact ⟨rfl, hf, h.bindRoot name hf (congrArg (· + 1) h.nextSerial) _ _, .refl _, nofun⟩

/-- **Statements bind at most their own names.**  In machines that look alike a statement ends
alike, and the scopes that were there are left as they were, but for the name that it binds to its
value. -/
theorem evalWithin_executed (depth : ℕ) (hstatement : statement.IsStatement) (h : m.Alike m') :
    Executed statement m m' (evalWithin depth statement Store.root m)
      (evalWithin depth statement Store.root m') := by
  cases depth with
  | zero =>
    have hkept : (m.store.boundBy statement none).KeptIn m.store := by
      rw [Store.boundBy_none]
      exact .refl _
    exact ⟨rfl, .inr rfl, h, hkept, fun _ _ => rfl⟩
  | succ depth =>
    have hexpression : statement.IsExpression → statement.target? = none →
        Executed statement m m' (evalWithin (depth + 1) statement Store.root m)
          (evalWithin (depth + 1) statement Store.root m') := fun hexpr htarget =>
      (evalWithin_mirrors _ hexpr _ _ m m' h (.inl ⟨rfl, rfl⟩)).executed htarget
    cases statement with
    | assignment loc name e => exact assignment_executed h depth loc name hstatement
    | definition loc name params body => exact definition_executed h depth loc name params hstatement
    | _ => exact hexpression hstatement rfl

end Evaluation

/-! ## Programs -/

/-- The result of a statement: a computed value, or an ordinary failure with computed arguments in
the calls that are pending. -/
def Result.IsComputed : Result → Prop
  | .value v => v.IsComputed
  | .failed cause _ frames => cause.IsOrdinary ∧ ∀ frame ∈ frames, ∀ v ∈ frame.args, v.IsComputed
  | .malformed _ => False

namespace Session

variable {statement : Node} {statements : List Node} {m m' : Machine} {s : Session}
  {source : String}

/-- The machine that runs a source text. -/
def opened (s : Session) : Machine := { s.machine with events := [] }

lemma handle_of_error {e : ParseError} (h : parse source = .error e) :
    s.handle source = ([.malformed e], ⟨s.opened⟩) := by
  unfold handle
  rw [h]
  rfl

lemma handle_of_ok (h : parse source = .ok statements) :
    s.handle source = ((runAll s.opened statements).1, ⟨(runAll s.opened statements).2⟩) := by
  unfold handle
  rw [h]
  rfl

/-- Calls that are pending from before do not matter to a statement. -/
lemma runStatement_executed (hstatement : statement.IsStatement)
    (h : Machine.Alike { m with frames := [] } { m' with frames := [] }) :
    Executed statement { m with frames := [] } { m' with frames := [] } (runStatement m statement)
      (runStatement m' statement) :=
  evalWithin_executed depthLimit hstatement h

lemma resultOf_isComputed {outcome : Except Failure Value} {frames : List Frame}
    (h : Meets Value.IsComputed (·.cause.IsOrdinary) outcome)
    (hframes : ∀ frame ∈ frames, ∀ v ∈ frame.args, v.IsComputed) :
    (resultOf statement frames outcome).IsComputed := by
  cases outcome with
  | ok v => exact h
  | error failure => exact ⟨h, hframes⟩

/-- A program leaves the machine orderly, and its results are computed. -/
theorem runAll_isComputed (hstatements : ∀ statement ∈ statements, statement.IsStatement)
    (h : m.IsOrderly) :
    (runAll m statements).2.IsOrderly ∧ ∀ result ∈ (runAll m statements).1, result.IsComputed := by
  induction statements generalizing m with
  | nil => exact ⟨h, forall_mem_nil _⟩
  | cons statement rest ih =>
    obtain ⟨hstatement, hrest⟩ := forall_mem_cons.1 hstatements
    have hrun := runStatement_executed hstatement (h.alike.withoutCalls)
    obtain ⟨hlast, hresults⟩ := ih hrest hrun.alike.orderly
    exact ⟨hlast, forall_mem_cons.2
      ⟨resultOf_isComputed hrun.meets hrun.alike.orderly.arguments, hresults⟩⟩

/-- The same of a run that ends with the first failure. -/
theorem runUntilFailure_isComputed (hstatements : ∀ statement ∈ statements, statement.IsStatement)
    (h : m.IsOrderly) {v : Value} (hv : v.IsComputed ∨ v = .nothing) :
    (runUntilFailure m v statements).2.IsOrderly ∧
      Meets (fun w => w.IsComputed ∨ w = .nothing) (·.cause.IsOrdinary)
        (runUntilFailure m v statements).1 := by
  induction statements generalizing m v with
  | nil => exact ⟨h, hv⟩
  | cons statement rest ih =>
    obtain ⟨hstatement, hrest⟩ := forall_mem_cons.1 hstatements
    have hrun := runStatement_executed hstatement (h.alike.withoutCalls)
    rw [runUntilFailure]
    obtain ⟨-, hmeets, halike, -, -⟩ := hrun
    generalize runStatement m statement = out at hmeets halike
    obtain ⟨_ | w, after⟩ := out
    · exact ⟨halike.orderly, hmeets⟩
    · exact ih hrest halike.orderly (.inl hmeets)

end Session

end SignalCalc
