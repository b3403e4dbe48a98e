import SignalCalc.Proofs.Evaluation.Replaced
import SignalCalc.Proofs.Session.Atomic

/-!
# Independent statements

A statement depends on the names in its expression, and on the names in the bodies of the functions
that these stand for.  A definition evaluates nothing, so it depends on no name, and neither does it
matter when a function is defined as long as nothing calls it.

Two statements that bind different names, and neither of them a name that the other depends on, may be
given in either order: both end the same way, and in the end the same names are bound to the same
values (`runAll_commutes`).  Functions are not told apart by when they were defined.
-/

namespace SignalCalc

open SignalCalc.Syntax
open SignalCalc.Evaluation
open List

/-! ## What counts as the same -/

/-- The same value.  Functions that programs defined are the same if they have the same name,
parameters and body. -/
def Value.IsLike : Value → Value → Prop
  | .function (.user f), .function (.user g) =>
    f.name = g.name ∧ f.params = g.params ∧ f.body = g.body
  | v, w => v = w

lemma Value.IsLike.refl (v : Value) : v.IsLike v := by
  cases v with
  | function f => cases f <;> first | rfl | exact ⟨rfl, rfl, rfl⟩
  | _ => rfl

lemma Value.IsLike.symm {v w : Value} (h : v.IsLike w) : w.IsLike v := by
  unfold IsLike at h
  split at h
  · exact ⟨h.1.symm, h.2.1.symm, h.2.2.symm⟩
  · subst h
    exact .refl v

/-- The same value, or a failure for the same cause. -/
def Result.IsLike : Result → Result → Prop
  | .value v, .value w => v.IsLike w
  | .failed cause _ _, .failed cause' _ _ => cause = cause'
  | _, _ => False

lemma Result.IsLike.symm {r r' : Result} (h : r.IsLike r') : r'.IsLike r := by
  cases r with
  | value v =>
    cases r' with
    | value w => exact Value.IsLike.symm h
    | _ => exact h.elim
  | failed =>
    cases r' with
    | failed => exact Eq.symm h
    | _ => exact h.elim
  | malformed => exact h.elim

/-- Names bound alike. -/
abbrev AreLike : Option Value → Option Value → Prop := Option.Rel Value.IsLike

lemma AreLike.refl (v? : Option Value) : AreLike v? v? := by
  cases v? with
  | none => exact .none
  | some v => exact .some (.refl v)

lemma AreLike.or {v? w? t? u? : Option Value} (h : AreLike v? w?) (h' : AreLike t? u?) :
    AreLike (v?.or t?) (w?.or u?) := by
  cases h with
  | none => exact h'
  | some h => exact .some h

lemma Result.IsLike.value? {r r' : Result} (h : r.IsLike r') : AreLike r.value? r'.value? := by
  cases r with
  | value v =>
    cases r' with
    | value w => exact .some h
    | _ => exact h.elim
  | failed =>
    cases r' with
    | failed => exact .none
    | _ => exact h.elim
  | malformed => exact h.elim

/-! ## What a statement depends on -/

namespace Syntax.Node

/-- The expression that a statement evaluates; a definition evaluates none. -/
def evaluated? : Node → Option Node
  | assignment _ _ value => some value
  | definition _ _ _ _ => none
  | e => some e

/-- The name stands in the tree as an expression of its own. -/
def Mentions (node : Node) (name : String) : Prop := ∃ loc, identifier loc name ∈ node.parts

lemma readsOnly_iff {D : String → Prop} {node : Node} :
    node.ReadsOnly D ↔ ∀ name, node.Mentions name → D name := by
  constructor
  · rintro h name ⟨loc, hmem⟩
    exact h _ hmem
  · intro h part hpart
    cases part with
    | identifier loc name => exact h name ⟨loc, hpart⟩
    | _ => trivial

end Syntax.Node

namespace Session

variable {s : Session} {m : Machine} {statement p q : Node} {name : String}

/-- The statement depends on the name: it stands in the expression of the statement, or in the body of
a function that a name stands for on which the statement depends. -/
inductive DependsOn (s : Session) (statement : Node) : String → Prop where
  | expression {e : Node} {name : String} : statement.evaluated? = some e → e.Mentions name →
      DependsOn s statement name
  | body {f : UserFunction} {name inner : String} : DependsOn s statement name →
      s.lookup? name = some (.function (.user f)) → f.body.Mentions inner →
      DependsOn s statement inner

/-- The names contain those in the bodies of the functions that they stand for. -/
def isClosed (s : Session) (names : List String) : Bool :=
  names.all fun name => (s.userFunction? name).all fun f => f.body.ReadsOnly (· ∈ names)

/-- Closed names contain all names on which a statement depends, if they contain those in its
expression. -/
lemma DependsOn.mem_of_isClosed {names : List String} (hnames : s.isClosed names = true)
    (hexpression : ∀ e, statement.evaluated? = some e → e.ReadsOnly (· ∈ names))
    (h : s.DependsOn statement name) : name ∈ names := by
  induction h with
  | expression he hname => exact Node.readsOnly_iff.1 (hexpression _ he) _ hname
  | body _ hf hname ih =>
    have hbody := all_eq_true.1 hnames _ ih
    rw [userFunction?_eq_some.2 hf] at hbody
    exact Node.readsOnly_iff.1 (of_decide_eq_true hbody) _ hname

/-! ## One statement -/

/-- The result of a statement that is run in a machine. -/
def resultIn (m : Machine) (statement : Node) : Result :=
  resultOf statement (runStatement m statement).2.frames (runStatement m statement).1

/-- A statement changes what its own name stands for if it gives a value, and no other name. -/
lemma lookup?_runStatement (hstatement : statement.IsStatement) (h : m.IsOrderly) (name : String) :
    (runStatement m statement).2.store.lookup? Store.root name =
      if statement.target? = some name then
        (resultIn m statement).value?.or (m.store.lookup? Store.root name)
      else m.store.lookup? Store.root name := by
  rw [resultIn, value?_resultOf]
  have hkept := (runStatement_executed hstatement h.alike.withoutCalls).kept
  obtain ⟨bindings, hroot⟩ := h.root
  unfold Store.boundBy at hkept
  generalize runStatement m statement = run at hkept ⊢
  have hunchanged (hkept : m.store.KeptIn run.2.store) :
      run.2.store.lookup? Store.root name = m.store.lookup? Store.root name :=
    hkept.lookup?_root ⟨bindings, hroot⟩ name
  split at hkept
  · rename_i target v htarget hv
    have hbound : (m.store.bind Store.root target v).scopes[Store.root]? =
        some (Scope.bind ⟨none, bindings⟩ target v) := by
      rw [Store.getElem?_bind, if_pos rfl, hroot]
      rfl
    rw [htarget, hv, Option.some_or, hkept.lookup?_root ⟨_, hbound⟩, Store.lookup?_root hbound,
      Store.lookup?_root hroot]
    by_cases hname : target = name
    · subst hname
      rw [if_pos rfl]
      exact Scope.find?_bind_self _ _ _
    · rw [if_neg fun h => hname (Option.some.inj h)]
      exact Scope.find?_bind_of_ne _ _ (Ne.symm hname)
  · rename_i hnone
    rw [hunchanged hkept]
    split
    · rename_i htarget
      cases hv : run.1.toOption with
      | none => rfl
      | some v => exact (hnone name v htarget hv).elim
    · rfl

lemma isLike_resultOf {r r' : Except Failure Value}
    (h : r.mapError (·.cause) = r'.mapError (·.cause)) (frames frames' : List Frame) :
    (resultOf statement frames r).IsLike (resultOf statement frames' r') := by
  rcases cases_of_mapError h with ⟨v, rfl, rfl⟩ | ⟨failure, failure', rfl, rfl, hcause⟩
  · exact Value.IsLike.refl v
  · exact hcause

/-- Expressions and assignments end with the same value in machines that agree on what they depend on,
definitions with the same function. -/
lemma evalWithin_isLike (m m' : Machine) {D : String → Prop} (hstatement : statement.IsStatement)
    (hreads : ∀ e, statement.evaluated? = some e → e.ReadsOnly D)
    (hagrees : m.store.AgreesOn D m'.store) (depth : ℕ) (frames frames' : List Frame) :
    (resultOf statement frames (evalWithin depth statement Store.root m).1).IsLike
      (resultOf statement frames' (evalWithin depth statement Store.root m').1) := by
  have hexpression (depth : ℕ) {e : Node} (he : e.IsExpression) (hreads : e.ReadsOnly D) :
      (evalWithin depth e Store.root m).1.mapError (·.cause) =
        (evalWithin depth e Store.root m').1.mapError (·.cause) := by
    have hrun : Follows False (.views D Store.root Store.root) (Value.SeesOnly D)
        (evalWithin depth e Store.root) (evalWithin depth e Store.root) :=
      evalWithin_elsewhere _ _ (.inr rfl) he hreads
    exact ((hrun m m' ⟨hagrees, .inl ⟨rfl, rfl⟩⟩).resolve_left fun h => h.1).outcome
  cases depth with
  | zero => exact isLike_resultOf rfl _ _
  | succ depth =>
    cases statement with
    | assignment loc name e =>
      refine isLike_resultOf ?_ _ _
      have hvalue := hexpression depth hstatement (hreads e rfl)
      rw [evalWithin_assignment, evalWithin_assignment]
      generalize evalWithin depth e Store.root m = run at hvalue ⊢
      generalize evalWithin depth e Store.root m' = run' at hvalue ⊢
      obtain ⟨r, m₁⟩ := run
      obtain ⟨r', m₁'⟩ := run'
      rcases cases_of_mapError hvalue with ⟨v, rfl, rfl⟩ | ⟨failure, failure', rfl, rfl, hcause⟩
      · rfl
      · exact congrArg Except.error hcause
    | definition loc name params body =>
      rw [evalWithin_definition, evalWithin_definition]
      cases repeatedName? [] params with
      | none => exact ⟨rfl, rfl, rfl⟩
      | some param => exact rfl
    | _ => exact isLike_resultOf (hexpression _ hstatement (hreads _ rfl)) _ _

/-! ## Two statements -/

/-- Neither statement binds a name that the other binds or depends on. -/
structure AreIndependent (s : Session) (p q : Node) : Prop where
  targets : ∀ name, p.target? = some name → q.target? ≠ some name
  left : ∀ name, q.target? = some name → ¬s.DependsOn p name
  right : ∀ name, p.target? = some name → ¬s.DependsOn q name

lemma AreIndependent.symm (h : s.AreIndependent p q) : s.AreIndependent q p where
  targets name hq hp := h.targets name hp hq
  left := h.right
  right := h.left

/-- After a statement that it is independent of, a statement ends as it does before it. -/
lemma resultIn_isLike (hs : s.Reached) (hp : p.IsStatement) (hq : q.IsStatement)
    (h : s.AreIndependent p q) :
    (resultIn s.opened p).IsLike (resultIn (runStatement s.opened q).2 p) := by
  have horderly := hs.isOrderly
  have hopened := isOrderly_opened horderly
  have hafter := (runStatement_executed hq hopened.alike.withoutCalls).alike.orderly
  have hagrees : s.opened.store.AgreesOn (s.DependsOn p) (runStatement s.opened q).2.store := by
    refine ⟨horderly.root, hafter.root, fun name hname => ?_, fun name v hname hv => ?_⟩
    · rw [lookup?_runStatement hq hopened, if_neg fun htarget => h.left name htarget hname]
    · refine (Store.of_lookup? horderly.values hv).seesOnly fun f hf => ?_
      exact Node.readsOnly_iff.2 fun inner => .body hname (hf ▸ hv)
  have hreads : ∀ e, p.evaluated? = some e → e.ReadsOnly (s.DependsOn p) := fun e he =>
    Node.readsOnly_iff.2 fun name => .expression he
  exact evalWithin_isLike { s.opened with frames := [] }
    { (runStatement s.opened q).2 with frames := [] } hp hreads hagrees depthLimit _ _

/-- **Independent statements commute.**  If neither of two statements binds a name that the other binds
or depends on, then both end the same way in either order, and in the end the same names have the same
values. -/
theorem runAll_commutes (hs : s.Reached) (hp : p.IsStatement) (hq : q.IsStatement)
    (h : s.AreIndependent p q) :
    Forall₂ Result.IsLike (runAll s.opened [p, q]).1 (runAll s.opened [q, p]).1.reverse ∧
      ∀ name, Option.Rel Value.IsLike
        ((runAll s.opened [p, q]).2.store.lookup? Store.root name)
        ((runAll s.opened [q, p]).2.store.lookup? Store.root name) := by
  have hopened := isOrderly_opened hs.isOrderly
  have horderly {statement : Node} (hstatement : statement.IsStatement) :
      (runStatement s.opened statement).2.IsOrderly :=
    (runStatement_executed hstatement hopened.alike.withoutCalls).alike.orderly
  have hfirst := resultIn_isLike hs hp hq h
  have hsecond := (resultIn_isLike hs hq hp h.symm).symm
  refine ⟨.cons hfirst (.cons hsecond .nil), fun name => ?_⟩
  show AreLike ((runStatement (runStatement s.opened p).2 q).2.store.lookup? Store.root name)
    ((runStatement (runStatement s.opened q).2 p).2.store.lookup? Store.root name)
  rw [lookup?_runStatement hq (horderly hp), lookup?_runStatement hp hopened,
    lookup?_runStatement hp (horderly hq), lookup?_runStatement hq hopened]
  -- A name is bound by one of the statements at most, so the other one does not matter to it.
  by_cases htarget : p.target? = some name
  · rw [if_pos htarget, if_pos htarget, if_neg (h.targets name htarget),
      if_neg (h.targets name htarget)]
    exact hfirst.value?.or (.refl _)
  · rw [if_neg htarget, if_neg htarget]
    split
    · exact hsecond.value?.or (.refl _)
    · exact .refl _

/-- A session with a function that needs a name. -/
def addingUp : Session := ((start false).handle "f(x) = x + c; c = 2").2

/-- The statement that binds a name to a value of `f`. -/
def calling (name : String) (x : Float) : Node :=
  .assignment none name (.invocation none (.identifier none "f") [.number none x])

theorem runAll_commutes_addingUp :
    addingUp.Reached ∧ (calling "a" 1.0).IsStatement ∧
      addingUp.AreIndependent (calling "a" 1.0) (calling "b" 2.0) ∧
      Forall₂ Result.IsLike (runAll addingUp.opened [calling "a" 1.0, calling "b" 2.0]).1
        (runAll addingUp.opened [calling "b" 2.0, calling "a" 1.0]).1.reverse := by
  have hreached : addingUp.Reached := .handle _ (.start false)
  have hstatement (name : String) (x : Float) : (calling name x).IsStatement :=
    ⟨trivial, trivial, trivial⟩
  have hclosed : addingUp.isClosed ["f", "x", "c"] = true := by
    decide +kernel
  have hdepends {name inner : String} {x : Float} (h : addingUp.DependsOn (calling name x) inner) :
      inner ∈ ["f", "x", "c"] := by
    refine h.mem_of_isClosed hclosed ?_
    rintro _ ⟨⟩
    simp [Node.ReadsOnly, Node.IsWithin, Node.NameIn, Node.parts, Node.partsOf]
  have hindependent : addingUp.AreIndependent (calling "a" 1.0) (calling "b" 2.0) := by
    refine ⟨?_, ?_, ?_⟩
    · rintro _ ⟨⟩
      decide
    · rintro _ ⟨⟩ h
      exact absurd (hdepends h) (by decide)
    · rintro _ ⟨⟩ h
      exact absurd (hdepends h) (by decide)
  exact ⟨hreached, hstatement _ _, hindependent,
    (runAll_commutes hreached (hstatement _ _) (hstatement _ _) hindependent).1⟩

end Session

end SignalCalc
