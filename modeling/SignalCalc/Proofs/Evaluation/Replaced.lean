import SignalCalc.Proofs.Evaluation.Balance
import SignalCalc.Proofs.Evaluation.Blame
import SignalCalc.Proofs.Evaluation.Mirrored

/-!
# Expressions in other places

What an expression gives depends on the names in it, and on the names in the bodies of the functions
that these stand for.  So it may be evaluated in another machine that agrees on these names, and other
expressions may stand in the place of its names, if each of them gives what its name stands for.
`evalWithin_replaced` says this of both at once: the two evaluations end with the same value, or for the
same cause.

Other expressions may be nested deeper.  A comparison is `loose` if it leaves aside evaluations that
come to the bound on the nesting; only then may the bounds differ.
-/

namespace SignalCalc

open SignalCalc.Builtin
open SignalCalc.Call
open SignalCalc.Signal
open SignalCalc.Syntax
open List

/-! ## Names and what stands for them -/

namespace Syntax.Node

mutual
/-- The expression with other expressions in the place of some names.  The names that arguments are
given by stay. -/
def replace (ρ : String → Option Node) : Node → Node
  | identifier loc name => (ρ name).getD (identifier loc name)
  | unary loc op operand => unary loc op (operand.replace ρ)
  | binary loc op left right => binary loc op (left.replace ρ) (right.replace ρ)
  | keyword loc name value => keyword loc name (value.replace ρ)
  | invocation loc callee args => invocation loc (callee.replace ρ) (replaceAll ρ args)
  | node => node

/-- Expressions with others in the place of some names. -/
def replaceAll (ρ : String → Option Node) : List Node → List Node
  | [] => []
  | node :: rest => node.replace ρ :: replaceAll ρ rest
end

mutual
lemma replace_none : ∀ node : Node, node.replace (fun _ => none) = node
  | identifier _ _ => rfl
  | unary loc op operand => by rw [replace, replace_none operand]
  | binary loc op left right => by rw [replace, replace_none left, replace_none right]
  | keyword loc name value => by rw [replace, replace_none value]
  | invocation loc callee args => by rw [replace, replace_none callee, replaceAll_none args]
  | number _ _ | string _ _ | assignment _ _ _ | definition _ _ _ _ | empty _ | block _
  | missing => by simp only [replace]

lemma replaceAll_none : ∀ nodes : List Node, replaceAll (fun _ => none) nodes = nodes
  | [] => rfl
  | node :: rest => by rw [replaceAll, replace_none node, replaceAll_none rest]
end

/-- What is given by position is given so with expressions in the place of its names. -/
lemma replace_ne_keyword {ρ : String → Option Node} (hρ : ∀ name e, ρ name = some e → e.IsExpression)
    {arg : Node} (harg : ∀ loc name e, arg ≠ keyword loc name e) (loc : Option Location)
    (name : String) (e : Node) : arg.replace ρ ≠ keyword loc name e := by
  cases arg with
  | keyword loc' name' e' => exact absurd rfl (harg loc' name' e')
  | identifier loc' name' =>
    rw [replace]
    cases h : ρ name' with
    | none => nofun
    | some e' =>
      rintro rfl
      exact hρ name' _ h
  | _ =>
    simp only [replace]
    nofun

/-- If the node is a name, it is one of these. -/
def NameIn (D : String → Prop) : Node → Prop
  | identifier _ name => D name
  | _ => True

instance (D : String → Prop) [DecidablePred D] : DecidablePred (NameIn D) := fun node =>
  match node with
  | identifier _ name => inferInstanceAs (Decidable (D name))
  | number _ _ | string _ _ | unary _ _ _ | binary _ _ _ _ | keyword _ _ _ | invocation _ _ _
  | assignment _ _ _ | definition _ _ _ _ | empty _ | block _ | missing => isTrue trivial

/-- All names in the tree are among these. -/
def ReadsOnly (D : String → Prop) (node : Node) : Prop := node.IsWithin (NameIn D)

instance (D : String → Prop) [DecidablePred D] (node : Node) : Decidable (node.ReadsOnly D) :=
  inferInstanceAs (Decidable (∀ part ∈ node.parts, NameIn D part))

variable {D : String → Prop} {loc : Option Location}

lemma ReadsOnly.operand {op : UnaryOperator} {operand : Node}
    (h : (unary loc op operand).ReadsOnly D) : operand.ReadsOnly D := IsWithin.operand h

lemma ReadsOnly.left {op : BinaryOperator} {left right : Node}
    (h : (binary loc op left right).ReadsOnly D) : left.ReadsOnly D := IsWithin.left h

lemma ReadsOnly.right {op : BinaryOperator} {left right : Node}
    (h : (binary loc op left right).ReadsOnly D) : right.ReadsOnly D := IsWithin.right h

lemma ReadsOnly.value {name : String} {e : Node} (h : (keyword loc name e).ReadsOnly D) :
    e.ReadsOnly D := IsWithin.keyword h

lemma ReadsOnly.callee {callee : Node} {args : List Node}
    (h : (invocation loc callee args).ReadsOnly D) : callee.ReadsOnly D := IsWithin.callee h

lemma ReadsOnly.argument {callee : Node} {args : List Node}
    (h : (invocation loc callee args).ReadsOnly D) : ∀ arg ∈ args, arg.ReadsOnly D :=
  fun _ => IsWithin.argument h

end Syntax.Node

variable {D : String → Prop}

/-- A value that programs compute.  A function reads these names only. -/
structure Value.SeesOnly (D : String → Prop) (v : Value) : Prop where
  computed : v.IsComputed
  within : v.IsWithin (Node.NameIn D)

lemma Value.IsComputed.seesOnly {v : Value} (h : v.IsComputed)
    (hbody : ∀ f, v = .function (.user f) → f.body.ReadsOnly D) : v.SeesOnly D := by
  refine ⟨h, ?_⟩
  cases v with
  | function f =>
    cases f with
    | user f => exact hbody f rfl
    | _ => trivial
  | _ => trivial

namespace Store

variable {s s' t t' : Store} {id id' : ScopeId}

lemma KeptIn.lookup?_root (h : s.KeptIn t)
    (hroot : ∃ bindings, s.scopes[root]? = some ⟨none, bindings⟩) (name : String) :
    t.lookup? root name = s.lookup? root name := by
  obtain ⟨bindings, hroot⟩ := hroot
  rw [Store.lookup?_root hroot, Store.lookup?_root (h _ _ hroot)]

/-- Two stores whose first scopes agree on some names, and these stand for functions that read no other
names. -/
structure AgreesOn (D : String → Prop) (s s' : Store) : Prop where
  root : ∃ bindings, s.scopes[Store.root]? = some ⟨none, bindings⟩
  root' : ∃ bindings, s'.scopes[Store.root]? = some ⟨none, bindings⟩
  same : ∀ name, D name → s.lookup? Store.root name = s'.lookup? Store.root name
  values : ∀ name v, D name → s.lookup? Store.root name = some v → v.SeesOnly D

lemma AgreesOn.mono (h : s.AgreesOn D s') (hs : s.KeptIn t) (hs' : s'.KeptIn t') :
    t.AgreesOn D t' where
  root := h.root.imp fun _ hroot => hs _ _ hroot
  root' := h.root'.imp fun _ hroot => hs' _ _ hroot
  same name hname := by
    rw [hs.lookup?_root h.root, hs'.lookup?_root h.root', h.same name hname]
  values name v hname hv := by
    rw [hs.lookup?_root h.root] at hv
    exact h.values name v hname hv

/-- Names are seen alike from the scopes of two calls with the same slots. -/
lemma AgreesOn.lookup?_local (h : s.AgreesOn D s') {locals : List (String × Value)}
    (hlocals : s.scopes[id]? = some ⟨some Store.root, locals⟩)
    (hlocals' : s'.scopes[id']? = some ⟨some Store.root, locals⟩) {name : String} (hname : D name) :
    s'.lookup? id' name = s.lookup? id name := by
  obtain ⟨bindings, hroot⟩ := h.root
  obtain ⟨bindings', hroot'⟩ := h.root'
  have hsame := h.same name hname
  rw [Store.lookup?_root hroot, Store.lookup?_root hroot'] at hsame
  rw [Store.lookup?_local hroot hlocals, Store.lookup?_local hroot' hlocals', hsame]

/-- What is seen from the scope of a call is in its slots or in the first scope. -/
lemma AgreesOn.seesOnly_of_lookup? (h : s.AgreesOn D s') {locals : List (String × Value)}
    (hvalues : ∀ entry ∈ locals, entry.2.SeesOnly D)
    (hlocals : s.scopes[id]? = some ⟨some Store.root, locals⟩) {name : String} (hname : D name)
    {v : Value} (hv : s.lookup? id name = some v) : v.SeesOnly D := by
  obtain ⟨bindings, hroot⟩ := h.root
  rw [Store.lookup?_local hroot hlocals, Option.or_eq_some_iff] at hv
  rcases hv with hlocal | ⟨-, hglobal⟩
  · exact hvalues _ (Scope.mem_of_find? hlocal)
  · rw [← Store.lookup?_root hroot] at hglobal
    exact h.values name v hname hglobal

end Store

/-- A condition on two stores that agree on some names.  It does not end when scopes are added. -/
structure Pairing (D : String → Prop) where
  Holds : Store → Store → Prop
  mono {s s' t t' : Store} : Holds s s' → s.KeptIn t → s'.KeptIn t' → Holds t t'
  agrees {s s' : Store} : Holds s s' → s.AgreesOn D s'

/-- Two scopes see the same: the first ones, or scopes of calls with the same slots. -/
def Pairing.views (D : String → Prop) (id id' : ScopeId) : Pairing D where
  Holds s s' := s.AgreesOn D s' ∧ ((id = Store.root ∧ id' = Store.root) ∨
    ∃ locals, (∀ entry ∈ locals, entry.2.SeesOnly D) ∧
      s.scopes[id]? = some ⟨some Store.root, locals⟩ ∧
      s'.scopes[id']? = some ⟨some Store.root, locals⟩)
  mono h hs hs' := ⟨h.1.mono hs hs', h.2.imp_right fun ⟨locals, hvalues, hlocals, hlocals'⟩ =>
    ⟨locals, hvalues, hs _ _ hlocals, hs' _ _ hlocals'⟩⟩
  agrees h := h.1

namespace Evaluation

variable {α β : Type} {loose : Prop} {W : Pairing D} {P : α → Prop} {Q : β → Prop}

/-! ## How an evaluation ends -/

/-- Evaluations that end the same way give the same value, or fail for the same cause. -/
lemma cases_of_mapError {r r' : Except Failure α}
    (h : r.mapError (·.cause) = r'.mapError (·.cause)) :
    (∃ a, r = .ok a ∧ r' = .ok a) ∨
      ∃ failure failure', r = .error failure ∧ r' = .error failure' ∧
        failure.cause = failure'.cause := by
  cases r with
  | ok a =>
    cases r' with
    | ok a' =>
      obtain rfl := Except.ok.inj h
      exact .inl ⟨a, rfl, rfl⟩
    | error failure' => cases h
  | error failure =>
    cases r' with
    | ok a' => cases h
    | error failure' => exact .inr ⟨failure, failure', rfl, rfl, Except.error.inj h⟩

lemma isTooDeep_iff {r : Except Failure α} :
    IsTooDeep r ↔ r.mapError (·.cause) = .error .tooDeep := by
  constructor
  · intro h
    unfold IsTooDeep at h
    split at h
    · rfl
    · exact h.elim
  · intro h
    cases r with
    | ok a => cases h
    | error failure =>
      obtain ⟨cause, node⟩ := failure
      obtain rfl : cause = .tooDeep := Except.error.inj h
      trivial

/-- A computation ends as another one does, and leaves the same scopes, if that starts in a machine with
the scopes that this one starts with. -/
structure EndsAs (g : Machine → Machine) (y x : Eval α) : Prop where
  start : ∀ m, (g m).store = m.store
  outcome : ∀ m, (y m).1.mapError (·.cause) = (x (g m)).1.mapError (·.cause)
  store : ∀ m, (y m).2.store = (x (g m)).2.store

lemma endsAs_claim (node : Node) (x : Eval α) : EndsAs id (claim node x) x where
  start _ := rfl
  outcome m := by
    rw [run_claim]
    dsimp only [id_eq]
    cases (x m).1 <;> rfl
  store m := by
    rw [run_claim]
    rfl

lemma endsAs_framed (frame : Frame) (x : Eval α) :
    EndsAs (fun m => { m with frames := frame :: m.frames }) (framed frame x) x where
  start _ := rfl
  outcome m := by
    rw [run_framed]
    rcases x { m with frames := frame :: m.frames } with ⟨_ | a, m₁⟩ <;> rfl
  store m := by
    rw [run_framed]
    rcases x { m with frames := frame :: m.frames } with ⟨_ | a, m₁⟩ <;> rfl

/-! ## Two runs -/

/-- Two runs that end with the same value, or for the same cause, and leave all scopes as they found
them. -/
structure Followed (P : α → Prop) (s s' : Store) (r r' : Except Failure α × Machine) : Prop where
  outcome : r.1.mapError (·.cause) = r'.1.mapError (·.cause)
  meets : ∀ a, r.1 = .ok a → P a
  kept : s.KeptIn r.2.store
  kept' : s'.KeptIn r'.2.store

/-- In paired stores the two computations end with the same value, or for the same cause.  In a loose
comparison one of them may come to the bound on the nesting. -/
def Follows (loose : Prop) (W : Pairing D) (P : α → Prop) (x x' : Eval α) : Prop :=
  ∀ m m', W.Holds m.store m'.store →
    (loose ∧ (IsTooDeep (x m).1 ∨ IsTooDeep (x' m').1)) ∨
      Followed P m.store m'.store (x m) (x' m')

namespace Follows

lemma pure {a : α} (h : P a) : Follows loose W P (Pure.pure a) (Pure.pure a) :=
  fun _ _ _ => .inr ⟨rfl, fun _ ha => Except.ok.inj ha ▸ h, .refl _, .refl _⟩

lemma fail (cause : Cause) :
    Follows loose W P (Evaluation.fail cause) (Evaluation.fail cause) :=
  fun _ _ _ => .inr ⟨rfl, nofun, .refl _, .refl _⟩

lemma of_settles {x : Eval α} (h : Settles P x) : Follows loose W P x x := by
  cases h with
  | pure ha => exact pure ha
  | fail _ => exact fail _

lemma note (event : Event) :
    Follows loose W (fun _ => True) (Evaluation.note event) (Evaluation.note event) :=
  fun _ _ _ => .inr ⟨rfl, fun _ _ => trivial, .refl _, .refl _⟩

lemma bind {x x' : Eval α} {f f' : α → Eval β} (hx : Follows loose W P x x')
    (hf : ∀ a, P a → Follows loose W Q (f a) (f' a)) :
    Follows loose W Q (x >>= f) (x' >>= f') := by
  intro m m' hW
  rw [run_bind, run_bind]
  rcases hx m m' hW with ⟨hloose, hdeep | hdeep⟩ | ⟨houtcome, hmeets, hkept, hkept'⟩
  · obtain ⟨node, m₁, hrun⟩ := exists_of_isTooDeep hdeep
    rw [hrun]
    exact .inl ⟨hloose, .inl trivial⟩
  · obtain ⟨node, m₁, hrun⟩ := exists_of_isTooDeep hdeep
    rw [hrun]
    exact .inl ⟨hloose, .inr trivial⟩
  · generalize x m = run at *
    generalize x' m' = run' at *
    obtain ⟨r, m₁⟩ := run
    obtain ⟨r', m₁'⟩ := run'
    rcases cases_of_mapError houtcome with ⟨a, rfl, rfl⟩ | ⟨failure, failure', rfl, rfl, hcause⟩
    · refine (hf a (hmeets a rfl) m₁ m₁' (W.mono hW hkept hkept')).imp_right fun hsecond => ?_
      exact ⟨hsecond.outcome, hsecond.meets, hkept.trans hsecond.kept,
        hkept'.trans hsecond.kept'⟩
    · exact .inr ⟨congrArg Except.error hcause, nofun, hkept, hkept'⟩

/-- Computations that end as others do in machines with the same scopes may stand for these. -/
lemma of_endsAs {x x' y y' : Eval α} {g g' : Machine → Machine} (hx : Follows loose W P x x')
    (hy : EndsAs g y x) (hy' : EndsAs g' y' x') : Follows loose W P y y' := by
  intro m m' hW
  have hrun := hx (g m) (g' m') (by rwa [hy.start, hy'.start])
  rw [hy.start, hy'.start] at hrun
  rcases hrun with ⟨hloose, hdeep⟩ | ⟨houtcome, hmeets, hkept, hkept'⟩
  · rw [isTooDeep_iff, isTooDeep_iff] at hdeep
    rw [isTooDeep_iff, isTooDeep_iff, hy.outcome, hy'.outcome]
    exact .inl ⟨hloose, hdeep⟩
  · refine .inr ⟨?_, fun a ha => ?_, ?_, ?_⟩
    · rw [hy.outcome, hy'.outcome, houtcome]
    · rcases cases_of_mapError (hy.outcome m) with ⟨b, hb, hx⟩ | ⟨failure, -, hfailure, -⟩
      · rw [hb] at ha
        exact hmeets a (hx.trans ha)
      · rw [hfailure] at ha
        cases ha
    · rwa [hy.store]
    · rwa [hy'.store]

/-- Whose failure it is does not count. -/
lemma claim {x x' : Eval α} (node node' : Node) (hx : Follows loose W P x x') :
    Follows loose W P (claim node x) (claim node' x') :=
  hx.of_endsAs (endsAs_claim node x) (endsAs_claim node' x')

/-- Nor do the calls that are pending. -/
lemma framed {x x' : Eval α} (frame frame' : Frame) (hx : Follows loose W P x x') :
    Follows loose W P (framed frame x) (framed frame' x') :=
  hx.of_endsAs (endsAs_framed frame x) (endsAs_framed frame' x')

end Follows

/-! ## Operators -/

/-- What a computation gives that only settles stands among the names where every run of it does. -/
lemma Settles.seesOnly {x : Eval Value} (h : Settles Value.IsComputed x)
    (hx : StaysWithin (Node.NameIn D) (Value.IsWithin (Node.NameIn D)) x) :
    Settles (Value.SeesOnly D) x := by
  cases h with
  | fail hcause => exact .fail hcause
  | pure hv =>
    have hrun := (hx ⟨.fresh, [], 0, []⟩ (by simp [Store.All, Store.fresh])).2
    exact .pure ⟨hv, hrun⟩

lemma applyUnary_seesOnly {v : Value} (hv : v.SeesOnly D) (op : UnaryOperator) :
    Settles (Value.SeesOnly D) (applyUnary op v) :=
  (applyUnary_settles hv.computed op).seesOnly (isWithin_lasting.applyUnary op v)

lemma applyBinary_seesOnly {v w : Value} (hv : v.SeesOnly D) (hw : w.SeesOnly D)
    (op : BinaryOperator) : Settles (Value.SeesOnly D) (applyBinary op v w) :=
  (applyBinary_settles hv.computed hw.computed op).seesOnly
    (isWithin_lasting.applyBinary hv.within hw.within op)

lemma seesOnly_bool (b : Bool) : (Value.bool b).SeesOnly D := ⟨trivial, trivial⟩

lemma applyLogical_follows (op : BinaryOperator) (decisive : Bool)
    {left left' right right' : Eval Value} (hleft : Follows loose W (Value.SeesOnly D) left left')
    (hright : Follows loose W (Value.SeesOnly D) right right') :
    Follows loose W (Value.SeesOnly D) (applyLogical op decisive left right)
      (applyLogical op decisive left' right') := by
  refine .bind hleft fun v _ => ?_
  cases v with
  | bool l =>
    show Follows loose W _ (ite (l == decisive) _ _) (ite (l == decisive) _ _)
    split
    · exact .pure (seesOnly_bool l)
    · refine .bind hright fun w _ => ?_
      cases w with
      | bool r => exact .pure (seesOnly_bool r)
      | _ => exact .fail _
  | _ => exact .fail _

/-! ## Calls -/

/-- The arguments of a call read these names only. -/
def AreSeeingOnly (D : String → Prop) (args : List Value × List (String × Value)) : Prop :=
  (∀ v ∈ args.1, v.SeesOnly D) ∧ ∀ entry ∈ args.2, entry.2.SeesOnly D

lemma Function.seesOnly_of_bind {f : Function} {positional slots : List Value}
    {named : List (String × Value)} (hargs : AreSeeingOnly D (positional, named))
    (h : f.bind positional named = .ok slots) : ∀ v ∈ slots, v.SeesOnly D := by
  have hbind := f.bind_meets (fun v hv => (hargs.1 v hv).computed)
    fun entry hentry => (hargs.2 entry hentry).computed
  rw [h] at hbind
  have hwithin := isWithin_lasting.slots ⟨fun v hv => (hargs.1 v hv).within,
    fun entry hentry => (hargs.2 entry hentry).within⟩ h
  exact fun v hv => ⟨Function.isComputed_of_fits hbind v hv, hwithin v hv⟩

section

variable {body body' : Node → ScopeId → Eval Value}
  (hbody : ∀ (node : Node) id id', node.IsExpression → node.ReadsOnly D →
    Follows loose (.views D id id') (Value.SeesOnly D) (body node id) (body' node id'))

include hbody

/-- The body of a function runs in new scopes with the same slots. -/
lemma call_user_follows {f : UserFunction} (hf : (Value.function (.user f)).SeesOnly D)
    {slots : List Value} (hslots : ∀ v ∈ slots, v.SeesOnly D) :
    Follows loose W (Value.SeesOnly D) (call body (.user f) slots) (call body' (.user f) slots) := by
  refine .bind (.note _) fun _ _ m m' hW => ?_
  obtain ⟨hexpr, hscope⟩ := hf.computed
  have hkept := m.store.keptIn_push ⟨some f.scope, f.params.zip slots⟩
  have hkept' := m'.store.keptIn_push ⟨some f.scope, f.params.zip slots⟩
  have hviews : (Pairing.views D m.store.scopes.size m'.store.scopes.size).Holds
      (m.store.push ⟨some f.scope, f.params.zip slots⟩).2
      (m'.store.push ⟨some f.scope, f.params.zip slots⟩).2 := by
    refine ⟨(W.agrees hW).mono hkept hkept', .inr ⟨f.params.zip slots, ?_, ?_⟩⟩
    · exact fun entry hentry => hslots _ (of_mem_zip hentry).2
    · rw [← hscope]
      exact ⟨Store.getElem?_push_self _ _, Store.getElem?_push_self _ _⟩
  refine (hbody f.body _ _ hexpr hf.within
    { m with store := (m.store.push ⟨some f.scope, f.params.zip slots⟩).2 }
    { m' with store := (m'.store.push ⟨some f.scope, f.params.zip slots⟩).2 } hviews).imp_right
      fun hrun => ?_
  exact ⟨hrun.outcome, hrun.meets, hkept.trans hrun.kept, hkept'.trans hrun.kept'⟩

lemma invoke_follows {f : Function} (hf : (Value.function f).SeesOnly D) {positional : List Value}
    {named : List (String × Value)} (hargs : AreSeeingOnly D (positional, named)) :
    Follows loose W (Value.SeesOnly D) (invoke body f positional named)
      (invoke body' f positional named) := by
  cases h : f.bind positional named with
  | error e =>
    rw [invoke_of_error h, invoke_of_error h]
    exact .fail _
  | ok slots =>
    have hslots := Function.seesOnly_of_bind hargs h
    have hfits := f.bind_meets (fun v hv => (hargs.1 v hv).computed)
      fun entry hentry => (hargs.2 entry hentry).computed
    rw [h] at hfits
    by_cases hpromotes : Promotes f slots
    · obtain ⟨⟨g, rfl⟩, hsound⟩ := hpromotes
      have hbuilt := isBuilt_promoted (fun v hv => (hargs.1 v hv).computed)
        (fun entry hentry => (hargs.2 entry hentry).computed) h hsound
      rw [invoke_promoted h hsound, invoke_promoted h hsound]
      exact .bind (.note _) fun _ _ => .pure ⟨hbuilt, trivial⟩
    · rw [invoke_framed h hpromotes, invoke_framed h hpromotes]
      refine .framed _ _ ?_
      cases f with
      | real g => exact .bind (.note _) fun _ _ => .pure ⟨trivial, trivial⟩
      | constructor c =>
        exact .bind (.note _) fun _ _ =>
          .pure ⟨isComputed_construct hfits, (isInert_construct c slots).isWithin⟩
      | user f => exact call_user_follows hbody hf hslots

end

lemma evalArguments_follows {ρ : String → Option Node}
    (hρ : ∀ name e, ρ name = some e → e.IsExpression)
    {value value' : Node → Eval Value}
    (hvalue : ∀ arg : Node, arg.IsExpression → arg.ReadsOnly D →
      Follows loose W (Value.SeesOnly D) (value arg) (value' (arg.replace ρ)))
    (function : String) {args : List Node} (hexpr : Node.AreArguments args)
    (hreads : ∀ arg ∈ args, arg.ReadsOnly D) {positional : List Value}
    {named : List (String × Value)} (hargs : AreSeeingOnly D (positional, named)) :
    Follows loose W (AreSeeingOnly D) (evalArguments value function args positional named)
      (evalArguments value' function (Node.replaceAll ρ args) positional named) := by
  obtain ⟨hpositional, hnamed⟩ := hargs
  induction args generalizing positional named with
  | nil => exact .pure ⟨hpositional, hnamed⟩
  | cons arg rest ih =>
    obtain ⟨hread, hreadsRest⟩ := forall_mem_cons.1 hreads
    rw [Node.replaceAll]
    by_cases hkeyword : ∃ loc name e, arg = .keyword loc name e
    · obtain ⟨loc, name, e, rfl⟩ := hkeyword
      rw [Node.replace]
      cases htaken : named.any (·.1 == name) with
      | true =>
        rw [evalArguments_keyword_twice loc name e htaken,
          evalArguments_keyword_twice loc name _ htaken]
        exact .fail _
      | false =>
        rw [evalArguments_keyword loc name e htaken, evalArguments_keyword loc name _ htaken]
        refine .bind (hvalue e hexpr.1 hread.value) fun v hv =>
          ih hexpr.2 hreadsRest hpositional ?_
        exact forall_mem_append.2 ⟨hnamed, forall_mem_singleton.2 hv⟩
    · have harg : ∀ loc name e, arg ≠ .keyword loc name e := fun loc name e heq =>
        hkeyword ⟨loc, name, e, heq⟩
      obtain ⟨hfirst, hrest⟩ := (Node.areArguments_cons harg).1 hexpr
      rw [evalArguments_positional harg,
        evalArguments_positional (Node.replace_ne_keyword hρ harg)]
      refine .bind (hvalue arg hfirst hread) fun v hv => ih hrest hreadsRest ?_ hnamed
      exact forall_mem_append.2 ⟨hpositional, forall_mem_singleton.2 hv⟩

/-! ## Expressions -/

/-- With no depth left there is nothing to compare. -/
lemma evalWithin_zero_follows {depth depth' : ℕ} (hdepth : loose ∨ depth = depth')
    (hzero : depth = 0 ∨ depth' = 0) {P : Value → Prop} (node node' : Node) (id id' : ScopeId) :
    Follows loose W P (evalWithin depth node id) (evalWithin depth' node' id') := by
  intro m m' hW
  rcases hdepth with hloose | rfl
  · rcases hzero with rfl | rfl
    · exact .inl ⟨hloose, .inl trivial⟩
    · exact .inl ⟨hloose, .inr trivial⟩
  · obtain rfl : depth = 0 := hzero.elim (·) (·)
    exact Follows.fail .tooDeep m m' hW

/-- A name gives the same where it stands for the same. -/
lemma identifier_followed {P : Value → Prop} {m m' : Machine} {id id' : ScopeId} {name : String}
    (hsame : m'.store.lookup? id' name = m.store.lookup? id name)
    (hvalue : ∀ v, m.store.lookup? id name = some v → P v) (depth depth' : ℕ)
    (loc : Option Location) :
    Followed P m.store m'.store (evalWithin (depth + 1) (.identifier loc name) id m)
      (evalWithin (depth' + 1) (.identifier loc name) id' m') := by
  rw [evalWithin_identifier, evalWithin_identifier, hsame]
  cases hv : m.store.lookup? id name with
  | none => exact ⟨rfl, nofun, .refl _, .refl _⟩
  | some v => exact ⟨rfl, fun w hw => Except.ok.inj hw ▸ hvalue v hv, .refl _, .refl _⟩

/-- A name gives the same in scopes that see the same. -/
lemma identifier_follows {depth depth' : ℕ} (hdepth : loose ∨ depth = depth')
    (loc : Option Location) {name : String} (hname : D name) (id id' : ScopeId) :
    Follows loose (.views D id id') (Value.SeesOnly D)
      (evalWithin depth (.identifier loc name) id) (evalWithin depth' (.identifier loc name) id') := by
  by_cases hzero : depth = 0 ∨ depth' = 0
  · exact evalWithin_zero_follows hdepth hzero _ _ _ _
  obtain ⟨depth, rfl⟩ := Nat.exists_eq_succ_of_ne_zero fun h => hzero (.inl h)
  obtain ⟨depth', rfl⟩ := Nat.exists_eq_succ_of_ne_zero fun h => hzero (.inr h)
  rintro m m' ⟨hagrees, hviews⟩
  rcases hviews with ⟨rfl, rfl⟩ | ⟨locals, hvalues, hlocals, hlocals'⟩
  · exact .inr (identifier_followed (hagrees.same name hname).symm
      (fun v => hagrees.values name v hname) _ _ loc)
  · exact .inr (identifier_followed (hagrees.lookup?_local hlocals hlocals' hname)
      (fun v => hagrees.seesOnly_of_lookup? hvalues hlocals hname) _ _ loc)

/-- **Expressions may be evaluated in other places.** -/
theorem evalWithin_replaced {ρ : String → Option Node}
    (hρ : ∀ name e, ρ name = some e → e.IsExpression) {id id' : ScopeId}
    (hleaf : ∀ depth depth', loose ∨ depth = depth' → ∀ loc name, D name →
      Follows loose W (Value.SeesOnly D) (evalWithin depth (.identifier loc name) id)
        (evalWithin depth' ((ρ name).getD (.identifier loc name)) id'))
    {depth depth' : ℕ} (hdepth : loose ∨ depth = depth') {node : Node} (hexpr : node.IsExpression)
    (hreads : node.ReadsOnly D) :
    Follows loose W (Value.SeesOnly D) (evalWithin depth node id)
      (evalWithin depth' (node.replace ρ) id') := by
  induction depth generalizing depth' node W ρ id id' with
  | zero => exact evalWithin_zero_follows hdepth (.inl rfl) _ _ _ _
  | succ depth ih =>
    cases depth' with
    | zero => exact evalWithin_zero_follows hdepth (.inr rfl) _ _ _ _
    | succ depth' =>
      have hless : loose ∨ depth = depth' := hdepth.imp_right Nat.succ.inj
      have hpart : ∀ {part : Node}, part.IsExpression → part.ReadsOnly D →
          Follows loose W (Value.SeesOnly D) (evalWithin depth part id)
            (evalWithin depth' (part.replace ρ) id') := fun hexpr hreads =>
        ih hρ hleaf hless hexpr hreads
      cases node with
      | number | string =>
        simp only [Node.replace]
        exact .claim _ _ (.pure ⟨trivial, trivial⟩)
      | identifier loc name =>
        rw [Node.replace]
        exact hleaf _ _ hdepth loc name hreads.self
      | unary loc op operand =>
        rw [Node.replace]
        exact .claim _ _ (.bind (hpart hexpr.2 hreads.operand) fun v hv =>
          .of_settles (applyUnary_seesOnly hv op))
      | binary loc op left right =>
        rw [Node.replace]
        have hleft := hpart hexpr.2.1 hreads.left
        have hright := hpart hexpr.2.2 hreads.right
        by_cases hand : op = .and
        · subst hand
          exact .claim _ _ (applyLogical_follows _ _ hleft hright)
        · by_cases hor : op = .or
          · subst hor
            exact .claim _ _ (applyLogical_follows _ _ hleft hright)
          · rw [evalWithin_binary hand hor, evalWithin_binary hand hor]
            exact .claim _ _ (.bind hleft fun v hv => .bind hright fun w hw =>
              .of_settles (applyBinary_seesOnly hv hw op))
      | invocation loc callee args =>
        rw [Node.replace]
        refine .claim _ _ (.bind (hpart hexpr.1 hreads.callee) fun v hv => ?_)
        cases v with
        | function f =>
          have hargs : Follows loose W (AreSeeingOnly D)
              (evalArguments (fun arg => evalWithin depth arg id) f.name args [] [])
              (evalArguments (fun arg => evalWithin depth' arg id') f.name
                (Node.replaceAll ρ args) [] []) :=
            evalArguments_follows hρ (fun _ hexpr hreads => hpart hexpr hreads) f.name hexpr.2
              hreads.argument ⟨forall_mem_nil _, forall_mem_nil _⟩
          -- Nothing is replaced in the body of a function, and it is not seen from where the call stands.
          have hbody : ∀ (node : Node) id id', node.IsExpression → node.ReadsOnly D →
              Follows loose (.views D id id') (Value.SeesOnly D) (evalWithin depth node id)
                (evalWithin depth' node id') := by
            intro node id id' hexpr hreads
            have hrun := ih (ρ := fun _ => none) nofun (fun _ _ hdepth loc name hname =>
              identifier_follows hdepth loc hname id id') hless hexpr hreads
            rwa [Node.replace_none] at hrun
          exact .bind hargs fun args hargs => invoke_follows hbody hv hargs
        | _ => exact .fail _
      | empty loc =>
        simp only [Node.replace]
        exact .claim _ _ (.fail _)
      | keyword | assignment | definition | block | missing => exact hexpr.elim

/-- An expression gives the same in scopes that see the same. -/
theorem evalWithin_elsewhere (id id' : ScopeId) {depth depth' : ℕ} (hdepth : loose ∨ depth = depth')
    {node : Node} (hexpr : node.IsExpression) (hreads : node.ReadsOnly D) :
    Follows loose (.views D id id') (Value.SeesOnly D) (evalWithin depth node id)
      (evalWithin depth' node id') := by
  have hrun := evalWithin_replaced (W := .views D id id') (ρ := fun _ => none) nofun
    (fun _ _ hdepth loc _ hname => identifier_follows hdepth loc hname id id') hdepth hexpr hreads
  rwa [Node.replace_none] at hrun

end Evaluation

end SignalCalc
