import SignalCalc.Proofs.Evaluation.Computed

/-!
# Evaluations that mirror each other

Two machines look alike if they bind the same names in their first scopes and have the same calls
pending.  They may differ in the scopes of calls that are over, and in where the scope of a running
call is kept.  `Mirrors` says of two computations that from machines that look alike they end with
one outcome, in machines that look alike again, and that all scopes they found are left as they
were.  `evalWithin_mirrors` is the main result: an expression is such a computation.

The diagonal, where a computation is held against itself, is about a single evaluation: it gives
computed values, fails for ordinary causes, and changes no scope that existed before.
-/

namespace SignalCalc

open SignalCalc.Builtin
open SignalCalc.Call
open SignalCalc.Signal
open SignalCalc.Syntax
open List

/-! ## Scopes -/

/-- Every scope of one store is in the other one as it is. -/
def Store.KeptIn (s t : Store) : Prop :=
  ∀ (id : ScopeId) (scope : Scope), s.scopes[id]? = some scope → t.scopes[id]? = some scope

/-- Two scopes through which the same names are seen: the first scopes of their stores, or scopes
right inside these with the same names in them. -/
def Store.SeesAlike (s s' : Store) (id id' : ScopeId) : Prop :=
  (id = root ∧ id' = root) ∨ ∃ locals,
    s.scopes[id]? = some ⟨some root, locals⟩ ∧ s'.scopes[id']? = some ⟨some root, locals⟩

namespace Store

variable {s s' t t' : Store} {id id' : ScopeId}

lemma KeptIn.refl (s : Store) : s.KeptIn s := fun _ _ h => h

lemma KeptIn.trans {u : Store} (h : s.KeptIn t) (h' : t.KeptIn u) : s.KeptIn u :=
  fun id scope hscope => h' id scope (h id scope hscope)

lemma keptIn_push (s : Store) (scope : Scope) : s.KeptIn (s.push scope).2 := by
  intro id old hold
  obtain ⟨hlt, -⟩ := Array.getElem?_eq_some_iff.1 hold
  rwa [getElem?_push_of_lt s scope hlt]

/-- What is kept is kept when the same name is bound on both sides. -/
lemma KeptIn.bind (h : s.KeptIn t) (id : ScopeId) (name : String) (v : Value) :
    (s.bind id name v).KeptIn (t.bind id name v) := by
  intro other scope hscope
  rw [getElem?_bind] at hscope ⊢
  split at hscope
  · rename_i hid
    obtain ⟨old, hold, rfl⟩ := Option.map_eq_some_iff.1 hscope
    rw [if_pos hid, h other old hold]
    rfl
  · rename_i hid
    rw [if_neg hid, h other scope hscope]

lemma SeesAlike.mono (h : s.SeesAlike s' id id') (hs : s.KeptIn t) (hs' : s'.KeptIn t') :
    t.SeesAlike t' id id' := by
  rcases h with hroot | ⟨locals, hlocals, hlocals'⟩
  · exact .inl hroot
  · exact .inr ⟨locals, hs _ _ hlocals, hs' _ _ hlocals'⟩

variable {bindings locals : List (String × Value)}

/-- Names seen from the first scope are those bound in it. -/
lemma lookup?_root (hroot : s.scopes[root]? = some ⟨none, bindings⟩) (name : String) :
    s.lookup? root name = Scope.find? ⟨none, bindings⟩ name := by
  obtain ⟨hlt, -⟩ := Array.getElem?_eq_some_iff.1 hroot
  obtain ⟨steps, hsteps⟩ : ∃ steps, s.scopes.size = steps + 1 := ⟨s.scopes.size - 1, by omega⟩
  rw [lookup?, owner?, hsteps, ownerFrom, hroot]
  dsimp only
  cases Scope.find? ⟨none, bindings⟩ name <;> rfl

/-- Names seen from the scope of a call are those bound in it, and behind them those bound in the
first scope. -/
lemma lookup?_local (hroot : s.scopes[root]? = some ⟨none, bindings⟩)
    (hlocals : s.scopes[id]? = some ⟨some root, locals⟩) (name : String) :
    s.lookup? id name =
      (Scope.find? ⟨some root, locals⟩ name).or (Scope.find? ⟨none, bindings⟩ name) := by
  have hne : id ≠ root := by
    rintro rfl
    rw [hroot] at hlocals
    cases hlocals
  have hid : id < s.scopes.size := (Array.getElem?_eq_some_iff.1 hlocals).1
  have hsize : 2 ≤ s.scopes.size := Nat.lt_of_le_of_lt (Nat.pos_of_ne_zero hne) hid
  obtain ⟨steps, hsteps⟩ : ∃ steps, s.scopes.size = steps + 1 + 1 :=
    ⟨s.scopes.size - 2, by omega⟩
  rw [lookup?, owner?, hsteps, ownerFrom, hlocals]
  dsimp only
  cases Scope.find? ⟨some root, locals⟩ name with
  | some v => rfl
  | none =>
    rw [Option.none_or]
    dsimp only
    rw [ownerFrom, hroot]
    dsimp only
    cases Scope.find? ⟨none, bindings⟩ name <;> rfl

end Store

/-! ## Machines -/

/-- What a program leaves in a machine: computed values only, and a first scope inside no other. -/
structure Machine.IsOrderly (m : Machine) : Prop where
  values : m.store.All Value.IsComputed
  arguments : ∀ frame ∈ m.frames, ∀ v ∈ frame.args, v.IsComputed
  root : ∃ bindings, m.store.scopes[Store.root]? = some ⟨none, bindings⟩

/-- Two orderly machines with the same names in the first scope and the same calls pending. -/
structure Machine.Alike (m m' : Machine) : Prop where
  orderly : m.IsOrderly
  orderly' : m'.IsOrderly
  root : m.store.scopes[Store.root]? = m'.store.scopes[Store.root]?
  frames : m.frames = m'.frames
  nextSerial : m.nextSerial = m'.nextSerial

lemma Machine.IsOrderly.alike {m : Machine} (h : m.IsOrderly) : m.Alike m :=
  ⟨h, h, rfl, rfl, rfl⟩

/-- Machines that look alike do so with other calls pending, if these are the same. -/
lemma Machine.Alike.withFrames {m m' : Machine} (h : m.Alike m') {frames : List Frame}
    (hframes : ∀ frame ∈ frames, ∀ v ∈ frame.args, v.IsComputed) :
    Machine.Alike { m with frames } { m' with frames } :=
  ⟨⟨h.orderly.values, hframes, h.orderly.root⟩, ⟨h.orderly'.values, hframes, h.orderly'.root⟩,
    h.root, rfl, h.nextSerial⟩

lemma Machine.Alike.withoutCalls {m m' : Machine} (h : m.Alike m') :
    Machine.Alike { m with frames := [] } { m' with frames := [] } :=
  h.withFrames (forall_mem_nil _)

/-- Machines that look alike do so after the same name was bound in their first scopes. -/
lemma Machine.Alike.bindRoot {m m' : Machine} (h : m.Alike m') (name : String) {v : Value}
    (hv : v.IsComputed) {serial serial' : ℕ} (hserial : serial = serial')
    (events events' : List Event) :
    Machine.Alike ⟨m.store.bind Store.root name v, m.frames, serial, events⟩
      ⟨m'.store.bind Store.root name v, m'.frames, serial', events'⟩ := by
  obtain ⟨bindings, hroot⟩ := h.orderly.root
  have hbound : ∀ {s : Store}, s.scopes[Store.root]? = some ⟨none, bindings⟩ →
      (s.bind Store.root name v).scopes[Store.root]? =
        some (Scope.bind ⟨none, bindings⟩ name v) := by
    intro s hs
    rw [Store.getElem?_bind, if_pos rfl, hs]
    rfl
  have hroot' := h.root.symm.trans hroot
  exact ⟨⟨Store.all_bind h.orderly.values _ name hv, h.orderly.arguments, _, hbound hroot⟩,
    ⟨Store.all_bind h.orderly'.values _ name hv, h.orderly'.arguments, _, hbound hroot'⟩,
    (hbound hroot).trans (hbound hroot').symm, h.frames, hserial⟩

/-- What is seen alike has the same value. -/
lemma Machine.Alike.lookup?_eq {m m' : Machine} (h : m.Alike m') {id id' : ScopeId}
    (hview : m.store.SeesAlike m'.store id id') (name : String) :
    m'.store.lookup? id' name = m.store.lookup? id name := by
  obtain ⟨bindings, hroot⟩ := h.orderly.root
  have hroot' := h.root.symm.trans hroot
  rcases hview with ⟨rfl, rfl⟩ | ⟨locals, hlocals, hlocals'⟩
  · rw [Store.lookup?_root hroot, Store.lookup?_root hroot']
  · rw [Store.lookup?_local hroot hlocals, Store.lookup?_local hroot' hlocals']

namespace Evaluation

variable {α β : Type}

/-- Two runs that end alike and leave all scopes as they found them. -/
structure Mirrored (P : α → Prop) (m m' : Machine) (r r' : Except Failure α × Machine) : Prop where
  outcome : r.1 = r'.1
  meets : Meets P (·.cause.IsOrdinary) r.1
  alike : r.2.Alike r'.2
  kept : m.store.KeptIn r.2.store
  kept' : m'.store.KeptIn r'.2.store
  nextSerial : r.2.nextSerial = m.nextSerial

/-- From machines that look alike, in scopes that see alike, the computations end alike. -/
def Mirrors (id id' : ScopeId) (P : α → Prop) (x x' : Eval α) : Prop :=
  ∀ m m', m.Alike m' → m.store.SeesAlike m'.store id id' → Mirrored P m m' (x m) (x' m')

namespace Mirrors

variable {id id' : ScopeId} {P : α → Prop} {Q : β → Prop}

lemma pure {a : α} (h : P a) : Mirrors id id' P (Pure.pure a) (Pure.pure a) :=
  fun _ _ halike _ => ⟨rfl, h, halike, .refl _, .refl _, rfl⟩

lemma fail {cause : Cause} (h : cause.IsOrdinary) :
    Mirrors id id' P (Evaluation.fail cause) (Evaluation.fail cause) :=
  fun _ _ halike _ => ⟨rfl, h, halike, .refl _, .refl _, rfl⟩

lemma of_settles {x : Eval α} (h : Settles P x) : Mirrors id id' P x x := by
  cases h with
  | pure ha => exact pure ha
  | fail hcause => exact fail hcause

lemma bind {x x' : Eval α} {f f' : α → Eval β} (hx : Mirrors id id' P x x')
    (hf : ∀ a, P a → Mirrors id id' Q (f a) (f' a)) :
    Mirrors id id' Q (x >>= f) (x' >>= f') := by
  intro m m' halike hview
  have hfirst := hx m m' halike hview
  rw [run_bind, run_bind]
  rcases hrun : x m with ⟨r, m₁⟩
  rcases hrun' : x' m' with ⟨r', m₁'⟩
  rw [hrun, hrun'] at hfirst
  obtain ⟨hsame, hmeets, halike₁, hkept, hkept', hserial⟩ := hfirst
  simp only at hsame hmeets halike₁ hkept hkept' hserial
  subst hsame
  cases r with
  | error e => exact ⟨rfl, hmeets, halike₁, hkept, hkept', hserial⟩
  | ok a =>
    have hsecond := hf a hmeets m₁ m₁' halike₁ (hview.mono hkept hkept')
    exact ⟨hsecond.outcome, hsecond.meets, hsecond.alike, hkept.trans hsecond.kept,
      hkept'.trans hsecond.kept', hsecond.nextSerial.trans hserial⟩

lemma claim {x x' : Eval α} (node : Node) (hx : Mirrors id id' P x x') :
    Mirrors id id' P (claim node x) (claim node x') := by
  intro m m' halike hview
  obtain ⟨hsame, hmeets, halike₁, hkept, hkept', hserial⟩ := hx m m' halike hview
  rw [run_claim, run_claim]
  refine ⟨congrArg (Except.mapError (claimedBy node)) hsame, ?_, halike₁, hkept, hkept', hserial⟩
  cases hr : (x m).1 with
  | ok a =>
    rw [hr] at hmeets
    exact hmeets
  | error failure =>
    rw [hr] at hmeets
    exact hmeets

/-- The steps that are noted do not count. -/
lemma note (event : Event) :
    Mirrors id id' (fun _ => True) (Evaluation.note event) (Evaluation.note event) := by
  intro m m' halike _
  obtain ⟨⟨hvalues, harguments, hroot⟩, ⟨hvalues', harguments', hroot'⟩, hsame, hframes, hserial⟩ :=
    halike
  exact ⟨rfl, trivial, ⟨⟨hvalues, harguments, hroot⟩, ⟨hvalues', harguments', hroot'⟩, hsame, hframes,
    hserial⟩, .refl _, .refl _, rfl⟩

lemma framed {frame : Frame} (hframe : ∀ v ∈ frame.args, v.IsComputed) {x x' : Eval α}
    (hx : Mirrors id id' P x x') : Mirrors id id' P (framed frame x) (framed frame x') := by
  intro m m' halike hview
  have hframes : ∀ f ∈ frame :: m.frames, ∀ v ∈ f.args, v.IsComputed :=
    forall_mem_cons.2 ⟨hframe, halike.orderly.arguments⟩
  have hrun := hx _ _ (halike.withFrames hframes) hview
  rw [run_framed, run_framed, ← halike.frames]
  generalize x { m with frames := frame :: m.frames } = out at hrun ⊢
  generalize x' { m' with frames := frame :: m.frames } = out' at hrun ⊢
  obtain ⟨r, m₁⟩ := out
  obtain ⟨r', m₁'⟩ := out'
  obtain ⟨hsame, hmeets, halike₁, hkept, hkept', hserial⟩ := hrun
  simp only at hsame hmeets halike₁ hkept hkept' hserial
  subst hsame
  cases r with
  | error e => exact ⟨rfl, hmeets, halike₁, hkept, hkept', hserial⟩
  | ok a =>
    have hdropped : ∀ f ∈ m₁.frames.drop 1, ∀ v ∈ f.args, v.IsComputed := fun f hf =>
      halike₁.orderly.arguments f (mem_of_mem_drop hf)
    refine ⟨rfl, hmeets, ?_, hkept, hkept', hserial⟩
    show Machine.Alike _ { m₁' with frames := m₁'.frames.drop 1 }
    rw [← halike₁.frames]
    exact halike₁.withFrames hdropped

end Mirrors

/-! ## Operators and names -/

variable {id id' : ScopeId} {depth : ℕ}

/-- A name has the value that is seen for it. -/
lemma lookup_mirrors (name : String) :
    Mirrors id id' Value.IsComputed
      (get >>= fun m => match m.store.lookup? id name with
        | some v => Pure.pure v
        | none => fail (.undefinedVariable name))
      (get >>= fun m => match m.store.lookup? id' name with
        | some v => Pure.pure v
        | none => fail (.undefinedVariable name)) := by
  intro m m' halike hview
  show Mirrored _ m m'
    ((match m.store.lookup? id name with
      | some v => (Pure.pure v : Eval Value)
      | none => fail (.undefinedVariable name)) m)
    ((match m'.store.lookup? id' name with
      | some v => (Pure.pure v : Eval Value)
      | none => fail (.undefinedVariable name)) m')
  rw [halike.lookup?_eq hview]
  cases hv : m.store.lookup? id name with
  | none => exact Mirrors.fail (.inl rfl) m m' halike hview
  | some v => exact Mirrors.pure (Store.of_lookup? halike.orderly.values hv) m m' halike hview

lemma applyLogical_mirrors (op : BinaryOperator) (decisive : Bool)
    {left left' right right' : Eval Value} (hleft : Mirrors id id' Value.IsComputed left left')
    (hright : Mirrors id id' Value.IsComputed right right') :
    Mirrors id id' Value.IsComputed (applyLogical op decisive left right)
      (applyLogical op decisive left' right') := by
  refine .bind hleft fun v hv => ?_
  cases v with
  | bool l =>
    show Mirrors id id' _ (ite (l == decisive) _ _) (ite (l == decisive) _ _)
    split
    · exact .pure trivial
    · refine .bind hright fun w hw => ?_
      cases w with
      | bool r => exact .pure trivial
      | _ => exact .of_settles (.mismatch _ (forall_mem_cons.2 ⟨hv, forall_mem_singleton.2 hw⟩))
  | _ => exact .of_settles (.mismatch _ (forall_mem_singleton.2 hv))

/-! ## Calls -/

/-- Computed values of the arguments of a call. -/
def AreComputed (args : List Value × List (String × Value)) : Prop :=
  (∀ v ∈ args.1, v.IsComputed) ∧ ∀ entry ∈ args.2, entry.2.IsComputed

lemma evalArguments_mirrors {value value' : Node → Eval Value}
    (hvalue : ∀ arg, arg.IsExpression → Mirrors id id' Value.IsComputed (value arg) (value' arg))
    (function : String) {args : List Node} (hargs : Node.AreArguments args)
    {positional : List Value} {named : List (String × Value)}
    (hcomputed : AreComputed (positional, named)) :
    Mirrors id id' AreComputed (evalArguments value function args positional named)
      (evalArguments value' function args positional named) := by
  obtain ⟨hpositional, hnamed⟩ := hcomputed
  induction args generalizing positional named with
  | nil => exact .pure ⟨hpositional, hnamed⟩
  | cons arg rest ih =>
    by_cases hkeyword : ∃ loc name e, arg = .keyword loc name e
    · obtain ⟨loc, name, e, rfl⟩ := hkeyword
      cases htaken : named.any (·.1 == name) with
      | true =>
        rw [evalArguments_keyword_twice loc name e htaken,
          evalArguments_keyword_twice loc name e htaken]
        exact .fail (.inl rfl)
      | false =>
        rw [evalArguments_keyword loc name e htaken, evalArguments_keyword loc name e htaken]
        refine .bind (hvalue e hargs.1) fun v hv => ih hargs.2 hpositional ?_
        exact forall_mem_append.2 ⟨hnamed, forall_mem_singleton.2 hv⟩
    · have harg : ∀ loc name e, arg ≠ .keyword loc name e := fun loc name e heq =>
        hkeyword ⟨loc, name, e, heq⟩
      obtain ⟨hexpr, hrest⟩ := (Node.areArguments_cons harg).1 hargs
      rw [evalArguments_positional harg, evalArguments_positional harg]
      refine .bind (hvalue arg hexpr) fun v hv => ih hrest ?_ hnamed
      exact forall_mem_append.2 ⟨hpositional, forall_mem_singleton.2 hv⟩

section

variable {body : Node → ScopeId → Eval Value}
  (hbody : ∀ node id id', node.IsExpression →
    Mirrors id id' Value.IsComputed (body node id) (body node id'))

include hbody

/-- The body of a function runs in a new scope right inside the first one, and that scope is
forgotten when the call is over. -/
lemma call_user_mirrors {f : UserFunction} (hf : (Function.user f).IsComputed) {slots : List Value}
    (hslots : ∀ v ∈ slots, v.IsComputed) :
    Mirrors id id' Value.IsComputed (call body (.user f) slots) (call body (.user f) slots) := by
  refine .bind (.note _) fun _ _ m m' halike hview => ?_
  obtain ⟨hexpr, hscope⟩ := hf
  have hnew : ∀ entry ∈ f.params.zip slots, entry.2.IsComputed := fun entry hentry =>
    hslots _ (of_mem_zip hentry).2
  have hkept := m.store.keptIn_push ⟨some f.scope, f.params.zip slots⟩
  have hkept' := m'.store.keptIn_push ⟨some f.scope, f.params.zip slots⟩
  obtain ⟨bindings, hroot⟩ := halike.orderly.root
  have hroot' := halike.root.symm.trans hroot
  have halike₁ : Machine.Alike
      { m with store := (m.store.push ⟨some f.scope, f.params.zip slots⟩).2 }
      { m' with store := (m'.store.push ⟨some f.scope, f.params.zip slots⟩).2 } :=
    ⟨⟨Store.all_push halike.orderly.values hnew, halike.orderly.arguments,
        bindings, hkept _ _ hroot⟩,
      ⟨Store.all_push halike.orderly'.values hnew, halike.orderly'.arguments,
        bindings, hkept' _ _ hroot'⟩,
      (hkept _ _ hroot).trans (hkept' _ _ hroot').symm, halike.frames, halike.nextSerial⟩
  have hrun := hbody f.body _ _ hexpr _ _ halike₁ (.inr ⟨f.params.zip slots, by
    rw [← hscope]
    exact ⟨Store.getElem?_push_self _ _, Store.getElem?_push_self _ _⟩⟩)
  exact ⟨hrun.outcome, hrun.meets, hrun.alike, hkept.trans hrun.kept, hkept'.trans hrun.kept',
    hrun.nextSerial⟩

lemma invoke_mirrors {f : Function} (hf : f.IsComputed) {positional : List Value}
    {named : List (String × Value)} (hcomputed : AreComputed (positional, named)) :
    Mirrors id id' Value.IsComputed (invoke body f positional named)
      (invoke body f positional named) := by
  obtain ⟨hpositional, hnamed⟩ := hcomputed
  have hbind := f.bind_meets hpositional hnamed
  cases h : f.bind positional named with
  | error e =>
    rw [h] at hbind
    rw [invoke_of_error h]
    exact .fail (Cause.isOrdinary_ofBindError f.name hbind)
  | ok slots =>
    rw [h] at hbind
    have hslots := Function.isComputed_of_fits hbind
    by_cases hpromotes : Promotes f slots
    · obtain ⟨⟨g, rfl⟩, hsound⟩ := hpromotes
      rw [invoke_promoted h hsound]
      exact .bind (.note _) fun _ _ => .pure (isBuilt_promoted hpositional hnamed h hsound)
    · rw [invoke_framed h hpromotes]
      refine .framed hslots ?_
      cases f with
      | real g => exact .bind (.note _) fun _ _ => .pure trivial
      | constructor c => exact .bind (.note _) fun _ _ => .pure (isComputed_construct hbind)
      | user f => exact call_user_mirrors hbody hf hslots

end

/-! ## Expressions -/

/-- **Expressions are evaluated alike.**  From machines that look alike, in scopes that see alike,
the evaluations of an expression end with the same value or the same failure, in machines that look
alike, and every scope that existed before is left as it was. -/
theorem evalWithin_mirrors (depth : ℕ) {node : Node} (hnode : node.IsExpression)
    (id id' : ScopeId) :
    Mirrors id id' Value.IsComputed (evalWithin depth node id) (evalWithin depth node id') := by
  induction depth generalizing node id id' with
  | zero => exact .fail (.inr rfl)
  | succ depth ih =>
    cases node with
    | number | string => exact .claim _ (.pure trivial)
    | identifier loc name => exact .claim _ (lookup_mirrors name)
    | unary loc op operand =>
      exact .claim _ (.bind (ih hnode.2 id id') fun v hv => .of_settles (applyUnary_settles hv op))
    | binary loc op left right =>
      obtain ⟨-, hleft, hright⟩ := hnode
      by_cases hand : op = .and
      · subst hand
        exact .claim _ (applyLogical_mirrors _ _ (ih hleft id id') (ih hright id id'))
      · by_cases hor : op = .or
        · subst hor
          exact .claim _ (applyLogical_mirrors _ _ (ih hleft id id') (ih hright id id'))
        · rw [evalWithin_binary hand hor, evalWithin_binary hand hor]
          refine .claim _ (.bind (ih hleft id id') fun v hv => .bind (ih hright id id') fun w hw => ?_)
          exact .of_settles (applyBinary_settles hv hw op)
    | invocation loc callee args =>
      refine .claim _ (.bind (ih hnode.1 id id') fun v hv => ?_)
      cases v with
      | function f =>
        have hargs := evalArguments_mirrors (fun arg harg => ih harg id id') f.name hnode.2
          (⟨forall_mem_nil _, forall_mem_nil _⟩ : AreComputed ([], []))
        exact .bind hargs fun args hcomputed =>
          invoke_mirrors (fun node id id' hnode => ih hnode id id') hv hcomputed
      | _ =>
        refine .of_settles (.fail ?_)
        rw [Cause.naming_eq (forall_mem_singleton.2 hv)]
        exact .inl rfl
    | empty loc => exact .claim _ (.fail (.inl rfl))
    | keyword | assignment | definition | block | missing => exact hnode.elim

end Evaluation

end SignalCalc
