import SignalCalc.Proofs.Call.Checked
import SignalCalc.Proofs.Evaluation.StoreMap
import SignalCalc.Proofs.Evaluation.UnderWay
import SignalCalc.Proofs.Syntax.Parts

/-!
# Conditions that last

Texts and functions of a program come from the nodes that are evaluated: a string is a literal or two
strings joined, and the body of a function stands in its definition.  No other value holds either.  So a
condition on values lasts if literals meet it, joining keeps it, and functions meet it by their bodies
(`Lasting`).

`Lasting.evalWithin` says that evaluation keeps such a condition: if all names in scope have values that
meet it, they do afterwards, the result meets it, and a failure is reported at a node that was evaluated.
`UnderWay.isKept` says the same of everything that is evaluated on the way.
-/

namespace SignalCalc

open SignalCalc.Builtin
open SignalCalc.Call
open SignalCalc.Signal
open SignalCalc.Syntax
open List

variable {N : Node → Prop} {V : Value → Prop}

namespace Syntax.Node

/-- All parts of the tree are among some nodes. -/
def IsWithin (N : Node → Prop) (node : Node) : Prop := ∀ part ∈ node.parts, N part

lemma IsWithin.self {node : Node} (h : node.IsWithin N) : N node := h node node.self_mem_parts

lemma isWithin_of_mem {nodes : List Node} (h : ∀ part ∈ partsOf nodes, N part) {node : Node}
    (hnode : node ∈ nodes) : node.IsWithin N :=
  fun part hpart => h part (mem_partsOf.2 ⟨node, hnode, hpart⟩)

lemma IsWithin.statement {statements : List Node} (h : (block statements).IsWithin N) {node : Node}
    (hnode : node ∈ statements) : node.IsWithin N :=
  isWithin_of_mem (fun part hpart => h part (mem_cons_of_mem _ hpart)) hnode

section

variable {loc : Option Location}

lemma IsWithin.operand {op : UnaryOperator} {e : Node} (h : (unary loc op e).IsWithin N) :
    e.IsWithin N :=
  fun part hpart => h part (mem_cons_of_mem _ hpart)

lemma IsWithin.left {op : BinaryOperator} {left right : Node}
    (h : (binary loc op left right).IsWithin N) : left.IsWithin N :=
  fun part hpart => h part (mem_cons_of_mem _ (mem_append_left _ hpart))

lemma IsWithin.right {op : BinaryOperator} {left right : Node}
    (h : (binary loc op left right).IsWithin N) : right.IsWithin N :=
  fun part hpart => h part (mem_cons_of_mem _ (mem_append_right _ hpart))

lemma IsWithin.callee {callee : Node} {args : List Node}
    (h : (invocation loc callee args).IsWithin N) : callee.IsWithin N :=
  fun part hpart => h part (mem_cons_of_mem _ (mem_append_left _ hpart))

lemma IsWithin.argument {callee : Node} {args : List Node}
    (h : (invocation loc callee args).IsWithin N) {arg : Node} (harg : arg ∈ args) :
    arg.IsWithin N :=
  isWithin_of_mem (fun part hpart => h part (mem_cons_of_mem _ (mem_append_right _ hpart))) harg

lemma IsWithin.keyword {name : String} {e : Node} (h : (keyword loc name e).IsWithin N) :
    e.IsWithin N :=
  fun part hpart => h part (mem_cons_of_mem _ hpart)

lemma IsWithin.assigned {name : String} {e : Node} (h : (assignment loc name e).IsWithin N) :
    e.IsWithin N :=
  fun part hpart => h part (mem_cons_of_mem _ hpart)

lemma IsWithin.body {name : String} {params : List String} {body : Node}
    (h : (definition loc name params body).IsWithin N) : body.IsWithin N :=
  fun part hpart => h part (mem_cons_of_mem _ hpart)

end

end Syntax.Node

/-- The value holds neither text nor code of a program. -/
def Value.IsInert : Value → Prop
  | .string _ | .function (.user _) => False
  | _ => True

/-- The value is a number. -/
def Value.IsNumber : Value → Prop
  | .real _ | .whole _ => True
  | _ => False

lemma Value.IsNumber.isInert {v : Value} (h : v.IsNumber) : v.IsInert := by
  cases v with
  | real | whole => trivial
  | _ => exact h.elim

/-! ## Slots -/

lemma Value.eq_or_isInert_of_accept {v w : Value} {kind : Kind} (h : v.accept kind = .ok w) :
    w = v ∨ w.IsInert := by
  unfold accept at h
  split at h
  case h_1 | h_5 | h_6 =>
    obtain rfl := Except.ok.inj h
    exact .inl rfl
  case h_2 =>
    obtain rfl := Except.ok.inj h
    exact .inr trivial
  case h_3 | h_4 =>
    split at h
    case h_1 =>
      obtain rfl := Except.ok.inj h
      exact .inr trivial
    all_goals cases h
  case h_7 => cases h

lemma Value.eq_or_isInert_of_acceptReal {v w : Value} {kind : Kind}
    (h : v.acceptReal kind = .ok w) : w = v ∨ w.IsInert := by
  unfold acceptReal at h
  split at h
  · cases h
    exact .inl rfl
  · exact eq_or_isInert_of_accept h

namespace Function

/-- A slot holds the argument, or a number or a sound that was made of it. -/
lemma eq_or_isInert_of_accept (f : Function) {v w : Value} {kind : Kind}
    (h : f.accept kind v = .ok w) : w = v ∨ w.IsInert := by
  cases f with
  | real => exact Value.eq_or_isInert_of_acceptReal h
  | constructor | user => exact Value.eq_or_isInert_of_accept h

lemma isInert_default (f : Function) {p : Parameter Value} (hp : p ∈ f.signature.params) {v : Value}
    (h : p.default = some v) : v.IsInert := by
  cases f with
  | real | user =>
    obtain ⟨name, -, rfl⟩ := mem_map.1 hp
    cases h
  | constructor c =>
    have hstart : v = .real 0.0 := by
      simp only [signature] at hp
      cases c <;> simp only [Constructor.parameters, mem_cons, not_mem_nil, or_false] at hp
      all_goals grind
    exact hstart ▸ trivial

end Function

/-- All values that were given to a call meet a condition. -/
def AreGiven (V : Value → Prop) (arguments : List Value × List (String × Value)) : Prop :=
  (∀ v ∈ arguments.1, V v) ∧ ∀ entry ∈ arguments.2, V entry.2

namespace Evaluation

/-- A condition on values that no rule of the language leads out of, if it starts from these nodes. -/
structure Lasting (N : Node → Prop) (V : Value → Prop) : Prop where
  inert {v : Value} : v.IsInert → V v
  literal {loc : Option Location} {text : String} : N (.string loc text) → V (.string text)
  append {a b : String} : V (.string a) → V (.string b) → V (.string (a ++ b))
  user {f : UserFunction} : V (.function (.user f)) ↔ f.body.IsWithin N

variable {α β : Type} {P : α → Prop} {Q : β → Prop}

/-- A computation that starts with values that meet a condition ends so: all names have such values, its
result is good, and a failure is reported at one of the nodes. -/
def Keeps (N : Node → Prop) (V : Value → Prop) (P : α → Prop) (x : Eval α) : Prop :=
  ∀ m, m.store.All V →
    (x m).2.store.All V ∧ Meets P (fun failure => ∀ node ∈ failure.node, N node) (x m).1

namespace Keeps

lemma pure {a : α} (h : P a) : Keeps N V P (Pure.pure a) := fun _ hm => ⟨hm, h⟩

lemma fail (cause : Cause) : Keeps N V P (Evaluation.fail cause) :=
  fun _ hm => ⟨hm, fun _ hnode => by cases hnode⟩

lemma exactly {r : Except TooLarge α} (h : ∀ a, r = .ok a → P a) :
    Keeps N V P (Evaluation.exactly r) := by
  cases r with
  | ok a => exact pure (h a rfl)
  | error e => exact fail _

lemma modifyGet {f : Machine → α × Machine}
    (h : ∀ m, m.store.All V → (f m).2.store.All V ∧ P (f m).1) :
    Keeps N V P (MonadStateOf.modifyGet f) := h

lemma note (event : Event) : Keeps N V (fun _ => True) (Evaluation.note event) :=
  fun _ hm => ⟨hm, trivial⟩

lemma bind {x : Eval α} {f : α → Eval β} (hx : Keeps N V P x)
    (hf : ∀ a, P a → Keeps N V Q (f a)) : Keeps N V Q (x >>= f) := by
  intro m hm
  have hx := hx m hm
  rw [run_bind]
  generalize x m = run at hx ⊢
  obtain ⟨failure | a, m₁⟩ := run
  · exact hx
  · exact hf a hx.2 m₁ hx.1

lemma claim {x : Eval α} {node : Node} (hnode : N node) (hx : Keeps N V P x) :
    Keeps N V P (Evaluation.claim node x) := by
  intro m hm
  rw [run_claim]
  have hx := hx m hm
  generalize x m = run at hx ⊢
  obtain ⟨failure | a, m₁⟩ := run
  · refine ⟨hx.1, fun e (he : (claimedBy node failure).node = some e) => ?_⟩
    simp only [claimedBy] at he
    split at he
    · rcases Option.or_eq_some_iff.1 he with hinner | ⟨-, houter⟩
      · exact hx.2 e hinner
      · exact Option.some.inj houter ▸ hnode
    · exact hx.2 e he
  · exact hx

lemma framed {x : Eval α} (frame : Frame) (hx : Keeps N V P x) :
    Keeps N V P (Evaluation.framed frame x) := by
  intro m hm
  have hx := hx { m with frames := frame :: m.frames } hm
  rw [run_framed]
  generalize x { m with frames := frame :: m.frames } = run at hx ⊢
  obtain ⟨failure | a, m₁⟩ := run
  · exact hx
  · exact hx

/-- What a computation has done when it has a value. -/
lemma of_ok {x : Eval α} (h : Keeps N V P x) {m m₁ : Machine} {a : α} (hm : m.store.All V)
    (hrun : x m = (.ok a, m₁)) : m₁.store.All V ∧ P a := by
  have hx := h m hm
  rwa [hrun] at hx

lemma applyEquality (op : BinaryOperator) (v w : Value) :
    Keeps N V (fun _ => True) (Evaluation.applyEquality op v w) := by
  unfold Evaluation.applyEquality
  split
  · exact .exactly fun _ _ => trivial
  · split
    · exact .pure trivial
    · exact .pure trivial
    · exact .fail _

lemma evalArguments {value : Node → Eval Value}
    (hvalue : ∀ arg, arg.IsWithin N → Keeps N V V (value arg)) (function : String)
    {args : List Node} (hargs : ∀ arg ∈ args, arg.IsWithin N) {positional : List Value}
    {named : List (String × Value)} (h : AreGiven V (positional, named)) :
    Keeps N V (AreGiven V)
      (Evaluation.evalArguments value function args positional named) := by
  induction args generalizing positional named with
  | nil => exact .pure h
  | cons arg rest ih =>
    obtain ⟨harg, hrest⟩ := forall_mem_cons.1 hargs
    by_cases hkeyword : ∃ loc name v, arg = .keyword loc name v
    · obtain ⟨loc, name, v, rfl⟩ := hkeyword
      cases hname : named.any (·.1 == name) with
      | true =>
        rw [evalArguments_keyword_twice loc name v hname]
        exact .fail _
      | false =>
        rw [evalArguments_keyword loc name v hname]
        refine (hvalue v harg.keyword).bind fun w hw => ih hrest ⟨h.1, ?_⟩
        exact forall_mem_append.2 ⟨h.2, forall_mem_singleton.2 hw⟩
    · have hplain : ∀ loc name v, arg ≠ .keyword loc name v := fun loc name v h =>
        hkeyword ⟨loc, name, v, h⟩
      rw [evalArguments_positional hplain]
      refine (hvalue arg harg).bind fun w hw => ih hrest ⟨?_, h.2⟩
      exact forall_mem_append.2 ⟨h.1, forall_mem_singleton.2 hw⟩

lemma evalStatements {value : Node → Eval Value}
    (hvalue : ∀ e, e.IsWithin N → Keeps N V V (value e)) {statements : List Node}
    (hstatements : ∀ statement ∈ statements, statement.IsWithin N) {last : Value} (hlast : V last) :
    Keeps N V V (Evaluation.evalStatements value statements last) := by
  induction statements generalizing last with
  | nil => exact .pure hlast
  | cons statement rest ih =>
    obtain ⟨hfirst, hrest⟩ := forall_mem_cons.1 hstatements
    exact (hvalue statement hfirst).bind fun v hv => ih hrest hv

lemma assign (scope : ScopeId) (name : String) {v : Value} (hv : V v) :
    Keeps N V (fun _ => True) (Evaluation.assign scope name v) :=
  .modifyGet fun _ hm => ⟨Store.all_bind hm scope name hv, trivial⟩

end Keeps

/-! ## Numbers -/

lemma isNumber_of_map_real {x : Except TooLarge Float} {u : Value} (h : Value.real <$> x = .ok u) :
    u.IsNumber := by
  cases x with
  | error e => cases h
  | ok x =>
    obtain rfl := Except.ok.inj h
    exact trivial

lemma isNumber_wholeArithmetic {op : Operator} {a b : ℤ} {u : Value}
    (h : Value.wholeArithmetic op a b = .ok u) : u.IsNumber := by
  cases op with
  | add | sub | mul =>
    obtain rfl := Except.ok.inj h
    exact trivial
  | div | pow => exact isNumber_of_map_real h

/-- Numbers are made into numbers. -/
lemma isNumber_arithmetic {op : Operator} {v w u : Value}
    (h : Value.arithmetic? op v w = some (.ok u)) : u.IsNumber := by
  unfold Value.arithmetic? at h
  split at h
  case h_1 =>
    obtain rfl := Except.ok.inj (Option.some.inj h)
    exact trivial
  case h_2 => exact isNumber_wholeArithmetic (Option.some.inj h)
  case h_3 x n =>
    have h := Option.some.inj h
    split at h
    · exact isNumber_of_map_real h
    · cases hfloat : Value.floatOf n with
      | error e =>
        rw [hfloat] at h
        cases h
      | ok y =>
        rw [hfloat] at h
        obtain rfl := Except.ok.inj h
        exact trivial
  case h_4 =>
    have h := Option.some.inj h
    split at h
    · obtain rfl := Except.ok.inj h
      exact trivial
    · exact isNumber_of_map_real h
    · cases h
  case h_5 => cases h

lemma isInert_construct (c : Constructor) (slots : List Value) : (construct c slots).IsInert := by
  unfold construct
  split <;> exact trivial

namespace Lasting

variable (hV : Lasting N V)

include hV

/-- The slots of a call hold nothing that was not among its arguments. -/
lemma slots {f : Function} {positional slots : List Value} {named : List (String × Value)}
    (h : AreGiven V (positional, named)) (hbind : f.bind positional named = .ok slots) :
    ∀ v ∈ slots, V v := by
  -- The call is compared with itself: only what the parameters make of the values matters.
  let R (v w : Value) : Prop := V v ∧ w = v
  have hparams : Forall₂ (Parameter.Related R) f.signature.params f.signature.params := by
    refine forall₂_same.2 fun p hp => ⟨rfl, rfl, ?_⟩
    cases hdefault : p.default with
    | none => exact .none
    | some v => exact .some ⟨hV.inert (f.isInert_default hp hdefault), rfl⟩
  have haccept : ∀ p ∈ f.signature.params, ∀ v w, R v w →
      Leads (fun v _ => V v) (f.accept p.kind v) (f.accept p.kind w) := by
    rintro p - v _ ⟨hv, rfl⟩ w hw
    refine ⟨w, hw, ?_⟩
    rcases f.eq_or_isInert_of_accept hw with rfl | hinert
    · exact hv
    · exact hV.inert hinert
  obtain ⟨_, -, hslots⟩ := Signature.bind_of_related hparams haccept
    (forall₂_same.2 fun v hv => ⟨h.1 v hv, rfl⟩)
    (forall₂_same.2 fun entry hentry => ⟨rfl, h.2 entry hentry, rfl⟩) slots hbind
  intro v hv
  obtain ⟨i, hi, rfl⟩ := getElem_of_mem hv
  exact hslots.get hi (hslots.length_eq ▸ hi)

/-! ## Operators -/

section Operators

variable {v w : Value} (hv : V v) (hw : V w)

include hv hw

lemma applyArithmetic (op : Operator) :
    Keeps N V V (Evaluation.applyArithmetic op v w) := by
  unfold Evaluation.applyArithmetic
  split
  · rename_i r hr
    exact .exactly fun a ha => hV.inert (isNumber_arithmetic (hr.trans (congrArg some ha))).isInert
  · split
    · exact .bind (P := fun _ => True) (.exactly fun _ _ => trivial) fun l _ =>
        .bind (P := fun _ => True) (.exactly fun _ _ => trivial) fun r _ => .pure (hV.inert trivial)
    · exact .pure (hV.append hv hw)
    · exact .fail _

lemma applyBinary (op : BinaryOperator) :
    Keeps N V V (Evaluation.applyBinary op v w) := by
  cases op with
  | arithmetic op => exact hV.applyArithmetic hv hw op
  | equal | unequal => exact (Keeps.applyEquality _ v w).bind fun b _ => .pure (hV.inert trivial)
  | less | greater =>
    simp only [Evaluation.applyBinary]
    split
    · exact .pure (hV.inert trivial)
    · exact .fail _
  | and | or | other _ => exact .fail _

omit hv hw in
lemma applyUnary (op : UnaryOperator) (v : Value) :
    Keeps N V V (Evaluation.applyUnary op v) := by
  unfold Evaluation.applyUnary
  split
  case h_8 =>
    exact .bind (P := fun _ => True) (.exactly fun _ _ => trivial) fun x _ => .pure (hV.inert trivial)
  case h_11 => exact .fail _
  all_goals exact .pure (hV.inert trivial)

end Operators

lemma applyLogical (op : BinaryOperator) (decisive : Bool) {left right : Eval Value}
    (hleft : Keeps N V V left) (hright : Keeps N V V right) :
    Keeps N V V (Evaluation.applyLogical op decisive left right) := by
  refine hleft.bind fun l _ => ?_
  split
  · split
    · exact .pure (hV.inert trivial)
    · refine hright.bind fun r _ => ?_
      split
      · exact .pure (hV.inert trivial)
      · exact .fail _
  · exact .fail _

/-! ## Functions -/

section

variable {body : Node → ScopeId → Eval Value}
  (hbody : ∀ node scope, node.IsWithin N → Keeps N V V (body node scope))

include hbody

lemma call {f : Function} (hf : V (.function f)) {slots : List Value} (hslots : ∀ v ∈ slots, V v) :
    Keeps N V V (Evaluation.call body f slots) := by
  refine (Keeps.note _).bind fun _ _ => ?_
  cases f with
  | real f => exact .pure (hV.inert trivial)
  | constructor c => exact .pure (hV.inert (isInert_construct c slots))
  | user f =>
    refine Keeps.bind (P := fun _ => True) (.modifyGet fun m hm => ⟨?_, trivial⟩)
      fun scope _ => hbody f.body scope (hV.user.1 hf)
    exact Store.all_push hm fun entry hentry => hslots _ (of_mem_zip hentry).2

lemma invoke {f : Function} (hf : V (.function f)) {positional : List Value}
    {named : List (String × Value)} (hgiven : AreGiven V (positional, named)) :
    Keeps N V V (Evaluation.invoke body f positional named) := by
  cases h : f.bind positional named with
  | error e =>
    rw [invoke_of_error h]
    exact .fail _
  | ok slots =>
    by_cases hpromotes : Promotes f slots
    · obtain ⟨⟨g, rfl⟩, hsound⟩ := hpromotes
      rw [invoke_promoted h hsound]
      exact (Keeps.note _).bind fun _ _ => .pure (hV.inert trivial)
    · rw [invoke_framed h hpromotes]
      exact .framed _ (hV.call hbody hf (hV.slots hgiven h))

end

lemma define (scope : ScopeId) (name : String) (params : List String) {body : Node}
    (hbody : body.IsWithin N) :
    Keeps N V (fun f => V (.function f)) (Evaluation.define scope name params body) := by
  unfold Evaluation.define
  split
  · exact .fail _
  · exact .modifyGet fun _ hm => ⟨hm, hV.user.2 hbody⟩

/-! ## Nodes -/

/-- **Evaluation keeps a condition that lasts.**  If all parts of the node are among some nodes, and the
names in scope have values that meet the condition, then so do the names in scope afterwards and the
result, and a failure is reported at one of these nodes. -/
theorem evalWithin (depth : ℕ) {node : Node} (hnode : node.IsWithin N) (scope : ScopeId) :
    Keeps N V V (Evaluation.evalWithin depth node scope) := by
  induction depth generalizing node scope with
  | zero => exact .fail _
  | succ depth ih =>
    cases node with
    | number => exact .claim hnode.self (.pure (hV.inert trivial))
    | string => exact .claim hnode.self (.pure (hV.literal hnode.self))
    | identifier loc name =>
      refine .claim hnode.self (.bind (P := fun m : Machine => m.store.All V)
        (.modifyGet fun _ hm => ⟨hm, hm⟩) fun m hm => ?_)
      split
      · exact .pure (Store.of_lookup? hm ‹_›)
      · exact .fail _
    | unary loc op operand =>
      exact .claim hnode.self ((ih hnode.operand scope).bind fun v _ => hV.applyUnary op v)
    | binary loc op left right =>
      have hleft := ih hnode.left scope
      have hright := ih hnode.right scope
      by_cases hand : op = .and
      · subst hand
        exact .claim hnode.self (hV.applyLogical _ _ hleft hright)
      · by_cases hor : op = .or
        · subst hor
          exact .claim hnode.self (hV.applyLogical _ _ hleft hright)
        · rw [evalWithin_binary hand hor]
          exact .claim hnode.self (hleft.bind fun l hl => hright.bind fun r hr =>
            hV.applyBinary hl hr op)
    | invocation loc callee args =>
      refine .claim hnode.self ((ih hnode.callee scope).bind fun v hv => ?_)
      split
      · exact (Keeps.evalArguments (fun arg harg => ih harg scope) _ (fun _ => hnode.argument)
          ⟨forall_mem_nil _, forall_mem_nil _⟩).bind fun arguments harguments =>
            hV.invoke (fun node scope hnode => ih hnode scope) hv harguments
      · exact .fail _
    | assignment loc name value =>
      exact .claim hnode.self ((ih hnode.assigned scope).bind fun v hv =>
        (Keeps.assign scope name hv).bind fun _ _ =>
          (Keeps.note _).bind fun _ _ => .pure hv)
    | definition loc name params body =>
      exact .claim hnode.self ((hV.define scope name params hnode.body).bind fun f hf =>
        (Keeps.assign scope name hf).bind fun _ _ =>
          (Keeps.note _).bind fun _ _ => .pure hf)
    | block statements =>
      exact .claim hnode.self (Keeps.evalStatements (fun e he => ih he scope)
        (fun _ => hnode.statement) (hV.inert trivial))
    | empty | keyword | missing => exact .claim hnode.self (.fail _)

end Lasting

/-! ## Everything that is evaluated on the way -/

/-- A task among some nodes, with values in scope that meet a condition. -/
structure Task.IsKept (N : Node → Prop) (V : Value → Prop) (t : Task) : Prop where
  node : t.node.IsWithin N
  store : t.machine.store.All V

section

variable {depth : ℕ} {scope : ScopeId} {m m' : Machine} {hole : Hole} {e : Node} {t t' u : Task}

lemma Hole.isWithin_of_fill (h : (hole.fill e).IsWithin N) : e.IsWithin N := by
  cases hole with
  | operand loc op => exact h.operand
  | left loc op right => exact h.left
  | right loc op left => exact h.right
  | callee loc args => exact h.callee
  | argument loc callee before label after =>
    have harg : (labelled label e).IsWithin N := h.argument (mem_append_right _ mem_cons_self)
    cases label with
    | none => exact harg
    | some label => exact harg.keyword
  | assigned loc name => exact h.assigned
  | statement before after => exact h.statement (mem_append_right _ mem_cons_self)

/-- The parts in front of one keep the condition. -/
lemma Hole.IsNext.keeps (hV : Lasting N V) (h : hole.IsNext depth scope m m')
    (hnode : (hole.fill e).IsWithin N) (hm : m.store.All V) : m'.store.All V := by
  cases h with
  | operand | left | callee | assigned => exact hm
  | right hleft _ => exact ((hV.evalWithin depth hnode.left scope).of_ok hm hleft).1
  | argument hcallee hbefore _ =>
    have hm' := ((hV.evalWithin depth hnode.callee scope).of_ok hm hcallee).1
    exact ((Keeps.evalArguments (fun arg harg => hV.evalWithin depth harg scope) _
      (fun _ harg => hnode.argument (mem_append_left _ harg))
      ⟨forall_mem_nil _, forall_mem_nil _⟩).of_ok hm' hbefore).1
  | statement hbefore =>
    exact ((Keeps.evalStatements (fun e he => hV.evalWithin depth he scope)
      (fun _ he => hnode.statement (mem_append_left _ he))
      (hV.inert (v := .nothing) trivial)).of_ok hm hbefore).1

/-- So do a callee and the arguments of a call, and the call starts with slots that meet it. -/
lemma Task.Enters.isKept (hV : Lasting N V) {call : UserFunction × List Value}
    (h : t.Enters call t') (ht : t.IsKept N V) : t'.IsKept N V ∧ ∀ v ∈ call.2, V v := by
  cases h with
  | @call depth loc callee args scope f slots given m m' m'' hcallee hargs hbind =>
    obtain ⟨hnode, hm⟩ := ht
    obtain ⟨hm', hf⟩ := (hV.evalWithin depth hnode.callee scope).of_ok hm hcallee
    obtain ⟨hm'', hgiven⟩ := (Keeps.evalArguments (fun arg harg => hV.evalWithin depth harg scope) _
      (fun _ => hnode.argument) ⟨forall_mem_nil _, forall_mem_nil _⟩).of_ok hm' hargs
    have hslots := hV.slots hgiven hbind
    refine ⟨⟨hV.user.1 hf, Store.all_push hm'' fun entry hentry => ?_⟩, hslots⟩
    exact hslots _ (of_mem_zip hentry).2

/-- **A condition that lasts is met all the way.**  Whatever is under way while a task is run, its node
and the bodies of functions in scope stand among the nodes of the task, and the values in scope and those
that calls started with meet the condition. -/
theorem UnderWay.isKept (hV : Lasting N V) {calls : List (UserFunction × List Value)}
    (h : UnderWay t calls u) (ht : t.IsKept N V) :
    u.IsKept N V ∧ ∀ call ∈ calls, ∀ v ∈ call.2, V v := by
  induction h with
  | here t => exact ⟨ht, forall_mem_nil _⟩
  | part hnext _ _ ih => exact ih ⟨Hole.isWithin_of_fill ht.node, hnext.keeps hV ht.node ht.store⟩
  | body henters _ ih =>
    obtain ⟨ht', hslots⟩ := henters.isKept hV ht
    obtain ⟨hu, hcalls⟩ := ih ht'
    exact ⟨hu, forall_mem_cons.2 ⟨hslots, hcalls⟩⟩

end

end Evaluation

end SignalCalc
