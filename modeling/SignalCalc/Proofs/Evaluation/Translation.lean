import SignalCalc.Proofs.Call.Related
import SignalCalc.Proofs.Evaluation.Steps
import SignalCalc.Proofs.Evaluation.StoreMap
import SignalCalc.Proofs.Syntax.Expression

/-!
# Translations of sounds

A `Translation` puts a value in the place of every sound: a sample of it, say, or the same sound at
another time.  It is lawful if operators and promoted calls on the images give the image of the
bigger sound that they build on the sounds themselves.

`evalWithin_translates` is the fundamental theorem: evaluating an expression after a lawful
translation of all values in scope gives the translation of its value.  The relation between the
two evaluations is `Translates`: where the first one succeeds, and calls no constructor on the way,
the second one succeeds with the related result, and their stores stay related.

Constructors are left out because they can take a sound apart: the translation of a moved sound is
not the translation of the sound, moved.
-/

namespace SignalCalc

open SignalCalc.Builtin
open SignalCalc.Call
open SignalCalc.Signal
open SignalCalc.Syntax

namespace Evaluation

/-! ## Translations -/

/-- A value for every sound of some kind. -/
structure Translation where
  /-- The sounds that are translated. -/
  Admits : Sound Float → Prop
  /-- The value that stands for a sound. -/
  image : Sound Float → Value

namespace Translation

variable (T : Translation)

/-- The value after the translation. -/
def value : Value → Value
  | .sound s => T.image s
  | v => v

/-- The values that are translated.  Functions of a program stay as they are and see the translated
values in their scopes. -/
def AdmitsValue : Value → Prop
  | .sound s => T.Admits s
  | .function (.user f) => f.body.IsExpression
  | .whole _ => False
  | .nothing => False
  | .list _ => False
  | _ => True

/-- A value and its translation. -/
def Rel (v w : Value) : Prop := T.AdmitsValue v ∧ w = T.value v

/-- A number or a sound as the sound that an operator makes of it. -/
inductive Operand : Value → Sound Float → Prop where
  | real (x : Float) : Operand (.real x) (.const x)
  | sound {s : Sound Float} : T.Admits s → Operand (.sound s) s

/-- What is computed with images is the image of what is built from the sounds. -/
structure Lawful : Prop where
  argument (s : Sound Float) : T.Admits s → (T.image s).acceptReal .real = .ok (T.image s)
  plus {s : Sound Float} : T.Admits s → applyUnary .plus (T.image s) = pure (T.image s)
  minus {s : Sound Float} : T.Admits s →
    T.Admits (.minus s) ∧ applyUnary .minus (T.image s) = pure (T.image (.minus s))
  slash {s : Sound Float} : T.Admits s →
    T.Admits (.reciprocal s) ∧ applyUnary .slash (T.image s) = pure (T.image (.reciprocal s))
  binary (op : Operator) {v w : Value} {l r : Sound Float} : T.Operand v l → T.Operand w r →
    v.isSound ∨ w.isSound → T.Admits (.binary op l r) ∧
      applyArithmetic op (T.value v) (T.value w) = pure (T.image (.binary op l r))
  promoted {f : RealFunction} {positional : List Value} {named : List (String × Value)}
    {slots : List Value} : (∀ v ∈ positional, T.AdmitsValue v) →
    (∀ entry ∈ named, T.AdmitsValue entry.2) →
    (Function.real f).bind positional named = .ok slots → slots.any Value.isSound →
    T.Admits (promoted f positional named) ∧
      ∀ (body : Node → ScopeId → Eval Value) (m : Machine), ∃ m₁,
        invoke body (.real f) (positional.map T.value)
          (named.map fun entry => (entry.1, T.value entry.2)) m =
            (.ok (T.image (promoted f positional named)), m₁) ∧ m₁.store = m.store

/-- Two machines with the same scopes, one with the translated values. -/
def Relates (m m' : Machine) : Prop :=
  m.store.All T.AdmitsValue ∧ m'.store = m.store.map T.value

end Translation

/-- The step is a call of a built-in function that builds or moves a sound. -/
def IsConstruction : Event → Prop
  | .called .constructor _ _ => True
  | _ => False

/-- None of the steps from one machine to another one builds or moves a sound. -/
def BuildsNothing (m m₁ : Machine) : Prop :=
  ∀ steps, m₁.events = steps ++ m.events → ∀ e ∈ steps, ¬IsConstruction e

lemma BuildsNothing.split {m m₁ m₂ : Machine} (h : BuildsNothing m m₂)
    (h₁ : m.events <:+ m₁.events) (h₂ : m₁.events <:+ m₂.events) :
    BuildsNothing m m₁ ∧ BuildsNothing m₁ m₂ := by
  obtain ⟨first, hfirst⟩ := h₁
  obtain ⟨second, hsecond⟩ := h₂
  have hall := h (second ++ first) (by rw [← hsecond, ← hfirst, List.append_assoc])
  constructor
  · intro steps hsteps e he
    obtain rfl := List.append_cancel_right (hfirst.trans hsteps)
    exact hall e (List.mem_append_right _ he)
  · intro steps hsteps e he
    obtain rfl := List.append_cancel_right (hsecond.trans hsteps)
    exact hall e (List.mem_append_left _ he)

namespace Translation

variable {T : Translation} {α β γ δ : Type}

/-- Where the first computation succeeds without building or moving a sound, the second one
succeeds on the translated values, with a related result. -/
def Translates (T : Translation) (R : α → β → Prop) (x : Eval α) (x' : Eval β) : Prop :=
  ∀ m m' a m₁, T.Relates m m' → x m = (.ok a, m₁) → BuildsNothing m m₁ →
    ∃ b m₁', x' m' = (.ok b, m₁') ∧ R a b ∧ T.Relates m₁ m₁'

namespace Translates

variable {R : α → β → Prop} {S : γ → δ → Prop}

lemma pure {a : α} {b : β} (h : R a b) : T.Translates R (Pure.pure a) (Pure.pure b) := by
  rintro m m' a m₁ hm ⟨⟩ -
  exact ⟨b, m', rfl, h, hm⟩

lemma fail (cause : Cause) (x' : Eval β) : T.Translates R (Evaluation.fail cause) x' := by
  rintro m m' a m₁ hm ⟨⟩

lemma bind {x : Eval α} {x' : Eval β} {f : α → Eval γ} {f' : β → Eval δ} (hadds : AddsSteps x)
    (hadds' : ∀ a, AddsSteps (f a)) (hx : T.Translates R x x')
    (hf : ∀ a b, R a b → T.Translates S (f a) (f' b)) :
    T.Translates S (x >>= f) (x' >>= f') := by
  intro m m' c m₂ hm h hnothing
  obtain ⟨a, m₁, ha, hc⟩ := run_bind_eq_ok.1 h
  have h₁ := hadds m
  have h₂ := hadds' a m₁
  rw [ha] at h₁
  rw [hc] at h₂
  obtain ⟨hfirst, hsecond⟩ := hnothing.split h₁ h₂
  obtain ⟨b, m₁', hb, hab, hm₁⟩ := hx m m' a m₁ hm ha hfirst
  obtain ⟨d, m₂', hd, hcd, hm₂⟩ := hf a b hab m₁ m₁' c m₂ hm₁ hc hsecond
  exact ⟨d, m₂', (run_bind_of_ok hb).trans hd, hcd, hm₂⟩

lemma claim {x : Eval α} {x' : Eval β} (node : Node) (hx : T.Translates R x x') :
    T.Translates R (claim node x) (claim node x') := by
  intro m m' a m₁ hm h hnothing
  obtain ⟨b, m₁', hb, hrest⟩ := hx m m' a m₁ hm (run_claim_eq_ok.1 h) hnothing
  exact ⟨b, m₁', run_claim_eq_ok.2 hb, hrest⟩

lemma note (event event' : Event) :
    T.Translates (fun _ _ => True) (Evaluation.note event) (Evaluation.note event') := by
  rintro m m' a m₁ hm ⟨⟩ -
  exact ⟨(), _, rfl, trivial, hm⟩

/-- A change of both machines that keeps their stores related. -/
lemma modifyGet {f : Machine → α × Machine} {f' : Machine → β × Machine}
    (h : ∀ m m', T.Relates m m' → R (f m).1 (f' m').1 ∧ T.Relates (f m).2 (f' m').2) :
    T.Translates R (MonadStateOf.modifyGet f : Eval α) (MonadStateOf.modifyGet f') := by
  rintro m m' a m₁ hm ⟨⟩ -
  exact ⟨_, _, rfl, h m m' hm⟩

lemma framed {x : Eval α} {x' : Eval β} (frame frame' : Frame) (hadds : AddsSteps x)
    (hx : T.Translates R x x') : T.Translates R (framed frame x) (framed frame' x') := by
  refine bind (R := fun _ _ => True) (.modifyGet fun _ => rfl)
    (fun _ => .bind hadds fun _ => .bind (.modifyGet fun _ => rfl) fun _ => .pure _)
    (modifyGet fun m m' hm => ⟨trivial, hm⟩) fun _ _ _ => ?_
  refine bind hadds (fun _ => .bind (.modifyGet fun _ => rfl) fun _ => .pure _) hx
    fun a b hab => ?_
  exact bind (R := fun _ _ => True) (.modifyGet fun _ => rfl) (fun _ => .pure _)
    (modifyGet fun m m' hm => ⟨trivial, hm⟩) fun _ _ _ => pure hab

end Translates

/-! ## Operators -/

lemma value_of_not_isSound {v : Value} (h : v.isSound = false) : T.value v = v := by
  cases v with
  | sound s => cases h
  | _ => rfl

lemma applyUnary_translates (hT : T.Lawful) {op : UnaryOperator} (hop : op.IsWritten) {v w : Value}
    (h : T.Rel v w) : T.Translates T.Rel (applyUnary op v) (applyUnary op w) := by
  obtain ⟨hv, rfl⟩ := h
  cases v with
  | sound s =>
    cases op with
    | plus =>
      show T.Translates T.Rel (Pure.pure (Value.sound s)) (applyUnary .plus (T.image s))
      rw [hT.plus hv]
      exact .pure ⟨hv, rfl⟩
    | minus =>
      show T.Translates T.Rel (Pure.pure (Value.sound (.minus s))) (applyUnary .minus (T.image s))
      rw [(hT.minus hv).2]
      exact .pure ⟨(hT.minus hv).1, rfl⟩
    | slash =>
      show T.Translates T.Rel (Pure.pure (Value.sound (.reciprocal s)))
        (applyUnary .slash (T.image s))
      rw [(hT.slash hv).2]
      exact .pure ⟨(hT.slash hv).1, rfl⟩
    | not => exact .fail _ _
    | other symbol => exact hop.elim
  | real x => cases op <;> first | exact .pure ⟨trivial, rfl⟩ | exact .fail _ _
  | bool b => cases op <;> first | exact .pure ⟨trivial, rfl⟩ | exact .fail _ _
  | string text => cases op <;> exact .fail _ _
  | function f => cases op <;> exact .fail _ _
  | whole n => exact hv.elim
  | nothing => exact hv.elim
  | list items => exact hv.elim

lemma Operand.exists_or (T : Translation) {v : Value} (h : T.AdmitsValue v) :
    (∃ s, T.Operand v s) ∨ v.lift? = none := by
  cases v with
  | real x => exact .inl ⟨_, .real x⟩
  | sound s => exact .inl ⟨s, .sound h⟩
  | whole n => exact h.elim
  | _ => exact .inr rfl

/-- An operator on a sound and a number, or on two sounds, builds a sound. -/
lemma applyArithmetic_of_operands (op : Operator) {v w : Value} {l r : Sound Float}
    (hl : T.Operand v l) (hr : T.Operand w r) (hsound : v.isSound ∨ w.isSound) :
    applyArithmetic op v w = Pure.pure (.sound (.binary op l r)) := by
  cases hl with
  | real x =>
    cases hr with
    | real y => simp [Value.isSound] at hsound
    | sound hr => rfl
  | sound hl => cases hr <;> rfl

lemma applyArithmetic_of_lift?_eq_none (op : Operator) {v w : Value}
    (h : v.lift? = none ∨ w.lift? = none) :
    (∃ a b, op = .add ∧ v = .string a ∧ w = .string b) ∨
      applyArithmetic op v w = Evaluation.fail (.mismatch op.symbol [v, w]) := by
  have hnone : Value.arithmetic? op v w = none := by
    rcases h with h | h <;> cases v <;> cases w <;> first | rfl | cases h
  unfold applyArithmetic
  rw [hnone]
  dsimp only
  split
  · rcases h with h | h <;> simp_all
  · exact .inl ⟨_, _, rfl, rfl, rfl⟩
  · exact .inr rfl

lemma applyArithmetic_translates (hT : T.Lawful) (op : Operator) {v v' w w' : Value}
    (hv : T.Rel v v') (hw : T.Rel w w') :
    T.Translates T.Rel (applyArithmetic op v w) (applyArithmetic op v' w') := by
  obtain ⟨hv, rfl⟩ := hv
  obtain ⟨hw, rfl⟩ := hw
  by_cases hnumbers : v.lift? = none ∨ w.lift? = none
  · rcases applyArithmetic_of_lift?_eq_none op hnumbers with ⟨a, b, rfl, rfl, rfl⟩ | hfail
    · exact .pure ⟨trivial, rfl⟩
    · rw [hfail]
      exact .fail _ _
  · obtain ⟨hv', hw'⟩ := not_or.1 hnumbers
    obtain ⟨l, hl⟩ := (Operand.exists_or T hv).resolve_right hv'
    obtain ⟨r, hr⟩ := (Operand.exists_or T hw).resolve_right hw'
    by_cases hsound : v.isSound ∨ w.isSound
    · obtain ⟨hadmits, himage⟩ := hT.binary op hl hr hsound
      rw [applyArithmetic_of_operands op hl hr hsound, himage]
      exact .pure ⟨hadmits, rfl⟩
    · cases hl with
      | sound hl => exact absurd (.inl rfl) hsound
      | real x =>
        cases hr with
        | sound hr => exact absurd (.inr rfl) hsound
        | real y => exact .pure ⟨trivial, rfl⟩

lemma applyEquality_translates (op : BinaryOperator) {v v' w w' : Value} (hv : T.Rel v v')
    (hw : T.Rel w w') :
    T.Translates Eq (applyEquality op v w) (applyEquality op v' w') := by
  obtain ⟨hv, rfl⟩ := hv
  obtain ⟨hw, rfl⟩ := hw
  cases v with
  | whole | nothing | list => exact hv.elim
  | sound s => cases w <;> exact .fail _ _
  | function f => cases w <;> exact .fail _ _
  | real x =>
    cases w with
    | real y => exact .pure rfl
    | whole | nothing | list => exact hw.elim
    | _ => exact .fail _ _
  | bool a =>
    cases w with
    | bool b => exact .pure rfl
    | _ => exact .fail _ _
  | string a =>
    cases w with
    | string b => exact .pure rfl
    | _ => exact .fail _ _

/-- The order of two values is not there, or it is that of two numbers. -/
lemma less?_translates {v v' w w' : Value} (hv : T.Rel v v') (hw : T.Rel w w') :
    v.less? w = none ∨ v'.less? w' = v.less? w := by
  obtain ⟨hv, rfl⟩ := hv
  obtain ⟨hw, rfl⟩ := hw
  cases v with
  | real x =>
    cases w with
    | whole n => exact hw.elim
    | real y => exact .inr rfl
    | _ => exact .inl rfl
  | whole n => exact hv.elim
  | _ => exact .inl rfl

lemma applyBinary_translates (hT : T.Lawful) {op : BinaryOperator} (hop : op.IsWritten)
    {v v' w w' : Value} (hv : T.Rel v v') (hw : T.Rel w w') :
    T.Translates T.Rel (applyBinary op v w) (applyBinary op v' w') := by
  cases op with
  | arithmetic op => exact applyArithmetic_translates hT op hv hw
  | equal | unequal =>
    refine .bind (applyEquality_addsSteps _ v w) (fun _ => .pure _)
      (applyEquality_translates _ hv hw) ?_
    rintro a _ rfl
    exact .pure ⟨trivial, rfl⟩
  | less =>
    simp only [applyBinary]
    rcases less?_translates hv hw with hnone | hsame
    · rw [hnone]
      exact .fail _ _
    · rw [hsame]
      cases v.less? w with
      | none => exact .fail _ _
      | some b => exact .pure ⟨trivial, rfl⟩
  | greater =>
    simp only [applyBinary]
    rcases less?_translates hw hv with hnone | hsame
    · rw [hnone]
      exact .fail _ _
    · rw [hsame]
      cases w.less? v with
      | none => exact .fail _ _
      | some b => exact .pure ⟨trivial, rfl⟩
  | and | or => exact .fail _ _
  | other symbol => exact hop.elim

lemma applyLogical_translates (op : BinaryOperator) (decisive : Bool)
    {left left' right right' : Eval Value} (hadds : AddsSteps left) (hadds' : AddsSteps right)
    (hleft : T.Translates T.Rel left left') (hright : T.Translates T.Rel right right') :
    T.Translates T.Rel (applyLogical op decisive left right)
      (applyLogical op decisive left' right') := by
  refine .bind hadds (fun v => ?_) hleft fun v v' hv => ?_
  · split
    · split
      · exact .pure _
      · refine .bind hadds' fun r => ?_
        split
        · exact .pure _
        · exact .fail _
    · exact .fail _
  obtain ⟨hv, rfl⟩ := hv
  cases v with
  | bool l =>
    show T.Translates T.Rel (ite (l == decisive) _ _) (ite (l == decisive) _ _)
    split
    · exact .pure ⟨trivial, rfl⟩
    · refine .bind hadds' (fun r => ?_) hright fun w w' hw => ?_
      · split
        · exact .pure _
        · exact .fail _
      obtain ⟨hw, rfl⟩ := hw
      cases w with
      | bool r => exact .pure ⟨trivial, rfl⟩
      | _ => exact .fail _ _
  | _ => exact .fail _ _

/-! ## Functions -/

lemma Rel.eq_map {vs ws : List Value} (h : List.Forall₂ T.Rel vs ws) :
    (∀ v ∈ vs, T.AdmitsValue v) ∧ ws = vs.map T.value := by
  induction h with
  | nil => exact ⟨List.forall_mem_nil _, rfl⟩
  | cons hvw _ ih =>
    obtain ⟨hv, rfl⟩ := hvw
    obtain ⟨hvs, rfl⟩ := ih
    exact ⟨List.forall_mem_cons.2 ⟨hv, hvs⟩, rfl⟩

lemma Rel.named_eq_map {vs ws : List (String × Value)}
    (h : List.Forall₂ (NamedRelated T.Rel) vs ws) :
    (∀ entry ∈ vs, T.AdmitsValue entry.2) ∧
      ws = vs.map fun entry => (entry.1, T.value entry.2) := by
  induction h with
  | nil => exact ⟨List.forall_mem_nil _, rfl⟩
  | @cons x y _ _ hxy _ ih =>
    obtain ⟨name, v⟩ := x
    obtain ⟨name', w⟩ := y
    obtain ⟨rfl, hv, rfl⟩ := hxy
    obtain ⟨hvs, rfl⟩ := ih
    exact ⟨List.forall_mem_cons.2 ⟨hv, hvs⟩, rfl⟩

/-- The translated arguments are bound to the translated slots. -/
lemma bind_leads {f : Function} (hf : ∀ c, f ≠ .constructor c)
    (hargument : ∀ s, T.Admits s → (T.image s).acceptReal .real = .ok (T.image s))
    {vs ws : List Value} (hvs : List.Forall₂ T.Rel vs ws) {named named' : List (String × Value)}
    (hnamed : List.Forall₂ (NamedRelated T.Rel) named named') :
    Leads (List.Forall₂ T.Rel) (f.bind vs named) (f.bind ws named') := by
  refine Signature.bind_of_related ?_ ?_ hvs hnamed
  · refine List.forall₂_same.2 fun p hp => ?_
    cases f with
    | constructor c => exact absurd rfl (hf c)
    | real f | user f =>
      obtain ⟨name, -, rfl⟩ := List.mem_map.1 hp
      exact ⟨rfl, rfl, .none⟩
  · intro p hp v w hvw
    cases f with
    | real f =>
      obtain ⟨name, -, rfl⟩ := List.mem_map.1 hp
      obtain ⟨hv, rfl⟩ := hvw
      cases v with
      | sound s =>
        show Leads T.Rel (.ok (.sound s)) (Value.acceptReal .real (T.image s))
        rw [hargument s hv]
        exact .ok ⟨hv, rfl⟩
      | real x => exact .ok ⟨trivial, rfl⟩
      | whole n => exact hv.elim
      | _ => exact .error _ _
    | user f =>
      obtain ⟨name, -, rfl⟩ := List.mem_map.1 hp
      exact .ok hvw
    | constructor c => exact absurd rfl (hf c)

/-- Where the arguments of a call fit, their translations fit as well. -/
lemma bind_value {f : Function} (hf : ∀ c, f ≠ .constructor c)
    (hargument : ∀ s, T.Admits s → (T.image s).acceptReal .real = .ok (T.image s))
    {positional slots : List Value} (hpositional : ∀ v ∈ positional, T.AdmitsValue v)
    {named : List (String × Value)} (hnamed : ∀ entry ∈ named, T.AdmitsValue entry.2)
    (hbind : f.bind positional named = .ok slots) :
    (∀ v ∈ slots, T.AdmitsValue v) ∧
      f.bind (positional.map T.value) (named.map fun entry => (entry.1, T.value entry.2)) =
        .ok (slots.map T.value) := by
  have hrel : List.Forall₂ T.Rel positional (positional.map T.value) :=
    List.forall₂_map_right_iff.2 (List.forall₂_same.2 fun v hv => ⟨hpositional v hv, rfl⟩)
  have hrelNamed : List.Forall₂ (NamedRelated T.Rel) named
      (named.map fun entry => (entry.1, T.value entry.2)) :=
    List.forall₂_map_right_iff.2
      (List.forall₂_same.2 fun entry hentry => ⟨rfl, hnamed entry hentry, rfl⟩)
  obtain ⟨translated, htranslated, hslots⟩ := bind_leads hf hargument hrel hrelNamed slots hbind
  obtain ⟨hadmits, rfl⟩ := Rel.eq_map hslots
  exact ⟨hadmits, htranslated⟩

/-- Calls of constructors are left out. -/
lemma call_constructor_translates {R : Value → β → Prop} {body : Node → ScopeId → Eval Value}
    (frame : Frame) (c : Constructor) (slots : List Value) (x' : Eval β) :
    T.Translates R (framed frame (call body (.constructor c) slots)) x' := by
  rintro m m' a m₁ hm ⟨⟩ hnothing
  exact (hnothing [_] rfl _ (List.mem_singleton_self _) trivial).elim

lemma call_real_translates {body body' : Node → ScopeId → Eval Value} (f : RealFunction)
    (slots : List Value) :
    T.Translates T.Rel (call body (.real f) slots) (call body' (.real f) slots) :=
  .bind (.note _) (fun _ => .pure _) (.note _ _) fun _ _ _ => .pure ⟨trivial, rfl⟩

section

variable {body : Node → ScopeId → Eval Value} (hadds : ∀ node scope, AddsSteps (body node scope))
  (hbody : ∀ node scope, node.IsExpression →
    T.Translates T.Rel (body node scope) (body node scope))

include hadds hbody

lemma call_user_translates {f : UserFunction} (hf : f.body.IsExpression) {slots slots' : List Value}
    (hslots : List.Forall₂ T.Rel slots slots') :
    T.Translates T.Rel (call body (.user f) slots) (call body (.user f) slots') := by
  obtain ⟨hadmits, rfl⟩ := Rel.eq_map hslots
  refine .bind (.note _) (fun _ => .bind (.modifyGet fun _ => rfl) fun scope => hadds _ _)
    (.note _ _) fun _ _ _ => ?_
  refine .bind (R := Eq) (.modifyGet fun _ => rfl) (fun scope => hadds _ _)
    (.modifyGet ?_) fun scope _ hscope => ?_
  · rintro m m' ⟨hall, hstore⟩
    refine ⟨by simp [Store.push, hstore, Store.size_map], ?_, ?_⟩
    · exact Store.all_push hall fun entry hentry => hadmits _ (List.of_mem_zip hentry).2
    · show (m'.store.push _).2 = Store.map T.value (m.store.push _).2
      rw [Store.map_push, hstore, Scope.map, List.zip_map_right]
      rfl
  · subst hscope
    exact hbody f.body scope hf

lemma invoke_translates (hT : T.Lawful) {f : Function} (hf : T.AdmitsValue (.function f))
    {vs ws : List Value} (hvs : List.Forall₂ T.Rel vs ws) {named named' : List (String × Value)}
    (hnamed : List.Forall₂ (NamedRelated T.Rel) named named') :
    T.Translates T.Rel (invoke body f vs named) (invoke body f ws named') := by
  cases hbind : f.bind vs named with
  | error e =>
    rw [invoke_of_error hbind]
    exact .fail _ _
  | ok slots =>
    by_cases hpromotes : Promotes f slots
    · obtain ⟨⟨g, rfl⟩, hsound⟩ := hpromotes
      obtain ⟨hadmitsVs, rfl⟩ := Rel.eq_map hvs
      obtain ⟨hadmitsNamed, rfl⟩ := Rel.named_eq_map hnamed
      obtain ⟨hadmits, hinvoke⟩ := hT.promoted hadmitsVs hadmitsNamed hbind hsound
      rw [invoke_promoted hbind hsound]
      rintro m m' a m₁ hm ⟨⟩ -
      obtain ⟨m₁', hrun, hstore⟩ := hinvoke body m'
      exact ⟨_, m₁', hrun, ⟨hadmits, rfl⟩, hm.1, hstore.trans hm.2⟩
    · rw [invoke_framed hbind hpromotes]
      cases f with
      | constructor c => exact call_constructor_translates _ c slots _
      | real g =>
        obtain ⟨slots', hbind', hslots⟩ := bind_leads (by simp) hT.argument hvs hnamed slots hbind
        have hsilent : ∀ v ∈ slots, v.isSound = false := fun v hv =>
          Bool.eq_false_iff.2 fun hsound => hpromotes ⟨⟨g, rfl⟩, List.any_eq_true.2 ⟨v, hv, hsound⟩⟩
        have hsame : slots' = slots := by
          rw [(Rel.eq_map hslots).2]
          exact (List.map_congr_left fun v hv => value_of_not_isSound (hsilent v hv)).trans
            (List.map_id slots)
        subst hsame
        rw [invoke_framed hbind' hpromotes]
        exact .framed _ _ (call_addsSteps hadds _ _) (call_real_translates g _)
      | user f =>
        obtain ⟨slots', hbind', hslots⟩ := bind_leads (by simp) hT.argument hvs hnamed slots hbind
        rw [invoke_framed hbind' (by simp [Promotes])]
        exact .framed _ _ (call_addsSteps hadds _ _) (call_user_translates hadds hbody hf hslots)

end

/-- The values of the arguments of a call, and their translations. -/
def RelArguments (T : Translation) (p q : List Value × List (String × Value)) : Prop :=
  List.Forall₂ T.Rel p.1 q.1 ∧ List.Forall₂ (NamedRelated T.Rel) p.2 q.2

lemma any_name_eq {named named' : List (String × Value)}
    (h : List.Forall₂ (NamedRelated T.Rel) named named') (name : String) :
    named.any (·.1 == name) = named'.any (·.1 == name) := by
  induction h with
  | nil => rfl
  | cons hxy _ ih => rw [List.any_cons, List.any_cons, ih, hxy.1]

lemma evalArguments_translates {value : Node → Eval Value} (hadds : ∀ arg, AddsSteps (value arg))
    (hvalue : ∀ arg, arg.IsExpression → T.Translates T.Rel (value arg) (value arg))
    (function : String) {args : List Node} (hargs : Node.AreArguments args) {vs ws : List Value}
    (hvs : List.Forall₂ T.Rel vs ws) {named named' : List (String × Value)}
    (hnamed : List.Forall₂ (NamedRelated T.Rel) named named') :
    T.Translates T.RelArguments (evalArguments value function args vs named)
      (evalArguments value function args ws named') := by
  induction args generalizing vs ws named named' with
  | nil => exact .pure ⟨hvs, hnamed⟩
  | cons arg rest ih =>
    by_cases hkeyword : ∃ loc name v, arg = .keyword loc name v
    · obtain ⟨loc, name, v, rfl⟩ := hkeyword
      cases htaken : named.any (·.1 == name) with
      | true =>
        rw [evalArguments_keyword_twice loc name v htaken]
        exact .fail _ _
      | false =>
        rw [evalArguments_keyword loc name v htaken,
          evalArguments_keyword loc name v ((any_name_eq hnamed name).symm.trans htaken)]
        rw [Node.AreArguments] at hargs
        refine .bind (hadds v) (fun _ => evalArguments_addsSteps hadds _ _ _ _) (hvalue v hargs.1)
          fun w w' hw => ?_
        exact ih hargs.2 hvs (List.rel_append hnamed (.cons ⟨rfl, hw⟩ .nil))
    · have harg : ∀ loc name v, arg ≠ .keyword loc name v := fun loc name v h =>
        hkeyword ⟨loc, name, v, h⟩
      obtain ⟨hexpr, hrest⟩ := (Node.areArguments_cons harg).1 hargs
      rw [evalArguments_positional harg, evalArguments_positional harg]
      refine .bind (hadds arg) (fun _ => evalArguments_addsSteps hadds _ _ _ _) (hvalue arg hexpr)
        fun w w' hw => ?_
      exact ih hrest (List.rel_append hvs (.cons hw .nil)) hnamed

/-! ## Expressions -/

lemma lookup_translates (scope : ScopeId) (name : String) (cause cause' : Cause) :
    T.Translates T.Rel
      (get >>= fun m => match m.store.lookup? scope name with
        | some v => Pure.pure v
        | none => Evaluation.fail cause)
      (get >>= fun m => match m.store.lookup? scope name with
        | some v => Pure.pure v
        | none => Evaluation.fail cause') := by
  refine .bind (R := T.Relates) (.modifyGet fun _ => rfl) (fun m => ?_)
    (.modifyGet fun _ _ hm => ⟨hm, hm⟩) fun m m' hm => ?_
  · split
    · exact .pure _
    · exact .fail _
  · rw [hm.2, Store.lookup?_map]
    cases hv : m.store.lookup? scope name with
    | none => exact .fail _ _
    | some v => exact .pure ⟨Store.of_lookup? hm.1 hv, rfl⟩

/-- **Evaluation commutes with lawful translations.**  The value of an expression among translated
values is the translation of its value, as long as no constructor is called. -/
theorem evalWithin_translates (hT : T.Lawful) (depth : ℕ) {node : Node} (hnode : node.IsExpression)
    (scope : ScopeId) :
    T.Translates T.Rel (evalWithin depth node scope) (evalWithin depth node scope) := by
  induction depth generalizing node scope with
  | zero => exact .fail _ _
  | succ depth ih =>
    have hadds : ∀ node scope, AddsSteps (evalWithin depth node scope) := evalWithin_addsSteps depth
    cases node with
    | number loc value => exact .claim _ (.pure ⟨trivial, rfl⟩)
    | string loc text => exact .claim _ (.pure ⟨trivial, rfl⟩)
    | identifier loc name => exact .claim _ (lookup_translates scope name _ _)
    | unary loc op operand =>
      rw [Node.IsExpression] at hnode
      exact .claim _ (.bind (hadds _ _) (fun _ => applyUnary_addsSteps op _) (ih hnode.2 scope)
        fun v w hvw => applyUnary_translates hT hnode.1 hvw)
    | binary loc op left right =>
      rw [Node.IsExpression] at hnode
      obtain ⟨hop, hleft, hright⟩ := hnode
      by_cases hand : op = .and
      · subst hand
        exact .claim _ (applyLogical_translates _ _ (hadds _ _) (hadds _ _) (ih hleft scope)
          (ih hright scope))
      · by_cases hor : op = .or
        · subst hor
          exact .claim _ (applyLogical_translates _ _ (hadds _ _) (hadds _ _) (ih hleft scope)
            (ih hright scope))
        · rw [evalWithin_binary hand hor]
          refine .claim _ (.bind (hadds _ _) (fun _ => .bind (hadds _ _) fun _ =>
            applyBinary_addsSteps op _ _) (ih hleft scope) fun v v' hv => ?_)
          exact .bind (hadds _ _) (fun _ => applyBinary_addsSteps op _ _) (ih hright scope)
            fun w w' hw => applyBinary_translates hT hop hv hw
    | invocation loc callee args =>
      rw [Node.IsExpression] at hnode
      refine .claim _ (.bind (hadds _ _) (fun v => ?_) (ih hnode.1 scope) fun v v' hv => ?_)
      · split
        · exact .bind (evalArguments_addsSteps (fun arg => hadds arg scope) _ _ _ _) fun _ =>
            invoke_addsSteps hadds _ _ _
        · exact .fail _
      · obtain ⟨hv, rfl⟩ := hv
        cases v with
        | function f =>
          refine .bind (evalArguments_addsSteps (fun arg => hadds arg scope) _ _ _ _)
            (fun _ => invoke_addsSteps hadds _ _ _)
            (evalArguments_translates (fun arg => hadds arg scope) (fun arg harg => ih harg scope)
              f.name hnode.2 .nil .nil) fun p q hpq => ?_
          exact invoke_translates hadds (fun _ scope hnode => ih hnode scope) hT hv hpq.1 hpq.2
        | _ => exact .fail _ _
    | empty loc => exact .claim _ (.fail _ _)
    | keyword | assignment | definition | block | missing => exact hnode.elim

end Translation

end Evaluation

end SignalCalc
