import SignalCalc.Proofs.Call.Checked
import SignalCalc.Proofs.Evaluation.Translation
import SignalCalc.Proofs.Evaluation.Promotion
import SignalCalc.Proofs.Signal.Built

/-!
# Computed values

Values from outside may be whole numbers, lists, nothing, or sounds of any shape.  Those that a
program computes are of five sorts, and `Value.IsComputed` says how they are made.  Operators and
built-in functions give such values for such values.  Where they give none the cause is ordinary: an
error that a program makes, and no limit of the calculator other than its depth.

All this is about one step at a time, so the machine plays no part in it: a computation that
`Settles` does nothing but end with a value or a cause.
-/

namespace SignalCalc

open SignalCalc.Builtin
open SignalCalc.Call
open SignalCalc.Signal
open SignalCalc.Syntax
open List

/-- A function of a program has an expression for its body and sees the first scope. -/
def Function.IsComputed : Function → Prop
  | .user f => f.body.IsExpression ∧ f.scope = Store.root
  | _ => True

/-- A value that a program computes. -/
def Value.IsComputed : Value → Prop
  | .real _ | .bool _ | .string _ => True
  | .sound s => s.IsBuilt
  | .function f => f.IsComputed
  | .whole _ | .nothing | .list _ => False

/-- An error that a program makes, or the end of the depth. -/
def Cause.IsOrdinary (cause : Cause) : Prop := cause.isLanguageError = true ∨ cause = .tooDeep

lemma Value.IsComputed.exists_describe {v : Value} (h : v.IsComputed) :
    ∃ text, v.describe = .ok text := by
  cases v with
  | whole n => exact h.elim
  | bool b => cases b <;> exact ⟨_, rfl⟩
  | _ => exact ⟨_, rfl⟩

lemma Value.IsComputed.exists_text {v : Value} (h : v.IsComputed) : ∃ text, v.text = .ok text := by
  cases v with
  | whole n => exact h.elim
  | bool b => cases b <;> exact ⟨_, rfl⟩
  | _ => exact ⟨_, rfl⟩

namespace Cause

variable {values : List Value}

/-- Computed values have descriptions, so a cause that names them stands. -/
lemma naming_eq (h : ∀ v ∈ values, v.IsComputed) (cause : Cause) : naming values cause = cause := by
  obtain ⟨texts, htexts⟩ := Leads.exists_mapM_of_forall fun v hv => (h v hv).exists_describe
  rw [naming, htexts]

lemma isOrdinary_mismatch (operator : String) (h : ∀ v ∈ values, v.IsComputed) :
    (mismatch operator values).IsOrdinary := by
  rw [mismatch, naming_eq h]
  exact .inl rfl

lemma isOrdinary_ofBindError (function : String) {e : BindError Value}
    (h : e.Blames Value.IsComputed) : (ofBindError function e).IsOrdinary := by
  cases e with
  | arity | unknownName | secondValue => exact .inl rfl
  | wrongKind v => exact isOrdinary_mismatch function (forall_mem_singleton.2 h)
  | tooLarge => exact h.elim

end Cause

/-! ## Binding -/

/-- What a parameter of a kind makes of a value is of that kind. -/
def Call.Kind.Holds : Kind → Value → Prop
  | .real, v => ∃ x, v = .real x
  | .sound, v => ∃ s, v = .sound s
  | _, _ => True

/-- What the slots of a function hold; a real function takes sounds for reals. -/
def Function.Fits (f : Function) (p : Parameter Value) (v : Value) : Prop :=
  v.IsComputed ∧ match f with
    | .constructor _ => p.kind.Holds v
    | _ => True

namespace Value

variable {v : Value}

lemma IsComputed.accept_meets (h : v.IsComputed) (kind : Kind) :
    Meets (fun w => w.IsComputed ∧ kind.Holds w) (· = .wrongKind) (v.accept kind) := by
  cases v with
  | whole | nothing | list => exact h.elim
  | real x =>
    cases kind with
    | real => exact ⟨trivial, x, rfl⟩
    | sound => exact ⟨Sound.everywhere_const.2 nofun, .const x, rfl⟩
    | any => exact ⟨h, trivial⟩
    | bool | string | other => exact rfl
  | bool b =>
    cases kind with
    | any | bool => exact ⟨h, trivial⟩
    | real | string | sound | other => exact rfl
  | string text =>
    cases kind with
    | any | string => exact ⟨h, trivial⟩
    | real | bool | sound | other => exact rfl
  | sound s =>
    cases kind with
    | any => exact ⟨h, trivial⟩
    | sound => exact ⟨h, s, rfl⟩
    | real | bool | string | other => exact rfl
  | function f =>
    cases kind with
    | any => exact ⟨h, trivial⟩
    | real | bool | string | sound | other => exact rfl

lemma IsComputed.acceptReal_meets (h : v.IsComputed) (kind : Kind) :
    Meets IsComputed (· = .wrongKind) (v.acceptReal kind) := by
  unfold acceptReal
  split
  · exact h
  · have hw := h.accept_meets kind
    cases haccept : v.accept kind with
    | ok w =>
      rw [haccept] at hw
      exact hw.1
    | error e =>
      rw [haccept] at hw
      exact hw

end Value

variable {positional slots : List Value} {named : List (String × Value)}

/-- Computed arguments fill the slots with computed values, or do not fit. -/
theorem Function.bind_meets (f : Function) (hpositional : ∀ v ∈ positional, v.IsComputed)
    (hnamed : ∀ entry ∈ named, entry.2.IsComputed) :
    Meets (Forall₂ f.Fits f.signature.params) (BindError.Blames Value.IsComputed)
      (f.bind positional named) := by
  refine Signature.bind_meets ?_ ?_ hpositional hnamed
  · intro p hp v hv
    cases f with
    | real f | user f =>
      obtain ⟨name, -, rfl⟩ := mem_map.1 hp
      cases hv
    | constructor c =>
      have hstart : v = .real 0.0 := by
        simp only [signature] at hp
        cases c <;> simp only [Constructor.parameters, mem_cons, not_mem_nil, or_false] at hp
        all_goals grind
      exact hstart ▸ trivial
  · intro p _ v hv
    cases f with
    | real f =>
      have hw := hv.acceptReal_meets p.kind
      show Meets _ _ (v.acceptReal p.kind)
      cases haccept : v.acceptReal p.kind with
      | ok w =>
        rw [haccept] at hw
        exact ⟨hw, trivial⟩
      | error e =>
        rw [haccept] at hw
        exact hw
    | constructor c => exact hv.accept_meets p.kind
    | user f =>
      have hw := hv.accept_meets p.kind
      show Meets _ _ (v.accept p.kind)
      cases haccept : v.accept p.kind with
      | ok w =>
        rw [haccept] at hw
        exact ⟨hw.1, trivial⟩
      | error e =>
        rw [haccept] at hw
        exact hw

lemma Function.isComputed_of_fits {f : Function} {params : List (Parameter Value)}
    (h : Forall₂ f.Fits params slots) : ∀ v ∈ slots, v.IsComputed := by
  induction h with
  | nil => exact forall_mem_nil _
  | cons hv _ ih => exact forall_mem_cons.2 ⟨hv.1, ih⟩

namespace Evaluation

/-- A constructor gives a sound that a program builds. -/
lemma isComputed_construct {c : Constructor}
    (h : Forall₂ (Function.constructor c).Fits (Function.constructor c).signature.params slots) :
    (construct c slots).IsComputed := by
  cases c with
  | rand =>
    obtain _ | _ := h
    exact Sound.everywhere_noise.2 nofun
  | noise =>
    obtain _ | ⟨⟨-, seed, rfl⟩, _ | _⟩ := h
    exact Sound.everywhere_noise.2 nofun
  | decay =>
    obtain _ | ⟨⟨-, tau, rfl⟩, _ | _⟩ := h
    exact Sound.everywhere_decay.2 nofun
  | const =>
    obtain _ | ⟨⟨hs, s, rfl⟩, _ | _⟩ := h
    exact hs
  | sine =>
    obtain _ | ⟨⟨-, frequency, rfl⟩, _ | ⟨⟨-, phase, rfl⟩, _ | _⟩⟩ := h
    exact Sound.everywhere_sine.2 nofun
  | linear =>
    obtain _ | ⟨⟨-, slope, rfl⟩, _ | ⟨⟨-, intercept, rfl⟩, _ | _⟩⟩ := h
    exact Sound.everywhere_linear.2 nofun
  | shift =>
    obtain _ | ⟨⟨hs, s, rfl⟩, _ | ⟨⟨-, seconds, rfl⟩, _ | _⟩⟩ := h
    exact Sound.IsBuilt.shift hs seconds

/-- The sound of a call that is put off is one that a program builds. -/
lemma isBuilt_promoted {f : RealFunction} (hpositional : ∀ v ∈ positional, v.IsComputed)
    (hnamed : ∀ entry ∈ named, entry.2.IsComputed)
    (hbind : (Function.real f).bind positional named = .ok slots)
    (hsound : slots.any Value.isSound = true) : (promoted f positional named).IsBuilt := by
  obtain ⟨kept, hkept, hslots⟩ := bindArguments_promoted hbind
  have hkeptSound : ∃ label s, Argument.sound label s ∈ kept := by
    clear * - hslots hsound
    induction hslots with
    | nil => cases hsound
    | cons hva _ ih =>
      cases hva with
      | sound label s => exact ⟨label, s, mem_cons_self⟩
      | real label x =>
        obtain ⟨label, s, hs⟩ := ih hsound
        exact ⟨label, s, mem_cons_of_mem _ hs⟩
  rw [promoted_eq]
  refine Sound.everywhere_apply.2 ⟨?_, fun label s hs => ?_⟩
  · rintro _ _ ⟨⟩
    exact ⟨f, kept, rfl, hkept, hkeptSound⟩
  · rcases mem_of_sound_mem_promoted hs with hs | ⟨name, hs⟩
    · exact hpositional _ hs
    · exact hnamed _ hs

/-! ## Operators -/

variable {α β : Type}

/-- The computation does nothing but end, with a good result or for an ordinary cause. -/
inductive Settles (P : α → Prop) : Eval α → Prop where
  | pure {a : α} : P a → Settles P (Pure.pure a)
  | fail {cause : Cause} : cause.IsOrdinary → Settles P (Evaluation.fail cause)

lemma Settles.bind {P : α → Prop} {Q : β → Prop} {x : Eval α} {f : α → Eval β}
    (hx : Settles P x) (hf : ∀ a, P a → Settles Q (f a)) : Settles Q (x >>= f) := by
  cases hx with
  | @pure a ha => exact hf a ha
  | fail hcause => exact .fail hcause

lemma Settles.mismatch {P : α → Prop} (operator : String) {values : List Value}
    (h : ∀ v ∈ values, v.IsComputed) :
    Settles P (Evaluation.fail (.mismatch operator values) : Eval α) :=
  .fail (Cause.isOrdinary_mismatch operator h)

section Operators

variable {v w : Value} (hv : v.IsComputed)

include hv

lemma applyUnary_settles (op : UnaryOperator) : Settles Value.IsComputed (applyUnary op v) := by
  have hmismatch : Settles Value.IsComputed
      (Evaluation.fail (.mismatch op.symbol [v]) : Eval Value) :=
    .mismatch op.symbol (forall_mem_singleton.2 hv)
  cases v with
  | whole | nothing | list => exact hv.elim
  | sound s =>
    cases op with
    | plus => exact .pure hv
    | minus => exact .pure (Sound.everywhere_minus.2 ⟨nofun, hv⟩)
    | slash => exact .pure (Sound.everywhere_reciprocal.2 ⟨nofun, hv⟩)
    | not | other => exact hmismatch
  | real x =>
    cases op with
    | plus | minus | slash => exact .pure trivial
    | not | other => exact hmismatch
  | bool b =>
    cases op with
    | not => exact .pure trivial
    | plus | minus | slash | other => exact hmismatch
  | string text => cases op <;> exact hmismatch
  | function f => cases op <;> exact hmismatch

variable (hw : w.IsComputed)

include hw

lemma applyArithmetic_settles (op : Operator) :
    Settles Value.IsComputed (applyArithmetic op v w) := by
  by_cases hnumbers : v.lift? = none ∨ w.lift? = none
  · rcases Translation.applyArithmetic_of_lift?_eq_none op hnumbers with
      ⟨a, b, rfl, rfl, rfl⟩ | hfail
    · exact .pure trivial
    · rw [hfail]
      exact .mismatch _ (forall_mem_cons.2 ⟨hv, forall_mem_singleton.2 hw⟩)
  have hconst : ∀ x : Float, (Sound.const x).IsBuilt := fun x => Sound.everywhere_const.2 nofun
  have hbinary : ∀ {l r : Sound Float}, l.IsBuilt → r.IsBuilt → (Sound.binary op l r).IsBuilt :=
    fun hl hr => Sound.everywhere_binary.2 ⟨nofun, hl, hr⟩
  cases v with
  | whole => exact hv.elim
  | real x =>
    cases w with
    | whole => exact hw.elim
    | real y => exact .pure trivial
    | sound r => exact .pure (hbinary (hconst x) hw)
    | _ => exact absurd (.inr rfl) hnumbers
  | sound l =>
    cases w with
    | whole => exact hw.elim
    | real y => exact .pure (hbinary hv (hconst y))
    | sound r => exact .pure (hbinary hv hw)
    | _ => exact absurd (.inr rfl) hnumbers
  | _ => exact absurd (.inl rfl) hnumbers

lemma applyEquality_settles (op : BinaryOperator) :
    Settles (fun _ => True) (applyEquality op v w) := by
  have hmismatch : Settles (fun _ => True) (Evaluation.fail (.mismatch op.symbol [v, w]) : Eval Bool) :=
    .mismatch op.symbol (forall_mem_cons.2 ⟨hv, forall_mem_singleton.2 hw⟩)
  cases v with
  | whole | nothing | list => exact hv.elim
  | real x =>
    cases w with
    | whole => exact hw.elim
    | real y => exact .pure trivial
    | _ => exact hmismatch
  | bool a =>
    cases w with
    | bool b => exact .pure trivial
    | _ => exact hmismatch
  | string a =>
    cases w with
    | string b => exact .pure trivial
    | _ => exact hmismatch
  | sound s => cases w <;> exact hmismatch
  | function f => cases w <;> exact hmismatch

lemma applyBinary_settles (op : BinaryOperator) : Settles Value.IsComputed (applyBinary op v w) := by
  have hmismatch : Settles Value.IsComputed
      (Evaluation.fail (.mismatch op.symbol [v, w]) : Eval Value) :=
    .mismatch op.symbol (forall_mem_cons.2 ⟨hv, forall_mem_singleton.2 hw⟩)
  cases op with
  | arithmetic op => exact applyArithmetic_settles hv hw op
  | equal | unequal => exact (applyEquality_settles hv hw _).bind fun b _ => .pure trivial
  | less =>
    simp only [applyBinary]
    cases v.less? w with
    | none => exact hmismatch
    | some b => exact .pure trivial
  | greater =>
    simp only [applyBinary]
    cases w.less? v with
    | none => exact hmismatch
    | some b => exact .pure trivial
  | and | or | other => exact hmismatch

end Operators

end Evaluation

end SignalCalc
