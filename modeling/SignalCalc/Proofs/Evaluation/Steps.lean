import SignalCalc.Proofs.Evaluation.Congruence

/-!
# The steps of an evaluation

An evaluation notes its steps, and never takes one back: whatever comes of it, the steps before it
are an end of the steps after it.  `AddsSteps` says this of one computation.  The building blocks of
the evaluator keep it, and so it holds of every node (`evalWithin_addsSteps`).

So the steps of a part of an evaluation are among the steps of the whole.
-/

namespace SignalCalc.Evaluation

open SignalCalc.Syntax

variable {α β : Type}

/-- The computation keeps the steps so far, whether it fails or not. -/
def AddsSteps (x : Eval α) : Prop := ∀ m : Machine, m.events <:+ (x m).2.events

namespace AddsSteps

lemma pure (a : α) : AddsSteps (Pure.pure a) := fun _ => List.suffix_refl _

lemma fail (cause : Cause) : AddsSteps (Evaluation.fail cause : Eval α) := fun _ =>
  List.suffix_refl _

lemma note (event : Event) : AddsSteps (Evaluation.note event) := fun _ => List.suffix_cons _ _

lemma modifyGet {f : Machine → α × Machine} (h : ∀ m, (f m).2.events = m.events) :
    AddsSteps (MonadStateOf.modifyGet f : Eval α) := fun m => by
  have hsame : (f m).2.events = m.events := h m
  exact hsame ▸ List.suffix_refl (f m).2.events

lemma bind {x : Eval α} {f : α → Eval β} (hx : AddsSteps x) (hf : ∀ a, AddsSteps (f a)) :
    AddsSteps (x >>= f) := by
  intro m
  have hm := hx m
  rw [run_bind]
  rcases hrun : x m with ⟨_ | a, m₁⟩
  · rwa [hrun] at hm
  · rw [hrun] at hm
    exact hm.trans (hf a m₁)

lemma claim {x : Eval α} (node : Node) (hx : AddsSteps x) : AddsSteps (claim node x) := by
  intro m
  have hm := hx m
  show _ <:+ (ExceptT.tryCatch x _ m).2.events
  simp only [ExceptT.tryCatch, ExceptT.mk, Bind.bind, StateT.bind]
  rcases hrun : x m with ⟨_ | a, m₁⟩
  · rwa [hrun] at hm
  · rwa [hrun] at hm

lemma framed {x : Eval α} (frame : Frame) (hx : AddsSteps x) : AddsSteps (framed frame x) :=
  .bind (.modifyGet fun _ => rfl) fun _ => .bind hx fun _ =>
    .bind (.modifyGet fun _ => rfl) fun _ => .pure _

lemma congruent : Congruent fun _ x _ => AddsSteps x where
  pure := pure
  fail := fail
  tooDeep _ := fail .tooDeep
  note := note
  modifyGet _ hevents := modifyGet hevents
  bind := bind
  claim := claim
  framed := framed

end AddsSteps

lemma applyEquality_addsSteps (op : BinaryOperator) (v w : Value) :
    AddsSteps (applyEquality op v w) :=
  AddsSteps.congruent.applyEquality op v w

lemma applyBinary_addsSteps (op : BinaryOperator) (v w : Value) :
    AddsSteps (applyBinary op v w) :=
  AddsSteps.congruent.applyBinary op v w

lemma applyUnary_addsSteps (op : UnaryOperator) (v : Value) : AddsSteps (applyUnary op v) :=
  AddsSteps.congruent.applyUnary op v

section

variable {body : Node → ScopeId → Eval Value} (hbody : ∀ node scope, AddsSteps (body node scope))

include hbody

lemma call_addsSteps (f : Function) (slots : List Value) : AddsSteps (call body f slots) :=
  @Congruent.call _ AddsSteps.congruent body body hbody f slots

lemma invoke_addsSteps (f : Function) (positional : List Value) (named : List (String × Value)) :
    AddsSteps (invoke body f positional named) :=
  @Congruent.invoke _ AddsSteps.congruent body body hbody f positional named

end

lemma evalArguments_addsSteps {value : Node → Eval Value} (hvalue : ∀ arg, AddsSteps (value arg))
    (function : String) (args : List Node) (positional : List Value)
    (named : List (String × Value)) :
    AddsSteps (evalArguments value function args positional named) :=
  @Congruent.evalArguments _ AddsSteps.congruent value value hvalue function args positional named

/-- An evaluation keeps the steps before it. -/
theorem evalWithin_addsSteps (depth : ℕ) (node : Node) (scope : ScopeId) :
    AddsSteps (evalWithin depth node scope) :=
  AddsSteps.congruent.evalWithin depth node scope

end SignalCalc.Evaluation
