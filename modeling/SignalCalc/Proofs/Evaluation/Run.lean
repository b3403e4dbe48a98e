import Mathlib.Data.Nat.Notation
import Mathlib.Tactic.Lemma
import SignalCalc.Evaluation.Evaluator

/-!
# Runs of an evaluation

An `Eval` is a function from a machine to an outcome and the machine after it.  The lemmas here
say what the building blocks of the evaluator do as such functions, so that proofs about it never
look into the monad, and how calls and arguments are put together from these blocks.
-/

namespace SignalCalc.Evaluation

open SignalCalc.Builtin
open SignalCalc.Signal
open SignalCalc.Syntax

variable {α β : Type}

lemma run_bind (x : Eval α) (f : α → Eval β) (m : Machine) :
    (x >>= f) m = match x m with
      | (.ok a, m₁) => f a m₁
      | (.error e, m₁) => (.error e, m₁) := by
  show (ExceptT.bind x f) m = _
  simp only [ExceptT.bind, ExceptT.mk, bind, StateT.bind]
  rcases x m with ⟨_ | a, m₁⟩ <;> rfl

/-- Two computations in a row succeed where both do. -/
lemma run_bind_eq_ok {x : Eval α} {f : α → Eval β} {m m₂ : Machine} {b : β} :
    (x >>= f) m = (.ok b, m₂) ↔ ∃ a m₁, x m = (.ok a, m₁) ∧ f a m₁ = (.ok b, m₂) := by
  rw [run_bind]
  rcases x m with ⟨_ | a, m₁⟩
  · constructor
    · intro h
      cases h
    · rintro ⟨_, _, ⟨⟩, _⟩
  · refine ⟨fun h => ⟨a, m₁, rfl, h⟩, ?_⟩
    rintro ⟨_, _, ⟨⟩, h⟩
    exact h

lemma run_bind_of_ok {x : Eval α} {f : α → Eval β} {m m₁ : Machine} {a : α}
    (h : x m = (.ok a, m₁)) : (x >>= f) m = f a m₁ := by
  rw [run_bind, h]

/-- Claiming a failure for a node does not touch a success. -/
lemma run_claim_eq_ok {node : Syntax.Node} {x : Eval α} {m m₁ : Machine} {a : α} :
    claim node x m = (.ok a, m₁) ↔ x m = (.ok a, m₁) := by
  show (ExceptT.tryCatch x _) m = _ ↔ _
  simp only [ExceptT.tryCatch, ExceptT.mk, bind, StateT.bind]
  rcases x m with ⟨_ | a, m₁⟩
  · exact ⟨fun h => (by cases h), fun h => (by cases h)⟩
  · exact Iff.rfl

/-- The failure of an error that no inner node has claimed, claimed by this node. -/
def claimedBy (node : Syntax.Node) (failure : Failure) : Failure :=
  ⟨failure.cause,
    if failure.cause.isLanguageError then failure.node.or (some node) else failure.node⟩

lemma run_claim (node : Syntax.Node) (x : Eval α) (m : Machine) :
    claim node x m = ((x m).1.mapError (claimedBy node), (x m).2) := by
  show (ExceptT.tryCatch x _) m = _
  simp only [ExceptT.tryCatch, ExceptT.mk, bind, StateT.bind]
  rcases x m with ⟨_ | a, m₁⟩ <;> rfl

/-! ## Calls -/

/-- A computation with a frame around it, which stays if the computation fails. -/
def framed (frame : Frame) (x : Eval α) : Eval α := do
  modify fun m => { m with frames := frame :: m.frames }
  let result ← x
  modify fun m => { m with frames := m.frames.drop 1 }
  return result

lemma run_framed (frame : Frame) (x : Eval α) (m : Machine) :
    framed frame x m = match x { m with frames := frame :: m.frames } with
      | (.ok a, m₁) => (.ok a, { m₁ with frames := m₁.frames.drop 1 })
      | (.error e, m₁) => (.error e, m₁) := by
  show (x >>= fun result => _) { m with frames := frame :: m.frames } = _
  rw [run_bind]
  rcases x { m with frames := frame :: m.frames } with ⟨_ | a, m₁⟩ <;> rfl

/-- The function becomes a sound if it gets one of these slots. -/
def Promotes (f : Function) (slots : List Value) : Prop :=
  (∃ g, f = .real g) ∧ slots.any Value.isSound = true

variable {body : Node → ScopeId → Eval Value} {f : Function} {positional slots : List Value}
  {named : List (String × Value)}

lemma invoke_of_error {e : Call.BindError Value} (h : f.bind positional named = .error e) :
    invoke body f positional named = fail (.ofBindError f.name e) := by
  unfold invoke
  rw [h]
  rfl

/-- A call whose slots are filled is put off or made. -/
lemma invoke_of_ok : f.bind positional named = .ok slots →
    invoke body f positional named =
      match f, slots.any Value.isSound with
      | .real g, true =>
        note (.promoted g.name (slots.map Value.typeName)) >>= fun _ =>
          pure (.sound (promoted g positional named))
      | _, _ => framed ⟨f.name, slots⟩ (call body f slots) := by
  intro h
  have hpure : ∀ k : List Value → Eval Value, (Pure.pure slots >>= k) = k slots := fun _ => rfl
  unfold invoke
  rw [h]
  dsimp only
  rw [hpure]
  rfl

lemma invoke_promoted {g : RealFunction} (h : (Function.real g).bind positional named = .ok slots)
    (hsound : slots.any Value.isSound = true) :
    invoke body (.real g) positional named =
      note (.promoted g.name (slots.map Value.typeName)) >>= fun _ =>
        pure (.sound (promoted g positional named)) := by
  rw [invoke_of_ok h, hsound]

lemma invoke_framed (h : f.bind positional named = .ok slots) (hf : ¬Promotes f slots) :
    invoke body f positional named = framed ⟨f.name, slots⟩ (call body f slots) := by
  rw [invoke_of_ok h]
  cases f with
  | real g =>
    have hsilent : slots.any Value.isSound = false :=
      Bool.eq_false_iff.2 fun hsound => hf ⟨⟨g, rfl⟩, hsound⟩
    rw [hsilent]
  | constructor c => rfl
  | user f => rfl

/-! ## Arguments -/

variable {value : Node → Eval Value} {function : String} {rest : List Node}

lemma evalArguments_keyword (loc : Option Location) (name : String) (arg : Node)
    (hfree : named.any (·.1 == name) = false) :
    evalArguments value function (.keyword loc name arg :: rest) positional named =
      value arg >>= fun v =>
        evalArguments value function rest positional (named ++ [(name, v)]) := by
  rw [evalArguments, hfree]
  rfl

lemma evalArguments_keyword_twice (loc : Option Location) (name : String) (arg : Node)
    (htaken : named.any (·.1 == name) = true) :
    evalArguments value function (.keyword loc name arg :: rest) positional named =
      fail (.secondValue function name) := by
  rw [evalArguments, htaken]
  rfl

lemma evalArguments_positional {arg : Node} (harg : ∀ loc name v, arg ≠ .keyword loc name v) :
    evalArguments value function (arg :: rest) positional named =
      value arg >>= fun v => evalArguments value function rest (positional ++ [v]) named := by
  cases arg with
  | keyword loc name v => exact absurd rfl (harg loc name v)
  | _ => rfl

/-! ## Nodes -/

/-- A name has the value that is seen for it. -/
lemma evalWithin_identifier (depth : ℕ) (loc : Option Location) (name : String) (scope : ScopeId)
    (m : Machine) : evalWithin (depth + 1) (.identifier loc name) scope m =
      match m.store.lookup? scope name with
      | some v => (.ok v, m)
      | none => (.error ⟨.undefinedVariable name, some (.identifier loc name)⟩, m) := by
  show claim _ (fun m => (match m.store.lookup? scope name with
    | some v => (Pure.pure v : Eval Value)
    | none => fail (.undefinedVariable name)) m) m = _
  rw [run_claim]
  cases m.store.lookup? scope name <;> rfl

/-- A function that the callee gives is called with the values of the arguments. -/
lemma evalWithin_invocation {depth : ℕ} {callee : Node} {scope : ScopeId} {m m₁ : Machine}
    (h : evalWithin depth callee scope m = (.ok (.function f), m₁)) (loc : Option Location)
    (args : List Node) :
    evalWithin (depth + 1) (.invocation loc callee args) scope m =
      claim (.invocation loc callee args)
        (evalArguments (fun arg => evalWithin depth arg scope) f.name args [] [] >>= fun args =>
          invoke (evalWithin depth) f args.1 args.2) m₁ := by
  show claim _ (_ >>= _) m = _
  rw [run_claim, run_claim, run_bind_of_ok h]

/-- An operator that is not logical has the values of both its operands. -/
lemma evalWithin_binary {op : BinaryOperator} (hand : op ≠ .and) (hor : op ≠ .or) (depth : ℕ)
    (loc : Option Location) (left right : Node) (scope : ScopeId) :
    evalWithin (depth + 1) (.binary loc op left right) scope =
      claim (.binary loc op left right) (evalWithin depth left scope >>= fun l =>
        evalWithin depth right scope >>= fun r => applyBinary op l r) := by
  cases op with
  | and => exact absurd rfl hand
  | or => exact absurd rfl hor
  | _ => rfl

end SignalCalc.Evaluation
