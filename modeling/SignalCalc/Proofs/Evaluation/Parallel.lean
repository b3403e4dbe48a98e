import SignalCalc.Proofs.Evaluation.MatchedStore
import SignalCalc.Proofs.Evaluation.Translation
import SignalCalc.Proofs.Evaluation.UnderWay

/-!
# Evaluations that run in parallel

From machines that match, the evaluations of two nodes that are equal but for their places take the same
steps: they end with values that match, or for causes of the same name and message, in machines that match
again (`evalWithin_parallel`).  A call gives both machines a new scope, and from then on the two stand for
each other; so what was matched before is matched along a larger matching afterwards.  Names are bound in
step with each other as well, so the order of the names in the first scopes stays the same if it was.
-/

namespace SignalCalc.Evaluation

open SignalCalc.Builtin
open SignalCalc.Call
open SignalCalc.Signal
open SignalCalc.Syntax
open List

variable {α β γ δ : Type} {ρ σ : Matching} {R : Matching → α → β → Prop} {S : Matching → γ → δ → Prop}

/-- Two runs that end with related results or with failures that are alike, in machines that match. -/
structure EndsAlike (R : Matching → α → β → Prop) (ρ : Matching) (r : Except Failure α × Machine)
    (r' : Except Failure β × Machine) : Prop where
  outcome : Paired Failure.Alike (R ρ) r.1 r'.1
  machine : r.2.Matches ρ r'.2

/-- From machines that match, the two computations end alike.  There may be more scopes that stand for each
other then, and first scopes with the same names in the same order are still so. -/
def Parallel (ρ : Matching) (R : Matching → α → β → Prop) (x : Eval α) (x' : Eval β) : Prop :=
  ∀ m m', m.Matches ρ m' → ∃ σ, ρ ≤ σ ∧ EndsAlike R σ (x m) (x' m') ∧
    (m.store.SameOrder m'.store → (x m).2.store.SameOrder (x' m').2.store)

namespace Parallel

lemma pure {a : α} {b : β} (h : R ρ a b) : Parallel ρ R (Pure.pure a) (Pure.pure b) :=
  fun _ _ hm => ⟨ρ, le_rfl, ⟨h, hm⟩, id⟩

lemma fail {cause cause' : Cause} (h : cause.Alike cause') :
    Parallel ρ R (Evaluation.fail cause) (Evaluation.fail cause') :=
  fun _ _ hm => ⟨ρ, le_rfl, ⟨⟨h, rfl⟩, hm⟩, id⟩

lemma exactly {R : Matching → α → α → Prop} {r : Except TooLarge α} (h : ∀ a, r = .ok a → R ρ a a) :
    Parallel ρ R (Evaluation.exactly r) (Evaluation.exactly r) := by
  cases r with
  | ok a => exact pure (h a rfl)
  | error e => exact fail (.refl _)

lemma modifyGet {f : Machine → α × Machine} {f' : Machine → β × Machine}
    (h : ∀ m m', m.Matches ρ m' → ∃ σ, ρ ≤ σ ∧ R σ (f m).1 (f' m').1 ∧ (f m).2.Matches σ (f' m').2 ∧
      (m.store.SameOrder m'.store → (f m).2.store.SameOrder (f' m').2.store)) :
    Parallel ρ R (MonadStateOf.modifyGet f : Eval α) (MonadStateOf.modifyGet f') := by
  intro m m' hm
  obtain ⟨σ, hσ, hresult, hmachine, horder⟩ := h m m' hm
  exact ⟨σ, hσ, ⟨hresult, hmachine⟩, horder⟩

lemma note (event event' : Event) :
    Parallel ρ (fun _ _ _ => True) (Evaluation.note event) (Evaluation.note event') :=
  modifyGet fun _ _ hm => ⟨ρ, le_rfl, trivial, ⟨hm.store, hm.frames⟩, id⟩

lemma bind {x : Eval α} {x' : Eval β} {f : α → Eval γ} {f' : β → Eval δ} (hx : Parallel ρ R x x')
    (hf : ∀ σ, ρ ≤ σ → ∀ a b, R σ a b → Parallel σ S (f a) (f' b)) :
    Parallel ρ S (x >>= f) (x' >>= f') := by
  intro m m' hm
  obtain ⟨σ, hσ, ⟨houtcome, hmachine⟩, horder⟩ := hx m m' hm
  rw [run_bind, run_bind]
  generalize x m = run, x' m' = run' at houtcome hmachine horder ⊢
  obtain ⟨_ | a, m₁⟩ := run <;> obtain ⟨_ | b, m₁'⟩ := run'
  · exact ⟨σ, hσ, ⟨houtcome, hmachine⟩, horder⟩
  · exact houtcome.elim
  · exact houtcome.elim
  · obtain ⟨τ, hτ, hends, horder'⟩ := hf σ hσ a b houtcome m₁ m₁' hmachine
    exact ⟨τ, hσ.trans hτ, hends, horder' ∘ horder⟩

/-- Failures that are alike are claimed alike. -/
lemma claim {node node' : Node} (hnode : node.bare = node'.bare) {x : Eval α} {x' : Eval β}
    (hx : Parallel ρ R x x') : Parallel ρ R (claim node x) (claim node' x') := by
  intro m m' hm
  obtain ⟨σ, hσ, ⟨houtcome, hmachine⟩, horder⟩ := hx m m' hm
  rw [run_claim, run_claim]
  refine ⟨σ, hσ, ⟨?_, hmachine⟩, horder⟩
  generalize (x m).1 = r, (x' m').1 = r' at houtcome ⊢
  cases r with
  | ok a =>
    cases r' with
    | ok b => exact houtcome
    | error => exact houtcome.elim
  | error failure =>
    cases r' with
    | ok => exact houtcome.elim
    | error failure' =>
      obtain ⟨hcause, hplace⟩ := houtcome
      refine ⟨hcause, ?_⟩
      unfold claimedBy
      rw [hcause.isLanguageError_eq]
      dsimp only
      split
      · generalize failure.node = n, failure'.node = n' at hplace ⊢
        cases n <;> cases n' <;> simp_all
      · exact hplace

lemma framed {frame frame' : Frame} (hframe : frame.Matches ρ frame') {x : Eval α} {x' : Eval β}
    (hx : Parallel ρ R x x') : Parallel ρ R (framed frame x) (framed frame' x') := by
  intro m m' hm
  obtain ⟨σ, hσ, ⟨houtcome, hmachine⟩, horder⟩ := hx { m with frames := frame :: m.frames }
    { m' with frames := frame' :: m'.frames } ⟨hm.store, .cons hframe hm.frames⟩
  rw [run_framed, run_framed]
  generalize x _ = run, x' _ = run' at houtcome hmachine horder ⊢
  obtain ⟨_ | a, m₁⟩ := run <;> obtain ⟨_ | b, m₁'⟩ := run'
  · exact ⟨σ, hσ, ⟨houtcome, hmachine⟩, horder⟩
  · exact houtcome.elim
  · exact houtcome.elim
  · exact ⟨σ, hσ, ⟨houtcome, hmachine.store, forall₂_drop 1 hmachine.frames⟩, horder⟩

end Parallel

/-! ## Operators -/

variable {v v' w w' : Value}

lemma applyUnary_parallel (op : UnaryOperator) (h : v.Matches ρ w) :
    Parallel ρ Value.Matches (applyUnary op v) (applyUnary op w) := by
  cases h with
  | plain =>
    unfold applyUnary
    split
    case h_8 =>
      refine .bind (R := fun _ => Eq) (.exactly fun _ _ => rfl) ?_
      rintro _ - x _ rfl
      exact .pure (.plain trivial)
    case h_11 => exact .fail (.refl _)
    all_goals exact .pure (.plain trivial)
  | function h => cases op <;> exact .fail (Cause.alike_mismatch _ (.cons (.function h) .nil))
  | list h => cases op <;> exact .fail (Cause.alike_mismatch _ (.cons (.list h) .nil))

lemma lift?_of_not_isPlain (h : ¬v.IsPlain) : v.lift? = none := by
  cases v with
  | function | list => rfl
  | _ => exact absurd trivial h

/-- No operator works on functions. -/
lemma applyBinary_of_not_isPlain (op : BinaryOperator) (h : ¬v.IsPlain ∨ ¬w.IsPlain) :
    applyBinary op v w = fail (.mismatch op.symbol [v, w]) := by
  cases op with
  | arithmetic op =>
    have hlift : v.lift? = none ∨ w.lift? = none :=
      h.imp lift?_of_not_isPlain lift?_of_not_isPlain
    rcases Translation.applyArithmetic_of_lift?_eq_none op hlift with ⟨a, b, -, rfl, rfl⟩ | hfail
    · exact h.elim (absurd trivial) (absurd trivial)
    · exact hfail
  | _ =>
    rcases h with h | h
    · cases v with
      | function | list => cases w <;> rfl
      | _ => exact absurd trivial h
    · cases w with
      | function | list => cases v <;> rfl
      | _ => exact absurd trivial h

lemma applyArithmetic_parallel_self (op : Operator) (v w : Value) :
    Parallel ρ Value.Matches (applyArithmetic op v w) (applyArithmetic op v w) := by
  unfold applyArithmetic
  split
  · rename_i r hr
    exact .exactly fun u hu => .plain (isNumber_arithmetic (hr.trans (congrArg some hu))).isPlain
  · split
    · refine .bind (R := fun _ => Eq) (.exactly fun _ _ => rfl) ?_
      rintro _ - l _ rfl
      refine .bind (R := fun _ => Eq) (.exactly fun _ _ => rfl) ?_
      rintro _ - r _ rfl
      exact .pure (.plain trivial)
    · exact .pure (.plain trivial)
    · exact .fail (.refl _)

lemma applyEquality_parallel_self (op : BinaryOperator) (v w : Value) :
    Parallel ρ (fun _ => Eq) (applyEquality op v w) (applyEquality op v w) := by
  unfold applyEquality
  split
  · exact .exactly fun _ _ => rfl
  · split
    · exact .pure rfl
    · exact .pure rfl
    · exact .fail (.refl _)

/-- Operators give no functions. -/
lemma applyBinary_parallel_self (op : BinaryOperator) (v w : Value) :
    Parallel ρ Value.Matches (applyBinary op v w) (applyBinary op v w) := by
  cases op with
  | arithmetic op => exact applyArithmetic_parallel_self op v w
  | equal | unequal =>
    refine .bind (applyEquality_parallel_self _ v w) ?_
    rintro _ - b _ rfl
    exact .pure (.plain trivial)
  | less | greater =>
    simp only [applyBinary]
    split
    · exact .pure (.plain trivial)
    · exact .fail (.refl _)
  | and | or | other => exact .fail (.refl _)

lemma applyBinary_parallel (op : BinaryOperator) (hv : v.Matches ρ v') (hw : w.Matches ρ w') :
    Parallel ρ Value.Matches (applyBinary op v w) (applyBinary op v' w') := by
  by_cases hplain : v.IsPlain ∧ w.IsPlain
  · obtain rfl := hv.eq_of_isPlain hplain.1
    obtain rfl := hw.eq_of_isPlain hplain.2
    exact applyBinary_parallel_self op v w
  · have hplain' : ¬(v'.IsPlain ∧ w'.IsPlain) := by rwa [← hv.isPlain_iff, ← hw.isPlain_iff]
    rw [applyBinary_of_not_isPlain op (not_and_or.1 hplain),
      applyBinary_of_not_isPlain op (not_and_or.1 hplain')]
    exact .fail (Cause.alike_mismatch _ (.cons hv (.cons hw .nil)))

lemma applyLogical_parallel (op : BinaryOperator) (decisive : Bool)
    {left left' right right' : Eval Value} (hleft : Parallel ρ Value.Matches left left')
    (hright : ∀ σ, ρ ≤ σ → Parallel σ Value.Matches right right') :
    Parallel ρ Value.Matches (applyLogical op decisive left right)
      (applyLogical op decisive left' right') := by
  refine .bind hleft fun σ hσ v w h => ?_
  cases h with
  | @plain v hv =>
    cases v with
    | bool l =>
      show Parallel σ _ (ite (l == decisive) _ _) (ite (l == decisive) _ _)
      split
      · exact .pure (.plain trivial)
      · refine .bind (hright σ hσ) fun τ _ r r' h => ?_
        have hleft : (Value.bool l).Matches τ (.bool l) := .plain trivial
        cases h with
        | @plain r hr =>
          cases r with
          | bool => exact .pure (.plain trivial)
          | function | list => exact hr.elim
          | _ => exact .fail (.refl _)
        | function h => exact .fail (Cause.alike_mismatch _ (.cons hleft (.cons (.function h) .nil)))
        | list h => exact .fail (Cause.alike_mismatch _ (.cons hleft (.cons (.list h) .nil)))
    | function | list => exact hv.elim
    | _ => exact .fail (.refl _)
  | function h => exact .fail (Cause.alike_mismatch _ (.cons (.function h) .nil))
  | list h => exact .fail (Cause.alike_mismatch _ (.cons (.list h) .nil))

/-! ## Functions -/

/-- New functions match, wherever their bodies stand. -/
lemma define_parallel {id id' : ScopeId} (hid : ρ id id') (name : String) (params : List String)
    {body body' : Node} (hbody : body.bare = body'.bare) :
    Parallel ρ Function.Matches (define id name params body) (define id' name params body') := by
  unfold define
  split
  · exact .fail (.refl _)
  · exact .modifyGet fun _ _ hm =>
      ⟨ρ, le_rfl, .user rfl rfl hbody hid, ⟨hm.store, hm.frames⟩, fun horder => horder⟩

lemma assign_parallel {id id' : ScopeId} (hid : ρ id id') (name : String) (h : v.Matches ρ w) :
    Parallel ρ (fun _ _ _ => True) (assign id name v) (assign id' name w) :=
  .modifyGet fun _ _ hm =>
    ⟨ρ, le_rfl, trivial, ⟨hm.store.bind hid name h, hm.frames⟩, hm.store.sameOrder_bind hid name v w⟩

/-- The scopes of two calls stand for each other. -/
lemma push_parallel {f g : UserFunction} (hparams : f.params = g.params) (hscope : ρ f.scope g.scope)
    {slots slots' : List Value} (hslots : Forall₂ (Value.Matches ρ) slots slots') :
    Parallel ρ (fun σ => σ)
      (modifyGet fun m =>
        let (id, store) := m.store.push ⟨some f.scope, f.params.zip slots⟩
        (id, { m with store }))
      (modifyGet fun m =>
        let (id, store) := m.store.push ⟨some g.scope, g.params.zip slots'⟩
        (id, { m with store })) := by
  refine .modifyGet fun m m' hm => ?_
  have hmatch : Scope.Matches ρ ⟨some f.scope, f.params.zip slots⟩ ⟨some g.scope, g.params.zip slots'⟩ := by
    refine ⟨.some hscope, Scope.find?_of_bindings ?_⟩
    rw [hparams]
    exact zip_related (forall₂_same.2 fun _ _ => rfl) hslots
  have hmono := ρ.le_extend m.store.scopes.size m'.store.scopes.size
  exact ⟨_, hmono, .inr ⟨rfl, rfl⟩,
    ⟨hm.store.push hmatch, hm.frames.imp fun _ _ h => h.mono hmono⟩, hm.store.sameOrder_push _ _⟩

section

variable {body : Node → ScopeId → Eval Value}
  (hbody : ∀ {σ : Matching} {node node' : Node} {id id' : ScopeId}, node.bare = node'.bare → σ id id' →
    Parallel σ Value.Matches (body node id) (body node' id'))

include hbody

lemma call_parallel {f g : Function} (hf : f.Matches ρ g) {slots slots' : List Value}
    (hslots : Forall₂ (Value.Matches ρ) slots slots') :
    Parallel ρ Value.Matches (call body f slots) (call body g slots') := by
  refine .bind (.note _ _) fun σ hσ _ _ _ => ?_
  cases hf with
  | real f =>
    show Parallel σ _ (Pure.pure (Value.real (f.apply (slots.filterMap _))))
      (Pure.pure (Value.real (f.apply (slots'.filterMap _))))
    rw [filterMap_eq (fun v w h => ?_) hslots]
    · exact .pure (.plain trivial)
    · cases h <;> rfl
  | constructor c =>
    show Parallel σ _ (Pure.pure (construct c slots)) (Pure.pure (construct c slots'))
    rw [construct_eq_of_matches c hslots]
    exact .pure (.plain (construct_isPlain c slots'))
  | @user f g hname hparams hnode hscope =>
    exact .bind (push_parallel hparams (hσ _ _ hscope) (Value.Matches.monoAll hσ hslots))
      fun τ _ id id' hid => hbody hnode hid

lemma invoke_parallel {f g : Function} (hf : f.Matches ρ g) {vs ws : List Value}
    (hvs : Forall₂ (Value.Matches ρ) vs ws) {named named' : List (String × Value)}
    (hnamed : Forall₂ (NamedRelated (Value.Matches ρ)) named named') :
    Parallel ρ Value.Matches (invoke body f vs named) (invoke body g ws named') := by
  have hbind := hf.bind_paired hvs hnamed
  cases h : f.bind vs named with
  | error e =>
    cases h' : g.bind ws named' with
    | ok => rw [h, h'] at hbind; exact hbind.elim
    | error e' =>
      rw [h, h'] at hbind
      rw [invoke_of_error h, invoke_of_error h', hf.name_eq]
      exact .fail (Cause.alike_ofBindError _ hbind)
  | ok slots =>
    cases h' : g.bind ws named' with
    | error => rw [h, h'] at hbind; exact hbind.elim
    | ok slots' =>
      rw [h, h'] at hbind
      have hslots : Forall₂ (Value.Matches ρ) slots slots' := hbind
      have hsound := Value.Matches.any_isSound_eq hslots
      by_cases hpromotes : Promotes f slots
      · obtain ⟨⟨p, rfl⟩, hany⟩ := hpromotes
        cases hf
        rw [invoke_promoted h hany, invoke_promoted h' (hsound ▸ hany), promoted_eq_of_matches p hvs hnamed]
        exact .bind (.note _ _) fun _ _ _ _ _ => .pure (.plain trivial)
      · have hpromotes' : ¬Promotes g slots' := by
          rintro ⟨⟨p, rfl⟩, hany⟩
          cases hf
          exact hpromotes ⟨⟨p, rfl⟩, hsound.trans hany⟩
        rw [invoke_framed h hpromotes, invoke_framed h' hpromotes']
        exact .framed ⟨hf.name_eq, hslots⟩ (call_parallel hbody hf hslots)

end

/-- Values of the arguments of a call that match. -/
def MatchArguments (ρ : Matching) (given given' : List Value × List (String × Value)) : Prop :=
  Forall₂ (Value.Matches ρ) given.1 given'.1 ∧
    Forall₂ (NamedRelated (Value.Matches ρ)) given.2 given'.2

lemma evalArguments_parallel {value value' : Node → Eval Value}
    (hvalue : ∀ {σ : Matching} {arg arg' : Node}, ρ ≤ σ → arg.bare = arg'.bare →
      Parallel σ Value.Matches (value arg) (value' arg')) (function : String) {args args' : List Node}
    (hargs : Node.bareAll args = Node.bareAll args') {vs ws : List Value}
    {named named' : List (String × Value)} (hgiven : MatchArguments σ (vs, named) (ws, named'))
    (hσ : ρ ≤ σ) :
    Parallel σ MatchArguments (evalArguments value function args vs named)
      (evalArguments value' function args' ws named') := by
  induction args generalizing σ args' vs ws named named' with
  | nil =>
    cases args' with
    | nil => exact .pure hgiven
    | cons => cases hargs
  | cons arg rest ih =>
    cases args' with
    | nil => cases hargs
    | cons arg' rest' =>
      rw [Node.bareAll, Node.bareAll, cons.injEq] at hargs
      obtain ⟨harg, hrest⟩ := hargs
      by_cases hkeyword : ∃ loc name e, arg = .keyword loc name e
      · obtain ⟨loc, name, e, rfl⟩ := hkeyword
        obtain ⟨loc', e', rfl⟩ := Node.keyword_of_bare_eq harg
        obtain ⟨-, -, he⟩ := Node.keyword.inj harg
        have hany := any_name_eq_of_related hgiven.2 name
        cases htaken : named.any (·.1 == name) with
        | true =>
          rw [evalArguments_keyword_twice loc name e htaken,
            evalArguments_keyword_twice loc' name e' (hany ▸ htaken)]
          exact .fail (.refl _)
        | false =>
          rw [evalArguments_keyword loc name e htaken, evalArguments_keyword loc' name e' (hany ▸ htaken)]
          refine .bind (hvalue hσ he) fun τ hτ v w hvw => ?_
          refine ih hrest ⟨Value.Matches.monoAll hτ hgiven.1, ?_⟩ (hσ.trans hτ)
          exact rel_append (Value.Matches.monoNamed hτ hgiven.2) (.cons ⟨rfl, hvw⟩ .nil)
      · have hplain : ∀ loc name e, arg ≠ .keyword loc name e := fun loc name e h =>
          hkeyword ⟨loc, name, e, h⟩
        have hplain' : ∀ loc name e, arg' ≠ .keyword loc name e := by
          rintro loc name e rfl
          obtain ⟨loc', e', rfl⟩ := Node.keyword_of_bare_eq harg.symm
          exact hkeyword ⟨_, _, _, rfl⟩
        rw [evalArguments_positional hplain, evalArguments_positional hplain']
        refine .bind (hvalue hσ harg) fun τ hτ v w hvw => ?_
        refine ih hrest ⟨?_, Value.Matches.monoNamed hτ hgiven.2⟩ (hσ.trans hτ)
        exact rel_append (Value.Matches.monoAll hτ hgiven.1) (.cons hvw .nil)

/-! ## Nodes -/

lemma evalStatements_parallel {value value' : Node → Eval Value}
    (hvalue : ∀ {σ : Matching} {e e' : Node}, ρ ≤ σ → e.bare = e'.bare →
      Parallel σ Value.Matches (value e) (value' e')) {statements statements' : List Node}
    (h : Node.bareAll statements = Node.bareAll statements') (hlast : v.Matches σ w) (hσ : ρ ≤ σ) :
    Parallel σ Value.Matches (evalStatements value statements v)
      (evalStatements value' statements' w) := by
  induction statements generalizing σ statements' v w with
  | nil =>
    cases statements' with
    | nil => exact .pure hlast
    | cons => cases h
  | cons statement rest ih =>
    cases statements' with
    | nil => cases h
    | cons statement' rest' =>
      rw [Node.bareAll, Node.bareAll, cons.injEq] at h
      exact .bind (hvalue hσ h.1) fun τ hτ _ _ hv => ih h.2 hv (hσ.trans hτ)

lemma lookup_parallel {id id' : ScopeId} (hid : ρ id id') (name : String) :
    Parallel ρ Value.Matches
      (get >>= fun m => match m.store.lookup? id name with
        | some v => Pure.pure v
        | none => fail (.undefinedVariable name))
      (get >>= fun m => match m.store.lookup? id' name with
        | some v => Pure.pure v
        | none => fail (.undefinedVariable name)) := by
  refine .bind (R := Machine.Matches) (.modifyGet fun _ _ hm => ⟨ρ, le_rfl, hm, hm, fun horder => horder⟩)
    fun σ hσ m m' hm => ?_
  have hlookup := hm.store.lookup? (hσ _ _ hid) name
  generalize m.store.lookup? id name = v, m'.store.lookup? id' name = w at hlookup
  cases hlookup with
  | none => exact .fail (.refl _)
  | some h => exact .pure h

/-- **Evaluation does not look at places.**  From machines that match, in scopes that stand for each
other, the evaluations of nodes that are equal but for their places end with values that match or with
failures that are alike, in machines that match. -/
theorem evalWithin_parallel (depth : ℕ) {node node' : Node} (h : node.bare = node'.bare)
    {id id' : ScopeId} (hid : ρ id id') :
    Parallel ρ Value.Matches (evalWithin depth node id) (evalWithin depth node' id') := by
  induction depth generalizing ρ node node' id id' with
  | zero => exact .fail (.refl _)
  | succ depth ih =>
    cases node with
    | number loc v =>
      obtain ⟨loc', rfl⟩ := Node.bare_eq_number h.symm
      exact .claim h (.pure (.plain trivial))
    | string loc text =>
      obtain ⟨loc', rfl⟩ := Node.bare_eq_string h.symm
      exact .claim h (.pure (.plain trivial))
    | identifier loc name =>
      obtain ⟨loc', rfl⟩ := Node.bare_eq_identifier h.symm
      exact .claim h (lookup_parallel hid name)
    | unary loc op operand =>
      obtain ⟨loc', operand', rfl, hoperand⟩ := Node.bare_eq_unary h.symm
      exact .claim h (.bind (ih hoperand.symm hid) fun _ _ _ _ hv => applyUnary_parallel op hv)
    | binary loc op left right =>
      obtain ⟨loc', left', right', rfl, hleft, hright⟩ := Node.bare_eq_binary h.symm
      have hrunRight : ∀ σ, ρ ≤ σ → Parallel σ Value.Matches (evalWithin depth right id)
          (evalWithin depth right' id') := fun σ hσ => ih hright.symm (hσ _ _ hid)
      by_cases hand : op = .and
      · subst hand
        exact .claim h (applyLogical_parallel _ _ (ih hleft.symm hid) hrunRight)
      · by_cases hor : op = .or
        · subst hor
          exact .claim h (applyLogical_parallel _ _ (ih hleft.symm hid) hrunRight)
        · rw [evalWithin_binary hand hor, evalWithin_binary hand hor]
          refine .claim h (.bind (ih hleft.symm hid) fun σ hσ l l' hl => ?_)
          refine .bind (hrunRight σ hσ) fun τ hτ r r' hr => ?_
          exact applyBinary_parallel op (hl.mono hτ) hr
    | invocation loc callee args =>
      obtain ⟨loc', callee', args', rfl, hcallee, hargs⟩ := Node.bare_eq_invocation h.symm
      refine .claim h (.bind (ih hcallee.symm hid) fun σ hσ v v' hv => ?_)
      cases hv with
      | @function f g hf =>
        have hvalue : ∀ {τ : Matching} {arg arg' : Node}, σ ≤ τ → arg.bare = arg'.bare →
            Parallel τ Value.Matches (evalWithin depth arg id) (evalWithin depth arg' id') :=
          fun hτ harg => ih harg (hτ _ _ (hσ _ _ hid))
        show Parallel σ _ (evalArguments _ f.name args [] [] >>= _)
          (evalArguments _ g.name args' [] [] >>= _)
        rw [← hf.name_eq]
        refine .bind (evalArguments_parallel hvalue f.name ?_ ⟨.nil, .nil⟩ le_rfl)
          fun τ hτ given given' hgiven => ?_
        · rw [Node.bareAll_eq_map, Node.bareAll_eq_map, hargs]
        · exact invoke_parallel (fun h hid => ih h hid) (hf.mono hτ) hgiven.1 hgiven.2
      | @plain v hv =>
        cases v with
        | function => exact hv.elim
        | _ => exact .fail (.refl _)
      | list hv =>
        exact .fail (.naming (.cons (.list hv) .nil) (Cause.alike_notAFunction (.list hv)))
    | assignment loc name e =>
      cases node' with
      | assignment loc' name' e' =>
        obtain ⟨-, rfl, he⟩ := Node.assignment.inj h
        refine .claim h (.bind (ih he hid) fun σ hσ v w hv => ?_)
        refine .bind (assign_parallel (hσ _ _ hid) name hv) fun τ hτ _ _ _ => ?_
        exact .bind (.note _ _) fun υ hυ _ _ _ => .pure ((hv.mono hτ).mono hυ)
      | _ => cases h
    | definition loc name params body =>
      cases node' with
      | definition loc' name' params' body' =>
        obtain ⟨-, rfl, rfl, hbody⟩ := Node.definition.inj h
        refine .claim h (.bind (define_parallel hid name params hbody) fun σ hσ f g hf => ?_)
        refine .bind (assign_parallel (hσ _ _ hid) name (.function hf)) fun τ hτ _ _ _ => ?_
        exact .bind (.note _ _) fun υ hυ _ _ _ => .pure (.function ((hf.mono hτ).mono hυ))
      | _ => cases h
    | empty loc =>
      cases node' with
      | empty => exact .claim h (.fail (.refl _))
      | _ => cases h
    | block statements =>
      cases node' with
      | block statements' =>
        exact .claim h (evalStatements_parallel (fun hσ he => ih he (hσ _ _ hid))
          (Node.block.inj h) (.plain trivial) le_rfl)
      | _ => cases h
    | keyword loc name e =>
      cases node' with
      | keyword => exact .claim h (.fail (Cause.alike_notEvaluable h))
      | _ => cases h
    | missing =>
      cases node' with
      | missing => exact .claim h (.fail (.refl _))
      | _ => cases h

end SignalCalc.Evaluation
