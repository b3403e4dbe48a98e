import SignalCalc.Proofs.Printing.Rebuilt
import SignalCalc.Proofs.Session.Builtins

/-!
# The evaluation of printed sounds

Where the built-in functions have their names, the expression that builds a sound is evaluated
without failure, and its value is `Sound.rebuilt` (`Sound.expression_gives`).  Only names of
built-in functions are looked up on the way, and nothing is bound.
-/

namespace SignalCalc.Signal

open SignalCalc.Builtin
open SignalCalc.Call
open SignalCalc.Evaluation
open SignalCalc.Number
open SignalCalc.Syntax
open List

/-- An expression gives a value wherever it is read from, with enough depth for it. -/
def ExpressionGives (store : Store) (e : Node) (v : Value) : Prop :=
  ∀ node : Node, node.bare = e.bare → ∀ depth, node.height ≤ depth →
    Gives store (evalWithin depth node Store.root) v

variable {store : Store}

/-! ## Numbers and operators -/

lemma number_expressionGives (x : Float) : ExpressionGives store (.number none x) (.real x) := by
  intro node hnode depth hdepth
  obtain ⟨loc, rfl⟩ := Node.bare_eq_number hnode
  obtain ⟨depth, rfl⟩ := Nat.exists_eq_add_of_le' hdepth
  exact number_gives x

lemma unary_expressionGives {op : UnaryOperator} {e : Node} {v w : Value}
    (he : ExpressionGives store e v) (hop : applyUnary op v = pure w) :
    ExpressionGives store (.unary none op e) w := by
  intro node hnode depth hdepth
  obtain ⟨loc, operand, rfl, hoperand⟩ := Node.bare_eq_unary hnode
  rw [Node.height] at hdepth
  obtain ⟨depth, rfl⟩ := Nat.exists_eq_add_of_le' (Nat.one_le_of_lt hdepth)
  exact unary_gives (he operand hoperand depth (Nat.le_of_succ_le_succ hdepth)) hop

lemma binary_expressionGives {op : Operator} {e e' : Node} {v w u : Value}
    (he : ExpressionGives store e v) (he' : ExpressionGives store e' w)
    (hop : applyArithmetic op v w = pure u) :
    ExpressionGives store (.binary none (.arithmetic op) e e') u := by
  intro node hnode depth hdepth
  obtain ⟨loc, left, right, rfl, hleft, hright⟩ := Node.bare_eq_binary hnode
  rw [Node.height] at hdepth
  obtain ⟨depth, rfl⟩ := Nat.exists_eq_add_of_le' (Nat.one_le_of_lt hdepth)
  have hmax := max_le_iff.1 (Nat.le_of_succ_le_succ hdepth)
  exact binary_gives (he left hleft depth hmax.1) (he' right hright depth hmax.2) hop

lemma signedNode_expressionGives (negative : Bool) (size : Float) :
    ExpressionGives store (signedNode negative size)
      (.real (if negative then -size else size)) := by
  cases negative with
  | false => exact number_expressionGives size
  | true => exact unary_expressionGives (number_expressionGives size) rfl

lemma realNode_expressionGives (x : Float) :
    ExpressionGives store (realNode x) (.real (reread x)) := by
  have hgives := @signedNode_expressionGives store (x < 0.0) x.abs
  simp only [decide_eq_true_eq] at hgives
  exact hgives

lemma wholeNode_expressionGives (n : Int) :
    ExpressionGives store (wholeNode n) (.real (Float.ofInt n)) := by
  have hgives := @signedNode_expressionGives store (n < 0) (Float.ofNat n.natAbs)
  simp only [decide_eq_true_eq] at hgives
  rw [ofInt_eq]
  exact hgives

lemma wholeNumberNode_expressionGives (n : Int) :
    ExpressionGives store (wholeNumberNode n) (.real (rereadWhole n)) := by
  rw [wholeNumberNode, rereadWhole]
  split
  · exact wholeNode_expressionGives n
  · exact realNode_expressionGives (Float.ofInt n)

/-! ## Calls -/

/-- An expression in a call, with the name it is given by, and its value. -/
structure LabelledGives (store : Store) (entry : Option String × Node) (given : Given) : Prop where
  label : given.1 = entry.1
  noKeyword : ∀ loc name e, entry.2 ≠ .keyword loc name e
  gives : ExpressionGives store entry.2 given.2

lemma LabelledGives.argument {entry : Option String × Node} {given : Given}
    (h : LabelledGives store entry given) {arg : Node} {depth : ℕ}
    (harg : arg.bare = (labelledNode entry.1 entry.2).bare) (hdepth : arg.height ≤ depth) :
    ArgumentGives store (fun arg => evalWithin depth arg Store.root) arg given := by
  obtain ⟨label, e⟩ := entry
  obtain ⟨label', v⟩ := given
  obtain ⟨rfl, hkeyword, hgives⟩ := h
  cases label' with
  | none =>
    refine .positional (fun loc name value heq => ?_) (hgives arg harg depth hdepth)
    subst heq
    obtain ⟨loc', value', rfl⟩ := Node.keyword_of_bare_eq harg
    exact hkeyword loc' name value' rfl
  | some name =>
    obtain ⟨loc, value, rfl, hvalue⟩ := Node.bare_eq_keyword harg
    exact .keyword (hgives value hvalue depth hdepth)

lemma arguments_give {entries : List (Option String × Node)} {given : List Given}
    (h : Forall₂ (LabelledGives store) entries given) {args : List Node} {depth : ℕ}
    (hargs : args.map Node.bare = (entries.map fun entry => labelledNode entry.1 entry.2).map
      Node.bare) (hdepth : Node.heightAll args ≤ depth) :
    Forall₂ (ArgumentGives store fun arg => evalWithin depth arg Store.root) args given := by
  induction h generalizing args with
  | nil =>
    obtain rfl := map_eq_nil_iff.1 hargs
    exact .nil
  | cons hentry _ ih =>
    obtain ⟨arg, rest, rfl, harg, hrest⟩ := map_eq_cons_iff.1 hargs
    rw [Node.heightAll] at hdepth
    have hmax := max_le_iff.1 hdepth
    exact .cons (hentry.argument harg hmax.1) (ih hrest hmax.2)

/-- A call gives what its function makes of the values of its arguments. -/
lemma callNode_expressionGives {name : String} {f : Function} {given : List Given} {v : Value}
    {entries : List (Option String × Node)}
    (hf : store.lookup? Store.root name = some (.function f))
    (hentries : Forall₂ (LabelledGives store) entries given)
    (hnodup : ((namedValues given).map Prod.fst).Nodup)
    (hinvoke : ∀ body, Gives store (invoke body f (positionalValues given) (namedValues given)) v) :
    ExpressionGives store
      (callNode name (entries.map fun entry => labelledNode entry.1 entry.2)) v := by
  intro node hnode depth hdepth
  obtain ⟨loc, callee, args, rfl, hcallee, hargs⟩ := Node.bare_eq_invocation hnode
  obtain ⟨loc', rfl⟩ := Node.bare_eq_identifier hcallee
  rw [Node.height] at hdepth
  obtain ⟨depth, rfl⟩ := Nat.exists_eq_add_of_le' (Nat.one_le_of_lt hdepth)
  have hmax := max_le_iff.1 (Nat.le_of_succ_le_succ hdepth)
  obtain ⟨depth, rfl⟩ := Nat.exists_eq_add_of_le' hmax.1
  exact invocation_gives (identifier_gives hf) (arguments_give hentries hargs hmax.2) hnodup
    (hinvoke _)

/-! ## Sounds -/

variable {s : Sound Float}

lemma signedNode_ne_keyword (negative : Bool) (size : Float) :
    ∀ loc name e, signedNode negative size ≠ .keyword loc name e := by
  intro loc name e heq
  cases negative <;> cases heq

lemma expression_ne_keyword : ∀ loc name e, s.expression ≠ .keyword loc name e := by
  intro loc name e heq
  cases s with
  | const v => exact signedNode_ne_keyword _ _ loc name e heq
  | sine frequency phase =>
    rw [Sound.expression] at heq
    split at heq <;> cases heq
  | noise seed =>
    cases seed with
    | none => cases heq
    | some seed => cases heq
  | _ => cases heq

/-- A call of a constructor with numbers gives what it builds from them. -/
lemma build_expressionGives (hstore : store.KnowsBuiltins) (c : Constructor) {slots : List Value}
    {numbers : List (Node × Float)}
    (hnumbers : ∀ entry ∈ numbers, (∀ loc name e, entry.1 ≠ .keyword loc name e) ∧
      ExpressionGives store entry.1 (.real entry.2))
    (hbind : (Function.constructor c).bind (numbers.map fun entry => .real entry.2) [] =
      .ok slots) :
    ExpressionGives store (callNode c.name (numbers.map Prod.fst)) (construct c slots) := by
  have hentries : Forall₂ (LabelledGives store)
      (numbers.map fun entry => ((none : Option String), entry.1))
      (numbers.map fun entry => ((none : Option String), Value.real entry.2)) := by
    rw [forall₂_map_left_iff, forall₂_map_right_iff, forall₂_same]
    exact fun entry hentry => ⟨rfl, (hnumbers entry hentry).1, (hnumbers entry hentry).2⟩
  have hpositional : positionalValues (numbers.map fun entry =>
      ((none : Option String), Value.real entry.2)) = numbers.map fun entry => .real entry.2 := by
    rw [positionalValues, filterMap_map, ← filterMap_eq_map]
    rfl
  have hnamed : namedValues (numbers.map fun entry =>
      ((none : Option String), Value.real entry.2)) = [] := by
    rw [namedValues, filterMap_map]
    exact filterMap_eq_nil_iff.2 fun _ _ => rfl
  have hcall := callNode_expressionGives (hstore.constructors c) hentries
    (by rw [hnamed]; exact nodup_nil) fun body => by
      rw [hpositional, hnamed]
      exact invoke_constructor_gives hbind
  rw [map_map] at hcall
  exact hcall

lemma wholeNumberNode_ne_keyword (n : Int) :
    ∀ loc name e, wholeNumberNode n ≠ .keyword loc name e := by
  rw [wholeNumberNode]
  split
  · exact signedNode_ne_keyword _ _
  · exact signedNode_ne_keyword _ _

/-- The arguments of a call that builds a sound give their values. -/
lemma arguments_labelledGive {args : List (Argument Float)}
    (hsounds : ∀ label s, Argument.sound label s ∈ args →
      ExpressionGives store s.expression s.rebuilt) :
    Forall₂ (LabelledGives store) (args.map fun arg => (arg.label, arg.expression))
      (Sound.rebuiltArguments args) := by
  induction args with
  | nil => exact .nil
  | cons arg rest ih =>
    have hrest := ih fun label s h => hsounds label s (mem_cons_of_mem arg h)
    cases arg with
    | real label x =>
      exact .cons ⟨rfl, signedNode_ne_keyword _ _, realNode_expressionGives x⟩ hrest
    | whole label n =>
      exact .cons ⟨rfl, wholeNumberNode_ne_keyword n, wholeNumberNode_expressionGives n⟩ hrest
    | sound label s =>
      exact .cons ⟨rfl, expression_ne_keyword, hsounds label s mem_cons_self⟩ hrest

lemma applyUnary_minus {v : Value} (h : IsSignal v) : applyUnary .minus v = pure (negated v) := by
  cases v with
  | real | sound => rfl
  | _ => exact h.elim

lemma applyUnary_slash {v : Value} (h : IsSignal v) : applyUnary .slash v = pure (inverted v) := by
  cases v with
  | real | sound => rfl
  | _ => exact h.elim

lemma applyArithmetic_signals {op : Operator} {v w : Value} (hv : IsSignal v) (hw : IsSignal w) :
    applyArithmetic op v w = pure (combined op v w) := by
  cases v with
  | real | sound =>
    cases w with
    | real | sound => rfl
    | _ => exact hw.elim
  | _ => exact hv.elim

/-- The expression that builds a sound has the value `Sound.rebuilt`. -/
theorem Sound.expression_gives (hstore : store.KnowsBuiltins)
    (h : s.Everywhere Sound.IsPrintable) : ExpressionGives store s.expression s.rebuilt := by
  have hreal : ∀ x, (∀ loc name e, realNode x ≠ .keyword loc name e) ∧
      ExpressionGives store (realNode x) (.real (reread x)) := fun x =>
    ⟨signedNode_ne_keyword _ _, realNode_expressionGives x⟩
  induction s with
  | const v => exact realNode_expressionGives v
  | linear slope intercept =>
    refine @build_expressionGives store hstore .linear _
      [(realNode slope, reread slope), (realNode intercept, reread intercept)] ?_ rfl
    exact forall_mem_cons.2 ⟨hreal slope, forall_mem_singleton.2 (hreal intercept)⟩
  | sine frequency phase =>
    rw [Sound.expression, Sound.rebuilt]
    split
    · exact @build_expressionGives store hstore .sine _ [(realNode frequency, reread frequency)]
        (forall_mem_singleton.2 (hreal frequency)) rfl
    · refine @build_expressionGives store hstore .sine _
        [(realNode frequency, reread frequency), (realNode phase, reread phase)] ?_ rfl
      exact forall_mem_cons.2 ⟨hreal frequency, forall_mem_singleton.2 (hreal phase)⟩
  | decay coefficient intercept => exact (everywhere_decay.1 h).2.elim
  | noise seed =>
    cases seed with
    | none => exact @build_expressionGives store hstore .rand _ [] (forall_mem_nil _) rfl
    | some seed =>
      have hexact : IsExact seed := (everywhere_noise.1 h).2 seed rfl
      have hbuilt : construct .noise [.real (Float.ofInt seed)] = .sound (.noise (some seed)) :=
        congrArg (fun seed => Value.sound (.noise seed)) hexact.truncate?_eq
      rw [Sound.rebuilt, ← hbuilt]
      exact @build_expressionGives store hstore .noise _ [(wholeNode seed, Float.ofInt seed)]
        (forall_mem_singleton.2 ⟨signedNode_ne_keyword _ _, wholeNode_expressionGives seed⟩) rfl
  | minus s ih =>
    obtain ⟨-, hs⟩ := everywhere_minus.1 h
    exact unary_expressionGives (ih hs) (applyUnary_minus (Sound.rebuilt_isSignal hs))
  | reciprocal s ih =>
    obtain ⟨-, hs⟩ := everywhere_reciprocal.1 h
    exact unary_expressionGives (ih hs) (applyUnary_slash (Sound.rebuilt_isSignal hs))
  | binary op left right ihl ihr =>
    obtain ⟨-, hl, hr⟩ := everywhere_binary.1 h
    exact binary_expressionGives (ihl hl) (ihr hr)
      (applyArithmetic_signals (Sound.rebuilt_isSignal hl) (Sound.rebuilt_isSignal hr))
  | apply f args ih =>
    obtain ⟨⟨-, f, rfl, happlication⟩, hargs⟩ := everywhere_apply.1 h
    have hentries := arguments_labelledGive fun label s hs => ih label s hs (hargs label s hs)
    have hsignals := isSignal_rebuiltArguments fun label s hs =>
      Sound.rebuilt_isSignal (hargs label s hs)
    obtain ⟨slots, hbind, -⟩ := happlication.exists_bind hsignals
    have hcall := callNode_expressionGives (hstore.realFunctions f) hentries
      (Signature.names_nodup_of_bind hbind) fun body => invoke_real_gives hbind
    rw [map_map] at hcall
    rw [Sound.expression, argumentExpressions_eq, Sound.rebuilt, applied]
    simp only [hbind]
    exact hcall

end SignalCalc.Signal
