import SignalCalc.Proofs.Evaluation.Balance

/-!
# Runs that fail

What the building blocks of the evaluator did when they fail.  A sequence of computations fails in one of
them, and those in front of it have results: the operands of an operator, the arguments of a call, the
statements of a block.  A rule on values ends at once, so it fails for a cause alone (`Ends`).
-/

namespace SignalCalc

open SignalCalc.Syntax

/-- The truth value of the left operand that settles a logical operator alone. -/
def Syntax.BinaryOperator.decisive? : BinaryOperator → Option Bool
  | .and => some false
  | .or => some true
  | _ => none

namespace Evaluation

variable {α β : Type}

/-! ## Runs that fail -/

section

variable {m m₁ m₂ : Machine} {failure : Failure} {cause : Cause}

lemma run_bind_eq_error {x : Eval α} {f : α → Eval β} :
    (x >>= f) m = (.error failure, m₂) ↔ x m = (.error failure, m₂) ∨
      ∃ a m₁, x m = (.ok a, m₁) ∧ f a m₁ = (.error failure, m₂) := by
  rw [run_bind]
  rcases x m with ⟨e | a, m₁⟩
  · constructor
    · rintro ⟨⟩
      exact .inl rfl
    · rintro (⟨⟨⟩⟩ | ⟨_, _, ⟨⟩, _⟩)
      rfl
  · refine ⟨fun h => .inr ⟨a, m₁, rfl, h⟩, ?_⟩
    rintro (h | ⟨_, _, ⟨⟩, h⟩)
    · cases h
    · exact h

lemma run_claim_eq_error {node : Node} {x : Eval α} :
    claim node x m = (.error failure, m₁) ↔
      ∃ inner, x m = (.error inner, m₁) ∧ failure = claimedBy node inner := by
  rw [run_claim]
  rcases x m with ⟨e | a, m₂⟩
  · constructor
    · rintro ⟨⟩
      exact ⟨e, rfl, rfl⟩
    · rintro ⟨_, ⟨⟩, rfl⟩
      rfl
  · constructor
    · rintro ⟨⟩
    · rintro ⟨_, ⟨⟩, _⟩

lemma run_fail_eq_error : (fail cause : Eval α) m = (.error failure, m₁) ↔
    failure = ⟨cause, none⟩ ∧ m₁ = m := by
  constructor
  · rintro ⟨⟩
    exact ⟨rfl, rfl⟩
  · rintro ⟨rfl, rfl⟩
    rfl

/-- A failure that belongs to a node already is not claimed again. -/
lemma claimedBy_of_node {inner : Node} (h : failure.node = some inner) (node : Node) :
    claimedBy node failure = failure := by
  obtain ⟨cause, _⟩ := failure
  obtain rfl := h
  unfold claimedBy
  split <;> rfl

lemma claimedBy_none (h : cause.isLanguageError = true) (node : Node) :
    claimedBy node ⟨cause, none⟩ = ⟨cause, some node⟩ := by
  unfold claimedBy
  rw [if_pos h]
  rfl

/-! ## Rules on values -/

/-- The computation ends at once, with a result or for a cause. -/
inductive Ends : Eval α → Prop where
  | value (a : α) : Ends (pure a)
  | fails (cause : Cause) : Ends (fail cause)

namespace Ends

lemma bind {x : Eval α} {f : α → Eval β} (hx : Ends x) (hf : ∀ a, Ends (f a)) : Ends (x >>= f) := by
  cases hx with
  | value a => exact hf a
  | fails cause => exact .fails cause

lemma exactly (r : Except TooLarge α) : Ends (exactly r) := by
  cases r with
  | ok a => exact .value a
  | error e => exact .fails _

lemma applyArithmetic (op : Signal.Operator) (v w : Value) : Ends (applyArithmetic op v w) := by
  unfold Evaluation.applyArithmetic
  split
  · exact exactly _
  · split
    · exact (exactly _).bind fun l => (exactly _).bind fun r => .value _
    · exact .value _
    · exact .fails _

lemma applyEquality (op : BinaryOperator) (v w : Value) : Ends (applyEquality op v w) := by
  unfold Evaluation.applyEquality
  split
  · exact exactly _
  · split
    · exact .value _
    · exact .value _
    · exact .fails _

lemma applyBinary (op : BinaryOperator) (v w : Value) : Ends (applyBinary op v w) := by
  cases op with
  | arithmetic op => exact applyArithmetic op v w
  | equal | unequal => exact (applyEquality _ v w).bind fun b => .value _
  | less | greater =>
    simp only [Evaluation.applyBinary]
    split
    · exact .value _
    · exact .fails _
  | and | or | other _ => exact .fails _

lemma applyUnary (op : UnaryOperator) (v : Value) : Ends (applyUnary op v) := by
  unfold Evaluation.applyUnary
  split
  case h_8 => exact (exactly _).bind fun x => .value _
  case h_11 => exact .fails _
  all_goals exact .value _

/-- A rule that fails does so for a cause alone. -/
lemma of_error {x : Eval α} (hx : Ends x) (h : x m = (.error failure, m₁)) :
    ∃ cause, x = fail cause ∧ failure = ⟨cause, none⟩ ∧ m₁ = m := by
  cases hx with
  | value a => cases h
  | fails cause => exact ⟨cause, rfl, run_fail_eq_error.1 h⟩

end Ends

lemma applyLogical_eq_error {op : BinaryOperator} {decisive : Bool} {x y : Eval Value}
    (h : applyLogical op decisive x y m = (.error failure, m₂)) :
    x m = (.error failure, m₂) ∨ ∃ v m₁, x m = (.ok v, m₁) ∧
      (((∀ b, v ≠ .bool b) ∧ failure = ⟨.mismatch op.symbol [v], none⟩ ∧ m₂ = m₁) ∨
        (v = .bool !decisive ∧ (y m₁ = (.error failure, m₂) ∨ ∃ w, y m₁ = (.ok w, m₂) ∧
          (∀ b, w ≠ .bool b) ∧ failure = ⟨.mismatch op.symbol [v, w], none⟩))) := by
  refine (run_bind_eq_error.1 h).imp id ?_
  rintro ⟨v, m₁, hx, hv⟩
  refine ⟨v, m₁, hx, ?_⟩
  split at hv
  · rename_i b
    split at hv
    · cases hv
    · rename_i hb
      obtain rfl : b = !decisive := Bool.eq_not_of_ne (by simpa using hb)
      refine .inr ⟨rfl, (run_bind_eq_error.1 hv).imp id ?_⟩
      rintro ⟨w, m₃, hy, hw⟩
      split at hw
      · cases hw
      · rename_i hbool
        obtain ⟨rfl, rfl⟩ := run_fail_eq_error.1 hw
        exact ⟨w, hy, fun b hb => hbool b hb, rfl⟩
  · rename_i hbool
    obtain ⟨rfl, rfl⟩ := run_fail_eq_error.1 hv
    exact .inl ⟨fun b hb => hbool b hb, rfl, rfl⟩

end

/-! ## Arguments and statements -/

section

variable {m m' m₁ : Machine} {failure : Failure} {value : Node → Eval Value} {function : String}

/-- An argument, with its name if it has one. -/
def labelled : Option (Option Location × String) → Node → Node
  | none, arg => arg
  | some (loc, name), arg => .keyword loc name arg

/-- The node is no argument with a name. -/
def IsPlain (arg : Node) : Prop := ∀ loc name e, arg ≠ .keyword loc name e

/-- No argument has the name yet. -/
def IsFree (label : Option (Option Location × String)) (named : List (String × Value)) : Prop :=
  ∀ entry ∈ label, named.any (·.1 == entry.2) = false

lemma isFree_or (label : Option (Option Location × String)) (named : List (String × Value)) :
    IsFree label named ∨
      ∃ loc name, label = some (loc, name) ∧ named.any (·.1 == name) = true := by
  cases label with
  | none => exact .inl nofun
  | some entry =>
    cases h : named.any (·.1 == entry.2) with
    | true => exact .inr ⟨entry.1, entry.2, rfl, h⟩
    | false => exact .inl fun _ hentry => Option.some.inj hentry ▸ h

/-- The next argument fails, either by its value or because its name has a value already. -/
def ArgumentFails (value : Node → Eval Value) (function : String)
    (label : Option (Option Location × String)) (arg : Node) (named : List (String × Value))
    (m : Machine) (failure : Failure) (m₁ : Machine) : Prop :=
  (IsFree label named ∧ (label = none → IsPlain arg) ∧ value arg m = (.error failure, m₁)) ∨
    ∃ loc name, label = some (loc, name) ∧ named.any (·.1 == name) = true ∧
      failure = ⟨.secondValue function name, none⟩ ∧ m₁ = m

lemma exists_labelled (arg : Node) :
    ∃ label e, arg = labelled label e ∧ (label = none → IsPlain e) := by
  by_cases hkeyword : ∃ loc name e, arg = .keyword loc name e
  · obtain ⟨loc, name, e, rfl⟩ := hkeyword
    exact ⟨some (loc, name), e, rfl, nofun⟩
  · exact ⟨none, arg, rfl, fun _ loc name e h => hkeyword ⟨loc, name, e, h⟩⟩

/-- The values of the arguments with one more. -/
def withArgument (args : List Value × List (String × Value)) (v : Value) :
    Option (Option Location × String) → List Value × List (String × Value)
  | none => (args.1 ++ [v], args.2)
  | some (_, name) => (args.1, args.2 ++ [(name, v)])

lemma evalArguments_labelled {label : Option (Option Location × String)} {arg : Node}
    {args : List Value × List (String × Value)} (hfree : IsFree label args.2)
    (hplain : label = none → IsPlain arg) (rest : List Node) :
    evalArguments value function (labelled label arg :: rest) args.1 args.2 =
      value arg >>= fun v =>
        evalArguments value function rest (withArgument args v label).1
          (withArgument args v label).2 := by
  cases label with
  | none => exact evalArguments_positional (hplain rfl)
  | some entry => exact evalArguments_keyword entry.1 entry.2 arg (hfree entry rfl)

/-- Arguments fail at the first one that does; those in front of it have values. -/
lemma exists_argumentFails {args : List Node} (given : List Value × List (String × Value))
    (h : evalArguments value function args given.1 given.2 m = (.error failure, m₁)) :
    ∃ before label arg after given' m', args = before ++ labelled label arg :: after ∧
      evalArguments value function before given.1 given.2 m = (.ok given', m') ∧
      ArgumentFails value function label arg given'.2 m' failure m₁ := by
  induction args generalizing given m with
  | nil => cases h
  | cons arg rest ih =>
    obtain ⟨label, e, rfl, hplain⟩ := exists_labelled arg
    rcases isFree_or label given.2 with hfree | ⟨loc, name, rfl, htaken⟩
    · rw [evalArguments_labelled hfree hplain] at h
      rcases run_bind_eq_error.1 h with hfails | ⟨v, m', hv, hrest⟩
      · exact ⟨[], label, e, rest, given, m, rfl, rfl, .inl ⟨hfree, hplain, hfails⟩⟩
      · obtain ⟨before, label', arg, after, given', m'', rfl, hbefore, hfails⟩ := ih _ hrest
        refine ⟨labelled label e :: before, label', arg, after, given', m'', rfl, ?_, hfails⟩
        rw [evalArguments_labelled hfree hplain, run_bind_of_ok hv, hbefore]
    · rw [labelled, evalArguments_keyword_twice loc name e htaken] at h
      obtain ⟨hfailure, hm⟩ := run_fail_eq_error.1 h
      exact ⟨[], some (loc, name), e, rest, given, m, rfl, rfl, .inr ⟨loc, name, rfl, htaken,
        hfailure, hm⟩⟩

/-- Behind arguments that have values the next one is evaluated. -/
lemma evalArguments_next {before : List Node} (given : List Value × List (String × Value))
    {given' : List Value × List (String × Value)}
    (h : evalArguments value function before given.1 given.2 m = (.ok given', m')) (rest : List Node) :
    evalArguments value function (before ++ rest) given.1 given.2 m =
      evalArguments value function rest given'.1 given'.2 m' := by
  induction before generalizing given m with
  | nil =>
    obtain ⟨hgiven, rfl⟩ := Prod.mk.inj h
    obtain rfl := Except.ok.inj hgiven
    rfl
  | cons arg before ih =>
    obtain ⟨label, e, rfl, hplain⟩ := exists_labelled arg
    rcases isFree_or label given.2 with hfree | ⟨loc, name, rfl, htaken⟩
    · rw [evalArguments_labelled hfree hplain] at h
      obtain ⟨v, m'', hv, hrest⟩ := run_bind_eq_ok.1 h
      rw [List.cons_append, evalArguments_labelled hfree hplain, run_bind_of_ok hv, ih _ hrest]
    · rw [labelled, evalArguments_keyword_twice loc name e htaken] at h
      cases h

/-- The value of the last statement, or the given one. -/
def evalStatements (value : Node → Eval Value) (statements : List Node) (last : Value) : Eval Value :=
  statements.foldlM (fun _ statement => value statement) last

lemma evalStatements_cons (statement : Node) (rest : List Node) (last : Value) :
    evalStatements value (statement :: rest) last =
      value statement >>= evalStatements value rest := rfl

lemma exists_statementFails {statements : List Node} {last : Value}
    (h : evalStatements value statements last m = (.error failure, m₁)) :
    ∃ before statement after v m', statements = before ++ statement :: after ∧
      evalStatements value before last m = (.ok v, m') ∧
      value statement m' = (.error failure, m₁) := by
  induction statements generalizing last m with
  | nil => cases h
  | cons statement rest ih =>
    rw [evalStatements_cons] at h
    rcases run_bind_eq_error.1 h with hfails | ⟨v, m', hv, hrest⟩
    · exact ⟨[], statement, rest, last, m, rfl, rfl, hfails⟩
    · obtain ⟨before, statement', after, w, m'', rfl, hbefore, hfails⟩ := ih hrest
      refine ⟨statement :: before, statement', after, w, m'', rfl, ?_, hfails⟩
      rw [evalStatements_cons, run_bind_of_ok hv, hbefore]

lemma evalStatements_next {before : List Node} {last v : Value}
    (h : evalStatements value before last m = (.ok v, m')) (rest : List Node) :
    evalStatements value (before ++ rest) last m = evalStatements value rest v m' := by
  unfold evalStatements at h ⊢
  rw [List.foldlM_append, run_bind_of_ok h]

end

/-! ## Functions -/

/-- The machine in which the body of a function is evaluated. -/
def enter (f : UserFunction) (slots : List Value) (m : Machine) : Machine :=
  { m with
    frames := ⟨f.name, slots⟩ :: m.frames
    events := .called .user f.name slots.length :: m.events
    store := (m.store.push ⟨some f.scope, f.params.zip slots⟩).2 }

/-- A definition fails because a parameter stands twice. -/
lemma exists_of_define_eq_error {scope : ScopeId} {name : String} {params : List String}
    {body : Node} {m m₁ : Machine} {failure : Failure}
    (h : define scope name params body m = (.error failure, m₁)) :
    ∃ param, repeatedName? [] params = some param ∧
      failure = ⟨.duplicateParameter name param, none⟩ ∧ m₁ = m := by
  unfold define at h
  cases hparam : repeatedName? [] params with
  | some param =>
    rw [hparam] at h
    exact ⟨param, rfl, run_fail_eq_error.1 h⟩
  | none =>
    rw [hparam] at h
    cases h

/-- A call of a function fails because the arguments do not fit, or in its body. -/
lemma exists_of_invoke_eq_error {body : Node → ScopeId → Eval Value} {f : Function}
    {given : List Value × List (String × Value)} {m m₁ : Machine} {failure : Failure}
    (h : invoke body f given.1 given.2 m = (.error failure, m₁)) :
    (∃ e, f.bind given.1 given.2 = .error e ∧ failure = ⟨.ofBindError f.name e, none⟩ ∧ m₁ = m) ∨
      ∃ (g : UserFunction) (slots : List Value), f = .user g ∧ f.bind given.1 given.2 = .ok slots ∧
        body g.body m.store.scopes.size (enter g slots m) = (.error failure, m₁) := by
  cases hbind : f.bind given.1 given.2 with
  | error e =>
    rw [invoke_of_error hbind] at h
    obtain ⟨rfl, rfl⟩ := run_fail_eq_error.1 h
    exact .inl ⟨e, rfl, rfl, rfl⟩
  | ok slots =>
    by_cases hpromotes : Promotes f slots
    · obtain ⟨⟨g, rfl⟩, hsound⟩ := hpromotes
      rw [invoke_promoted hbind hsound] at h
      cases h
    · rw [invoke_framed hbind hpromotes, run_framed] at h
      split at h
      · cases h
      · rename_i e m₂ hcall
        obtain ⟨⟨⟩, rfl⟩ := Prod.mk.inj h
        cases f with
        | real | constructor => cases hcall
        | user g => exact .inr ⟨g, slots, rfl, rfl, hcall⟩

end Evaluation

end SignalCalc
