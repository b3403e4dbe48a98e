import SignalCalc.Proofs.Evaluation.Failing

/-!
# Evaluations under way

The evaluation of a node evaluates parts of the node, one after the other, and then the body of a function
if the node calls one.  A `Task` is such an evaluation with the machine it starts from.  While a task
is run, tasks inside of it are under way: `UnderWay t calls u` says that `u` is one of them, and that it
stands in the bodies of `calls`, the outermost first.

A part of a node has its turn when the parts in front of it have values (`Hole.IsNext`).  What stands
behind it plays no role in this.  A task that fails and has none to blame inside of it fails by the rule
of its own node (`FailsItself`).

The two main statements here go from the outside in and back: an error of the program comes out of a
task under way that fails itself (`failsInside_of_evalWithin`), and the error of a task under way is the
error of the whole (`UnderWay.run_eq`).
-/

namespace SignalCalc

open SignalCalc.Syntax

namespace Evaluation

/-! ## Tasks and their parts -/

/-- The evaluation of a node in a scope, with a bound on the nesting and the machine it starts from. -/
structure Task where
  depth : ℕ
  node : Node
  scope : ScopeId
  machine : Machine

/-- How the evaluation ends. -/
def Task.run (t : Task) : Except Failure Value × Machine :=
  evalWithin t.depth t.node t.scope t.machine

/-- A node with one of the parts that it evaluates left out. -/
inductive Hole where
  | operand (loc : Option Location) (op : UnaryOperator)
  | left (loc : Option Location) (op : BinaryOperator) (right : Node)
  | right (loc : Option Location) (op : BinaryOperator) (left : Node)
  | callee (loc : Option Location) (args : List Node)
  | argument (loc : Option Location) (callee : Node) (before : List Node)
    (label : Option (Option Location × String)) (after : List Node)
  | assigned (loc : Option Location) (name : String)
  | statement (before after : List Node)

namespace Hole

/-- The node with the part put in. -/
def fill : Hole → Node → Node
  | operand loc op, e => .unary loc op e
  | left loc op r, e => .binary loc op e r
  | right loc op l, e => .binary loc op l e
  | callee loc args, e => .invocation loc e args
  | argument loc f before label after, e => .invocation loc f (before ++ labelled label e :: after)
  | assigned loc name, e => .assignment loc name e
  | statement before after, e => .block (before ++ e :: after)

/-- The hole without the parts behind it. -/
def front : Hole → Hole
  | left loc op _ => left loc op .missing
  | callee loc _ => callee loc []
  | argument loc f before label _ => argument loc f before label []
  | statement before _ => statement before []
  | hole => hole

/-- An argument without a name is none with one. -/
def Takes : Hole → Node → Prop
  | argument _ _ _ none _, e => IsPlain e
  | _, _ => True

/-- In a task with this node the turn of the hole comes, in the second machine: the parts in front of it
have values, and these ask for the part. -/
inductive IsNext (depth : ℕ) (scope : ScopeId) : Hole → Machine → Machine → Prop where
  | operand {loc op m} : IsNext depth scope (.operand loc op) m m
  | left {loc op e m} : IsNext depth scope (.left loc op e) m m
  | right {loc op e v m m'} :
    evalWithin depth e scope m = (.ok v, m') → (∀ b ∈ op.decisive?, v = .bool !b) →
      IsNext depth scope (.right loc op e) m m'
  | callee {loc args m} : IsNext depth scope (.callee loc args) m m
  | argument {loc e before label after f given m m' m''} :
    evalWithin depth e scope m = (.ok (.function f), m') →
      evalArguments (fun arg => evalWithin depth arg scope) f.name before [] [] m' =
        (.ok given, m'') →
      IsFree label given.2 → IsNext depth scope (.argument loc e before label after) m m''
  | assigned {loc name m} : IsNext depth scope (.assigned loc name) m m
  | statement {before after v m m'} :
    evalStatements (fun e => evalWithin depth e scope) before .nothing m = (.ok v, m') →
      IsNext depth scope (.statement before after) m m'

end Hole

/-- The task calls a function of a program and evaluates the body of the function as the other task: its
callee and its arguments have values, and these fit the function. -/
inductive Task.Enters : Task → UserFunction × List Value → Task → Prop where
  | call {depth loc callee args scope} {f : UserFunction} {slots given m m' m''} :
    evalWithin depth callee scope m = (.ok (.function (.user f)), m') →
      evalArguments (fun arg => evalWithin depth arg scope) f.name args [] [] m' =
        (.ok given, m'') →
      (Function.user f).bind given.1 given.2 = .ok slots →
      Task.Enters ⟨depth + 1, .invocation loc callee args, scope, m⟩ (f, slots)
        ⟨depth, f.body, m''.store.scopes.size, enter f slots m''⟩

/-- While the first task is run, the second one is under way, in the bodies of these calls with these
slots, the outermost call first. -/
inductive UnderWay : Task → List (UserFunction × List Value) → Task → Prop where
  | here (t : Task) : UnderWay t [] t
  | part {depth scope} {hole : Hole} {e m m' calls u} : hole.IsNext depth scope m m' → hole.Takes e →
    UnderWay ⟨depth, e, scope, m'⟩ calls u → UnderWay ⟨depth + 1, hole.fill e, scope, m⟩ calls u
  | body {t t' u call calls} : t.Enters call t' → UnderWay t' calls u → UnderWay t (call :: calls) u

/-- The task fails by the rule of its own node: all that it evaluates has values, and the rule has no
result for these.  The second machine is the one behind the last of them. -/
inductive FailsItself : Task → Cause → Machine → Prop where
  | undefined {depth loc name scope} {m : Machine} : m.store.lookup? scope name = none →
    FailsItself ⟨depth + 1, .identifier loc name, scope, m⟩ (.undefinedVariable name) m
  | unary {depth loc op e scope v cause m m'} : evalWithin depth e scope m = (.ok v, m') →
    applyUnary op v = fail cause → FailsItself ⟨depth + 1, .unary loc op e, scope, m⟩ cause m'
  | binary {depth loc e e' scope v w cause m m' m''} {op : BinaryOperator} : op.decisive? = none →
    evalWithin depth e scope m = (.ok v, m') → evalWithin depth e' scope m' = (.ok w, m'') →
    applyBinary op v w = fail cause → FailsItself ⟨depth + 1, .binary loc op e e', scope, m⟩ cause m''
  /-- The right operand of a logical operator is not asked for. -/
  | logicalLeft {depth loc e e' scope v m m'} {op : BinaryOperator} : op.decisive?.isSome →
    evalWithin depth e scope m = (.ok v, m') → (∀ b, v ≠ .bool b) →
    FailsItself ⟨depth + 1, .binary loc op e e', scope, m⟩ (.mismatch op.symbol [v]) m'
  | logicalRight {depth loc e e' scope b w m m' m''} {op : BinaryOperator} : op.decisive? = some b →
    evalWithin depth e scope m = (.ok (.bool !b), m') → evalWithin depth e' scope m' = (.ok w, m'') →
    (∀ b, w ≠ .bool b) →
    FailsItself ⟨depth + 1, .binary loc op e e', scope, m⟩ (.mismatch op.symbol [.bool !b, w]) m''
  /-- The arguments of a callee that is no function are not asked for. -/
  | notAFunction {depth loc callee args scope v m m'} : evalWithin depth callee scope m = (.ok v, m') →
    (∀ f, v ≠ .function f) →
    FailsItself ⟨depth + 1, .invocation loc callee args, scope, m⟩ (.naming [v] (.notAFunction v)) m'
  /-- Neither is an argument by a name that has a value, nor one behind it. -/
  | secondValue {depth loc callee before loc' name e after scope f given m m' m''} :
    evalWithin depth callee scope m = (.ok (.function f), m') →
    evalArguments (fun arg => evalWithin depth arg scope) f.name before [] [] m' = (.ok given, m'') →
    given.2.any (·.1 == name) = true →
    FailsItself ⟨depth + 1, .invocation loc callee (before ++ .keyword loc' name e :: after), scope, m⟩
      (.secondValue f.name name) m''
  | doesNotFit {depth loc callee args scope f given e m m' m''} :
    evalWithin depth callee scope m = (.ok (.function f), m') →
    evalArguments (fun arg => evalWithin depth arg scope) f.name args [] [] m' = (.ok given, m'') →
    f.bind given.1 given.2 = .error e →
    FailsItself ⟨depth + 1, .invocation loc callee args, scope, m⟩ (.ofBindError f.name e) m''
  | duplicateParameter {depth loc f params param body scope m} : repeatedName? [] params = some param →
    FailsItself ⟨depth + 1, .definition loc f params body, scope, m⟩ (.duplicateParameter f param) m
  | empty {depth loc scope m} :
    FailsItself ⟨depth + 1, .empty loc, scope, m⟩ .emptyExpression m

/-! ## Nodes -/

section

variable {m m' m₁ : Machine} {failure : Failure} {cause : Cause} {depth : ℕ} {scope : ScopeId}

lemma evalWithin_logical {op : BinaryOperator} {b : Bool} (h : op.decisive? = some b)
    (loc : Option Location) (left right : Node) :
    evalWithin (depth + 1) (.binary loc op left right) scope =
      claim (.binary loc op left right)
        (applyLogical op b (evalWithin depth left scope) (evalWithin depth right scope)) := by
  cases op with
  | and | or =>
    obtain rfl := Option.some.inj h
    rfl
  | _ => cases h

lemma evalWithin_applied {op : BinaryOperator} (h : op.decisive? = none) (loc : Option Location)
    (left right : Node) :
    evalWithin (depth + 1) (.binary loc op left right) scope =
      claim (.binary loc op left right) (evalWithin depth left scope >>= fun l =>
        evalWithin depth right scope >>= fun r => applyBinary op l r) := by
  refine evalWithin_binary ?_ ?_ depth loc left right scope
  · rintro rfl
    cases h
  · rintro rfl
    cases h

/-- A failure that an evaluation ends with is not claimed again. -/
lemma claimedBy_of_evalWithin {inner : Node} (h : evalWithin depth inner scope m = (.error failure, m₁))
    (node : Node) : claimedBy node failure = failure := by
  cases hlanguage : failure.cause.isLanguageError with
  | true =>
    obtain ⟨e, he⟩ := exists_node_of_evalWithin (congrArg Prod.fst h) hlanguage
    exact claimedBy_of_node he node
  | false =>
    obtain ⟨cause, e⟩ := failure
    exact congrArg (Failure.mk cause) (if_neg (Bool.eq_false_iff.1 hlanguage))

/-- A failure inside of a task is the failure of the task. -/
lemma claim_of_evalWithin {node inner : Node} {x : Eval Value} {scope' : ScopeId} {m'' : Machine}
    (h : evalWithin depth inner scope' m'' = (.error failure, m₁)) (hx : x m = (.error failure, m₁)) :
    claim node x m = (.error failure, m₁) :=
  run_claim_eq_error.2 ⟨failure, hx, (claimedBy_of_evalWithin h node).symm⟩

/-- The failure of a part whose turn comes is the failure of the whole, whatever stands behind it. -/
lemma Hole.IsNext.run_eq {hole : Hole} (h : hole.IsNext depth scope m m') {e : Node}
    (htakes : hole.Takes e) (he : evalWithin depth e scope m' = (.error failure, m₁)) :
    evalWithin (depth + 1) (hole.fill e) scope m = (.error failure, m₁) := by
  cases h with
  | operand | callee | assigned =>
    rw [Hole.fill]
    exact claim_of_evalWithin he (run_bind_eq_error.2 (.inl he))
  | @left loc op right =>
    rw [Hole.fill]
    cases hop : op.decisive? with
    | none =>
      rw [evalWithin_applied hop]
      exact claim_of_evalWithin he (run_bind_eq_error.2 (.inl he))
    | some b =>
      rw [evalWithin_logical hop]
      exact claim_of_evalWithin he (run_bind_eq_error.2 (.inl he))
  | @right loc op left v _ _ hleft hgoes =>
    rw [Hole.fill]
    cases hop : op.decisive? with
    | none =>
      rw [evalWithin_applied hop]
      refine claim_of_evalWithin he ?_
      rw [run_bind_of_ok hleft]
      exact run_bind_eq_error.2 (.inl he)
    | some b =>
      obtain rfl := hgoes b hop
      rw [evalWithin_logical hop]
      refine claim_of_evalWithin he ?_
      rw [applyLogical, run_bind_of_ok hleft]
      cases b <;> exact run_bind_eq_error.2 (.inl he)
  | @argument loc callee before label after f given _ _ _ hcallee hbefore hfree =>
    have hplain : label = none → IsPlain e := by
      rintro rfl
      exact htakes
    rw [Hole.fill, evalWithin_invocation hcallee]
    refine claim_of_evalWithin he (run_bind_eq_error.2 (.inl ?_))
    rw [evalArguments_next ([], []) hbefore, evalArguments_labelled hfree hplain]
    exact run_bind_eq_error.2 (.inl he)
  | @statement before after v _ _ hbefore =>
    rw [Hole.fill]
    refine claim_of_evalWithin he ?_
    show evalStatements _ (before ++ e :: after) _ _ = _
    rw [evalStatements_next hbefore, evalStatements_cons]
    exact run_bind_eq_error.2 (.inl he)

/-- The failure of the body of a function is the failure of the call. -/
lemma Task.Enters.run_eq {t t' : Task} {call : UserFunction × List Value} (h : t.Enters call t')
    (hbody : t'.run = (.error failure, m₁)) : t.run = (.error failure, m₁) := by
  cases h with
  | @call depth loc callee args scope f slots given m m' m'' hcallee hargs hbind =>
    show evalWithin (depth + 1) _ scope m = _
    rw [evalWithin_invocation hcallee]
    refine claim_of_evalWithin hbody ?_
    refine (run_bind_of_ok hargs).trans ?_
    rw [invoke_framed hbind (by rintro ⟨⟨_, ⟨⟩⟩, _⟩), run_framed]
    have hcall : Evaluation.call (evalWithin depth) (.user f) slots
        { m'' with frames := ⟨Function.name (.user f), slots⟩ :: m''.frames } =
          (.error failure, m₁) := hbody
    rw [hcall]

end

/-! ## From the outside in, and back -/

/-- The failure of a task that is under way is the failure of the whole. -/
theorem UnderWay.run_eq {t u : Task} {calls : List (UserFunction × List Value)}
    (h : UnderWay t calls u) {failure : Failure} {m : Machine} (hu : u.run = (.error failure, m)) :
    t.run = (.error failure, m) := by
  induction h with
  | here t => exact hu
  | part hnext htakes _ ih => exact hnext.run_eq htakes (ih hu)
  | body henters _ ih => exact henters.run_eq (ih hu)

/-- The evaluation ended with an error of the program. -/
def isProgramError : Except Failure Value → Bool
  | .error failure => failure.cause.isLanguageError
  | .ok _ => false

lemma exists_of_isProgramError {r : Except Failure Value × Machine} (h : isProgramError r.1 = true) :
    ∃ failure m, r = (.error failure, m) ∧ failure.cause.isLanguageError = true := by
  obtain ⟨failure | v, m⟩ := r
  · exact ⟨failure, m, rfl, h⟩
  · cases h

/-- Inside of the task one is to blame for the failure: it is under way, and fails by its own rule. -/
def Task.FailsInside (t : Task) (failure : Failure) (m : Machine) : Prop :=
  ∃ calls u, UnderWay t calls u ∧ FailsItself u failure.cause m ∧ failure.node = some u.node

namespace Task.FailsInside

variable {failure : Failure} {m m' m₁ : Machine} {depth : ℕ} {scope : ScopeId} {node : Node}

lemma part {hole : Hole} {e : Node} (h : FailsInside ⟨depth, e, scope, m'⟩ failure m₁)
    (hnext : hole.IsNext depth scope m m') (htakes : hole.Takes e) :
    FailsInside ⟨depth + 1, hole.fill e, scope, m⟩ (claimedBy node failure) m₁ := by
  obtain ⟨calls, u, hu, hfails, hnode⟩ := h
  rw [claimedBy_of_node hnode]
  exact ⟨calls, u, .part hnext htakes hu, hfails, hnode⟩

lemma body {t t' : Task} {call : UserFunction × List Value} (h : t'.FailsInside failure m₁)
    (henters : t.Enters call t') : t.FailsInside (claimedBy node failure) m₁ := by
  obtain ⟨calls, u, hu, hfails, hnode⟩ := h
  rw [claimedBy_of_node hnode]
  exact ⟨call :: calls, u, .body henters hu, hfails, hnode⟩

lemma itself {t : Task} {cause : Cause} (h : FailsItself t cause m₁)
    (hlanguage : cause.isLanguageError = true) :
    t.FailsInside (claimedBy t.node ⟨cause, none⟩) m₁ := by
  rw [claimedBy_none hlanguage]
  exact ⟨[], t, .here t, h, rfl⟩

end Task.FailsInside

section

variable {depth : ℕ} {node : Node} {scope : ScopeId} {m m' m₁ : Machine} {failure : Failure}

/-- A call fails inside, or its callee does, if this is so for all nodes that are nested less deep. -/
lemma failsInside_of_applied {loc : Option Location} {callee : Node} {args : List Node} {f : Function}
    (ih : ∀ {node scope m m₁ failure}, evalWithin depth node scope m = (.error failure, m₁) →
      failure.cause.isLanguageError = true → Task.FailsInside ⟨depth, node, scope, m⟩ failure m₁)
    (hcallee : evalWithin depth callee scope m = (.ok (.function f), m'))
    (h : (evalArguments (fun arg => evalWithin depth arg scope) f.name args [] [] >>= fun given =>
      invoke (evalWithin depth) f given.1 given.2) m' = (.error failure, m₁))
    (hlanguage : failure.cause.isLanguageError = true) :
    Task.FailsInside ⟨depth + 1, .invocation loc callee args, scope, m⟩
      (claimedBy (.invocation loc callee args) failure) m₁ := by
  rcases run_bind_eq_error.1 h with hargs | ⟨given, m'', hargs, hinvoke⟩
  · obtain ⟨before, label, arg, after, given, m'', rfl, hbefore, hfails⟩ :=
      exists_argumentFails ([], []) hargs
    rcases hfails with ⟨hfree, hplain, hvalue⟩ | ⟨loc', name, rfl, htaken, rfl, rfl⟩
    · have htakes : (Hole.argument loc callee before label after).Takes arg := by
        cases label with
        | none => exact hplain rfl
        | some _ => trivial
      exact (ih hvalue hlanguage).part (.argument hcallee hbefore hfree) htakes
    · exact .itself (.secondValue hcallee hbefore htaken) hlanguage
  · rcases exists_of_invoke_eq_error hinvoke with ⟨e, hbind, rfl, rfl⟩ | ⟨g, slots, rfl, hbind, hbody⟩
    · exact .itself (.doesNotFit hcallee hargs hbind) hlanguage
    · exact (ih hbody hlanguage).body (.call hcallee hargs hbind)

/-- An error of the program comes out of a task under way that fails itself, and belongs to its node. -/
theorem failsInside_of_evalWithin (h : evalWithin depth node scope m = (.error failure, m₁))
    (hlanguage : failure.cause.isLanguageError = true) :
    Task.FailsInside ⟨depth, node, scope, m⟩ failure m₁ := by
  induction depth generalizing node scope m m₁ failure with
  | zero =>
    obtain ⟨rfl, -⟩ := run_fail_eq_error.1 h
    cases hlanguage
  | succ depth ih =>
    cases node with
    | number | string => cases h
    | identifier loc name =>
      rw [evalWithin_identifier] at h
      cases hlookup : m.store.lookup? scope name with
      | some v =>
        rw [hlookup] at h
        cases h
      | none =>
        rw [hlookup] at h
        cases h
        exact ⟨[], _, .here _, .undefined hlookup, rfl⟩
    | unary loc op e =>
      obtain ⟨inner, hrun, rfl⟩ := run_claim_eq_error.1 h
      rcases run_bind_eq_error.1 hrun with he | ⟨v, m', he, hv⟩
      · exact (ih he hlanguage).part .operand trivial
      · obtain ⟨cause, hcause, rfl, rfl⟩ := (Ends.applyUnary op v).of_error hv
        exact .itself (.unary he hcause) hlanguage
    | binary loc op left right =>
      cases hop : op.decisive? with
      | none =>
        rw [evalWithin_applied hop] at h
        obtain ⟨inner, hrun, rfl⟩ := run_claim_eq_error.1 h
        rcases run_bind_eq_error.1 hrun with hleft | ⟨v, m', hleft, hrun⟩
        · exact (ih hleft hlanguage).part .left trivial
        · rcases run_bind_eq_error.1 hrun with hright | ⟨w, m'', hright, hw⟩
          · refine (ih hright hlanguage).part (.right hleft fun b hb => ?_) trivial
            rw [hop] at hb
            cases hb
          · obtain ⟨cause, hcause, rfl, rfl⟩ := (Ends.applyBinary op v w).of_error hw
            exact .itself (.binary hop hleft hright hcause) hlanguage
      | some decisive =>
        rw [evalWithin_logical hop] at h
        obtain ⟨inner, hrun, rfl⟩ := run_claim_eq_error.1 h
        rcases applyLogical_eq_error hrun with hleft | ⟨v, m', hleft, ⟨hv, rfl, rfl⟩ | ⟨rfl, hrun⟩⟩
        · exact (ih hleft hlanguage).part .left trivial
        · exact .itself (.logicalLeft (Option.isSome_of_eq_some hop) hleft hv) hlanguage
        · rcases hrun with hright | ⟨w, hright, hw, rfl⟩
          · refine (ih hright hlanguage).part (.right hleft fun b hb => ?_) trivial
            obtain rfl := Option.some.inj (hop.symm.trans hb)
            rfl
          · exact .itself (.logicalRight hop hleft hright hw) hlanguage
    | invocation loc callee args =>
      obtain ⟨inner, hrun, rfl⟩ := run_claim_eq_error.1 h
      rcases run_bind_eq_error.1 hrun with hcallee | ⟨v, m', hcallee, hrun⟩
      · exact (ih hcallee hlanguage).part .callee trivial
      · cases v with
        | function f => exact failsInside_of_applied ih hcallee hrun hlanguage
        | _ =>
          obtain ⟨rfl, rfl⟩ := run_fail_eq_error.1 hrun
          exact .itself (.notAFunction hcallee nofun) hlanguage
    | assignment loc name e =>
      obtain ⟨inner, hrun, rfl⟩ := run_claim_eq_error.1 h
      rcases run_bind_eq_error.1 hrun with he | ⟨v, m', he, hrun⟩
      · exact (ih he hlanguage).part .assigned trivial
      · cases hrun
    | definition loc f params body =>
      obtain ⟨inner, hrun, rfl⟩ := run_claim_eq_error.1 h
      rcases run_bind_eq_error.1 hrun with hdefine | ⟨g, m', -, hrun⟩
      · obtain ⟨param, hparam, rfl, rfl⟩ := exists_of_define_eq_error hdefine
        exact .itself (.duplicateParameter hparam) hlanguage
      · cases hrun
    | empty loc =>
      obtain ⟨inner, hrun, rfl⟩ := run_claim_eq_error.1 h
      obtain ⟨rfl, rfl⟩ := run_fail_eq_error.1 hrun
      exact .itself .empty hlanguage
    | block statements =>
      obtain ⟨inner, hrun, rfl⟩ := run_claim_eq_error.1 h
      obtain ⟨before, statement, after, v, m', rfl, hbefore, hstatement⟩ := exists_statementFails hrun
      exact (ih hstatement hlanguage).part (.statement hbefore) trivial
    | keyword | missing =>
      obtain ⟨inner, hrun, rfl⟩ := run_claim_eq_error.1 h
      obtain ⟨rfl, rfl⟩ := run_fail_eq_error.1 hrun
      cases hlanguage

end

end Evaluation

end SignalCalc
