import SignalCalc.Proofs.Evaluation.UnderWay

/-!
# The first error, at its innermost node

The node of an error is the one that fails by its own rule (`FailsItself.run_eq`), and the failure goes
unchanged through everything that the node is evaluated for (`UnderWay.run_eq`).  What stands behind the
parts on the way to it is never asked for: with anything else in its place the run is the same
(`SameFront.run_eq`).
-/

namespace SignalCalc.Evaluation

open SignalCalc.Syntax

/-! ## Failing by the own rule -/

section

variable {depth : ℕ} {scope : ScopeId} {node : Node} {m m' m₁ : Machine} {cause : Cause}

lemma run_claim_of_fails {x : Eval Value} (h : x m = (.error ⟨cause, none⟩, m₁))
    (hlanguage : cause.isLanguageError = true) :
    claim node x m = (.error ⟨cause, some node⟩, m₁) :=
  run_claim_eq_error.2 ⟨_, h, (claimedBy_none hlanguage node).symm⟩

lemma run_bind_of_fails {x : Eval Value} {v : Value} {f : Value → Eval Value}
    (h : x m = (.ok v, m')) (hf : f v = fail cause) :
    (x >>= f) m = (.error ⟨cause, none⟩, m') := by
  rw [run_bind_of_ok h, hf]
  rfl

lemma run_applyLogical_left {op : BinaryOperator} {decisive : Bool} {x y : Eval Value} {v : Value}
    (hx : x m = (.ok v, m')) (hv : ∀ b, v ≠ .bool b) :
    applyLogical op decisive x y m = (.error ⟨.mismatch op.symbol [v], none⟩, m') := by
  refine run_bind_of_fails hx ?_
  cases v with
  | bool b => exact absurd rfl (hv b)
  | _ => rfl

lemma run_applyLogical_right {op : BinaryOperator} {decisive : Bool} {x y : Eval Value} {w : Value}
    (hx : x m = (.ok (.bool !decisive), m')) (hy : y m' = (.ok w, m₁)) (hw : ∀ b, w ≠ .bool b) :
    applyLogical op decisive x y m =
      (.error ⟨.mismatch op.symbol [.bool !decisive, w], none⟩, m₁) := by
  rw [applyLogical, run_bind_of_ok hx]
  cases w with
  | bool b => exact absurd rfl (hw b)
  | _ => cases decisive <;> exact run_bind_of_fails hy rfl

/-- A node that fails by its own rule is the one that the failure belongs to. -/
theorem FailsItself.run_eq {t : Task} (h : FailsItself t cause m)
    (hlanguage : cause.isLanguageError = true) : t.run = (.error ⟨cause, some t.node⟩, m) := by
  cases h with
  | undefined hlookup =>
    show evalWithin _ _ _ _ = _
    rw [evalWithin_identifier, hlookup]
  | unary he hcause => exact run_claim_of_fails (run_bind_of_fails he hcause) hlanguage
  | binary hop hleft hright hcause =>
    show evalWithin _ _ _ _ = _
    rw [evalWithin_applied hop]
    refine run_claim_of_fails ?_ hlanguage
    rw [run_bind_of_ok hleft]
    exact run_bind_of_fails hright hcause
  | logicalLeft hop hleft hv =>
    obtain ⟨decisive, hop⟩ := Option.isSome_iff_exists.1 hop
    show evalWithin _ _ _ _ = _
    rw [evalWithin_logical hop]
    exact run_claim_of_fails (run_applyLogical_left hleft hv) hlanguage
  | logicalRight hop hleft hright hw =>
    show evalWithin _ _ _ _ = _
    rw [evalWithin_logical hop]
    exact run_claim_of_fails (run_applyLogical_right hleft hright hw) hlanguage
  | @notAFunction depth loc callee args scope v m m' hcallee hv =>
    refine run_claim_of_fails (run_bind_of_fails hcallee ?_) hlanguage
    cases v with
    | function f => exact absurd rfl (hv f)
    | _ => rfl
  | secondValue hcallee hbefore htaken =>
    show evalWithin _ _ _ _ = _
    rw [evalWithin_invocation hcallee]
    refine run_claim_of_fails (run_bind_eq_error.2 (.inl ?_)) hlanguage
    rw [evalArguments_next ([], []) hbefore, evalArguments_keyword_twice _ _ _ htaken]
    rfl
  | doesNotFit hcallee hargs hbind =>
    show evalWithin _ _ _ _ = _
    rw [evalWithin_invocation hcallee]
    refine run_claim_of_fails ?_ hlanguage
    rw [run_bind_of_ok hargs, invoke_of_error hbind]
    rfl
  | duplicateParameter hparam =>
    refine run_claim_of_fails (run_bind_eq_error.2 (.inl ?_)) hlanguage
    unfold define
    rw [hparam]
    rfl
  | empty => exact run_claim_of_fails rfl hlanguage

end

/-! ## What stands behind -/

namespace Hole

variable {depth : ℕ} {scope : ScopeId} {m m' : Machine} {hole hole' : Hole} {e : Node}

/-- What stands behind a part has no say in whether its turn comes. -/
lemma IsNext.of_front (h : hole.IsNext depth scope m m') (hfront : hole'.front = hole.front) :
    hole'.IsNext depth scope m m' := by
  cases h with
  | operand | left | callee | assigned =>
    cases hole' <;> cases hfront
    constructor
  | right hleft hgoes =>
    cases hole' <;> cases hfront
    exact .right hleft hgoes
  | argument hcallee hbefore hfree =>
    cases hole' <;> cases hfront
    exact .argument hcallee hbefore hfree
  | statement hbefore =>
    cases hole' <;> cases hfront
    exact .statement hbefore

lemma Takes.of_front (h : hole.Takes e) (hfront : hole'.front = hole.front)
    {e' : Node} (he' : IsPlain e → IsPlain e') : hole'.Takes e' := by
  cases hole' <;> try trivial
  case argument loc callee before label after =>
    cases label with
    | some _ => trivial
    | none =>
      cases hole <;> cases hfront
      exact he' h

/-- A node with parts is no argument with a name. -/
lemma isPlain_fill (hole : Hole) (e : Node) : IsPlain (hole.fill e) := by
  cases hole <;> exact nofun

end Hole

/-- The third task is under way in both of the others, and these differ only behind the parts on the
way to it. -/
inductive SameFront : Task → Task → Task → Prop where
  | underWay {t calls u} : UnderWay t calls u → SameFront t t u
  | part {depth scope} {hole hole' : Hole} {e e' m m' u} : hole.IsNext depth scope m m' →
    hole.Takes e → hole'.front = hole.front → SameFront ⟨depth, e, scope, m'⟩ ⟨depth, e', scope, m'⟩ u →
    SameFront ⟨depth + 1, hole.fill e, scope, m⟩ ⟨depth + 1, hole'.fill e', scope, m⟩ u

lemma SameFront.isPlain {t t' u : Task} (h : SameFront t t' u) (ht : IsPlain t.node) :
    IsPlain t'.node := by
  cases h with
  | underWay => exact ht
  | part => exact Hole.isPlain_fill _ _

lemma SameFront.underWay_right {t t' u : Task} (h : SameFront t t' u) :
    ∃ calls, UnderWay t' calls u := by
  induction h with
  | underWay hu => exact ⟨_, hu⟩
  | part hnext htakes hfront hinner ih =>
    obtain ⟨calls, hu⟩ := ih
    exact ⟨calls, .part (hnext.of_front hfront) (htakes.of_front hfront hinner.isPlain) hu⟩

/-- What stands behind the parts on the way to a failure is never asked for. -/
theorem SameFront.run_eq {t t' u : Task} (h : SameFront t t' u) {failure : Failure} {m : Machine}
    (hu : u.run = (.error failure, m)) : t'.run = (.error failure, m) := by
  obtain ⟨calls, hunder⟩ := h.underWay_right
  exact hunder.run_eq hu

/-! ## Bounds -/

lemma evalWithin_of_le {depth bound : ℕ} (hle : depth ≤ bound) {node : Node} {scope : ScopeId}
    {m : Machine} (h : ¬IsTooDeep (evalWithin depth node scope m).1) :
    evalWithin bound node scope m = evalWithin depth node scope m := by
  induction hle with
  | refl => rfl
  | step _ ih => rw [evalWithin_deeper (by rwa [ih]), ih]

lemma not_isTooDeep_of_isLanguageError {failure : Failure}
    (h : failure.cause.isLanguageError = true) :
    ¬IsTooDeep (.error failure : Except Failure Value) := by
  obtain ⟨cause, node⟩ := failure
  cases cause <;> first | exact id | cases h

/-- A failure of the program is the same within every bound that suffices. -/
lemma run_eq_or_isTooDeep {t : Task} {bound : ℕ} {failure : Failure} {m : Machine}
    (h : evalWithin bound t.node t.scope t.machine = (.error failure, m))
    (hlanguage : failure.cause.isLanguageError = true) :
    t.run = (.error failure, m) ∨ IsTooDeep t.run.1 := by
  by_cases hdeep : IsTooDeep t.run.1
  · exact .inr hdeep
  · left
    rcases Nat.le_total t.depth bound with hle | hle
    · exact (evalWithin_of_le hle hdeep).symm.trans h
    · refine (evalWithin_of_le hle ?_).trans h
      rw [h]
      exact not_isTooDeep_of_isLanguageError hlanguage

/-! ## The error that is reported -/

/-- **The first error is reported, at its innermost node.**  An error of the program belongs to a node
that fails by its own rule, when all that is evaluated in front of it has values, and the evaluation ends
there: what stands behind can be anything.  And a node that fails makes everything fail that it is
evaluated for, with the same cause at the same node, unless the whole is nested too deep. -/
theorem run_innermost (t : Task) :
    (∀ failure m, t.run = (.error failure, m) → failure.cause.isLanguageError = true →
      ∃ calls u, UnderWay t calls u ∧ FailsItself u failure.cause m ∧ failure.node = some u.node ∧
        ∀ t', SameFront t t' u → t'.run = (.error failure, m)) ∧
    ∀ calls u bound failure m, UnderWay t calls u →
      evalWithin bound u.node u.scope u.machine = (.error failure, m) →
      failure.cause.isLanguageError = true → t.run = (.error failure, m) ∨ IsTooDeep t.run.1 := by
  constructor
  · intro failure m hrun hlanguage
    obtain ⟨calls, u, hu, hfails, hnode⟩ := failsInside_of_evalWithin hrun hlanguage
    have hself : u.run = (.error failure, m) := by
      rw [hfails.run_eq hlanguage, ← hnode]
    exact ⟨calls, u, hu, hfails, hnode, fun t' ht' => ht'.run_eq hself⟩
  · intro calls u bound failure m hu hrun hlanguage
    rcases run_eq_or_isTooDeep hrun hlanguage with hsame | hdeep
    · exact .inl (hu.run_eq hsame)
    · obtain ⟨node, m₁, hself⟩ := exists_of_isTooDeep hdeep
      rw [hu.run_eq hself]
      exact .inr trivial

/-- The evaluation of `(1 + y) * e` where no name is bound. -/
def unboundFactor (e : Node) : Task where
  depth := depthLimit
  node := .binary none (.arithmetic .mul)
    (.binary none (.arithmetic .add) (.number none 1) (.identifier none "y")) e
  scope := Store.root
  machine := ⟨Store.fresh, [], 0, []⟩

/-- The evaluation of `y` in it. -/
def unboundName : Task where
  depth := 998
  node := .identifier none "y"
  scope := Store.root
  machine := ⟨Store.fresh, [], 0, []⟩

lemma unboundName_underWay (e : Node) : UnderWay (unboundFactor e) [] unboundName := by
  have hproduct : (Hole.left none (.arithmetic .mul) e).IsNext 999 Store.root
      unboundName.machine unboundName.machine := .left
  have hsum : (Hole.right none (.arithmetic .add) (.number none 1)).IsNext 998 Store.root
      unboundName.machine unboundName.machine := .right rfl nofun
  exact .part hproduct trivial (.part hsum trivial (.here unboundName))

/-- The name is to blame, whatever the other factor is. -/
theorem run_innermost_unboundFactor :
    ∃ failure m, failure.node = some (.identifier none "y") ∧
      (∃ calls u, UnderWay (unboundFactor (.string none "e")) calls u ∧
        FailsItself u failure.cause m ∧ failure.node = some u.node) ∧
      ∀ e, (unboundFactor e).run = (.error failure, m) := by
  have halone : evalWithin 1 unboundName.node unboundName.scope unboundName.machine =
      (.error ⟨.undefinedVariable "y", some unboundName.node⟩, unboundName.machine) := by
    rw [unboundName, evalWithin_identifier]
    rfl
  have hrun (e : Node) := ((run_innermost (unboundFactor e)).2 [] unboundName 1 _ _
    (unboundName_underWay e) halone rfl).resolve_right (by
      rw [(unboundName_underWay e).run_eq halone]
      exact id)
  obtain ⟨calls, u, hu, hfails, hnode, -⟩ :=
    (run_innermost (unboundFactor (.string none "e"))).1 _ _ (hrun _) rfl
  exact ⟨_, _, rfl, ⟨calls, u, hu, hfails, hnode⟩, hrun⟩

end SignalCalc.Evaluation
