import SignalCalc.Proofs.Call.Given
import SignalCalc.Proofs.Evaluation.Replaced
import SignalCalc.Proofs.Session.Results

/-!
# Calls as substitution

A call of a function evaluates its arguments and then the body of the function, in a scope of its own.
An expression has the same value wherever the same names have the same values, so the body may as well
be evaluated with the arguments in the place of the parameters, as often as these come up in it and
only then (`evalWithin_call_replaced`).
-/

namespace SignalCalc

open SignalCalc.Call
open SignalCalc.Syntax
open List

/-- Any name. -/
abbrev anyName : String → Prop := fun _ => True

lemma Syntax.Node.readsOnly_anyName (node : Node) : node.ReadsOnly anyName := by
  intro part _
  cases part <;> trivial

/-- An orderly machine agrees with itself. -/
lemma Machine.IsOrderly.agreesOn {m : Machine} (h : m.IsOrderly) :
    m.store.AgreesOn anyName m.store :=
  ⟨h.root, h.root, fun _ _ => rfl, fun _ _ _ hv =>
    (Store.of_lookup? h.values hv).seesOnly fun f _ => f.body.readsOnly_anyName⟩

/-- In the first store the names are seen from a call with some slots, in the second one they are as
in the store that the arguments were evaluated in. -/
def Pairing.substituted (before : Store) (id : ScopeId) (locals : List (String × Value)) :
    Pairing anyName where
  Holds t t' := t.AgreesOn anyName t' ∧ before.AgreesOn anyName t' ∧
    t.scopes[id]? = some ⟨some Store.root, locals⟩
  mono h hs hs' := ⟨h.1.mono hs hs', h.2.1.mono (.refl _) hs', hs _ _ h.2.2⟩
  agrees h := h.1

/-- Parameters of any kind take values as they are. -/
lemma Call.Signature.settle_any (s : Signature Value) (found : ℕ) :
    ∀ {params : List String} {values : List Value}, values.length = params.length →
      Forall₂ (fun entry v => s.settle Value.accept found entry.1 entry.2 = .ok v)
        ((params.map fun param => (⟨param, .any, none⟩ : Parameter Value)).zip (values.map some))
        values
  | [], [], _ => .nil
  | _ :: _, _ :: _, h => .cons rfl (settle_any s found (Nat.succ.inj h))

/-- A function of a program takes one value for every parameter as it is. -/
lemma UserFunction.bind_positional (f : UserFunction) {values : List Value}
    (h : values.length = f.params.length) : (Function.user f).bind values [] = .ok values := by
  let s := (Function.user f).signature
  have harity : s.arity = values.length := (length_map _).trans h.symm
  have hslots : s.positionalSlots values = values.map some := by
    rw [Signature.positionalSlots, harity, Nat.sub_self, replicate_zero, append_nil]
  show s.bind Value.accept values [] = .ok values
  unfold Signature.bind
  rw [if_neg (harity ▸ Nat.lt_irrefl _), hslots]
  exact Signature.mapM_eq_ok_iff.2 (s.settle_any _ h)

namespace Evaluation

variable {m m' : Machine} {e : Node} {v : Value} {args : List Node} {values : List Value}

/-! ## Arguments -/

/-- Within some bound the expression gives this value. -/
def HasValue (m : Machine) (e : Node) (v : Value) : Prop :=
  ∃ depth m₁, evalWithin depth e Store.root m = (.ok v, m₁)

/-- An expression has its value within every bound that is not too small, and wherever all names are
seen alike. -/
lemma HasValue.elsewhere (h : HasValue m e v) (he : e.IsExpression)
    (hagrees : m.store.AgreesOn anyName m'.store) (depth : ℕ) :
    IsTooDeep (evalWithin depth e Store.root m').1 ∨
      v.SeesOnly anyName ∧
        ∃ m₁, evalWithin depth e Store.root m' = (.ok v, m₁) ∧ m'.store.KeptIn m₁.store := by
  obtain ⟨depth₀, m₀, hrun⟩ := h
  have hfollows : Follows True (.views anyName Store.root Store.root) (Value.SeesOnly anyName)
      (evalWithin depth₀ e Store.root) (evalWithin depth e Store.root) :=
    evalWithin_elsewhere _ _ (.inl trivial) he e.readsOnly_anyName
  rcases hfollows m m' ⟨hagrees, .inl ⟨rfl, rfl⟩⟩ with ⟨-, hdeep | hdeep⟩ | hsame
  · rw [hrun] at hdeep
    exact hdeep.elim
  · exact .inl hdeep
  · have houtcome := hsame.outcome
    have hkept := hsame.kept'
    rw [hrun] at houtcome
    generalize evalWithin depth e Store.root m' = run at houtcome hkept ⊢
    obtain ⟨r, m₁⟩ := run
    rcases cases_of_mapError houtcome with ⟨w, ⟨⟩, rfl⟩ | ⟨_, _, ⟨⟩, -⟩
    exact .inr ⟨hsame.meets v (congrArg Prod.fst hrun), m₁, rfl, hkept⟩

/-- Arguments that are given by position have their values. -/
lemma evalArguments_of_hasValue
    (h : Forall₂ (fun e v => e.IsExpression ∧ HasValue m e v) args values)
    (hagrees : m.store.AgreesOn anyName m'.store) (depth : ℕ) (function : String)
    (positional : List Value) :
    IsTooDeep (evalArguments (fun arg => evalWithin depth arg Store.root) function args positional
        [] m').1 ∨
      ∃ m₁, evalArguments (fun arg => evalWithin depth arg Store.root) function args positional []
          m' = (.ok (positional ++ values, []), m₁) ∧ m'.store.KeptIn m₁.store := by
  induction h generalizing m' positional with
  | nil =>
    rw [append_nil]
    exact .inr ⟨m', rfl, .refl _⟩
  | @cons e v rest more hfirst _ ih =>
    obtain ⟨he, hvalue⟩ := hfirst
    have hpositional : ∀ loc name arg, e ≠ .keyword loc name arg := by
      rintro loc name arg rfl
      exact he
    rw [evalArguments_positional hpositional, run_bind]
    rcases hvalue.elsewhere he hagrees depth with hdeep | ⟨-, m₁, hrun, hkept⟩
    · obtain ⟨node, m₁, hrun⟩ := exists_of_isTooDeep hdeep
      rw [hrun]
      exact .inl trivial
    · rw [hrun, append_cons]
      refine (ih (hagrees.mono (.refl _) hkept) (positional ++ [v])).imp_right ?_
      rintro ⟨m₂, hrest, hkept'⟩
      exact ⟨m₂, hrest, hkept.trans hkept'⟩

/-! ## The body of a function -/

/-- A parameter stands for an argument and for the value of this argument. -/
lemma lookup_zip_hasValue (h : Forall₂ (fun e v => e.IsExpression ∧ HasValue m e v) args values)
    (params : List String) (parent : Option ScopeId) (name : String) :
    Option.Rel (fun e v => e.IsExpression ∧ HasValue m e v) ((params.zip args).lookup name)
      (Scope.find? ⟨parent, params.zip values⟩ name) := by
  induction h generalizing params with
  | nil =>
    rw [zip_nil_right, zip_nil_right]
    exact .none
  | @cons e v _ _ hfirst _ ih =>
    cases params with
    | nil => exact .none
    | cons param params =>
      rw [zip_cons_cons, zip_cons_cons, lookup_cons, Scope.find?, find?]
      by_cases hname : name = param
      · subst hname
        simp only [beq_self_eq_true]
        exact .some hfirst
      · rw [beq_false_of_ne hname, beq_false_of_ne (Ne.symm hname)]
        exact ih params

/-- An argument in the place of a parameter gives what the slot of the parameter holds, and other
names stand for the same in the call and around it. -/
lemma identifier_substituted
    (h : Forall₂ (fun e v => e.IsExpression ∧ HasValue m e v) args values) (params : List String)
    (id : ScopeId) (depth depth' : ℕ) (loc : Option Location) (name : String) :
    Follows True (.substituted m.store id (params.zip values)) (Value.SeesOnly anyName)
      (evalWithin depth (.identifier loc name) id)
      (evalWithin depth' (((params.zip args).lookup name).getD (.identifier loc name))
        Store.root) := by
  rintro t t' ⟨hagrees, hbefore, hlocals⟩
  cases depth with
  | zero => exact .inl ⟨trivial, .inl trivial⟩
  | succ depth =>
    obtain ⟨bindings, hroot⟩ := hagrees.root
    have hfind := lookup_zip_hasValue h params (some Store.root) name
    have hlookup := Store.lookup?_local hroot hlocals name
    generalize (params.zip args).lookup name = argument at hfind ⊢
    generalize Scope.find? ⟨some Store.root, params.zip values⟩ name = slot at hfind hlookup
    -- Behind the parameters are the names of the first scope, which the argument's place sees as well.
    cases hfind with
    | none =>
      rw [Option.none_or, ← Store.lookup?_root hroot] at hlookup
      cases depth' with
      | zero => exact .inl ⟨trivial, .inr trivial⟩
      | succ depth' =>
        refine .inr (identifier_followed ?_ (fun v hv => ?_) _ _ loc)
        · rw [hlookup, hagrees.same name trivial]
        · exact hagrees.values name v trivial (hlookup ▸ hv)
    | @some e v hargument =>
      rw [Option.some_or] at hlookup
      rw [evalWithin_identifier, hlookup, Option.getD_some]
      rcases hargument.2.elsewhere hargument.1 hbefore depth' with hdeep | ⟨hv, m₁, hrun, hkept⟩
      · exact .inl ⟨trivial, .inr hdeep⟩
      · rw [hrun]
        exact .inr ⟨rfl, fun w hw => Except.ok.inj hw ▸ hv, .refl _, hkept⟩

/-- A call with as many values as there are parameters ends as the body does, in a scope of its own. -/
lemma run_invoke_user (f : UserFunction) (h : values.length = f.params.length)
    (body : Node → ScopeId → Eval Value) (m : Machine) :
    ∃ m₁, m₁.store = (m.store.push ⟨some f.scope, f.params.zip values⟩).2 ∧
      (invoke body (.user f) values [] m).1.mapError (·.cause) =
        (body f.body m.store.scopes.size m₁).1.mapError (·.cause) := by
  have hnot : ¬Promotes (.user f) values := fun ⟨⟨g, hg⟩, _⟩ => by cases hg
  rw [invoke_framed (f.bind_positional h) hnot, (endsAs_framed _ _).outcome]
  exact ⟨_, rfl, rfl⟩

/-- A call with arguments that have values ends as the body does, in a scope with these values. -/
lemma run_call_user {f : UserFunction} {name : String} (hm : m.IsOrderly)
    (hf : m.store.lookup? Store.root name = some (.function (.user f)))
    (hvalues : Forall₂ (fun e v => e.IsExpression ∧ HasValue m e v) args values)
    (hlength : args.length = f.params.length) (loc loc' : Option Location) (depth : ℕ) :
    IsTooDeep (evalWithin depth (.invocation loc (.identifier loc' name) args) Store.root m).1 ∨
      ∃ depth₁ id m₁, m.store.KeptIn m₁.store ∧
        m₁.store.scopes[id]? = some ⟨some Store.root, f.params.zip values⟩ ∧
        (evalWithin depth (.invocation loc (.identifier loc' name) args) Store.root m).1.mapError
            (·.cause) =
          (evalWithin depth₁ f.body id m₁).1.mapError (·.cause) := by
  rcases depth with _ | _ | depth
  · exact .inl trivial
  · exact .inl trivial
  have hcallee : evalWithin (depth + 1) (.identifier loc' name) Store.root m =
      (.ok (.function (.user f)), m) := by
    rw [evalWithin_identifier, hf]
  rw [evalWithin_invocation hcallee, isTooDeep_iff, (endsAs_claim _ _).outcome, id_eq, run_bind]
  rcases evalArguments_of_hasValue hvalues hm.agreesOn (depth + 1) (Function.user f).name [] with
    hdeep | ⟨m₁, hrun, hkept⟩
  · obtain ⟨node, m₁, hrun⟩ := exists_of_isTooDeep hdeep
    rw [hrun]
    exact .inl rfl
  · obtain ⟨m₂, hm₂, hend⟩ := run_invoke_user f (hvalues.length_eq.symm.trans hlength)
      (evalWithin (depth + 1)) m₁
    rw [hrun, nil_append]
    refine .inr ⟨depth + 1, m₁.store.scopes.size, m₂, ?_, ?_, hend⟩
    · rw [hm₂]
      exact hkept.trans (Store.keptIn_push _ _)
    · have hscope : f.scope = Store.root := (Store.of_lookup? hm.values hf).2
      rw [hm₂, hscope]
      exact Store.getElem?_push_self _ _

end Evaluation

open Evaluation

/-- The body of the function with expressions in the place of the parameters. -/
def UserFunction.instantiate (f : UserFunction) (args : List Node) : Node :=
  f.body.replace fun name => (f.params.zip args).lookup name

namespace Session

variable {s : Session}

/-- **A call is substitution.**  In a session which source texts alone have brought about, a call of a
function of a program, with arguments that have values, gives the same value as the body with the
arguments in the place of the parameters, or fails for the same cause, unless one of the two comes to
the bound on the nesting. -/
theorem evalWithin_call_replaced (hs : s.Reached) {name : String} {f : UserFunction}
    (hf : s.lookup? name = some (.function (.user f))) {args : List Node}
    (hlength : args.length = f.params.length)
    (hargs : ∀ e ∈ args, e.IsExpression ∧ ∃ v, HasValue s.opened e v) (loc loc' : Option Location)
    {depth depth' : ℕ}
    (hcall : ¬IsTooDeep
      (evalWithin depth (.invocation loc (.identifier loc' name) args) Store.root s.opened).1)
    (hbody : ¬IsTooDeep (evalWithin depth' (f.instantiate args) Store.root s.opened).1) :
    (evalWithin depth (.invocation loc (.identifier loc' name) args) Store.root
        s.opened).1.mapError (·.cause) =
      (evalWithin depth' (f.instantiate args) Store.root s.opened).1.mapError (·.cause) := by
  have hopened := isOrderly_opened hs.isOrderly
  obtain ⟨values, hvalues⟩ : ∃ values,
      Forall₂ (fun e v => e.IsExpression ∧ HasValue s.opened e v) args values :=
    Signature.exists_forall₂_iff.2 fun e he =>
      (hargs e he).2.imp fun v hv => ⟨(hargs e he).1, hv⟩
  obtain ⟨depth₁, id, m₁, hkept, hlocals, hend⟩ :=
    (run_call_user hopened hf hvalues hlength loc loc' depth).resolve_left hcall
  have hexpression : f.body.IsExpression := (Store.of_lookup? hopened.values hf).1
  have harguments : ∀ name e, (f.params.zip args).lookup name = some e → e.IsExpression := by
    intro name e he
    have hfind := lookup_zip_hasValue hvalues f.params none name
    rw [he] at hfind
    generalize Scope.find? _ name = slot at hfind
    cases hfind with
    | some h => exact h.1
  have hfollows : Follows True (.substituted s.opened.store id (f.params.zip values))
      (Value.SeesOnly anyName) (evalWithin depth₁ f.body id)
      (evalWithin depth' (f.instantiate args) Store.root) :=
    evalWithin_replaced harguments
      (fun _ _ _ loc name _ => identifier_substituted hvalues f.params id _ _ loc name)
      (.inl trivial) hexpression f.body.readsOnly_anyName
  rcases hfollows m₁ s.opened
      ⟨hopened.agreesOn.mono hkept (.refl _), hopened.agreesOn, hlocals⟩ with
    ⟨-, hdeep | hdeep⟩ | hsame
  · exact absurd (isTooDeep_iff.2 (hend.trans (isTooDeep_iff.1 hdeep))) hcall
  · exact absurd hdeep hbody
  · exact hend.trans hsame.outcome

/-- A session with a function that needs its argument twice, and a name besides. -/
def needingTwice : Session := ((start false).handle "f(x) = x * (x + c); c = 2").2

/-- An argument that has a name of the session in it. -/
def sumArgument : Node := .binary none (.arithmetic .add) (.identifier none "c") (.number none 1.0)

/-- A call with this argument. -/
def sumCall : Node := .invocation none (.identifier none "f") [sumArgument]

theorem evalWithin_call_replaced_needingTwice :
    needingTwice.Reached ∧ ∃ f, needingTwice.lookup? "f" = some (.function (.user f)) ∧
      (∃ v, (evalWithin 10 sumCall Store.root needingTwice.opened).1 = .ok v) ∧
      (evalWithin 10 sumCall Store.root needingTwice.opened).1.mapError (·.cause) =
        (evalWithin 10 (f.instantiate [sumArgument]) Store.root needingTwice.opened).1.mapError
          (·.cause) := by
  have hrun : ((needingTwice.userFunction? "f").any fun f => f.params.length == 1 &&
      (evalWithin 10 sumArgument Store.root needingTwice.opened).1.toBool &&
      (evalWithin 10 sumCall Store.root needingTwice.opened).1.toBool &&
      (evalWithin 10 (f.instantiate [sumArgument]) Store.root needingTwice.opened).1.toBool) =
        true := by
    decide +kernel
  obtain ⟨f, hf, hruns⟩ := (Option.any_eq_true _ _).1 hrun
  simp only [Bool.and_eq_true, beq_iff_eq] at hruns
  obtain ⟨⟨⟨hlength, hargument⟩, hcall⟩, hbody⟩ := hruns
  have hvalue {e : Node} (h : (evalWithin 10 e Store.root needingTwice.opened).1.toBool = true) :
      ∃ v, (evalWithin 10 e Store.root needingTwice.opened).1 = .ok v := by
    cases hr : (evalWithin 10 e Store.root needingTwice.opened).1 with
    | ok v => exact ⟨v, rfl⟩
    | error failure =>
      rw [hr] at h
      cases h
  have hdeep {e : Node} (h : (evalWithin 10 e Store.root needingTwice.opened).1.toBool = true) :
      ¬IsTooDeep (evalWithin 10 e Store.root needingTwice.opened).1 := by
    obtain ⟨v, hv⟩ := hvalue h
    rw [hv]
    exact not_false
  have hlookup := userFunction?_eq_some.1 hf
  have hone : [sumArgument].length = f.params.length := hlength.symm
  obtain ⟨v, hv⟩ := hvalue hargument
  have hargs : ∀ e ∈ [sumArgument], e.IsExpression ∧ ∃ v, HasValue needingTwice.opened e v :=
    forall_mem_singleton.2 ⟨⟨trivial, trivial, trivial⟩, v, 10, _, Prod.ext hv rfl⟩
  exact ⟨.handle _ (.start false), f, hlookup, hvalue hcall,
    evalWithin_call_replaced (.handle _ (.start false)) hlookup hone hargs none none (hdeep hcall)
      (hdeep hbody)⟩

end Session

end SignalCalc
