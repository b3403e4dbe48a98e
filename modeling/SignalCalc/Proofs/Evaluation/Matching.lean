import SignalCalc.Proofs.Call.Paired
import SignalCalc.Proofs.Evaluation.StoreMap
import SignalCalc.Proofs.Syntax.Unplaced
import SignalCalc.Session.Report

/-!
# States that match

Where a program stands in its text gets into a state by the bodies of functions alone.  So values match
if they are equal but for the places in these bodies, and causes are alike if they have the same name and
the same message.

A function holds the number of a scope, and numbers are given out in the order of calls.  Therefore two
stores are compared along a `Matching`, which says which scope of one stands for which scope of the other;
scopes that it leaves out do not count.  Looking up a name, binding one and adding a scope keep stores
matched.
-/

namespace SignalCalc

open SignalCalc.Builtin
open SignalCalc.Call
open SignalCalc.Syntax
open List

/-- Which scopes of one store stand for which scopes of another one. -/
abbrev Matching := ScopeId → ScopeId → Prop

variable {ρ σ : Matching}

/-! ## Values -/

/-- Functions that are equal but for the places in their bodies. -/
inductive Function.Matches (ρ : Matching) : Function → Function → Prop where
  | real (f : RealFunction) : Matches ρ (.real f) (.real f)
  | constructor (c : Constructor) : Matches ρ (.constructor c) (.constructor c)
  | user {f g : UserFunction} (name : f.name = g.name) (params : f.params = g.params)
    (body : f.body.bare = g.body.bare) (scope : ρ f.scope g.scope) :
    Matches ρ (.user f) (.user g)

/-- A value that holds no function. -/
def Value.IsPlain : Value → Prop
  | .function _ | .list _ => False
  | _ => True

lemma Value.IsNumber.isPlain {v : Value} (h : v.IsNumber) : v.IsPlain := by
  cases v with
  | real | whole => trivial
  | _ => exact h.elim

/-- Values that are equal but for the places in bodies of functions. -/
inductive Value.Matches (ρ : Matching) : Value → Value → Prop where
  | plain {v : Value} : v.IsPlain → Matches ρ v v
  | function {f g : Function} : f.Matches ρ g → Matches ρ (.function f) (.function g)
  | list {vs ws : List Value} : Forall₂ (Matches ρ) vs ws → Matches ρ (.list vs) (.list ws)

namespace Function.Matches

variable {f g : Function}

lemma mono (h : f.Matches ρ g) (hρ : ρ ≤ σ) : f.Matches σ g := by
  cases h with
  | real f => exact .real f
  | constructor c => exact .constructor c
  | user hname hparams hbody hscope => exact .user hname hparams hbody (hρ _ _ hscope)

lemma name_eq (h : f.Matches ρ g) : f.name = g.name := by
  cases h with
  | real | constructor => rfl
  | user hname => exact hname

lemma text_eq (h : f.Matches ρ g) : f.text = g.text := by
  cases h with
  | real | constructor => rfl
  | user hname hparams =>
    simp only [Function.text, Function.name, Function.parameterNames, hname, hparams]

lemma signature_eq (h : f.Matches ρ g) : f.signature = g.signature := by
  cases h with
  | real | constructor => rfl
  | user hname hparams => rw [Function.signature, Function.signature, hname, hparams]

end Function.Matches

namespace Value.Matches

variable {v w : Value} {vs ws : List Value}

mutual
lemma mono (hρ : ρ ≤ σ) : ∀ {v w : Value}, v.Matches ρ w → v.Matches σ w
  | _, _, .plain h => .plain h
  | _, _, .function h => .function (h.mono hρ)
  | _, _, .list h => .list (monoAll hρ h)

lemma monoAll (hρ : ρ ≤ σ) :
    ∀ {vs ws : List Value}, Forall₂ (Value.Matches ρ) vs ws → Forall₂ (Value.Matches σ) vs ws
  | _, _, .nil => .nil
  | _, _, .cons hfirst hrest => .cons (hfirst.mono hρ) (monoAll hρ hrest)
end

lemma eq_of_isPlain (h : v.Matches ρ w) (hv : v.IsPlain) : v = w := by
  cases h with
  | plain => rfl
  | function | list => exact hv.elim

lemma monoNamed (hρ : ρ ≤ σ) {named named' : List (String × Value)}
    (h : Forall₂ (NamedRelated (Value.Matches ρ)) named named') :
    Forall₂ (NamedRelated (Value.Matches σ)) named named' :=
  h.imp fun _ _ hentry => ⟨hentry.1, hentry.2.mono hρ⟩

lemma isPlain_iff (h : v.Matches ρ w) : v.IsPlain ↔ w.IsPlain := by cases h <;> rfl

lemma isPlain_all_iff (h : Forall₂ (Value.Matches ρ) vs ws) :
    (∀ v ∈ vs, v.IsPlain) ↔ ∀ w ∈ ws, w.IsPlain := by
  induction h with
  | nil => simp
  | cons hfirst _ ih =>
    rw [forall_mem_cons, forall_mem_cons, ih, hfirst.isPlain_iff]

/-! ### Texts -/

mutual
lemma literal_eq : ∀ {v w : Value}, v.Matches ρ w → v.literal = w.literal
  | _, _, .plain _ => rfl
  | _, _, .function h => by rw [literal, literal, h.text_eq]
  | _, _, .list h => by rw [literal, literal, literals_eq h]

lemma literals_eq :
    ∀ {vs ws : List Value}, Forall₂ (Value.Matches ρ) vs ws → literals vs = literals ws
  | _, _, .nil => rfl
  | _, _, .cons hfirst hrest => by rw [literals, literals, hfirst.literal_eq, literals_eq hrest]
end

lemma text_eq (h : v.Matches ρ w) : v.text = w.text := by
  cases h with
  | plain => rfl
  | function h => rw [text, text, h.text_eq]
  | list h => rw [text, text, literals_eq h]

lemma describe_eq (h : v.Matches ρ w) : v.describe = w.describe := by
  cases h with
  | plain | list => rfl
  | function h => rw [describe, describe, h.name_eq]

lemma typeName_eq (h : v.Matches ρ w) : v.typeName = w.typeName := by cases h <;> rfl

lemma argumentText_eq (h : v.Matches ρ w) : Report.argumentText v = Report.argumentText w := by
  cases h with
  | plain => rfl
  | function h => exact congrArg Except.ok h.name_eq
  | list h => exact (Value.Matches.list h).text_eq

/-! ### What is done with values -/

lemma isSound_eq (h : v.Matches ρ w) : v.isSound = w.isSound := by cases h <;> rfl

lemma any_isSound_eq (h : Forall₂ (Value.Matches ρ) vs ws) :
    vs.any Value.isSound = ws.any Value.isSound := by
  induction h with
  | nil => rfl
  | cons hfirst _ ih => rw [any_cons, any_cons, ih, hfirst.isSound_eq]

lemma accept_paired (h : v.Matches ρ w) (kind : Kind) :
    Paired Eq (Value.Matches ρ) (v.accept kind) (w.accept kind) := by
  cases h with
  | plain hv =>
    unfold accept
    split
    · exact Value.Matches.plain hv
    case h_3 => split <;> first | exact Value.Matches.plain trivial | rfl
    case h_4 => split <;> first | exact Value.Matches.plain trivial | rfl
    all_goals first | exact Value.Matches.plain trivial | rfl
  | function h =>
    cases kind with
    | any => exact Value.Matches.function h
    | _ => rfl
  | list h =>
    cases kind with
    | any => exact Value.Matches.list h
    | _ => rfl

lemma acceptReal_paired (h : v.Matches ρ w) (kind : Kind) :
    Paired Eq (Value.Matches ρ) (v.acceptReal kind) (w.acceptReal kind) := by
  unfold acceptReal
  rw [h.isSound_eq]
  split
  · exact h
  · exact h.accept_paired kind

end Value.Matches

/-! ## Calls -/

namespace Function

variable {f g : Function} {vs ws slots : List Value} {named named' : List (String × Value)}

lemma isPlain_default (f : Function) {p : Parameter Value} (hp : p ∈ f.signature.params) {v : Value}
    (h : p.default = some v) : v.IsPlain := by
  cases f with
  | real | user =>
    obtain ⟨name, -, rfl⟩ := mem_map.1 hp
    cases h
  | constructor c =>
    have hstart : v = .real 0.0 := by
      simp only [signature] at hp
      cases c <;> simp only [Constructor.parameters, mem_cons, not_mem_nil, or_false] at hp
      all_goals grind
    exact hstart ▸ trivial

lemma Matches.accept_paired (h : f.Matches ρ g) (kind : Kind) {v w : Value} (hv : v.Matches ρ w) :
    Paired Eq (Value.Matches ρ) (f.accept kind v) (g.accept kind w) := by
  cases h with
  | real => exact hv.acceptReal_paired kind
  | constructor | user => exact hv.accept_paired kind

/-- Calls of functions that match end alike. -/
lemma Matches.bind_paired (h : f.Matches ρ g) (hvs : Forall₂ (Value.Matches ρ) vs ws)
    (hnamed : Forall₂ (NamedRelated (Value.Matches ρ)) named named') :
    Paired (BindError.Related (Value.Matches ρ)) (Forall₂ (Value.Matches ρ)) (f.bind vs named)
      (g.bind ws named') := by
  unfold Function.bind
  refine Signature.bind_paired ?_ (fun kind _ _ hv => h.accept_paired kind hv) hvs hnamed
  rw [← h.signature_eq]
  refine forall₂_same.2 fun p hp => ⟨rfl, rfl, ?_⟩
  cases hdefault : p.default with
  | none => exact .none
  | some v => exact .some (.plain (f.isPlain_default hp hdefault))

end Function

namespace Evaluation

variable {vs ws : List Value} {named named' : List (String × Value)}

lemma construct_of_not_isPlain (c : Constructor) {v : Value} (h : v ∈ vs) (hv : ¬v.IsPlain) :
    construct c vs = .nothing := by
  have hslots (w : Value) (hw : w.IsPlain) : v ≠ w := by
    rintro rfl
    exact hv hw
  unfold construct
  split
  case h_8 => rfl
  all_goals simp_all [Value.IsPlain]

/-- Constructors take no functions. -/
lemma construct_eq_of_matches (c : Constructor) (h : Forall₂ (Value.Matches ρ) vs ws) :
    construct c vs = construct c ws := by
  by_cases hplain : ∀ v ∈ vs, v.IsPlain
  · have hsame : Forall₂ Eq vs ws :=
      ((forall₂_and_left _ _).2 ⟨hplain, h⟩).imp fun _ _ hv => hv.2.eq_of_isPlain hv.1
    rw [forall₂_eq_eq_eq] at hsame
    rw [hsame]
  · have hplain' : ¬∀ w ∈ ws, w.IsPlain := fun hws => hplain (Value.Matches.isPlain_all_iff h |>.2 hws)
    obtain ⟨v, hv, hvplain⟩ := not_forall₂.1 hplain
    obtain ⟨w, hw, hwplain⟩ := not_forall₂.1 hplain'
    rw [construct_of_not_isPlain c hv hvplain, construct_of_not_isPlain c hw hwplain]

lemma construct_isPlain (c : Constructor) (slots : List Value) : (construct c slots).IsPlain := by
  unfold construct
  split <;> trivial

/-- What is read off values that match is the same, if it is for each two of them. -/
lemma filterMap_eq {α : Type} {read : Value → Option α}
    (hread : ∀ v w, v.Matches ρ w → read v = read w) (h : Forall₂ (Value.Matches ρ) vs ws) :
    vs.filterMap read = ws.filterMap read := by
  induction h with
  | nil => rfl
  | cons hfirst _ ih => rw [filterMap_cons, filterMap_cons, hread _ _ hfirst, ih]

lemma promotedArgument_eq_of_matches (label : Option String) {v w : Value} (h : v.Matches ρ w) :
    promotedArgument label v = promotedArgument label w := by cases h <;> rfl

lemma promoted_eq_of_matches (f : RealFunction) (h : Forall₂ (Value.Matches ρ) vs ws)
    (hnamed : Forall₂ (NamedRelated (Value.Matches ρ)) named named') :
    promoted f vs named = promoted f ws named' := by
  have hpositional : ws.map (promotedArgument none) = vs.map (promotedArgument none) :=
    map_eq_of_forall₂ (h.imp fun _ _ hv => (promotedArgument_eq_of_matches none hv).symm)
  have hlabelled : named'.map (fun entry => promotedArgument (some entry.1) entry.2) =
      named.map fun entry => promotedArgument (some entry.1) entry.2 :=
    map_eq_of_forall₂ (hnamed.imp fun entry entry' hentry => by
      rw [hentry.1, promotedArgument_eq_of_matches _ hentry.2])
  rw [promoted, promoted, hpositional, hlabelled]

end Evaluation

/-! ## Causes -/

/-- Causes with the same name and the same message. -/
structure Cause.Alike (cause cause' : Cause) : Prop where
  title : cause.title = cause'.title
  message : cause.message = cause'.message

namespace Cause

variable {cause cause' : Cause} {vs ws : List Value}

lemma Alike.refl (cause : Cause) : cause.Alike cause := ⟨rfl, rfl⟩

/-- The name of a cause tells whether it is an error that a program makes. -/
lemma isLanguageError_eq (cause : Cause) :
    cause.isLanguageError = (cause.title != "InternalError" && cause.title != "RecursionError") := by
  cases cause <;> rfl

lemma Alike.isLanguageError_eq (h : cause.Alike cause') :
    cause.isLanguageError = cause'.isLanguageError := by
  rw [Cause.isLanguageError_eq, Cause.isLanguageError_eq, h.title]

lemma described_eq {v w : Value} (h : v.Matches ρ w) : described v = described w := by
  rw [described, described, h.describe_eq, h.typeName_eq]

lemma Alike.naming (hvs : Forall₂ (Value.Matches ρ) vs ws) (h : cause.Alike cause') :
    (naming vs cause).Alike (naming ws cause') := by
  unfold Cause.naming
  rw [mapM_eq_of_forall₂ (hvs.imp fun _ _ hv => hv.describe_eq)]
  split
  · exact h
  · exact .refl _

lemma alike_notAFunction {v w : Value} (h : v.Matches ρ w) :
    (notAFunction v).Alike (notAFunction w) :=
  ⟨rfl, congrArg (· ++ " is not callable") (described_eq h)⟩

lemma alike_notEvaluable {node node' : Node} (h : node.bare = node'.bare) :
    (notEvaluable node).Alike (notEvaluable node') :=
  ⟨rfl, congrArg ("Cannot evaluate node " ++ ·) (Node.outline_eq h)⟩

lemma alike_mismatch (operator : String) (h : Forall₂ (Value.Matches ρ) vs ws) :
    (mismatch operator vs).Alike (mismatch operator ws) := by
  have hdescribed : ws.map described = vs.map described :=
    map_eq_of_forall₂ (h.imp fun _ _ hv => (described_eq hv).symm)
  exact .naming h ⟨rfl, congrArg (fun texts => "'" ++ operator ++ "' cannot be applied to (" ++
    ", ".intercalate texts ++ ")") hdescribed.symm⟩

lemma alike_ofBindError (function : String) {e e' : BindError Value}
    (h : e.Related (Value.Matches ρ) e') : (ofBindError function e).Alike (ofBindError function e') := by
  cases h with
  | wrongKind hv => exact alike_mismatch function (.cons hv .nil)
  | _ => exact .refl _

end Cause

/-- Failures for like causes, at nodes that are equal but for places. -/
structure Failure.Alike (failure failure' : Failure) : Prop where
  cause : failure.cause.Alike failure'.cause
  node : failure.node.map Node.bare = failure'.node.map Node.bare

end SignalCalc
