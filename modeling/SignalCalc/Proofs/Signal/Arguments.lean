import SignalCalc.Proofs.Call.Related
import SignalCalc.Proofs.Signal.Nodes

/-!
# The arguments of an applied function

An applied function keeps its arguments as they were given.  `Applied.bindArguments` brings them
into the order of the parameters, and `Sound.Binds` says that this succeeds for every applied
function in a sound.

Arguments are bound more than once: when the sound is built, when it is played, and again after
it was moved in time.  `Applied.bindArguments_leads` compares two such bindings: whatever goes
with the arguments is found in the slots of the arguments themselves.
-/

namespace SignalCalc.Signal

open SignalCalc.Builtin
open SignalCalc.Call
open List

variable {α : Type} [Scalar α]

/-- What a parameter of an applied function makes of an argument: a whole number becomes a real,
and a sound parameter takes a real as a constant. -/
def Argument.accept (takesSignals : Bool) (kind : Kind) (a : Argument α) :
    Except Refusal (Argument α) :=
  match kind, a with
  | .any, _ => .ok a
  | .real, .real _ _ => .ok a
  | .real, .whole label n =>
    match Scalar.ofWhole? (α := α) n with
    | some x => .ok (.real label x)
    | none => .error .tooLarge
  | .real, .sound _ _ => if takesSignals then .ok a else .error .wrongKind
  | .sound, .real label x => .ok (.sound label (.const x))
  | .sound, .whole label n =>
    match Scalar.ofWhole? (α := α) n with
    | some x => .ok (.sound label (.const x))
    | none => .error .tooLarge
  | .sound, .sound _ _ => .ok a
  | _, _ => .error .wrongKind

/-- The arguments given without a name. -/
def positionalArguments (args : List (Argument α)) : List (Argument α) :=
  args.filter (·.label.isNone)

/-- The arguments given by name. -/
def namedArguments (args : List (Argument α)) : List (String × Argument α) :=
  args.filterMap fun a => a.label.map fun name => (name, a)

/-- The arguments of an applied function in the order of its parameters. -/
def Applied.bindArguments (f : Applied) (args : List (Argument α)) :
    Except (BindError (Argument α)) (List (Argument α)) :=
  (f.signature (.real none Scalar.zero)).bind (Argument.accept f.takesSignals)
    (positionalArguments args) (lastWins (namedArguments args))

/-- Every applied function in the sound gets arguments that fit it. -/
def Sound.Binds (s : Sound α) : Prop :=
  s.Everywhere fun t => ∀ f args, t = .apply f args → ∃ slots, f.bindArguments args = .ok slots

/-- All noise in the sound has a seed. -/
def Sound.Seeded (s : Sound α) : Prop := s.Everywhere (· ≠ .noise none)

/-! ## Binding does not look at what goes with an argument -/

/-- The parameters of a function with related defaults. -/
lemma Applied.params_related {β γ : Type} {R : β → γ → Prop} {b : β} {c : γ} (h : R b c)
    (f : Applied) :
    Forall₂ (Parameter.Related R) (f.signature b).params (f.signature c).params := by
  cases f with
  | real f =>
    simp only [Applied.signature, forall₂_map_left_iff, forall₂_map_right_iff, forall₂_same]
    exact fun _ _ => ⟨rfl, rfl, .none⟩
  | defined name params =>
    simp only [Applied.signature, forall₂_map_left_iff, forall₂_map_right_iff, forall₂_same]
    exact fun _ _ => ⟨rfl, rfl, .none⟩
  | constructor c =>
    cases c <;> simp only [Applied.signature, Constructor.parameters, forall₂_cons,
      forall₂_nil_left_iff, and_true]
    case sine => exact ⟨⟨rfl, rfl, .none⟩, rfl, rfl, .some h⟩
    case linear => exact ⟨⟨rfl, rfl, .none⟩, rfl, rfl, .none⟩
    case shift => exact ⟨⟨rfl, rfl, .none⟩, rfl, rfl, .none⟩
    all_goals exact ⟨rfl, rfl, .none⟩

/-- Where arguments fit, what goes with them fits too and is found in the same slots: `argument`
tells which argument a thing goes with, and `R` how it belongs to it. -/
theorem Applied.bindArguments_leads {β : Type} (f : Applied) {R : Argument α → β → Prop}
    (argument : β → Argument α) {accept : Kind → β → Except Refusal β} {start : β}
    (harg : ∀ a b, R a b → argument b = a) (hstart : R (.real none Scalar.zero) start)
    (haccept : ∀ kind a b, R a b → Leads R (a.accept f.takesSignals kind) (accept kind b))
    {args : List (Argument α)} {bs : List β} (h : Forall₂ R args bs) :
    Leads (Forall₂ R) (f.bindArguments args)
      ((f.signature start).bind accept (bs.filter fun b => (argument b).label.isNone)
        (lastWins (bs.filterMap fun b => (argument b).label.map fun name => (name, b)))) := by
  have hlabel : ∀ a b, R a b → a.label = (argument b).label := fun a b hab => by rw [harg a b hab]
  exact Signature.bind_of_related (f.params_related hstart) (fun p _ => haccept p.kind)
    (filter_related hlabel h) (lastWins_related (filterMap_related hlabel h))

end SignalCalc.Signal
