import SignalCalc.Evaluation.Evaluator
import SignalCalc.Proofs.Signal.Arguments

/-!
# Promoted calls

A real function that gets a sound becomes a sound that keeps the arguments of the call.  They are
bound again when the sound is played.  `bindArguments_promoted` says that this second binding
cannot fail, and that it finds in every slot what the call found there.
-/

namespace SignalCalc.Evaluation

open SignalCalc.Builtin
open SignalCalc.Call
open SignalCalc.Signal
open List

/-- The arguments that the sound of a promoted call keeps. -/
def promotedArguments (positional : List Value) (named : List (String × Value)) :
    List (Argument Float) :=
  positional.map (promotedArgument none) ++
    named.map fun entry => promotedArgument (some entry.1) entry.2

lemma promoted_eq (f : RealFunction) (positional : List Value) (named : List (String × Value)) :
    promoted f positional named = .apply (.real f) (promotedArguments positional named) := rfl

lemma label_promotedArgument (label : Option String) (v : Value) :
    (promotedArgument label v).label = label := by
  cases v <;> rfl

lemma positionalArguments_promoted (positional : List Value) (named : List (String × Value)) :
    positionalArguments (promotedArguments positional named) =
      positional.map (promotedArgument none) := by
  have hpositional : (positional.map (promotedArgument none)).filter (·.label.isNone) =
      positional.map (promotedArgument none) := by
    refine filter_eq_self.2 fun a ha => ?_
    obtain ⟨v, -, rfl⟩ := mem_map.1 ha
    rw [label_promotedArgument]
    rfl
  have hnamed : (named.map fun entry => promotedArgument (some entry.1) entry.2).filter
      (·.label.isNone) = [] := by
    refine filter_eq_nil_iff.2 fun a ha => ?_
    obtain ⟨entry, -, rfl⟩ := mem_map.1 ha
    rw [label_promotedArgument]
    exact Bool.false_ne_true
  rw [positionalArguments, promotedArguments, filter_append, hpositional, hnamed, append_nil]

lemma namedArguments_promoted (positional : List Value) (named : List (String × Value)) :
    namedArguments (promotedArguments positional named) =
      named.map fun entry => (entry.1, promotedArgument (some entry.1) entry.2) := by
  rw [namedArguments, promotedArguments, filterMap_append, filterMap_map, filterMap_map]
  have hpositional : positional.filterMap
      ((fun a : Argument Float => a.label.map fun name => (name, a)) ∘ promotedArgument none) =
        [] := by
    refine filterMap_eq_nil_iff.2 fun v _ => ?_
    simp only [Function.comp_apply, label_promotedArgument, Option.map_none]
  have hnamed : named.filterMap ((fun a : Argument Float => a.label.map fun name => (name, a)) ∘
      fun entry => promotedArgument (some entry.1) entry.2) =
        named.map fun entry => (entry.1, promotedArgument (some entry.1) entry.2) := by
    rw [← filterMap_eq_map]
    refine filterMap_congr fun entry _ => ?_
    simp only [Function.comp_apply, label_promotedArgument, Option.map_some]
  rw [hpositional, hnamed, nil_append]

/-- A number or a sound, as an argument keeps it. -/
inductive Kept : Value → Argument Float → Prop where
  | real (label : Option String) (x : Float) : Kept (.real x) (.real label x)
  | sound (label : Option String) (s : Sound Float) : Kept (.sound s) (.sound label s)

/-- A real function accepts of an argument what it accepts of the value. -/
lemma accept_promotedArgument (label : Option String) (v : Value) :
    Leads Kept (v.acceptReal .real) ((promotedArgument label v).accept true .real) := by
  cases v with
  | real x => exact .ok (.real label x)
  | sound s => exact .ok (.sound label s)
  | whole n =>
    have hwhole : Scalar.ofWhole? (α := Float) n = Number.wholeFloat? n := rfl
    simp only [Value.acceptReal, Value.isSound, Value.accept, promotedArgument, Argument.accept,
      hwhole, Bool.false_eq_true, if_false]
    cases Number.wholeFloat? n with
    | none => exact .error _ _
    | some x => exact .ok (.real label x)
  | _ => exact .error _ _

/-- The arguments of a promoted call are bound again to the slots that the call found. -/
theorem bindArguments_promoted {f : RealFunction} {positional slots : List Value}
    {named : List (String × Value)} (h : (Function.real f).bind positional named = .ok slots) :
    ∃ kept, (Applied.real f).bindArguments (promotedArguments positional named) = .ok kept ∧
      Forall₂ Kept slots kept := by
  have hnodup : ((namedArguments (promotedArguments positional named)).map Prod.fst).Nodup := by
    rw [namedArguments_promoted, map_map]
    exact Signature.names_nodup_of_bind h
  unfold Applied.bindArguments
  rw [lastWins_eq_self hnodup, namedArguments_promoted, positionalArguments_promoted]
  refine Signature.bind_of_related (R := fun v a => ∃ label, a = promotedArgument label v)
    ?_ ?_ ?_ ?_ slots h
  · show Forall₂ _ (map _ f.parameterNames) (map _ f.parameterNames)
    rw [forall₂_map_left_iff, forall₂_map_right_iff, forall₂_same]
    exact fun _ _ => ⟨rfl, rfl, .none⟩
  · rintro p hp v _ ⟨label, rfl⟩
    obtain ⟨name, -, rfl⟩ := mem_map.1 hp
    exact accept_promotedArgument label v
  · rw [forall₂_map_right_iff, forall₂_same]
    exact fun v _ => ⟨none, rfl⟩
  · rw [forall₂_map_right_iff, forall₂_same]
    exact fun entry _ => ⟨rfl, some entry.1, rfl⟩

/-- A sound in the arguments of a promoted call was an argument of the call. -/
lemma mem_of_sound_mem_promoted {positional : List Value} {named : List (String × Value)}
    {label : Option String} {s : Sound Float}
    (h : Argument.sound label s ∈ promotedArguments positional named) :
    Value.sound s ∈ positional ∨ ∃ name, (name, Value.sound s) ∈ named := by
  have hsound : ∀ {label' v}, promotedArgument label' v = .sound label s → v = .sound s := by
    intro label' v hv
    cases v <;> cases hv
    rfl
  rcases mem_append.1 h with h | h
  · obtain ⟨v, hv, hva⟩ := mem_map.1 h
    exact .inl (hsound hva ▸ hv)
  · obtain ⟨⟨name, v⟩, hv, hva⟩ := mem_map.1 h
    exact .inr ⟨name, hsound hva ▸ hv⟩

end SignalCalc.Evaluation
