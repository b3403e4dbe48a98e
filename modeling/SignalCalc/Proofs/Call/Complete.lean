import Mathlib.Data.List.Nodup
import Mathlib.Data.List.ReduceOption
import SignalCalc.Proofs.Call.Related

/-!
# Complete calls

A call that gives every parameter a value once is bound whatever way it gives them: the first ones
by position, the others by name in any order (`Signature.bind_of_complete`).  The slots then hold
what was given, for no value is lost or taken twice on the way into them (`place_perm`).
-/

namespace SignalCalc.Call.Signature

open List

variable {β : Type} {s : Signature β} {slots after : List (Option β)}

/-! ## One name after the other -/

lemma reduceOption_set_perm {i : ℕ} (hi : i < slots.length)
    (hfree : (slots.getD i none).isSome = false) (v : β) :
    (slots.set i (some v)).reduceOption ~ v :: slots.reduceOption := by
  induction slots generalizing i with
  | nil => cases hi
  | cons slot rest ih =>
    cases i with
    | zero =>
      have hslot : slot = none := Option.not_isSome_iff_eq_none.1 (Bool.eq_false_iff.1 hfree)
      rw [set_cons_zero, hslot, reduceOption_cons_of_none, reduceOption_cons_of_some]
    | succ i =>
      have hrest := ih (Nat.lt_of_succ_lt_succ hi) hfree
      rw [set_cons_succ]
      cases slot with
      | none => rwa [reduceOption_cons_of_none, reduceOption_cons_of_none]
      | some w =>
        rw [reduceOption_cons_of_some, reduceOption_cons_of_some]
        exact (hrest.cons w).trans (.swap v w _)

/-- The parameter of a name has a free slot. -/
def HasFreeSlot (s : Signature β) (slots : List (Option β)) (name : String) : Prop :=
  ∃ i, s.index? name = some i ∧ (slots.getD i none).isSome = false

lemma index?_inj {name other : String} {i : ℕ} (h : s.index? name = some i)
    (h' : s.index? other = some i) : name = other := by
  obtain ⟨hi, hname, -⟩ := findIdx?_eq_some_iff_getElem.1 h
  obtain ⟨_, hother, -⟩ := findIdx?_eq_some_iff_getElem.1 h'
  exact (beq_iff_eq.1 hname).symm.trans (beq_iff_eq.1 hother)

/-- A named value goes into a free slot, and the free slots of other names stay free. -/
lemma place_perm {entry : String × β} (hlength : slots.length = s.arity)
    (h : s.HasFreeSlot slots entry.1) :
    ∃ after, s.place slots entry = .ok after ∧ after.length = s.arity ∧
      after.reduceOption ~ entry.2 :: slots.reduceOption ∧
        ∀ name, name ≠ entry.1 → s.HasFreeSlot slots name → s.HasFreeSlot after name := by
  obtain ⟨i, hi, hfree⟩ := h
  refine ⟨slots.set i (some entry.2), ?_, ?_, ?_, ?_⟩
  · rw [place, hi]
    exact if_neg (Bool.eq_false_iff.1 hfree)
  · rw [length_set, hlength]
  · exact reduceOption_set_perm (hlength ▸ index?_lt_arity hi) hfree entry.2
  · rintro name hname ⟨j, hj, hfree'⟩
    have hij : i ≠ j := by
      rintro rfl
      exact hname (index?_inj hj hi)
    refine ⟨j, hj, ?_⟩
    rwa [getD_eq_getElem?_getD, getElem?_set_ne hij, ← getD_eq_getElem?_getD]

/-- Values of different names go into their free slots. -/
lemma foldlM_place_perm {named : List (String × β)} (hlength : slots.length = s.arity)
    (hnodup : (named.map Prod.fst).Nodup)
    (hfree : ∀ entry ∈ named, s.HasFreeSlot slots entry.1) :
    ∃ after, named.foldlM s.place slots = .ok after ∧ after.length = s.arity ∧
      after.reduceOption ~ slots.reduceOption ++ named.map Prod.snd := by
  induction named generalizing slots with
  | nil => exact ⟨slots, rfl, hlength, by rw [map_nil, append_nil]⟩
  | cons entry rest ih =>
    obtain ⟨hentry, hrest⟩ := forall_mem_cons.1 hfree
    obtain ⟨hnew, hnodup'⟩ := nodup_cons.1 hnodup
    obtain ⟨next, hnext, hlength', hperm, hothers⟩ := place_perm hlength hentry
    have hfree' : ∀ other ∈ rest, s.HasFreeSlot next other.1 := fun other hother =>
      hothers other.1 (fun heq => hnew (heq ▸ mem_map_of_mem hother)) (hrest other hother)
    obtain ⟨after, hafter, hlength'', hperm'⟩ := ih hlength' hnodup' hfree'
    refine ⟨after, ?_, hlength'', hperm'.trans ?_⟩
    · rw [foldlM_cons, hnext]
      exact hafter
    · exact (hperm.append_right _).trans perm_middle.symm

/-! ## All names -/

lemma index?_of_mem_drop (hnodup : (s.params.map (·.name)).Nodup) {k : ℕ} {name : String}
    (h : name ∈ (s.params.drop k).map (·.name)) :
    ∃ i, s.index? name = some i ∧ k ≤ i ∧ i < s.arity := by
  obtain ⟨p, hp, rfl⟩ := mem_map.1 h
  obtain ⟨j, hj, rfl⟩ := mem_iff_getElem.1 hp
  rw [length_drop] at hj
  have hlt : k + j < s.params.length := by omega
  refine ⟨k + j, ?_, by omega, hlt⟩
  refine findIdx?_eq_some_iff_getElem.2 ⟨hlt, ?_, fun i hi hname => ?_⟩
  · rw [getElem_drop]
    exact beq_self_eq_true _
  · rw [getElem_drop] at hname
    have hi' : i < (s.params.map (·.name)).length := by rw [length_map]; omega
    have hj' : k + j < (s.params.map (·.name)).length := by rwa [length_map]
    have hsame : (s.params.map (·.name))[i] = (s.params.map (·.name))[k + j] := by
      rw [getElem_map, getElem_map]
      exact beq_iff_eq.1 hname
    have hindex : i = k + j := (getElem_inj hnodup).1 hsame
    omega

lemma reduceOption_positionalSlots (positional : List β) :
    (s.positionalSlots positional).reduceOption = positional := by
  rw [positionalSlots, reduceOption_append, reduceOption_replicate_none, append_nil, reduceOption,
    filterMap_map]
  exact filterMap_some

lemma getD_positionalSlots {positional : List β} {i : ℕ} (h : positional.length ≤ i) :
    ((s.positionalSlots positional).getD i none).isSome = false := by
  rw [positionalSlots, getD_eq_getElem?_getD, getElem?_append_right (by rwa [length_map]),
    getElem?_replicate]
  split <;> rfl

/-- Parameters that take the values of their slots as they are. -/
lemma mapM_settle {accept : Kind → β → Except Refusal β} {found : ℕ} {params : List (Parameter β)}
    {slots : List (Option β)} (hlength : slots.length = params.length)
    (hfull : ∀ slot ∈ slots, slot.isSome = true)
    (haccept : ∀ p ∈ params, ∀ v ∈ slots.reduceOption, accept p.kind v = .ok v) :
    (params.zip slots).mapM (fun entry => s.settle accept found entry.1 entry.2) =
      .ok slots.reduceOption := by
  induction params generalizing slots with
  | nil =>
    obtain rfl := length_eq_zero_iff.1 hlength
    rfl
  | cons p params ih =>
    obtain ⟨slot, slots, rfl⟩ := exists_cons_of_length_eq_add_one hlength
    obtain ⟨v, rfl⟩ := Option.isSome_iff_exists.1 (hfull slot mem_cons_self)
    rw [reduceOption_cons_of_some] at haccept ⊢
    have hp : s.settle accept found p (some v) = .ok v := by
      rw [settle, Option.some_or]
      simp only [haccept p mem_cons_self v mem_cons_self]
    have hrest := ih (Nat.succ.inj hlength) (fun slot hslot => hfull slot (mem_cons_of_mem _ hslot))
      fun q hq w hw => haccept q (mem_cons_of_mem p hq) w (mem_cons_of_mem v hw)
    rw [zip_cons_cons, mapM_cons, hp, hrest]
    rfl

/-- **Complete calls are bound.** A call that gives every parameter a value once, and only values
that the parameters take as they are, is bound, and its slots hold the values it gave. -/
theorem bind_of_complete {accept : Kind → β → Except Refusal β} {positional : List β}
    {named : List (String × β)} (hcount : positional.length ≤ s.arity)
    (hnodup : (s.params.map (·.name)).Nodup)
    (hnames : named.map Prod.fst ~ (s.params.drop positional.length).map (·.name))
    (haccept : ∀ p ∈ s.params, ∀ v ∈ positional ++ named.map Prod.snd,
      accept p.kind v = .ok v) :
    ∃ values, s.bind accept positional named = .ok values ∧
      values ~ positional ++ named.map Prod.snd := by
  have htotal : positional.length + named.length = s.arity := by
    have hlength := hnames.length_eq
    rw [length_map, length_map, length_drop] at hlength
    have harity : s.arity = s.params.length := rfl
    omega
  have hnodup' : (named.map Prod.fst).Nodup :=
    hnames.nodup_iff.2 (hnodup.sublist ((drop_sublist _ _).map _))
  have hfree : ∀ entry ∈ named, s.HasFreeSlot (s.positionalSlots positional) entry.1 := by
    intro entry hentry
    obtain ⟨i, hi, hle, -⟩ := index?_of_mem_drop hnodup (hnames.mem_iff.1 (mem_map_of_mem hentry))
    exact ⟨i, hi, getD_positionalSlots hle⟩
  obtain ⟨after, hafter, hlength, hperm⟩ :=
    foldlM_place_perm (s.length_positionalSlots hcount) hnodup' hfree
  rw [reduceOption_positionalSlots] at hperm
  have hfull : ∀ slot ∈ after, slot.isSome = true := by
    refine reduceOption_length_eq_iff.1 ?_
    rw [hperm.length_eq, length_append, length_map, htotal, hlength]
  refine ⟨after.reduceOption, ?_, hperm⟩
  have hsettled : (s.params.zip after).mapM
      (fun entry => s.settle accept (positional.length + named.length) entry.1 entry.2) =
        .ok after.reduceOption :=
    mapM_settle hlength hfull fun p hp v hv => haccept p hp v (hperm.mem_iff.1 hv)
  unfold Signature.bind
  rw [if_neg (by omega)]
  exact bind_eq_ok_iff.2 ⟨after, hafter, hsettled⟩

end SignalCalc.Call.Signature
