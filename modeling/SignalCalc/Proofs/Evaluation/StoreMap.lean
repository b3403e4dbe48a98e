import Mathlib.Data.Nat.Notation
import Mathlib.Tactic.Lemma
import SignalCalc.Evaluation.Scope

/-!
# Stores with other values

`Store.map g` puts `g v` in the place of every value `v` that a name has.  Names and scopes stay as
they are, so looking up a name commutes with the change.  `Store.All P` is a condition on all the
values.
-/

namespace SignalCalc

/-- The scope with all values changed. -/
def Scope.map (g : Value → Value) (s : Scope) : Scope :=
  { s with bindings := s.bindings.map fun entry => (entry.1, g entry.2) }

/-- The store with all values changed. -/
def Store.map (g : Value → Value) (s : Store) : Store := ⟨s.scopes.map (Scope.map g)⟩

lemma Scope.find?_map (g : Value → Value) (s : Scope) (name : String) :
    (s.map g).find? name = (s.find? name).map g := by
  obtain ⟨parent, bindings⟩ := s
  simp only [Scope.find?, Scope.map]
  induction bindings with
  | nil => rfl
  | cons entry rest ih =>
    by_cases h : entry.1 == name
    · simp [h]
    · simpa [h] using ih

lemma Store.getElem?_map (g : Value → Value) (s : Store) (id : ScopeId) :
    (s.map g).scopes[id]? = (s.scopes[id]?).map (Scope.map g) := by
  simp [Store.map]

lemma Store.size_map (g : Value → Value) (s : Store) :
    (s.map g).scopes.size = s.scopes.size := by
  simp [Store.map]

lemma Store.ownerFrom_map (g : Value → Value) (s : Store) (name : String) (steps : ℕ)
    (id : ScopeId) :
    (s.map g).ownerFrom name steps id =
      (s.ownerFrom name steps id).map fun found => (found.1, g found.2) := by
  induction steps generalizing id with
  | zero => rfl
  | succ steps ih =>
    simp only [ownerFrom, getElem?_map]
    cases s.scopes[id]? with
    | none => rfl
    | some scope =>
      simp only [Option.map_some, Scope.find?_map]
      cases scope.find? name with
      | some v => rfl
      | none =>
        have hparent : (scope.map g).parent = scope.parent := rfl
        dsimp only [Option.map_none]
        rw [hparent]
        cases scope.parent with
        | none => rfl
        | some parent => exact ih parent

/-- A name has the changed value in the changed store. -/
lemma Store.lookup?_map (g : Value → Value) (s : Store) (id : ScopeId) (name : String) :
    (s.map g).lookup? id name = (s.lookup? id name).map g := by
  simp only [lookup?, owner?, ownerFrom_map, size_map]
  cases s.ownerFrom name s.scopes.size id <;> rfl

lemma Store.map_push (g : Value → Value) (s : Store) (scope : Scope) :
    (s.push scope).2.map g = ((s.map g).push (scope.map g)).2 := by
  simp [push, Store.map]

/-! ## Conditions on all values -/

/-- All values in the store meet a condition. -/
def Store.All (P : Value → Prop) (s : Store) : Prop :=
  ∀ scope ∈ s.scopes, ∀ entry ∈ scope.bindings, P entry.2

lemma Scope.mem_of_find? {s : Scope} {name : String} {v : Value} (h : s.find? name = some v) :
    (name, v) ∈ s.bindings := by
  obtain ⟨entry, hentry, rfl⟩ := Option.map_eq_some_iff.1 h
  have hname := List.find?_some hentry
  simp only [beq_iff_eq] at hname
  exact hname ▸ List.mem_of_find?_eq_some hentry

lemma Store.of_lookup? {P : Value → Prop} {s : Store} (h : s.All P) {id : ScopeId}
    {name : String} {v : Value} (hv : s.lookup? id name = some v) : P v := by
  obtain ⟨found, hfound, rfl⟩ := Option.map_eq_some_iff.1 hv
  clear hv
  unfold owner? at hfound
  generalize s.scopes.size = steps at hfound
  induction steps generalizing id with
  | zero => cases hfound
  | succ steps ih =>
    unfold ownerFrom at hfound
    split at hfound
    · cases hfound
    · rename_i scope hscope
      split at hfound
      · rename_i v hv
        obtain rfl := Option.some.inj hfound
        exact h scope (Array.mem_of_getElem? hscope) _ (Scope.mem_of_find? hv)
      · split at hfound
        · exact ih hfound
        · cases hfound

lemma Store.all_push {P : Value → Prop} {s : Store} (h : s.All P) {scope : Scope}
    (hscope : ∀ entry ∈ scope.bindings, P entry.2) : (s.push scope).2.All P := by
  intro scope' hmem entry hentry
  rcases Array.mem_push.1 hmem with hold | rfl
  · exact h scope' hold entry hentry
  · exact hscope entry hentry

lemma Scope.mem_bind {s : Scope} {name : String} {v : Value} {entry : String × Value}
    (h : entry ∈ (s.bind name v).bindings) : entry ∈ s.bindings ∨ entry = (name, v) := by
  by_cases hname : name ∈ s.names
  · rw [bindings_bind_of_mem hname] at h
    obtain ⟨old, hold, rfl⟩ := List.mem_map.1 h
    split
    · exact .inr rfl
    · exact .inl hold
  · rw [bindings_bind_of_not_mem hname] at h
    rcases List.mem_append.1 h with hold | hnew
    · exact .inl hold
    · exact .inr (List.mem_singleton.1 hnew)

lemma Store.all_bind {P : Value → Prop} {s : Store} (h : s.All P) (id : ScopeId) (name : String)
    {v : Value} (hv : P v) : (s.bind id name v).All P := by
  intro scope hmem entry hentry
  obtain ⟨i, hi⟩ := Array.mem_iff_getElem?.1 hmem
  rw [getElem?_bind] at hi
  split at hi
  · obtain ⟨old, hold, rfl⟩ := Option.map_eq_some_iff.1 hi
    rcases Scope.mem_bind hentry with hentry | rfl
    · exact h old (Array.mem_of_getElem? hold) entry hentry
    · exact hv
  · exact h scope (Array.mem_of_getElem? hi) entry hentry

end SignalCalc
