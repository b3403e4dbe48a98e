import SignalCalc.Proofs.Evaluation.Matching

/-!
# Stores that match

Two stores match along a `Matching` of their scopes if it is one to one and scopes that stand for each
other bind the same names to values that match, inside scopes that stand for each other.  The numbers of
the scopes do not count, nor the order in which names were bound, nor the scopes that are left out.  The
order is kept all the same: first scopes that bind their names in one order go on to do so
(`Store.SameOrder`).

A scope always lies inside an older one.  So the way outward ends, and looking up a name from scopes that
stand for each other gives values that match, however many other scopes there are (`Store.Matches.lookup?`).
-/

namespace SignalCalc

open SignalCalc.Call
open SignalCalc.Syntax
open List

variable {ρ σ : Matching}

/-! ## Scopes -/

/-- Values that match, or none. -/
lemma Value.Matches.monoOption (hρ : ρ ≤ σ) {v? w? : Option Value}
    (h : Option.Rel (Value.Matches ρ) v? w?) : Option.Rel (Value.Matches σ) v? w? := by
  cases h with
  | none => exact .none
  | some hv => exact .some (hv.mono hρ)

/-- The same names with values that match, inside scopes that stand for each other. -/
structure Scope.Matches (ρ : Matching) (scope scope' : Scope) : Prop where
  parent : Option.Rel ρ scope.parent scope'.parent
  values (name : String) : Option.Rel (Value.Matches ρ) (scope.find? name) (scope'.find? name)

namespace Scope

variable {scope scope' : Scope} {name : String} {v w : Value}

lemma Matches.mono (h : scope.Matches ρ scope') (hρ : ρ ≤ σ) : scope.Matches σ scope' where
  parent := by
    have hparent := h.parent
    generalize scope.parent = p, scope'.parent = p' at hparent ⊢
    cases hparent with
    | none => exact .none
    | some hp => exact .some (hρ _ _ hp)
  values name := Value.Matches.monoOption hρ (h.values name)

/-- Bindings that match one by one. -/
lemma find?_of_bindings (h : Forall₂ (NamedRelated (Value.Matches ρ)) scope.bindings scope'.bindings)
    (name : String) : Option.Rel (Value.Matches ρ) (scope.find? name) (scope'.find? name) := by
  unfold Scope.find?
  generalize scope.bindings = bs, scope'.bindings = bs' at h ⊢
  induction h with
  | nil => exact .none
  | @cons entry entry' _ _ hentry _ ih =>
    rw [find?_cons, find?_cons, hentry.1]
    cases entry'.1 == name with
    | true => exact .some hentry.2
    | false => exact ih

lemma Matches.bind (h : scope.Matches ρ scope') (name : String) (hv : v.Matches ρ w) :
    (scope.bind name v).Matches ρ (scope'.bind name w) where
  parent := h.parent
  values other := by
    by_cases hname : other = name
    · rw [hname, find?_bind_self, find?_bind_self]
      exact .some hv
    · rw [find?_bind_of_ne _ _ hname, find?_bind_of_ne _ _ hname]
      exact h.values other

end Scope

/-! ## Stores -/

/-- A scope that may have a number: it lies inside an older one, if inside any. -/
def Scope.FitsAt (scope : Scope) (id : ScopeId) : Prop := ∀ parent ∈ scope.parent, parent < id

/-- Scopes of two stores that stand for each other, with what is in them. -/
structure Store.MatchesAt (ρ : Matching) (s s' : Store) (id id' : ScopeId) (scope scope' : Scope) :
    Prop where
  held : s.scopes[id]? = some scope
  held' : s'.scopes[id']? = some scope'
  content : scope.Matches ρ scope'
  fits : scope.FitsAt id
  fits' : scope'.FitsAt id'

/-- Stores that are the same up to the numbers of scopes and the places in bodies of functions. -/
structure Store.Matches (ρ : Matching) (s s' : Store) : Prop where
  root : ρ root root
  /-- No scope stands for two. -/
  unique {i j i' j' : ScopeId} : ρ i i' → ρ j j' → (i = j ↔ i' = j')
  scopes {id id' : ScopeId} : ρ id id' → ∃ scope scope', s.MatchesAt ρ s' id id' scope scope'

/-- The first scopes have bound the same names in the same order. -/
def Store.SameOrder (s s' : Store) : Prop := s.names root = s'.names root

/-- Two more scopes stand for each other. -/
def Matching.extend (ρ : Matching) (id id' : ScopeId) : Matching :=
  fun i i' => ρ i i' ∨ (i = id ∧ i' = id')

lemma Matching.le_extend (ρ : Matching) (id id' : ScopeId) : ρ ≤ ρ.extend id id' :=
  fun _ _ h => .inl h

namespace Store

variable {s s' : Store} {id id' : ScopeId} {name : String} {v w : Value}

lemma Matches.lt_size (h : s.Matches ρ s') (hid : ρ id id') :
    id < s.scopes.size ∧ id' < s'.scopes.size := by
  obtain ⟨scope, scope', hmatch⟩ := h.scopes hid
  exact ⟨(Array.getElem?_eq_some_iff.1 hmatch.held).1, (Array.getElem?_eq_some_iff.1 hmatch.held').1⟩

/-- The way outward from scopes that stand for each other ends at the same name. -/
lemma Matches.ownerFrom (h : s.Matches ρ s') (name : String) {steps steps' : ℕ} (hid : ρ id id')
    (hsteps : id < steps) (hsteps' : id' < steps') :
    Option.Rel (fun found found' => Value.Matches ρ found.2 found'.2) (s.ownerFrom name steps id)
      (s'.ownerFrom name steps' id') := by
  induction steps generalizing id id' steps' with
  | zero => exact absurd hsteps (Nat.not_lt_zero _)
  | succ steps ih =>
    obtain ⟨steps', rfl⟩ := Nat.exists_eq_succ_of_ne_zero (Nat.ne_zero_of_lt hsteps')
    obtain ⟨scope, scope', hscope, hscope', hcontent, hfits, hfits'⟩ := h.scopes hid
    have hfind := hcontent.values name
    have hparent := hcontent.parent
    unfold Scope.FitsAt at hfits hfits'
    rw [Store.ownerFrom, Store.ownerFrom, hscope, hscope']
    dsimp only
    generalize scope.find? name = v, scope'.find? name = w at hfind
    cases hfind with
    | some hv => exact .some hv
    | none =>
      generalize scope.parent = p, scope'.parent = p' at hparent hfits hfits'
      cases hparent with
      | none => exact .none
      | some hp =>
        exact ih hp (Nat.lt_of_lt_of_le (hfits _ rfl) (Nat.lt_succ_iff.1 hsteps))
          (Nat.lt_of_lt_of_le (hfits' _ rfl) (Nat.lt_succ_iff.1 hsteps'))

/-- A name has values that match, seen from scopes that stand for each other. -/
theorem Matches.lookup? (h : s.Matches ρ s') (hid : ρ id id') (name : String) :
    Option.Rel (Value.Matches ρ) (s.lookup? id name) (s'.lookup? id' name) := by
  obtain ⟨hlt, hlt'⟩ := h.lt_size hid
  have howner := h.ownerFrom name hid hlt hlt'
  unfold Store.lookup? Store.owner?
  generalize s.ownerFrom name s.scopes.size id = found,
    s'.ownerFrom name s'.scopes.size id' = found' at howner ⊢
  cases howner with
  | none => exact .none
  | some hv => exact .some hv

/-- Binding a name in scopes that stand for each other. -/
lemma Matches.bind (h : s.Matches ρ s') (hid : ρ id id') (name : String) (hv : v.Matches ρ w) :
    (s.bind id name v).Matches ρ (s'.bind id' name w) where
  root := h.root
  unique := h.unique
  scopes {i i'} hi := by
    obtain ⟨scope, scope', hscope, hscope', hcontent, hfits, hfits'⟩ := h.scopes hi
    by_cases hsame : id = i
    · have hsame' := (h.unique hid hi).1 hsame
      refine ⟨scope.bind name v, scope'.bind name w, ?_, ?_, hcontent.bind name hv, hfits, hfits'⟩
      · rw [getElem?_bind, if_pos hsame, hscope]
        rfl
      · rw [getElem?_bind, if_pos hsame', hscope']
        rfl
    · have hsame' : id' ≠ i' := fun h' => hsame ((h.unique hid hi).2 h')
      refine ⟨scope, scope', ?_, ?_, hcontent, hfits, hfits'⟩
      · rw [getElem?_bind, if_neg hsame, hscope]
      · rw [getElem?_bind, if_neg hsame', hscope']

/-- A name is new to both first scopes or to none. -/
lemma Matches.sameOrder_bind (h : s.Matches ρ s') (hid : ρ id id') (name : String) (v w : Value)
    (horder : s.SameOrder s') : (s.bind id name v).SameOrder (s'.bind id' name w) := by
  obtain ⟨scope, scope', hscope, hscope', -⟩ := h.scopes h.root
  unfold SameOrder names at horder ⊢
  rw [hscope, hscope'] at horder
  dsimp only at horder
  rw [getElem?_bind, getElem?_bind, hscope, hscope']
  by_cases hroot : id = Store.root
  · rw [if_pos hroot, if_pos ((h.unique hid h.root).1 hroot)]
    show (scope.bind name v).names = (scope'.bind name w).names
    rw [Scope.names_bind, Scope.names_bind, horder]
  · rw [if_neg hroot, if_neg fun hroot' => hroot ((h.unique hid h.root).2 hroot')]
    exact horder

/-- New scopes are younger than those that they lie inside. -/
lemma Matches.fitsAt (h : s.Matches ρ s') {scope scope' : Scope} (hscope : scope.Matches ρ scope') :
    scope.FitsAt s.scopes.size ∧ scope'.FitsAt s'.scopes.size := by
  have hparent := hscope.parent
  unfold Scope.FitsAt
  generalize scope.parent = p, scope'.parent = p' at hparent ⊢
  cases hparent with
  | none => exact ⟨nofun, nofun⟩
  | some hp =>
    obtain ⟨hlt, hlt'⟩ := h.lt_size hp
    constructor
    · rintro _ ⟨⟩
      exact hlt
    · rintro _ ⟨⟩
      exact hlt'

/-- Adding scopes that stand for each other from now on. -/
lemma Matches.push (h : s.Matches ρ s') {scope scope' : Scope} (hscope : scope.Matches ρ scope') :
    (s.push scope).2.Matches (ρ.extend (s.push scope).1 (s'.push scope').1) (s'.push scope').2 where
  root := .inl h.root
  unique {i j i' j'} hi hj := by
    have hold {i i' : ScopeId} (hi : ρ i i') : i ≠ s.scopes.size ∧ i' ≠ s'.scopes.size :=
      ⟨(h.lt_size hi).1.ne, (h.lt_size hi).2.ne⟩
    rcases hi with hi | ⟨rfl, rfl⟩ <;> rcases hj with hj | ⟨rfl, rfl⟩
    · exact h.unique hi hj
    · exact iff_of_false (hold hi).1 (hold hi).2
    · exact iff_of_false (hold hj).1.symm (hold hj).2.symm
    · exact iff_of_true rfl rfl
  scopes {i i'} hi := by
    have hmono := ρ.le_extend (s.push scope).1 (s'.push scope').1
    rcases hi with hi | ⟨rfl, rfl⟩
    · obtain ⟨hlt, hlt'⟩ := h.lt_size hi
      obtain ⟨old, old', hold, hold', hcontent, hfits, hfits'⟩ := h.scopes hi
      refine ⟨old, old', ?_, ?_, hcontent.mono hmono, hfits, hfits'⟩
      · rwa [getElem?_push_of_lt s scope hlt]
      · rwa [getElem?_push_of_lt s' scope' hlt']
    · obtain ⟨hfits, hfits'⟩ := h.fitsAt hscope
      exact ⟨scope, scope', getElem?_push_self _ _, getElem?_push_self _ _, hscope.mono hmono, hfits,
        hfits'⟩

lemma Matches.sameOrder_push (h : s.Matches ρ s') (scope scope' : Scope) (horder : s.SameOrder s') :
    (s.push scope).2.SameOrder (s'.push scope').2 := by
  obtain ⟨hlt, hlt'⟩ := h.lt_size h.root
  unfold SameOrder names at horder ⊢
  rwa [getElem?_push_of_lt s scope hlt, getElem?_push_of_lt s' scope' hlt']

end Store

/-! ## Machines -/

/-- Calls of one function with arguments that match. -/
structure Frame.Matches (ρ : Matching) (frame frame' : Frame) : Prop where
  name : frame.name = frame'.name
  args : Forall₂ (Value.Matches ρ) frame.args frame'.args

lemma Frame.Matches.mono {frame frame' : Frame} (h : frame.Matches ρ frame') (hρ : ρ ≤ σ) :
    frame.Matches σ frame' :=
  ⟨h.name, Value.Matches.monoAll hρ h.args⟩

/-- Machines with stores that match and the same calls pending. -/
structure Machine.Matches (ρ : Matching) (m m' : Machine) : Prop where
  store : m.store.Matches ρ m'.store
  frames : Forall₂ (Frame.Matches ρ) m.frames m'.frames

end SignalCalc
