import SignalCalc.Value.Basic

/-!
# Scopes

A `Scope` binds names to values in the order in which they were first bound, and may lie inside
another scope.  All scopes of an evaluation are kept in one `Store` under their numbers.  Looking
up a name goes outward; binding one always binds it in the given scope itself.
-/

namespace SignalCalc

/-- Names and their values, inside another scope or outermost. -/
structure Scope where
  parent : Option ScopeId
  bindings : List (String × Value)

namespace Scope

/-- The value a name has in this scope itself. -/
def find? (s : Scope) (name : String) : Option Value :=
  (s.bindings.find? (·.1 == name)).map (·.2)

/-- A name gets a value; a name that is new comes last. -/
def bind (s : Scope) (name : String) (value : Value) : Scope :=
  { s with
    bindings :=
      if s.bindings.any (·.1 == name) then
        s.bindings.map fun entry => if entry.1 == name then (name, value) else entry
      else s.bindings ++ [(name, value)] }

/-- The names bound in this scope itself, in the order in which they were first bound. -/
def names (s : Scope) : List String := s.bindings.map (·.1)

/-! ### What binding a name does -/

theorem any_name_iff (s : Scope) (name : String) :
    s.bindings.any (·.1 == name) = true ↔ name ∈ s.names := by
  simp only [names, List.any_eq_true, beq_iff_eq, List.mem_map]

theorem bindings_bind_of_mem {s : Scope} {name : String} (h : name ∈ s.names) (value : Value) :
    (s.bind name value).bindings =
      s.bindings.map fun entry => if entry.1 == name then (name, value) else entry :=
  if_pos ((s.any_name_iff name).2 h)

theorem bindings_bind_of_not_mem {s : Scope} {name : String} (h : name ∉ s.names)
    (value : Value) : (s.bind name value).bindings = s.bindings ++ [(name, value)] :=
  if_neg (mt (s.any_name_iff name).1 h)

theorem find?_eq_none_iff (s : Scope) (name : String) :
    s.find? name = none ↔ name ∉ s.names := by
  simp only [find?, names, Option.map_eq_none_iff, List.find?_eq_none, beq_iff_eq, List.mem_map,
    not_exists, not_and]

/-- A name that was just bound has the value it was bound to. -/
theorem find?_bind_self (s : Scope) (name : String) (value : Value) :
    (s.bind name value).find? name = some value := by
  by_cases h : name ∈ s.names
  · simp only [find?, bindings_bind_of_mem h]
    obtain ⟨parent, bindings⟩ := s
    simp only [names] at h ⊢
    induction bindings with
    | nil => simp at h
    | cons entry rest ih =>
      by_cases hn : entry.1 = name
      · simp [hn]
      · have hrest : name ∈ rest.map (·.1) := by simpa [Ne.symm hn] using h
        simpa [hn] using ih hrest
  · have := (s.find?_eq_none_iff name).2 h
    simp only [find?, Option.map_eq_none_iff] at this
    simp [find?, bindings_bind_of_not_mem h, this]

/-- Binding a name leaves all other names as they are. -/
theorem find?_bind_of_ne (s : Scope) {name other : String} (value : Value)
    (h : other ≠ name) : (s.bind name value).find? other = s.find? other := by
  by_cases hm : name ∈ s.names
  · simp only [find?, bindings_bind_of_mem hm]
    obtain ⟨parent, bindings⟩ := s
    clear hm
    induction bindings with
    | nil => rfl
    | cons entry rest ih =>
      by_cases hn : entry.1 = name
      · simp_all [Ne.symm]
      · by_cases ho : entry.1 = other <;> simp_all
  · simp [find?, bindings_bind_of_not_mem hm, Ne.symm h]

/-- A name keeps its place when it is bound again, and comes last when it is new. -/
theorem names_bind (s : Scope) (name : String) (value : Value) :
    (s.bind name value).names =
      if name ∈ s.names then s.names else s.names ++ [name] := by
  by_cases h : name ∈ s.names
  · rw [if_pos h]
    simp only [names, bindings_bind_of_mem h, List.map_map]
    refine List.map_congr_left fun entry _ => ?_
    by_cases hn : entry.1 = name <;> simp [hn]
  · rw [if_neg h]
    simp [names, bindings_bind_of_not_mem h]

end Scope

/-- All scopes, under their numbers. -/
structure Store where
  scopes : Array Scope

namespace Store

/-- The store with one outermost scope, which is empty. -/
def fresh : Store := ⟨#[⟨none, []⟩]⟩

/-- The number of the first scope. -/
def root : ScopeId := 0

/-- A new scope, and its number. -/
def push (s : Store) (scope : Scope) : ScopeId × Store :=
  (s.scopes.size, ⟨s.scopes.push scope⟩)

/-- A name gets a value in a scope. -/
def bind (s : Store) (id : ScopeId) (name : String) (value : Value) : Store :=
  ⟨s.scopes.modify id (·.bind name value)⟩

/-- The innermost scope that binds a name, from a scope outward.  A parent is older than the
scopes inside it, so the size of the store bounds the way. -/
def ownerFrom (s : Store) (name : String) : Nat → ScopeId → Option (ScopeId × Value)
  | 0, _ => none
  | steps + 1, id =>
    match s.scopes[id]? with
    | none => none
    | some scope =>
      match scope.find? name with
      | some value => some (id, value)
      | none =>
        match scope.parent with
        | some parent => s.ownerFrom name steps parent
        | none => none

/-- The innermost scope that binds a name, from a scope outward, and the value there. -/
def owner? (s : Store) (id : ScopeId) (name : String) : Option (ScopeId × Value) :=
  s.ownerFrom name s.scopes.size id

/-- The value of a name, seen from a scope. -/
def lookup? (s : Store) (id : ScopeId) (name : String) : Option Value :=
  (s.owner? id name).map (·.2)

/-- The names bound in a scope itself. -/
def names (s : Store) (id : ScopeId) : List String :=
  match s.scopes[id]? with
  | some scope => scope.names
  | none => []

/-- Binding a name changes one scope only. -/
theorem getElem?_bind (s : Store) (id other : ScopeId) (name : String) (value : Value) :
    (s.bind id name value).scopes[other]? =
      if id = other then s.scopes[other]?.map (·.bind name value) else s.scopes[other]? := by
  simp [bind, Array.getElem?_modify]

/-- A new scope leaves all earlier ones as they are. -/
theorem getElem?_push_of_lt (s : Store) (scope : Scope) {id : ScopeId}
    (h : id < s.scopes.size) : (s.push scope).2.scopes[id]? = s.scopes[id]? := by
  simp [push, Array.getElem?_push, Nat.ne_of_lt h]

theorem getElem?_push_self (s : Store) (scope : Scope) :
    (s.push scope).2.scopes[(s.push scope).1]? = some scope := by
  simp [push]

end Store

end SignalCalc
