import Mathlib.Tactic.Lemma
import SignalCalc.Signal.Stream

/-!
# The nodes of a sound

Sounds nest through the arguments of applied functions.  `Sound.induction` is the induction that
proofs about sounds use: its last case gives the hypothesis for every sound among the arguments.

`Sound.nodes` lists a sound and all sounds in it, and `Sound.Everywhere` is a condition on all of
them.  A condition that holds everywhere in a sound holds everywhere in its parts, and the lemmas
here say for each kind of node which parts these are.
-/

namespace SignalCalc.Signal

open SignalCalc.Builtin
open SignalCalc.Call

variable {α : Type}

/-- Induction on sounds, with the arguments of an applied function taken together. -/
@[elab_as_elim, induction_eliminator]
theorem Sound.induction {P : Sound α → Prop} (const : ∀ value, P (.const value))
    (linear : ∀ slope intercept, P (.linear slope intercept))
    (sine : ∀ frequency phase, P (.sine frequency phase))
    (decay : ∀ coefficient intercept, P (.decay coefficient intercept))
    (noise : ∀ seed, P (.noise seed)) (minus : ∀ s, P s → P (.minus s))
    (reciprocal : ∀ s, P s → P (.reciprocal s))
    (binary : ∀ op left right, P left → P right → P (.binary op left right))
    (apply : ∀ f args, (∀ label s, Argument.sound label s ∈ args → P s) → P (.apply f args))
    (s : Sound α) : P s :=
  @Sound.rec α P (fun a => ∀ label s, a = .sound label s → P s)
    (fun args => ∀ label s, Argument.sound label s ∈ args → P s)
    const linear sine decay noise minus reciprocal binary apply
    (fun _ _ _ _ h => nomatch h) (fun _ _ _ _ h => nomatch h)
    (fun _ _ hs _ _ h => by cases h; exact hs)
    (fun _ _ h => nomatch h)
    (fun _ _ ha hrest label s h => by
      rcases List.mem_cons.1 h with h | h
      · exact ha label s h.symm
      · exact hrest label s h) s

mutual
/-- A sound and all sounds in it. -/
def Sound.nodes : Sound α → List (Sound α)
  | .minus s => .minus s :: s.nodes
  | .reciprocal s => .reciprocal s :: s.nodes
  | .binary op left right => .binary op left right :: (left.nodes ++ right.nodes)
  | .apply f args => .apply f args :: argumentNodes args
  | .const v => [.const v]
  | .linear slope intercept => [.linear slope intercept]
  | .sine frequency phase => [.sine frequency phase]
  | .decay coefficient intercept => [.decay coefficient intercept]
  | .noise seed => [.noise seed]

/-- All sounds in the arguments of an applied function. -/
def argumentNodes : List (Argument α) → List (Sound α)
  | [] => []
  | .sound _ s :: rest => s.nodes ++ argumentNodes rest
  | .real _ _ :: rest => argumentNodes rest
  | .whole _ _ :: rest => argumentNodes rest
end

lemma mem_argumentNodes {t : Sound α} {args : List (Argument α)} :
    t ∈ argumentNodes args ↔ ∃ label s, Argument.sound label s ∈ args ∧ t ∈ s.nodes := by
  induction args with
  | nil => simp [argumentNodes]
  | cons a rest ih =>
    cases a with
    | real label x => simp [argumentNodes, ih]
    | whole label n => simp [argumentNodes, ih]
    | sound label s =>
      simp only [argumentNodes, List.mem_append, ih, List.mem_cons, Argument.sound.injEq]
      constructor
      · rintro (h | ⟨label', s', hs', h⟩)
        · exact ⟨label, s, .inl ⟨rfl, rfl⟩, h⟩
        · exact ⟨label', s', .inr hs', h⟩
      · rintro ⟨label', s', ⟨-, rfl⟩ | hs', h⟩
        · exact .inl h
        · exact .inr ⟨label', s', hs', h⟩

namespace Sound

/-- A condition that a sound and all sounds in it meet. -/
def Everywhere (P : Sound α → Prop) (s : Sound α) : Prop := ∀ t ∈ s.nodes, P t

variable {P : Sound α → Prop}

@[simp] lemma everywhere_const {value : α} : Everywhere P (.const value) ↔ P (.const value) :=
  List.forall_mem_singleton

@[simp] lemma everywhere_linear {slope intercept : α} :
    Everywhere P (.linear slope intercept) ↔ P (.linear slope intercept) :=
  List.forall_mem_singleton

@[simp] lemma everywhere_sine {frequency phase : α} :
    Everywhere P (.sine frequency phase) ↔ P (.sine frequency phase) :=
  List.forall_mem_singleton

@[simp] lemma everywhere_decay {coefficient intercept : α} :
    Everywhere P (.decay coefficient intercept) ↔ P (.decay coefficient intercept) :=
  List.forall_mem_singleton

@[simp] lemma everywhere_noise {seed : Option Int} :
    Everywhere P (.noise seed) ↔ P (.noise seed) :=
  List.forall_mem_singleton

@[simp] lemma everywhere_minus {s : Sound α} :
    Everywhere P (.minus s) ↔ P (.minus s) ∧ s.Everywhere P :=
  List.forall_mem_cons

@[simp] lemma everywhere_reciprocal {s : Sound α} :
    Everywhere P (.reciprocal s) ↔ P (.reciprocal s) ∧ s.Everywhere P :=
  List.forall_mem_cons

@[simp] lemma everywhere_binary {op : Operator} {left right : Sound α} :
    Everywhere P (.binary op left right) ↔
      P (.binary op left right) ∧ left.Everywhere P ∧ right.Everywhere P :=
  List.forall_mem_cons.trans (and_congr_right fun _ => List.forall_mem_append)

@[simp] lemma everywhere_apply {f : Applied} {args : List (Argument α)} :
    Everywhere P (.apply f args) ↔
      P (.apply f args) ∧ ∀ label s, Argument.sound label s ∈ args → s.Everywhere P := by
  simp only [Everywhere, nodes, List.forall_mem_cons, mem_argumentNodes]
  refine and_congr_right fun _ => ⟨fun h label s hs t ht => h t ⟨label, s, hs, ht⟩, ?_⟩
  rintro h t ⟨label, s, hs, ht⟩
  exact h label s hs t ht

/-- The sounds in a sound that is in `s` are in `s`. -/
lemma nodes_trans {s t u : Sound α} (ht : t ∈ s.nodes) (hu : u ∈ t.nodes) : u ∈ s.nodes := by
  induction s with
  | const | linear | sine | decay | noise =>
    obtain rfl := List.mem_singleton.1 ht
    exact hu
  | minus s ih | reciprocal s ih =>
    rcases List.mem_cons.1 ht with rfl | ht
    · exact hu
    · exact List.mem_cons_of_mem _ (ih ht)
  | binary op left right ihl ihr =>
    rcases List.mem_cons.1 ht with rfl | ht
    · exact hu
    · rcases List.mem_append.1 ht with ht | ht
      · exact List.mem_cons_of_mem _ (List.mem_append_left _ (ihl ht))
      · exact List.mem_cons_of_mem _ (List.mem_append_right _ (ihr ht))
  | apply f args ih =>
    rcases List.mem_cons.1 ht with rfl | ht
    · exact hu
    · obtain ⟨label, s, hs, hts⟩ := mem_argumentNodes.1 ht
      exact List.mem_cons_of_mem _ (mem_argumentNodes.2 ⟨label, s, hs, ih label s hs hts⟩)

/-- A condition that holds everywhere in a sound holds everywhere in the sounds in it. -/
lemma Everywhere.of_mem {s t : Sound α} (h : s.Everywhere P) (ht : t ∈ s.nodes) :
    t.Everywhere P :=
  fun u hu => h u (nodes_trans ht hu)

end Sound

end SignalCalc.Signal
