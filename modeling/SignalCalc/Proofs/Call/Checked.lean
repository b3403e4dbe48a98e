import SignalCalc.Proofs.Call.Related

/-!
# What binding gives

`Meets P E` is a condition on a computation that may fail: `P` on the result, `E` on the error.  It
goes through sequences of such computations, so it goes through the binding of arguments
(`Signature.bind_meets`).  If every parameter makes something good of every good value, and refuses
it for its kind at worst, then good arguments fill all slots with good values, and a call that does
not fit is to blame on the count, on a name, or on one of the good values.
-/

namespace SignalCalc

open List

variable {ε α β : Type}

/-- A condition on the result of a computation, and one on its error. -/
def Meets (P : α → Prop) (E : ε → Prop) : Except ε α → Prop
  | .ok a => P a
  | .error e => E e

namespace Meets

variable {P : α → Prop} {Q : β → Prop} {E : ε → Prop}

lemma bind {x : Except ε α} {f : α → Except ε β} (hx : Meets P E x)
    (hf : ∀ a, P a → Meets Q E (f a)) : Meets Q E (x >>= f) := by
  cases x with
  | ok a => exact hf a hx
  | error e => exact hx

/-- A run over inputs, each of which keeps the condition on the state. -/
lemma foldlM {f : β → α → Except ε β} {xs : List α}
    (hf : ∀ x ∈ xs, ∀ s, Q s → Meets Q E (f s x)) {s : β} (hs : Q s) :
    Meets Q E (xs.foldlM f s) := by
  induction xs generalizing s with
  | nil => exact hs
  | cons x rest ih =>
    obtain ⟨hx, hrest⟩ := forall_mem_cons.1 hf
    rw [foldlM_cons]
    exact (hx s hs).bind fun s' hs' => ih hrest hs'

end Meets

namespace Call

/-- Values that a call is blamed for are good ones, and none of them is too large. -/
def BindError.Blames (P : β → Prop) : BindError β → Prop
  | .wrongKind value => P value
  | .tooLarge => False
  | _ => True

namespace Signature

variable {s : Signature β} {P : β → Prop} {Q : Parameter β → β → Prop}
  {accept : Kind → β → Except Refusal β} {slots : List (Option β)}

/-- The slots that are filled hold good values. -/
def HoldsOnly (P : β → Prop) (s : Signature β) (slots : List (Option β)) : Prop :=
  slots.length = s.params.length ∧ ∀ v, some v ∈ slots → P v

lemma positionalSlots_holdsOnly {positional : List β} (hcount : positional.length ≤ s.arity)
    (hpositional : ∀ v ∈ positional, P v) : s.HoldsOnly P (s.positionalSlots positional) := by
  refine ⟨s.length_positionalSlots hcount, fun v hv => ?_⟩
  rcases mem_append.1 hv with hv | hv
  · obtain ⟨w, hw, hwv⟩ := mem_map.1 hv
    exact Option.some.inj hwv ▸ hpositional w hw
  · cases eq_of_mem_replicate hv

lemma place_meets (h : s.HoldsOnly P slots) {entry : String × β} (hentry : P entry.2) :
    Meets (s.HoldsOnly P) (BindError.Blames P) (s.place slots entry) := by
  unfold place
  split
  · exact trivial
  · split
    · exact trivial
    · refine ⟨by rw [length_set, h.1], fun v hv => ?_⟩
      rcases mem_or_eq_of_mem_set hv with hv | hv
      · exact h.2 v hv
      · exact Option.some.inj hv ▸ hentry

lemma settle_meets {p : Parameter β} (hdefault : ∀ v, p.default = some v → P v)
    (haccept : ∀ v, P v → Meets (Q p) (· = .wrongKind) (accept p.kind v)) (found : ℕ)
    {slot : Option β} (hslot : ∀ v, slot = some v → P v) :
    Meets (Q p) (BindError.Blames P) (s.settle accept found p slot) := by
  have hvalue : ∀ v, slot.or p.default = some v → P v := by
    intro v hv
    rcases Option.or_eq_some_iff.1 hv with hv | ⟨-, hv⟩
    · exact hslot v hv
    · exact hdefault v hv
  unfold settle
  generalize slot.or p.default = value at hvalue
  cases value with
  | none => exact trivial
  | some v =>
    have hv : P v := hvalue v rfl
    have hrefusal := haccept v hv
    simp only
    cases hw : accept p.kind v with
    | ok w =>
      rw [hw] at hrefusal
      exact hrefusal
    | error refusal =>
      rw [hw] at hrefusal
      obtain rfl : refusal = .wrongKind := hrefusal
      exact hv

lemma mapM_settle_meets {params : List (Parameter β)}
    (hdefault : ∀ p ∈ params, ∀ v, p.default = some v → P v)
    (haccept : ∀ p ∈ params, ∀ v, P v → Meets (Q p) (· = .wrongKind) (accept p.kind v))
    (found : ℕ) (hlength : slots.length = params.length) (hslots : ∀ v, some v ∈ slots → P v) :
    Meets (Forall₂ Q params) (BindError.Blames P)
      ((params.zip slots).mapM fun entry => s.settle accept found entry.1 entry.2) := by
  induction params generalizing slots with
  | nil => exact .nil
  | cons p params ih =>
    obtain ⟨slot, slots, rfl⟩ := exists_cons_of_length_eq_add_one hlength
    obtain ⟨hdefault', hdefaults⟩ := forall_mem_cons.1 hdefault
    obtain ⟨haccept', haccepts⟩ := forall_mem_cons.1 haccept
    have hfirst : ∀ v, slot = some v → P v := fun v hv => hslots v (hv ▸ mem_cons_self)
    rw [zip_cons_cons, mapM_cons]
    refine (settle_meets hdefault' haccept' found hfirst).bind fun w hw => ?_
    have hrest := ih hdefaults haccepts (Nat.succ.inj hlength) fun v hv =>
      hslots v (mem_cons_of_mem slot hv)
    exact hrest.bind fun ws hws => .cons hw hws

/-- **Binding keeps values good.**  A call on good values fills every slot with what its parameter
makes of a good value, or it does not fit, and the value it is blamed for is a good one. -/
theorem bind_meets (hdefault : ∀ p ∈ s.params, ∀ v, p.default = some v → P v)
    (haccept : ∀ p ∈ s.params, ∀ v, P v → Meets (Q p) (· = .wrongKind) (accept p.kind v))
    {positional : List β} (hpositional : ∀ v ∈ positional, P v) {named : List (String × β)}
    (hnamed : ∀ entry ∈ named, P entry.2) :
    Meets (Forall₂ Q s.params) (BindError.Blames P) (s.bind accept positional named) := by
  unfold Signature.bind
  by_cases hcount : positional.length + named.length > s.arity
  · rw [if_pos hcount]
    exact trivial
  rw [if_neg hcount]
  have hplaced : Meets (s.HoldsOnly P) (BindError.Blames P)
      (named.foldlM s.place (s.positionalSlots positional)) :=
    Meets.foldlM (fun entry hentry slots hslots => place_meets hslots (hnamed entry hentry))
      (positionalSlots_holdsOnly (by omega) hpositional)
  exact hplaced.bind fun slots hslots =>
    mapM_settle_meets hdefault haccept _ hslots.1 hslots.2

end Signature

end Call

end SignalCalc
