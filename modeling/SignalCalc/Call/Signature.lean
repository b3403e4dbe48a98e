/-!
# Signatures and the binding of arguments

A call gives values by position and by name; `Signature.bind` maps them onto the parameters.
What a parameter accepts is a question to the values, so the binding is stated for any type of
values `β` and a function that accepts or refuses one.

The order of the checks is part of the rule: the count of all arguments first, then the names
from left to right, then the parameters from left to right.
-/

namespace SignalCalc.Call

/-- What a parameter takes. -/
inductive Kind where
  | real
  | bool
  | string
  /-- A signal; a real stands for a constant one. -/
  | sound
  | any
  /-- A kind without members. -/
  | other (name : String)
  deriving DecidableEq, Repr

/-- The name of a kind. -/
def Kind.name : Kind → String
  | real => "real"
  | bool => "bool"
  | string => "string"
  | sound => "sound"
  | any => "any"
  | other name => name

/-- A parameter.  One with a default may be left out of a call. -/
structure Parameter (β : Type) where
  name : String
  kind : Kind
  default : Option β

variable {β γ : Type}

/-- A call has to give the parameter a value. -/
def Parameter.required (p : Parameter β) : Bool := p.default.isNone

/-- The same parameter over other values. -/
def Parameter.map (f : β → γ) (p : Parameter β) : Parameter γ :=
  ⟨p.name, p.kind, p.default.map f⟩

/-- The name and the parameters of a function. -/
structure Signature (β : Type) where
  name : String
  params : List (Parameter β)

/-- Why a value does not go into a parameter. -/
inductive Refusal where
  | wrongKind
  /-- A whole number beyond every float. -/
  | tooLarge
  deriving DecidableEq, Repr

/-- Why arguments do not fit a signature. -/
inductive BindError (β : Type) where
  | arity (expected found : Nat)
  | unknownName (name : String)
  | secondValue (name : String)
  | wrongKind (value : β)
  | tooLarge

namespace Signature

/-- The count of parameters. -/
def arity (s : Signature β) : Nat := s.params.length

/-- The position of a parameter. -/
def index? (s : Signature β) (name : String) : Option Nat :=
  s.params.findIdx? (·.name == name)

/-- The count of the parameters that a call has to give. -/
def requiredCount (s : Signature β) : Nat :=
  s.params.countP (·.required)

/-- The slots of a call with the positional values put in. -/
def positionalSlots (s : Signature β) (positional : List β) : List (Option β) :=
  positional.map some ++ List.replicate (s.arity - positional.length) none

/-- A named value goes into the slot of its parameter, which has to be free. -/
def place (s : Signature β) (slots : List (Option β)) (entry : String × β) :
    Except (BindError β) (List (Option β)) :=
  match s.index? entry.1 with
  | none => .error (.unknownName entry.1)
  | some i =>
    if (slots.getD i none).isSome then .error (.secondValue entry.1)
    else .ok (slots.set i (some entry.2))

/-- A parameter gets the value of its slot, or its default. -/
def settle (s : Signature β) (accept : Kind → β → Except Refusal β) (found : Nat)
    (p : Parameter β) (slot : Option β) : Except (BindError β) β :=
  match slot.or p.default with
  | none => .error (.arity s.requiredCount found)
  | some v =>
    match accept p.kind v with
    | .ok w => .ok w
    | .error .wrongKind => .error (.wrongKind v)
    | .error .tooLarge => .error .tooLarge

/-- The values of all parameters, in their order. -/
def bind (s : Signature β) (accept : Kind → β → Except Refusal β)
    (positional : List β) (named : List (String × β)) : Except (BindError β) (List β) := do
  let found := positional.length + named.length
  if found > s.arity then
    throw (.arity s.arity found)
  let slots ← named.foldlM s.place (s.positionalSlots positional)
  (s.params.zip slots).mapM fun entry => s.settle accept found entry.1 entry.2

/-! ## The count of slots -/

/-- A computation in two steps succeeds where both do. -/
theorem bind_eq_ok_iff {ε α : Type} {x : Except ε α} {f : α → Except ε β} {b : β} :
    x >>= f = .ok b ↔ ∃ a, x = .ok a ∧ f a = .ok b := by
  cases x with
  | error e => simp [Bind.bind, Except.bind]
  | ok a => simp [Bind.bind, Except.bind]

theorem length_mapM {ε α : Type} {f : α → Except ε β} {xs : List α} {ys : List β}
    (h : xs.mapM f = .ok ys) : ys.length = xs.length := by
  induction xs generalizing ys with
  | nil =>
    obtain rfl := Except.ok.inj h
    rfl
  | cons x rest ih =>
    simp only [List.mapM_cons, bind_eq_ok_iff] at h
    obtain ⟨y, -, tail, htail, hys⟩ := h
    obtain rfl := Except.ok.inj hys
    simp [ih htail]

theorem length_positionalSlots (s : Signature β) {positional : List β}
    (h : positional.length ≤ s.arity) : (s.positionalSlots positional).length = s.arity := by
  simp [positionalSlots]
  omega

theorem length_place {s : Signature β} {slots after : List (Option β)} {entry : String × β}
    (h : s.place slots entry = .ok after) : after.length = slots.length := by
  unfold place at h
  split at h
  · simp at h
  · split at h
    · simp at h
    · obtain rfl := Except.ok.inj h
      simp

theorem length_foldlM_place {s : Signature β} {slots after : List (Option β)}
    {named : List (String × β)} (h : named.foldlM s.place slots = .ok after) :
    after.length = slots.length := by
  induction named generalizing slots with
  | nil =>
    obtain rfl := Except.ok.inj h
    rfl
  | cons entry rest ih =>
    rw [List.foldlM_cons, bind_eq_ok_iff] at h
    obtain ⟨next, hnext, hrest⟩ := h
    exact (ih hrest).trans (length_place hnext)

/-- A call that fits gives every parameter a value. -/
theorem length_bind {s : Signature β} {accept : Kind → β → Except Refusal β}
    {positional : List β} {named : List (String × β)} {values : List β}
    (h : s.bind accept positional named = .ok values) : values.length = s.arity := by
  unfold Signature.bind at h
  by_cases hc : positional.length + named.length > s.arity
  · simp [hc, Bind.bind, Except.bind, throw, throwThe, MonadExceptOf.throw] at h
  · simp only [if_neg hc, bind_eq_ok_iff] at h
    obtain ⟨slots, hslots, hvalues⟩ := h
    have hlen := length_foldlM_place hslots
    rw [length_positionalSlots s (by omega)] at hlen
    rw [length_mapM hvalues, List.length_zip, hlen, arity, Nat.min_self]

end Signature

/-- Of several values for one name the last one counts, at the place of the first. -/
def lastWins (entries : List (String × β)) : List (String × β) :=
  entries.foldl
    (fun kept entry =>
      if kept.any (·.1 == entry.1) then
        kept.map fun old => if old.1 == entry.1 then entry else old
      else kept ++ [entry])
    []

end SignalCalc.Call
