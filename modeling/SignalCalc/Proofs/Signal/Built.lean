import SignalCalc.Proofs.Signal.Streaming

/-!
# Sounds that programs build

A sound handed in from outside may apply any function to any arguments.  In a sound that a program
builds every applied function is a call that was put off: a real function whose arguments fit, with
a sound in one of its slots.  `Sound.IsBuilt` says this of all nodes.

Such a sound stays one when it is moved in time (`IsBuilt.shift`), although its arguments are bound
again.  It can be played at any rate (`IsBuilt.isPlayable`): since a step does not change what a
stream is going to give (`Stream.yields_step`), none of its samples is at fault.
-/

namespace SignalCalc.Signal

open SignalCalc.Builtin
open SignalCalc.Call
open List

variable {α : Type} [Scalar α]

/-- A call that was put off: a real function whose arguments fit, with a sound in a slot. -/
def Applied.IsPromoted (f : Applied) (args : List (Argument α)) : Prop :=
  ∃ g slots, f = .real g ∧ f.bindArguments args = .ok slots ∧
    ∃ label s, Argument.sound label s ∈ slots

/-- Every function in the sound is applied by a call that was put off. -/
def Sound.IsBuilt (s : Sound α) : Prop :=
  s.Everywhere fun t => ∀ f args, t = .apply f args → f.IsPromoted args

/-! ## Sounds that are moved -/

/-- The argument moved by `t` seconds, which only a sound notices. -/
def Argument.shift (t : α) : Argument α → Argument α
  | .real label x => .real label x
  | .whole label n => .whole label n
  | .sound label s => .sound label (s.shift t)

@[simp] lemma Argument.label_shift (t : α) (a : Argument α) : (a.shift t).label = a.label := by
  cases a <;> rfl

lemma Sound.shiftArguments_eq_map (t : α) (args : List (Argument α)) :
    Sound.shiftArguments t args = args.map (Argument.shift t) := by
  induction args with
  | nil => rfl
  | cons a rest ih => cases a <;> simp [Sound.shiftArguments, Argument.shift, ih]

lemma Argument.accept_shift (takesSignals : Bool) (kind : Kind) (t : α) (a : Argument α) :
    Leads (fun a b => b = a.shift t) (a.accept takesSignals kind)
      ((a.shift t).accept takesSignals kind) := by
  intro b hb
  refine ⟨b.shift t, ?_, rfl⟩
  unfold Argument.accept at hb
  split at hb
  case h_1 =>
    obtain rfl := Except.ok.inj hb
    rfl
  case h_2 | h_5 | h_7 =>
    obtain rfl := Except.ok.inj hb
    simp [Argument.shift, Argument.accept, Sound.shift]
  case h_3 | h_6 =>
    split at hb
    · rename_i x hx
      obtain rfl := Except.ok.inj hb
      simp [Argument.shift, Argument.accept, Sound.shift, hx]
    · cases hb
  case h_4 =>
    split at hb
    · obtain rfl := Except.ok.inj hb
      simpa [Argument.shift, Argument.accept]
    · cases hb
  case h_8 => cases hb

/-- The arguments of a moved sound are bound to the slots of the sound, moved. -/
theorem Applied.bindArguments_shift (f : Applied) (t : α) (args : List (Argument α)) :
    Leads (Forall₂ fun a b => b = a.shift t) (f.bindArguments args)
      (f.bindArguments (Sound.shiftArguments t args)) := by
  have hargs : Forall₂ (fun a b => b = a.shift t) args (args.map (Argument.shift t)) :=
    forall₂_map_right_iff.2 (forall₂_same.2 fun _ _ => rfl)
  have hlabel : ∀ a b : Argument α, b = a.shift t → a.label = b.label := fun a b hab => by
    rw [hab, Argument.label_shift]
  rw [Sound.shiftArguments_eq_map]
  refine Signature.bind_of_related (f.params_related (R := fun a b => b = Argument.shift t a) rfl)
    ?_ (filter_related hlabel hargs) (lastWins_related (filterMap_related hlabel hargs))
  rintro p - a _ rfl
  exact a.accept_shift f.takesSignals p.kind t

lemma Applied.IsPromoted.shift {f : Applied} {args : List (Argument α)} (h : f.IsPromoted args)
    (t : α) : f.IsPromoted (Sound.shiftArguments t args) := by
  obtain ⟨g, slots, hf, hslots, label, s, hs⟩ := h
  obtain ⟨slots', hslots', hmoved⟩ := f.bindArguments_shift t args slots hslots
  have heq : slots' = slots.map (Argument.shift t) := by
    rw [← map_eq_of_forall₂ (f := id) hmoved, map_id]
  refine ⟨g, slots', hf, hslots', label, s.shift t, ?_⟩
  rw [heq]
  exact mem_map.2 ⟨_, hs, rfl⟩

namespace Sound

lemma IsBuilt.shift {s : Sound α} (h : s.IsBuilt) (t : α) : (s.shift t).IsBuilt := by
  unfold IsBuilt at h ⊢
  induction s with
  | const | linear | sine | decay | noise => simp [Sound.shift]
  | minus s ih =>
    rw [Sound.shift]
    exact everywhere_minus.2 ⟨nofun, ih (everywhere_minus.1 h).2⟩
  | reciprocal s ih =>
    rw [Sound.shift]
    exact everywhere_reciprocal.2 ⟨nofun, ih (everywhere_reciprocal.1 h).2⟩
  | binary op left right ihl ihr =>
    obtain ⟨-, hl, hr⟩ := everywhere_binary.1 h
    rw [Sound.shift]
    exact everywhere_binary.2 ⟨nofun, ihl hl, ihr hr⟩
  | apply f args ih =>
    obtain ⟨hpromoted, hargs⟩ := everywhere_apply.1 h
    rw [Sound.shift]
    refine everywhere_apply.2 ⟨?_, fun label s hs => ?_⟩
    · rintro _ _ ⟨⟩
      exact (hpromoted f args rfl).shift t
    · rw [shiftArguments_eq_map] at hs
      obtain ⟨a, ha, has⟩ := mem_map.1 hs
      cases a with
      | real | whole => cases has
      | sound label' s' =>
        cases has
        exact ih _ s' ha (hargs _ s' ha)

end Sound

/-! ## Streams without faults -/

namespace Stream

mutual
/-- A step does not change what the samples are. -/
lemma yields_step : ∀ s : Stream α, s.step.2.yields = s.yields
  | .const _ | .linear _ _ | .sine _ _ | .decay _ _ | .noise _ => rfl
  | .minus s => by
    show yields s.step.2 = yields s
    exact yields_step s
  | .reciprocal s => by
    show yields s.step.2 = yields s
    exact yields_step s
  | .binary op left right => by
    have hl := yields_step left
    have hr := yields_step right
    simp only [step, yields, hl, hr]
  | .apply f slots => by
    have hslots := slotYields_step slots
    simp only [step, yields, hslots]

/-- A step does not change what the slots hold. -/
lemma slotYields_step : ∀ slots : List (Slot α), slotYields (stepSlots slots).2 = slotYields slots
  | [] => rfl
  | .fixed x :: rest => by
    have hrest := slotYields_step rest
    simp only [stepSlots, slotYields, hrest]
  | .live s :: rest => by
    have hs := yields_step s
    have hrest := slotYields_step rest
    simp only [stepSlots, slotYields, hs, hrest]
end

lemma yields_after (s : Stream α) (n : ℕ) : (s.after n).yields = s.yields := by
  induction n generalizing s with
  | zero => rfl
  | succ n ih => rw [after_succ, ih, yields_step]

end Stream

namespace Slot

/-- The samples of the slot are numbers. -/
def GivesNumbers : Slot α → Prop
  | fixed _ => True
  | live s => s.yields = .ok .number

/-- The slot keeps the number that the argument is, or plays the sound that it is. -/
def Holds (rate : α) : Argument α → Slot α → Prop
  | .real _ x, fixed y => y = x
  | .whole _ n, fixed y => y = (Scalar.ofWhole? n).getD Scalar.undefined
  | .sound _ s, live stream => s.stream rate = .ok stream
  | _, _ => False

lemma isFilling_holds (rate : α) :
    IsFilling fun a slot => Holds rate a slot ∧ slot.GivesNumbers where
  real _ _ := ⟨rfl, trivial⟩
  whole _ _ := ⟨rfl, trivial⟩
  const _ _ := ⟨rfl, rfl⟩

end Slot

omit [Scalar α] in
lemma Stream.yields_apply_real {g : RealFunction} {slots : List (Slot α)}
    (h : ∀ slot ∈ slots, slot.GivesNumbers) : (apply (.real g) slots).yields = .ok .number := by
  have hslots : slotYields slots = .ok (slots.map fun _ => .number) := by
    induction slots with
    | nil => rfl
    | cons slot rest ih =>
      obtain ⟨hslot, hrest⟩ := forall_mem_cons.1 h
      cases slot with
      | fixed x =>
        rw [slotYields, ih hrest]
        rfl
      | live s =>
        have hs : s.yields = .ok .number := hslot
        rw [slotYields, hs, ih hrest]
        rfl
  have hnumbers : (slots.map fun _ => Yield.number).contains .sound = false := by
    induction slots with
    | nil => rfl
    | cons slot rest ih => simp
  rw [yields, hslots]
  show yieldOf (.real g) _ = _
  rw [yieldOf, hnumbers]
  rfl

namespace Sound

variable {s : Sound α}

/-- A sound that a program builds has a stream of numbers. -/
theorem IsBuilt.exists_stream (h : s.IsBuilt) (rate : α) :
    ∃ stream, s.stream rate = .ok stream ∧ stream.yields = .ok .number := by
  unfold IsBuilt at h
  induction s with
  | const | linear | decay | noise => exact ⟨_, rfl, rfl⟩
  | sine frequency phase =>
    refine ⟨_, rfl, ?_⟩
    rw [sineStream]
    split <;> rfl
  | minus s ih =>
    obtain ⟨stream, hstream, hyields⟩ := ih (everywhere_minus.1 h).2
    exact ⟨.minus stream, by rw [Sound.stream, hstream]; rfl, hyields⟩
  | reciprocal s ih =>
    obtain ⟨stream, hstream, hyields⟩ := ih (everywhere_reciprocal.1 h).2
    exact ⟨.reciprocal stream, by rw [Sound.stream, hstream]; rfl, hyields⟩
  | binary op left right ihl ihr =>
    obtain ⟨-, hleft, hright⟩ := everywhere_binary.1 h
    obtain ⟨l, hl, hly⟩ := ihl hleft
    obtain ⟨r, hr, hry⟩ := ihr hright
    refine ⟨.binary op l r, by rw [Sound.stream, hl, hr]; rfl, ?_⟩
    rw [Stream.yields, hly, hry]
    rfl
  | apply f args ih =>
    obtain ⟨hpromoted, hargs⟩ := everywhere_apply.1 h
    obtain ⟨g, slots, rfl, hslots, -⟩ := hpromoted f args rfl
    obtain ⟨live, hlive, hfilled⟩ := slots_filled (Slot.isFilling_holds rate) hslots
      fun label s hs => by
        obtain ⟨stream, hstream, hyields⟩ := ih label s hs (hargs label s hs)
        exact ⟨stream, hstream, hstream, hyields⟩
    refine ⟨.apply (.real g) live, by rw [Sound.stream, hlive]; rfl, ?_⟩
    have hnumbers := hfilled.flip.imp fun slot a h => And.intro h.2 h.1
    exact Stream.yields_apply_real ((forall₂_and_left _ _).1 hnumbers).1

/-- Nothing goes wrong when the sound is played at a rate: it has a stream, none of whose samples is
at fault.  The arguments of every function applied in it fill all its slots, one of them with a
sound, and the stream plays the sounds in the slots and keeps the numbers. -/
structure IsPlayable (rate : α) (s : Sound α) : Prop where
  stream : ∃ stream, s.stream rate = .ok stream ∧ ∀ n, (stream.after n).fault? = none
  slots : s.Everywhere fun t => ∀ f args, t = .apply f args →
    ∃ g slots live, f = .real g ∧ f.bindArguments args = .ok slots ∧
      slots.length = g.parameterNames.length ∧ (∃ label s, Argument.sound label s ∈ slots) ∧
        f.slots (prepare rate args) = .ok live ∧ Forall₂ (Slot.Holds rate) slots live

/-- A sound that a program builds can be played at any rate. -/
theorem IsBuilt.isPlayable (h : s.IsBuilt) (rate : α) : s.IsPlayable rate where
  stream := by
    obtain ⟨stream, hstream, hyields⟩ := h.exists_stream rate
    refine ⟨stream, hstream, fun n => ?_⟩
    rw [Stream.fault?, Stream.yields_after, hyields]
  slots := by
    rintro t ht f args rfl
    obtain ⟨g, slots, rfl, hslots, hsound⟩ := h _ ht f args rfl
    have hlength : slots.length = g.parameterNames.length := by
      rw [Signature.length_bind hslots]
      exact length_map _
    have hargs : ∀ label s, Argument.sound label s ∈ args → s.IsBuilt := fun label s hs =>
      (everywhere_apply.1 (h.of_mem ht)).2 label s hs
    obtain ⟨live, hlive, hfilled⟩ := slots_filled (Slot.isFilling_holds rate) hslots
      fun label s hs => by
        obtain ⟨stream, hstream, hyields⟩ := (hargs label s hs).exists_stream rate
        exact ⟨stream, hstream, hstream, hyields⟩
    exact ⟨g, slots, live, rfl, hslots, hlength, hsound, hlive, hfilled.imp fun _ _ h => h.1⟩

end Sound

end SignalCalc.Signal
