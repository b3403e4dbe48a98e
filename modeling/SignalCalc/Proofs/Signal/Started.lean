import SignalCalc.Proofs.Signal.Built

/-!
# Streams that have started

Where the arguments of all functions fit, a sound can be played (`Sound.plays`).  Here it is the
other way around: a stream has started, and what it gives is asked for.  It gives the samples of its
sound (`Sound.sample_eq_sampleAt`), and they are numbers where only real functions are applied
(`Sound.yields_of_stream`).

Nothing is known of all arguments of a sound that has started.  One that does not fit may stand
where it is not heard, since of two arguments by one name the later one counts.  So
`Applied.fits_of_slots` speaks of the arguments that fill the slots.
-/

namespace SignalCalc.Signal

open SignalCalc.Builtin
open SignalCalc.Call
open List

variable {α : Type} [Scalar α] {rate : α} {H : Argument α → Slot α → Prop}

lemma map_eq_ok_iff {ε β γ : Type} {x : Except ε β} {f : β → γ} {c : γ} :
    f <$> x = .ok c ↔ ∃ b, x = .ok b ∧ f b = c := by
  cases x <;> simp [Functor.map, Except.map]

/-- The argument was prepared with a slot that it may fill, or with none. -/
def Prepared.MayCarry (H : Argument α → Slot α → Prop) (p : Prepared α) (a : Argument α) : Prop :=
  p.1 = a ∧ ∀ slot, p.2 = .ok slot → H a slot

omit [Scalar α] in
lemma Prepared.mayCarry_mk {a : Argument α} {slot : Slot α} (h : H a slot) :
    Prepared.MayCarry H (a, .ok slot) a :=
  ⟨rfl, fun _ hslot => Except.ok.inj hslot ▸ h⟩

lemma acceptPrepared_mayCarry (hH : Slot.IsFilling H) (takesSignals : Bool) (kind : Kind)
    {p : Prepared α} {a : Argument α} (h : Prepared.MayCarry H p a) :
    Leads (Prepared.MayCarry H) (acceptPrepared takesSignals kind p)
      (a.accept takesSignals kind) := by
  obtain rfl : p.1 = a := h.1
  rcases acceptPrepared_cases takesSignals kind p with ⟨e, ha, hp⟩ | ⟨ha, hp⟩ |
    ⟨label, x, ha, hp⟩ | ⟨label, x, ha, hp⟩
  all_goals rw [ha, hp]
  · exact Leads.error e _
  · exact Leads.ok h
  · exact Leads.ok (Prepared.mayCarry_mk (hH.real label x))
  · exact Leads.ok (Prepared.mayCarry_mk (hH.const label x))

lemma prepare_mayCarry (hH : Slot.IsFilling H) {args : List (Argument α)}
    (h : ∀ label s, Argument.sound label s ∈ args →
      ∀ stream, s.stream rate = .ok stream → H (.sound label s) (.live stream)) :
    Forall₂ (Prepared.MayCarry H) (prepare rate args) args := by
  induction args with
  | nil => exact .nil
  | cons a rest ih =>
    have hrest := ih fun label s hs => h label s (mem_cons_of_mem _ hs)
    cases a with
    | real label x => exact .cons (Prepared.mayCarry_mk (hH.real label x)) hrest
    | whole label n => exact .cons (Prepared.mayCarry_mk (hH.whole label n)) hrest
    | sound label s =>
      refine .cons ⟨rfl, fun slot hslot => ?_⟩ hrest
      obtain ⟨stream, hstream, rfl⟩ := map_eq_ok_iff.1 hslot
      exact h label s mem_cons_self stream hstream

/-- Where the slots of an applied function are filled, its arguments fit, and each slot is one that
its argument may fill. -/
lemma Applied.fits_of_slots (hH : Slot.IsFilling H) {f : Applied} {args : List (Argument α)}
    {live : List (Slot α)} (hlive : f.slots (prepare rate args) = .ok live)
    (hargs : ∀ label s, Argument.sound label s ∈ args →
      ∀ stream, s.stream rate = .ok stream → H (.sound label s) (.live stream)) :
    ∃ slots, f.bindArguments args = .ok slots ∧ Forall₂ H slots live := by
  have hlabel : ∀ (p : Prepared α) a, Prepared.MayCarry H p a → p.1.label = a.label :=
    fun p a h => by rw [h.1]
  have hprepared := prepare_mayCarry hH hargs
  have hbind := Signature.bind_of_related
    (f.params_related (Prepared.mayCarry_mk (hH.real none Scalar.zero)))
    (fun p _ _ _ hpa => acceptPrepared_mayCarry hH f.takesSignals p.kind hpa)
    (filter_related hlabel hprepared) (lastWins_related (filterMap_related hlabel hprepared))
  unfold Applied.slots at hlive
  simp only at hlive
  split at hlive
  case h_2 => cases hlive
  case h_1 bound hbound =>
    obtain ⟨slots, hslots, hcarry⟩ := hbind bound hbound
    refine ⟨slots, hslots, ?_⟩
    clear hbind hprepared hbound hslots hargs
    induction hcarry generalizing live with
    | nil =>
      obtain rfl := Except.ok.inj hlive
      exact .nil
    | cons hfirst _ ih =>
      rw [mapM_cons] at hlive
      obtain ⟨slot, hslot, hlive⟩ := Signature.bind_eq_ok_iff.1 hlive
      obtain ⟨rest, hrest, hlive⟩ := Signature.bind_eq_ok_iff.1 hlive
      obtain rfl := Except.ok.inj hlive
      exact .cons (hfirst.2 slot hslot) (ih hrest)

namespace Sound

variable {s left right : Sound α} {stream : Stream α} {f : Applied} {args : List (Argument α)}

lemma stream_minus_eq_ok :
    (minus s).stream rate = .ok stream ↔ ∃ t, s.stream rate = .ok t ∧ .minus t = stream := by
  rw [Sound.stream, map_eq_ok_iff]

lemma stream_reciprocal_eq_ok :
    (reciprocal s).stream rate = .ok stream ↔
      ∃ t, s.stream rate = .ok t ∧ .reciprocal t = stream := by
  rw [Sound.stream, map_eq_ok_iff]

lemma stream_binary_eq_ok {op : Operator} :
    (binary op left right).stream rate = .ok stream ↔
      ∃ l, left.stream rate = .ok l ∧ ∃ r, right.stream rate = .ok r ∧
        .binary op l r = stream := by
  simp only [Sound.stream, Signature.bind_eq_ok_iff]
  simp [pure, Except.pure]

lemma stream_apply_eq_ok :
    (apply f args).stream rate = .ok stream ↔
      ∃ live, f.slots (prepare rate args) = .ok live ∧ .apply f live = stream := by
  rw [Sound.stream, map_eq_ok_iff]

/-- A leaf has no arguments, so its samples are those of any sound with fitting arguments. -/
lemma sample_of_binds (hs : s.Seeded) (hbinds : s.Binds) (hstream : s.stream rate = .ok stream)
    (n : ℕ) : stream.sample n = s.sampleAt rate n := by
  obtain ⟨played, hplayed, hsample⟩ := Sound.plays rate hs hbinds
  obtain rfl := Except.ok.inj (hplayed.symm.trans hstream)
  exact hsample n

/-- A stream that has started gives the samples of its sound. -/
theorem sample_eq_sampleAt (hs : s.Seeded) (hstream : s.stream rate = .ok stream) (n : ℕ) :
    stream.sample n = s.sampleAt rate n := by
  induction s generalizing stream with
  | const | linear | sine | decay | noise =>
    exact sample_of_binds hs (by simp [Binds]) hstream n
  | minus s ih =>
    obtain ⟨t, ht, rfl⟩ := stream_minus_eq_ok.1 hstream
    rw [Sound.sampleAt, ← ih (everywhere_minus.1 hs).2 ht, Stream.sample, Stream.after_minus]
    rfl
  | reciprocal s ih =>
    obtain ⟨t, ht, rfl⟩ := stream_reciprocal_eq_ok.1 hstream
    rw [Sound.sampleAt, ← ih (everywhere_reciprocal.1 hs).2 ht, Stream.sample,
      Stream.after_reciprocal]
    rfl
  | binary op left right ihl ihr =>
    obtain ⟨-, hsl, hsr⟩ := everywhere_binary.1 hs
    obtain ⟨l, hl, r, hr, rfl⟩ := stream_binary_eq_ok.1 hstream
    rw [Sound.sampleAt, ← ihl hsl hl, ← ihr hsr hr, Stream.sample, Stream.after_binary]
    rfl
  | apply f args ih =>
    have hargs := (everywhere_apply.1 hs).2
    obtain ⟨live, hlive, rfl⟩ := stream_apply_eq_ok.1 hstream
    obtain ⟨slots, hslots, hfollows⟩ := Applied.fits_of_slots
      (H := fun a slot => slot.sample n = a.valueAt rate n)
      ⟨fun _ _ => rfl, fun _ _ => rfl, fun _ x => Slot.isFilling_follows rate |>.const _ x n⟩ hlive
      fun label s hs stream hstream => ih label s hs (hargs label s hs) hstream
    rw [Stream.sample_apply, map_eq_of_forall₂ hfollows, sampleAt_apply hslots]

/-- All functions that are applied in the sound are real functions. -/
def AppliesReals (s : Sound α) : Prop :=
  s.Everywhere fun t => ∀ f args, t = .apply f args → ∃ g, f = .real g

/-- Where only real functions are applied, all samples are numbers. -/
lemma yields_of_stream (hs : s.AppliesReals) (hstream : s.stream rate = .ok stream) :
    stream.yields = .ok .number := by
  unfold AppliesReals at hs
  induction s generalizing stream with
  | const | linear | decay | noise =>
    obtain rfl := Except.ok.inj hstream
    rfl
  | sine frequency phase =>
    obtain rfl := Except.ok.inj hstream
    rw [sineStream]
    split <;> rfl
  | minus s ih =>
    obtain ⟨t, ht, rfl⟩ := stream_minus_eq_ok.1 hstream
    have hyields : t.yields = .ok .number := ih (everywhere_minus.1 hs).2 ht
    exact hyields
  | reciprocal s ih =>
    obtain ⟨t, ht, rfl⟩ := stream_reciprocal_eq_ok.1 hstream
    have hyields : t.yields = .ok .number := ih (everywhere_reciprocal.1 hs).2 ht
    exact hyields
  | binary op left right ihl ihr =>
    obtain ⟨-, hsl, hsr⟩ := everywhere_binary.1 hs
    obtain ⟨l, hl, r, hr, rfl⟩ := stream_binary_eq_ok.1 hstream
    rw [Stream.yields, ihl hsl hl, ihr hsr hr]
    rfl
  | apply f args ih =>
    obtain ⟨hreal, hargs⟩ := everywhere_apply.1 hs
    obtain ⟨g, rfl⟩ := hreal f args rfl
    obtain ⟨live, hlive, rfl⟩ := stream_apply_eq_ok.1 hstream
    obtain ⟨slots, -, hnumbers⟩ := Applied.fits_of_slots (H := fun _ slot => slot.GivesNumbers)
      ⟨fun _ _ => trivial, fun _ _ => trivial, fun _ _ => rfl⟩ hlive
      fun label s hs stream hstream => ih label s hs (hargs label s hs) hstream
    have hslots := hnumbers.flip.imp fun slot a h => And.intro h (Eq.refl a)
    exact Stream.yields_apply_real ((forall₂_and_left _ _).1 hslots).1

/-! ## Sounds with samples -/

/-- The sound has samples of its own: its noise is seeded, and the functions applied in it are real
functions with fitting arguments. -/
def IsSettled (s : Sound α) : Prop :=
  s.Everywhere fun t => t ≠ .noise none ∧ ∀ f args, t = .apply f args →
    (∃ g, f = .real g) ∧ ∃ slots, f.bindArguments args = .ok slots

@[simp] lemma isSettled_const {value : α} : (const value).IsSettled := by simp [IsSettled]

@[simp] lemma isSettled_linear {slope intercept : α} : (linear slope intercept).IsSettled := by
  simp [IsSettled]

@[simp] lemma isSettled_sine {frequency phase : α} : (sine frequency phase).IsSettled := by
  simp [IsSettled]

@[simp] lemma isSettled_noise {seed : Option Int} :
    (noise seed : Sound α).IsSettled ↔ seed ≠ none := by
  simp [IsSettled]

@[simp] lemma isSettled_minus : (minus s).IsSettled ↔ s.IsSettled := by simp [IsSettled]

@[simp] lemma isSettled_reciprocal : (reciprocal s).IsSettled ↔ s.IsSettled := by simp [IsSettled]

@[simp] lemma isSettled_binary {op : Operator} :
    (binary op left right).IsSettled ↔ left.IsSettled ∧ right.IsSettled := by
  simp [IsSettled]

@[simp] lemma isSettled_apply :
    (apply f args).IsSettled ↔
      ((∃ g, f = .real g) ∧ ∃ slots, f.bindArguments args = .ok slots) ∧
        ∀ label s, Argument.sound label s ∈ args → s.IsSettled := by
  simp [IsSettled]

/-- A sound with samples of its own can be played at any rate, and none of its samples is at
fault. -/
lemma IsSettled.exists_stream (h : s.IsSettled) (rate : α) :
    ∃ stream, s.stream rate = .ok stream ∧
      ∀ n, stream.sample n = s.sampleAt rate n ∧ (stream.after n).fault? = none := by
  have hseeded : s.Seeded := fun t ht => (h t ht).1
  have hbinds : s.Binds := fun t ht f args heq => ((h t ht).2 f args heq).2
  have hreals : s.AppliesReals := fun t ht f args heq => ((h t ht).2 f args heq).1
  obtain ⟨stream, hstream, hsample⟩ := Sound.plays rate hseeded hbinds
  refine ⟨stream, hstream, fun n => ⟨hsample n, ?_⟩⟩
  rw [Stream.fault?, Stream.yields_after, yields_of_stream hreals hstream]

end Sound

end SignalCalc.Signal
