import SignalCalc.Proofs.Signal.Pointwise

/-!
# Streams play the samples of their sounds

`Stream.sample n` is what a stream gives after `n` steps.  A stream never mixes the states of its
parts: after `n` steps it is a stream of the same kind whose parts are `n` steps on
(`Stream.after_binary`, `Stream.after_apply` and the like).  So the samples of a stream obey the
equations of `Sound.sampleAt`, and what is left is that a stream starts with the right parts.

The main result is `take_stream_eq_sampleAt`: a sound whose functions get fitting arguments can be
played, and the numbers taken from its stream are its samples in order.
-/

namespace SignalCalc.Signal

open SignalCalc.Builtin
open SignalCalc.Call
open List

variable {α : Type} [Scalar α]

/-! ## A stream after some steps -/

namespace Stream

/-- The stream after `n` samples were taken. -/
def after (n : ℕ) (s : Stream α) : Stream α := (fun s => s.step.2)^[n] s

/-- The sample number `n` of a stream, from zero. -/
def sample (s : Stream α) (n : ℕ) : α := (s.after n).step.1

@[simp] lemma after_zero (s : Stream α) : s.after 0 = s := rfl

lemma after_succ (s : Stream α) (n : ℕ) : s.after (n + 1) = s.step.2.after n := rfl

lemma collect_succ (n : ℕ) (s : Stream α) (taken : Array α) :
    s.collect (n + 1) taken = s.step.2.collect n (taken.push s.step.1) := rfl

/-- Taking samples is taking them one after the other. -/
lemma collect_eq (n : ℕ) (s : Stream α) (taken : Array α) :
    s.collect n taken = (taken ++ ((range n).map s.sample).toArray, s.after n) := by
  induction n generalizing s taken with
  | zero => simp [collect]
  | succ n ih =>
    have hrange : (range (n + 1)).map s.sample =
        s.step.1 :: (range n).map s.step.2.sample := by
      rw [range_succ_eq_map, map_cons, map_map]
      rfl
    rw [collect_succ, ih, hrange, ← after_succ]
    refine Prod.ext (Array.ext' ?_) rfl
    simp

lemma take_eq (n : ℕ) (s : Stream α) :
    s.take n = (((range n).map s.sample).toArray, s.after n) := by
  simp [take, collect_eq]

/-- When one step of a stream is a change of its state, `n` steps are `n` changes. -/
lemma after_of_step {σ : Type} {f : σ → Stream α} {g : σ → σ} (h : ∀ x, (f x).step.2 = f (g x))
    (n : ℕ) (x : σ) : (f x).after n = f (g^[n] x) := by
  induction n generalizing x with
  | zero => rfl
  | succ n ih => rw [after_succ, h, ih, Function.iterate_succ_apply]

lemma after_const (v : α) (n : ℕ) : (const v).after n = const v := by
  have hafter := after_of_step (f := const) (g := id) (fun _ => rfl) n v
  rwa [Function.iterate_id] at hafter

lemma after_linear (current change : α) (n : ℕ) :
    (linear current change).after n = linear ((Scalar.add · change)^[n] current) change :=
  after_of_step (f := (linear · change)) (fun _ => rfl) n current

lemma after_sine (current rotation : Phasor α) (n : ℕ) :
    (sine current rotation).after n =
      sine ((Scalar.mulPhasor · rotation)^[n] current) rotation :=
  after_of_step (f := (sine · rotation)) (fun _ => rfl) n current

lemma after_decay (current ratio : α) (n : ℕ) :
    (decay current ratio).after n = decay ((Scalar.mul · ratio)^[n] current) ratio :=
  after_of_step (f := (decay · ratio)) (fun _ => rfl) n current

lemma after_noise (g : Generator) (n : ℕ) :
    (noise g : Stream α).after n = noise ((fun g => g.draw.2)^[n] g) :=
  after_of_step (f := noise) (fun _ => rfl) n g

lemma after_minus (s : Stream α) (n : ℕ) : (minus s).after n = minus (s.after n) :=
  after_of_step (f := minus) (fun _ => rfl) n s

lemma after_reciprocal (s : Stream α) (n : ℕ) :
    (reciprocal s).after n = reciprocal (s.after n) :=
  after_of_step (f := reciprocal) (fun _ => rfl) n s

lemma after_binary (op : Operator) (left right : Stream α) (n : ℕ) :
    (binary op left right).after n = binary op (left.after n) (right.after n) := by
  induction n generalizing left right with
  | zero => rfl
  | succ n ih => exact ih _ _

end Stream

namespace Slot

/-- The value of a slot at the next sample. -/
def value : Slot α → α
  | fixed x => x
  | live s => s.step.1

/-- The slot after a number of samples: a fixed one stays. -/
def after (n : ℕ) : Slot α → Slot α
  | fixed x => fixed x
  | live s => live (s.after n)

/-- The value of a slot at sample `n`. -/
def sample (slot : Slot α) (n : ℕ) : α := (slot.after n).value

end Slot

namespace Stream

lemma stepSlots_eq (slots : List (Slot α)) :
    stepSlots slots = (slots.map Slot.value, slots.map (Slot.after 1)) := by
  induction slots with
  | nil => rfl
  | cons slot rest ih => cases slot <;> simp [stepSlots, ih, Slot.value, Slot.after, after]

lemma after_apply (f : Applied) (slots : List (Slot α)) (n : ℕ) :
    (apply f slots).after n = apply f (slots.map (Slot.after n)) := by
  induction n generalizing slots with
  | zero =>
    have hzero : Slot.after 0 = @id (Slot α) := funext fun slot => by cases slot <;> rfl
    rw [hzero, map_id, after_zero]
  | succ n ih =>
    have hsucc : ∀ slot : Slot α, (slot.after 1).after n = slot.after (n + 1) := fun slot => by
      cases slot <;> rfl
    rw [after_succ, step, stepSlots_eq, ih, map_map]
    simp [Function.comp_def, hsucc]

lemma sample_const (v : α) (n : ℕ) : (const v).sample n = v := by
  rw [sample, after_const, step]

lemma sample_apply (f : Applied) (slots : List (Slot α)) (n : ℕ) :
    (apply f slots).sample n = applyTo f (slots.map (·.sample n)) := by
  rw [sample, after_apply, step, stepSlots_eq, map_map]
  rfl

end Stream

/-! ## A stream starts with the right parts -/

variable {rate : α}

/-- The sound can be played, and its stream gives its samples. -/
def Sound.Plays (rate : α) (s : Sound α) : Prop :=
  ∃ stream, s.stream rate = .ok stream ∧ ∀ n, stream.sample n = s.sampleAt rate n

/-- The slot gives the value of the argument at every sample. -/
def Slot.Follows (rate : α) (a : Argument α) (slot : Slot α) : Prop :=
  ∀ n, slot.sample n = a.valueAt rate n

/-- A relation tells which slots an argument may fill: numbers fill slots that stay fixed, and what
a parameter makes of a number fills the slot of a constant stream. -/
structure Slot.IsFilling (H : Argument α → Slot α → Prop) : Prop where
  real (label : Option String) (x : α) : H (.real label x) (.fixed x)
  whole (label : Option String) (n : Int) :
    H (.whole label n) (.fixed ((Scalar.ofWhole? n).getD Scalar.undefined))
  const (label : Option String) (x : α) : H (.sound label (.const x)) (.live (.const x))

/-- The argument was prepared with a slot that it may fill. -/
def Prepared.Carries (H : Argument α → Slot α → Prop) (a : Argument α) (p : Prepared α) : Prop :=
  p.1 = a ∧ ∃ slot, p.2 = .ok slot ∧ H a slot

lemma Slot.isFilling_follows (rate : α) : Slot.IsFilling (Slot.Follows rate) where
  real _ _ _ := rfl
  whole _ _ _ := rfl
  const _ x n := (Stream.sample_const x n).trans (by rw [Argument.valueAt, Sound.sampleAt])

/-- A parameter refuses an argument, keeps it with its slot, or makes a number of it, which is
prepared anew: as a real, or as a constant sound. -/
lemma acceptPrepared_cases (takesSignals : Bool) (kind : Kind) (p : Prepared α) :
    (∃ e, p.1.accept takesSignals kind = .error e ∧
      acceptPrepared takesSignals kind p = .error e) ∨
    (p.1.accept takesSignals kind = .ok p.1 ∧ acceptPrepared takesSignals kind p = .ok p) ∨
    (∃ label x, p.1.accept takesSignals kind = .ok (.real label x) ∧
      acceptPrepared takesSignals kind p = .ok (.real label x, .ok (.fixed x))) ∨
    ∃ label x, p.1.accept takesSignals kind = .ok (.sound label (.const x)) ∧
      acceptPrepared takesSignals kind p =
        .ok (.sound label (.const x), .ok (.live (.const x))) := by
  obtain ⟨a, slot⟩ := p
  cases kind with
  | any => exact .inr (.inl ⟨by cases a <;> rfl, rfl⟩)
  | real =>
    cases a with
    | real => simp [Argument.accept, acceptPrepared]
    | whole label n =>
      cases h : Scalar.ofWhole? (α := α) n <;> simp [Argument.accept, acceptPrepared, h]
    | sound => cases takesSignals <;> simp [Argument.accept, acceptPrepared]
  | sound =>
    cases a with
    | real | sound => simp [Argument.accept, acceptPrepared]
    | whole label n =>
      cases h : Scalar.ofWhole? (α := α) n <;> simp [Argument.accept, acceptPrepared, h]
  | bool | string | other => exact .inl ⟨.wrongKind, by cases a <;> rfl, by cases a <;> rfl⟩

section Filling

variable {H : Argument α → Slot α → Prop} (hH : Slot.IsFilling H)

omit [Scalar α] in
lemma Prepared.carries_mk {a : Argument α} {slot : Slot α} (h : H a slot) :
    Prepared.Carries H a (a, .ok slot) :=
  ⟨rfl, slot, rfl, h⟩

include hH

lemma prepare_carries {args : List (Argument α)}
    (h : ∀ label s, Argument.sound label s ∈ args →
      ∃ stream, s.stream rate = .ok stream ∧ H (.sound label s) (.live stream)) :
    Forall₂ (Prepared.Carries H) args (prepare rate args) := by
  induction args with
  | nil => exact .nil
  | cons a rest ih =>
    have hrest := ih fun label s hs => h label s (mem_cons_of_mem _ hs)
    cases a with
    | real label x => exact .cons (Prepared.carries_mk (hH.real label x)) hrest
    | whole label n => exact .cons (Prepared.carries_mk (hH.whole label n)) hrest
    | sound label s =>
      obtain ⟨stream, hstream, hslot⟩ := h label s mem_cons_self
      refine .cons ?_ hrest
      rw [hstream]
      exact Prepared.carries_mk hslot

/-- A parameter that changes an argument prepares the slot of what it makes of it. -/
lemma acceptPrepared_carries (takesSignals : Bool) (kind : Kind) {a : Argument α}
    {p : Prepared α} (h : Prepared.Carries H a p) :
    Leads (Prepared.Carries H) (a.accept takesSignals kind)
      (acceptPrepared takesSignals kind p) := by
  obtain rfl : p.1 = a := h.1
  rcases acceptPrepared_cases takesSignals kind p with ⟨e, ha, hp⟩ | ⟨ha, hp⟩ |
    ⟨label, x, ha, hp⟩ | ⟨label, x, ha, hp⟩
  all_goals rw [ha, hp]
  · exact Leads.error e _
  · exact Leads.ok h
  · exact Leads.ok (Prepared.carries_mk (hH.real label x))
  · exact Leads.ok (Prepared.carries_mk (hH.const label x))

/-- The slots of an applied function are filled by its arguments in the order of its parameters. -/
lemma slots_filled {f : Applied} {args slots : List (Argument α)}
    (hslots : f.bindArguments args = .ok slots)
    (hargs : ∀ label s, Argument.sound label s ∈ args →
      ∃ stream, s.stream rate = .ok stream ∧ H (.sound label s) (.live stream)) :
    ∃ live, f.slots (prepare rate args) = .ok live ∧ Forall₂ H slots live := by
  obtain ⟨bound, hbound, hcarries⟩ := f.bindArguments_leads Prod.fst
    (fun a p h => h.1) (Prepared.carries_mk (hH.real none Scalar.zero))
    (fun kind a p h => acceptPrepared_carries hH f.takesSignals kind h)
    (prepare_carries hH hargs) slots hslots
  obtain ⟨live, hlive, hlast⟩ := Leads.exists_mapM (f := Prod.snd)
    (hcarries.imp fun _ _ h => h.2)
  refine ⟨live, ?_, hlast⟩
  unfold Applied.slots
  simp only [hbound, hlive]

end Filling

/-- A sound with seeded noise and fitting arguments can be played. -/
theorem Sound.plays (rate : α) {s : Sound α} (hseeded : s.Seeded) (hbinds : s.Binds) :
    s.Plays rate := by
  unfold Sound.Seeded at hseeded
  unfold Sound.Binds at hbinds
  induction s with
  | const v =>
    refine ⟨_, rfl, fun n => ?_⟩
    rw [Stream.sample_const, Sound.sampleAt]
  | linear slope intercept =>
    refine ⟨_, rfl, fun n => ?_⟩
    rw [Stream.sample, Stream.after_linear, Sound.sampleAt]
    rfl
  | sine frequency phase =>
    refine ⟨_, rfl, fun n => ?_⟩
    rw [Sound.sampleAt, sinePoints, sineStream]
    split
    · rw [Stream.sample, Stream.after_sine]
      rfl
    · rw [Stream.sample, Stream.after_sine]
      rfl
  | decay coefficient intercept =>
    refine ⟨_, rfl, fun n => ?_⟩
    rw [Stream.sample, Stream.after_decay, Sound.sampleAt]
    rfl
  | noise seed =>
    cases seed with
    | none => exact absurd rfl (everywhere_noise.1 hseeded)
    | some seed =>
      refine ⟨_, rfl, fun n => ?_⟩
      rw [Stream.sample, Stream.after_noise, Sound.sampleAt]
      rfl
  | minus s ih =>
    obtain ⟨stream, hstream, hsample⟩ :=
      ih (everywhere_minus.1 hseeded).2 (everywhere_minus.1 hbinds).2
    refine ⟨.minus stream, by rw [Sound.stream, hstream]; rfl, fun n => ?_⟩
    rw [Stream.sample, Stream.after_minus, Sound.sampleAt, ← hsample]
    rfl
  | reciprocal s ih =>
    obtain ⟨stream, hstream, hsample⟩ :=
      ih (everywhere_reciprocal.1 hseeded).2 (everywhere_reciprocal.1 hbinds).2
    refine ⟨.reciprocal stream, by rw [Sound.stream, hstream]; rfl, fun n => ?_⟩
    rw [Stream.sample, Stream.after_reciprocal, Sound.sampleAt, ← hsample]
    rfl
  | binary op left right ihl ihr =>
    obtain ⟨-, hsl, hsr⟩ := everywhere_binary.1 hseeded
    obtain ⟨-, hbl, hbr⟩ := everywhere_binary.1 hbinds
    obtain ⟨l, hl, hlsample⟩ := ihl hsl hbl
    obtain ⟨r, hr, hrsample⟩ := ihr hsr hbr
    refine ⟨.binary op l r, by rw [Sound.stream, hl, hr]; rfl, fun n => ?_⟩
    rw [Stream.sample, Stream.after_binary, Sound.sampleAt, ← hlsample, ← hrsample]
    rfl
  | apply f args ih =>
    obtain ⟨-, hseeded⟩ := everywhere_apply.1 hseeded
    obtain ⟨hfits, hbinds⟩ := everywhere_apply.1 hbinds
    obtain ⟨slots, hslots⟩ := hfits f args rfl
    obtain ⟨live, hlive, hfollows⟩ := slots_filled (Slot.isFilling_follows rate) hslots
      fun label s hs => ih label s hs (hseeded label s hs) (hbinds label s hs)
    refine ⟨.apply f live, by rw [Sound.stream, hlive]; rfl, fun n => ?_⟩
    have hvalues : live.map (·.sample n) = slots.map (Argument.valueAt rate n) :=
      map_eq_of_forall₂ (hfollows.imp fun _ _ hslot => hslot n)
    rw [Stream.sample_apply, hvalues, sampleAt_apply hslots]

/-- **Playing is pointwise.**  At any rate a sound with seeded noise and fitting arguments can be
played, and the numbers taken from its stream, one after the other, are its samples. -/
theorem take_stream_eq_sampleAt (s : Sound α) (hseeded : s.Seeded) (hbinds : s.Binds) (rate : α) :
    ∃ stream, s.stream rate = .ok stream ∧
      ∀ count, (stream.take count).1.toList = (range count).map fun n => s.sampleAt rate n := by
  obtain ⟨stream, hstream, hsample⟩ := Sound.plays rate hseeded hbinds
  refine ⟨stream, hstream, fun count => ?_⟩
  rw [Stream.take_eq]
  exact List.map_congr_left fun n _ => hsample n

/-- A rising line with noise on it, kept above a level that is given by name. -/
def raisedLine : Sound Float :=
  .apply (.real .max)
    [.sound none (.binary .add (.linear 2.0 1.0) (.noise (some 7))), .real (some "b") 4.0]

theorem take_stream_raisedLine :
    raisedLine.Seeded ∧ raisedLine.Binds ∧
      ∃ stream, raisedLine.stream 10.0 = .ok stream ∧
        ∀ count, (stream.take count).1.toList =
          (range count).map fun n => raisedLine.sampleAt 10.0 n := by
  have hseeded : raisedLine.Seeded := by simp [raisedLine, Sound.Seeded]
  have hbinds : raisedLine.Binds := by
    simp only [raisedLine, Sound.Binds, Sound.everywhere_apply]
    refine ⟨?_, by simp⟩
    rintro f args ⟨⟩
    exact ⟨_, rfl⟩
  exact ⟨hseeded, hbinds, take_stream_eq_sampleAt raisedLine hseeded hbinds 10.0⟩

end SignalCalc.Signal
