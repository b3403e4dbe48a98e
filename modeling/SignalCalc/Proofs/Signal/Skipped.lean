import SignalCalc.Proofs.Signal.Built
import SignalCalc.Proofs.Signal.Exact

/-!
# Moving a sound skips its samples

There are two ways to be `k` samples on in a sound.  `Sound.shift` rewrites the numbers in the
sound and the moved sound is played from its start; `Stream.after` takes `k` samples from the
stream of the sound and drops them.  In exact arithmetic both are one.

The proof compares the streams and not their samples: the stream of a sound that was moved by `k`
samples is the stream of the sound, `k` samples on (`Sound.stream_shift`).  At the leaves this is
the closed form of a recurrence.  An applied function binds its arguments when it starts, and
moved arguments are bound to the same slots as the arguments themselves (`Applied.slots_moved`).

Noise has no closed form, and moving it leaves it as it is, so the sounds here are free of it.
-/

namespace SignalCalc.Signal

open SignalCalc.Builtin
open SignalCalc.Call
open List

/-- There is no noise in the sound. -/
def Sound.Noiseless {α : Type} (s : Sound α) : Prop :=
  s.Everywhere fun t => ∀ seed, t ≠ .noise seed

section Start

variable {α : Type} [Scalar α] {t : α} {k : ℕ}

namespace Stream

lemma after_add (s : Stream α) (m n : ℕ) : s.after (m + n) = (s.after n).after m :=
  Function.iterate_add_apply _ m n s

end Stream

/-- The second argument is the first one, moved, and its slot is that of the first one, `k`
samples on. -/
def Prepared.Moved (t : α) (k : ℕ) (p q : Prepared α) : Prop :=
  q.1 = p.1.shift t ∧ Agree (fun slot moved => moved = slot.after k) p.2 q.2

lemma Slot.after_live_const (x : α) (k : ℕ) :
    (live (.const x) : Slot α).after k = live (.const x) := by
  rw [Slot.after, Stream.after_const]

/-- A parameter makes of a moved argument what it makes of the argument, moved. -/
lemma acceptPrepared_moved (takesSignals : Bool) (kind : Kind) {p q : Prepared α}
    (h : Prepared.Moved t k p q) :
    Agree (Prepared.Moved t k) (acceptPrepared takesSignals kind p)
      (acceptPrepared takesSignals kind q) := by
  obtain ⟨a, slot⟩ := p
  obtain ⟨b, slot'⟩ := q
  have hkept : Agree (Prepared.Moved t k) (.ok (a, slot) : Except Refusal (Prepared α))
      (.ok (b, slot') : Except Refusal (Prepared α)) := Agree.ok h
  obtain rfl : b = a.shift t := h.1
  have hconst : ∀ label (x : α), Prepared.Moved t k (.sound label (.const x), .ok (.live (.const x)))
      (.sound label (.const x), .ok (.live (.const x))) := fun label x =>
    ⟨rfl, Agree.ok (Slot.after_live_const x k).symm⟩
  cases a with
  | real label x =>
    cases kind with
    | any | real => exact hkept
    | sound => exact Agree.ok (hconst label x)
    | bool | string | other _ => exact Agree.error _ _
  | whole label n =>
    cases kind with
    | any => exact hkept
    | real =>
      simp only [Argument.shift, acceptPrepared]
      cases Scalar.ofWhole? (α := α) n with
      | none => exact Agree.error _ _
      | some x => exact Agree.ok ⟨rfl, Agree.ok rfl⟩
    | sound =>
      simp only [Argument.shift, acceptPrepared]
      cases Scalar.ofWhole? (α := α) n with
      | none => exact Agree.error _ _
      | some x => exact Agree.ok (hconst label x)
    | bool | string | other _ => exact Agree.error _ _
  | sound label s =>
    cases kind with
    | any | sound => exact hkept
    | real =>
      cases takesSignals with
      | true => exact hkept
      | false => exact Agree.error _ _
    | bool | string | other _ => exact Agree.error _ _

/-- Moved arguments fill the slots of an applied function as the arguments themselves do. -/
lemma Applied.slots_moved (f : Applied) {ps qs : List (Prepared α)}
    (h : Forall₂ (Prepared.Moved t k) ps qs) :
    Agree (Forall₂ fun slot moved => moved = slot.after k) (f.slots ps) (f.slots qs) := by
  have hlabel : ∀ p q : Prepared α, Prepared.Moved t k p q → p.1.label = q.1.label :=
    fun p q hpq => by rw [hpq.1, Argument.label_shift]
  have hstart : Prepared.Moved t k (.real none Scalar.zero, .ok (.fixed Scalar.zero))
      (.real none Scalar.zero, .ok (.fixed Scalar.zero)) := ⟨rfl, Agree.ok rfl⟩
  have hbind := Signature.bind_agrees (f.params_related hstart)
    (fun kind _ _ hpq => acceptPrepared_moved f.takesSignals kind hpq) (filter_related hlabel h)
    (lastWins_related (filterMap_related hlabel h))
  unfold Applied.slots
  rcases hbind.cases with ⟨bound, moved, hbound, hmoved, hrel⟩ | ⟨e, e', he, he'⟩
  · simp only [hbound, hmoved]
    exact Agree.mapM hrel fun _ _ hpq => hpq.2
  · simp only [he, he']
    exact Agree.error _ _

/-- The arguments of a moved sound are prepared as moved arguments, if this is so for the streams
of the sounds among them. -/
lemma prepare_moved {rate : α} {args : List (Argument α)}
    (h : ∀ label s, Argument.sound label s ∈ args →
      Agree (fun stream moved => moved = stream.after k) (s.stream rate)
        ((s.shift t).stream rate)) :
    Forall₂ (Prepared.Moved t k) (prepare rate args)
      (prepare rate (Sound.shiftArguments t args)) := by
  induction args with
  | nil => exact .nil
  | cons a rest ih =>
    have hrest := ih fun label s hs => h label s (mem_cons_of_mem _ hs)
    cases a with
    | real label x => exact .cons ⟨rfl, Agree.ok rfl⟩ hrest
    | whole label n => exact .cons ⟨rfl, Agree.ok rfl⟩ hrest
    | sound label s =>
      refine .cons ⟨rfl, ?_⟩ hrest
      refine (h label s mem_cons_self).map fun stream moved hmoved => ?_
      rw [hmoved, Slot.after]

end Start

section Exact

variable [FreeOperations]

namespace Sound

/-- The stream of a sound that was moved by `k` samples is the stream of the sound, `k` samples
on. -/
theorem stream_shift {s : Sound ℝ} (hs : s.Noiseless) (rate : ℝ) (k : ℕ) :
    Agree (fun stream moved => moved = stream.after k) (s.stream rate)
      ((s.shift (k / rate)).stream rate) := by
  unfold Noiseless at hs
  induction s with
  | const v => exact Agree.ok (Stream.after_const v k).symm
  -- A leaf is moved to where its recurrence is after `k` steps.
  | linear slope intercept =>
    refine Agree.ok ?_
    rw [Stream.after_linear, Scalar.iterate_add]
    have hintercept : intercept + slope * (k / rate) = intercept + k * (slope / rate) := by ring
    simp only [Scalar.add_eq, Scalar.mul_eq, Scalar.perSample_eq, hintercept]
  | sine frequency phase =>
    refine Agree.ok ?_
    show Stream.sine _ _ = (Stream.sine _ _).after k
    rw [Stream.after_sine, Scalar.iterate_mulPhasor]
    have hphase : phase + 2 * Real.pi * frequency * (k / rate) =
        phase + k * (2 * Real.pi * (frequency / rate)) := by ring
    simp only [Scalar.add_eq, Scalar.mul_eq, Scalar.perSample_eq, Scalar.tau_eq, hphase]
  | decay coefficient intercept =>
    refine Agree.ok ?_
    rw [Stream.after_decay, Scalar.iterate_mul_exp]
    have hexponent : coefficient * (k / rate) = k * (coefficient / rate) := by ring
    simp only [Scalar.mul_eq, Scalar.exp_eq, Scalar.perSample_eq, hexponent]
  | noise seed => exact absurd rfl (everywhere_noise.1 hs seed)
  | minus s ih =>
    refine (ih (everywhere_minus.1 hs).2).map fun stream moved hmoved => ?_
    rw [hmoved, Stream.after_minus]
  | reciprocal s ih =>
    refine (ih (everywhere_reciprocal.1 hs).2).map fun stream moved hmoved => ?_
    rw [hmoved, Stream.after_reciprocal]
  | binary op left right ihl ihr =>
    obtain ⟨-, hl, hr⟩ := everywhere_binary.1 hs
    refine (ihl hl).bind fun l l' hleft => (ihr hr).bind fun r r' hright => Agree.ok ?_
    rw [hleft, hright, Stream.after_binary]
  | apply f args ih =>
    have hargs := (everywhere_apply.1 hs).2
    have hslots := f.slots_moved (prepare_moved fun label s hs => ih label s hs (hargs label s hs))
    refine hslots.map fun slots moved hmoved => ?_
    rw [Stream.after_apply, ← map_eq_of_forall₂ (f := id) hmoved, map_id]

/-- **Moving is skipping.**  In exact arithmetic a sound without noise that is moved by `k` samples
can be played when the sound itself can, and sample `n` of the moved sound is sample `n + k` of the
sound: the same number, or at fault alike. -/
theorem sample_shift (s : Sound ℝ) (hs : s.Noiseless) (rate : ℝ) (k : ℕ) :
    Agree (fun stream moved => ∀ n, moved.sample n = stream.sample (n + k) ∧
        (moved.after n).fault? = (stream.after (n + k)).fault?)
      (s.stream rate) ((s.shift (k / rate)).stream rate) := by
  refine (stream_shift hs rate k).imp ?_
  rintro stream _ rfl n
  exact ⟨by rw [Stream.sample, Stream.sample, Stream.after_add], by rw [Stream.after_add]⟩

end Sound

end Exact

theorem sample_shift_fadedSine :
    letI := usualOperations
    fadedSine.Noiseless ∧ ∃ stream moved, fadedSine.stream 44100 = .ok stream ∧
      (fadedSine.shift (((100 : ℕ) : ℝ) / 44100)).stream 44100 = .ok moved ∧
      ∀ n, moved.sample n = stream.sample (n + 100) ∧
        (moved.after n).fault? = (stream.after (n + 100)).fault? := by
  let _ := usualOperations
  have hnoiseless : fadedSine.Noiseless := by
    simp [fadedSine, Sound.Noiseless, or_imp, forall_and]
  obtain ⟨moved, hmoved, hsamples⟩ := (Sound.sample_shift fadedSine hnoiseless 44100 100).1 _ rfl
  exact ⟨hnoiseless, _, moved, rfl, hmoved, hsamples⟩

end SignalCalc.Signal
