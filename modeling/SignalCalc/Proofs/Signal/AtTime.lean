import SignalCalc.Proofs.Signal.Skipped
import SignalCalc.Proofs.Signal.Started

/-!
# Sounds as functions of time

`Sound.atTime t` is the value of a sound at the time `t`, in seconds, straight from what the sound
stands for: a line is evaluated at `t`, a sine and a decay as well, and an operator or a function
is applied to the values at `t` of its operands or arguments.

A stream knows no time.  It adds, rotates and multiplies from one sample to the next, and the slots
of its functions were filled when it started.  In exact arithmetic its sample `n` is still the value
of the sound at the time `n / rate` (`Sound.sample_eq_atTime`).  Two facts make this up: the stream
gives the samples of the sound (`Sound.sample_eq_sampleAt`), and these are the values at their
times (`Sound.sampleAt_eq_atTime`), where the recurrences of the leaves meet their closed forms.
-/

namespace SignalCalc.Signal

open SignalCalc.Builtin
open SignalCalc.Call
open List

lemma Sound.Noiseless.seeded {s : Sound ℝ} (hs : s.Noiseless) : s.Seeded :=
  fun t ht => hs t ht none

section

variable [FreeOperations]

mutual
/-- The value of a sound at the time `t`, in seconds.  Noise has none of its own. -/
noncomputable def Sound.atTime (t : ℝ) : Sound ℝ → ℝ
  | .const v => v
  | .linear slope intercept => intercept + slope * t
  | .sine frequency phase => Real.sin (Scalar.tau * frequency * t + phase)
  | .decay coefficient intercept => intercept * Real.exp (coefficient * t)
  | .noise _ => Scalar.undefined
  | .minus s => Scalar.neg (s.atTime t)
  | .reciprocal s => Scalar.div Scalar.one (s.atTime t)
  | .binary op left right => op.apply (left.atTime t) (right.atTime t)
  | .apply f args =>
    match f.slotValues? (argumentsAtTime t args) with
    | some values => Stream.applyTo f values
    | none => Scalar.undefined

/-- The arguments of an applied function, each with its value at the time `t`. -/
noncomputable def argumentsAtTime (t : ℝ) : List (Argument ℝ) → List (Argument ℝ × ℝ)
  | [] => []
  | .real label x :: rest => (.real label x, x) :: argumentsAtTime t rest
  | .whole label k :: rest => (.whole label k, (k : ℝ)) :: argumentsAtTime t rest
  | .sound label s :: rest => (.sound label s, s.atTime t) :: argumentsAtTime t rest
end

/-- The value of an argument at the time `t`. -/
noncomputable def Argument.atTime (t : ℝ) : Argument ℝ → ℝ
  | .real _ x => x
  | .whole _ k => k
  | .sound _ s => s.atTime t

lemma argumentsAtTime_eq_map (t : ℝ) (args : List (Argument ℝ)) :
    argumentsAtTime t args = args.map fun a => (a, a.atTime t) := by
  induction args with
  | nil => rfl
  | cons a rest ih => cases a <;> simp [argumentsAtTime, Argument.atTime, ih]

lemma isValuation_atTime (t : ℝ) : IsValuation (Argument.atTime t) := by
  intro a x hx
  cases a with
  | real label y => exact Option.some.inj hx
  | whole label k => cases hx
  | sound label s =>
    cases s with
    | const y =>
      rw [Argument.atTime, Sound.atTime]
      exact Option.some.inj hx
    | _ => cases hx

/-- The value of an applied function is that of the function at the values of its arguments, in
the order of its parameters. -/
theorem atTime_apply {f : Applied} {args slots : List (Argument ℝ)}
    (h : f.bindArguments args = .ok slots) (t : ℝ) :
    (Sound.apply f args).atTime t = Stream.applyTo f (slots.map (Argument.atTime t)) := by
  rw [Sound.atTime, argumentsAtTime_eq_map, (isValuation_atTime t).slotValues?_eq h]

namespace Sound

/-- Sample `n` of a sound is its value at the time `n / rate`. -/
theorem sampleAt_eq_atTime {s : Sound ℝ} (hs : s.Noiseless) (rate : ℝ) (n : ℕ) :
    s.sampleAt rate n = s.atTime (n / rate) := by
  unfold Noiseless at hs
  induction s with
  | const v => simp [Sound.sampleAt, Sound.atTime]
  -- A leaf is where its recurrence is after `n` steps.
  | linear slope intercept =>
    rw [Sound.sampleAt, Sound.atTime, Scalar.iterate_add, Scalar.perSample_eq]
    ring
  | sine frequency phase =>
    have hangle : phase + n * (Scalar.tau * (frequency / rate)) =
        Scalar.tau * frequency * (n / rate) + phase := by ring
    rw [Sound.sampleAt, Sound.atTime, ← hangle]
    show ((Scalar.mulPhasor · (Scalar.direction _))^[n] (Scalar.direction phase)).im = _
    rw [Scalar.iterate_mulPhasor]
    rfl
  | decay coefficient intercept =>
    have hexponent : n * (coefficient / rate) = coefficient * (n / rate) := by ring
    rw [Sound.sampleAt, Sound.atTime, Scalar.iterate_mul_exp, Scalar.perSample_eq, hexponent]
  | noise seed => exact absurd rfl (everywhere_noise.1 hs seed)
  | minus s ih => rw [Sound.sampleAt, Sound.atTime, ih (everywhere_minus.1 hs).2]
  | reciprocal s ih => rw [Sound.sampleAt, Sound.atTime, ih (everywhere_reciprocal.1 hs).2]
  | binary op left right ihl ihr =>
    obtain ⟨-, hl, hr⟩ := everywhere_binary.1 hs
    rw [Sound.sampleAt, Sound.atTime, ihl hl, ihr hr]
  | apply f args ih =>
    have hargs := (everywhere_apply.1 hs).2
    have hvalues : argumentsAt rate n args = argumentsAtTime (n / rate) args := by
      rw [argumentsAt_eq_map, argumentsAtTime_eq_map]
      refine map_congr_left fun a ha => ?_
      cases a with
      | real | whole => rfl
      | sound label s =>
        rw [Argument.valueAt, Argument.atTime, ih label s ha (hargs label s ha)]
    rw [Sound.sampleAt, Sound.atTime, hvalues]
    cases f.slotValues? (argumentsAtTime (n / rate) args) <;> rfl

/-- **The samples are the values at their times.**  In exact arithmetic a sound without noise can
be played when the arguments of its functions fit, and whenever it is played, sample `n` is the
value of the sound at the time `n / rate`: a number, if the sound applies only real functions. -/
theorem sample_eq_atTime (s : Sound ℝ) (hs : s.Noiseless) (rate : ℝ) :
    (s.Binds → ∃ stream, s.stream rate = .ok stream) ∧
      ∀ stream, s.stream rate = .ok stream → ∀ n : ℕ,
        stream.sample n = s.atTime (n / rate) ∧
          (s.AppliesReals → (stream.after n).fault? = none) := by
  refine ⟨fun hbinds => ?_, fun stream hstream n => ⟨?_, fun hreals => ?_⟩⟩
  · obtain ⟨stream, hstream, -⟩ := Sound.plays rate hs.seeded hbinds
    exact ⟨stream, hstream⟩
  · rw [sample_eq_sampleAt hs.seeded hstream, sampleAt_eq_atTime hs]
  · rw [Stream.fault?, Stream.yields_after, yields_of_stream hreals hstream]

end Sound

end

/-- The sine over the line or the decay, whichever is higher at the time. -/
theorem sample_eq_atTime_fadedSine :
    letI := usualOperations
    fadedSine.Noiseless ∧ ∃ stream, fadedSine.stream 44100 = .ok stream ∧
      ∀ n : ℕ, stream.sample n = max
          (Real.sin (2 * Real.pi * 440 * (n / 44100) + 1) / (1 + 2 * (n / 44100)))
          (2 * Real.exp (-3 * (n / 44100)) * 4) ∧
        (stream.after n).fault? = none := by
  let _ := usualOperations
  have hnoiseless : fadedSine.Noiseless := by
    simp [fadedSine, Sound.Noiseless, or_imp, forall_and]
  have hreals : fadedSine.AppliesReals := by
    simp [fadedSine, Sound.AppliesReals, or_imp, forall_and]
  have hbinds : fadedSine.Binds := by
    simp only [fadedSine, Sound.Binds, Sound.everywhere_apply]
    refine ⟨?_, by simp [or_imp, forall_and]⟩
    rintro f args ⟨⟩
    exact ⟨_, rfl⟩
  obtain ⟨hplayed, hsamples⟩ := Sound.sample_eq_atTime fadedSine hnoiseless 44100
  obtain ⟨stream, hstream⟩ := hplayed hbinds
  refine ⟨hnoiseless, stream, hstream, fun n => ?_⟩
  obtain ⟨hsample, hfault⟩ := hsamples stream hstream n
  refine ⟨hsample.trans ?_, hfault hreals⟩
  rw [fadedSine, atTime_apply rfl]
  rfl

end SignalCalc.Signal
