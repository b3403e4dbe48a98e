import SignalCalc.Proofs.Session.Results
import SignalCalc.Proofs.Signal.Unmoved

/-!
# Results that are moved by nothing

`shift(v, 0)` moves the sound `v` by `0.0`, and `Delay(v, 0)` by `-0.0`.  For a sound that a session
ends in and that rests this is not heard (`handle_unmoved`).  A session also ends in sounds that do
not rest: a decay of no duration falls at an infinite rate, and an infinity times zero is NaN
(`handle_moved_decay`).
-/

namespace SignalCalc

open SignalCalc.Number
open SignalCalc.Signal

namespace Session

variable {s : Session}

/-- A sound that a source text ends in was built by a program. -/
lemma Reached.isBuilt (hs : s.Reached) {source : String} {v : Sound Float}
    (hv : .value (.sound v) ∈ (s.handle source).1 ∨ (s.evaluate source).1 = .ok (.sound v)) :
    v.IsBuilt := by
  rcases hv with hv | hv
  · rcases (handle_isComputed hs.isOrderly source).2 _ hv with hcomputed | ⟨e, he, -⟩
    · exact hcomputed
    · cases he
  · rcases (evaluate_isComputed hs.isOrderly source).2 _ hv with hcomputed | hnothing
    · exact hcomputed
    · cases hnothing

/-- A result that is a sound with a property. -/
lemma exists_sound_of_any (results : List Result) (P : Sound Float → Prop) [DecidablePred P]
    (h : (results.any fun result => (sound? result).any fun v => decide (P v)) = true) :
    ∃ v, .value (.sound v) ∈ results ∧ P v := by
  obtain ⟨result, hmem, hresult⟩ := List.any_eq_true.1 h
  cases hv : sound? result with
  | none =>
    rw [hv] at hresult
    cases hresult
  | some v =>
    rw [hv] at hresult
    exact ⟨v, eq_of_sound? hv ▸ hmem, of_decide_eq_true hresult⟩

/-- **Moving by zero is not heard.**  Take a sound with seeded noise that a source text ends in, in a
session that source texts alone have brought about.  If it rests, it can be played at every rate when
it is moved by a zero of either sign, as without that, and all samples are the same but for signs of
zeros. -/
theorem handle_unmoved (hs : s.Reached) {source : String} {v : Sound Float}
    (hv : .value (.sound v) ∈ (s.handle source).1 ∨ (s.evaluate source).1 = .ok (.sound v))
    (hseeded : v.Seeded) (hrests : v.Rests false) {t : Float} (ht : (t == 0.0) = true)
    (rate : Float) :
    ∃ stream moved, v.stream rate = .ok stream ∧ (v.shift t).stream rate = .ok moved ∧
      ∀ n, ZeroAlike (moved.sample n) (stream.sample n) := by
  have hbuilt := hs.isBuilt hv
  obtain ⟨stream, hstream, -⟩ := hbuilt.exists_stream rate
  obtain ⟨moved, hmoved, -⟩ := (hbuilt.shift t).exists_stream rate
  refine ⟨stream, moved, hstream, hmoved, fun n => ?_⟩
  rw [Sound.sample_eq_sampleAt hseeded hstream, Sound.sample_eq_sampleAt (hseeded.shift t) hmoved]
  exact Sound.sampleAt_shift_zero hbuilt.binds hrests ht rate n

theorem handle_unmoved_fadingLine :
    ∃ v : Sound Float,
      .value (.sound v) ∈ ((start false).handle "max(Linear(2, 1) * Exp(-4), b=-Sin(3)) / 3").1 ∧
        v.Seeded ∧ v.Rests false ∧ ∃ stream moved, v.stream 10.0 = .ok stream ∧
          (v.shift (-0.0)).stream 10.0 = .ok moved ∧
            ∀ n, ZeroAlike (moved.sample n) (stream.sample n) := by
  obtain ⟨v, hv, hseeded, hrests⟩ := exists_sound_of_any
    ((start false).handle "max(Linear(2, 1) * Exp(-4), b=-Sin(3)) / 3").1
    (fun v => v.Seeded ∧ v.Rests false) (by decide +kernel)
  exact ⟨v, hv, hseeded, hrests, handle_unmoved (.start false) (.inl hv) hseeded hrests rfl 10.0⟩

/-- A decay of no duration has other samples when it is moved by zero. -/
theorem handle_moved_decay :
    ∃ v : Sound Float, .value (.sound v) ∈ ((start false).handle "Exp(0)").1 ∧ v.Seeded ∧
      ∃ stream moved, v.stream 10.0 = .ok stream ∧ (v.shift 0.0).stream 10.0 = .ok moved ∧
        ¬ZeroAlike (moved.sample 0) (stream.sample 0) := by
  obtain ⟨v, hv, hseeded, hmoved⟩ := exists_sound_of_any ((start false).handle "Exp(0)").1
    (fun v => v.Seeded ∧ ¬ZeroAlike ((v.shift 0.0).sampleAt 10.0 0) (v.sampleAt 10.0 0))
    (by decide +kernel)
  have hbuilt := (Reached.start false).isBuilt (.inl hv)
  obtain ⟨stream, hstream, -⟩ := hbuilt.exists_stream 10.0
  obtain ⟨moved, hshift, -⟩ := (hbuilt.shift 0.0).exists_stream 10.0
  refine ⟨v, hv, hseeded, stream, moved, hstream, hshift, ?_⟩
  rwa [Sound.sample_eq_sampleAt hseeded hstream,
    Sound.sample_eq_sampleAt (hseeded.shift 0.0) hshift]

end Session

end SignalCalc
