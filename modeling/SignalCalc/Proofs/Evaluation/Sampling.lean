import SignalCalc.Proofs.Evaluation.Promotion
import SignalCalc.Proofs.Evaluation.Translation
import SignalCalc.Proofs.Signal.Streaming
import SignalCalc.Session.Basic

/-!
# Sampling commutes with evaluation

A program can be run on sounds, and the sound it builds played; or it can be run on one sample of
every sound.  Both give the same number (`evalWithin_heard`).  Operators on sounds, promoted calls
and the streams of both are code of their own, and this is where they meet the code for reals.

Taking a sample is a `Translation`, and `hearing_lawful` says that it is lawful.
-/

namespace SignalCalc

open SignalCalc.Builtin
open SignalCalc.Call
open SignalCalc.Signal
open SignalCalc.Syntax
open List

/-- What is heard of a sound at sample `n`. -/
def Signal.Sound.heard (rate : Float) (n : ℕ) (s : Sound Float) : Float :=
  match s.stream rate with
  | .ok stream => stream.sample n
  | .error _ => Scalar.undefined

namespace Evaluation

/-- Every sound becomes the real that is heard of it at sample `n`. -/
def hearing (rate : Float) (n : ℕ) : Translation where
  Admits s := s.Seeded ∧ s.Binds
  image s := .real (s.heard rate n)

variable {rate : Float} {n : ℕ}

lemma heard_eq_sampleAt {s : Sound Float} (h : (hearing rate n).Admits s) :
    s.heard rate n = s.sampleAt rate n := by
  obtain ⟨stream, hstream, hsample⟩ := Sound.plays rate h.1 h.2
  rw [Sound.heard, hstream]
  exact hsample n

lemma value_of_operand {v : Value} {s : Sound Float} (h : (hearing rate n).Operand v s) :
    (hearing rate n).value v = .real (s.sampleAt rate n) := by
  cases h with
  | real x => rw [Sound.sampleAt]; rfl
  | sound h => exact congrArg Value.real (heard_eq_sampleAt h)

lemma admits_of_operand {v : Value} {s : Sound Float} (h : (hearing rate n).Operand v s) :
    (hearing rate n).Admits s := by
  cases h with
  | real x => exact ⟨by simp [Sound.Seeded], by simp [Sound.Binds]⟩
  | sound h => exact h

/-- The sound of a promoted call has seeded noise, and its arguments fit. -/
lemma admits_promoted {f : RealFunction} {positional slots : List Value}
    {named : List (String × Value)} (hpositional : ∀ v ∈ positional, (hearing rate n).AdmitsValue v)
    (hnamed : ∀ entry ∈ named, (hearing rate n).AdmitsValue entry.2)
    (hbind : (Function.real f).bind positional named = .ok slots) :
    (hearing rate n).Admits (promoted f positional named) := by
  have hargs : ∀ label s, Argument.sound label s ∈ promotedArguments positional named →
      (hearing rate n).Admits s := by
    intro label s hs
    rcases mem_of_sound_mem_promoted hs with hs | ⟨name, hs⟩
    · exact hpositional _ hs
    · exact hnamed _ hs
  obtain ⟨kept, hkept, -⟩ := bindArguments_promoted hbind
  rw [promoted_eq]
  constructor
  · exact Sound.everywhere_apply.2 ⟨nofun, fun label s hs => (hargs label s hs).1⟩
  · refine Sound.everywhere_apply.2 ⟨?_, fun label s hs => (hargs label s hs).2⟩
    rintro _ _ ⟨⟩
    exact ⟨kept, hkept⟩

/-- The values in the slots of a call are heard as the numbers in the slots of its sound. -/
lemma map_value_kept {slots : List Value} {kept : List (Argument Float)}
    (h : Forall₂ Kept slots kept) (hadmits : ∀ v ∈ slots, (hearing rate n).AdmitsValue v) :
    slots.map (hearing rate n).value = (kept.map (Argument.valueAt rate n)).map .real := by
  induction h with
  | nil => rfl
  | cons hva _ ih =>
    obtain ⟨hv, hrest⟩ := forall_mem_cons.1 hadmits
    rw [map_cons, map_cons, map_cons, ih hrest]
    cases hva with
    | real label x => rfl
    | sound label s =>
      show Value.real (s.heard rate n) :: _ = _
      rw [heard_eq_sampleAt hv, Argument.valueAt]

/-- The reals among reals are all of them. -/
lemma filterMap_map_real (xs : List Float) :
    (xs.map Value.real).filterMap (fun | .real x => some x | _ => none) = xs := by
  rw [filterMap_map]
  exact filterMap_some

/-- A call of a real function on reals. -/
lemma call_reals (frame : Frame) (body : Node → ScopeId → Eval Value) (f : RealFunction)
    (xs : List Float) (m : Machine) :
    ∃ m₁, framed frame (call body (.real f) (xs.map .real)) m = (.ok (.real (f.apply xs)), m₁) ∧
      m₁.store = m.store :=
  ⟨{ m with events := .called .real f.name (xs.map Value.real).length :: m.events },
    congrArg (fun ys => (Except.ok (Value.real (f.apply ys)), _)) (filterMap_map_real xs), rfl⟩

/-- A promoted call on samples gives the sample of the sound that it builds on sounds. -/
lemma invoke_heard {f : RealFunction} {positional slots : List Value}
    {named : List (String × Value)} (hpositional : ∀ v ∈ positional, (hearing rate n).AdmitsValue v)
    (hnamed : ∀ entry ∈ named, (hearing rate n).AdmitsValue entry.2)
    (hbind : (Function.real f).bind positional named = .ok slots)
    (body : Node → ScopeId → Eval Value) (m : Machine) :
    ∃ m₁, invoke body (.real f) (positional.map (hearing rate n).value)
      (named.map fun entry => (entry.1, (hearing rate n).value entry.2)) m =
        (.ok (.real ((promoted f positional named).sampleAt rate n)), m₁) ∧ m₁.store = m.store := by
  obtain ⟨hadmits, hheard⟩ :=
    Translation.bind_value (by simp) (fun _ _ => rfl) hpositional hnamed hbind
  obtain ⟨kept, hkept, hslotsKept⟩ := bindArguments_promoted hbind
  rw [map_value_kept hslotsKept hadmits] at hheard
  have hsilent : ¬Promotes (.real f) ((kept.map (Argument.valueAt rate n)).map .real) := by
    simp [Promotes, Value.isSound]
  rw [invoke_framed hheard hsilent, promoted_eq, sampleAt_apply hkept]
  exact call_reals _ body f _ m

/-- Operators and calls on samples give samples of the sounds built by operators and calls. -/
lemma hearing_lawful : (hearing rate n).Lawful where
  argument _ _ := rfl
  plus _ := rfl
  minus {s} hs := by
    have hminus : (hearing rate n).Admits (.minus s) := by
      simpa [hearing, Sound.Seeded, Sound.Binds] using hs
    refine ⟨hminus, ?_⟩
    show applyUnary .minus (.real (s.heard rate n)) = pure (.real (Sound.heard rate n (.minus s)))
    rw [heard_eq_sampleAt hs, heard_eq_sampleAt hminus, Sound.sampleAt]
    rfl
  slash {s} hs := by
    have hslash : (hearing rate n).Admits (.reciprocal s) := by
      simpa [hearing, Sound.Seeded, Sound.Binds] using hs
    refine ⟨hslash, ?_⟩
    show applyUnary .slash (.real (s.heard rate n)) =
      pure (.real (Sound.heard rate n (.reciprocal s)))
    rw [heard_eq_sampleAt hs, heard_eq_sampleAt hslash, Sound.sampleAt]
    rfl
  binary op {v w l r} hl hr _ := by
    obtain ⟨hlSeeded, hlBinds⟩ := admits_of_operand hl
    obtain ⟨hrSeeded, hrBinds⟩ := admits_of_operand hr
    have hbinary : (hearing rate n).Admits (.binary op l r) :=
      ⟨Sound.everywhere_binary.2 ⟨by simp, hlSeeded, hrSeeded⟩,
        Sound.everywhere_binary.2 ⟨by simp, hlBinds, hrBinds⟩⟩
    refine ⟨hbinary, ?_⟩
    show _ = pure (Value.real (Sound.heard rate n (.binary op l r)))
    rw [value_of_operand hl, value_of_operand hr, heard_eq_sampleAt hbinary, Sound.sampleAt]
    rfl
  promoted {f positional named slots} hpositional hnamed hbind _ := by
    have hadmits := admits_promoted hpositional hnamed hbind
    refine ⟨hadmits, fun body m => ?_⟩
    show ∃ m₁, _ = (Except.ok (Value.real (Sound.heard rate n _)), m₁) ∧ _
    rw [heard_eq_sampleAt hadmits]
    exact invoke_heard hpositional hnamed hbind body m

/-- A value that can be heard: sounds have seeded noise and fitting arguments, and the bodies of
functions are expressions. -/
def IsAudible : Value → Prop
  | .sound s => s.Seeded ∧ s.Binds
  | .function (.user f) => f.body.IsExpression
  | .whole _ | .nothing | .list _ => False
  | _ => True

/-- The value with the sample `n` of every sound in its place. -/
def heardValue (rate : Float) (n : ℕ) : Value → Value
  | .sound s => .real (s.heard rate n)
  | v => v

lemma isAudible_iff {v : Value} : IsAudible v ↔ (hearing rate n).AdmitsValue v := by
  cases v with
  | function f => cases f <;> rfl
  | _ => rfl

lemma value_eq_heardValue : (hearing rate n).value = heardValue rate n := by
  funext v
  cases v <;> rfl

/-- **Sampling commutes with evaluation.**  If an expression evaluates to a sound and no sound is
built or moved by a constructor on the way, then the sound can be played, and at any rate and for
any `n` the same expression, evaluated where every sound is replaced by its sample `n`, gives the
sample `n` of that sound. -/
theorem evalWithin_heard {m m₁ : Machine} (hvalues : m.store.All IsAudible) {e : Node}
    (he : e.IsExpression) {depth : ℕ} {scope : ScopeId} {s : Sound Float}
    (heval : evalWithin depth e scope m = (.ok (.sound s), m₁)) (hnothing : BuildsNothing m m₁)
    (rate : Float) (n : ℕ) :
    ∃ stream, s.stream rate = .ok stream ∧
      ∃ m₁', evalWithin depth e scope { m with store := m.store.map (heardValue rate n) } =
        (.ok (.real (stream.sample n)), m₁') := by
  have hrelates : (hearing rate n).Relates m { m with store := m.store.map (heardValue rate n) } :=
    ⟨fun scope hscope entry hentry => isAudible_iff.1 (hvalues scope hscope entry hentry),
      by rw [value_eq_heardValue]⟩
  obtain ⟨v, m₁', hrun, ⟨hadmits, rfl⟩, -⟩ :=
    Translation.evalWithin_translates hearing_lawful depth he scope m _ _ _ hrelates heval hnothing
  obtain ⟨stream, hstream, -⟩ := Sound.plays rate hadmits.1 hadmits.2
  refine ⟨stream, hstream, m₁', hrun.trans ?_⟩
  show (Except.ok (Value.real (s.heard rate n)), m₁') = _
  rw [Sound.heard, hstream]

/-- A line, a maximum, and a function that raises its argument to a level and follows the line. -/
def raisedScope : List (String × Value) :=
  [("line", .sound (.linear 2.0 1.0)), ("max", .function (.real .max)),
    ("raise", .function (.user ⟨"raise", ["x"],
      .binary none (.arithmetic .mul)
        (.invocation none (.identifier none "max")
          [.identifier none "x", .keyword none "b" (.number none 3.0)])
        (.identifier none "line"), 0, 0⟩))]

/-- The text `raise(line) + -line`. -/
def raisedExpression : Node :=
  .binary none (.arithmetic .add)
    (.invocation none (.identifier none "raise") [.identifier none "line"])
    (.unary none .minus (.identifier none "line"))

/-- The sound of that text. -/
def raisedProduct : Sound Float :=
  .binary .add
    (.binary .mul
      (.apply (.real .max) [.sound none (.linear 2.0 1.0), .real (some "b") 3.0])
      (.linear 2.0 1.0))
    (.minus (.linear 2.0 1.0))

theorem evalWithin_heard_raised :
    ∃ m₁ stream, evalWithin 10 raisedExpression 0 (Session.machineOf raisedScope) =
        (.ok (.sound raisedProduct), m₁) ∧ raisedProduct.stream 10.0 = .ok stream ∧
      ∃ m₁', evalWithin 10 raisedExpression 0
        { Session.machineOf raisedScope with
          store := (Session.machineOf raisedScope).store.map (heardValue 10.0 7) } =
        (.ok (.real (stream.sample 7)), m₁') := by
  have hvalues : (Session.machineOf raisedScope).store.All IsAudible := by
    intro scope hscope
    obtain rfl : scope = ⟨none, raisedScope⟩ := by simpa [Session.machineOf] using hscope
    simp [raisedScope, IsAudible, Sound.Seeded, Sound.Binds, Node.IsExpression, Node.AreArguments,
      BinaryOperator.IsWritten]
  have he : raisedExpression.IsExpression := by
    simp [raisedExpression, Node.IsExpression, Node.AreArguments, BinaryOperator.IsWritten,
      UnaryOperator.IsWritten]
  have hnothing : BuildsNothing (Session.machineOf raisedScope)
      (evalWithin 10 raisedExpression 0 (Session.machineOf raisedScope)).2 := by
    intro steps hsteps
    have hsteps' : steps =
        [.promoted "max" ["Sound", "real"], .called .user "raise" 1] :=
      (List.append_nil steps).symm.trans hsteps.symm
    simp [hsteps', IsConstruction]
  have heval : evalWithin 10 raisedExpression 0 (Session.machineOf raisedScope) =
      (.ok (.sound raisedProduct),
        (evalWithin 10 raisedExpression 0 (Session.machineOf raisedScope)).2) := rfl
  obtain ⟨stream, hstream, hheard⟩ := evalWithin_heard hvalues he heval hnothing 10.0 7
  exact ⟨_, stream, heval, hstream, hheard⟩

end Evaluation

end SignalCalc
