import SignalCalc.Proofs.Evaluation.Promotion
import SignalCalc.Proofs.Evaluation.Translation
import SignalCalc.Proofs.Signal.Built
import SignalCalc.Session.Basic

/-!
# Moving in time commutes with evaluation

A program can be run on sounds, and the sound it builds moved in time; or it can be run where every
sound was moved before.  Both give the same sound, node by node (`evalWithin_shifted`).  So a
program cannot tell a sound from the same sound at another time: a number beside a sound is the same
at all times, and a call that was put off keeps its arguments as they are, so that moving the call
and calling on moved arguments is one.

Moving is a `Translation` that admits every sound, and `shifting_lawful` says that it is lawful.
-/

namespace SignalCalc

open SignalCalc.Builtin
open SignalCalc.Call
open SignalCalc.Signal
open SignalCalc.Syntax
open List

namespace Evaluation

/-- Every sound becomes the same sound, `t` seconds on. -/
def shifting (t : Float) : Translation where
  Admits _ := True
  image s := .sound (s.shift t)

variable {t : Float}

/-- The sound that an operator makes of a moved operand is the moved one: a constant sound does not
move. -/
lemma operand_shift {v : Value} {s : Sound Float} (h : (shifting t).Operand v s) :
    (shifting t).Operand ((shifting t).value v) (s.shift t) := by
  cases h with
  | real x =>
    rw [Sound.shift]
    exact .real x
  | sound => exact .sound trivial

lemma isSound_shifted (v : Value) : ((shifting t).value v).isSound = v.isSound := by
  cases v <;> rfl

/-- A value that was moved is kept as the argument that was moved. -/
lemma promotedArgument_shifted (label : Option String) (v : Value) :
    promotedArgument label ((shifting t).value v) = (promotedArgument label v).shift t := by
  cases v <;> rfl

/-- A call on moved arguments is put off as the moved call. -/
lemma promoted_shifted (f : RealFunction) (positional : List Value)
    (named : List (String × Value)) :
    promoted f (positional.map (shifting t).value)
        (named.map fun entry => (entry.1, (shifting t).value entry.2)) =
      (promoted f positional named).shift t := by
  simp [promoted_eq, promotedArguments, Sound.shift, Sound.shiftArguments_eq_map, Function.comp_def,
    promotedArgument_shifted]

/-- A call that is put off is put off on moved arguments as well. -/
lemma invoke_shifted {f : RealFunction} {positional slots : List Value}
    {named : List (String × Value)} (hpositional : ∀ v ∈ positional, (shifting t).AdmitsValue v)
    (hnamed : ∀ entry ∈ named, (shifting t).AdmitsValue entry.2)
    (hbind : (Function.real f).bind positional named = .ok slots)
    (hsound : slots.any Value.isSound) (body : Node → ScopeId → Eval Value) (m : Machine) :
    ∃ m₁, invoke body (.real f) (positional.map (shifting t).value)
      (named.map fun entry => (entry.1, (shifting t).value entry.2)) m =
        (.ok (.sound ((promoted f positional named).shift t)), m₁) ∧ m₁.store = m.store := by
  obtain ⟨-, hmoved⟩ := Translation.bind_value (by simp) (fun _ _ => rfl) hpositional hnamed hbind
  have hsound' : (slots.map (shifting t).value).any Value.isSound := by
    simpa only [any_map, Function.comp_def, isSound_shifted] using hsound
  rw [invoke_promoted hmoved hsound', promoted_shifted]
  exact ⟨_, rfl, rfl⟩

/-- Operators and calls on moved sounds build the moved sounds. -/
lemma shifting_lawful (t : Float) : (shifting t).Lawful where
  argument _ _ := rfl
  plus _ := rfl
  minus _ := ⟨trivial, by simp only [shifting, Sound.shift]; rfl⟩
  slash _ := ⟨trivial, by simp only [shifting, Sound.shift]; rfl⟩
  binary op {v w l r} hl hr hsound := by
    refine ⟨trivial, ?_⟩
    have hsound' : ((shifting t).value v).isSound ∨ ((shifting t).value w).isSound := by
      rwa [isSound_shifted, isSound_shifted]
    rw [Translation.applyArithmetic_of_operands op (operand_shift hl) (operand_shift hr) hsound']
    simp only [shifting, Sound.shift]
  promoted hpositional hnamed hbind hsound :=
    ⟨trivial, invoke_shifted hpositional hnamed hbind hsound⟩

/-- A value that may be moved: one that programs compute, with an expression as the body of a
function. -/
def IsMovable : Value → Prop
  | .function (.user f) => f.body.IsExpression
  | .whole _ | .nothing | .list _ => False
  | _ => True

/-- The value, moved by `t` seconds if it is a sound.  A function stays as it is, and sees the moved
values in its scope. -/
def shiftedValue (t : Float) : Value → Value
  | .sound s => .sound (s.shift t)
  | v => v

lemma isMovable_iff {v : Value} : IsMovable v ↔ (shifting t).AdmitsValue v := by
  cases v with
  | function f => cases f <;> rfl
  | _ => rfl

lemma value_eq_shiftedValue : (shifting t).value = shiftedValue t := by
  funext v
  cases v <;> rfl

/-- **Moving in time commutes with evaluation.**  If an expression has a value and no sound is built
or moved by a constructor on the way, then for any `t` the same expression, evaluated where every
sound is moved by `t` seconds, has the value that is moved by `t` seconds; and every scope is left
with the moved values, those of the functions too. -/
theorem evalWithin_shifted {m m₁ : Machine} (hvalues : m.store.All IsMovable) {e : Node}
    (he : e.IsExpression) {depth : ℕ} {scope : ScopeId} {v : Value}
    (heval : evalWithin depth e scope m = (.ok v, m₁)) (hnothing : BuildsNothing m m₁)
    (t : Float) :
    ∃ m₁', evalWithin depth e scope { m with store := m.store.map (shiftedValue t) } =
        (.ok (shiftedValue t v), m₁') ∧ m₁'.store = m₁.store.map (shiftedValue t) := by
  have hrelates : (shifting t).Relates m { m with store := m.store.map (shiftedValue t) } :=
    ⟨fun scope hscope entry hentry => isMovable_iff.1 (hvalues scope hscope entry hentry),
      by rw [value_eq_shiftedValue]⟩
  obtain ⟨w, m₁', hrun, ⟨-, rfl⟩, -, hstore⟩ := Translation.evalWithin_translates
    (shifting_lawful t) depth he scope m _ _ _ hrelates heval hnothing
  rw [value_eq_shiftedValue] at hrun hstore
  exact ⟨m₁', hrun, hstore⟩

/-- A tone and a line, and two functions: one raises its argument to the line, the other one is given
a function and an argument for it. -/
def tonedScope : List (String × Value) :=
  [("tone", .sound (.sine 440.0 0.0)), ("line", .sound (.linear 2.0 1.0)),
    ("max", .function (.real .max)),
    ("raise", .function (.user ⟨"raise", ["x"],
      .invocation none (.identifier none "max")
        [.identifier none "x", .keyword none "b" (.identifier none "line")], 0, 0⟩)),
    ("give", .function (.user ⟨"give", ["f", "x"],
      .invocation none (.identifier none "f") [.identifier none "x"], 0, 1⟩))]

/-- The text `-give(raise, tone) + 1`. -/
def tonedExpression : Node :=
  .binary none (.arithmetic .add)
    (.unary none .minus (.invocation none (.identifier none "give")
      [.identifier none "raise", .identifier none "tone"]))
    (.number none 1.0)

/-- The sound of that text. -/
def tonedSum : Sound Float :=
  .binary .add
    (.minus (.apply (.real .max)
      [.sound none (.sine 440.0 0.0), .sound (some "b") (.linear 2.0 1.0)]))
    (.const 1.0)

theorem evalWithin_shifted_toned :
    ∃ m₁, evalWithin 10 tonedExpression 0 (Session.machineOf tonedScope) =
        (.ok (.sound tonedSum), m₁) ∧
      ∃ m₁', evalWithin 10 tonedExpression 0
          { Session.machineOf tonedScope with
            store := (Session.machineOf tonedScope).store.map (shiftedValue 0.5) } =
          (.ok (.sound (tonedSum.shift 0.5)), m₁') ∧
        m₁'.store = m₁.store.map (shiftedValue 0.5) := by
  have hvalues : (Session.machineOf tonedScope).store.All IsMovable := by
    intro scope hscope
    obtain rfl : scope = ⟨none, tonedScope⟩ := by simpa [Session.machineOf] using hscope
    simp [tonedScope, IsMovable, Node.IsExpression, Node.AreArguments]
  have he : tonedExpression.IsExpression := by
    simp [tonedExpression, Node.IsExpression, Node.AreArguments, BinaryOperator.IsWritten,
      UnaryOperator.IsWritten]
  have hnothing : BuildsNothing (Session.machineOf tonedScope)
      (evalWithin 10 tonedExpression 0 (Session.machineOf tonedScope)).2 := by
    intro steps hsteps
    have hsteps' : steps = [.promoted "max" ["Sound", "Sound"], .called .user "raise" 1,
        .called .user "give" 2] :=
      (List.append_nil steps).symm.trans hsteps.symm
    simp [hsteps', IsConstruction]
  have heval : evalWithin 10 tonedExpression 0 (Session.machineOf tonedScope) =
      (.ok (.sound tonedSum),
        (evalWithin 10 tonedExpression 0 (Session.machineOf tonedScope)).2) := rfl
  exact ⟨_, heval, evalWithin_shifted hvalues he heval hnothing 0.5⟩

end Evaluation

end SignalCalc
