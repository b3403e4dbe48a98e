import SignalCalc.Proofs.Evaluation.UnderWay

/-!
# The calls that are pending

A machine keeps a frame for every call that has not returned.  What is evaluated in front of a part of a
node returns from all its calls (`Hole.IsNext.frames_eq`), and so does what a node has evaluated when it
fails by its own rule (`FailsItself.frames_eq`).  Only a call that enters the body of a function leaves a
frame.  So a success leaves the pending calls as they were, and an error of the program leaves the calls
that it came up in behind them (`run_frames`).
-/

namespace SignalCalc.Evaluation

open SignalCalc.Syntax

variable {depth : ℕ} {scope : ScopeId} {m m' : Machine}

/-- The frame of a call with its slots. -/
def frameOf (call : UserFunction × List Value) : Frame := ⟨call.1.name, call.2⟩

/-! ## What returns from its calls -/

lemma evalArguments_balanced (function : String) (args : List Node) (positional : List Value)
    (named : List (String × Value)) :
    Balanced (evalArguments (fun arg => evalWithin depth arg scope) function args positional named) :=
  @Congruent.evalArguments _ Balanced.congruent _ (fun arg => evalWithin depth arg scope)
    (fun arg => evalWithin_balanced depth arg scope) function args positional named

lemma evalStatements_balanced (statements : List Node) (last : Value) :
    Balanced (evalStatements (fun e => evalWithin depth e scope) statements last) := by
  induction statements generalizing last with
  | nil => exact Balanced.congruent.pure last
  | cons statement rest ih =>
    intro m v m₂ hrun
    obtain ⟨w, m₁, hstatement, hrest⟩ := run_bind_eq_ok.1 hrun
    exact (ih w m₁ v m₂ hrest).trans (evalWithin_balanced depth statement scope m w m₁ hstatement)

/-- The parts in front of one have returned from their calls when its turn comes. -/
lemma Hole.IsNext.frames_eq {hole : Hole} (h : hole.IsNext depth scope m m') :
    m'.frames = m.frames := by
  cases h with
  | operand | left | callee | assigned => rfl
  | right hleft _ => exact evalWithin_balanced _ _ _ _ _ _ hleft
  | argument hcallee hbefore _ =>
    exact (evalArguments_balanced _ _ _ _ _ _ _ hbefore).trans
      (evalWithin_balanced _ _ _ _ _ _ hcallee)
  | statement hbefore => exact evalStatements_balanced _ _ _ _ _ hbefore

/-- The body of a function is evaluated with the frame of the call in front. -/
lemma Task.Enters.frames_eq {t t' : Task} {call : UserFunction × List Value} (h : t.Enters call t') :
    t'.machine.frames = frameOf call :: t.machine.frames := by
  cases h with
  | call hcallee hargs _ =>
    exact congrArg _ ((evalArguments_balanced _ _ _ _ _ _ _ hargs).trans
      (evalWithin_balanced _ _ _ _ _ _ hcallee))

/-- A task under way has the frames of the calls that it is in. -/
lemma UnderWay.frames_eq {t u : Task} {calls : List (UserFunction × List Value)}
    (h : UnderWay t calls u) :
    u.machine.frames.reverse = t.machine.frames.reverse ++ calls.map frameOf := by
  induction h with
  | here t => exact (List.append_nil _).symm
  | part hnext _ _ ih => rw [ih, hnext.frames_eq]
  | body henters _ ih => rw [ih, henters.frames_eq, List.reverse_cons, List.append_assoc]; rfl

/-- What a node has evaluated when it fails by its own rule has returned from its calls. -/
lemma FailsItself.frames_eq {t : Task} {cause : Cause} (h : FailsItself t cause m) :
    m.frames = t.machine.frames := by
  cases h with
  | undefined | duplicateParameter | empty => rfl
  | unary he _ => exact evalWithin_balanced _ _ _ _ _ _ he
  | binary _ hleft hright _ | logicalRight _ hleft hright _ =>
    exact (evalWithin_balanced _ _ _ _ _ _ hright).trans (evalWithin_balanced _ _ _ _ _ _ hleft)
  | logicalLeft _ hleft _ => exact evalWithin_balanced _ _ _ _ _ _ hleft
  | notAFunction hcallee _ => exact evalWithin_balanced _ _ _ _ _ _ hcallee
  | secondValue hcallee hargs _ | doesNotFit hcallee hargs _ =>
    exact (evalArguments_balanced _ _ _ _ _ _ _ hargs).trans
      (evalWithin_balanced _ _ _ _ _ _ hcallee)

/-! ## Frames as a trace -/

/-- **The pending calls are the trace of a failure.**  An evaluation that has a value has returned from
all its calls.  One that ends with an error of the program fails in a node by its own rule, and behind
the calls that were pending before, those are pending in whose bodies this node was evaluated, with the
slots they were entered with. -/
theorem run_frames (t : Task) :
    (∀ v m, t.run = (.ok v, m) → m.frames = t.machine.frames) ∧
      ∀ failure m, t.run = (.error failure, m) → failure.cause.isLanguageError = true →
        ∃ calls u, UnderWay t calls u ∧ FailsItself u failure.cause m ∧
          m.frames.reverse = t.machine.frames.reverse ++ calls.map frameOf := by
  refine ⟨fun v m => evalWithin_balanced t.depth t.node t.scope t.machine v m,
    fun failure m hrun hlanguage => ?_⟩
  obtain ⟨calls, u, hu, hfails, -⟩ := failsInside_of_evalWithin hrun hlanguage
  exact ⟨calls, u, hu, hfails, by rw [hfails.frames_eq, hu.frames_eq]⟩

/-- The scope of `id(x) = x`, `g(y) = y + z` and `f(x) = 1 + g(id(x))`. -/
def chain : Scope where
  parent := none
  bindings := [("id", .function (.user ⟨"id", ["x"], .identifier none "x", 0, 0⟩)),
    ("g", .function (.user ⟨"g", ["y"],
      .binary none (.arithmetic .add) (.identifier none "y") (.identifier none "z"), 0, 1⟩)),
    ("f", .function (.user ⟨"f", ["x"],
      .binary none (.arithmetic .add) (.number none 1) (.invocation none (.identifier none "g")
        [.invocation none (.identifier none "id") [.identifier none "x"]]), 0, 2⟩))]

/-- The evaluation of `f("a")` inside of another call. -/
def chained : Task where
  depth := depthLimit
  node := .invocation none (.identifier none "f") [.string none "a"]
  scope := Store.root
  machine := ⟨⟨#[chain]⟩, [⟨"outer", []⟩], 3, []⟩

/-- The calls of `f` and `g` are pending behind the one that was, and `id` has returned. -/
theorem run_frames_chained : ∃ failure m calls u, chained.run = (.error failure, m) ∧
    UnderWay chained calls u ∧ FailsItself u failure.cause m ∧
    m.frames.reverse = chained.machine.frames.reverse ++ calls.map frameOf ∧
    calls.map (fun call => call.1.name) = ["f", "g"] := by
  have hends : isProgramError chained.run.1 = true := by decide +kernel
  have hframes : chained.run.2.frames.map Frame.name = ["g", "f", "outer"] := by decide +kernel
  obtain ⟨failure, m, hrun, hlanguage⟩ := exists_of_isProgramError hends
  rw [hrun] at hframes
  obtain ⟨calls, u, hu, hfails, htrace⟩ := (run_frames chained).2 failure m hrun hlanguage
  refine ⟨failure, m, calls, u, hrun, hu, hfails, htrace, ?_⟩
  have hnames := congrArg (List.map Frame.name) htrace
  rw [List.map_reverse, hframes, List.map_append, List.map_map] at hnames
  exact (List.cons.inj hnames).2.symm

end SignalCalc.Evaluation
