import SignalCalc.Proofs.Evaluation.Parallel
import SignalCalc.Proofs.Session.Results

/-!
# Layout never changes behaviour

The same program may be written down in many ways, with other line breaks, blanks and comments.  Two such
texts are read as trees that are equal but for their places.  Places are reported with errors, and
functions carry them from one text to later ones, but nothing is computed from them.

So sessions that run texts with pairwise equal programs go side by side (`handleAll_corresponds`): every
statement of one ends like the statement of the other, with a value that is equal up to places or with an
error of the same name, the same message and the same pending calls.  The sessions have to start from
states that are the same up to places.  For sessions that source texts alone have brought about this means
that the same names have the same values, in whatever order they were bound (`Reached.corresponds_iff`).
-/

namespace SignalCalc

open SignalCalc.Call
open SignalCalc.Syntax
open SignalCalc.Evaluation
open List

variable {ρ : Matching}

/-! ## What counts as the same -/

/-- Equal values.  Functions that programs defined are equal if they have the same name, the same
parameters and the same body up to places. -/
abbrev Value.Corresponds : Value → Value → Prop := Value.Matches fun _ _ => True

mutual
lemma Value.Corresponds.refl : ∀ v : Value, v.Corresponds v
  | .function (.real f) => .function (.real f)
  | .function (.constructor c) => .function (.constructor c)
  | .function (.user _) => .function (.user rfl rfl rfl trivial)
  | .list vs => .list (Value.Corresponds.reflAll vs)
  | .real _ | .whole _ | .bool _ | .string _ | .sound _ | .nothing => .plain trivial

lemma Value.Corresponds.reflAll : ∀ vs : List Value, Forall₂ Value.Corresponds vs vs
  | [] => .nil
  | v :: rest => .cons (Value.Corresponds.refl v) (Value.Corresponds.reflAll rest)
end

/-- The first scope stands for the first scope, and no other scope counts. -/
def Matching.ofRoots : Matching := fun id id' => id = Store.root ∧ id' = Store.root

/-- Functions of a program see the first scope. -/
lemma Value.Corresponds.ofRoots {v w : Value} (h : v.Corresponds w) (hv : v.IsComputed)
    (hw : w.IsComputed) : v.Matches .ofRoots w := by
  cases h with
  | plain h => exact .plain h
  | list h => exact hv.elim
  | function h =>
    cases h with
    | real f => exact .function (.real f)
    | constructor c => exact .function (.constructor c)
    | user hname hparams hbody _ => exact .function (.user hname hparams hbody ⟨hv.2, hw.2⟩)

/-- A call of the same function with equal arguments. -/
abbrev Frame.Corresponds : Frame → Frame → Prop := Frame.Matches fun _ _ => True

/-- Equal values, or failures with the same name, the same message and the same calls pending, at nodes
that are equal up to places. -/
inductive Result.Corresponds : Result → Result → Prop where
  | value {v w : Value} : v.Corresponds w → Corresponds (.value v) (.value w)
  | failed {cause cause' : Cause} {node node' : Node} {frames frames' : List Frame}
    (title : cause.title = cause'.title) (message : cause.message = cause'.message)
    (place : node.bare = node'.bare) (calls : Forall₂ Frame.Corresponds frames frames')
    (trace : Report.stackText frames = Report.stackText frames') :
    Corresponds (.failed cause node frames) (.failed cause' node' frames')

/-- The two texts are programs, and these are equal up to places. -/
def Syntax.ReadAlike (source source' : String) : Prop :=
  ∃ statements statements', parse source = .ok statements ∧ parse source' = .ok statements' ∧
    Node.sameAll statements statements' = true

/-- Whether both texts are programs, and these are equal up to places. -/
def Syntax.readAlike (source source' : String) : Bool :=
  match parse source, parse source' with
  | .ok statements, .ok statements' => Node.sameAll statements statements'
  | _, _ => false

lemma Syntax.readAlike_iff (source source' : String) :
    readAlike source source' = true ↔ ReadAlike source source' := by
  unfold readAlike ReadAlike
  cases parse source with
  | error => simp
  | ok statements =>
    cases parse source' with
    | error => simp
    | ok statements' => simp

instance (source source' : String) : Decidable (ReadAlike source source') :=
  decidable_of_iff _ (readAlike_iff source source')

namespace Session

/-- The same names have equal values. -/
def SameValues (s s' : Session) : Prop :=
  ∀ name, Option.Rel Value.Corresponds (s.lookup? name) (s'.lookup? name)

/-- The same state up to places and the order of the names: the two stores match. -/
def Corresponds (s s' : Session) : Prop :=
  ∃ ρ : Matching, s.machine.store.Matches ρ s'.machine.store

/-- Runs source texts one after the other. -/
def handleAll (s : Session) : List String → List (List Result) × Session
  | [] => ([], s)
  | source :: rest =>
    ((s.handle source).1 :: ((s.handle source).2.handleAll rest).1,
      ((s.handle source).2.handleAll rest).2)

end Session

/-! ## Reports -/

lemma frameText_eq {frame frame' : Frame} (h : frame.Matches ρ frame') :
    Report.frameText frame = Report.frameText frame' := by
  unfold Report.frameText
  rw [mapM_eq_of_forall₂ (h.args.imp fun _ _ hv => hv.argumentText_eq), h.name]

/-- Calls that match are told of in the same words. -/
lemma stackText_eq {frames frames' : List Frame} (h : Forall₂ (Frame.Matches ρ) frames frames') :
    Report.stackText frames = Report.stackText frames' := by
  have hreverse := forall₂_reverse_iff.2 h
  unfold Report.stackText
  rw [mapM_eq_of_forall₂ (hreverse.imp fun _ _ hframe => frameText_eq hframe)]

namespace Session

variable {s s' : Session} {m m' : Machine} {statement statement' : Node}
  {statements statements' : List Node} {source source' : String}

/-! ## Statements -/

/-- Statements that are equal up to places end alike. -/
lemma runStatement_parallel (h : statement.bare = statement'.bare)
    (hm : m.store.Matches ρ m'.store) :
    ∃ σ, ρ ≤ σ ∧ EndsAlike Value.Matches σ (runStatement m statement) (runStatement m' statement') ∧
      (m.store.SameOrder m'.store →
        (runStatement m statement).2.store.SameOrder (runStatement m' statement').2.store) :=
  evalWithin_parallel depthLimit h hm.root { m with frames := [] } { m' with frames := [] } ⟨hm, .nil⟩

lemma resultOf_corresponds (h : statement.bare = statement'.bare)
    {run run' : Except Failure Value × Machine} (hrun : EndsAlike Value.Matches ρ run run') :
    (resultOf statement run.2.frames run.1).Corresponds (resultOf statement' run'.2.frames run'.1) := by
  obtain ⟨r, m⟩ := run
  obtain ⟨r', m'⟩ := run'
  obtain ⟨houtcome, hmachine⟩ := hrun
  cases r with
  | ok v =>
    cases r' with
    | ok w => exact .value (houtcome.mono fun _ _ _ => trivial)
    | error => exact houtcome.elim
  | error failure =>
    cases r' with
    | ok => exact houtcome.elim
    | error failure' =>
      obtain ⟨hcause, hnode⟩ := houtcome
      refine .failed hcause.title hcause.message ?_
        (hmachine.frames.imp fun _ _ hframe => hframe.mono fun _ _ _ => trivial)
        (stackText_eq hmachine.frames)
      have hnodes : failure.node.map Node.bare = failure'.node.map Node.bare := hnode
      generalize failure.node = n, failure'.node = n' at hnodes ⊢
      cases n <;> cases n' <;> simp_all

/-- Programs that are equal up to places run side by side. -/
theorem runAll_corresponds (h : Node.bareAll statements = Node.bareAll statements')
    (hm : m.store.Matches ρ m'.store) :
    Forall₂ Result.Corresponds (runAll m statements).1 (runAll m' statements').1 ∧
      (∃ σ, (runAll m statements).2.store.Matches σ (runAll m' statements').2.store) ∧
      (m.store.SameOrder m'.store →
        (runAll m statements).2.store.SameOrder (runAll m' statements').2.store) := by
  induction statements generalizing ρ m m' statements' with
  | nil =>
    cases statements' with
    | nil => exact ⟨.nil, ⟨ρ, hm⟩, id⟩
    | cons => cases h
  | cons statement rest ih =>
    cases statements' with
    | nil => cases h
    | cons statement' rest' =>
      rw [Node.bareAll, Node.bareAll, cons.injEq] at h
      obtain ⟨σ, -, hrun, horder⟩ := runStatement_parallel h.1 hm
      obtain ⟨hresults, hlast, horderRest⟩ := ih h.2 hrun.machine.store
      exact ⟨.cons (resultOf_corresponds h.1 hrun) hresults, hlast, horderRest ∘ horder⟩

/-! ## Source texts -/

lemma handle_corresponds (hs : s.Corresponds s') (h : ReadAlike source source') :
    Forall₂ Result.Corresponds (s.handle source).1 (s'.handle source').1 ∧
      (s.handle source).2.Corresponds (s'.handle source').2 ∧
      (s.names = s'.names → (s.handle source).2.names = (s'.handle source').2.names) := by
  obtain ⟨ρ, hstore⟩ := hs
  obtain ⟨statements, statements', hparse, hparse', hsame⟩ := h
  have hopened : s.opened.store.Matches ρ s'.opened.store := hstore
  rw [handle_of_ok hparse, handle_of_ok hparse']
  exact runAll_corresponds (bareAll_eq_of_parse hparse hparse' hsame) hopened

lemma Corresponds.sameValues (h : s.Corresponds s') : s.SameValues s' := by
  obtain ⟨ρ, hstore⟩ := h
  exact fun name => Value.Matches.monoOption (fun _ _ _ => trivial) (hstore.lookup? hstore.root name)

/-- Sessions that source texts alone have brought about are in the same state if the same names have the
same values. -/
lemma Reached.corresponds (hs : s.Reached) (hs' : s'.Reached) (h : s.SameValues s') :
    s.Corresponds s' := by
  obtain ⟨bindings, hroot⟩ := hs.isOrderly.root
  obtain ⟨bindings', hroot'⟩ := hs'.isOrderly.root
  have hlookup (name : String) :
      Option.Rel (Value.Matches .ofRoots) (s.lookup? name) (s'.lookup? name) := by
    have hname := h name
    generalize hv : s.lookup? name = v?, hw : s'.lookup? name = w? at hname ⊢
    cases hname with
    | none => exact .none
    | some hvalues =>
      exact .some (hvalues.ofRoots (Store.of_lookup? hs.isOrderly.values hv)
        (Store.of_lookup? hs'.isOrderly.values hw))
  have hcontent : Scope.Matches .ofRoots ⟨none, bindings⟩ ⟨none, bindings'⟩ := by
    refine ⟨.none, fun name => ?_⟩
    rw [← Store.lookup?_root hroot, ← Store.lookup?_root hroot']
    exact hlookup name
  refine ⟨.ofRoots, ⟨rfl, rfl⟩, ?_, ?_⟩
  · rintro i j i' j' ⟨rfl, rfl⟩ ⟨rfl, rfl⟩
    exact iff_of_true rfl rfl
  · rintro id id' ⟨rfl, rfl⟩
    exact ⟨_, _, hroot, hroot', hcontent, nofun, nofun⟩

/-- For sessions that source texts alone have brought about, the same state means the same names with the
same values. -/
theorem Reached.corresponds_iff (hs : s.Reached) (hs' : s'.Reached) :
    s.Corresponds s' ↔ s.SameValues s' :=
  ⟨fun h => h.sameValues, hs.corresponds hs'⟩

lemma Reached.corresponds_self (hs : s.Reached) : s.Corresponds s := by
  refine hs.corresponds hs fun name => ?_
  cases s.lookup? name with
  | none => exact .none
  | some v => exact .some (.refl v)

/-- **Layout never changes behaviour.**  If two sessions are in the same state and run texts with pairwise
equal programs, then every statement of one ends like the statement of the other, and the sessions are in
the same state again: the same names have equal values, in the same order if they were in the same order
at first. -/
theorem handleAll_corresponds (hs : s.Corresponds s') {sources sources' : List String}
    (h : Forall₂ ReadAlike sources sources') :
    Forall₂ (Forall₂ Result.Corresponds) (s.handleAll sources).1 (s'.handleAll sources').1 ∧
      (s.handleAll sources).2.SameValues (s'.handleAll sources').2 ∧
      (s.names = s'.names →
        (s.handleAll sources).2.names = (s'.handleAll sources').2.names) ∧
      (s.handleAll sources).2.Corresponds (s'.handleAll sources').2 := by
  induction h generalizing s s' with
  | nil => exact ⟨.nil, hs.sameValues, id, hs⟩
  | cons hfirst _ ih =>
    obtain ⟨hresults, hafter, horder⟩ := handle_corresponds hs hfirst
    obtain ⟨hrest, hvalues, horderRest, hlast⟩ := ih hafter
    exact ⟨.cons hresults hrest, hvalues, horderRest ∘ horder, hlast⟩

/-- A function whose calls fail, and a call of it from another text. -/
def addingTrue : List String := ["f(x) = x + true", "f(1); f"]

/-- The same program with other line breaks, blanks and comments. -/
def addingTrueSpread : List String := ["// f fails\nf( x )  =  x+true ;", "\n\nf(1 /* one */)\nf"]

theorem handleAll_corresponds_addingTrue :
    (start false).Corresponds (start false) ∧ Forall₂ ReadAlike addingTrue addingTrueSpread ∧
      Forall₂ (Forall₂ Result.Corresponds) ((start false).handleAll addingTrue).1
        ((start false).handleAll addingTrueSpread).1 := by
  have hs : (start false).Corresponds (start false) := (Reached.start false).corresponds_self
  have hread : Forall₂ ReadAlike addingTrue addingTrueSpread :=
    .cons (by decide +kernel) (.cons (by decide +kernel) .nil)
  exact ⟨hs, hread, (handleAll_corresponds hs hread).1⟩

end Session

end SignalCalc
