import SignalCalc.Proofs.Printing.Evaluation
import SignalCalc.Value.Text

/-!
# Printed sounds evaluate back

The text that is printed for a sound is read as one expression, and a new session evaluates it to
the same sound again (`evaluate_printed`).  This holds for the sounds that a program can build and
print without loss: those without decays, with finite numbers, with seeds that have a float of their
own, and with nothing in them that would fold to a real.
-/

namespace SignalCalc.Signal

open SignalCalc.Builtin
open SignalCalc.Evaluation
open SignalCalc.Number
open SignalCalc.Syntax

variable {s : Sound Float}

/-! ## The shape of what is read -/

lemma signedNode_isExpression (negative : Bool) (size : Float) :
    (signedNode negative size).IsExpression := by
  cases negative with
  | false => trivial
  | true => exact ⟨trivial, trivial⟩

lemma wholeNumberNode_isExpression (n : Int) : (wholeNumberNode n).IsExpression := by
  rw [wholeNumberNode]
  split <;> exact signedNode_isExpression _ _

lemma areArguments_labelled {entries : List (Option String × Node)}
    (h : ∀ entry ∈ entries, entry.2.IsExpression) :
    Node.AreArguments (entries.map fun entry => labelledNode entry.1 entry.2) := by
  induction entries with
  | nil => trivial
  | cons entry rest ih =>
    obtain ⟨hentry, hrest⟩ := List.forall_mem_cons.1 h
    obtain ⟨label, e⟩ := entry
    cases label with
    | some name => exact ⟨hentry, ih hrest⟩
    | none =>
      refine (Node.areArguments_cons fun loc name value heq => ?_).2 ⟨hentry, ih hrest⟩
      have hkeyword : e = .keyword loc name value := heq
      rw [hkeyword] at hentry
      exact hentry

lemma build_isExpression (c : Constructor) {args : List Node} (h : ∀ arg ∈ args, arg.IsExpression) :
    (callNode c.name args).IsExpression := by
  have harguments := areArguments_labelled
    (List.forall_mem_map.2 h : ∀ entry ∈ args.map (Prod.mk none), entry.2.IsExpression)
  rw [List.map_map] at harguments
  have hargs : args.map ((fun entry => labelledNode entry.1 entry.2) ∘ Prod.mk none) = args :=
    List.map_id args
  rw [hargs] at harguments
  exact ⟨trivial, harguments⟩

/-- A sound is built by an expression of program text. -/
lemma Sound.expression_isExpression (h : s.Everywhere Sound.IsPrintable) :
    s.expression.IsExpression := by
  have hreal : ∀ x, (realNode x).IsExpression := fun x => signedNode_isExpression _ _
  induction s with
  | const v => exact signedNode_isExpression _ _
  | linear slope intercept =>
    exact build_isExpression .linear (List.forall_mem_map.2 fun x _ => hreal x :
      ∀ arg ∈ [slope, intercept].map realNode, arg.IsExpression)
  | sine frequency phase =>
    rw [Sound.expression]
    split
    · exact build_isExpression .sine (List.forall_mem_singleton.2 (hreal frequency))
    · exact build_isExpression .sine (List.forall_mem_map.2 fun x _ => hreal x :
        ∀ arg ∈ [frequency, phase].map realNode, arg.IsExpression)
  | decay coefficient intercept => exact (everywhere_decay.1 h).2.elim
  | noise seed =>
    cases seed with
    | none => exact build_isExpression .rand (List.forall_mem_nil _)
    | some seed =>
      exact build_isExpression .noise (List.forall_mem_singleton.2 (signedNode_isExpression _ _))
  | minus s ih => exact ⟨trivial, ih (everywhere_minus.1 h).2⟩
  | reciprocal s ih => exact ⟨trivial, ih (everywhere_reciprocal.1 h).2⟩
  | binary op left right ihl ihr =>
    obtain ⟨-, hl, hr⟩ := everywhere_binary.1 h
    exact ⟨trivial, ihl hl, ihr hr⟩
  | apply f args ih =>
    obtain ⟨⟨-, f, rfl, -⟩, hargs⟩ := everywhere_apply.1 h
    have hentries : ∀ entry ∈ args.map fun arg => (arg.label, arg.expression),
        entry.2.IsExpression := by
      refine List.forall_mem_map.2 fun arg harg => ?_
      cases arg with
      | real label x => exact hreal x
      | whole label n => exact wholeNumberNode_isExpression n
      | sound label s => exact ih label s harg (hargs label s harg)
    have harguments := areArguments_labelled hentries
    rw [List.map_map] at harguments
    rw [Sound.expression, argumentExpressions_eq]
    exact ⟨trivial, harguments⟩

/-! ## The round trip -/

/-- **Printed sounds evaluate back to the same sound.** Let a sound have no decays, finite numbers
whose digits read back, seeds that have a float of their own, and real functions with every
parameter given once; and let nothing in it fold to a real.  Then its text is read as one
expression, and in a new session, with enough depth for that expression, the value of the expression
equals the sound. -/
theorem evaluate_printed (h : s.Everywhere Sound.IsPrintable)
    (hread : s.Everywhere Sound.DigitsReadBack) (hfolds : s.FoldsNothing) :
    ∃ text node, (Value.sound s).text = .ok text ∧ parse text = .ok [node] ∧ node.IsExpression ∧
      ∀ withPrelude depth, node.height ≤ depth →
        ∃ v m, evalWithin depth node Store.root (Session.start withPrelude).machine = (.ok v, m) ∧
          v.same (.sound s) = true := by
  obtain ⟨node, hparse, hbare⟩ := Sound.parse_text h hread
  obtain ⟨s', hrebuilt, hsame⟩ := Sound.rebuilt_same h hfolds.parts hfolds.root
  have hexpression : node.IsExpression := by
    rw [← Node.isExpression_bare, hbare, Node.isExpression_bare]
    exact Sound.expression_isExpression h
  refine ⟨s.text, node, rfl, hparse, hexpression, fun withPrelude depth hdepth => ?_⟩
  have hgives := Sound.expression_gives (Session.start_knowsBuiltins withPrelude) h
  rw [hrebuilt] at hgives
  obtain ⟨m, hrun, -⟩ := hgives node hbare depth hdepth _ rfl
  exact ⟨_, m, hrun, hsame⟩

/-- The sound `Sin(440) / /(max(b=Linear(2, -1), a=5) - Noise(-7) ^ (-0.5))`. -/
def dividedSine : Sound Float :=
  .binary .div (.sine 440.0 0.0)
    (.reciprocal (.binary .sub
      (.apply (.real .max) [.sound (some "b") (.linear 2.0 (-1.0)), .whole (some "a") 5])
      (.binary .pow (.noise (some (-7))) (.const (-0.5)))))

theorem evaluate_printed_dividedSine :
    ∃ text node, (Value.sound dividedSine).text = .ok text ∧ parse text = .ok [node] ∧
      node.IsExpression ∧ ∀ withPrelude depth, node.height ≤ depth →
        ∃ v m, evalWithin depth node Store.root (Session.start withPrelude).machine = (.ok v, m) ∧
          v.same (.sound dividedSine) = true := by
  have hfinite : ∀ x ∈ ([440.0, 0.0, 2.0, -1.0, -0.5] : List Float), x.isFinite = true := by
    decide +kernel
  have hreads : ∀ x ∈ ([440.0, 0.0, 2.0, -1.0, -0.5] : List Float), ReadsBack x := by
    refine List.forall_mem_cons.2 ⟨⟨⟨440, 0⟩, ?_, ?_⟩, List.forall_mem_cons.2 ⟨⟨⟨0, 0⟩, ?_, ?_⟩,
      List.forall_mem_cons.2 ⟨⟨⟨2, 0⟩, ?_, ?_⟩, List.forall_mem_cons.2 ⟨⟨⟨1, 0⟩, ?_, ?_⟩,
      List.forall_mem_singleton.2 ⟨⟨5, -1⟩, ?_, ?_⟩⟩⟩⟩⟩
    all_goals decide +kernel
  have hexact : IsExact 5 ∧ IsExact (-7) := by
    unfold IsExact
    decide +kernel
  have happlication : IsApplication .max
      [.sound (some "b") (.linear 2.0 (-1.0)), .whole (some "a") 5] :=
    ⟨⟨0, ["b", "a"], Nat.zero_le _, .swap "a" "b" [], rfl⟩,
      List.forall_mem_cons.2 ⟨trivial, List.forall_mem_singleton.2 hexact.1⟩⟩
  have hprintable : dividedSine.Everywhere Sound.IsPrintable := by
    simpa [dividedSine, Sound.IsPrintable, Sound.parameters, happlication, hexact.2, and_assoc]
      using hfinite
  have hdigits : dividedSine.Everywhere Sound.DigitsReadBack := by
    simpa [dividedSine, Sound.DigitsReadBack, Sound.parameters, Argument.ReadsBack, and_assoc]
      using hreads
  have hfolds : dividedSine.FoldsNothing := by
    constructor
    · simp [dividedSine, Sound.IsConstantOnly]
    · simp [dividedSine, Sound.KeepsParts, Sound.StandsBeside, Sound.IsConstantOnly]
  exact evaluate_printed hprintable hdigits hfolds

end SignalCalc.Signal
