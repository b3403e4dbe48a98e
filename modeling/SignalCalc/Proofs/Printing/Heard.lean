import SignalCalc.Proofs.Printing.RoundTrip
import SignalCalc.Proofs.Signal.Started
import SignalCalc.Render.Samples

/-!
# Printing does not change what is heard

Where numbers fold, a printed sound does not come back as the same tree: a constant comes back as a
real, and operators and functions on reals compute at once.  But what they compute is what the
stream of the sound computes at every sample.  So the value of a printed sound, played as a sound,
has the samples of the sound (`evaluate_printed_heard`).

The induction goes over the sound that was printed, and its invariant is `SoundsLike`: the value of
the text of a part has, as a number or as a sound, the samples of that part.  The arguments of a
call are bound twice, as values when the text is evaluated and as arguments when the printed sound
is played; `standsFor_bind` says that both find the same samples in the same slots.
-/

namespace SignalCalc.Signal

open SignalCalc.Builtin
open SignalCalc.Call
open SignalCalc.Evaluation
open SignalCalc.Number
open SignalCalc.Syntax
open List

/-! ## Values that are played -/

/-- The sample `n` of a value that is played at a rate: a number is the same at every sample. -/
def playedAt (rate : Float) (n : ℕ) : Value → Float
  | .real x => x
  | .sound s => s.sampleAt rate n
  | _ => Scalar.undefined

/-- The value has samples of its own. -/
def IsSettledValue : Value → Prop
  | .real _ => True
  | .sound s => s.IsSettled
  | _ => False

/-- The value has samples of its own, and these are they. -/
structure SoundsLike (v : Value) (samples : Float → ℕ → Float) : Prop where
  settled : IsSettledValue v
  sample : ∀ rate n, playedAt rate n v = samples rate n

variable {v w : Value} {x y : Float → ℕ → Float} {s : Sound Float}

lemma soundsLike_real (x : Float) : SoundsLike (.real x) fun _ _ => x := ⟨trivial, fun _ _ => rfl⟩

lemma Sound.IsSettled.soundsLike (h : s.IsSettled) :
    SoundsLike (.sound s) fun rate n => s.sampleAt rate n :=
  ⟨h, fun _ _ => rfl⟩

lemma IsSettledValue.isSignal (h : IsSettledValue v) : IsSignal v := by
  cases v with
  | real | sound => trivial
  | _ => exact h.elim

lemma SoundsLike.negated (h : SoundsLike v x) :
    SoundsLike (negated v) fun rate n => Scalar.neg (x rate n) := by
  obtain ⟨hv, hx⟩ := h
  simp only [← hx]
  cases v with
  | real x => exact soundsLike_real _
  | sound s =>
    refine ⟨Sound.isSettled_minus.2 hv, fun rate n => ?_⟩
    simp only [Signal.negated, playedAt, Sound.sampleAt]
  | _ => exact hv.elim

lemma SoundsLike.inverted (h : SoundsLike v x) :
    SoundsLike (inverted v) fun rate n => Scalar.div Scalar.one (x rate n) := by
  obtain ⟨hv, hx⟩ := h
  simp only [← hx]
  cases v with
  | real x => exact soundsLike_real _
  | sound s =>
    refine ⟨Sound.isSettled_reciprocal.2 hv, fun rate n => ?_⟩
    simp only [Signal.inverted, playedAt, Sound.sampleAt]
  | _ => exact hv.elim

/-- A number beside a sound is at every sample what it is as a constant sound. -/
lemma SoundsLike.combined {op : Operator} (hv : SoundsLike v x) (hw : SoundsLike w y) :
    SoundsLike (combined op v w) fun rate n => op.apply (x rate n) (y rate n) := by
  obtain ⟨hv, hx⟩ := hv
  obtain ⟨hw, hy⟩ := hw
  simp only [← hx, ← hy]
  cases v with
  | real a =>
    cases w with
    | real b => exact soundsLike_real _
    | sound s =>
      refine ⟨Sound.isSettled_binary.2 ⟨Sound.isSettled_const, hw⟩, fun rate n => ?_⟩
      simp only [Signal.combined, playedAt, Sound.sampleAt]
    | _ => exact hw.elim
  | sound s =>
    cases w with
    | real b =>
      refine ⟨Sound.isSettled_binary.2 ⟨hv, Sound.isSettled_const⟩, fun rate n => ?_⟩
      simp only [Signal.combined, playedAt, Sound.sampleAt]
    | sound t =>
      refine ⟨Sound.isSettled_binary.2 ⟨hv, hw⟩, fun rate n => ?_⟩
      simp only [Signal.combined, playedAt, Sound.sampleAt]
    | _ => exact hw.elim
  | _ => exact hv.elim

/-! ## Calls -/

/-- The value has the samples of the argument. -/
def StandsFor (v : Value) (a : Argument Float) : Prop :=
  SoundsLike v (fun rate n => a.valueAt rate n) ∧ a.IsPrintable

lemma ofWhole?_eq {n : Int} (h : IsExact n) :
    Scalar.ofWhole? (α := Float) n = some (Float.ofInt n) := if_pos h.isFinite

lemma rereadWhole_eq {n : Int} (h : IsExact n) : rereadWhole n = Float.ofInt n := by
  rw [rereadWhole]
  split
  · rfl
  · rename_i hlarge
    have hzero := h.not_zero fun hn => hlarge (by rw [hn]; decide)
    have hunpack := unpack_reread h.isFinite hzero
    exact eq_of_unpack_eq (by rw [hunpack]; exact ne_notANumber h.isFinite) hunpack

/-- A parameter of a real function takes the value as it takes the argument. -/
lemma StandsFor.accept {a : Argument Float} (h : StandsFor v a) :
    Leads StandsFor (v.acceptReal .real) (a.accept true .real) := by
  rw [acceptReal_of_isSignal h.1.settled.isSignal]
  cases a with
  | real label x => exact .ok h
  | sound label s => exact .ok h
  | whole label n =>
    have hexact : IsExact n := h.2
    have hvalue : ∀ rate k, playedAt rate k v = Float.ofInt n := fun rate k => by
      rw [h.1.sample, Argument.valueAt, ofWhole?_eq hexact, Option.getD_some]
    simp only [Argument.accept, ofWhole?_eq hexact]
    exact .ok ⟨⟨h.1.settled, hvalue⟩, hexact.isFinite⟩

/-- The values of the arguments, each under the name of its argument. -/
def StandForAll (given : List Given) (args : List (Argument Float)) : Prop :=
  Forall₂ (fun g a => g.1 = a.label ∧ StandsFor g.2 a) given args

section

variable {f : RealFunction} {given : List Given} {args : List (Argument Float)}
  {slots : List Value}

lemma StandForAll.positional (h : StandForAll given args) :
    Forall₂ StandsFor (positionalValues given) (positionalArguments args) := by
  induction h with
  | nil => exact .nil
  | @cons g a _ _ hga _ ih =>
    obtain ⟨label, v⟩ := g
    obtain ⟨rfl, hv⟩ := hga
    cases hlabel : a.label with
    | none => simpa [positionalValues, positionalArguments, hlabel] using ⟨hv, ih⟩
    | some name => simpa [positionalValues, positionalArguments, hlabel] using ih

lemma StandForAll.named (h : StandForAll given args) :
    Forall₂ (NamedRelated StandsFor) (namedValues given) (namedArguments args) := by
  refine List.rel_filterMap (fun g a hga => ?_) h
  rw [hga.1]
  cases a.label with
  | none => exact .none
  | some name => exact .some ⟨rfl, hga.2⟩

/-- Binding the arguments of a sound finds in every slot the samples that are found there when their
values are bound. -/
lemma standsFor_bind (h : StandForAll given args)
    (hbind : (Function.real f).bind (positionalValues given) (namedValues given) = .ok slots) :
    ∃ bound, (Applied.real f).bindArguments args = .ok bound ∧ Forall₂ StandsFor slots bound := by
  have hnodup : ((namedArguments args).map Prod.fst).Nodup := by
    have hnames := map_eq_of_forall₂ (f := Prod.fst) (h.named.imp fun _ _ hxy => hxy.1.symm)
    rw [hnames]
    exact Signature.names_nodup_of_bind hbind
  unfold Applied.bindArguments
  rw [lastWins_eq_self hnodup]
  refine Signature.bind_of_related (R := StandsFor) ?_ ?_ h.positional h.named slots hbind
  · show Forall₂ _ (map _ f.parameterNames) (map _ f.parameterNames)
    rw [forall₂_map_left_iff, forall₂_map_right_iff, forall₂_same]
    exact fun _ _ => ⟨rfl, rfl, .none⟩
  · intro p hp v a hva
    obtain ⟨name, -, rfl⟩ := mem_map.1 hp
    exact hva.accept

/-- A call on numbers computes at once what its sound computes at every sample. -/
lemma filterMap_reals {slots : List Value} (hsilent : slots.any Value.isSound = false)
    (hsettled : ∀ v ∈ slots, IsSettledValue v) (rate : Float) (n : ℕ) :
    slots.filterMap (fun | .real x => some x | _ => none) = slots.map (playedAt rate n) := by
  induction slots with
  | nil => rfl
  | cons v rest ih =>
    obtain ⟨hv, hrest⟩ := forall_mem_cons.1 hsettled
    simp only [any_cons, Bool.or_eq_false_iff] at hsilent
    cases v with
    | real x => simp [ih hsilent.2 hrest, playedAt]
    | sound s => cases hsilent.1
    | _ => exact hv.elim

/-- A call that is put off has samples of its own. -/
lemma isSettled_promoted (h : StandForAll given args)
    (hbind : (Function.real f).bind (positionalValues given) (namedValues given) = .ok slots) :
    (promoted f (positionalValues given) (namedValues given)).IsSettled := by
  obtain ⟨kept, hkept, -⟩ := bindArguments_promoted hbind
  have hsettled : ∀ g ∈ given, IsSettledValue g.2 := by
    have hall := h.imp fun g a hga => And.intro hga.2.1.settled (Eq.refl a)
    exact ((forall₂_and_left _ _).1 hall).1
  rw [promoted_eq]
  refine Sound.isSettled_apply.2 ⟨⟨⟨f, rfl⟩, kept, hkept⟩, fun label s hs => ?_⟩
  rcases mem_of_sound_mem_promoted hs with hs | ⟨name, hs⟩
  · obtain ⟨⟨label', v⟩, hg, hgv⟩ := mem_filterMap.1 hs
    cases label' with
    | some name => cases hgv
    | none =>
      obtain rfl := Option.some.inj hgv
      exact hsettled _ hg
  · obtain ⟨⟨label', v⟩, hg, hgv⟩ := mem_filterMap.1 hs
    cases label' with
    | none => cases hgv
    | some name' =>
      obtain ⟨-, rfl⟩ := Prod.mk.inj (Option.some.inj hgv)
      exact hsettled _ hg

/-- The value of a call, made at once or put off, has the samples of the function applied to the
arguments. -/
lemma applied_soundsLike (h : StandForAll given args)
    (hbind : (Function.real f).bind (positionalValues given) (namedValues given) = .ok slots) :
    SoundsLike (applied f given) fun rate n => (Sound.apply (.real f) args).sampleAt rate n := by
  obtain ⟨bound, hbound, hslots⟩ := standsFor_bind h hbind
  have hsamples : ∀ rate n, bound.map (Argument.valueAt rate n) = slots.map (playedAt rate n) :=
    fun rate n => map_eq_of_forall₂ (hslots.imp fun _ _ hva => (hva.1.sample rate n).symm)
  rw [applied]
  simp only [hbind, outcome, sampleAt_apply hbound, hsamples]
  cases hsound : slots.any Value.isSound with
  | true =>
    rw [if_pos rfl]
    refine ⟨isSettled_promoted h hbind, fun rate n => ?_⟩
    obtain ⟨kept, hkept, hkeeps⟩ := bindArguments_promoted hbind
    have hvalues : kept.map (Argument.valueAt rate n) = slots.map (playedAt rate n) := by
      refine map_eq_of_forall₂ (hkeeps.imp fun v a hva => ?_)
      cases hva <;> rfl
    rw [playedAt, promoted_eq, sampleAt_apply hkept, hvalues]
  | false =>
    rw [if_neg Bool.false_ne_true]
    have hsettled : ∀ v ∈ slots, IsSettledValue v := by
      have hall := hslots.imp fun v a hva => And.intro hva.1.settled (Eq.refl a)
      exact ((forall₂_and_left _ _).1 hall).1
    refine ⟨trivial, fun rate n => ?_⟩
    exact congrArg f.apply (filterMap_reals hsound hsettled rate n)

end

/-! ## Sounds -/

/-- None of the numbers in a node itself is a negative zero, which is printed without its sign. -/
def Sound.KeepsSigns (s : Sound Float) : Prop :=
  (∀ x ∈ s.parameters, x ≠ -0.0) ∧
    match s with
    | .apply _ args => ∀ label x, Argument.real label x ∈ args → x ≠ -0.0
    | _ => True

/-- The values of the arguments of a call stand for the arguments, if those of the sounds do. -/
lemma standForAll_rebuilt {args : List (Argument Float)}
    (hprintable : ∀ arg ∈ args, arg.IsPrintable)
    (hsigns : ∀ label x, Argument.real label x ∈ args → x ≠ -0.0)
    (hsounds : ∀ label s, Argument.sound label s ∈ args →
      SoundsLike s.rebuilt fun rate n => s.sampleAt rate n) :
    StandForAll (Sound.rebuiltArguments args) args := by
  induction args with
  | nil => exact .nil
  | cons arg rest ih =>
    obtain ⟨harg, hothers⟩ := forall_mem_cons.1 hprintable
    have hrest := ih hothers (fun label x hx => hsigns label x (mem_cons_of_mem arg hx))
      fun label s hs => hsounds label s (mem_cons_of_mem arg hs)
    cases arg with
    | real label x =>
      rw [Sound.rebuiltArguments, reread_eq harg (hsigns label x mem_cons_self)]
      exact .cons ⟨rfl, soundsLike_real x, harg⟩ hrest
    | whole label n =>
      have hexact : IsExact n := harg
      rw [Sound.rebuiltArguments, rereadWhole_eq hexact]
      refine .cons ⟨rfl, ⟨trivial, fun rate k => ?_⟩, harg⟩ hrest
      rw [Argument.valueAt, ofWhole?_eq hexact]
      rfl
    | sound label s => exact .cons ⟨rfl, hsounds label s mem_cons_self, trivial⟩ hrest

/-- A call finds its arguments when it is played, and its value has its samples. -/
lemma rebuilt_apply_soundsLike {f : RealFunction} {args : List (Argument Float)}
    (happlication : IsApplication f args)
    (hsigns : ∀ label x, Argument.real label x ∈ args → x ≠ -0.0)
    (hsounds : ∀ label s, Argument.sound label s ∈ args →
      SoundsLike s.rebuilt fun rate n => s.sampleAt rate n) :
    (∃ bound, (Applied.real f).bindArguments args = .ok bound) ∧
      SoundsLike (Sound.apply (.real f) args).rebuilt fun rate n =>
        (Sound.apply (.real f) args).sampleAt rate n := by
  have hstand := standForAll_rebuilt happlication.printable hsigns hsounds
  obtain ⟨slots, hbind, -⟩ := happlication.exists_bind <|
    isSignal_rebuiltArguments fun label s hs => (hsounds label s hs).settled.isSignal
  obtain ⟨bound, hbound, -⟩ := standsFor_bind hstand hbind
  rw [Sound.rebuilt]
  exact ⟨⟨bound, hbound⟩, applied_soundsLike hstand hbind⟩

/-- A phase that is no negative zero reads back, also where it is zero and left out. -/
lemma reread_phase_eq {phase : Float} (hfinite : phase.isFinite = true) (hsign : phase ≠ -0.0) :
    (if phase == 0.0 then 0.0 else reread phase) = phase := by
  split
  · exact (eq_zero_of_beq ‹_› hsign).symm
  · exact reread_eq hfinite hsign

/-- The value of the expression that builds a sound has the samples of the sound. -/
theorem Sound.rebuilt_soundsLike (h : s.Everywhere Sound.IsPrintable)
    (hsigns : s.Everywhere Sound.KeepsSigns) (hseeded : s.Seeded) :
    s.IsSettled ∧ SoundsLike s.rebuilt fun rate n => s.sampleAt rate n := by
  unfold Sound.Seeded at hseeded
  induction s with
  | const v =>
    have hv := reread_eq ((everywhere_const.1 h).1 v mem_cons_self)
      ((everywhere_const.1 hsigns).1 v mem_cons_self)
    refine ⟨isSettled_const, ?_⟩
    simp only [Sound.rebuilt, hv, Sound.sampleAt]
    exact soundsLike_real v
  | linear slope intercept =>
    obtain ⟨hslope, hintercept⟩ : slope.isFinite = true ∧ intercept.isFinite = true := by
      simpa [Sound.parameters] using (everywhere_linear.1 h).1
    obtain ⟨hslope', hintercept'⟩ : slope ≠ -0.0 ∧ intercept ≠ -0.0 := by
      simpa [Sound.parameters] using (everywhere_linear.1 hsigns).1
    have hsettled : (linear slope intercept).IsSettled := isSettled_linear
    rw [Sound.rebuilt, reread_eq hslope hslope', reread_eq hintercept hintercept']
    exact ⟨hsettled, hsettled.soundsLike⟩
  | sine frequency phase =>
    obtain ⟨hfrequency, hphase⟩ : frequency.isFinite = true ∧ phase.isFinite = true := by
      simpa [Sound.parameters] using (everywhere_sine.1 h).1
    obtain ⟨hfrequency', hphase'⟩ : frequency ≠ -0.0 ∧ phase ≠ -0.0 := by
      simpa [Sound.parameters] using (everywhere_sine.1 hsigns).1
    have hsettled : (sine frequency phase).IsSettled := isSettled_sine
    rw [Sound.rebuilt, reread_eq hfrequency hfrequency', reread_phase_eq hphase hphase']
    exact ⟨hsettled, hsettled.soundsLike⟩
  | decay coefficient intercept => exact (everywhere_decay.1 h).2.elim
  | noise seed =>
    have hsettled : (noise seed : Sound Float).IsSettled :=
      isSettled_noise.2 (by simpa using hseeded)
    exact ⟨hsettled, hsettled.soundsLike⟩
  | minus s ih =>
    obtain ⟨hs, hlike⟩ := ih (everywhere_minus.1 h).2 (everywhere_minus.1 hsigns).2
      (everywhere_minus.1 hseeded).2
    simp only [Sound.rebuilt, Sound.sampleAt]
    exact ⟨isSettled_minus.2 hs, hlike.negated⟩
  | reciprocal s ih =>
    obtain ⟨hs, hlike⟩ := ih (everywhere_reciprocal.1 h).2 (everywhere_reciprocal.1 hsigns).2
      (everywhere_reciprocal.1 hseeded).2
    simp only [Sound.rebuilt, Sound.sampleAt]
    exact ⟨isSettled_reciprocal.2 hs, hlike.inverted⟩
  | binary op left right ihl ihr =>
    obtain ⟨-, hl, hr⟩ := everywhere_binary.1 h
    obtain ⟨-, hsignsLeft, hsignsRight⟩ := everywhere_binary.1 hsigns
    obtain ⟨-, hseededLeft, hseededRight⟩ := everywhere_binary.1 hseeded
    obtain ⟨hleft, hlikeLeft⟩ := ihl hl hsignsLeft hseededLeft
    obtain ⟨hright, hlikeRight⟩ := ihr hr hsignsRight hseededRight
    simp only [Sound.rebuilt, Sound.sampleAt]
    exact ⟨isSettled_binary.2 ⟨hleft, hright⟩, hlikeLeft.combined hlikeRight⟩
  | apply f args ih =>
    obtain ⟨⟨-, f, rfl, happlication⟩, hargs⟩ := everywhere_apply.1 h
    obtain ⟨⟨-, hsignsReals⟩, hsignsArgs⟩ := everywhere_apply.1 hsigns
    have hseededArgs := (everywhere_apply.1 hseeded).2
    have hsounds : ∀ label s, Argument.sound label s ∈ args →
        s.IsSettled ∧ SoundsLike s.rebuilt fun rate n => s.sampleAt rate n := fun label s hs =>
      ih label s hs (hargs label s hs) (hsignsArgs label s hs) (hseededArgs label s hs)
    obtain ⟨⟨bound, hbound⟩, hlike⟩ :=
      rebuilt_apply_soundsLike happlication hsignsReals fun label s hs => (hsounds label s hs).2
    exact ⟨isSettled_apply.2 ⟨⟨⟨f, rfl⟩, bound, hbound⟩, fun label s hs => (hsounds label s hs).1⟩,
      hlike⟩

/-- A value with samples of its own is played as a sound that has them. -/
lemma SoundsLike.asSound (h : SoundsLike v x) :
    ∃ s', Render.asSound v = .ok s' ∧ s'.IsSettled ∧ ∀ rate n, s'.sampleAt rate n = x rate n := by
  obtain ⟨hv, hx⟩ := h
  cases v with
  | real y =>
    refine ⟨.const y, rfl, Sound.isSettled_const, fun rate n => ?_⟩
    rw [Sound.sampleAt, ← hx rate n, playedAt]
  | sound s => exact ⟨s, rfl, hv, hx⟩
  | _ => exact hv.elim

/-- **Printing does not change what is heard.**  Let a sound have no decays, seeded noise with seeds
that have a float of their own, finite numbers that are no negative zeros and whose digits read
back, and real functions with every parameter given once.  Then its text is read as one expression,
and in a new session, with enough depth for that expression, its value is a number or a sound; and
this value, played as a sound at any rate, has the samples of the sound, none of them at fault. -/
theorem evaluate_printed_heard (h : s.Everywhere Sound.IsPrintable)
    (hread : s.Everywhere Sound.DigitsReadBack) (hsigns : s.Everywhere Sound.KeepsSigns)
    (hseeded : s.Seeded) :
    ∃ text node, (Value.sound s).text = .ok text ∧ parse text = .ok [node] ∧ node.IsExpression ∧
      ∀ withPrelude depth, node.height ≤ depth →
        ∃ v m s', evalWithin depth node Store.root (Session.start withPrelude).machine =
            (.ok v, m) ∧
          IsSignal v ∧ Render.asSound v = .ok s' ∧ ∀ rate, ∃ stream stream',
            s.stream rate = .ok stream ∧ s'.stream rate = .ok stream' ∧
              ∀ n, stream'.sample n = stream.sample n ∧
                (stream.after n).fault? = none ∧ (stream'.after n).fault? = none := by
  obtain ⟨node, hparse, hbare⟩ := Sound.parse_text h hread
  have hexpression : node.IsExpression := by
    rw [← Node.isExpression_bare, hbare, Node.isExpression_bare]
    exact Sound.expression_isExpression h
  obtain ⟨hsettled, hlike⟩ := Sound.rebuilt_soundsLike h hsigns hseeded
  obtain ⟨s', hs', hsettled', hsamples⟩ := hlike.asSound
  refine ⟨s.text, node, rfl, hparse, hexpression, fun withPrelude depth hdepth => ?_⟩
  have hgives := Sound.expression_gives (Session.start_knowsBuiltins withPrelude) h
  obtain ⟨m, hrun, -⟩ := hgives node hbare depth hdepth _ rfl
  refine ⟨_, m, s', hrun, hlike.settled.isSignal, hs', fun rate => ?_⟩
  obtain ⟨stream, hstream, hsample⟩ := hsettled.exists_stream rate
  obtain ⟨stream', hstream', hsample'⟩ := hsettled'.exists_stream rate
  refine ⟨stream, stream', hstream, hstream', fun n => ⟨?_, (hsample n).2, (hsample' n).2⟩⟩
  rw [(hsample n).1, (hsample' n).1, hsamples]

/-- The sound `(2 + -0.5) * max(Noise(-7), b=abs(-2))`, of which only the noise does not fold. -/
def foldedProduct : Sound Float :=
  .binary .mul (.binary .add (.const 2.0) (.minus (.const 0.5)))
    (.apply (.real .max)
      [.sound none (.noise (some (-7))), .sound (some "b") (.apply (.real .abs) [.real none (-2.0)])])

theorem evaluate_printed_heard_foldedProduct :
    ∃ text node, (Value.sound foldedProduct).text = .ok text ∧ parse text = .ok [node] ∧
      node.IsExpression ∧ ∀ withPrelude depth, node.height ≤ depth →
        ∃ v m s', evalWithin depth node Store.root (Session.start withPrelude).machine =
            (.ok v, m) ∧
          IsSignal v ∧ Render.asSound v = .ok s' ∧ ∀ rate, ∃ stream stream',
            foldedProduct.stream rate = .ok stream ∧ s'.stream rate = .ok stream' ∧
              ∀ n, stream'.sample n = stream.sample n ∧
                (stream.after n).fault? = none ∧ (stream'.after n).fault? = none := by
  have hfinite : ∀ x ∈ ([2.0, 0.5, -2.0] : List Float), x.isFinite = true := by decide +kernel
  have hsigns : ∀ x ∈ ([2.0, 0.5, -2.0] : List Float), x ≠ -0.0 := by decide +kernel
  have hreads : ∀ x ∈ ([2.0, 0.5, -2.0] : List Float), ReadsBack x := by
    refine forall_mem_cons.2 ⟨⟨⟨2, 0⟩, ?_, ?_⟩, forall_mem_cons.2 ⟨⟨⟨5, -1⟩, ?_, ?_⟩,
      forall_mem_singleton.2 ⟨⟨2, 0⟩, ?_, ?_⟩⟩⟩
    all_goals decide +kernel
  have hexact : IsExact (-7) := by
    unfold IsExact
    decide +kernel
  have hmax : IsApplication .max [.sound none (.noise (some (-7))),
      .sound (some "b") (.apply (.real .abs) [.real none (-2.0)])] :=
    ⟨⟨1, ["b"], by decide, .refl _, rfl⟩, by simp [Argument.IsPrintable]⟩
  have habs : IsApplication .abs [.real none (-2.0)] :=
    ⟨⟨1, [], by decide, .refl _, rfl⟩, forall_mem_singleton.2 (hfinite (-2.0) (by simp))⟩
  refine evaluate_printed_heard ?_ ?_ ?_ ?_
  · have hconstants := And.intro (hfinite 2.0 (by simp)) (hfinite 0.5 (by simp))
    simpa [foldedProduct, Sound.IsPrintable, Sound.parameters, hmax, habs, hexact, or_imp,
      forall_and] using hconstants
  · simpa [foldedProduct, Sound.DigitsReadBack, Sound.parameters, Argument.ReadsBack, and_assoc,
      or_imp, forall_and] using hreads
  · simpa [foldedProduct, Sound.KeepsSigns, Sound.parameters, and_assoc, or_imp, forall_and]
      using hsigns
  · simp [foldedProduct, Sound.Seeded, or_imp, forall_and]

end SignalCalc.Signal
