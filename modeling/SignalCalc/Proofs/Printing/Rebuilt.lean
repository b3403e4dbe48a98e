import SignalCalc.Proofs.Call.Complete
import SignalCalc.Proofs.Evaluation.Gives
import SignalCalc.Proofs.Evaluation.Promotion
import SignalCalc.Proofs.Printing.Expression
import SignalCalc.Value.Same

/-!
# What printed sounds evaluate to

`Sound.rebuilt` is the value of the expression that builds a sound.  It need not be the sound again:
a constant comes back as a real, and operators and functions on reals compute at once.  Where
nothing folds in this way, the value is a sound, and the same one (`Sound.rebuilt_same`).
-/

namespace SignalCalc.Signal

open SignalCalc.Builtin
open SignalCalc.Call
open SignalCalc.Evaluation
open SignalCalc.Number
open List

/-! ## Values -/

/-- A whole number from outside as the float that a program reads back. -/
def rereadWhole (n : Int) : Float :=
  if n.natAbs < 10 ^ 16 then Float.ofInt n else reread (Float.ofInt n)

/-- A number or a signal with its sign changed. -/
def negated : Value → Value
  | .real x => .real (-x)
  | .sound s => .sound (.minus s)
  | v => v

/-- One divided by a number or a signal. -/
def inverted : Value → Value
  | .real x => .real (Number.quotient 1.0 x)
  | .sound s => .sound (.reciprocal s)
  | v => v

/-- An operator on numbers and signals. -/
def combined (op : Operator) : Value → Value → Value
  | .real a, .real b => .real (op.apply a b)
  | .real a, .sound s => .sound (.binary op (.const a) s)
  | .sound s, .real b => .sound (.binary op s (.const b))
  | .sound s, .sound t => .sound (.binary op s t)
  | _, _ => .nothing

/-- A real function called with some values. -/
def applied (f : RealFunction) (given : List Given) : Value :=
  match (Function.real f).bind (positionalValues given) (namedValues given) with
  | .ok slots => outcome f (positionalValues given) (namedValues given) slots
  | .error _ => .nothing

mutual
/-- The value of the expression that builds a sound. -/
def Sound.rebuilt : Sound Float → Value
  | .const v => .real (reread v)
  | .linear slope intercept => .sound (.linear (reread slope) (reread intercept))
  | .sine frequency phase =>
    .sound (.sine (reread frequency) (if phase == 0.0 then 0.0 else reread phase))
  | .decay _ _ => .nothing
  | .noise seed => .sound (.noise seed)
  | .minus s => negated s.rebuilt
  | .reciprocal s => inverted s.rebuilt
  | .binary op left right => combined op left.rebuilt right.rebuilt
  | .apply (.real f) args => applied f (Sound.rebuiltArguments args)
  | .apply _ _ => .nothing

/-- The values of the arguments of a call that builds a sound. -/
def Sound.rebuiltArguments : List (Argument Float) → List Given
  | [] => []
  | .real label x :: rest => (label, .real (reread x)) :: rebuiltArguments rest
  | .whole label n :: rest => (label, .real (rereadWhole n)) :: rebuiltArguments rest
  | .sound label s :: rest => (label, s.rebuilt) :: rebuiltArguments rest
end

/-- The value is a number or a signal that a program can build. -/
def IsSignal : Value → Prop
  | .real _ | .sound _ => True
  | _ => False

/-! ## Calls -/

variable {f : RealFunction} {args : List (Argument Float)}

lemma map_fst_rebuiltArguments (args : List (Argument Float)) :
    (Sound.rebuiltArguments args).map Prod.fst = args.map Argument.label := by
  induction args with
  | nil => rfl
  | cons arg rest ih =>
    cases arg <;> rw [Sound.rebuiltArguments, map_cons, map_cons, ih] <;> rfl

lemma mem_rebuiltArguments {label : Option String} {s : Sound Float}
    (h : Argument.sound label s ∈ args) : (label, s.rebuilt) ∈ Sound.rebuiltArguments args := by
  induction args with
  | nil => cases h
  | cons arg rest ih =>
    rcases mem_cons.1 h with rfl | hrest
    · exact mem_cons_self
    · cases arg <;> exact mem_cons_of_mem _ (ih hrest)

/-- The values given without a name come first, and the others behind them. -/
lemma given_eq {given : List Given} {k : ℕ} {names : List String}
    (h : given.map Prod.fst = replicate k none ++ names.map some) :
    (positionalValues given).length = k ∧ (namedValues given).map Prod.fst = names ∧
      given = (positionalValues given).map (fun v => (none, v)) ++
        (namedValues given).map fun entry => (some entry.1, entry.2) := by
  induction given generalizing k names with
  | nil =>
    rw [map_nil, nil_eq, append_eq_nil_iff, replicate_eq_nil_iff, map_eq_nil_iff] at h
    obtain ⟨rfl, rfl⟩ := h
    exact ⟨rfl, rfl, rfl⟩
  | cons entry rest ih =>
    obtain ⟨label, v⟩ := entry
    cases k with
    | zero =>
      cases names with
      | nil => cases h
      | cons name names =>
        obtain ⟨rfl, hrest⟩ := cons.inj h
        obtain ⟨hlength, hnames, heq⟩ := @ih 0 names hrest
        have hnone : positionalValues rest = [] := length_eq_zero_iff.1 hlength
        rw [hnone, map_nil, nil_append] at heq
        refine ⟨hlength, congrArg (cons name) hnames, ?_⟩
        show (some name, v) :: rest = (positionalValues rest).map (fun v => (none, v)) ++
          (some name, v) :: (namedValues rest).map fun entry => (some entry.1, entry.2)
        rw [hnone, map_nil, nil_append, ← heq]
    | succ k =>
      obtain ⟨rfl, hrest⟩ := cons.inj h
      obtain ⟨hlength, hnames, heq⟩ := ih hrest
      exact ⟨congrArg Nat.succ hlength, hnames, congrArg (cons (none, v)) heq⟩

lemma acceptReal_of_isSignal {v : Value} (h : IsSignal v) : v.acceptReal .real = .ok v := by
  cases v with
  | real | sound => rfl
  | _ => exact h.elim

/-- A call that builds a sound is bound. -/
lemma IsApplication.exists_bind (h : IsApplication f args)
    (hsignals : ∀ entry ∈ Sound.rebuiltArguments args, IsSignal entry.2) :
    ∃ slots, (Function.real f).bind (positionalValues (Sound.rebuiltArguments args))
      (namedValues (Sound.rebuiltArguments args)) = .ok slots ∧
        slots ~ (Sound.rebuiltArguments args).map Prod.snd := by
  obtain ⟨k, names, hk, hperm, hlabels⟩ := h.labels
  rw [← map_fst_rebuiltArguments] at hlabels
  generalize Sound.rebuiltArguments args = given at hlabels hsignals ⊢
  obtain ⟨hlength, hnames, heq⟩ := given_eq hlabels
  have hvalues : given.map Prod.snd =
      positionalValues given ++ (namedValues given).map Prod.snd := by
    conv_lhs => rw [heq]
    rw [map_append, map_map, map_map]
    exact congrArg (· ++ _) (map_id _)
  have hparams : (Function.real f).signature.params.map (·.name) = f.parameterNames := by
    show map _ (map _ f.parameterNames) = _
    rw [map_map]
    exact map_id _
  rw [hvalues]
  refine Signature.bind_of_complete ?_ ?_ ?_ fun p hp v hv => ?_
  · rw [hlength, Signature.arity, ← length_map, hparams]
    exact hk
  · rw [hparams]
    cases f <;> decide
  · rw [hnames, hlength, map_drop, hparams]
    exact hperm
  · obtain ⟨name, -, rfl⟩ := mem_map.1 hp
    rw [← hvalues] at hv
    obtain ⟨entry, hentry, rfl⟩ := mem_map.1 hv
    exact acceptReal_of_isSignal (hsignals entry hentry)

/-! ## Numbers and signals -/

variable {s : Sound Float}

lemma isSignal_rebuiltArguments
    (hsound : ∀ label s, Argument.sound label s ∈ args → IsSignal s.rebuilt) :
    ∀ entry ∈ Sound.rebuiltArguments args, IsSignal entry.2 := by
  induction args with
  | nil => exact forall_mem_nil _
  | cons arg rest ih =>
    have hrest := ih fun label s h => hsound label s (mem_cons_of_mem arg h)
    cases arg with
    | real | whole => exact forall_mem_cons.2 ⟨trivial, hrest⟩
    | sound label s => exact forall_mem_cons.2 ⟨hsound label s mem_cons_self, hrest⟩

lemma applied_isSignal {given : List Given} {slots : List Value}
    (h : (Function.real f).bind (positionalValues given) (namedValues given) = .ok slots) :
    IsSignal (applied f given) := by
  unfold applied
  simp only [h]
  unfold outcome
  split <;> exact trivial

lemma negated_isSignal {v : Value} (h : IsSignal v) : IsSignal (negated v) := by
  cases v with
  | real | sound => trivial
  | _ => exact h.elim

lemma inverted_isSignal {v : Value} (h : IsSignal v) : IsSignal (inverted v) := by
  cases v with
  | real | sound => trivial
  | _ => exact h.elim

lemma combined_isSignal {op : Operator} {v w : Value} (hv : IsSignal v) (hw : IsSignal w) :
    IsSignal (combined op v w) := by
  cases v with
  | real | sound =>
    cases w with
    | real | sound => trivial
    | _ => exact hw.elim
  | _ => exact hv.elim

/-- The expression that builds a sound has the value of a number or a signal. -/
lemma Sound.rebuilt_isSignal (h : s.Everywhere Sound.IsPrintable) : IsSignal s.rebuilt := by
  induction s with
  | const | linear | sine | noise => trivial
  | decay coefficient intercept => exact (everywhere_decay.1 h).2.elim
  | minus s ih => exact negated_isSignal (ih (everywhere_minus.1 h).2)
  | reciprocal s ih => exact inverted_isSignal (ih (everywhere_reciprocal.1 h).2)
  | binary op left right ihl ihr =>
    obtain ⟨-, hl, hr⟩ := everywhere_binary.1 h
    exact combined_isSignal (ihl hl) (ihr hr)
  | apply f args ih =>
    obtain ⟨⟨-, f, rfl, happlication⟩, hargs⟩ := everywhere_apply.1 h
    have hsignals := isSignal_rebuiltArguments fun label s hs => ih label s hs (hargs label s hs)
    obtain ⟨slots, hbind, -⟩ := happlication.exists_bind hsignals
    exact applied_isSignal hbind

/-! ## Sounds in which nothing folds -/

/-- A sound of constants alone. -/
def Sound.IsConstantOnly (s : Sound Float) : Prop :=
  s.Everywhere fun t => match t with
    | .linear _ _ | .sine _ _ | .noise _ => False
    | _ => True

/-- An operand of constants alone is a single one, and the other operand has more in it. -/
def Sound.StandsBeside (s other : Sound Float) : Prop :=
  s.IsConstantOnly → (∃ v, s = .const v) ∧ ¬other.IsConstantOnly

/-- What the node is built from does not fold to a real. -/
def Sound.KeepsParts : Sound Float → Prop
  | .minus s | .reciprocal s => ¬s.IsConstantOnly
  | .binary _ left right => left.StandsBeside right ∧ right.StandsBeside left
  | .apply _ args => (∃ label s, Argument.sound label s ∈ args) ∧
      ∀ label s, Argument.sound label s ∈ args → ¬s.IsConstantOnly
  | _ => True

/-- Nothing in the sound folds to a real: sounds of constants alone are single constants, each one
an operand beside a sound that has more in it. -/
structure Sound.FoldsNothing (s : Sound Float) : Prop where
  root : ¬s.IsConstantOnly
  parts : s.Everywhere Sound.KeepsParts

/-- The sound of a promoted call keeps the values in the order in which they were given. -/
lemma promotedArguments_given {given : List Given} {k : ℕ} {names : List String}
    (h : given.map Prod.fst = replicate k none ++ names.map some) :
    promotedArguments (positionalValues given) (namedValues given) =
      given.map fun entry => promotedArgument entry.1 entry.2 := by
  obtain ⟨-, -, heq⟩ := given_eq h
  conv_rhs => rw [heq]
  rw [map_append, map_map, map_map]
  rfl

lemma wholeIs_rereadWhole {n : Int} (h : IsExact n) : Value.wholeIs n (rereadWhole n) = true := by
  rw [Value.wholeIs, beq_iff_eq, rereadWhole]
  split
  · exact h
  · rename_i hlarge
    exact h.compareWhole_reread fun hn => hlarge (by rw [hn]; decide)

/-- The values of the arguments equal the arguments, if those of the sounds do. -/
lemma sameArguments_rebuilt (hprintable : ∀ arg ∈ args, arg.IsPrintable)
    (hsound : ∀ label s, Argument.sound label s ∈ args →
      ∃ s', s.rebuilt = .sound s' ∧ s'.same s = true) :
    Sound.sameArguments ((Sound.rebuiltArguments args).map fun entry =>
      promotedArgument entry.1 entry.2) args = true := by
  induction args with
  | nil => rfl
  | cons arg rest ih =>
    obtain ⟨harg, hothers⟩ := forall_mem_cons.1 hprintable
    have hrest := ih hothers fun label s h => hsound label s (mem_cons_of_mem arg h)
    cases arg with
    | real label x =>
      show (label == label && reread x == x && Sound.sameArguments (map _ _) rest) = true
      rw [beq_self_eq_true, reread_beq harg, hrest]
      rfl
    | whole label n =>
      show (label == label && Value.wholeIs n (rereadWhole n) &&
        Sound.sameArguments (map _ _) rest) = true
      rw [beq_self_eq_true, wholeIs_rereadWhole harg, hrest]
      rfl
    | sound label s =>
      obtain ⟨s', hs', hsame⟩ := hsound label s mem_cons_self
      rw [Sound.rebuiltArguments, map_cons, hs']
      show (label == label && s'.same s && Sound.sameArguments (map _ _) rest) = true
      rw [beq_self_eq_true, hsame, hrest]
      rfl

/-- An operand comes back as a real if it is a constant, and as the same sound if it is not. -/
lemma Sound.StandsBeside.rebuilt {other : Sound Float} (h : s.StandsBeside other)
    (hs : ¬s.IsConstantOnly → ∃ s', s.rebuilt = .sound s' ∧ s'.same s = true) :
    (∃ v, s = .const v ∧ ¬other.IsConstantOnly) ∨
      ∃ s', s.rebuilt = .sound s' ∧ s'.same s = true := by
  by_cases hconst : s.IsConstantOnly
  · obtain ⟨⟨v, rfl⟩, hother⟩ := h hconst
    exact .inl ⟨v, rfl, hother⟩
  · exact .inr (hs hconst)

/-- **Printed sounds come back.** Where nothing folds, the expression that builds a sound has the
same sound as its value. -/
theorem Sound.rebuilt_same (h : s.Everywhere Sound.IsPrintable)
    (hparts : s.Everywhere Sound.KeepsParts) (hs : ¬s.IsConstantOnly) :
    ∃ s', s.rebuilt = .sound s' ∧ s'.same s = true := by
  induction s with
  | const v => exact absurd (everywhere_const.2 trivial) hs
  | linear slope intercept =>
    have hfinite := (everywhere_linear.1 h).1
    have hslope := reread_beq (hfinite slope mem_cons_self)
    have hintercept := reread_beq (hfinite intercept (mem_cons_of_mem _ mem_cons_self))
    exact ⟨_, rfl, by simp only [Sound.same, hslope, hintercept, Bool.and_self]⟩
  | sine frequency phase =>
    have hfinite := (everywhere_sine.1 h).1
    have hfrequency := reread_beq (hfinite frequency mem_cons_self)
    have hphase : ((if phase == 0.0 then 0.0 else reread phase) == phase) = true := by
      split
      · exact zero_beq ‹_›
      · exact reread_beq (hfinite phase (mem_cons_of_mem _ mem_cons_self))
    exact ⟨_, rfl, by simp only [Sound.same, hfrequency, hphase, Bool.and_self]⟩
  | decay coefficient intercept => exact (everywhere_decay.1 h).2.elim
  | noise seed => exact ⟨_, rfl, by simp only [Sound.same, beq_self_eq_true]⟩
  | minus s ih =>
    obtain ⟨s', hs', hsame⟩ := ih (everywhere_minus.1 h).2 (everywhere_minus.1 hparts).2
      (everywhere_minus.1 hparts).1
    rw [Sound.rebuilt, hs']
    exact ⟨_, rfl, hsame⟩
  | reciprocal s ih =>
    obtain ⟨s', hs', hsame⟩ := ih (everywhere_reciprocal.1 h).2 (everywhere_reciprocal.1 hparts).2
      (everywhere_reciprocal.1 hparts).1
    rw [Sound.rebuilt, hs']
    exact ⟨_, rfl, hsame⟩
  | binary op left right ihl ihr =>
    obtain ⟨hbinary, hl, hr⟩ := everywhere_binary.1 h
    obtain ⟨⟨hbesideLeft, hbesideRight⟩, hpartsLeft, hpartsRight⟩ := everywhere_binary.1 hparts
    rw [Sound.rebuilt]
    rcases hbesideLeft.rebuilt (ihl hl hpartsLeft) with ⟨a, rfl, hother⟩ | ⟨l', hl', hsameLeft⟩
    · obtain ⟨r', hr', hsameRight⟩ := ihr hr hpartsRight hother
      have ha := reread_beq ((everywhere_const.1 hl).1 a mem_cons_self)
      rw [hr']
      refine ⟨_, rfl, ?_⟩
      simp only [Sound.same, beq_self_eq_true, ha, hsameRight, Bool.and_self]
    · rcases hbesideRight.rebuilt (ihr hr hpartsRight) with ⟨b, rfl, -⟩ | ⟨r', hr', hsameRight⟩
      · have hb := reread_beq ((everywhere_const.1 hr).1 b mem_cons_self)
        rw [hl']
        refine ⟨_, rfl, ?_⟩
        simp only [Sound.same, beq_self_eq_true, hsameLeft, hb, Bool.and_self]
      · rw [hl', hr']
        refine ⟨_, rfl, ?_⟩
        simp only [Sound.same, beq_self_eq_true, hsameLeft, hsameRight, Bool.and_self]
  | apply f args ih =>
    obtain ⟨⟨-, f, rfl, happlication⟩, hargs⟩ := everywhere_apply.1 h
    obtain ⟨⟨⟨label, s, hmem⟩, hlive⟩, hpartsArgs⟩ := everywhere_apply.1 hparts
    have hsounds : ∀ label s, Argument.sound label s ∈ args →
        ∃ s', s.rebuilt = .sound s' ∧ s'.same s = true := fun label s hs =>
      ih label s hs (hargs label s hs) (hpartsArgs label s hs) (hlive label s hs)
    have hsignals := isSignal_rebuiltArguments fun label s hs =>
      Sound.rebuilt_isSignal (hargs label s hs)
    obtain ⟨slots, hbind, hperm⟩ := happlication.exists_bind hsignals
    have hsound : slots.any Value.isSound = true := by
      obtain ⟨s', hs', -⟩ := hsounds label s hmem
      have hvalue := mem_map_of_mem (f := Prod.snd) (mem_rebuiltArguments hmem)
      exact any_eq_true.2 ⟨_, hperm.mem_iff.2 hvalue, by rw [hs']; rfl⟩
    obtain ⟨k, names, -, -, hlabels⟩ := happlication.labels
    rw [← map_fst_rebuiltArguments] at hlabels
    rw [Sound.rebuilt, applied]
    simp only [hbind, outcome, hsound, if_true]
    refine ⟨_, rfl, ?_⟩
    rw [promoted_eq, promotedArguments_given hlabels, Sound.same,
      sameArguments_rebuilt happlication.printable hsounds, beq_self_eq_true, Bool.and_self]

end SignalCalc.Signal
