import SignalCalc.Proofs.Syntax.Alike
import SignalCalc.Proofs.Syntax.Operands

/-!
# Two texts of the same words

A relation of texts is `Tokenwise` if related texts start with the same words and are related again
behind a word and behind the layout in front of one.  Statements are then read alike from related
texts: `Tokenwise.statement`, with trees that differ in their places only.
-/

namespace SignalCalc.Syntax

open SignalCalc.Syntax.Grammar
open SignalCalc.Syntax.Layout
open SignalCalc.Syntax.Parser
open SignalCalc.Text

/-- A word of signs: nothing in it is a blank, or starts a comment or a string. -/
def isSign (w : List Char) : Bool :=
  !w.isEmpty && w.all fun c => c != '/' && c != '"' && !isSpace c

/-- Related texts start with the same words, and with layout behind which they are related. -/
structure Tokenwise (R : List Char → List Char → Prop) : Prop where
  inside : ∀ s s', R s s' → R (inside s) (inside s')
  sign : ∀ w, isSign w = true → TakesAlike R (Token.literal w)
  slash : TakesAlike R Token.slash
  assign : TakesAlike R Token.assign
  name : TakesAlike R Token.name
  string : TakesAlike R Token.string
  number : TakesAlike R Token.number

/-- Trees that are equal but for their places. -/
def SameTree (e e' : Node) : Prop := e.bare = e'.bare

lemma map_bare_eq {es es' : List Node} (h : List.Forall₂ SameTree es es') :
    es.map Node.bare = es'.map Node.bare := by
  induction h with
  | nil => rfl
  | cons hfirst _ ih => rw [List.map_cons, List.map_cons, hfirst, ih]

variable {α α' : Type} {R : List Char → List Char → Prop} {n n' : ℕ}

/-! ## Words -/

lemma operatorOf_alike {tag : String} {scanners : List (List Char → Option (List Char))}
    (h : ∀ scanner ∈ scanners, TakesAlike R scanner) :
    ReadsAlike R n n' 1 (fun r r' => r.2 = r'.2) (operatorOf tag scanners)
      (operatorOf tag scanners) :=
  (TakesAlike.findSome? h).located.bind fun _ _ htext =>
    .pure (congrArg (fun text => BinaryOperator.ofSymbol (text.getD "")) htext)

section Words

variable (hR : Tokenwise R)

include hR

lemma gap_alike : ReadsAlike R n n' 0 (fun _ _ => True) gap gap := by
  intro c c' hrest _ _
  have hsuffix := inside_suffix (List.suffix_refl c.rest)
  have hsuffix' := inside_suffix (List.suffix_refl c'.rest)
  refine .some ⟨trivial, ?_, ?_, ?_⟩
  · rw [Cursor.rest_moveTo hsuffix, Cursor.rest_moveTo hsuffix']
    exact hR.inside _ _ hrest
  · rw [Cursor.rest_moveTo hsuffix]
    exact hsuffix.length_le
  · rw [Cursor.rest_moveTo hsuffix']
    exact hsuffix'.length_le

lemma word_alike {w : String} (hw : isSign w.toList = true) :
    ReadsAlike R n n' 1 (fun _ _ => True) (word w) (word w) :=
  (hR.sign _ hw).scan

lemma comma_alike : ReadsAlike R n n' 1 (fun _ _ => True) comma comma :=
  (gap_alike hR).bind_empty fun _ _ _ => (word_alike hR rfl).bind fun _ _ _ => gap_alike hR

lemma equals_alike : ReadsAlike R n n' 1 (fun _ _ => True) equals equals :=
  (gap_alike hR).bind_empty fun _ _ _ => hR.assign.scan.bind fun _ _ _ => gap_alike hR

/-- What stands in parentheses is shorter than the whole. -/
lemma parenthesized_alike {V : α → α' → Prop} {p : Parser α} {p' : Parser α'}
    (hp : ReadsAlike R (n - 1) (n' - 1) 0 V p p') :
    ReadsAlike R n n' 1 V (parenthesized p) (parenthesized p') := by
  refine (word_alike hR rfl).bind fun _ _ _ => (gap_alike hR).bind fun _ _ _ => ?_
  refine hp.bind fun _ _ hV => (gap_alike hR).bind fun _ _ _ => ?_
  exact (word_alike hR rfl).weaken.bind fun _ _ _ => .pure hV

lemma name_alike : ReadsAlike R n n' 1 (fun r r' => r.2 = r'.2) name name :=
  hR.name.located.bind fun _ _ htext => .pure (congrArg (·.getD "") htext)

lemma levels_alike : ∀ level ∈ levels,
    ReadsAlike R n n' 1 (fun r r' => r.2 = r'.2) level level := by
  simp only [levels, List.forall_mem_cons, List.not_mem_nil, false_imp_iff, forall_true_iff,
    and_true]
  refine ⟨operatorOf_alike ?_, operatorOf_alike ?_, operatorOf_alike ?_, operatorOf_alike ?_,
    operatorOf_alike ?_, operatorOf_alike ?_⟩
  all_goals simp only [List.forall_mem_cons, List.not_mem_nil, false_imp_iff, forall_true_iff,
    and_true]
  · exact hR.sign _ rfl
  · exact hR.sign _ rfl
  · exact ⟨hR.sign _ rfl, hR.sign _ rfl⟩
  · exact ⟨hR.sign _ rfl, hR.sign _ rfl⟩
  · exact ⟨hR.sign _ rfl, hR.sign _ rfl⟩
  · exact ⟨hR.sign _ rfl, hR.slash⟩

end Words

/-! ## Expressions -/

lemma foldl_joined_alike {others others' : List ((Location × BinaryOperator) × Node)}
    (h : List.Forall₂ (fun r r' => r.1.2 = r'.1.2 ∧ SameTree r.2 r'.2) others others')
    {first first' : Node} (hfirst : SameTree first first') :
    SameTree (others.foldl joined first) (others'.foldl joined first') := by
  induction h generalizing first first' with
  | nil => exact hfirst
  | cons hother _ ih =>
    refine ih ?_
    rw [SameTree, joined, joined, Node.bare, Node.bare, hother.1, hfirst, hother.2]

lemma foldl_invocation_alike {lists lists' : List (List Node)}
    (h : List.Forall₂ (List.Forall₂ SameTree) lists lists') {callee callee' : Node}
    (hcallee : SameTree callee callee') (loc loc' : Location) :
    SameTree (lists.foldl (fun f args => .invocation (some loc) f args) callee)
      (lists'.foldl (fun f args => .invocation (some loc') f args) callee') := by
  induction h generalizing callee callee' with
  | nil => exact hcallee
  | cons hargs _ ih =>
    refine ih ?_
    rw [SameTree, Node.bare, Node.bare, hcallee, Node.bareAll_eq_map, Node.bareAll_eq_map,
      map_bare_eq hargs]

section Expressions

variable (hR : Tokenwise R) {p p' : Parser Node}

include hR

lemma operatorStep_alike {level : Parser (Location × BinaryOperator)}
    (hlevel : ReadsAlike R n n' 1 (fun r r' => r.2 = r'.2) level level)
    (hp : ReadsAlike R (n - 1) (n' - 1) 0 SameTree p p') :
    ReadsAlike R n n' 1 (fun r r' => r.1.2 = r'.1.2 ∧ SameTree r.2 r'.2) (operatorStep p level)
      (operatorStep p' level) := by
  refine (gap_alike hR).bind_empty fun _ _ _ => hlevel.bind fun _ _ hop => ?_
  exact (gap_alike hR).bind fun _ _ _ => hp.bind fun _ _ hright => .pure ⟨hop, hright⟩

lemma expressionOver_alike (hp : ReadsAlike R n n' 0 SameTree p p') :
    ReadsAlike R n n' 0 SameTree (expressionOver p) (expressionOver p') := by
  have hlevels : ∀ level ∈ levels, ReadsAlike R n n' 1 (fun r r' => r.2 = r'.2) level level :=
    levels_alike hR
  unfold expressionOver
  generalize levels = levels at hlevels ⊢
  induction levels with
  | nil => exact hp
  | cons level levels ih =>
    obtain ⟨hlevel, hlevels⟩ := List.forall_mem_cons.1 hlevels
    have hinner := ih hlevels
    rw [List.foldr_cons, List.foldr_cons, leftAssociative_eq, leftAssociative_eq]
    have hshorter := hinner.within (Nat.sub_le n 1) (Nat.sub_le n' 1)
    refine hinner.bind fun _ _ hfirst => (operatorStep_alike hR hlevel hshorter).many.bind ?_
    exact fun _ _ hothers => .pure (foldl_joined_alike hothers hfirst)

/-! ## Operands -/

lemma primary_alike (hp : ReadsAlike R n n' 0 SameTree p p') :
    ReadsAlike R (n + 1) (n' + 1) 0 SameTree (primary p) (primary p') := by
  have hnumber : ReadsAlike R (n + 1) (n' + 1) 1 SameTree number number :=
    hR.number.located.bind fun _ _ htext => .pure (by rw [SameTree, Node.bare, Node.bare, htext])
  have hstring : ReadsAlike R (n + 1) (n' + 1) 1 SameTree string string :=
    hR.string.located.bind fun _ _ htext => .pure (by rw [SameTree, Node.bare, Node.bare, htext])
  have hidentifier : ReadsAlike R (n + 1) (n' + 1) 1 SameTree identifier identifier :=
    (name_alike hR).bind fun _ _ hname => .pure (by rw [SameTree, Node.bare, Node.bare, hname])
  have hgroup : ReadsAlike R (n + 1) (n' + 1) 1 SameTree (group p) (group p') := by
    have hinner : ReadsAlike R (n + 1) (n' + 1) 1 (Option.Rel SameTree)
        (parenthesized (maybe p)) (parenthesized (maybe p')) := parenthesized_alike hR hp.maybe
    refine hinner.located.bind ?_
    rintro ⟨loc, inner⟩ ⟨loc', inner'⟩ (hinner : Option.Rel SameTree inner inner')
    refine .pure ?_
    cases hinner with
    | none => rfl
    | some hinner => exact hinner
  exact (hnumber.orElse (hstring.orElse (hidentifier.orElse hgroup))).weaken

lemma arguments_alike (hp : ReadsAlike R n n' 0 SameTree p p') :
    ReadsAlike R (n + 1) (n' + 1) 1 (List.Forall₂ SameTree) (arguments p) (arguments p') := by
  have hshorter := hp.within (Nat.sub_le n 1) (Nat.sub_le n' 1)
  have hkeyword : ReadsAlike R n n' 0 SameTree (keyword p) (keyword p') := by
    refine ReadsAlike.weaken (d := 1) (.bind (.located (V := fun r r' => r.1 = r'.1 ∧
      SameTree r.2 r'.2) ?_) fun r r' hr => .pure ?_)
    · refine (name_alike hR).bind fun _ _ hname => (equals_alike hR).weaken.bind fun _ _ _ => ?_
      exact hshorter.bind fun _ _ hvalue => .pure ⟨hname, hvalue⟩
    · rw [SameTree, Node.bare, Node.bare, hr.1, hr.2]
  exact parenthesized_alike hR ((hkeyword.orElse hp).sepBy (comma_alike hR))

lemma calls_alike (hp : ReadsAlike R n n' 0 SameTree p p') :
    ReadsAlike R (n + 1) (n' + 1) 0 SameTree (calls p) (calls p') := by
  rw [calls_eq, calls_eq]
  refine .bind (.located (V := fun r r' => SameTree r.1 r'.1 ∧
    List.Forall₂ (List.Forall₂ SameTree) r.2 r'.2) ?_) ?_
  · exact (primary_alike hR hp).bind fun _ _ hcallee =>
      (arguments_alike hR hp).many.bind fun _ _ hlists => .pure ⟨hcallee, hlists⟩
  · rintro ⟨loc, callee, lists⟩ ⟨loc', callee', lists'⟩ ⟨hcallee, hlists⟩
    exact .pure (foldl_invocation_alike hlists hcallee loc loc')

lemma power_alike (hp : ReadsAlike R n n' 0 SameTree p p') :
    ReadsAlike R (n + 1) (n' + 1) 0 SameTree (power p) (power p') := by
  have hpow : ReadsAlike R (n + 1) (n' + 1) 1 (fun r r' => r.2 = r'.2)
      (operatorOf "pow_op" [Token.literal ['^']]) (operatorOf "pow_op" [Token.literal ['^']]) :=
    operatorOf_alike fun _ hscanner => List.mem_singleton.1 hscanner ▸ hR.sign _ rfl
  have htail : ReadsAlike R (n + 1) (n' + 1) 1 _ (powerTail p) (powerTail p') :=
    operatorStep_alike hR hpow hp
  rw [power_eq, power_eq]
  refine (calls_alike hR (expressionOver_alike hR hp)).bind fun _ _ hbase => ?_
  refine htail.weaken.maybe.bind fun _ _ hread => ?_
  cases hread with
  | none => exact .pure hbase
  | some hread =>
    exact .pure (by rw [SameTree, Node.bare, Node.bare, hread.1, hbase, hread.2])

lemma prefixed_alike (hp : ReadsAlike R n n' 0 SameTree p p') :
    ReadsAlike R (n + 1) (n' + 1) 0 SameTree (prefixed p) (prefixed p') := by
  have hsigns : ∀ scanner ∈ [Token.literal ['+'], Token.literal ['-'], Token.slash,
      Token.literal ['!']], TakesAlike R scanner := by
    simp only [List.forall_mem_cons, List.not_mem_nil, false_imp_iff, forall_true_iff, and_true]
    exact ⟨hR.sign _ rfl, hR.sign _ rfl, hR.slash, hR.sign _ rfl⟩
  refine ReadsAlike.weaken (d := 1) (.bind (.located (V := fun r r' => r.1.text = r'.1.text ∧
    SameTree r.2 r'.2) ?_) fun r r' hr => .pure ?_)
  · refine (TakesAlike.findSome? hsigns).located.bind fun _ _ htext => ?_
    exact (gap_alike hR).bind fun _ _ _ => hp.bind fun _ _ hinner => .pure ⟨htext, hinner⟩
  · rw [SameTree, Node.bare, Node.bare, hr.1, hr.2]

/-- Operands are read alike whatever the bounds on their nesting are, if these are no less than the
lengths of the texts. -/
lemma operand_alike (n n' : ℕ) : ReadsAlike R n n' 0 SameTree (operand n) (operand n') := by
  induction n generalizing n' with
  | zero => exact .of_zero_left
  | succ n ih =>
    cases n' with
    | zero => exact .of_zero_right
    | succ n' => exact (prefixed_alike hR (ih n')).orElse (power_alike hR (ih n'))

lemma expression_alike : ReadsAlike R n n' 0 SameTree expression expression :=
  fun c c' hrest _ _ => expressionOver_alike hR (operand_alike hR _ _) c c' hrest
    (Nat.lt_succ_self _) (Nat.lt_succ_self _)

end Expressions

/-! ## Statements -/

lemma statement_alike (hR : Tokenwise R) : ReadsAlike R n n' 0 SameTree statement statement := by
  have hdefinition : ReadsAlike R n n' 1 SameTree definition definition := by
    refine .bind (.located (V := fun r r' => r.1 = r'.1 ∧ r.2.1 = r'.2.1 ∧
      SameTree r.2.2 r'.2.2) ?_) fun r r' hr => .pure ?_
    · refine (name_alike hR).bind fun _ _ hf => (gap_alike hR).bind fun _ _ _ => ?_
      have hparams : ReadsAlike R (n - 1 - 1) (n' - 1 - 1) 0 (List.Forall₂ fun r r' => r.2 = r'.2)
          (sepBy name comma) (sepBy name comma) := (name_alike hR).weaken.sepBy (comma_alike hR)
      refine (parenthesized_alike hR hparams).weaken.bind fun params params' hsame => ?_
      refine (equals_alike hR).weaken.bind fun _ _ _ => ?_
      refine (expression_alike hR).bind fun _ _ hbody => .pure ⟨hf, ?_, hbody⟩
      induction hsame with
      | nil => rfl
      | cons hparam _ ih => exact congrArg₂ List.cons hparam ih
    · rw [SameTree, Node.bare, Node.bare, hr.1, hr.2.1, hr.2.2]
  have hassignment : ReadsAlike R n n' 1 SameTree assignment assignment := by
    refine .bind (.located (V := fun r r' => r.1 = r'.1 ∧ SameTree r.2 r'.2) ?_)
      fun r r' hr => .pure ?_
    · refine (name_alike hR).bind fun _ _ hx => (equals_alike hR).weaken.bind fun _ _ _ => ?_
      exact (expression_alike hR).bind fun _ _ hvalue => .pure ⟨hx, hvalue⟩
    · rw [SameTree, Node.bare, Node.bare, hr.1, hr.2]
  exact hdefinition.weaken.orElse (hassignment.weaken.orElse (expression_alike hR))

end SignalCalc.Syntax
