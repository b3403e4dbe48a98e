import SignalCalc.Proofs.Printing.Numeral
import SignalCalc.Proofs.Signal.Nodes
import SignalCalc.Proofs.Syntax.Spelling

/-!
# Printed sounds as expressions

`Sound.expression` is the expression that builds a sound, and `Sound.written` says that the printed
text of the sound is a way to write it.  The printer decides about parentheses by strengths and
sides, the grammar by levels; each strength is a level, and an operand that the printer leaves
without parentheses binds tight enough for its place.
-/

namespace SignalCalc.Signal

open SignalCalc.Builtin
open SignalCalc.Number
open SignalCalc.Syntax
open SignalCalc.Syntax.Layout
open SignalCalc.Syntax.Token

/-- A number with a minus sign in front if it is negative. -/
def signedNode (negative : Bool) (size : Float) : Node :=
  if negative then .unary none .minus (.number none size) else .number none size

/-- A real as a program writes it. -/
def realNode (x : Float) : Node := signedNode (x < 0.0) x.abs

/-- A whole number as a program writes it. -/
def wholeNode (n : Int) : Node := signedNode (n < 0) (Float.ofNat n.natAbs)

/-- A whole number from outside as a program writes it, from ten to the sixteenth on like its
float. -/
def wholeNumberNode (n : Int) : Node :=
  if n.natAbs < 10 ^ 16 then wholeNode n else realNode (Float.ofInt n)

/-- A call of a function by its name. -/
def callNode (f : String) (args : List Node) : Node := .invocation none (.identifier none f) args

/-- An argument with the name it is given by. -/
def labelledNode : Option String → Node → Node
  | some name, e => .keyword none name e
  | none, e => e

mutual
/-- The expression that builds a sound.  There is none for a decay: a program gives the time in
which it falls, and that may not be exact. -/
def Sound.expression : Sound Float → Node
  | .const v => realNode v
  | .linear slope intercept => callNode "Linear" [realNode slope, realNode intercept]
  | .sine frequency phase =>
    if phase == 0.0 then callNode "Sin" [realNode frequency]
    else callNode "Sin" [realNode frequency, realNode phase]
  | .decay _ _ => .missing
  | .noise none => callNode "Rand" []
  | .noise (some seed) => callNode "Noise" [wholeNode seed]
  | .minus s => .unary none .minus s.expression
  | .reciprocal s => .unary none .slash s.expression
  | .binary op left right => .binary none (.arithmetic op) left.expression right.expression
  | .apply f args => callNode f.name (Sound.argumentExpressions args)

/-- The arguments of a call that builds a sound. -/
def Sound.argumentExpressions : List (Argument Float) → List Node
  | [] => []
  | .real label x :: rest => labelledNode label (realNode x) :: argumentExpressions rest
  | .whole label n :: rest => labelledNode label (wholeNumberNode n) :: argumentExpressions rest
  | .sound label s :: rest => labelledNode label s.expression :: argumentExpressions rest
end

/-- The reals that make up a leaf. -/
def Sound.parameters : Sound Float → List Float
  | .const v => [v]
  | .linear a b | .sine a b | .decay a b => [a, b]
  | .noise _ | .minus _ | .reciprocal _ | .binary _ _ _ | .apply _ _ => []

/-- A number that a program can give: a finite one, and a whole one only if it has a float of its
own. -/
def Argument.IsPrintable : Argument Float → Prop
  | .real _ x => x.isFinite = true
  | .whole _ n => IsExact n
  | .sound _ _ => True

/-- A call of a real function: those arguments that have no name come first, and every parameter is
given once. -/
structure IsApplication (f : RealFunction) (args : List (Argument Float)) : Prop where
  labels : ∃ (k : ℕ) (names : List String), k ≤ f.parameterNames.length ∧
    names.Perm (f.parameterNames.drop k) ∧
    args.map Argument.label = List.replicate k none ++ names.map some
  printable : ∀ arg ∈ args, arg.IsPrintable

/-- A node that a program can build from the text that is printed for it. -/
def Sound.IsPrintable (s : Sound Float) : Prop :=
  (∀ x ∈ s.parameters, x.isFinite = true) ∧
    match s with
    | .decay _ _ => False
    | .noise seed => ∀ n ∈ seed, IsExact n
    | .apply f args => ∃ g, f = .real g ∧ IsApplication g args
    | _ => True

/-- The digits printed for the size of a real are one numeral, and it reads back as that size. -/
def ReadsBack (x : Float) : Prop := IsNumeral (realText x.abs).toList x.abs

/-- So are the digits of a number among the arguments.  Those of a whole number are the digits of a
float from ten to the sixteenth on. -/
def Argument.ReadsBack : Argument Float → Prop
  | .real _ x => Signal.ReadsBack x
  | .whole _ n => 10 ^ 16 ≤ n.natAbs →
      IsNumeral (exactText (Float.ofInt n).abs).toList (Float.ofInt n).abs
  | .sound _ _ => True

/-- The digits printed for the numbers in a node itself read back. -/
def Sound.DigitsReadBack (s : Sound Float) : Prop :=
  (∀ x ∈ s.parameters, Signal.ReadsBack x) ∧
    match s with
    | .apply _ args => ∀ arg ∈ args, arg.ReadsBack
    | _ => True

/-! ## Numbers and calls -/

lemma written_signed (negative : Bool) {size : Float} {digits : List Char}
    (h : IsNumeral digits size) :
    Written (.level (if negative then 6 else 7)) (signedNode negative size)
      (if negative then '-' :: digits else digits) := by
  have hnumber : Written (.level 7) (.number none size) digits := .number h
  cases negative with
  | false => exact hnumber
  | true =>
    exact @Written.unary none .minus _ digits [] trivial (.tighter le_rfl hnumber) .nil nofun

lemma written_real {x : Float} (hx : x.isFinite = true) (h : ReadsBack x) :
    Written (.level (if x < 0.0 then 6 else 7)) (realNode x) (realText x).toList := by
  rw [realText_eq hx, realNode]
  by_cases hlt : x < 0.0
  · rw [if_pos hlt, if_pos hlt, decide_eq_true hlt, String.toList_append]
    exact written_signed true h
  · rw [if_neg hlt, if_neg hlt, decide_eq_false hlt]
    exact written_signed false h

lemma written_whole {n : Int} (h : IsExact n) :
    Written (.level (if n < 0 then 6 else 7)) (wholeNode n) (wholeText n).toList := by
  have hdigits : IsNumeral (String.ofList (Nat.toDigits 10 n.natAbs)).toList
      (Float.ofNat n.natAbs) := by
    rw [String.toList_ofList]
    exact isNumeral_toDigits h.natAbs_lt
  rw [wholeText, wholeNode]
  by_cases hlt : n < 0
  · rw [if_pos hlt, if_pos hlt, decide_eq_true hlt, String.toList_append]
    exact written_signed true hdigits
  · rw [if_neg hlt, if_neg hlt, decide_eq_false hlt]
    exact written_signed false hdigits

lemma written_number {x : Float} (hx : x.isFinite = true) (h : ReadsBack x) :
    Written (.level 0) (realNode x) (realText x).toList :=
  (written_real hx h).loosen (Nat.zero_le _) (by split <;> decide)

lemma written_wholeNumber {n : Int} (h : IsExact n) (hread : (Argument.whole none n).ReadsBack) :
    Written (.level 0) (wholeNumberNode n) (wholeNumberText n).toList := by
  rw [wholeNumberNode, wholeNumberText]
  by_cases hsmall : n.natAbs < 10 ^ 16
  · rw [if_pos hsmall, if_pos hsmall]
    exact (written_whole h).loosen (Nat.zero_le _) (by split <;> decide)
  · have hn : n ≠ 0 := by
      rintro rfl
      exact hsmall (by decide)
    rw [if_neg hsmall, if_neg hsmall, exactText_eq h.isFinite (h.not_zero hn), realNode]
    have hdigits := hread (Nat.le_of_not_lt hsmall)
    by_cases hlt : Float.ofInt n < 0.0
    · rw [if_pos hlt, decide_eq_true hlt, String.toList_append]
      exact (written_signed true hdigits).loosen (Nat.zero_le _) (by decide)
    · rw [if_neg hlt, decide_eq_false hlt]
      exact (written_signed false hdigits).loosen (Nat.zero_le _) (by decide)

/-- Texts with a comma and a space between them. -/
lemma separated_intercalate (texts : List String) :
    Separated (texts.map String.toList) (", ".intercalate texts).toList := by
  induction texts with
  | nil => exact .nil
  | cons t texts ih =>
    cases texts with
    | nil =>
      rw [String.intercalate_singleton]
      exact .single t.toList
    | cons t' texts =>
      rw [String.intercalate_cons_cons, String.toList_append, String.toList_append,
        List.append_assoc]
      exact .cons ih .nil isGap_space

lemma written_call {f : String} (hf : IsName f.toList) {args : List (Node × String)}
    (hargs : ∀ arg ∈ args, Written .argument arg.1 arg.2.toList) :
    Written (.level 7) (callNode f (args.map Prod.fst))
      (f ++ "(" ++ ", ".intercalate (args.map Prod.snd) ++ ")").toList := by
  have hseparated := separated_intercalate (args.map Prod.snd)
  have htexts : (args.map fun arg => (arg.1, arg.2.toList)).map Prod.snd =
      (args.map Prod.snd).map String.toList := by
    rw [List.map_map, List.map_map]
    rfl
  have hnodes : (args.map fun arg => (arg.1, arg.2.toList)).map Prod.fst = args.map Prod.fst := by
    rw [List.map_map]
    rfl
  rw [← htexts] at hseparated
  have hcall := @Written.call none _ _ _ [] [] (args.map fun arg => (arg.1, arg.2.toList))
    (@Written.identifier none f hf) (fun arg harg => ?_) hseparated .nil .nil
  · rw [hnodes] at hcall
    rw [String.toList_append, String.toList_append, String.toList_append, List.append_assoc,
      List.append_assoc]
    exact hcall
  · obtain ⟨arg', harg', rfl⟩ := List.mem_map.1 harg
    exact hargs arg' harg'

/-! ## Operands -/

/-- The level of the grammar that a strength stands for. -/
def Strength.level : Strength → ℕ
  | loosest => 0
  | sum => 4
  | product => 5
  | sign | power => 6
  | atom => 7

/-- The level of a left operand. -/
def leftLevel : Operator → ℕ
  | .pow => 7
  | op => (BinaryOperator.arithmetic op).level

/-- The level of a right operand. -/
def rightLevel : Operator → ℕ
  | .pow => 6
  | op => (BinaryOperator.arithmetic op).level + 1

variable {s : Sound Float}

lemma needsParentheses_eq (place : Strength) (rightSide : Bool) :
    s.needsParentheses place rightSide = (decide (s.strength.rank < place.rank) ||
      (s.strength == place && s.strength != .atom && rightSide != (s.strength == .power))) := by
  cases s with
  | const v =>
    have hpower : ((Sound.const v).strength == .power) = false := by
      rw [Sound.strength]
      split <;> rfl
    rw [hpower]
    rfl
  | binary op left right => cases op <;> rfl
  | _ => rfl

lemma sign_level_le (h : s.needsParentheses .sign true = false) : 6 ≤ s.strength.level := by
  rw [needsParentheses_eq] at h
  revert h
  cases s.strength <;> decide

lemma leftLevel_le {op : Operator} (h : s.needsParentheses op.strength false = false) :
    leftLevel op ≤ s.strength.level := by
  rw [needsParentheses_eq] at h
  revert h
  cases op <;> cases s.strength <;> decide

lemma rightLevel_le {op : Operator} (h : s.needsParentheses op.strength true = false) :
    rightLevel op ≤ s.strength.level := by
  rw [needsParentheses_eq] at h
  revert h
  cases op <;> cases s.strength <;> decide

lemma leftLevel_le_seven (op : Operator) : leftLevel op ≤ 7 := by cases op <;> decide

lemma rightLevel_le_seven (op : Operator) : rightLevel op ≤ 7 := by cases op <;> decide

/-- All operators but the power associate to the left. -/
lemma levels_of_ne_pow {op : Operator} (hop : op ≠ .pow) :
    (BinaryOperator.arithmetic op).level ≤ 5 ∧
      op.strength.level = (BinaryOperator.arithmetic op).level ∧
        leftLevel op = (BinaryOperator.arithmetic op).level ∧
          rightLevel op = (BinaryOperator.arithmetic op).level + 1 := by
  cases op with
  | pow => exact absurd rfl hop
  | add | sub | mul | div => exact ⟨by decide, rfl, rfl, rfl⟩

lemma Strength.level_le (strength : Strength) : strength.level ≤ 7 := by
  cases strength <;> decide

/-- An operand binds tight enough for its place, or stands in parentheses. -/
lemma written_operand {needed : Bool} {k : ℕ}
    (hs : Written (.level s.strength.level) s.expression s.text.toList)
    (hk : needed = false → k ≤ s.strength.level) (hk' : k ≤ 7) :
    Written (.level k) s.expression (parenthesizedIf needed s.text).toList := by
  cases needed with
  | false => exact hs.loosen (hk rfl) s.strength.level_le
  | true =>
    have hloose := hs.loosen (Nat.zero_le _) s.strength.level_le
    have hgroup := (Written.parentheses hloose .nil .nil).loosen hk' le_rfl
    rw [parenthesizedIf, if_pos rfl, String.toList_append, String.toList_append, List.append_assoc]
    exact hgroup

lemma needsParentheses_sign (h : s.strength = .sign) : s.needsParentheses .sign true = true := by
  rw [needsParentheses_eq, h]
  rfl

lemma expression_ne_unary (h : s.needsParentheses .sign true = false) :
    ∀ loc op operand, s.expression ≠ .unary loc op operand := by
  intro loc op operand heq
  have hsign : s.strength ≠ .sign := fun hs => by
    rw [needsParentheses_sign hs] at h
    cases h
  cases s with
  | const v =>
    have hlt : ¬v < 0.0 := fun hlt => hsign (if_pos hlt)
    rw [Sound.expression, realNode, decide_eq_false hlt] at heq
    cases heq
  | minus s => exact hsign rfl
  | reciprocal s => exact hsign rfl
  | sine frequency phase =>
    rw [Sound.expression] at heq
    split at heq <;> cases heq
  | noise seed =>
    cases seed with
    | none => cases heq
    | some seed => cases heq
  | _ => cases heq

/-- A sound behind an operator before its operand. -/
lemma written_prefixed {op : UnaryOperator} (hop : op.IsWritten)
    (hs : Written (.level s.strength.level) s.expression s.text.toList) :
    Written (.level 6) (.unary none op s.expression)
      (op.symbol.toList ++
        (parenthesizedIf (s.needsParentheses .sign true) s.text).toList) := by
  have hoperand := written_operand hs sign_level_le (by decide)
  have hstart : ∃ c cs, (parenthesizedIf (s.needsParentheses .sign true) s.text).toList = c :: cs ∧
      startsPrimary c = true := by
    cases hneeded : s.needsParentheses .sign true with
    | false =>
      rw [hneeded] at hoperand
      exact hoperand.startsPrimary_of_ne_unary (expression_ne_unary hneeded)
    | true =>
      rw [parenthesizedIf, if_pos rfl, String.toList_append, String.toList_append]
      exact ⟨_, _, rfl, by decide⟩
  obtain ⟨c, cs, htext, hc⟩ := hstart
  rw [htext] at hoperand ⊢
  exact @Written.unary none op _ (c :: cs) [] hop hoperand .nil fun _ =>
    ⟨fun heq => ne_of_startsPrimary hc (by decide) (Option.some.inj heq),
      fun heq => ne_of_startsPrimary hc (by decide) (Option.some.inj heq)⟩

/-- Two sounds with an operator between them. -/
lemma written_binary {op : Operator} {left right : Sound Float}
    (hl : Written (.level left.strength.level) left.expression left.text.toList)
    (hr : Written (.level right.strength.level) right.expression right.text.toList) :
    Written (.level (Sound.binary op left right).strength.level)
      (Sound.binary op left right).expression (Sound.binary op left right).text.toList := by
  have hleft := written_operand hl (@leftLevel_le left op) (leftLevel_le_seven op)
  have hright := written_operand hr (@rightLevel_le right op) (rightLevel_le_seven op)
  have htext : (Sound.binary op left right).text.toList =
      (parenthesizedIf (left.needsParentheses op.strength false) left.text).toList ++
        ([' '] ++ ((BinaryOperator.arithmetic op).symbol.toList ++ ([' '] ++
          (parenthesizedIf (right.needsParentheses op.strength true) right.text).toList))) := by
    simp only [Sound.text, String.toList_append, List.append_assoc]
    rfl
  rw [htext]
  by_cases hop : op = .pow
  · subst hop
    exact @Written.power none _ _ _ _ [' '] [' '] hleft hright isGap_space isGap_space
  · obtain ⟨hlevel, hstrength, hl, hr⟩ := levels_of_ne_pow hop
    rw [hl] at hleft
    rw [hr] at hright
    rw [Sound.strength, hstrength]
    exact @Written.binary none (.arithmetic op) _ _ _ _ [' '] [' '] hlevel hleft hright isGap_space
      isGap_space fun _ => noComment_space _

/-! ## Arguments -/

/-- The expression of an argument, without its name. -/
def Argument.expression : Argument Float → Node
  | .real _ x => realNode x
  | .whole _ n => wholeNumberNode n
  | .sound _ s => s.expression

/-- The text of an argument, without its name. -/
def Argument.text : Argument Float → String
  | .real _ x => realText x
  | .whole _ n => wholeNumberText n
  | .sound _ s => s.text

lemma argumentExpressions_eq (args : List (Argument Float)) :
    Sound.argumentExpressions args = args.map fun arg => labelledNode arg.label arg.expression := by
  induction args with
  | nil => rfl
  | cons arg rest ih => cases arg <;> rw [Sound.argumentExpressions, ih] <;> rfl

lemma argumentTexts_eq (args : List (Argument Float)) :
    Sound.argumentTexts args = args.map fun arg => labelText arg.label ++ arg.text := by
  induction args with
  | nil => rfl
  | cons arg rest ih => cases arg <;> rw [Sound.argumentTexts, ih] <;> rfl

lemma written_labelled {label : Option String} {e : Node} {t : String}
    (hlabel : ∀ name ∈ label, IsName name.toList) (he : Written (.level 0) e t.toList) :
    Written .argument (labelledNode label e) (labelText label ++ t).toList := by
  rw [String.toList_append]
  cases label with
  | none => exact .positional he
  | some name =>
    rw [labelText, String.toList_append, List.append_assoc]
    exact @Written.keyword none name _ _ [] [] (hlabel name rfl) he .nil .nil

/-- The test whether a text is a name. -/
def spellsName : List Char → Bool
  | [] => false
  | c :: cs => startsName c && cs.all continuesName

lemma isName_of_spellsName {x : List Char} (h : spellsName x = true) : IsName x := by
  cases x with
  | nil => cases h
  | cons c cs =>
    obtain ⟨hc, hcs⟩ := Bool.and_eq_true_iff.1 h
    exact ⟨c, cs, rfl, hc, List.all_eq_true.1 hcs⟩

lemma isName_function (f : RealFunction) : IsName f.name.toList :=
  isName_of_spellsName (by cases f <;> decide +kernel)

lemma isName_constructor (c : Constructor) : IsName c.name.toList :=
  isName_of_spellsName (by cases c <;> decide +kernel)

lemma isName_parameter (f : RealFunction) : ∀ name ∈ f.parameterNames, IsName name.toList := by
  have hall : f.parameterNames.all (fun name => spellsName name.toList) = true := by
    cases f <;> decide +kernel
  exact fun name hname => isName_of_spellsName (List.all_eq_true.1 hall name hname)

/-- An argument is given by the name of a parameter, if by any. -/
lemma IsApplication.mem_parameterNames {f : RealFunction} {args : List (Argument Float)}
    (h : IsApplication f args) {arg : Argument Float} (harg : arg ∈ args) :
    ∀ name ∈ arg.label, name ∈ f.parameterNames := by
  obtain ⟨k, names, -, hperm, hlabels⟩ := h.labels
  intro name hname
  have hmem : some name ∈ args.map Argument.label := List.mem_map.2 ⟨arg, harg, hname⟩
  rw [hlabels, List.mem_append] at hmem
  rcases hmem with hmem | hmem
  · cases List.eq_of_mem_replicate hmem
  · obtain ⟨_, hname', heq⟩ := List.mem_map.1 hmem
    obtain rfl := Option.some.inj heq
    exact List.mem_of_mem_drop (hperm.mem_iff.1 hname')

/-- A call of a constructor with some reals. -/
lemma written_build (c : Constructor) {xs : List Float} (hfinite : ∀ x ∈ xs, x.isFinite = true)
    (hread : ∀ x ∈ xs, ReadsBack x) :
    Written (.level 7) (callNode c.name (xs.map realNode))
      (c.name ++ "(" ++ ", ".intercalate (xs.map realText) ++ ")").toList := by
  have hcall := @written_call c.name (isName_constructor c)
    (xs.map fun x => (realNode x, realText x)) fun arg harg => by
      obtain ⟨x, hx, rfl⟩ := List.mem_map.1 harg
      exact .positional (written_number (hfinite x hx) (hread x hx))
  rwa [List.map_map, List.map_map] at hcall

/-! ## Sounds -/

/-- The printed text of a sound is a way to write the expression that builds it. -/
lemma Sound.written (h : s.Everywhere Sound.IsPrintable)
    (hread : s.Everywhere Sound.DigitsReadBack) :
    Written (.level s.strength.level) s.expression s.text.toList := by
  induction s with
  | const v =>
    have hv := written_real ((everywhere_const.1 h).1 v List.mem_cons_self)
      ((everywhere_const.1 hread).1 v List.mem_cons_self)
    rw [Sound.strength, apply_ite Strength.level]
    exact hv
  | linear slope intercept =>
    have hcall := written_build .linear (everywhere_linear.1 h).1 (everywhere_linear.1 hread).1
    have htext : (Sound.linear slope intercept).text = Constructor.linear.name ++ "(" ++
        ", ".intercalate ([slope, intercept].map realText) ++ ")" := by
      refine String.toList_inj.1 ?_
      simp [Sound.text, Constructor.name]
    rw [htext]
    exact hcall
  | sine frequency phase =>
    obtain ⟨hfinite, -⟩ := everywhere_sine.1 h
    obtain ⟨hdigits, -⟩ := everywhere_sine.1 hread
    by_cases hphase : (phase == 0.0) = true
    · have hcall := written_build .sine
        (List.forall_mem_singleton.2 (hfinite frequency List.mem_cons_self))
        (List.forall_mem_singleton.2 (hdigits frequency List.mem_cons_self))
      have htext : (Sound.sine frequency phase).text = Constructor.sine.name ++ "(" ++
          ", ".intercalate ([frequency].map realText) ++ ")" := by
        refine String.toList_inj.1 ?_
        simp [Sound.text, Constructor.name, hphase]
      rw [htext, Sound.expression, if_pos hphase]
      exact hcall
    · have hcall := written_build .sine hfinite hdigits
      have htext : (Sound.sine frequency phase).text = Constructor.sine.name ++ "(" ++
          ", ".intercalate ([frequency, phase].map realText) ++ ")" := by
        refine String.toList_inj.1 ?_
        simp [Sound.text, Constructor.name, hphase]
      rw [htext, Sound.expression, if_neg hphase]
      exact hcall
  | decay coefficient intercept => exact (everywhere_decay.1 h).2.elim
  | noise seed =>
    cases seed with
    | none => exact @written_call "Rand" (isName_constructor .rand) [] nofun
    | some seed =>
      have hseed := written_whole ((everywhere_noise.1 h).2 seed rfl)
      have hcall := @written_call "Noise" (isName_constructor .noise)
        [(wholeNode seed, wholeText seed)] (List.forall_mem_singleton.2 (.positional
          (hseed.loosen (Nat.zero_le _) (by split <;> decide))))
      have htext : (Sound.noise (some seed)).text = "Noise" ++ "(" ++
          ", ".intercalate [wholeText seed] ++ ")" := by
        refine String.toList_inj.1 ?_
        simp [Sound.text]
      rw [htext]
      exact hcall
  | minus s ih =>
    obtain ⟨-, hs⟩ := everywhere_minus.1 h
    obtain ⟨-, hreads⟩ := everywhere_minus.1 hread
    rw [Sound.text, String.toList_append]
    exact @written_prefixed s .minus trivial (ih hs hreads)
  | reciprocal s ih =>
    obtain ⟨-, hs⟩ := everywhere_reciprocal.1 h
    obtain ⟨-, hreads⟩ := everywhere_reciprocal.1 hread
    rw [Sound.text, String.toList_append]
    exact @written_prefixed s .slash trivial (ih hs hreads)
  | binary op left right ihl ihr =>
    obtain ⟨-, hl, hr⟩ := everywhere_binary.1 h
    obtain ⟨-, hreadl, hreadr⟩ := everywhere_binary.1 hread
    exact written_binary (ihl hl hreadl) (ihr hr hreadr)
  | apply f args ih =>
    obtain ⟨⟨-, f, rfl, happlication⟩, hargs⟩ := everywhere_apply.1 h
    obtain ⟨⟨-, hdigits⟩, hreadArgs⟩ := everywhere_apply.1 hread
    have hargument : ∀ arg ∈ args, Written .argument (labelledNode arg.label arg.expression)
        (labelText arg.label ++ arg.text).toList := by
      intro arg harg
      have hlabel : ∀ name ∈ arg.label, IsName name.toList := fun name hname =>
        isName_parameter f name (happlication.mem_parameterNames harg name hname)
      have hprintable := happlication.printable arg harg
      have hdigitsArg := hdigits arg harg
      refine written_labelled hlabel ?_
      cases arg with
      | real label x => exact written_number hprintable hdigitsArg
      | whole label n => exact written_wholeNumber hprintable hdigitsArg
      | sound label s =>
        have hs := ih label s harg (hargs label s harg) (hreadArgs label s harg)
        exact hs.loosen (Nat.zero_le _) (Strength.level_le _)
    have hcall := @written_call f.name (isName_function f)
      (args.map fun arg =>
        (labelledNode arg.label arg.expression, labelText arg.label ++ arg.text))
      (List.forall_mem_map.2 hargument)
    rw [List.map_map, List.map_map] at hcall
    rw [Sound.text, Sound.expression, argumentExpressions_eq, argumentTexts_eq]
    exact hcall

/-- The printed text of a sound is read as the expression that builds it. -/
lemma Sound.parse_text (h : s.Everywhere Sound.IsPrintable)
    (hread : s.Everywhere Sound.DigitsReadBack) :
    ∃ node, parse s.text = .ok [node] ∧ node.bare = s.expression.bare :=
  ((Sound.written h hread).loosen (Nat.zero_le _) s.strength.level_le).parse_eq

end SignalCalc.Signal
