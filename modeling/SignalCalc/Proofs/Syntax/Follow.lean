import Mathlib.Tactic.IntervalCases
import SignalCalc.Proofs.Syntax.Reads
import SignalCalc.Proofs.Syntax.Written
import SignalCalc.Syntax.Grammar

/-!
# What follows an expression

An expression is read up to where no operator that binds tight enough and no call goes on:
`Follows k rest` says that an operand of level `k` ends before `rest`.  Operators of different
levels start with different characters, so an operand ends before every operator that binds
looser (`follows_operator`); every expression ends before a comma, a closing parenthesis or the
end of a statement (`follows_mark`).
-/

namespace SignalCalc.Syntax

open SignalCalc.Syntax.Layout
open SignalCalc.Syntax.Parser
open SignalCalc.Syntax.Token
open SignalCalc.Text

/-! ## Operators of one level -/

/-- Reads a binary operator. -/
def BinaryOperator.scan : BinaryOperator → List Char → Option (List Char)
  | arithmetic .div => slash
  | op => literal op.symbol.toList

lemma slash_append {rest : List Char} (h : NoComment rest) : slash ('/' :: rest) = some rest := by
  unfold slash
  split
  · rename_i heq
    exact absurd (congrArg List.head? (List.cons.inj heq).2) h.1
  · rename_i heq
    exact absurd (congrArg List.head? (List.cons.inj heq).2) h.2
  · rename_i heq
    rw [(List.cons.inj heq).2]
  · rename_i hne
    exact absurd rfl (hne rest)

lemma slash_cons_of_ne {c : Char} (h : c ≠ '/') (rest : List Char) : slash (c :: rest) = none := by
  unfold slash
  split
  · rfl
  · rfl
  · exact absurd (List.cons.inj ‹_›).1 h
  · rfl

namespace BinaryOperator

lemma scan_append {op : BinaryOperator} {rest : List Char}
    (hslash : op = .arithmetic .div → NoComment rest) :
    op.scan (op.symbol.toList ++ rest) = some rest := by
  cases op with
  | arithmetic op =>
    cases op with
    | div => exact slash_append (hslash rfl)
    | _ => exact literal_append _ _
  | _ => exact literal_append _ _

/-- The character that the operator starts with. -/
def initial : BinaryOperator → Char
  | or => '|'
  | and => '&'
  | equal => '='
  | unequal => '!'
  | less => '<'
  | greater => '>'
  | arithmetic .add => '+'
  | arithmetic .sub => '-'
  | arithmetic .mul => '*'
  | arithmetic .div => '/'
  | arithmetic .pow => '^'
  | other _ => ' '

lemma symbol_eq_cons {op : BinaryOperator} (h : op.IsWritten) :
    ∃ cs, op.symbol.toList = op.initial :: cs := by
  cases op with
  | arithmetic op => cases op <;> exact ⟨_, rfl⟩
  | other symbol => exact h.elim
  | _ => exact ⟨_, rfl⟩

lemma scan_cons_of_ne {op : BinaryOperator} (hop : op.IsWritten) {c : Char} (h : c ≠ op.initial)
    (rest : List Char) : op.scan (c :: rest) = none := by
  cases op with
  | arithmetic op =>
    cases op with
    | div => exact slash_cons_of_ne h rest
    | _ => exact literal_cons_of_ne h.symm _ _
  | other symbol => exact hop.elim
  | _ => exact literal_cons_of_ne h.symm _ _

lemma scan_nil {op : BinaryOperator} (hop : op.IsWritten) : op.scan [] = none := by
  cases op with
  | arithmetic op =>
    cases op with
    | div => rfl
    | _ => exact literal_nil _ _
  | other symbol => exact hop.elim
  | _ => exact literal_nil _ _

/-- The operator that starts with a character. -/
def ofInitial : Char → BinaryOperator
  | '|' => or
  | '&' => and
  | '=' => equal
  | '!' => unequal
  | '<' => less
  | '>' => greater
  | '+' => arithmetic .add
  | '-' => arithmetic .sub
  | '*' => arithmetic .mul
  | '/' => arithmetic .div
  | '^' => arithmetic .pow
  | _ => other ""

lemma ofInitial_initial {op : BinaryOperator} (h : op.IsWritten) : ofInitial op.initial = op := by
  cases op with
  | arithmetic op => cases op <;> rfl
  | other symbol => exact h.elim
  | _ => rfl

/-- The first character tells the operator. -/
lemma eq_of_initial_eq {op op' : BinaryOperator} (hop : op.IsWritten) (hop' : op'.IsWritten)
    (h : op.initial = op'.initial) : op = op' := by
  rw [← ofInitial_initial hop, h, ofInitial_initial hop']

/-- The characters that an operator starts with mean nothing else. -/
lemma initial_spec {op : BinaryOperator} (hop : op.IsWritten) :
    op.initial ≠ ' ' ∧ op.initial ≠ '\t' ∧ op.initial ≠ '(' ∧ op.initial ≠ '.' ∧
      continuesName op.initial = false ∧ isDigit op.initial = false := by
  cases op with
  | arithmetic op => cases op <;> decide
  | other symbol => exact hop.elim
  | _ => decide

end BinaryOperator

/-! ## The end of an operand -/

/-- An operand of level `k` ends here. -/
structure Follows (k : ℕ) (rest : List Char) : Prop where
  ends : Ends rest
  /-- No call goes on. -/
  call : rest.head? ≠ some '('
  /-- No operator that binds as tight goes on. -/
  operator : ∀ op : BinaryOperator, op.IsWritten → k ≤ op.level → op.scan (inside rest) = none

lemma Follows.mono {k k' : ℕ} {rest : List Char} (h : Follows k rest) (hk : k ≤ k') :
    Follows k' rest :=
  ⟨h.ends, h.call, fun op hop hlevel => h.operator op hop (hk.trans hlevel)⟩

/-- Layout starts with a blank or a slash. -/
lemma head?_gap_append {g rest : List Char} (hg : IsGap g) :
    (g ++ rest).head? = rest.head? ∨ (g ++ rest).head? = some ' ' ∨
      (g ++ rest).head? = some '\t' ∨ (g ++ rest).head? = some '/' := by
  cases hg with
  | nil => exact .inl rfl
  | blank hc _ =>
    rcases hc with rfl | rfl
    · exact .inr (.inl rfl)
    · exact .inr (.inr (.inl rfl))
  | comment _ _ => exact .inr (.inr (.inr rfl))

lemma ends_gap_append {g rest : List Char} (hg : IsGap g) (h : Ends rest) : Ends (g ++ rest) := by
  intro c hc
  rcases head?_gap_append hg with heq | heq | heq | heq
  · exact h c (heq ▸ hc)
  all_goals
    rw [heq] at hc
    obtain rfl := Option.some.inj hc
    decide

lemma call_gap_append {g rest : List Char} (hg : IsGap g) (h : rest.head? ≠ some '(') :
    (g ++ rest).head? ≠ some '(' := by
  rcases head?_gap_append hg with heq | heq | heq | heq
  · rwa [heq]
  all_goals
    rw [heq]
    decide

lemma Follows.gap_append {k : ℕ} {g rest : List Char} (hg : IsGap g) (h : Follows k rest) :
    Follows k (g ++ rest) :=
  ⟨ends_gap_append hg h.ends, call_gap_append hg h.call, fun op hop hk => by
    rw [inside_gap hg]
    exact h.operator op hop hk⟩

/-- A mark that ends an expression. -/
def IsMark (c : Char) : Prop := c = ')' ∨ c = ',' ∨ c = ';' ∨ c = '\n'

lemma inside_mark {c : Char} (hc : IsMark c) (rest : List Char) :
    inside (c :: rest) = c :: rest := by
  rcases hc with rfl | rfl | rfl | rfl
  all_goals exact inside_cons (by decide) (by decide) (by decide) rest

lemma follows_mark {c : Char} (hc : IsMark c) (rest : List Char) : Follows 0 (c :: rest) where
  ends := by
    rcases hc with rfl | rfl | rfl | rfl
    all_goals exact ends_cons (by decide) (by decide) (by decide) rest
  call := by
    rcases hc with rfl | rfl | rfl | rfl
    all_goals exact fun h => absurd (Option.some.inj h) (by decide)
  operator op hop _ := by
    rw [inside_mark hc]
    refine BinaryOperator.scan_cons_of_ne hop (fun heq => ?_) rest
    have hunknown : BinaryOperator.ofInitial c = .other "" := by
      rcases hc with rfl | rfl | rfl | rfl
      all_goals rfl
    rw [heq, BinaryOperator.ofInitial_initial hop] at hunknown
    exact (hunknown ▸ hop : (BinaryOperator.other "").IsWritten)

lemma follows_nil : Follows 0 [] :=
  ⟨ends_nil, nofun, fun _ hop _ => BinaryOperator.scan_nil hop⟩

lemma follows_lineComment (rest : List Char) : Follows 0 ('/' :: '/' :: rest) where
  ends := ends_cons (by decide) (by decide) (by decide) _
  call h := absurd (Option.some.inj h) (by decide)
  operator op hop _ := by
    have hstar : ('/' :: rest).head? ≠ some '*' := fun h => absurd (Option.some.inj h) (by decide)
    rw [inside_slash hstar]
    by_cases hdiv : op = .arithmetic .div
    · rw [hdiv]
      rfl
    · exact BinaryOperator.scan_cons_of_ne hop
        (fun heq => hdiv (BinaryOperator.eq_of_initial_eq hop trivial heq.symm)) _

/-- The layout before an operator is skipped up to the operator. -/
lemma inside_symbol {op : BinaryOperator} (hop : op.IsWritten) {rest : List Char}
    (hslash : op = .arithmetic .div → NoComment rest) :
    inside (op.symbol.toList ++ rest) = op.symbol.toList ++ rest := by
  by_cases hdiv : op = .arithmetic .div
  · rw [hdiv]
    exact inside_slash (hslash hdiv).2
  · obtain ⟨cs, hcs⟩ := BinaryOperator.symbol_eq_cons hop
    obtain ⟨hspace, htab, -⟩ := BinaryOperator.initial_spec hop
    rw [hcs, List.cons_append]
    exact inside_cons hspace htab
      (fun h => hdiv (BinaryOperator.eq_of_initial_eq hop trivial h)) _

/-- An operand ends before an operator that binds looser. -/
lemma follows_operator {op : BinaryOperator} (hop : op.IsWritten) {rest : List Char}
    (hslash : op = .arithmetic .div → NoComment rest) :
    Follows (op.level + 1) (op.symbol.toList ++ rest) := by
  have hinside := inside_symbol hop hslash
  obtain ⟨cs, hcs⟩ := BinaryOperator.symbol_eq_cons hop
  obtain ⟨-, -, hcall, hpoint, hname, hdigit⟩ := BinaryOperator.initial_spec hop
  rw [hcs, List.cons_append] at hinside ⊢
  refine ⟨ends_cons hname hdigit hpoint _, fun h => hcall (Option.some.inj h), ?_⟩
  intro op' hop' hlevel
  rw [hinside]
  refine BinaryOperator.scan_cons_of_ne hop' (fun heq => ?_) _
  rw [BinaryOperator.eq_of_initial_eq hop hop' heq] at hlevel
  omega

end SignalCalc.Syntax
