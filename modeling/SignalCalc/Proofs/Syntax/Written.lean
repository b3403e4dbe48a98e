import SignalCalc.Proofs.Syntax.Gaps
import SignalCalc.Proofs.Syntax.Tokens
import SignalCalc.Proofs.Syntax.Expression

/-!
# Written expressions

`Written place e t` says that `t` is a way to write the expression `e` in some place.  A place is
an argument of a call, or an operand that binds at least as tight as a level: the levels `0` to
`5` are those of the operators that associate to the left, `6` is that of the operators before an
operand and of the power, and `7` that of what can be called.

Parentheses have to stand round an operand that binds looser than its place; they may stand round
any other one.  Layout may stand wherever it means nothing.  The one thing to watch is a division
sign: what follows it must not make it the opening of a comment (`NoComment`).
-/

namespace SignalCalc.Syntax

open SignalCalc.Syntax.Layout
open SignalCalc.Syntax.Token

/-- How tight an operator binds. -/
def BinaryOperator.level : BinaryOperator → ℕ
  | or => 0
  | and => 1
  | equal | unequal => 2
  | less | greater => 3
  | arithmetic .add | arithmetic .sub => 4
  | arithmetic .mul | arithmetic .div => 5
  | arithmetic .pow => 6
  | other _ => 7

/-- A slash right before this text opens no comment. -/
def NoComment (text : List Char) : Prop := text.head? ≠ some '/' ∧ text.head? ≠ some '*'

/-- A place in program text in which an expression can stand. -/
inductive Place where
  | argument
  /-- An operand that binds at least as tight as a level. -/
  | level (k : ℕ)

/-- Texts with commas between them, and layout around the commas. -/
inductive Separated : List (List Char) → List Char → Prop where
  | nil : Separated [] []
  | single (t : List Char) : Separated [t] t
  | cons {t t' u g g' : List Char} {ts : List (List Char)} : Separated (t' :: ts) u →
    IsGap g → IsGap g' → Separated (t :: t' :: ts) (t ++ (g ++ ',' :: (g' ++ u)))

/-- The text of an expression in a place. -/
inductive Written : Place → Node → List Char → Prop where
  | number {loc : Option Location} {v : Float} {digits : List Char} :
    IsNumeral digits v → Written (.level 7) (.number loc v) digits
  | string {loc : Option Location} {s : String} :
    IsQuotable s.toList → Written (.level 7) (.string loc s) ('"' :: (s.toList ++ ['"']))
  | identifier {loc : Option Location} {x : String} :
    IsName x.toList → Written (.level 7) (.identifier loc x) x.toList
  | empty {loc : Option Location} {g : List Char} :
    IsGap g → Written (.level 7) (.empty loc) ('(' :: (g ++ [')']))
  | parentheses {e : Node} {t g g' : List Char} :
    Written (.level 0) e t → IsGap g → IsGap g' →
    Written (.level 7) e ('(' :: (g ++ (t ++ (g' ++ [')']))))
  | call {loc : Option Location} {callee : Node} {t u g g' : List Char}
    {args : List (Node × List Char)} :
    Written (.level 7) callee t → (∀ arg ∈ args, Written .argument arg.1 arg.2) →
    Separated (args.map Prod.snd) u → IsGap g → IsGap g' →
    Written (.level 7) (.invocation loc callee (args.map Prod.fst))
      (t ++ '(' :: (g ++ (u ++ (g' ++ [')']))))
  | power {loc : Option Location} {base exponent : Node} {t t' g g' : List Char} :
    Written (.level 7) base t → Written (.level 6) exponent t' → IsGap g → IsGap g' →
    Written (.level 6) (.binary loc (.arithmetic .pow) base exponent)
      (t ++ (g ++ '^' :: (g' ++ t')))
  | unary {loc : Option Location} {op : UnaryOperator} {e : Node} {t g : List Char} :
    op.IsWritten → Written (.level 6) e t → IsGap g → (op = .slash → NoComment (g ++ t)) →
    Written (.level 6) (.unary loc op e) (op.symbol.toList ++ (g ++ t))
  | binary {loc : Option Location} {op : BinaryOperator} {left right : Node}
    {t t' g g' : List Char} :
    op.level ≤ 5 → Written (.level op.level) left t → Written (.level (op.level + 1)) right t' →
    IsGap g → IsGap g' → (op = .arithmetic .div → NoComment (g' ++ t')) →
    Written (.level op.level) (.binary loc op left right)
      (t ++ (g ++ (op.symbol.toList ++ (g' ++ t'))))
  | tighter {k : ℕ} {e : Node} {t : List Char} :
    k ≤ 6 → Written (.level (k + 1)) e t → Written (.level k) e t
  | positional {e : Node} {t : List Char} : Written (.level 0) e t → Written .argument e t
  | keyword {loc : Option Location} {x : String} {e : Node} {t g g' : List Char} :
    IsName x.toList → Written (.level 0) e t → IsGap g → IsGap g' →
    Written .argument (.keyword loc x e) (x.toList ++ (g ++ '=' :: (g' ++ t)))

/-! ## How written text starts -/

/-- Text that starts like an operand: with a character of its own, or with an operator before an
operand that opens no comment. -/
def StartsOperand (t : List Char) : Prop :=
  ∃ c cs, t = c :: cs ∧ (startsPrimary c = true ∨ c = '+' ∨ c = '-' ∨ c = '!' ∨
    c = '/' ∧ cs ≠ [] ∧ NoComment cs)

lemma NoComment.append {t : List Char} (h : NoComment t) (ht : t ≠ []) (rest : List Char) :
    NoComment (t ++ rest) := by
  cases t with
  | nil => exact absurd rfl ht
  | cons c cs => exact h

namespace Written

/-- What can be called starts with a character of its own. -/
lemma startsPrimary {e : Node} {t : List Char} (h : Written (.level 7) e t) :
    ∃ c cs, t = c :: cs ∧ startsPrimary c = true := by
  generalize hplace : Place.level 7 = place at h
  induction h with
  | number hdigits =>
    obtain ⟨c, cs, rfl, hc⟩ := hdigits.head
    exact ⟨c, cs, rfl, by simp [Token.startsPrimary, hc]⟩
  | string _ => exact ⟨_, _, rfl, by decide⟩
  | identifier hx =>
    obtain ⟨c, cs, hx, hc, -⟩ := hx
    exact ⟨c, cs, hx, by simp [Token.startsPrimary, hc]⟩
  | empty _ => exact ⟨_, _, rfl, by decide⟩
  | parentheses _ _ _ _ => exact ⟨_, _, rfl, by decide⟩
  | call _ _ _ _ _ ih _ =>
    obtain ⟨c, cs, rfl, hc⟩ := ih rfl
    exact ⟨c, _, rfl, hc⟩
  | binary hlevel _ _ _ _ _ _ _ =>
    have hk := Place.level.inj hplace
    omega
  | tighter hk _ _ =>
    have hk' := Place.level.inj hplace
    omega
  | power | unary | positional | keyword => cases hplace

/-- So does an operand that has no operator in front. -/
lemma startsPrimary_of_ne_unary {e : Node} {t : List Char} (h : Written (.level 6) e t)
    (he : ∀ loc op operand, e ≠ .unary loc op operand) :
    ∃ c cs, t = c :: cs ∧ Token.startsPrimary c = true := by
  generalize hplace : Place.level 6 = place at h
  cases h with
  | power h _ _ _ =>
    obtain ⟨c, cs, rfl, hc⟩ := h.startsPrimary
    exact ⟨c, _, rfl, hc⟩
  | @unary loc op operand => exact absurd rfl (he loc op operand)
  | binary hlevel _ _ _ _ _ =>
    have hk := Place.level.inj hplace
    omega
  | tighter _ h =>
    obtain rfl := Place.level.inj hplace
    exact h.startsPrimary
  | number | string | identifier | empty | parentheses | call | positional | keyword => cases hplace

lemma ne_nil {place : Place} {e : Node} {t : List Char} (h : Written place e t) : t ≠ [] := by
  induction h with
  | number hdigits =>
    obtain ⟨c, cs, rfl, -⟩ := hdigits.head
    exact List.cons_ne_nil c cs
  | identifier hx | keyword hx =>
    obtain ⟨c, cs, hx, -⟩ := hx
    simp [hx]
  | tighter _ _ ih | positional _ ih => exact ih
  | unary _ _ _ _ ih => simp [ih]
  | binary _ _ _ _ _ _ ih _ => simp [ih]
  | _ => simp

lemma startsOperand {place : Place} {e : Node} {t : List Char} (h : Written place e t) :
    StartsOperand t := by
  have hprimary : ∀ {e t}, Written (.level 7) e t → StartsOperand t := fun h => by
    obtain ⟨c, cs, rfl, hc⟩ := h.startsPrimary
    exact ⟨c, cs, rfl, .inl hc⟩
  have happend : ∀ {t}, StartsOperand t → ∀ rest, StartsOperand (t ++ rest) := by
    rintro _ ⟨c, cs, rfl, hc⟩ rest
    refine ⟨c, cs ++ rest, rfl, ?_⟩
    rcases hc with hc | hc | hc | hc | ⟨hc, hne, hcomment⟩
    · exact .inl hc
    · exact .inr (.inl hc)
    · exact .inr (.inr (.inl hc))
    · exact .inr (.inr (.inr (.inl hc)))
    · exact .inr (.inr (.inr (.inr ⟨hc, by simp [hne], hcomment.append hne rest⟩)))
  induction h with
  | number hdigits => exact hprimary (@number none _ _ hdigits)
  | string hs => exact hprimary (@string none _ hs)
  | identifier hx => exact hprimary (@identifier none _ hx)
  | empty hg => exact hprimary (@empty none _ hg)
  | parentheses h hg hg' _ => exact hprimary (.parentheses h hg hg')
  | call h _ _ _ _ ih _ => exact happend ih _
  | power h _ _ _ ih _ => exact happend ih _
  | binary _ _ _ _ _ _ ih _ => exact happend ih _
  | tighter _ _ ih | positional _ ih => exact ih
  | keyword hx _ _ _ _ =>
    obtain ⟨c, cs, hx, hc, -⟩ := hx
    exact ⟨c, _, by rw [hx]; rfl, .inl (by simp [Token.startsPrimary, hc])⟩
  | @unary loc op e t g hop h hg hslash ih =>
    cases op with
    | plus => exact ⟨_, _, rfl, .inr (.inl rfl)⟩
    | minus => exact ⟨_, _, rfl, .inr (.inr (.inl rfl))⟩
    | not => exact ⟨_, _, rfl, .inr (.inr (.inr (.inl rfl)))⟩
    | slash =>
      exact ⟨_, _, rfl, .inr (.inr (.inr (.inr ⟨rfl, by simp [h.ne_nil], hslash rfl⟩)))⟩
    | other symbol => exact hop.elim

end Written

end SignalCalc.Syntax
