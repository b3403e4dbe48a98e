import SignalCalc.Proofs.Syntax.Follow

/-!
# The rules for operators

The grammar has one rule for each level of operators.  `levelParser depth k` is the rule of level
`k`, with operands nested less deep than `depth`; `levelOperator k` reads an operator of the level.
-/

namespace SignalCalc.Syntax

open SignalCalc.Syntax.Grammar
open SignalCalc.Syntax.Layout
open SignalCalc.Syntax.Parser
open SignalCalc.Syntax.Token

/-- The rule of a level. -/
def levelParser (depth k : ℕ) : Parser Node :=
  (levels.drop k).foldr (fun level inner => leftAssociative inner level) (operand depth)

/-- The rule for the operators of a level. -/
def levelOperator (k : ℕ) : Parser (Location × BinaryOperator) := levels.getD k failure

lemma levelParser_of_lt {k : ℕ} (hk : k < 6) (depth : ℕ) :
    levelParser depth k = leftAssociative (levelParser depth (k + 1)) (levelOperator k) := by
  interval_cases k <;> rfl

/-- The words of the operators of a level. -/
def levelWords : ℕ → List BinaryOperator
  | 0 => [.or]
  | 1 => [.and]
  | 2 => [.equal, .unequal]
  | 3 => [.less, .greater]
  | 4 => [.arithmetic .add, .arithmetic .sub]
  | 5 => [.arithmetic .mul, .arithmetic .div]
  | _ => []

lemma levelOperator_eq {k : ℕ} (hk : k < 6) :
    ∃ tag, levelOperator k = operatorOf tag ((levelWords k).map BinaryOperator.scan) := by
  interval_cases k
  all_goals exact ⟨_, rfl⟩

lemma mem_levelWords {op : BinaryOperator} (hk : op.level < 6) : op ∈ levelWords op.level := by
  cases op with
  | arithmetic op =>
    cases op with
    | pow => exact absurd hk (by decide)
    | _ => decide
  | other symbol => exact absurd (show 7 < 6 from hk) (by decide)
  | _ => decide

lemma level_of_mem_levelWords {op : BinaryOperator} {k : ℕ} (h : op ∈ levelWords k) :
    op.level = k ∧ op.IsWritten := by
  unfold levelWords at h
  split at h
  all_goals simp only [List.mem_cons, List.not_mem_nil, or_false] at h
  · obtain rfl := h
    exact ⟨rfl, trivial⟩
  · obtain rfl := h
    exact ⟨rfl, trivial⟩
  · rcases h with rfl | rfl <;> exact ⟨rfl, trivial⟩
  · rcases h with rfl | rfl <;> exact ⟨rfl, trivial⟩
  · rcases h with rfl | rfl <;> exact ⟨rfl, trivial⟩
  · rcases h with rfl | rfl <;> exact ⟨rfl, trivial⟩

/-- The first word of a level that stands here is the operator that stands here. -/
lemma findSome?_scan {words : List BinaryOperator} (hwords : ∀ op ∈ words, op.IsWritten)
    {op : BinaryOperator} (hop : op ∈ words) {rest : List Char}
    (hslash : op = .arithmetic .div → NoComment rest) :
    (words.map BinaryOperator.scan).findSome? (· (op.symbol.toList ++ rest)) = some rest := by
  induction words with
  | nil => cases hop
  | cons first words ih =>
    rw [List.map_cons, List.findSome?_cons]
    by_cases hfirst : op = first
    · rw [← hfirst, BinaryOperator.scan_append hslash]
    · have hmem := (List.mem_cons.1 hop).resolve_left hfirst
      obtain ⟨cs, hcs⟩ := BinaryOperator.symbol_eq_cons (hwords op hop)
      have hskip : first.scan (op.symbol.toList ++ rest) = none := by
        rw [hcs, List.cons_append]
        refine BinaryOperator.scan_cons_of_ne (hwords first List.mem_cons_self) (fun heq => ?_) _
        exact hfirst (BinaryOperator.eq_of_initial_eq (hwords op hop)
          (hwords first List.mem_cons_self) heq)
      rw [hskip]
      exact ih (fun op' hop' => hwords op' (List.mem_cons_of_mem _ hop')) hmem

lemma ofSymbol_symbol {op : BinaryOperator} (hop : op.IsWritten) :
    BinaryOperator.ofSymbol (String.ofList op.symbol.toList) = op := by
  rw [String.ofList_toList]
  cases op with
  | arithmetic op => cases op <;> rfl
  | other symbol => exact hop.elim
  | _ => rfl

lemma levelOperator_reads {op : BinaryOperator} (hk : op.level < 6) {rest : List Char}
    (hslash : op = .arithmetic .div → NoComment rest) :
    (levelOperator op.level).Reads (fun r => r.2 = op) op.symbol.toList rest := by
  obtain ⟨tag, htag⟩ := levelOperator_eq hk
  have hop := (level_of_mem_levelWords (mem_levelWords hk)).2
  have hscan := findSome?_scan (fun op' hop' => (level_of_mem_levelWords hop').2)
    (mem_levelWords hk) hslash
  rw [htag]
  refine Reads.bind_nil (Reads.located (.scan hscan)) ?_
  rintro ⟨loc, _⟩ ⟨-, htext⟩
  refine .pure ?_
  rw [htext, Option.getD_some, ofSymbol_symbol hop]

lemma levelOperator_fails {k : ℕ} (hk : k < 6) {text : List Char}
    (h : ∀ op : BinaryOperator, op.IsWritten → op.level = k → op.scan text = none) :
    (levelOperator k).Fails text := by
  obtain ⟨tag, htag⟩ := levelOperator_eq hk
  rw [htag]
  refine Fails.bind (Fails.located (.scan ?_))
  rw [List.findSome?_eq_none_iff]
  intro scanner hscanner
  obtain ⟨op, hop, rfl⟩ := List.mem_map.1 hscanner
  obtain ⟨hlevel, hwritten⟩ := level_of_mem_levelWords hop
  exact h op hwritten hlevel

/-! ## Layout in front -/

lemma gap_reads {g rest : List Char} (hg : IsGap g) (h : inside rest = rest) :
    gap.Reads (fun _ => True) g rest :=
  .skip ((inside_gap hg rest).trans h)

lemma gap_lands {text : List Char} : gap.Lands text (· = inside text) := by
  intro c hc a later hrun
  obtain ⟨-, rfl⟩ := Prod.mk.inj (Option.some.inj hrun)
  rw [Cursor.rest_moveTo (inside_suffix (List.suffix_refl _)), hc]

lemma gap_bind_fails {β : Type} {f : Unit → Parser β} {rest : List Char}
    (hf : (f ()).Fails (inside rest)) : (gap >>= f).Fails rest :=
  gap_lands.bind_fails fun _ _ hmid => hmid ▸ hf

lemma StartsOperand.inside_append {t : List Char} (h : StartsOperand t) (rest : List Char) :
    inside (t ++ rest) = t ++ rest := by
  obtain ⟨c, cs, rfl, hc⟩ := h
  rcases hc with hc | rfl | rfl | rfl | ⟨rfl, hne, hcomment⟩
  · exact inside_cons (ne_of_startsPrimary hc (by decide)) (ne_of_startsPrimary hc (by decide))
      (ne_of_startsPrimary hc (by decide)) _
  · exact inside_cons (by decide) (by decide) (by decide) _
  · exact inside_cons (by decide) (by decide) (by decide) _
  · exact inside_cons (by decide) (by decide) (by decide) _
  · exact inside_slash (hcomment.append hne rest).2

/-! ## Operators from left to right -/

/-- An operator and its right operand, with the layout before both. -/
def operatorStep (operand : Parser Node) (operator : Parser (Location × BinaryOperator)) :
    Parser ((Location × BinaryOperator) × Node) := do
  gap
  let op ← operator
  gap
  let right ← operand
  return (op, right)

/-- The node of an operator, from its left operand on. -/
def joined (left : Node) (other : (Location × BinaryOperator) × Node) : Node :=
  .binary (some other.1.1) other.1.2 left other.2

lemma leftAssociative_eq (operand : Parser Node)
    (operator : Parser (Location × BinaryOperator)) :
    leftAssociative operand operator = operand >>= fun first =>
      many (operatorStep operand operator) >>= fun others => pure (others.foldl joined first) := rfl

/-- The text is read as the expression wherever an operand of the level ends behind it. -/
def ReadsAt (depth k : ℕ) (e : Node) (t : List Char) : Prop :=
  ∀ rest, Follows k rest → (levelParser depth k).Reads (·.bare = e.bare) t rest

/-- The text is read as the first operand of a row of operators, whatever the others are. -/
def ReadsFirst (depth k : ℕ) (e : Node) (t : List Char) : Prop :=
  ∀ (v rest : List Char) (Q : List ((Location × BinaryOperator) × Node) → Prop),
    Follows (k + 1) (v ++ rest) →
    (many (operatorStep (levelParser depth (k + 1)) (levelOperator k))).Reads Q v rest →
    (levelParser depth k).Reads
      (fun node => ∃ left others, Q others ∧ left.bare = e.bare ∧ node = others.foldl joined left)
      (t ++ v) rest

variable {depth k : ℕ} {e : Node} {t : List Char}

lemma ReadsAt.readsFirst (hk : k < 6) (h : ReadsAt depth (k + 1) e t) :
    ReadsFirst depth k e t := by
  intro v rest Q hfollows hmany
  rw [levelParser_of_lt hk, leftAssociative_eq]
  refine .bind (h (v ++ rest) hfollows) fun first hfirst => .bind_nil hmany fun others hothers => ?_
  exact .pure ⟨first, others, hothers, hfirst, rfl⟩

/-- A row of operators ends where no operator of its level follows. -/
lemma ReadsFirst.readsAt (hk : k < 6) (h : ReadsFirst depth k e t) : ReadsAt depth k e t := by
  intro rest hfollows
  have hend : (many (operatorStep (levelParser depth (k + 1)) (levelOperator k))).Reads (· = [])
      [] rest := by
    refine .many_nil (gap_bind_fails (.bind (levelOperator_fails hk fun op hop hlevel => ?_)))
    exact hfollows.operator op hop hlevel.ge
  have hread := h [] rest (· = []) (hfollows.mono (Nat.le_succ k)) hend
  rw [List.append_nil] at hread
  refine hread.mono ?_
  rintro node ⟨left, _, rfl, hleft, rfl⟩
  exact hleft

/-- One more operator, and its right operand, after a row of operators. -/
lemma ReadsFirst.binary {loc : Option Location} {op : BinaryOperator} {left right : Node}
    {t' g g' : List Char} (hk : op.level ≤ 5) (hleft : ReadsFirst depth op.level left t)
    (hright : ReadsAt depth (op.level + 1) right t') (ht' : StartsOperand t') (hg : IsGap g)
    (hg' : IsGap g') (hslash : op = .arithmetic .div → NoComment (g' ++ t')) :
    ReadsFirst depth op.level (.binary loc op left right)
      (t ++ (g ++ (op.symbol.toList ++ (g' ++ t')))) := by
  intro v rest Q hfollows hmany
  have hop : op.IsWritten := (level_of_mem_levelWords (mem_levelWords (by omega))).2
  have hne : g' ++ t' ≠ [] := by
    obtain ⟨c, cs, rfl, -⟩ := ht'
    simp
  have hslash' : ∀ more, op = .arithmetic .div → NoComment (g' ++ t' ++ more) :=
    fun more hdiv => (hslash hdiv).append hne more
  have hstep : (operatorStep (levelParser depth (op.level + 1)) (levelOperator op.level)).Reads
      (fun r => r.1.2 = op ∧ r.2.bare = right.bare) (g ++ (op.symbol.toList ++ (g' ++ t')))
      (v ++ rest) := by
    refine .bind (gap_reads hg ?_) fun _ _ => ?_
    · rw [List.append_assoc]
      exact inside_symbol hop (hslash' _)
    refine .bind (levelOperator_reads (by omega) (hslash' _)) fun r hr => ?_
    refine .bind (gap_reads hg' (ht'.inside_append _)) fun _ _ => ?_
    exact .bind_nil (hright _ hfollows) fun right' hright' => .pure ⟨hr, hright'⟩
  have hstep_ne : g ++ (op.symbol.toList ++ (g' ++ t')) ≠ [] := by
    obtain ⟨cs, hcs⟩ := BinaryOperator.symbol_eq_cons hop
    simp [hcs]
  have hfollows' : Follows (op.level + 1)
      (g ++ (op.symbol.toList ++ (g' ++ t')) ++ v ++ rest) := by
    simp only [List.append_assoc]
    refine (follows_operator hop ?_).gap_append hg
    simpa only [List.append_assoc] using hslash' (v ++ rest)
  have hread := hleft _ rest _ hfollows' (.many_cons hstep_ne hstep hmany)
  rw [← List.append_assoc] at hread
  refine hread.mono ?_
  rintro node ⟨left', _, ⟨⟨⟨place, op'⟩, right'⟩, others, rfl, ⟨rfl, hright'⟩, hothers⟩,
    hleft', rfl⟩
  refine ⟨joined left' ((place, op'), right'), others, hothers, ?_, rfl⟩
  simp only [joined, Node.bare, hleft', hright']

end SignalCalc.Syntax
