import SignalCalc.Proofs.Syntax.Calls

/-!
# The rules for operands and arguments

An operand is an operator before an operand, or what can be called with perhaps a power of it; an
argument is an expression, perhaps with a name.  There is one lemma for each of these rules, about
text that is read where the parts of it are.
-/

namespace SignalCalc.Syntax

open SignalCalc.Syntax.Grammar
open SignalCalc.Syntax.Layout
open SignalCalc.Syntax.Parser
open SignalCalc.Syntax.Token

variable {depth : ℕ} {e : Node} {t t' rest g g' : List Char}

/-! ## Operators before an operand, and powers -/

lemma forall_head_cons {c : Char} {cs : List Char} {P : Char → Prop} (h : P c) :
    ∀ d ∈ (c :: cs).head?, P d := by
  intro d hd
  obtain rfl := Option.some.inj hd
  exact h

lemma ne_prefix_of_startsPrimary {c : Char} {cs : List Char} (hc : startsPrimary c = true) :
    ∀ d ∈ (c :: cs).head?, d ≠ '+' ∧ d ≠ '-' ∧ d ≠ '/' ∧ d ≠ '!' := by
  refine forall_head_cons ?_
  exact ⟨ne_of_startsPrimary hc (by decide), ne_of_startsPrimary hc (by decide),
    ne_of_startsPrimary hc (by decide), ne_of_startsPrimary hc (by decide)⟩

lemma ofSymbol_unary {op : UnaryOperator} (hop : op.IsWritten) :
    UnaryOperator.ofSymbol (String.ofList op.symbol.toList) = op := by
  rw [String.ofList_toList]
  cases op with
  | other symbol => exact hop.elim
  | _ => rfl

lemma prefixed_reads {loc : Option Location} {op : UnaryOperator} (hop : op.IsWritten)
    (h : ReadsAt depth 6 e t) (ht : StartsOperand t) (hg : IsGap g)
    (hslash : op = .slash → NoComment (g ++ t)) :
    ReadsAt (depth + 1) 6 (.unary loc op e) (op.symbol.toList ++ (g ++ t)) := by
  intro rest hfollows
  have hne : g ++ t ≠ [] := by
    obtain ⟨c, cs, rfl, -⟩ := ht
    simp
  have hscan : unaryScan (op.symbol.toList ++ (g ++ t ++ rest)) = some (g ++ t ++ rest) :=
    unaryScan_append hop fun hop' => (hslash hop').append hne rest
  refine .orElse_left (.bind_nil (.located (P := fun r =>
    r.1.text = some (String.ofList op.symbol.toList) ∧ r.2.bare = e.bare)
    (.bind (.located (.scan hscan)) ?_)) ?_)
  · rintro ⟨place, _⟩ ⟨-, htext⟩
    refine .bind (gap_reads hg (ht.inside_append rest)) fun _ _ => ?_
    exact .bind_nil (h rest hfollows) fun inner hinner => .pure ⟨htext, hinner⟩
  · rintro ⟨place, place', inner⟩ ⟨⟨htext, hinner⟩, -⟩
    refine .pure ?_
    rw [htext, Option.getD_some, ofSymbol_unary hop, Node.bare, Node.bare, hinner]

/-- The power sign and the exponent. -/
def powerTail (operand : Parser Node) : Parser ((Location × BinaryOperator) × Node) := do
  gap
  let op ← operatorOf "pow_op" [Token.literal ['^']]
  gap
  let exponent ← operand
  return (op, exponent)

lemma power_eq (operand : Parser Node) :
    power operand = calls (expressionOver operand) >>= fun base => maybe (powerTail operand) >>=
      fun tail => match tail with
        | some ((loc, op), exponent) => return .binary (some loc) op base exponent
        | none => return base := rfl

lemma powerTail_fails {operand : Parser Node} (h : Follows 6 rest) :
    (powerTail operand).Fails rest := by
  have hpower := h.operator (.arithmetic .pow) trivial le_rfl
  refine gap_bind_fails (.bind (.bind (.located (.scan ?_))))
  rw [List.findSome?_cons, show literal ['^'] (inside rest) = none from hpower, List.findSome?_nil]

lemma powerTail_reads (h : ReadsAt depth 6 e t) (ht : StartsOperand t) (hg : IsGap g)
    (hg' : IsGap g') (hfollows : Follows 6 rest) :
    (powerTail (operand depth)).Reads (fun r => r.1.2 = .arithmetic .pow ∧ r.2.bare = e.bare)
      (g ++ '^' :: (g' ++ t)) rest := by
  have hsign : inside ('^' :: (g' ++ t) ++ rest) = '^' :: (g' ++ t) ++ rest :=
    inside_cons (by decide) (by decide) (by decide) _
  refine .bind (gap_reads hg hsign) fun _ _ => ?_
  refine .bind (u := ['^']) (.bind_nil (.located (.scan rfl)) ?_ :
    (operatorOf "pow_op" [Token.literal ['^']]).Reads (fun r => r.2 = .arithmetic .pow) _ _)
    fun op hop => ?_
  · rintro ⟨place, _⟩ ⟨-, htext⟩
    refine .pure ?_
    rw [htext]
    rfl
  refine .bind (gap_reads hg' (ht.inside_append rest)) fun _ _ => ?_
  exact .bind_nil (h rest hfollows) fun exponent hexponent => .pure ⟨hop, hexponent⟩

/-- What can be called is an operand. -/
lemma ReadsCallee.readsAt (h : ReadsCallee (expressionOver (operand depth)) e t)
    {c : Char} {cs : List Char} (ht : t = c :: cs) (hc : startsPrimary c = true) :
    ReadsAt (depth + 1) 6 e t := by
  intro rest hfollows
  subst ht
  refine .orElse_right (prefixed_fails (ne_prefix_of_startsPrimary hc)) ?_
  rw [power_eq]
  refine .bind_nil (h.calls_reads hfollows.ends hfollows.call) fun base hbase => ?_
  refine .bind_nil (.maybe_none (powerTail_fails hfollows)) ?_
  rintro _ rfl
  exact .pure hbase

lemma ReadsCallee.power {loc : Option Location} {base exponent : Node}
    (h : ReadsCallee (expressionOver (operand depth)) base t) {c : Char} {cs : List Char}
    (ht : t = c :: cs) (hc : startsPrimary c = true) (h' : ReadsAt depth 6 exponent t')
    (ht' : StartsOperand t') (hg : IsGap g) (hg' : IsGap g') :
    ReadsAt (depth + 1) 6 (.binary loc (.arithmetic .pow) base exponent)
      (t ++ (g ++ '^' :: (g' ++ t'))) := by
  intro rest hfollows
  subst ht
  refine .orElse_right (prefixed_fails (ne_prefix_of_startsPrimary hc)) ?_
  rw [power_eq]
  have hends : Ends ((g ++ '^' :: (g' ++ t')) ++ rest) := by
    rw [List.append_assoc]
    exact ends_gap_append hg (ends_cons (by decide) (by decide) (by decide) _)
  have hcall : ((g ++ '^' :: (g' ++ t')) ++ rest).head? ≠ some '(' := by
    rw [List.append_assoc]
    exact call_gap_append hg fun heq => absurd (Option.some.inj heq) (by decide)
  refine .bind (h.calls_reads hends hcall) fun base' hbase => ?_
  refine .bind_nil (.maybe_some (powerTail_reads h' ht' hg hg' hfollows)) ?_
  rintro _ ⟨⟨⟨place, op⟩, exponent'⟩, rfl, rfl, hexponent⟩
  refine .pure ?_
  rw [Node.bare, Node.bare, hbase, hexponent]

/-! ## Primary expressions and arguments -/

variable {expression : Parser Node}

lemma readsCallee_number {loc : Option Location} {v : Float} {digits : List Char}
    (h : IsNumeral digits v) : ReadsCallee expression (.number loc v) digits :=
  readsCallee_of_primary fun _ hends => .orElse_left (number_reads h hends)

lemma readsCallee_string {loc : Option Location} {s : String} (hs : IsQuotable s.toList) :
    ReadsCallee expression (.string loc s) ('"' :: (s.toList ++ ['"'])) :=
  readsCallee_of_primary fun _ _ =>
    .orElse_right (number_fails (forall_head_cons (by decide))) (.orElse_left (string_reads hs))

lemma readsCallee_identifier {loc : Option Location} {x : String} (hx : IsName x.toList) :
    ReadsCallee expression (.identifier loc x) x.toList := by
  refine readsCallee_of_primary fun rest hends => ?_
  obtain ⟨c, cs, hxs, hc, hcs⟩ := id hx
  have hnumber : startsNumeral c = false := startsNumeral_of_startsName hc
  have hquote : c ≠ '"' := by
    rintro rfl
    exact absurd hc (by decide)
  refine .orElse_right (number_fails ?_) (.orElse_right (string_fails ?_)
    (.orElse_left (identifier_reads hx hends)))
  · rw [hxs]
    exact forall_head_cons hnumber
  · rw [hxs]
    exact forall_head_cons hquote

lemma readsCallee_group {P : Option Node → Prop}
    (h : ∀ rest, (parenthesized (maybe expression)).Reads P ('(' :: t) rest)
    (he : ∀ inner, P inner → ∀ loc, (inner.getD (.empty (some loc))).bare = e.bare) :
    ReadsCallee expression e ('(' :: t) := by
  refine readsCallee_of_primary fun rest _ => ?_
  refine .orElse_right (number_fails (forall_head_cons (by decide)))
    (.orElse_right (string_fails (forall_head_cons (by decide)))
      (.orElse_right (identifier_fails (forall_head_cons (by decide)))
        (.bind_nil (.located (h rest)) ?_)))
  rintro ⟨loc, inner⟩ ⟨hinner, -⟩
  exact .pure (he inner hinner loc)

/-- What an argument needs of the text behind it. -/
def FollowsArgument (rest : List Char) : Prop :=
  Follows 0 rest ∧ Token.assign (inside rest) = none

lemma followsArgument_mark {c : Char} (hc : IsMark c) (hg : IsGap g) (more : List Char) :
    FollowsArgument (g ++ c :: more) := by
  refine ⟨(follows_mark hc more).gap_append hg, ?_⟩
  rw [inside_gap hg, inside_mark hc]
  refine assign_cons_of_ne ?_ more
  rcases hc with rfl | rfl | rfl | rfl
  all_goals decide

lemma equals_reads (hg : IsGap g) (hg' : IsGap g') (h : inside rest = rest)
    (hnext : (g' ++ rest).head? ≠ some '=') :
    equals.Reads (fun _ => True) (g ++ '=' :: g') rest := by
  have hsign : Token.assign ('=' :: (g' ++ rest)) = some (g' ++ rest) := by
    unfold Token.assign
    split
    · rename_i heq
      exact absurd (congrArg List.head? (List.cons.inj heq).2) hnext
    · rename_i heq
      rw [(List.cons.inj heq).2]
    · rename_i hne
      exact absurd rfl (hne _)
  have hinside : inside ('=' :: (g' ++ rest)) = '=' :: (g' ++ rest) :=
    inside_cons (by decide) (by decide) (by decide) _
  have hread : equals.Reads (fun _ => True) ((g ++ ['=']) ++ g') rest :=
    .seqRight (.seqRight (gap_reads hg hinside) (.scan hsign)) (gap_reads hg' h)
  rwa [List.append_assoc] at hread

/-! ## Arguments -/

/-- The rule for one argument of a call. -/
def argument (expression : Parser Node) : Parser Node := keyword expression <|> expression

lemma StartsOperand.head?_gap_append {g : List Char} (ht : StartsOperand t) (hg : IsGap g)
    (rest : List Char) : (g ++ (t ++ rest)).head? ≠ some '=' := by
  have hstart : (t ++ rest).head? ≠ some '=' := by
    obtain ⟨c, cs, rfl, hc⟩ := ht
    rw [List.cons_append, List.head?_cons]
    intro heq
    obtain rfl := Option.some.inj heq
    rcases hc with hc | hc | hc | hc | ⟨hc, -⟩
    all_goals exact absurd hc (by decide)
  rcases Syntax.head?_gap_append hg with heq | heq | heq | heq
  · rwa [heq]
  all_goals
    rw [heq]
    decide

/-- A name, an equals sign and an expression. -/
def binding (expression : Parser Node) : Parser (String × Node) := do
  let (_, x) ← name
  equals
  let value ← expression
  return (x, value)

lemma ends_gap_equals (hg : IsGap g) (more : List Char) : Ends (g ++ '=' :: more) :=
  ends_gap_append hg (ends_cons (by decide) (by decide) (by decide) more)

lemma binding_reads {x : String} (hx : IsName x.toList) (hg : IsGap g) (hg' : IsGap g')
    (ht : StartsOperand t) (h : expression.Reads (·.bare = e.bare) t rest) :
    (binding expression).Reads (fun r => r.1 = x ∧ r.2.bare = e.bare)
      (x.toList ++ (g ++ '=' :: (g' ++ t))) rest := by
  have hends : Ends (g ++ '=' :: (g' ++ t) ++ rest) := by
    rw [List.append_assoc]
    exact ends_gap_equals hg _
  refine .bind (name_reads hx hends) fun r hr => ?_
  rw [show g ++ '=' :: (g' ++ t) = (g ++ '=' :: g') ++ t by simp]
  refine .bind (equals_reads hg hg' (ht.inside_append rest) (ht.head?_gap_append hg' rest))
    fun _ _ => .bind_nil h fun value hvalue => .pure ⟨?_, hvalue⟩
  rw [hr, String.ofList_toList]

lemma binding_fails (h : NotNamed rest) : (binding expression).Fails rest :=
  name_lands.bind_fails fun _ after hafter =>
    .bind (.bind (gap_bind_fails (.scan (h after hafter))))

lemma keyword_reads {loc : Option Location} {x : String} (hx : IsName x.toList) (hg : IsGap g)
    (hg' : IsGap g') (ht : StartsOperand t) (h : expression.Reads (·.bare = e.bare) t rest) :
    (keyword expression).Reads (·.bare = (Node.keyword loc x e).bare)
      (x.toList ++ (g ++ '=' :: (g' ++ t))) rest := by
  refine .bind_nil (.located (binding_reads hx hg hg' ht h)) ?_
  rintro ⟨loc', x', value⟩ ⟨⟨rfl, hvalue⟩, -⟩
  refine .pure ?_
  rw [Node.bare, Node.bare, hvalue]

lemma keyword_fails (h : NotNamed rest) : (keyword expression).Fails rest :=
  .bind (.located (binding_fails h))

/-- Where no expression starts, no argument starts. -/
lemma argument_fails (h : NoOperand rest) :
    (argument (expressionOver (operand depth))).Fails rest := by
  refine .orElse (keyword_fails fun after hafter => ?_) (expressionOver_fails h depth)
  cases rest with
  | nil => cases hafter
  | cons c cs =>
    have hstart := (h c rfl).1
    simp only [startsPrimary, Bool.or_eq_false_iff] at hstart
    exact notNamed_of_head hstart.1.2 after hafter

lemma Separated.exists_append {t u : List Char} {ts : List (List Char)}
    (h : Separated (t :: ts) u) : ∃ w, u = t ++ w := by
  cases h with
  | single => exact ⟨[], (List.append_nil t).symm⟩
  | cons _ _ _ => exact ⟨_, rfl⟩

lemma Separated.length_le {u : List Char} {ts : List (List Char)} (h : Separated ts u) :
    ∀ t ∈ ts, t.length ≤ u.length := by
  induction h with
  | nil => exact fun t ht => by cases ht
  | single t => exact fun t' ht' => by rw [List.mem_singleton.1 ht']
  | cons _ _ _ ih =>
    intro t' ht'
    rcases List.mem_cons.1 ht' with rfl | ht'
    · simp
    · have := ih t' ht'
      simp only [List.length_append, List.length_cons]
      omega

lemma comma_fails_parenthesis (hg : IsGap g) (more : List Char) :
    comma.Fails (g ++ ')' :: more) := by
  refine comma_fails ?_
  rw [inside_gap hg, inside_mark (.inl rfl)]
  exact fun h => absurd (Option.some.inj h) (by decide)

/-- What is separated by commas is read between parentheses. -/
lemma parenthesized_sepBy_reads {α β : Type} {p : Parser α} {Q : β → α → Prop}
    {R : List Char → Prop} {items : List (β × List Char)} {u : List Char}
    (hmark : ∀ c g more, IsMark c → IsGap g → R (g ++ c :: more))
    (hsolid : ∀ item ∈ items, ∀ more, inside (item.2 ++ more) = item.2 ++ more)
    (hread : ∀ item ∈ items, ∀ more, R more → p.Reads (Q item.1) item.2 more)
    (hnone : ∀ more, p.Fails (')' :: more)) (hu : Separated (items.map Prod.snd) u)
    (hg : IsGap g) (hg' : IsGap g') :
    (parenthesized (sepBy p comma)).Reads (List.Forall₂ Q (items.map Prod.fst))
      ('(' :: (g ++ (u ++ (g' ++ [')'])))) rest := by
  cases items with
  | nil =>
    cases hu
    have hread : (sepBy p comma).Reads (List.Forall₂ Q []) [] (')' :: rest) :=
      .bind_nil (.maybe_none (.bind (hnone rest))) fun r hr => .pure (hr ▸ .nil)
    have hempty := parenthesized_reads (hg.append hg') .nil hread
      (by exact inside_mark (.inl rfl) rest)
    rwa [List.nil_append, List.nil_append, List.append_assoc] at hempty
  | cons first items =>
    obtain ⟨w, rfl⟩ := hu.exists_append
    refine parenthesized_reads hg hg' ?_ ?_
    · have hcomma := fun g more hg => hmark ',' g more (.inr (.inl rfl)) hg
      refine .bind_nil (.maybe_some (sepBy1_reads hcomma hsolid hread
        (hmark ')' g' rest (.inl rfl) hg') (comma_fails_parenthesis hg' rest) hu)) ?_
      rintro _ ⟨as, rfl, has⟩
      exact .pure has
    · rw [List.append_assoc]
      exact hsolid first List.mem_cons_self _

end SignalCalc.Syntax
