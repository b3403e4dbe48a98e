import SignalCalc.Proofs.Syntax.Operators

/-!
# The rules for calls

A call reads what is called, and then lists of arguments for as long as an opening parenthesis
follows at once.  An argument may be given by name, and this is tried first: `Written.notNamed`
says that no other expression looks like an argument with a name, because an equals sign that
stands alone never follows a name in it.
-/

namespace SignalCalc.Syntax

open SignalCalc.Syntax.Grammar
open SignalCalc.Syntax.Layout
open SignalCalc.Syntax.Parser
open SignalCalc.Syntax.Token

variable {α β : Type} {p : Parser α} {P : α → Prop} {t rest g g' : List Char} {e : Node}

/-! ## Words -/

lemma word_reads {w : String} {cs : List Char} (hw : w.toList = cs) :
    (word w).Reads (fun _ => True) cs rest :=
  hw ▸ .scan (literal_append _ _)

lemma word_fails {w : String} {c : Char} {cs : List Char} (hw : w.toList = c :: cs)
    (h : rest.head? ≠ some c) : (word w).Fails rest := by
  refine .scan ?_
  rw [hw]
  cases rest with
  | nil => exact literal_nil _ _
  | cons d ds => exact literal_cons_of_ne (fun hcd => h (congrArg some hcd.symm)) _ _

lemma name_reads {x : List Char} (hx : IsName x) (hrest : Ends rest) :
    name.Reads (fun r => r.2 = String.ofList x) x rest := by
  refine .bind_nil (.located (.scan (name_append hx hrest))) ?_
  rintro ⟨loc, _⟩ ⟨-, htext⟩
  refine .pure ?_
  rw [htext, Option.getD_some]

lemma name_fails (h : Token.name rest = none) : name.Fails rest := .bind (.located (.scan h))

lemma name_lands : name.Lands rest fun after => Token.name rest = some after := by
  intro c hc r later hrun
  cases hname : Token.name rest with
  | none =>
    rw [name_fails hname c hc] at hrun
    cases hrun
  | some after =>
    obtain ⟨x, rfl⟩ := suffix_of_name hname
    have hread : name.Reads (fun _ => True) x after :=
      .bind_nil (.located (.scan hname)) fun _ _ => .pure trivial
    rw [hread.lands c hc r later hrun]

lemma number_reads {digits : List Char} {v : Float} {loc : Option Location}
    (h : IsNumeral digits v) (hrest : Ends rest) :
    number.Reads (·.bare = (Node.number loc v).bare) digits rest := by
  refine .bind_nil (.located (.scan (number_append h hrest))) ?_
  rintro ⟨place, _⟩ ⟨-, htext⟩
  refine .pure ?_
  rw [htext, Option.getD_some, numberValue_ofList h, Node.bare, Node.bare]

lemma number_fails (h : ∀ c ∈ rest.head?, startsNumeral c = false) : number.Fails rest :=
  .bind (.located (.scan (number_eq_none h)))

lemma string_reads {s : String} {loc : Option Location} (hs : IsQuotable s.toList) :
    string.Reads (·.bare = (Node.string loc s).bare) ('"' :: (s.toList ++ ['"'])) rest := by
  have hscan : Token.string ('"' :: (s.toList ++ ['"']) ++ rest) = some rest := by
    simpa using string_append hs rest
  refine .bind_nil (.located (.scan hscan)) ?_
  rintro ⟨place, _⟩ ⟨-, htext⟩
  refine .pure ?_
  rw [htext, Option.getD_some, unquoted_ofList, String.ofList_toList, Node.bare, Node.bare]

lemma string_fails (h : ∀ c ∈ rest.head?, c ≠ '"') : string.Fails rest :=
  .bind (.located (.scan (string_eq_none h)))

lemma identifier_reads {x : String} {loc : Option Location} (hx : IsName x.toList)
    (hrest : Ends rest) :
    identifier.Reads (·.bare = (Node.identifier loc x).bare) x.toList rest := by
  refine .bind_nil (name_reads hx hrest) ?_
  rintro ⟨place, x'⟩ (hx' : x' = _)
  refine .pure ?_
  rw [hx', String.ofList_toList, Node.bare, Node.bare]

lemma identifier_fails (h : ∀ c ∈ rest.head?, startsName c = false) : identifier.Fails rest :=
  .bind (name_fails (name_eq_none h))

/-! ## Parentheses and commas -/

lemma parenthesized_reads (hg : IsGap g) (hg' : IsGap g') (hp : p.Reads P t (g' ++ ')' :: rest))
    (hsolid : inside (t ++ (g' ++ ')' :: rest)) = t ++ (g' ++ ')' :: rest)) :
    (parenthesized p).Reads P ('(' :: (g ++ (t ++ (g' ++ [')'])))) rest := by
  refine .bind (u := ['(']) (word_reads rfl) fun _ _ => ?_
  refine .bind (gap_reads hg (by simpa using hsolid)) fun _ _ => ?_
  refine .bind (by simpa using hp) fun a ha => ?_
  refine .bind (gap_reads hg' (inside_mark (.inl rfl) rest)) fun _ _ => ?_
  exact .bind_nil (word_reads rfl) fun _ _ => .pure ha

lemma parenthesized_fails (h : rest.head? ≠ some '(') : (parenthesized p).Fails rest :=
  .bind (word_fails rfl h)

lemma comma_reads (hg : IsGap g) (hg' : IsGap g') (h : inside rest = rest) :
    comma.Reads (fun _ => True) (g ++ ',' :: g') rest := by
  have hread : comma.Reads (fun _ => True) ((g ++ [',']) ++ g') rest :=
    .seqRight (.seqRight (gap_reads hg (inside_mark (.inr (.inl rfl)) _)) (word_reads rfl))
      (gap_reads hg' h)
  rwa [List.append_assoc] at hread

lemma comma_fails (h : (inside rest).head? ≠ some ',') : comma.Fails rest :=
  .seqRight (gap_bind_fails (word_fails rfl h))

/-- Things with commas between them are read one by one.  `R` is what each of them needs of the
text behind it. -/
lemma sepBy1_reads {R : List Char → Prop} {Q : β → α → Prop}
    (hcomma : ∀ g more, IsGap g → R (g ++ ',' :: more)) {first : β × List Char}
    {items : List (β × List Char)}
    (hsolid : ∀ item ∈ first :: items, ∀ more, inside (item.2 ++ more) = item.2 ++ more)
    (hread : ∀ item ∈ first :: items, ∀ more, R more → p.Reads (Q item.1) item.2 more)
    (hR : R rest) (hend : comma.Fails rest) {u : List Char}
    (hu : Separated ((first :: items).map Prod.snd) u) :
    (sepBy1 p comma).Reads (List.Forall₂ Q ((first :: items).map Prod.fst)) u rest := by
  suffices hmany : ∃ w, u = first.2 ++ w ∧ R (w ++ rest) ∧
      (many (comma *> p)).Reads (List.Forall₂ Q (items.map Prod.fst)) w rest by
    obtain ⟨w, rfl, hw, hothers⟩ := hmany
    refine .bind (hread first List.mem_cons_self _ hw) fun a ha => ?_
    exact .bind_nil hothers fun as has => .pure (.cons ha has)
  induction items generalizing first u with
  | nil =>
    cases hu
    refine ⟨[], (List.append_nil _).symm, hR, ?_⟩
    exact (Reads.many_nil (.seqRight hend)).mono fun as has => has ▸ .nil
  | cons second items ih =>
    cases hu with
    | @cons _ _ u g g' _ hu hg hg' =>
      obtain ⟨w, rfl, hw, hothers⟩ := ih
        (fun item hitem => hsolid item (List.mem_cons_of_mem _ hitem))
        (fun item hitem => hread item (List.mem_cons_of_mem _ hitem)) hu
      have hmem : second ∈ first :: second :: items :=
        List.mem_cons_of_mem _ List.mem_cons_self
      refine ⟨g ++ ',' :: (g' ++ (second.2 ++ w)), rfl, ?_, ?_⟩
      · rw [List.append_assoc, List.cons_append]
        exact hcomma g _ hg
      have hstep : (comma *> p).Reads (Q second.1) ((g ++ ',' :: g') ++ second.2) (w ++ rest) :=
        .seqRight (comma_reads hg hg' (hsolid second hmem _)) (hread second hmem _ hw)
      have hall := Reads.many_cons (by simp) hstep hothers
      rw [show g ++ ',' :: g' ++ second.2 ++ w = g ++ ',' :: (g' ++ (second.2 ++ w)) by simp]
        at hall
      refine hall.mono ?_
      rintro _ ⟨a, as, rfl, ha, has⟩
      exact .cons ha has

/-! ## Names that an equals sign does not follow -/

/-- If a name stands here, no equals sign stands alone behind it. -/
def NotNamed (text : List Char) : Prop :=
  ∀ after, Token.name text = some after → Token.assign (inside after) = none

lemma notNamed_of_head {c : Char} {cs : List Char} (h : startsName c = false) :
    NotNamed (c :: cs) := by
  intro after hafter
  rw [name_eq_none (fun d hd => by obtain rfl := Option.some.inj hd; exact h)] at hafter
  cases hafter

lemma assign_cons_of_ne {c : Char} (h : c ≠ '=') (cs : List Char) :
    Token.assign (c :: cs) = none := by
  unfold Token.assign
  split
  · rfl
  · rename_i heq
    exact absurd (List.cons.inj heq).1 h
  · rfl

/-- No operator is an equals sign that stands alone. -/
lemma assign_symbol {op : BinaryOperator} (hop : op.IsWritten) (more : List Char) :
    Token.assign (op.symbol.toList ++ more) = none := by
  by_cases hequal : op = .equal
  · rw [hequal]
    rfl
  · obtain ⟨cs, hcs⟩ := BinaryOperator.symbol_eq_cons hop
    rw [hcs]
    exact assign_cons_of_ne (fun h => hequal (BinaryOperator.eq_of_initial_eq hop trivial h)) _

lemma ends_parenthesis (more : List Char) : Ends ('(' :: more) :=
  ends_cons (by decide) (by decide) (by decide) more

/-- Where an expression starts with a name, what comes behind the name is what follows the
expression, an operator or a call.  So every condition on the text behind it needs three proofs,
and it may use that it is met behind the call. -/
lemma Written.after_name {C : List Char → Prop}
    (hcall : ∀ (args : List (Node × List Char)) (u g g' more : List Char),
      (∀ arg ∈ args, Written .argument arg.1 arg.2) → Separated (args.map Prod.snd) u →
      IsGap g → IsGap g' → C more → C ('(' :: (g ++ (u ++ (g' ++ ')' :: more)))))
    (hoperator : ∀ (g more : List Char) (op : BinaryOperator), IsGap g → op.IsWritten →
      (op = .arithmetic .div → NoComment more) → C (g ++ (op.symbol.toList ++ more)))
    {k : ℕ} (h : Written (.level k) e t) (hends : Ends rest) (hrest : C rest) :
    ∀ after, Token.name (t ++ rest) = some after → C after := by
  have hnone : ∀ {c : Char} {cs : List Char}, startsName c = false →
      ∀ after, Token.name (c :: cs) = some after → C after := by
    intro c cs hc after hafter
    rw [name_eq_none (fun d hd => by obtain rfl := Option.some.inj hd; exact hc)] at hafter
    cases hafter
  generalize hplace : Place.level k = place at h
  induction h generalizing k rest with
  | number hdigits =>
    obtain ⟨c, cs, rfl, hc⟩ := hdigits.head
    refine hnone (Bool.eq_false_iff.2 fun hname => ?_)
    rw [startsNumeral_of_startsName hname] at hc
    cases hc
  | string _ => exact hnone (by decide)
  | identifier hx =>
    intro after hafter
    rw [name_append hx hends] at hafter
    obtain rfl := Option.some.inj hafter
    exact hrest
  | empty _ => exact hnone (by decide)
  | parentheses _ _ _ _ => exact hnone (by decide)
  | @call _ _ _ u g g' args _ hargs hu hg hg' ih _ =>
    have hnext : C ('(' :: (g ++ (u ++ (g' ++ [')']))) ++ rest) := by
      simpa using hcall args u g g' rest hargs hu hg hg' hrest
    rw [List.append_assoc]
    exact ih (ends_parenthesis _) hnext rfl
  | @power _ _ _ _ t' g g' _ _ hg _ ih _ =>
    rw [List.append_assoc, List.append_assoc]
    refine ih (ends_gap_append hg (ends_cons (by decide) (by decide) (by decide) _)) ?_ rfl
    exact hoperator g (g' ++ t' ++ rest) (.arithmetic .pow) hg trivial nofun
  | @unary _ op _ _ _ hop _ _ _ _ =>
    cases op with
    | other symbol => exact hop.elim
    | _ => exact hnone (by decide)
  | @binary _ op _ _ _ t' g g' hlevel _ hright hg _ hslash ih _ =>
    have hop : op.IsWritten := (level_of_mem_levelWords (mem_levelWords (by omega))).2
    have hslash' : op = .arithmetic .div → NoComment (g' ++ t' ++ rest) := fun hdiv =>
      (hslash hdiv).append (by simp [hright.ne_nil]) rest
    rw [List.append_assoc, List.append_assoc, List.append_assoc op.symbol.toList]
    refine ih (ends_gap_append hg (follows_operator hop hslash').ends) ?_ rfl
    exact hoperator g _ op hg hop hslash'
  | tighter _ _ ih => exact ih hends hrest rfl
  | positional | keyword => cases hplace

/-- Where an expression starts with a name, no equals sign stands alone behind it. -/
lemma Written.notNamed {k : ℕ} (h : Written (.level k) e t) (hends : Ends rest)
    (hassign : Token.assign (inside rest) = none) : NotNamed (t ++ rest) := by
  refine h.after_name (C := fun after => Token.assign (inside after) = none)
    (fun _ u g g' more _ _ _ _ _ => ?_) (fun g more op hg hop hslash => ?_) hends hassign
  · rw [inside_cons (by decide) (by decide) (by decide)]
    exact assign_cons_of_ne (by decide) _
  · rw [inside_gap hg, inside_symbol hop hslash]
    exact assign_symbol hop more

/-! ## Text that is no expression -/

/-- No expression starts here. -/
def NoOperand (text : List Char) : Prop :=
  ∀ c ∈ text.head?, startsPrimary c = false ∧ c ≠ '+' ∧ c ≠ '-' ∧ c ≠ '/' ∧ c ≠ '!'

lemma noOperand_nil : NoOperand [] := nofun

lemma noOperand_parenthesis (more : List Char) : NoOperand (')' :: more) := by
  intro c hc
  obtain rfl := Option.some.inj hc
  decide

/-- Reads an operator before an operand. -/
def unaryScan (text : List Char) : Option (List Char) :=
  [literal ['+'], literal ['-'], slash, literal ['!']].findSome? (· text)

lemma unaryScan_append {op : UnaryOperator} (hop : op.IsWritten)
    (hslash : op = .slash → NoComment rest) :
    unaryScan (op.symbol.toList ++ rest) = some rest := by
  cases op with
  | slash =>
    show unaryScan ('/' :: rest) = some rest
    rw [unaryScan, List.findSome?_cons, literal_cons_of_ne (by decide), List.findSome?_cons,
      literal_cons_of_ne (by decide), List.findSome?_cons, slash_append (hslash rfl)]
  | other symbol => exact hop.elim
  | _ => rfl

lemma unaryScan_eq_none
    (h : ∀ c ∈ rest.head?, c ≠ '+' ∧ c ≠ '-' ∧ c ≠ '/' ∧ c ≠ '!') : unaryScan rest = none := by
  cases rest with
  | nil => rfl
  | cons c cs =>
    obtain ⟨hplus, hminus, hslash, hnot⟩ := h c rfl
    rw [unaryScan, List.findSome?_cons, literal_cons_of_ne hplus.symm, List.findSome?_cons,
      literal_cons_of_ne hminus.symm, List.findSome?_cons, slash_cons_of_ne hslash,
      List.findSome?_cons, literal_cons_of_ne hnot.symm, List.findSome?_nil]

lemma prefixed_fails {operand : Parser Node}
    (h : ∀ c ∈ rest.head?, c ≠ '+' ∧ c ≠ '-' ∧ c ≠ '/' ∧ c ≠ '!') :
    (prefixed operand).Fails rest :=
  .bind (.located (.bind (.located (.scan (unaryScan_eq_none h)))))

lemma primary_fails {expression : Parser Node}
    (h : ∀ c ∈ rest.head?, startsPrimary c = false) : (primary expression).Fails rest := by
  have hnone : ∀ c ∈ rest.head?, startsNumeral c = false ∧ c ≠ '"' ∧ startsName c = false ∧
      c ≠ '(' := by
    intro c hc
    have hstart := h c hc
    simp only [startsPrimary, Bool.or_eq_false_iff, beq_eq_false_iff_ne] at hstart
    exact ⟨hstart.1.1.1, hstart.1.1.2, hstart.1.2, hstart.2⟩
  refine .orElse (number_fails fun c hc => (hnone c hc).1) (.orElse
    (string_fails fun c hc => (hnone c hc).2.1) (.orElse
      (identifier_fails fun c hc => (hnone c hc).2.2.1)
      (.bind (.located (parenthesized_fails ?_)))))
  exact fun hc => (hnone '(' hc).2.2.2 rfl

lemma operand_fails (h : NoOperand rest) (depth : ℕ) : (operand depth).Fails rest := by
  cases depth with
  | zero => exact fun _ _ => rfl
  | succ depth =>
    refine .orElse (prefixed_fails fun c hc => (h c hc).2) (.bind (.bind (.located (.bind ?_))))
    exact primary_fails fun c hc => (h c hc).1

lemma expressionOver_fails (h : NoOperand rest) (depth : ℕ) :
    (expressionOver (operand depth)).Fails rest :=
  .bind (.bind (.bind (.bind (.bind (.bind (operand_fails h depth))))))

/-! ## Chains of calls -/

/-- What is called, and the lists of arguments after it. -/
def callChain (expression : Parser Node) : Parser (Node × List (List Node)) := do
  let callee ← primary expression
  let argumentLists ← many (arguments expression)
  return (callee, argumentLists)

lemma calls_eq (expression : Parser Node) :
    calls expression = located "postfix" (callChain expression) >>= fun r =>
      pure (r.2.2.foldl (fun f args => .invocation (some r.1) f args) r.2.1) := rfl

/-- The text is read as the first part of a chain of calls, whatever the other calls are. -/
def ReadsCallee (expression : Parser Node) (e : Node) (t : List Char) : Prop :=
  ∀ (v rest : List Char) (Q : List (List Node) → Prop), Ends (v ++ rest) →
    (many (arguments expression)).Reads Q v rest →
    (callChain expression).Reads
      (fun r => ∃ before others, Q others ∧ r.2 = before ++ others ∧
        ∀ loc, (before.foldl (fun f args => .invocation (some loc) f args) r.1).bare = e.bare)
      (t ++ v) rest

variable {expression : Parser Node}

lemma readsCallee_of_primary
    (h : ∀ rest, Ends rest → (primary expression).Reads (·.bare = e.bare) t rest) :
    ReadsCallee expression e t := by
  intro v rest Q hends hmany
  refine .bind (h (v ++ rest) hends) fun callee hcallee => .bind_nil hmany fun others hothers => ?_
  exact .pure ⟨[], others, hothers, rfl, fun _ => hcallee⟩

lemma arguments_fails (h : rest.head? ≠ some '(') : (arguments expression).Fails rest :=
  parenthesized_fails h

/-- A chain of calls ends where no parenthesis opens. -/
lemma ReadsCallee.calls_reads (h : ReadsCallee expression e t) (hends : Ends rest)
    (hcall : rest.head? ≠ some '(') : (calls expression).Reads (·.bare = e.bare) t rest := by
  have hchain := h [] rest (· = []) hends (.many_nil (arguments_fails hcall))
  rw [List.append_nil] at hchain
  rw [calls_eq]
  refine .bind_nil (.located hchain) ?_
  rintro ⟨loc, callee, _⟩ ⟨⟨before, _, rfl, rfl, hbare⟩, -⟩
  refine .pure ?_
  rw [List.append_nil]
  exact hbare loc

/-- One more call after a chain of calls. -/
lemma ReadsCallee.call {loc : Option Location} {callee : Node} {args : List Node}
    {u : List Char} (h : ReadsCallee expression callee t)
    (hargs : ∀ rest, (arguments expression).Reads (fun as => as.map Node.bare = args.map Node.bare)
      ('(' :: u) rest) :
    ReadsCallee expression (.invocation loc callee args) (t ++ '(' :: u) := by
  intro v rest Q hends hmany
  have hread := h ('(' :: u ++ v) rest _ (ends_parenthesis _)
    (.many_cons (List.cons_ne_nil _ _) (hargs (v ++ rest)) hmany)
  rw [← List.append_assoc] at hread
  refine hread.mono ?_
  rintro ⟨first, _⟩ ⟨before, _, ⟨as, others, rfl, has, hothers⟩, rfl, hbare⟩
  refine ⟨before ++ [as], others, hothers, by simp, fun place => ?_⟩
  rw [List.foldl_append, List.foldl_cons, List.foldl_nil, Node.bare, Node.bare, hbare,
    Node.bareAll_eq_map, Node.bareAll_eq_map, has]

end SignalCalc.Syntax
