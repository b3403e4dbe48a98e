import SignalCalc.Proofs.Syntax.ReadBack

/-!
# Statements are read back

A statement is looked for as a definition first, then as an assignment, and as an expression at
last.  So an expression is only read back because it looks like neither: `Written.definition_fails`
says that it is never taken for a definition.  It may well start like one, with a name and names in
parentheses behind it, but then no equals sign follows.
-/

namespace SignalCalc.Syntax

open SignalCalc.Syntax.Grammar
open SignalCalc.Syntax.Layout
open SignalCalc.Syntax.Parser
open SignalCalc.Syntax.Token

variable {e : Node} {t rest g g' : List Char}

/-! ## Names in parentheses -/

lemma head?_symbol {op : BinaryOperator} (hop : op.IsWritten) (more : List Char) :
    (op.symbol.toList ++ more).head? = some op.initial := by
  obtain ⟨cs, hcs⟩ := BinaryOperator.symbol_eq_cons hop
  rw [hcs, List.cons_append, List.head?_cons]

/-- Text that goes on neither with a comma nor with a closing parenthesis. -/
def GoesOn (text : List Char) : Prop :=
  (inside text).head? ≠ some ',' ∧ (inside text).head? ≠ some ')'

lemma goesOn_cons {c : Char} (hblank : c ≠ ' ' ∧ c ≠ '\t' ∧ c ≠ '/') (hmark : c ≠ ',' ∧ c ≠ ')')
    (cs : List Char) : GoesOn (c :: cs) := by
  rw [GoesOn, inside_cons hblank.1 hblank.2.1 hblank.2.2]
  exact ⟨fun heq => hmark.1 (Option.some.inj heq), fun heq => hmark.2 (Option.some.inj heq)⟩

lemma goesOn_symbol {op : BinaryOperator} {more : List Char} (hop : op.IsWritten)
    (hslash : op = .arithmetic .div → NoComment more) : GoesOn (op.symbol.toList ++ more) := by
  rw [GoesOn, inside_symbol hop hslash, head?_symbol hop]
  cases op with
  | arithmetic op => cases op <;> decide
  | other symbol => exact hop.elim
  | _ => decide

lemma GoesOn.gap_append (hg : IsGap g) (h : GoesOn t) : GoesOn (g ++ t) := by
  rwa [GoesOn, inside_gap hg]

lemma StartsOperand.goesOn (ht : StartsOperand t) (rest : List Char) : GoesOn (t ++ rest) := by
  rw [GoesOn, ht.inside_append]
  obtain ⟨c, cs, rfl, hc⟩ := ht
  rw [List.cons_append, List.head?_cons]
  constructor
  all_goals
    intro heq
    obtain rfl := Option.some.inj heq
    rcases hc with hc | hc | hc | hc | ⟨hc, -⟩
    all_goals exact absurd hc (by decide)

/-- Where an argument starts with a name, it is that name, or it goes on behind it. -/
lemma Written.after_name_argument (h : Written .argument e t) (hends : Ends rest) :
    ∀ after, Token.name (t ++ rest) = some after → after = rest ∨ GoesOn after := by
  cases h with
  | positional h =>
    refine h.after_name (C := fun after => after = rest ∨ GoesOn after)
      (fun _ u g g' more _ _ _ _ _ => .inr ?_) (fun g more op hg hop hslash => .inr ?_) hends
      (.inl rfl)
    · exact goesOn_cons (by decide) (by decide) _
    · exact (goesOn_symbol hop hslash).gap_append hg
  | @keyword _ x _ t g g' hx _ hg _ =>
    intro after hafter
    have hequals : Ends (g ++ '=' :: (g' ++ t) ++ rest) := by
      rw [List.append_assoc]
      exact ends_gap_append hg (ends_cons (by decide) (by decide) (by decide) _)
    rw [List.append_assoc, name_append hx hequals] at hafter
    obtain rfl := Option.some.inj hafter
    rw [List.append_assoc]
    exact .inr ((goesOn_cons (by decide) (by decide) _).gap_append hg)

/-- No closing parenthesis comes next but the one before `rest`. -/
def ClosesAt (rest text : List Char) : Prop :=
  inside text = ')' :: rest ∨ (inside text).head? ≠ some ')'

/-- Names with commas between them, looked for among arguments, stop at the end of the arguments
or at an argument that is no name. -/
lemma names_land {first : Node × List Char} {args : List (Node × List Char)} {u after : List Char}
    (hargs : ∀ arg ∈ first :: args, Written .argument arg.1 arg.2)
    (hu : Separated ((first :: args).map Prod.snd) u) (hg : IsGap g)
    (hafter : Token.name (u ++ (g ++ ')' :: rest)) = some after) :
    (many (comma *> name)).Lands after (ClosesAt rest) := by
  have hclose : inside (g ++ ')' :: rest) = ')' :: rest := by
    rw [inside_gap hg, inside_mark (.inl rfl)]
  have hgoesOn : ∀ after, GoesOn after → (many (comma *> name)).Lands after (ClosesAt rest) :=
    fun after h => .many (.inr h.2) (Fails.seqRight (comma_fails h.1)).lands
  induction args generalizing first u after with
  | nil =>
    cases hu
    have hends : Ends (g ++ ')' :: rest) := ((follows_mark (.inl rfl) rest).gap_append hg).ends
    rcases (hargs first List.mem_cons_self).after_name_argument hends after hafter with rfl | h
    · exact .many (.inl hclose) (Fails.seqRight (comma_fails_parenthesis hg rest)).lands
    · exact hgoesOn after h
  | cons second args ih =>
    cases hu with
    | @cons _ _ u g₁ g₂ _ hu hg₁ hg₂ =>
      rw [List.append_assoc] at hafter
      have hcomma : Ends (g₁ ++ ',' :: (g₂ ++ u) ++ (g ++ ')' :: rest)) := by
        rw [List.append_assoc]
        exact ((follows_mark (.inr (.inl rfl)) _).gap_append hg₁).ends
      rcases (hargs first List.mem_cons_self).after_name_argument hcomma after hafter with rfl | h
      · have hsolid : inside (u ++ (g ++ ')' :: rest)) = u ++ (g ++ ')' :: rest) := by
          obtain ⟨w, rfl⟩ := hu.exists_append
          rw [List.append_assoc]
          exact (hargs second (by simp)).startsOperand.inside_append _
        have hsplit : g₁ ++ ',' :: (g₂ ++ u) ++ (g ++ ')' :: rest) =
            (g₁ ++ ',' :: g₂) ++ (u ++ (g ++ ')' :: rest)) := by simp
        refine .many (.inr ?_) ?_
        · rw [List.append_assoc, inside_gap hg₁, List.cons_append, inside_mark (.inr (.inl rfl))]
          exact fun heq => absurd (Option.some.inj heq) (by decide)
        · rw [hsplit]
          refine Lands.bind (comma_reads hg₁ hg₂ hsolid).lands ?_
          rintro _ _ rfl
          exact name_lands.mono fun after hafter' =>
            ih (fun arg harg => hargs arg (List.mem_cons_of_mem _ harg)) hu hafter'
      · exact hgoesOn after h

lemma sepBy_names_land {args : List (Node × List Char)} {u : List Char}
    (hargs : ∀ arg ∈ args, Written .argument arg.1 arg.2) (hu : Separated (args.map Prod.snd) u)
    (hg : IsGap g) (hg' : IsGap g') :
    (sepBy name comma).Lands (inside (g ++ (u ++ (g' ++ ')' :: rest)))) (ClosesAt rest) := by
  suffices hmaybe : (maybe (sepBy1 name comma)).Lands (inside (g ++ (u ++ (g' ++ ')' :: rest))))
      (ClosesAt rest) by
    exact hmaybe.bind fun _ _ hmid => .pure hmid
  rw [inside_gap hg]
  cases args with
  | nil =>
    cases hu
    rw [List.nil_append, inside_gap hg', inside_mark (.inl rfl)]
    refine .maybe (.inl (inside_mark (.inl rfl) rest)) (Fails.bind (name_fails ?_)).lands
    exact name_eq_none (forall_head_cons (by decide))
  | cons first args =>
    have hsolid : inside (u ++ (g' ++ ')' :: rest)) = u ++ (g' ++ ')' :: rest) ∧
        GoesOn (u ++ (g' ++ ')' :: rest)) := by
      have hfirst := (hargs first List.mem_cons_self).startsOperand
      obtain ⟨w, rfl⟩ := hu.exists_append
      rw [List.append_assoc]
      exact ⟨hfirst.inside_append _, hfirst.goesOn _⟩
    rw [hsolid.1]
    refine .maybe (.inr hsolid.2.2) (name_lands.bind fun _ after hafter => ?_)
    exact (names_land hargs hu hg' hafter).bind fun _ _ hmid => .pure hmid

/-- The names in parentheses that a definition starts with, looked for in a call, end where the
call ends. -/
lemma parameters_land {args : List (Node × List Char)} {u : List Char}
    (hargs : ∀ arg ∈ args, Written .argument arg.1 arg.2) (hu : Separated (args.map Prod.snd) u)
    (hg : IsGap g) (hg' : IsGap g') :
    (parenthesized (sepBy name comma)).Lands ('(' :: (g ++ (u ++ (g' ++ ')' :: rest))))
      (· = rest) := by
  have hopen : (word "(").Reads (fun _ => True) ['('] (g ++ (u ++ (g' ++ ')' :: rest))) :=
    word_reads rfl
  refine hopen.lands.bind ?_
  rintro _ _ rfl
  refine gap_lands.bind ?_
  rintro _ _ rfl
  refine (sepBy_names_land hargs hu hg hg').bind fun params mid hmid => gap_lands.bind ?_
  rintro _ _ rfl
  rcases hmid with hmid | hmid
  · rw [hmid]
    have hclose : (word ")").Reads (fun _ => True) [')'] rest := word_reads rfl
    refine hclose.lands.bind ?_
    rintro _ _ rfl
    exact .pure rfl
  · exact (Fails.bind (word_fails rfl hmid)).lands

/-! ## Expressions are neither definitions nor assignments -/

/-- The parts of a definition, from behind its name on. -/
def definitionTail (f : String) : Parser (String × List String × Node) := do
  gap
  let params ← parenthesized (sepBy name comma)
  equals
  let body ← expression
  return (f, params.map (·.2), body)

lemma definition_eq : definition =
    located "definition" (name >>= fun r => definitionTail r.2) >>= fun r =>
      pure (.definition (some r.1) r.2.1 r.2.2.1 r.2.2.2) := rfl

/-- A statement that is an expression ends here. -/
structure FollowsStatement (rest : List Char) : Prop where
  argument : FollowsArgument rest
  /-- No parenthesis opens, not even behind layout. -/
  call : (inside rest).head? ≠ some '('

lemma equals_fails (h : Token.assign (inside rest) = none) : equals.Fails rest :=
  .seqRight (gap_bind_fails (.scan h))

lemma definitionTail_fails (h : (inside rest).head? ≠ some '(') (f : String) :
    (definitionTail f).Fails rest :=
  gap_bind_fails (.bind (parenthesized_fails h))

/-- **No expression is taken for a definition.** -/
lemma Written.definition_fails (h : Written (.level 0) e t) (hrest : FollowsStatement rest) :
    definition.Fails (t ++ rest) := by
  have hafter := h.after_name
    (C := fun after => (∀ f, (definitionTail f).Fails after) ∧ equals.Fails after)
    (fun args u g g' more hargs hu hg hg' hmore => ?_) (fun g more op hg hop hslash => ?_)
    hrest.argument.1.ends ⟨definitionTail_fails hrest.call, equals_fails hrest.argument.2⟩
  · rw [definition_eq]
    exact .bind (.located (name_lands.bind_fails fun r after hname => (hafter after hname).1 r.2))
  · constructor
    · refine fun f => gap_bind_fails ?_
      rw [inside_cons (by decide) (by decide) (by decide)]
      refine (parameters_land hargs hu hg hg').bind_fails ?_
      rintro _ _ rfl
      exact .bind hmore.2
    · refine equals_fails ?_
      rw [inside_cons (by decide) (by decide) (by decide)]
      exact assign_cons_of_ne (by decide) _
  · constructor
    · refine definitionTail_fails ?_
      rw [inside_gap hg, inside_symbol hop hslash, head?_symbol hop]
      exact fun heq => (BinaryOperator.initial_spec hop).2.2.1 (Option.some.inj heq)
    · refine equals_fails ?_
      rw [inside_gap hg, inside_symbol hop hslash]
      exact assign_symbol hop more

/-- No expression is taken for an assignment. -/
lemma Written.assignment_fails (h : Written (.level 0) e t) (hrest : FollowsStatement rest) :
    assignment.Fails (t ++ rest) :=
  .bind (.located (binding_fails (h.notNamed hrest.argument.1.ends hrest.argument.2)))

/-! ## Statements -/

/-- The text of a statement. -/
inductive WrittenStatement : Node → List Char → Prop where
  | expression {e : Node} {t : List Char} : Written (.level 0) e t → WrittenStatement e t
  | assignment {loc : Option Location} {x : String} {e : Node} {t g g' : List Char} :
    IsName x.toList → Written (.level 0) e t → IsGap g → IsGap g' →
    WrittenStatement (.assignment loc x e) (x.toList ++ (g ++ '=' :: (g' ++ t)))
  | definition {loc : Option Location} {f : String} {params : List String} {e : Node}
    {t u g₁ g₂ g₃ g₄ g₅ : List Char} :
    IsName f.toList → (∀ x ∈ params, IsName x.toList) → Separated (params.map String.toList) u →
    Written (.level 0) e t → IsGap g₁ → IsGap g₂ → IsGap g₃ → IsGap g₄ → IsGap g₅ →
    WrittenStatement (.definition loc f params e)
      (f.toList ++ (g₁ ++ ('(' :: (g₂ ++ (u ++ (g₃ ++ [')']))) ++ (g₄ ++ '=' :: g₅ ++ t))))

/-- No assignment is taken for a definition. -/
lemma definition_fails_assignment {x : String} (hx : IsName x.toList) (hg : IsGap g) :
    definition.Fails (x.toList ++ (g ++ '=' :: rest)) := by
  rw [definition_eq]
  refine .bind (.located (name_lands.bind_fails fun r after hname => ?_))
  rw [name_append hx (ends_gap_equals hg rest)] at hname
  obtain rfl := Option.some.inj hname
  refine definitionTail_fails ?_ r.2
  rw [inside_gap hg, inside_cons (by decide) (by decide) (by decide)]
  exact fun heq => absurd (Option.some.inj heq) (by decide)

lemma parameters_read {params : List String} {u g₂ g₃ : List Char}
    (hparams : ∀ x ∈ params, IsName x.toList) (hu : Separated (params.map String.toList) u)
    (hg₂ : IsGap g₂) (hg₃ : IsGap g₃) :
    (parenthesized (sepBy name comma)).Reads (fun r => r.map Prod.snd = params)
      ('(' :: (g₂ ++ (u ++ (g₃ ++ [')'])))) rest := by
  have hitems : (params.map fun x => (x, x.toList)).map Prod.snd = params.map String.toList := by
    rw [List.map_map]
    rfl
  rw [← hitems] at hu
  have hname : ∀ item ∈ params.map fun x => (x, x.toList), item.2 = item.1.toList ∧
      IsName item.2 := by
    intro item hitem
    obtain ⟨x, hx, rfl⟩ := List.mem_map.1 hitem
    exact ⟨rfl, hparams x hx⟩
  refine (parenthesized_sepBy_reads (Q := fun x r => r.2 = x) (R := Ends)
    (fun c g more hc hg => ((follows_mark hc more).gap_append hg).ends) (fun item hitem more => ?_)
    (fun item hitem more hmore => ?_) (fun more => name_fails ?_) hu hg₂ hg₃).mono fun r hr => ?_
  · obtain ⟨c, cs, hx, hc, -⟩ := (hname item hitem).2
    rw [hx]
    have hstart : startsPrimary c = true := startsPrimary_iff.2 (.inr (.inr (.inr (.inl hc))))
    exact inside_cons (ne_of_startsPrimary hstart (by decide))
      (ne_of_startsPrimary hstart (by decide)) (ne_of_startsPrimary hstart (by decide)) _
  · refine (name_reads (hname item hitem).2 hmore).mono fun r hr => ?_
    rw [hr, (hname item hitem).1, String.ofList_toList]
  · exact name_eq_none (forall_head_cons (by decide))
  · rw [Call.map_eq_of_forall₂ (g := id) hr, List.map_id, List.map_map]
    exact List.map_id params

lemma definition_reads {loc : Option Location} {f : String} {params : List String}
    {u g₁ g₂ g₃ g₄ g₅ : List Char} (hf : IsName f.toList) (hparams : ∀ x ∈ params, IsName x.toList)
    (hu : Separated (params.map String.toList) u) (h : Written (.level 0) e t) (hg₁ : IsGap g₁)
    (hg₂ : IsGap g₂) (hg₃ : IsGap g₃) (hg₄ : IsGap g₄) (hg₅ : IsGap g₅) (hrest : Follows 0 rest) :
    definition.Reads (·.bare = (Node.definition loc f params e).bare)
      (f.toList ++ (g₁ ++ ('(' :: (g₂ ++ (u ++ (g₃ ++ [')']))) ++ (g₄ ++ '=' :: g₅ ++ t))))
      rest := by
  rw [definition_eq]
  refine .bind_nil (.located (P := fun r => r.1 = f ∧ r.2.1 = params ∧ r.2.2.bare = e.bare) ?_) ?_
  · have hopen : inside ('(' :: (g₂ ++ (u ++ (g₃ ++ [')']))) ++ (g₄ ++ '=' :: g₅ ++ t) ++ rest) =
        '(' :: (g₂ ++ (u ++ (g₃ ++ [')']))) ++ (g₄ ++ '=' :: g₅ ++ t) ++ rest :=
      inside_cons (by decide) (by decide) (by decide) _
    have hends : Ends (g₁ ++ ('(' :: (g₂ ++ (u ++ (g₃ ++ [')']))) ++ (g₄ ++ '=' :: g₅ ++ t)) ++
        rest) := by
      rw [List.append_assoc]
      exact ends_gap_append hg₁ (ends_parenthesis _)
    refine .bind (name_reads hf hends) fun r hr => .bind (gap_reads hg₁ hopen) fun _ _ => ?_
    refine .bind (parameters_read hparams hu hg₂ hg₃) fun params' hparams' => ?_
    refine .bind (equals_reads hg₄ hg₅ (h.startsOperand.inside_append rest)
      (h.startsOperand.head?_gap_append hg₅ rest)) fun _ _ => ?_
    refine .bind_nil (h.expression_reads hrest) fun body hbody => .pure ⟨?_, hparams', hbody⟩
    rw [hr, String.ofList_toList]
  · rintro ⟨place, f', params', body⟩ ⟨⟨rfl, rfl, hbody⟩, -⟩
    refine .pure ?_
    rw [Node.bare, Node.bare, hbody]

/-- **Statements are read back.** -/
lemma WrittenStatement.readsBack {node : Node} (h : WrittenStatement node t)
    (hrest : FollowsStatement rest) : statement.Reads (·.bare = node.bare) t rest := by
  cases h with
  | expression h =>
    exact .orElse_right (h.definition_fails hrest) (.orElse_right (h.assignment_fails hrest)
      (h.expression_reads hrest.argument.1))
  | @assignment loc x e t g g' hx h hg hg' =>
    refine .orElse_right ?_ (.orElse_left ?_)
    · rw [List.append_assoc, List.append_assoc]
      exact definition_fails_assignment hx hg
    · refine .bind_nil (.located (binding_reads hx hg hg' h.startsOperand
        (h.expression_reads hrest.argument.1))) ?_
      rintro ⟨loc', x', value⟩ ⟨⟨rfl, hvalue⟩, -⟩
      refine .pure ?_
      rw [Node.bare, Node.bare, hvalue]
  | definition hf hparams hu h hg₁ hg₂ hg₃ hg₄ hg₅ =>
    exact .orElse_left (definition_reads hf hparams hu h hg₁ hg₂ hg₃ hg₄ hg₅ hrest.argument.1)

end SignalCalc.Syntax
