import SignalCalc.Proofs.Syntax.CutOperators

/-!
# The rules of the grammar at a cut

Each rule reads the beginning of a text like the whole text if it stops in front of the cut; if it goes
on behind the cut, what follows it in a larger rule is not read from the beginning.  So statements that
end in front of the cut are read from the beginning, too: `statement_readsCut`.
-/

namespace SignalCalc.Syntax

open SignalCalc.Syntax.Grammar
open SignalCalc.Syntax.Layout
open SignalCalc.Syntax.Parser
open SignalCalc.Syntax.Token

variable {α β : Type} {source : String} {more text after : List Char} {A : List Char}
  {n n' e k depth depth' : ℕ} {B : List Char → Prop}

/-! ## Parentheses -/

/-- What stands in parentheses ends in front of no closing parenthesis if it goes on behind the cut. -/
lemma parenthesized_readsCut {q q' : Parser α}
    (hq : ReadsCut source more (n - 1) (n' - 1) 0 (Blocked [')']) q q')
    (hspent : ∀ s, IsSpent s → q'.Lands s (Blocked [')'])) :
    ReadsCut source more n n' 1 Never (parenthesized q) (parenthesized q') := by
  have hclose (s : List Char) (hs : Blocked [')'] s) (a : α) :
      (gap >>= fun _ => word ")" >>= fun _ => pure a).Fails s := by
    exact gap_bind_fails (.bind (word_fails rfl (hs.head_ne (c := ')') List.mem_cons_self (by decide))))
  have hend (a a' : α) : ReadsCut source more (n - 1) (n' - 1) 0 Never
      (gap >>= fun _ => word ")" >>= fun _ => pure a)
      (gap >>= fun _ => word ")" >>= fun _ => pure a') := by
    refine gap_readsCut.bind (fun _ _ => (word_readsCut (by decide)).map.weaken) fun _ s hs => ?_
    exact .bind (word_fails_of_spent rfl (by decide) hs)
  have hopen : ReadsCut source more n n' 1 Never (word "(") (word "(") := word_readsCut (by decide)
  refine hopen.bind (e := 0) (fun _ _ => ?_) fun _ _ => False.elim
  refine gap_readsCut.bind (fun _ _ => hq.bind hend fun a s hs => hclose s hs a) fun _ s hs => ?_
  exact (hspent s hs).bind_fails fun a mid hmid => hclose mid hmid a

/-- What is separated by commas goes on in front of no parenthesis, and in front of no comma. -/
lemma sepBy_readsCut {q q' : Parser α} (hq : ReadsCut source more n n' 0 (Blocked (looser 0)) q q')
    (hspent : ∀ s, IsSpent s → q'.Fails s) (hstart : ∀ s, ¬q.Fails s → Blocked (looser 0) s) :
    ReadsCut source more n n' 0 (Blocked [')']) (sepBy q comma) (sepBy q' comma) := by
  have hcomma (s : List Char) (hs : Blocked (looser 0) s) : (comma *> q').Fails s :=
    .seqRight (comma_fails (hs.head_ne (by decide) (by decide)))
  have hclosed (s : List Char) (hs : Blocked (looser 0) s) : Blocked [')'] s := hs.mono (by decide)
  have hother : ReadsCut source more n n' 1 (Blocked (looser 0)) (comma *> q) (comma *> q') :=
    comma_readsCut.bind (fun _ _ => hq.within (Nat.sub_le n 1) (Nat.sub_le n' 1))
      fun _ s hs => hspent s hs
  have hothers : ReadsCut source more n n' 0 (Blocked [')']) (many (comma *> q))
      (many (comma *> q')) := by
    refine hother.many (fun c c' hcut hread => ?_) fun s hs => ⟨hclosed s hs, hcomma s hs⟩
    have hblocked : Blocked [')'] c.rest := by
      intro x hx hmem
      obtain rfl := List.mem_singleton.1 hmem
      refine hread (Fails.seqRight (comma_fails ?_) c rfl)
      rw [head?_of_signOf hx]
      decide
    rw [hcut] at hblocked
    exact hblocked.of_append
  have hone : ReadsCut source more n n' 0 (Blocked [')']) (sepBy1 q comma) (sepBy1 q' comma) := by
    refine hq.bind_total (fun _ _ => hothers.map) (fun _ _ => nofun) fun _ s hs => ?_
    refine .bind (Reads.many_nil (hcomma s hs)).lands fun _ mid hmid => .pure ?_
    rw [hmid]
    exact hclosed s hs
  refine .map (hone.maybe fun c c' hcut hread => ?_)
  have hblocked : Blocked (looser 0) c.rest :=
    hstart c.rest fun hfails => hread (Fails.bind hfails c rfl)
  rw [hcut] at hblocked
  exact hclosed _ hblocked.of_append

/-! ## What can be called -/

/-- The beginning of a text starts with the same character as the text, if it is not empty. -/
lemma head_of_read {q : Parser α} {P : Char → Prop}
    (hfails : ∀ s : List Char, (∀ x ∈ s.head?, ¬P x) → q.Fails s) {c c' : Cursor}
    (hcut : c.rest = c'.rest ++ more) (hread : q c ≠ none) : ∀ x ∈ c'.rest.head?, P x := by
  intro x hx
  by_contra hP
  refine hread (hfails c.rest (fun y hy => ?_) c rfl)
  obtain ⟨rest, hrest⟩ := List.head?_eq_some_iff.1 hx
  rw [hcut, hrest] at hy
  obtain rfl := Option.some.inj hy
  exact hP

lemma blocked_of_leavesExponent {s : List Char} (hA : 'e' ∉ A ∧ 'E' ∉ A) (h : LeavesExponent s) :
    Blocked A s := by
  intro c hc
  cases s with
  | nil => cases hc
  | cons d rest =>
    rcases h d rfl with rfl | rfl
    · rw [signAt, inside_cons (by decide) (by decide) (by decide)] at hc
      obtain rfl := Option.some.inj (head?_of_signOf hc)
      exact hA.1
    · rw [signAt, inside_cons (by decide) (by decide) (by decide)] at hc
      obtain rfl := Option.some.inj (head?_of_signOf hc)
      exact hA.2

lemma number_readsCut (hA : 'e' ∉ A ∧ 'E' ∉ A) :
    ReadsCut source more n n' 1 (Blocked A) number number :=
  .map ((scan_readsCut number_readsLocally.proper number_cut).mono
    fun _ => blocked_of_leavesExponent hA).located

lemma string_readsCut : ReadsCut source more n n' 1 Never string string :=
  .map (scan_readsCut string_takesWord string_cut).located

lemma identifier_readsCut : ReadsCut source more n n' 1 (· = []) identifier identifier :=
  .map name_readsCut

lemma group_fails {p : Parser Node} (h : text.head? ≠ some '(') : (group p).Fails text :=
  .bind (.located (parenthesized_fails h))

lemma group_readsCut (h : ReadsCut source more (n - 1) (n' - 1) 0 (Blocked (looser 0))
    (expressionOver (operand depth)) (expressionOver (operand depth'))) :
    ReadsCut source more n n' 1 Never (group (expressionOver (operand depth)))
      (group (expressionOver (operand depth'))) := by
  have hclosed (s : List Char) (hs : Blocked (looser 0) s) : Blocked [')'] s := hs.mono (by decide)
  refine .map (parenthesized_readsCut ((h.maybe fun c c' hcut hread => ?_).mono hclosed)
    fun s hs => ?_).located
  · have hblocked : Blocked (looser 0) c.rest :=
      blocked_of_read (fun _ => expressionOver_fails_of_noExpression) fun hfails => hread (hfails c rfl)
    rw [hcut] at hblocked
    exact hblocked.of_append
  · exact .maybe hs.blocked (expressionOver_fails_of_noExpression hs.noExpression).lands

lemma primary_readsCut (hA : 'e' ∉ A ∧ 'E' ∉ A)
    (h : ReadsCut source more (n - 1) (n' - 1) 0 (Blocked (looser 0)) (expressionOver (operand depth))
      (expressionOver (operand depth'))) :
    ReadsCut source more n n' 1 (Blocked A) (primary (expressionOver (operand depth)))
      (primary (expressionOver (operand depth'))) := by
  have hnever (s : List Char) (hs : Never s) : Blocked A s := hs.elim
  have hend (s : List Char) (hs : s = []) : Blocked A s := hs ▸ IsSpent.nil.blocked
  refine (number_readsCut hA).orElse ((string_readsCut.mono hnever).orElse
    ((identifier_readsCut.mono hend).orElse ((group_readsCut h).mono hnever) ?_) ?_) ?_
  · intro c c' hcut hread _
    have hhead := head_of_read (P := (startsName · = true))
      (fun s hs => identifier_fails fun x hx => Bool.eq_false_iff.2 (hs x hx)) hcut hread
    exact (group_fails fun heq => absurd (hhead '(' heq) (by decide)).lands
  · intro c c' hcut hread _
    have hhead := head_of_read (P := (· = '"')) (fun s hs => string_fails hs) hcut hread
    refine (Fails.orElse (identifier_fails fun x hx => ?_) (group_fails fun heq => ?_)).lands
    · rw [hhead x hx]
      decide
    · exact absurd (hhead '(' heq) (by decide)
  · intro c c' hcut hread _
    have hhead := head_of_read (P := (startsNumeral · = true))
      (fun s hs => number_fails fun x hx => Bool.eq_false_iff.2 (hs x hx)) hcut hread
    refine (Fails.orElse (string_fails fun x hx hquote => ?_) (.orElse (identifier_fails fun x hx => ?_)
      (group_fails fun heq => ?_))).lands
    · exact absurd (hhead x hx) (by rw [hquote]; decide)
    · exact Bool.eq_false_iff.2 fun hname =>
        absurd (hhead x hx) (by rw [startsNumeral_of_startsName hname]; decide)
    · exact absurd (hhead '(' heq) (by decide)

/-! ## Names -/

/-- A name that no operator and no call follows is an operand. -/
lemma operand_lands_name (hname : Token.name text = some after) (hcall : after.head? ≠ some '(')
    (hpower : Blocked ['^'] after) (depth : ℕ) :
    (operand depth).Lands text (· = after) := by
  obtain ⟨c, rest, rfl⟩ : ∃ c rest, text = c :: rest := by
    cases text with
    | nil => cases hname
    | cons c rest => exact ⟨c, rest, rfl⟩
  have hc : startsName c = true := by
    by_contra hc
    rw [name_eq_none (forall_head_cons (Bool.eq_false_iff.2 hc))] at hname
    cases hname
  cases depth with
  | zero => exact Fails.lands fun _ _ => rfl
  | succ depth =>
    have hstart : startsPrimary c = true := startsPrimary_iff.2 (.inr (.inr (.inr (.inl hc))))
    have hprimary : (primary (expressionOver (operand depth))).Lands (c :: rest) (· = after) := by
      refine (Fails.lands (number_fails (forall_head_cons (startsNumeral_of_startsName hc)))).orElse
        ((Fails.lands (string_fails (forall_head_cons ?_))).orElse
          (.orElse (.bind name_lands fun _ mid hmid => .pure ?_)
            (Fails.lands (group_fails fun heq => ?_))))
      · rintro rfl
        exact absurd hc (by decide)
      · exact Option.some.inj (hmid.symm.trans hname)
      · obtain rfl := Option.some.inj heq
        exact absurd hc (by decide)
    have hcalls : (calls (expressionOver (operand depth))).Lands (c :: rest) (· = after) := by
      refine .bind (.located (.bind hprimary fun _ mid hmid => ?_)) fun _ _ hmid => .pure hmid
      rw [hmid]
      exact .bind (Reads.many_nil (arguments_fails hcall)).lands fun _ _ hmid => .pure hmid
    have htail : (powerTail (operand depth)).Fails after :=
      operatorStep_fails (fun _ => powerOperator_lands) (operand_fails noOperand_nil depth) hpower
    refine (Fails.lands (prefixed_fails (ne_prefix_of_startsPrimary hstart))).orElse ?_
    rw [power_eq]
    refine hcalls.bind fun base mid hmid => ?_
    rw [hmid]
    refine .bind (.maybe (C := (· = after)) rfl htail.lands) fun tail last hlast => ?_
    cases tail with
    | none => exact .pure hlast
    | some tail => exact .pure hlast

lemma leftAssociative_lands {level : Parser (Location × BinaryOperator)} (hp : p.Lands text (· = after))
    (hend : (operatorStep p level).Fails after) : (leftAssociative p level).Lands text (· = after) := by
  rw [leftAssociative_eq]
  refine hp.bind fun first mid hmid => ?_
  rw [hmid]
  exact .bind (Reads.many_nil hend).lands fun _ _ hlast => .pure hlast

lemma levelParser_lands_name (hname : Token.name text = some after) (hcall : after.head? ≠ some '(')
    (hblocked : ∀ A, Blocked A after) (hk : k ≤ 6) :
    (levelParser depth k).Lands text (· = after) := by
  induction hk using Nat.decreasingInduction with
  | self => exact operand_lands_name hname hcall (hblocked _) depth
  | of_succ k hk ih =>
    rw [levelParser_of_lt hk]
    exact leftAssociative_lands ih (operatorStep_fails (fun _ => levelOperator_lands hk)
      (levelParser_fails nofun hk) (hblocked _))

/-! ## Calls -/

lemma equals_bind (f : Unit → Parser β) :
    equals >>= f = gap >>= fun _ => scan Token.assign >>= fun _ => gap >>= f := by
  simp only [equals, seqRight_eq_bind, bind_assoc]

lemma assign_fails_of_spent (h : IsSpent text) : Token.assign text = none := by
  cases h with
  | nil => rfl
  | slash => rfl
  | opening => rfl

/-- What stands behind an equals sign ends it at the cut. -/
lemma equals_bind_readsCut (f f' : Unit → Parser β)
    (hf : ReadsCut source more (n - 1) (n' - 1) e B (f ()) (f' ()))
    (hspent : ∀ s, IsSpent s → (f' ()).Fails s) :
    ReadsCut source more n n' (1 + e) B (equals >>= f) (equals >>= f') := by
  rw [equals_bind, equals_bind]
  have hassign : LaxReadsCut source more 1 (scan Token.assign) (scan Token.assign) :=
    .scan assign_readsLocally.proper assign_cut
  have hvalue : ReadsCut source more (n - 1) (n' - 1) (0 + e) B (gap >>= f) (gap >>= f') :=
    gap_readsCut.bind (fun _ _ => hf) fun _ => hspent
  rw [Nat.zero_add] at hvalue
  have hboth : ReadsCut source more n n' (0 + (1 + e)) B
      (gap >>= fun _ => scan Token.assign >>= fun _ => gap >>= f)
      (gap >>= fun _ => scan Token.assign >>= fun _ => gap >>= f') :=
    gap_readsCut.bind
      (fun _ _ => hassign.bind (fun _ _ => hvalue) fun _ => gap_bind_fails (hspent [] .nil))
      fun _ s hs => .bind (.scan (assign_fails_of_spent hs))
  rwa [Nat.zero_add] at hboth

lemma binding_readsCut {q q' : Parser Node} (hq : ReadsCut source more n n' 0 B q q')
    (hspent : ∀ s, IsSpent s → q'.Fails s) :
    ReadsCut source more n n' 1 B (binding q) (binding q') := by
  refine name_readsCut.bind (e := 0) (fun r r' => ?_) fun r s hs => ?_
  · have hvalue : ReadsCut source more (n - 1 - 1) (n' - 1 - 1) 0 B (q >>= fun value => pure (r.2, value))
        (q' >>= fun value => pure (r'.2, value)) :=
      (hq.within (by omega) (by omega)).map
    exact (equals_bind_readsCut (fun _ => q >>= fun value => pure (r.2, value))
      (fun _ => q' >>= fun value => pure (r'.2, value)) hvalue
      fun s hs => .bind (hspent s hs)).weaken
  · subst hs
    exact .bind (.bind (gap_bind_fails (.scan rfl)))

lemma exists_name_of_keyword {q : Parser Node} {c : Cursor} (h : keyword q c ≠ none) :
    ∃ after, Token.name c.rest = some after ∧ after.head? ≠ some '(' ∧ ∀ A, Blocked A after := by
  have hnamed : ¬NotNamed c.rest := fun hnone => h (keyword_fails hnone c rfl)
  simp only [NotNamed, not_forall] at hnamed
  obtain ⟨after, hname, hassign⟩ := hnamed
  obtain ⟨d, rest, hinside⟩ : ∃ d rest, inside after = d :: rest := by
    cases hnil : inside after with
    | nil =>
      rw [hnil] at hassign
      exact absurd rfl hassign
    | cons d rest => exact ⟨d, rest, rfl⟩
  rw [hinside] at hassign
  have hd : d = '=' := by
    by_contra hne
    exact hassign (assign_cons_of_ne hne rest)
  subst hd
  refine ⟨after, hname, fun hhead => ?_, fun A x hx => ?_⟩
  · obtain ⟨more, rfl⟩ := List.head?_eq_some_iff.1 hhead
    rw [inside_cons (by decide) (by decide) (by decide)] at hinside
    cases hinside
  · rw [signAt, hinside, signOf, if_pos] at hx
    · cases hx
    · refine .inl ⟨rfl, fun hhead => hassign ?_⟩
      rw [assign_equals, if_pos hhead]

/-- An argument with a name is an expression in the beginning if it goes on behind the cut. -/
lemma lands_of_keyword {q : Parser Node} {c c' : Cursor} (hcut : c.rest = c'.rest ++ more)
    (hread : keyword q c ≠ none) :
    (expressionOver (operand depth)).Lands c'.rest (Blocked (looser 0)) := by
  obtain ⟨after, hname, hcall, hblocked⟩ := exists_name_of_keyword hread
  have hlands {r : List Char} (hr : Token.name c'.rest = some r) (hcall : r.head? ≠ some '(')
      (hblocked : ∀ A, Blocked A r) :
      (expressionOver (operand depth)).Lands c'.rest (Blocked (looser 0)) :=
    (levelParser_lands_name (k := 0) hr hcall hblocked (Nat.zero_le 6)).mono
      fun _ hlast => hlast ▸ hblocked _
  rw [hcut] at hname
  have hcutName : WordCut more (· = []) Token.name c'.rest := name_cut c'.rest
  cases hcutName with
  | @within r hr hmore =>
    obtain rfl := Option.some.inj (hname.symm.trans hmore)
    refine hlands hr (fun hhead => hcall ?_) fun A => (hblocked A).of_append
    obtain ⟨rest, rfl⟩ := List.head?_eq_some_iff.1 hhead
    rfl
  | fail hr hmore =>
    rw [hmore] at hname
    cases hname
  | beyond hmore hlt hr =>
    cases hread : Token.name c'.rest with
    | none =>
      cases hrest : c'.rest with
      | nil => exact (expressionOver_fails noOperand_nil depth).lands
      | cons x rest =>
        rw [hrest] at hread hname
        rw [List.cons_append, Token.name] at hname
        rw [Token.name] at hread
        split at hread
        · cases hread
        · rename_i hx
          rw [if_neg hx] at hname
          cases hname
    | some r =>
      obtain rfl := hr r hread
      exact hlands hread (by simp) fun _ => IsSpent.nil.blocked

lemma argument_fails_of_noExpression (h : NoExpression text) :
    (keyword (expressionOver (operand depth)) <|> expressionOver (operand depth)).Fails text := by
  refine .orElse (keyword_fails fun after hafter => ?_) (expressionOver_fails_of_noExpression h)
  have hhead := h.head
  cases text with
  | nil => cases hafter
  | cons c rest =>
    have hstart := hhead c rfl
    simp only [startsPrimary, Bool.or_eq_false_iff] at hstart
    exact notNamed_of_head hstart.1.2 after hafter

lemma arguments_readsCut (h : ReadsCut source more (n - 1) (n' - 1) 0 (Blocked (looser 0))
    (expressionOver (operand depth)) (expressionOver (operand depth'))) :
    ReadsCut source more n n' 1 Never (arguments (expressionOver (operand depth)))
      (arguments (expressionOver (operand depth'))) := by
  have hspent (s : List Char) (hs : IsSpent s) : (keyword (expressionOver (operand depth')) <|>
      expressionOver (operand depth')).Fails s := argument_fails_of_noExpression hs.noExpression
  have hkeyword : ReadsCut source more (n - 1) (n' - 1) 0 (Blocked (looser 0))
      (keyword (expressionOver (operand depth))) (keyword (expressionOver (operand depth'))) :=
    .map (binding_readsCut h fun s hs =>
      expressionOver_fails_of_noExpression hs.noExpression).located.weaken
  have hargument := hkeyword.orElse h fun c c' hcut hread _ => lands_of_keyword hcut hread
  refine parenthesized_readsCut (sepBy_readsCut hargument hspent fun s hs =>
    blocked_of_read (fun _ => argument_fails_of_noExpression) hs) fun s hs => ?_
  exact .bind (.maybe hs.blocked (Fails.lands (.bind (hspent s hs)))) fun _ _ hmid => .pure hmid

lemma signAt_parenthesis {rest : List Char} (h : text = '(' :: rest) : signAt text = some '(' := by
  rw [signAt, h, inside_cons (by decide) (by decide) (by decide)]
  simp [signOf]

lemma calls_readsCut (hA : 'e' ∉ A ∧ 'E' ∉ A) (hcall : '(' ∉ A)
    (h : ReadsCut source more (n - 1) (n' - 1) 0 (Blocked (looser 0)) (expressionOver (operand depth))
      (expressionOver (operand depth'))) :
    ReadsCut source more n n' 1 (Blocked A) (calls (expressionOver (operand depth)))
      (calls (expressionOver (operand depth'))) := by
  have hmany : ReadsCut source more (n - 1) (n' - 1) 0 (Blocked A)
      (many (arguments (expressionOver (operand depth))))
      (many (arguments (expressionOver (operand depth')))) := by
    refine (arguments_readsCut (h.within (by omega) (by omega))).many (fun c c' hcut hread => ?_)
      fun _ => False.elim
    have hhead := not_not.1 fun hhead => hread (arguments_fails hhead c rfl)
    obtain ⟨rest, hrest⟩ := List.head?_eq_some_iff.1 hhead
    have hblocked : Blocked A c.rest := by
      intro x hx hmem
      rw [signAt_parenthesis hrest] at hx
      exact hcall (Option.some.inj hx ▸ hmem)
    rw [hcut] at hblocked
    exact hblocked.of_append
  have hprimary := primary_readsCut (A := '(' :: A) (by simpa using hA) h
  rw [calls_eq, calls_eq]
  refine .map (.located (hprimary.bind_total (fun _ _ => hmany.map) (fun _ _ => nofun) fun _ s hs => ?_))
  have hend : s.head? ≠ some '(' := by
    intro hhead
    obtain ⟨rest, hrest⟩ := List.head?_eq_some_iff.1 hhead
    exact hs '(' (signAt_parenthesis hrest) List.mem_cons_self
  refine .bind (Reads.many_nil (arguments_fails hend)).lands fun _ mid hmid => .pure ?_
  rw [hmid]
  exact hs.mono (List.subset_cons_self _ _)

/-! ## Operands -/

/-- A base with its exponent, if there is one. -/
def raised (base : Node) : Option ((Location × BinaryOperator) × Node) → Node
  | some exponent => joined base exponent
  | none => base

lemma power_eq_raised (p : Parser Node) :
    power p = calls (expressionOver p) >>= fun base => maybe (powerTail p) >>= fun exponent =>
      pure (raised base exponent) := by
  rw [power_eq]
  congr! with base exponent
  cases exponent <;> rfl

lemma maybe_bind_ne_none {p : Parser α} {g : Option α → β} {c : Cursor} :
    (maybe p >>= fun a => pure (g a)) c ≠ none := by
  rw [run_bind, maybe]
  split
  · exact Option.some_ne_none _
  · exact Option.some_ne_none _

lemma power_readsCut (h : ReadsCut source more n n' 0 (Blocked (looser 6)) (operand depth)
    (operand depth')) :
    ReadsCut source more (n + 1) (n' + 1) 1 (Blocked (looser 6)) (power (operand depth))
      (power (operand depth')) := by
  have hcalls : ReadsCut source more (n + 1) (n' + 1) 1 (Blocked ('^' :: looser 6))
      (calls (expressionOver (operand depth))) (calls (expressionOver (operand depth'))) :=
    calls_readsCut (by simp [looser_six]) (by simp [looser_six])
      (levelParser_readsCut (k := 0) (Nat.zero_le 6) h)
  have hspent (s : List Char) (hs : IsSpent s) := operand_fails_of_noExpression hs.noExpression depth'
  have hnil (depth : ℕ) : (operand depth).Fails [] := operand_fails noOperand_nil depth
  have htail : ReadsCut source more n n' 0 (Blocked (looser 6)) (maybe (powerTail (operand depth)))
      (maybe (powerTail (operand depth'))) := by
    refine .maybe (operatorStep_readsCut powerOperator_cut (fun _ => powerOperator_lands)
      (h.within (by omega) (by omega)) hspent).weaken fun c c' hcut hread => ?_
    have hblocked := blocked_of_operatorStep (A := looser 6) (fun _ => powerOperator_lands) (hnil depth)
      (by simp [looser_six]) hread
    rw [hcut] at hblocked
    exact hblocked.of_append
  rw [power_eq_raised, power_eq_raised]
  refine hcalls.bind_total (fun base base' => htail.map) (fun _ _ => maybe_bind_ne_none)
    fun base s hs => ?_
  have hfails : (powerTail (operand depth')).Fails s :=
    operatorStep_fails (fun _ => powerOperator_lands) (hnil depth') (hs.mono (by simp))
  refine .bind (.maybe (C := Blocked (looser 6)) (hs.mono (List.subset_cons_self _ _)) hfails.lands) ?_
  exact fun _ _ hlast => .pure hlast

lemma unaryScan_cut (s : List Char) : LaxWordCut more unaryScan s := by
  have hliteral (w s : List Char) : LaxWordCut more (literal w) s :=
    ((literal_cut w s).mono fun _ => False.elim).lax
  have hword (w : List Char) (hw : w ≠ []) : TakesWord (literal w) :=
    fun _ _ h => ⟨w, hw, literal_eq_some h⟩
  have hslash : TakesWord slash := fun text rest h => ⟨['/'], List.cons_ne_nil _ _, (slash_eq_some h).1⟩
  refine findSome?_cut ?_ ?_ ?_ s
  · simp only [List.forall_mem_cons, List.not_mem_nil, false_imp_iff, forall_true_iff, and_true]
    exact ⟨hword _ (by simp), hword _ (by simp), hslash, hword _ (by simp)⟩
  · have hitems : ∀ item ∈ [('+', literal ['+']), ('-', literal ['-']), ('/', slash),
        ('!', literal ['!'])], ∀ c s, c ≠ item.1 → item.2 (c :: s) = none := by
      simp only [List.forall_mem_cons, List.not_mem_nil, false_imp_iff, forall_true_iff, and_true]
      exact ⟨fun c s h => literal_cons_of_ne h.symm _ _, fun c s h => literal_cons_of_ne h.symm _ _,
        fun c s h => slash_cons_of_ne h s, fun c s h => literal_cons_of_ne h.symm _ _⟩
    exact exclusive_map hitems (by simp)
  · simp only [List.forall_mem_cons, List.not_mem_nil, false_imp_iff, forall_true_iff, and_true]
    exact ⟨hliteral _, hliteral _, slash_cut, hliteral _⟩

lemma prefixed_readsCut (h : ReadsCut source more n n' 0 B (operand depth) (operand depth')) :
    ReadsCut source more (n + 1) (n' + 1) 1 B (prefixed (operand depth)) (prefixed (operand depth')) := by
  have hspent (s : List Char) (hs : IsSpent s) := operand_fails_of_noExpression hs.noExpression depth'
  have hoperator : LaxReadsCut source more 1 (located "unary_op" (scan unaryScan))
      (located "unary_op" (scan unaryScan)) :=
    .located (.scan unaryScan_takesWord unaryScan_cut)
  refine .map (.located (hoperator.bind (e := 0) (fun op op' => ?_) fun op => ?_))
  · exact gap_readsCut.bind (fun _ _ => h.map) fun _ s hs => .bind (hspent s hs)
  · exact gap_bind_fails (.bind (hspent [] .nil))

/-- An operand ends in front of the signs that may stand behind it if it goes on behind the cut.  The
bounds on the nesting are no less than the lengths of the texts. -/
lemma operand_readsCut (n n' : ℕ) :
    ReadsCut source more n n' 0 (Blocked (looser 6)) (operand n) (operand n') := by
  induction n generalizing n' with
  | zero => exact .of_zero_left (operand_ensures 0).stays
  | succ n ih =>
    cases n' with
    | zero => exact .of_zero_right (operand_ensures _).stays
    | succ n' =>
      refine (prefixed_readsCut (ih n')).weaken.orElse (power_readsCut (ih n')).weaken ?_
      intro c c' hcut hread _
      have hhead := head_of_read (P := fun x => x = '+' ∨ x = '-' ∨ x = '/' ∨ x = '!')
        (fun s hs => prefixed_fails fun x hx => by simpa [not_or] using hs x hx) hcut hread
      refine (Fails.bind (.bind (.located (.bind (primary_fails fun x hx => ?_))))).lands
      rcases hhead x hx with rfl | rfl | rfl | rfl <;> decide

lemma expression_readsCut : ReadsCut source more n n' 0 (Blocked (looser 0)) expression expression := by
  refine ⟨expression_ensures.stays, fun c c' hc hcut _ _ => ?_⟩
  have hoperand : ReadsCut source more (c.rest.length + 1) (c'.rest.length + 1) 0 (Blocked (looser 6))
      (operand (c.rest.length + 1)) (operand (c'.rest.length + 1)) := operand_readsCut _ _
  exact (levelParser_readsCut (k := 0) (Nat.zero_le 6) hoperand).run c c' hc hcut (Nat.lt_succ_self _)
    (Nat.lt_succ_self _)

/-! ## Statements -/

lemma expression_fails_of_noExpression (h : NoExpression text) : expression.Fails text :=
  fun c hc => expressionOver_fails_of_noExpression h c hc

lemma definitionTail_readsCut (f f' : String) :
    ReadsCut source more n n' 0 (fun _ => True) (definitionTail f) (definitionTail f') := by
  have hname : ReadsCut source more (n - 1) (n' - 1) 0 (Blocked (looser 0)) name name :=
    name_readsCut.weaken.mono fun _ hs => hs ▸ IsSpent.nil.blocked
  have hnames : ReadsCut source more n n' 1 Never (parenthesized (sepBy name comma))
      (parenthesized (sepBy name comma)) := by
    refine parenthesized_readsCut (sepBy_readsCut hname (fun _ => name_fails_of_spent) fun s hs => ?_)
      fun s hs => ?_
    · refine blocked_of_read (fun s hs => name_fails (name_eq_none fun x hx => ?_)) hs
      have hstart := hs.head x hx
      simp only [startsPrimary, Bool.or_eq_false_iff] at hstart
      exact hstart.1.2
    · exact .bind (.maybe hs.blocked (Fails.lands (.bind (name_fails_of_spent hs)))) fun _ _ hmid =>
        .pure hmid
  have hbody (params params' : List (Location × String)) : ReadsCut source more (n - 1) (n' - 1) 1
      (fun _ => True)
      (equals >>= fun _ => expression >>= fun body => pure (f, params.map (·.2), body))
      (equals >>= fun _ => expression >>= fun body => pure (f', params'.map (·.2), body)) :=
    equals_bind_readsCut (fun _ => expression >>= fun body => pure (f, params.map (·.2), body))
      (fun _ => expression >>= fun body => pure (f', params'.map (·.2), body))
      (expression_readsCut.map.mono fun _ _ => trivial)
      fun s hs => .bind (expression_fails_of_noExpression hs.noExpression)
  refine gap_readsCut.bind (e := 0) (fun _ _ => (hnames.bind hbody fun _ _ => False.elim).weaken) ?_
  exact fun _ s hs => .bind (.bind (word_fails_of_spent rfl (by decide) hs))

lemma definition_readsCut : ReadsCut source more n n' 1 (fun _ => True) definition definition := by
  rw [definition_eq]
  refine .map (.located (name_readsCut.bind (e := 0) (fun r r' => definitionTail_readsCut r.2 r'.2) ?_))
  rintro r s rfl
  exact gap_bind_fails (.bind (parenthesized_fails nofun))

lemma assignment_readsCut : ReadsCut source more n n' 1 (fun _ => True) assignment assignment :=
  .map ((binding_readsCut expression_readsCut fun _ hs =>
    expression_fails_of_noExpression hs.noExpression).mono fun _ _ => trivial).located

/-- A statement that ends in front of the cut is read from the beginning, too, and where none is read
from the whole text, none is read from the beginning. -/
lemma statement_readsCut : ReadsCut source more n n' 0 (fun _ => True) statement statement :=
  definition_readsCut.weaken.orElse_any (assignment_readsCut.weaken.orElse_any
    (expression_readsCut.mono fun _ _ => trivial))

end SignalCalc.Syntax
