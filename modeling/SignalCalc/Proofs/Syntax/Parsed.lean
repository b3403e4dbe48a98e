import SignalCalc.Proofs.Syntax.Parts
import SignalCalc.Proofs.Syntax.Scanned
import SignalCalc.Proofs.Syntax.Spelling
import SignalCalc.Proofs.Syntax.Trees

/-!
# What parsing gives

Trees handed in from outside may have any shape; those that are read from a text have the shape of
program text, words of program text in them, and places in the text.  `p.Ensures source P` says that
whatever the parser `p` reads from a position of the source, its result meets `P` and it stops at a
position of the source.  There is one lemma for each way to put parsers together.  The rules of the
grammar then build expressions out of expressions, and `parse_wellFormed` is the end of it:
definitions and assignments stand at the top of a program alone, an argument with a name stands in a
call, and every part of a tree can be found in the text.  The records that the grammar builds on the way
are read without an error.

An operator has to be looked up by its text.  So the one thing to know about texts is what the
scanners have read (`located_scan`).
-/

namespace SignalCalc.Syntax

open SignalCalc.Syntax.Grammar
open SignalCalc.Syntax.Parser
open SignalCalc.Syntax.Token

variable {source : String}

/-! ## Conditions on results -/

namespace Parser

variable {α β : Type} {P Q : α → Prop} {R : β → Prop} {p q : Parser α} {f : α → Parser β}

/-- Whatever the parser reads from a position of the source, its result meets a condition, and the
cursor stands at a position of the source again, no earlier than before. -/
def Ensures (p : Parser α) (source : String) (P : α → Prop) : Prop :=
  ∀ c a later, c.StandsIn source → p c = some (a, later) →
    (later.StandsIn source ∧ later.rest.length ≤ c.rest.length) ∧ P a

/-- The parser stays in the source. -/
def Stays (p : Parser α) (source : String) : Prop := p.Ensures source fun _ => True

/-- Whatever the parser reads in the source is not empty. -/
def Consumes (p : Parser α) (source : String) : Prop :=
  ∀ c a later, c.StandsIn source → p c = some (a, later) → later.rest.length < c.rest.length

namespace Ensures

lemma mono (hp : p.Ensures source P) (h : ∀ a, P a → Q a) : p.Ensures source Q := by
  intro c a later hc hrun
  obtain ⟨hlater, ha⟩ := hp c a later hc hrun
  exact ⟨hlater, h a ha⟩

lemma stays (hp : p.Ensures source P) : p.Stays source := hp.mono fun _ _ => trivial

lemma pure {a : α} (h : P a) : Ensures (Pure.pure a) source P := by
  intro c a' later hc hrun
  obtain ⟨rfl, rfl⟩ := Prod.mk.inj (Option.some.inj hrun)
  exact ⟨⟨hc, le_rfl⟩, h⟩

lemma bind (hp : p.Ensures source P) (hf : ∀ a, P a → (f a).Ensures source R) :
    (p >>= f).Ensures source R := by
  intro c b later hc hrun
  cases hfirst : p c with
  | none => simp [run_bind_of_none hfirst] at hrun
  | some r =>
    obtain ⟨⟨hmid, hle⟩, ha⟩ := hp c r.1 r.2 hc hfirst
    rw [run_bind_of_some hfirst] at hrun
    obtain ⟨⟨hlater, hle'⟩, hb⟩ := hf r.1 ha r.2 b later hmid hrun
    exact ⟨⟨hlater, hle'.trans hle⟩, hb⟩

/-- The result of the first part does not matter. -/
lemma andThen (hp : p.Stays source) (hf : ∀ a, (f a).Ensures source R) :
    (p >>= f).Ensures source R :=
  bind hp fun a _ => hf a

lemma seqRight {q : Parser β} (hp : p.Stays source) (hq : q.Ensures source R) :
    (p *> q).Ensures source R :=
  andThen hp fun _ => hq

lemma orElse (hp : p.Ensures source P) (hq : q.Ensures source P) :
    (p <|> q).Ensures source P := by
  intro c a later hc hrun
  rw [run_orElse] at hrun
  cases hfirst : p c with
  | none =>
    rw [hfirst] at hrun
    exact hq c a later hc hrun
  | some r =>
    rw [hfirst] at hrun
    obtain ⟨rfl, rfl⟩ := Prod.mk.inj (Option.some.inj hrun)
    exact hp c r.1 r.2 hc hfirst

/-- The place of what was read lies in the source. -/
lemma located {tag : String} (hp : p.Ensures source P) (hconsumes : p.Consumes source) :
    (located tag p).Ensures source fun r => r.1.IsReadAs source tag ∧ P r.2 := by
  rintro c ⟨loc, a⟩ later hc hrun
  obtain ⟨hread, rfl⟩ := located_eq_some.1 hrun
  obtain ⟨hlater, ha⟩ := hp c a later hc hread
  exact ⟨hlater, hc.locationTo (hconsumes c a later hc hread) tag, ha⟩

lemma maybe (hp : p.Ensures source P) : (maybe p).Ensures source fun r => ∀ a ∈ r, P a := by
  intro c r later hc hrun
  rw [Parser.maybe] at hrun
  cases hfirst : p c with
  | none =>
    rw [hfirst] at hrun
    obtain ⟨rfl, rfl⟩ := Prod.mk.inj (Option.some.inj hrun)
    exact ⟨⟨hc, le_rfl⟩, fun a hmem => absurd hmem (Option.not_mem_none a)⟩
  | some first =>
    rw [hfirst] at hrun
    obtain ⟨rfl, rfl⟩ := Prod.mk.inj (Option.some.inj hrun)
    obtain ⟨hlater, ha⟩ := hp c first.1 first.2 hc hfirst
    exact ⟨hlater, fun a hmem => Option.some.inj hmem ▸ ha⟩

lemma many (hp : p.Ensures source P) : (many p).Ensures source fun as => ∀ a ∈ as, P a := by
  have hfrom : ∀ c : Cursor, c.StandsIn source →
      ((manyFrom p c).2.StandsIn source ∧ (manyFrom p c).2.rest.length ≤ c.rest.length) ∧
        ∀ a ∈ (manyFrom p c).1, P a := by
    intro c
    fun_induction manyFrom p c with
    | case1 | case3 => exact fun hc => ⟨⟨hc, le_rfl⟩, by simp⟩
    | case2 c first later hfirst _ others last hothers ih =>
      intro hc
      obtain ⟨⟨hlater, hle⟩, ha⟩ := hp c first later hc hfirst
      rw [hothers] at ih
      obtain ⟨⟨hlast, hle'⟩, hrest⟩ := ih hlater
      exact ⟨⟨hlast, hle'.trans hle⟩, List.forall_mem_cons.2 ⟨ha, hrest⟩⟩
  intro c as later hc hrun
  have hpair := hfrom c hc
  rwa [Option.some.inj hrun] at hpair

lemma sepBy {separator : Parser β} (hseparator : separator.Stays source)
    (hp : p.Ensures source P) : (sepBy p separator).Ensures source fun as => ∀ a ∈ as, P a := by
  have hone : (sepBy1 p separator).Ensures source fun as => ∀ a ∈ as, P a := by
    refine bind hp fun first hfirst => bind (many (seqRight hseparator hp)) fun others hothers => ?_
    exact pure (List.forall_mem_cons.2 ⟨hfirst, hothers⟩)
  refine bind (maybe hone) fun as has => pure ?_
  cases as with
  | none => exact nofun
  | some as => exact has as rfl

end Ensures

namespace Consumes

/-- What consumes something at its start consumes something. -/
lemma bind (hp : p.Consumes source) (hstays : p.Stays source) (hf : ∀ a, (f a).Stays source) :
    (p >>= f).Consumes source := by
  intro c b later hc hrun
  cases hfirst : p c with
  | none => simp [run_bind_of_none hfirst] at hrun
  | some r =>
    obtain ⟨⟨hmid, -⟩, -⟩ := hstays c r.1 r.2 hc hfirst
    rw [run_bind_of_some hfirst] at hrun
    obtain ⟨⟨-, hle⟩, -⟩ := hf r.1 r.2 b later hmid hrun
    exact hle.trans_lt (hp c r.1 r.2 hc hfirst)

lemma orElse (hp : p.Consumes source) (hq : q.Consumes source) : (p <|> q).Consumes source := by
  intro c a later hc hrun
  rw [run_orElse] at hrun
  cases hfirst : p c with
  | none =>
    rw [hfirst] at hrun
    exact hq c a later hc hrun
  | some r =>
    rw [hfirst] at hrun
    obtain ⟨rfl, rfl⟩ := Prod.mk.inj (Option.some.inj hrun)
    exact hp c r.1 r.2 hc hfirst

lemma located {tag : String} (hp : p.Consumes source) : (located tag p).Consumes source := by
  rintro c ⟨loc, a⟩ later hc hrun
  exact hp c a later hc (located_eq_some.1 hrun).1

end Consumes

lemma scan_stays (scanner : List Char → Option (List Char)) : (scan scanner).Stays source := by
  intro c u later hc hrun
  obtain ⟨rest, -, rfl⟩ := scan_eq_some.1 hrun
  exact ⟨⟨hc.moveTo rest, c.length_moveTo_le rest⟩, trivial⟩

lemma skip_stays (layout : List Char → List Char) : (skip layout).Stays source := by
  intro c u later hc hrun
  obtain ⟨-, rfl⟩ := Prod.mk.inj (Option.some.inj hrun)
  exact ⟨⟨hc.moveTo _, c.length_moveTo_le _⟩, trivial⟩

/-- The scanner takes a word off the text, which is not empty. -/
def TakesWord (scanner : List Char → Option (List Char)) : Prop :=
  ∀ text rest, scanner text = some rest → ∃ front, front ≠ [] ∧ text = front ++ rest

lemma scan_consumes {scanner : List Char → Option (List Char)} (h : TakesWord scanner) :
    (scan scanner).Consumes source := by
  intro c u later _ hrun
  obtain ⟨rest, hrest, rfl⟩ := scan_eq_some.1 hrun
  obtain ⟨front, hfront, htext⟩ := h _ _ hrest
  rw [Cursor.rest_moveTo ⟨front, htext.symm⟩, htext, List.length_append]
  have hpos := List.length_pos_iff.2 hfront
  omega

/-- The place of what a scanner has read holds the text in front of the rest. -/
lemma located_scan {tag : String} {scanner : List Char → Option (List Char)} {P : String → Prop}
    (hword : TakesWord scanner)
    (h : ∀ front rest, scanner (front ++ rest) = some rest → P (String.ofList front)) :
    (located tag (scan scanner)).Ensures source fun r =>
      r.1.IsReadAs source tag ∧ P (r.1.text.getD "") := by
  rintro c ⟨loc, u⟩ later hc hrun
  obtain ⟨hlater, hloc, -⟩ :=
    (scan_stays scanner).located (scan_consumes hword) c ⟨loc, u⟩ later hc hrun
  obtain ⟨hscan, rfl⟩ := located_eq_some.1 hrun
  obtain ⟨rest, hrest, rfl⟩ := scan_eq_some.1 hscan
  obtain ⟨front, -, hfront⟩ := hword _ _ hrest
  have htext : c.textTo (c.moveTo rest) = String.ofList front :=
    Cursor.textTo_append (by rw [Cursor.rest_moveTo ⟨front, hfront.symm⟩, hfront])
  refine ⟨hlater, hloc, ?_⟩
  show P (c.textTo (c.moveTo rest))
  rw [htext]
  exact h front rest (hfront ▸ hrest)

end Parser

/-! ## Operators -/

lemma BinaryOperator.scan_eq_some {op : BinaryOperator} {text rest : List Char}
    (h : op.scan text = some rest) : text = op.symbol.toList ++ rest := by
  unfold BinaryOperator.scan at h
  split at h
  · exact (slash_eq_some h).1
  · exact literal_eq_some h

/-- Reads the symbol of a prefix operator. -/
lemma unaryScan_eq_some {text rest : List Char} (h : unaryScan text = some rest) :
    ∃ op : UnaryOperator, op.IsWritten ∧ text = op.symbol.toList ++ rest := by
  obtain ⟨scanner, hmem, hscan⟩ := List.exists_of_findSome?_eq_some h
  simp only [List.mem_cons, List.not_mem_nil, or_false] at hmem
  rcases hmem with rfl | rfl | rfl | rfl
  · exact ⟨.plus, True.intro, literal_eq_some hscan⟩
  · exact ⟨.minus, True.intro, literal_eq_some hscan⟩
  · exact ⟨.slash, True.intro, (slash_eq_some hscan).1⟩
  · exact ⟨.not, True.intro, literal_eq_some hscan⟩

/-- An operator that was read from the source, with its place. -/
structure IsReadOperator (source : String) (r : Location × BinaryOperator) : Prop where
  liesIn : r.1.LiesIn source
  isWritten : r.2.IsWritten
  tag : ∃ tag, r.1.tag = some tag
  text : r.1.text = some r.2.symbol

lemma operatorOf_ensures {tag : String} {words : List BinaryOperator}
    (hwords : ∀ op ∈ words, op.IsWritten) :
    (operatorOf tag (words.map BinaryOperator.scan)).Ensures source (IsReadOperator source) := by
  have hscan : ∀ text rest, (words.map BinaryOperator.scan).findSome? (· text) = some rest →
      ∃ op ∈ words, text = op.symbol.toList ++ rest := by
    intro text rest h
    obtain ⟨scanner, hmem, hscanner⟩ := List.exists_of_findSome?_eq_some h
    obtain ⟨op, hop, rfl⟩ := List.mem_map.1 hmem
    exact ⟨op, hop, BinaryOperator.scan_eq_some hscanner⟩
  refine .bind (located_scan (P := fun s => ∃ op : BinaryOperator, op.IsWritten ∧ s = op.symbol) ?_ ?_)
    fun r hr => .pure ?_
  · intro text rest h
    obtain ⟨op, hop, rfl⟩ := hscan _ _ h
    obtain ⟨cs, hcs⟩ := BinaryOperator.symbol_eq_cons (hwords op hop)
    exact ⟨_, hcs ▸ List.cons_ne_nil _ _, rfl⟩
  · intro front rest h
    obtain ⟨op, hop, hfront⟩ := hscan _ _ h
    exact ⟨op, hwords op hop, by rw [List.append_cancel_right hfront, String.ofList_toList]⟩
  · obtain ⟨⟨hloc, htag⟩, op, hop, htext⟩ := hr
    have hsymbol := hloc.text_eq
    have hread : BinaryOperator.ofSymbol (r.1.text.getD "") = op := by
      rw [htext, ← String.ofList_toList (s := op.symbol), ofSymbol_symbol hop]
    rw [htext] at hsymbol
    rw [hread]
    exact ⟨hloc, hop, ⟨tag, htag⟩, hsymbol⟩

lemma levelOperator_ensures {k : ℕ} (hk : k < 6) :
    (levelOperator k).Ensures source (IsReadOperator source) := by
  obtain ⟨tag, htag⟩ := levelOperator_eq hk
  rw [htag]
  exact operatorOf_ensures fun op hop => (level_of_mem_levelWords hop).2

/-! ## Words and layout -/

lemma gap_stays : gap.Stays source := skip_stays _

lemma word_stays (w : String) : (word w).Stays source := scan_stays _

lemma word_consumes {w : String} (hw : w.toList ≠ []) : (word w).Consumes source :=
  scan_consumes fun _ _ h => ⟨w.toList, hw, literal_eq_some h⟩

lemma comma_stays : comma.Stays source := .seqRight (.seqRight gap_stays (word_stays _)) gap_stays

lemma equals_stays : equals.Stays source :=
  .seqRight (.seqRight gap_stays (scan_stays _)) gap_stays

lemma name_ensures : name.Ensures source fun r =>
    (r.1.IsReadAs source "identifier" ∧ r.1.text = some r.2) ∧ IsName r.2.toList := by
  refine .bind (located_scan (P := fun s => IsName s.toList) name_readsLocally.proper ?_)
    fun r hr => .pure ⟨⟨hr.1, hr.1.1.text_eq⟩, hr.2⟩
  intro front rest h
  rw [String.toList_ofList]
  exact isName_of_name h

lemma name_consumes : name.Consumes source :=
  .bind (.located (scan_consumes name_readsLocally.proper))
    (.stays (.located (scan_stays _) (scan_consumes name_readsLocally.proper))) fun _ => .pure trivial

/-! ## Expressions -/

/-- A tree of the grammar stands for the node, and every part of the node has words of program text and
a place in the source. -/
structure Node.IsReadFrom (source : String) (node : Node) : Prop where
  hasTree : node.HasTree
  parts : ∀ part ∈ node.parts, part.HasWords ∧ part.IsPlacedIn source

/-- An expression that was read from the source. -/
def Node.IsReadExpression (source : String) (node : Node) : Prop :=
  node.IsExpression ∧ node.IsReadFrom source

/-- Arguments of a call that were read from the source. -/
def Node.AreReadArguments (source : String) (args : List Node) : Prop :=
  Node.AreArguments args ∧ ∀ arg ∈ args, arg.IsReadFrom source

/-- A node is read when it and the nodes in it are. -/
lemma Node.isReadFrom_cons {node : Node} {loc : Location} {inner : List Node}
    (hparts : node.parts = node :: inner) (hloc : node.loc = some loc) (hplace : loc.LiesIn source)
    (htree : node.HasTree) (hwords : node.HasWords)
    (hinner : ∀ part ∈ inner, part.HasWords ∧ part.IsPlacedIn source) :
    node.IsReadFrom source := by
  refine ⟨htree, ?_⟩
  rw [hparts]
  exact List.forall_mem_cons.2 ⟨⟨hwords, loc, hloc, hplace⟩, hinner⟩

lemma Node.isReadFrom_partsOf {nodes : List Node} (h : ∀ node ∈ nodes, node.IsReadFrom source) :
    ∀ part ∈ Node.partsOf nodes, part.HasWords ∧ part.IsPlacedIn source := by
  intro part hpart
  obtain ⟨node, hnode, hmem⟩ := Node.mem_partsOf.1 hpart
  exact (h node hnode).parts part hmem

lemma Node.isReadExpression_binary {loc : Location} {op : BinaryOperator} {left right : Node}
    (hop : IsReadOperator source (loc, op)) (hleft : left.IsReadExpression source)
    (hright : right.IsReadExpression source) :
    (Node.binary (some loc) op left right).IsReadExpression source := by
  obtain ⟨tag, htag⟩ := hop.tag
  have htree := hleft.2.hasTree.binary hright.2.hasTree htag hop.text
  refine ⟨⟨hop.isWritten, hleft.1, hright.1⟩,
    Node.isReadFrom_cons rfl rfl hop.liesIn htree hop.isWritten ?_⟩
  exact List.forall_mem_append.2 ⟨hleft.2.parts, hright.2.parts⟩

/-- A chain of calls at one place. -/
lemma Node.parts_foldl_invocation {loc : Location} {lists : List (List Node)} {f : Node}
    (hloc : loc.LiesIn source)
    (hf : f.IsExpression ∧ ∀ part ∈ f.parts, part.HasWords ∧ part.IsPlacedIn source)
    (hlists : ∀ args ∈ lists, Node.AreArguments args ∧
      ∀ part ∈ Node.partsOf args, part.HasWords ∧ part.IsPlacedIn source) :
    (lists.foldl (fun f args => .invocation (some loc) f args) f).IsExpression ∧
      ∀ part ∈ (lists.foldl (fun f args => .invocation (some loc) f args) f).parts,
        part.HasWords ∧ part.IsPlacedIn source := by
  induction lists generalizing f with
  | nil => exact hf
  | cons args lists ih =>
    obtain ⟨⟨hshape, hparts⟩, hrest⟩ := List.forall_mem_cons.1 hlists
    refine ih ⟨⟨hf.1, hshape⟩, ?_⟩ hrest
    refine List.forall_mem_cons.2 ⟨⟨trivial, loc, rfl, hloc⟩, ?_⟩
    exact List.forall_mem_append.2 ⟨hf.2, hparts⟩

lemma joined_isReadExpression {others : List ((Location × BinaryOperator) × Node)}
    (hothers : ∀ other ∈ others, IsReadOperator source other.1 ∧ other.2.IsReadExpression source)
    {first : Node} (hfirst : first.IsReadExpression source) :
    (others.foldl joined first).IsReadExpression source := by
  induction others generalizing first with
  | nil => exact hfirst
  | cons other others ih =>
    obtain ⟨⟨hop, hright⟩, hrest⟩ := List.forall_mem_cons.1 hothers
    exact ih hrest (Node.isReadExpression_binary hop hfirst hright)

lemma leftAssociative_ensures {operand : Parser Node} {operator : Parser (Location × BinaryOperator)}
    (hoperand : operand.Ensures source (Node.IsReadExpression source))
    (hoperator : operator.Ensures source (IsReadOperator source)) :
    (leftAssociative operand operator).Ensures source (Node.IsReadExpression source) := by
  rw [leftAssociative_eq]
  have hstep : (operatorStep operand operator).Ensures source fun r =>
      IsReadOperator source r.1 ∧ r.2.IsReadExpression source := by
    refine .andThen gap_stays fun _ => .bind hoperator fun op hop => .andThen gap_stays fun _ => ?_
    exact .bind hoperand fun right hright => .pure ⟨hop, hright⟩
  refine .bind hoperand fun first hfirst => .bind (.many hstep) fun others hothers => ?_
  exact .pure (joined_isReadExpression hothers hfirst)

/-- An expression is built from operands by the levels of operators. -/
lemma expressionOver_ensures {operand : Parser Node}
    (h : operand.Ensures source (Node.IsReadExpression source)) :
    (expressionOver operand).Ensures source (Node.IsReadExpression source) := by
  have hlevel : ∀ level ∈ levels, level.Ensures source (IsReadOperator source) := by
    intro level hmem
    obtain ⟨k, hk, rfl⟩ := List.mem_iff_getElem.1 hmem
    have hoperator : (levelOperator k).Ensures source (IsReadOperator source) :=
      levelOperator_ensures hk
    rwa [levelOperator, List.getD_eq_getElem?_getD, List.getElem?_eq_getElem hk,
      Option.getD_some] at hoperator
  unfold expressionOver
  generalize levels = rules at hlevel
  induction rules with
  | nil => exact h
  | cons level rules ih =>
    obtain ⟨hfirst, hrest⟩ := List.forall_mem_cons.1 hlevel
    exact leftAssociative_ensures (ih hrest) hfirst

lemma parenthesized_ensures {α : Type} {p : Parser α} {P : α → Prop} (hp : p.Ensures source P) :
    (parenthesized p).Ensures source P := by
  refine .andThen (word_stays _) fun _ => .andThen gap_stays fun _ => .bind hp fun a ha => ?_
  exact .andThen gap_stays fun _ => .andThen (word_stays _) fun _ => .pure ha

lemma parenthesized_consumes {α : Type} {p : Parser α} (hp : p.Stays source) :
    (parenthesized p).Consumes source := by
  refine .bind (word_consumes (by decide)) (word_stays _) fun _ => ?_
  refine .andThen gap_stays fun _ => .andThen hp fun _ => .andThen gap_stays fun _ => ?_
  exact .andThen (word_stays _) fun _ => .pure trivial

lemma string_takesWord : TakesWord Token.string := by
  intro text rest h
  obtain ⟨s, -, rfl⟩ := exists_string_eq h
  exact ⟨'"' :: (s ++ ['"']), List.cons_ne_nil _ _, by simp⟩

/-- What a scanned word is made into consumes the word. -/
lemma leaf_consumes {α : Type} {tag : String} {scanner : List Char → Option (List Char)}
    (hword : TakesWord scanner) (f : Location × Unit → α) :
    (located tag (scan scanner) >>= fun r => pure (f r)).Consumes source :=
  .bind (.located (scan_consumes hword)) (.stays (.located (scan_stays _) (scan_consumes hword)))
    fun _ => .pure trivial

lemma number_ensures : number.Ensures source (Node.IsReadExpression source) := by
  refine .bind (located_scan (P := fun s => IsNumeral s.toList (numberValue s))
    number_readsLocally.proper ?_) fun r hr => .pure ?_
  · intro front rest h
    rw [String.toList_ofList]
    exact isNumeral_of_number h
  · obtain ⟨⟨hloc, htag⟩, hnumeral⟩ := hr
    have hwords := And.intro hnumeral.zero_le hnumeral.isNaN
    have htree := Node.hasTree_number htag hloc.text_eq hnumeral
    exact ⟨trivial, Node.isReadFrom_cons rfl rfl hloc htree hwords nofun⟩

lemma string_ensures : string.Ensures source (Node.IsReadExpression source) := by
  refine .bind (located_scan (P := fun s => IsQuotable (unquoted s).toList) string_takesWord
    fun front rest h => isQuotable_of_string h) fun r hr => .pure ?_
  obtain ⟨⟨hloc, htag⟩, hquotable⟩ := hr
  have htree := Node.hasTree_string htag hloc.text_eq
  exact ⟨trivial, Node.isReadFrom_cons rfl rfl hloc htree hquotable nofun⟩

lemma identifier_ensures : identifier.Ensures source (Node.IsReadExpression source) := by
  refine .bind name_ensures fun r hr => .pure ?_
  obtain ⟨⟨⟨hloc, htag⟩, htext⟩, hname⟩ := hr
  have htree := Node.hasTree_identifier htag htext
  exact ⟨trivial, Node.isReadFrom_cons rfl rfl hloc htree hname nofun⟩

section Over

variable {expression : Parser Node}
  (h : expression.Ensures source (Node.IsReadExpression source))

include h

lemma group_ensures : (group expression).Ensures source (Node.IsReadExpression source) := by
  have hgroup := parenthesized_ensures (.maybe h)
  refine .bind (hgroup.located (parenthesized_consumes (.stays (.maybe h)))) fun r hr => .pure ?_
  obtain ⟨loc, _ | inner⟩ := r
  · obtain ⟨⟨hloc, htag⟩, -⟩ := hr
    have htree := Node.hasTree_empty htag hloc.text_eq
    exact ⟨trivial, Node.isReadFrom_cons rfl rfl hloc htree trivial nofun⟩
  · exact hr.2 inner rfl

lemma primary_ensures : (primary expression).Ensures source (Node.IsReadExpression source) :=
  .orElse number_ensures (.orElse string_ensures (.orElse identifier_ensures (group_ensures h)))

lemma primary_consumes : (primary expression).Consumes source := by
  have hgroup : (located "group" (parenthesized (maybe expression))).Consumes source :=
    .located (parenthesized_consumes (.stays (.maybe h)))
  have hinner : (located "group" (parenthesized (maybe expression))).Stays source :=
    .stays (.located (parenthesized_ensures (.maybe h)) (parenthesized_consumes (.stays (.maybe h))))
  refine .orElse (leaf_consumes number_readsLocally.proper _) ?_
  refine .orElse (leaf_consumes string_takesWord _) (.orElse ?_ ?_)
  · exact .bind name_consumes name_ensures.stays fun _ => .pure trivial
  · exact .bind hgroup hinner fun _ => .pure trivial

/-- A name, an equals sign and an expression. -/
lemma binding_ensures : (binding expression).Ensures source fun r =>
    IsName r.1.toList ∧ r.2.IsReadExpression source := by
  refine .bind name_ensures fun r hr => .andThen equals_stays fun _ => ?_
  exact .bind h fun value hvalue => .pure ⟨hr.2, hvalue⟩

lemma binding_consumes : (binding expression).Consumes source :=
  .bind name_consumes name_ensures.stays fun _ => .andThen equals_stays fun _ =>
    .andThen h.stays fun _ => .pure trivial

/-- The name of an argument, if it has one, stands before an expression. -/
lemma argument_ensures : (keyword expression <|> expression).Ensures source fun arg =>
    Node.AreReadArguments source [arg] := by
  refine .orElse ?_ (h.mono ?_)
  · refine .bind ((binding_ensures h).located (binding_consumes h)) fun r hr => .pure ?_
    obtain ⟨⟨hloc, htag⟩, hname, hvalue⟩ := hr
    refine ⟨⟨hvalue.1, trivial⟩, List.forall_mem_singleton.2 ?_⟩
    have htree := hvalue.2.hasTree.keyword r.2.1 htag hloc.text_eq
    exact Node.isReadFrom_cons rfl rfl hloc htree hname hvalue.2.parts
  · intro arg harg
    have hkeyword : ∀ loc x value, arg ≠ .keyword loc x value := by
      rintro loc x value rfl
      exact harg.1.elim
    exact ⟨(Node.areArguments_cons hkeyword).2 ⟨harg.1, trivial⟩, List.forall_mem_singleton.2 harg.2⟩

lemma arguments_ensures : (arguments expression).Ensures source (Node.AreReadArguments source) := by
  refine (parenthesized_ensures (.sepBy comma_stays (argument_ensures h))).mono fun args hargs => ?_
  induction args with
  | nil => exact ⟨trivial, nofun⟩
  | cons arg rest ih =>
    obtain ⟨⟨harg, hread⟩, hrest⟩ := List.forall_mem_cons.1 hargs
    obtain ⟨htail, hall⟩ := ih hrest
    refine ⟨?_, List.forall_mem_cons.2 ⟨List.forall_mem_singleton.1 hread, hall⟩⟩
    by_cases hkeyword : ∃ loc x value, arg = .keyword loc x value
    · obtain ⟨loc, x, value, rfl⟩ := hkeyword
      exact ⟨harg.1, htail⟩
    · have hplain : ∀ loc x value, arg ≠ .keyword loc x value := fun loc x value heq =>
        hkeyword ⟨loc, x, value, heq⟩
      exact (Node.areArguments_cons hplain).2 ⟨((Node.areArguments_cons hplain).1 harg).1, htail⟩

lemma calls_ensures : (calls expression).Ensures source (Node.IsReadExpression source) := by
  have hchain : (callChain expression).Ensures source fun r =>
      r.1.IsReadExpression source ∧ ∀ args ∈ r.2, Node.AreReadArguments source args :=
    .bind (primary_ensures h) fun callee hcallee =>
      .bind (.many (arguments_ensures h)) fun lists hlists => .pure ⟨hcallee, hlists⟩
  have hconsumes : (callChain expression).Consumes source :=
    .bind (primary_consumes h) (primary_ensures h).stays fun _ =>
      .andThen (.stays (.many (arguments_ensures h))) fun _ => .pure trivial
  refine .bind (hchain.located hconsumes) fun r hr => .pure ?_
  obtain ⟨loc, callee, lists⟩ := r
  obtain ⟨⟨hloc, htag⟩, hcallee, hlists⟩ := hr
  have htree := hcallee.2.hasTree.calls (fun args hargs arg harg =>
    ((hlists args hargs).2 arg harg).hasTree) htag hloc.text_eq
  obtain ⟨hshape, hparts⟩ := Node.parts_foldl_invocation hloc ⟨hcallee.1, hcallee.2.parts⟩
    fun args hargs => ⟨(hlists args hargs).1, Node.isReadFrom_partsOf (hlists args hargs).2⟩
  exact ⟨hshape, htree, hparts⟩

end Over

lemma power_ensures {operand : Parser Node}
    (h : operand.Ensures source (Node.IsReadExpression source)) :
    (power operand).Ensures source (Node.IsReadExpression source) := by
  rw [power_eq]
  have htail : (powerTail operand).Ensures source fun r =>
      IsReadOperator source r.1 ∧ r.2.IsReadExpression source := by
    have hwords : ∀ op ∈ [BinaryOperator.arithmetic .pow], op.IsWritten := by
      simp [BinaryOperator.IsWritten]
    have hoperator : (operatorOf "pow_op" [Token.literal ['^']]).Ensures source
        (IsReadOperator source) := operatorOf_ensures hwords
    refine .andThen gap_stays fun _ => .bind hoperator fun op hop => .andThen gap_stays fun _ => ?_
    exact .bind h fun exponent hexponent => .pure ⟨hop, hexponent⟩
  refine .bind (calls_ensures (expressionOver_ensures h)) fun base hbase => ?_
  refine .bind (.maybe htail) fun tail htail => ?_
  cases tail with
  | none => exact .pure hbase
  | some tail =>
    obtain ⟨⟨loc, op⟩, exponent⟩ := tail
    obtain ⟨hop, hexponent⟩ := htail _ rfl
    exact .pure (Node.isReadExpression_binary hop hbase hexponent)

lemma prefixed_ensures {operand : Parser Node}
    (h : operand.Ensures source (Node.IsReadExpression source)) :
    (prefixed operand).Ensures source (Node.IsReadExpression source) := by
  have hword : TakesWord unaryScan := by
    intro text rest hscan
    obtain ⟨op, hop, rfl⟩ := unaryScan_eq_some hscan
    refine ⟨op.symbol.toList, ?_, rfl⟩
    cases op with
    | other symbol => exact hop.elim
    | _ => exact List.cons_ne_nil _ _
  have hoperator : (located "unary_op" (scan unaryScan)).Ensures source fun r =>
      r.1.IsReadAs source "unary_op" ∧ (UnaryOperator.ofSymbol (r.1.text.getD "")).IsWritten := by
    refine located_scan (P := fun s => (UnaryOperator.ofSymbol s).IsWritten) hword ?_
    intro front rest hscan
    obtain ⟨op, hop, hfront⟩ := unaryScan_eq_some hscan
    rw [List.append_cancel_right hfront, ofSymbol_unary hop]
    exact hop
  refine .bind (.located (P := fun r : Location × Node =>
    (UnaryOperator.ofSymbol (r.1.text.getD "")).IsWritten ∧ r.2.IsReadExpression source) ?_ ?_)
    fun r hr => .pure ?_
  · exact .bind hoperator fun op hop => .andThen gap_stays fun _ => .bind h fun inner hinner =>
      .pure ⟨hop.2, hinner⟩
  · exact .bind (.located (scan_consumes hword)) hoperator.stays fun _ =>
      .andThen gap_stays fun _ => .andThen h.stays fun _ => .pure trivial
  · obtain ⟨⟨hloc, htag⟩, hop, hinner⟩ := hr
    have htree := hinner.2.hasTree.unary (.ofSymbol (r.2.1.text.getD "")) htag hloc.text_eq
    exact ⟨⟨hop, hinner.1⟩, Node.isReadFrom_cons rfl rfl hloc htree hop hinner.2.parts⟩

lemma operand_ensures (depth : ℕ) :
    (operand depth).Ensures source (Node.IsReadExpression source) := by
  induction depth with
  | zero =>
    intro c node later _ hrun
    cases hrun
  | succ depth ih => exact .orElse (prefixed_ensures ih) (power_ensures ih)

lemma expression_ensures : expression.Ensures source (Node.IsReadExpression source) := by
  intro c node later hc hrun
  exact expressionOver_ensures (operand_ensures _) c node later hc hrun

/-! ## Programs -/

/-- A statement that was read from the source. -/
def Node.IsReadStatement (source : String) (node : Node) : Prop :=
  node.IsStatement ∧ node.IsReadFrom source

lemma definition_ensures : definition.Ensures source (Node.IsReadStatement source) := by
  have hparams : (parenthesized (sepBy name comma)).Ensures source fun params =>
      ∀ param ∈ params, IsName param.2.toList :=
    parenthesized_ensures (.sepBy comma_stays (name_ensures.mono fun _ hr => hr.2))
  have htail (f : String) : (definitionTail f).Ensures source fun r =>
      r.1 = f ∧ (∀ x ∈ r.2.1, IsName x.toList) ∧ r.2.2.IsReadExpression source := by
    refine .andThen gap_stays fun _ => .bind hparams fun params hparams => ?_
    refine .andThen equals_stays fun _ => .bind expression_ensures fun body hbody => .pure ?_
    exact ⟨rfl, by simpa using fun x loc hmem => hparams (loc, x) hmem, hbody⟩
  rw [definition_eq]
  refine .bind (.located (.bind name_ensures fun r hr => (htail r.2).mono (Q := fun r =>
    IsName r.1.toList ∧ (∀ x ∈ r.2.1, IsName x.toList) ∧ r.2.2.IsReadExpression source) ?_)
    (.bind name_consumes name_ensures.stays fun r => (htail r.2).stays)) fun r hr => .pure ?_
  · rintro ⟨f, rest⟩ ⟨rfl, hrest⟩
    exact ⟨hr.2, hrest⟩
  · obtain ⟨⟨hloc, htag⟩, hname, hparams, hbody⟩ := hr
    have htree := hbody.2.hasTree.definition r.2.1 r.2.2.1 htag hloc.text_eq
    exact ⟨hbody.1, Node.isReadFrom_cons rfl rfl hloc htree ⟨hname, hparams⟩ hbody.2.parts⟩

lemma assignment_ensures : assignment.Ensures source (Node.IsReadStatement source) := by
  refine .bind (.located (binding_ensures expression_ensures)
    (binding_consumes expression_ensures)) fun r hr => .pure ?_
  obtain ⟨⟨hloc, htag⟩, hname, hvalue⟩ := hr
  have htree := hvalue.2.hasTree.assignment r.2.1 htag hloc.text_eq
  exact ⟨hvalue.1, Node.isReadFrom_cons rfl rfl hloc htree hname hvalue.2.parts⟩

lemma statement_ensures : statement.Ensures source (Node.IsReadStatement source) := by
  refine .orElse definition_ensures (.orElse assignment_ensures ?_)
  refine expression_ensures.mono fun node hnode => ⟨?_, hnode.2⟩
  cases node with
  | assignment | definition => exact hnode.1.elim
  | _ => exact hnode.1

lemma program_ensures : program.Ensures source fun nodes =>
    ∀ node ∈ nodes, node.IsReadStatement source := by
  refine .andThen (skip_stays _) fun _ => ?_
  refine .bind (.sepBy (scan_stays _) statement_ensures) fun nodes hnodes => ?_
  exact .andThen (skip_stays _) fun _ => .pure hnodes

/-- What is read from a text is what the grammar accepts, to the end of the text. -/
lemma parse_eq_ok {statements : List Node} :
    parse source = .ok statements ↔
      ∃ later, program (Cursor.start source) = some (statements, later) ∧ later.rest = [] := by
  unfold parse
  split
  · rename_i hrun
    simp [hrun]
  · rename_i nodes c hrest hrun
    have hne : c.rest ≠ [] := fun hnil => hrest c.line c.col (by rw [← hnil])
    simp [hrun, hne]
  · rename_i hrun
    simp [hrun]

/-- A list may be empty, so reading one never fails. -/
lemma exists_sepBy {α β : Type} (p : Parser α) (separator : Parser β) (c : Cursor) :
    ∃ r, sepBy p separator c = some r := by
  have hlist : sepBy p separator c =
      (maybe (sepBy1 p separator) c).bind fun r => some (r.1.getD [], r.2) := rfl
  rw [hlist, maybe]
  split
  · exact ⟨_, rfl⟩
  · exact ⟨_, rfl⟩

lemma exists_program (c : Cursor) : ∃ statements later, program c = some (statements, later) := by
  have hprogram : program c =
      (sepBy statement (scan Layout.terminator?) (c.moveTo (Layout.between c.rest))).bind
        fun r => some (r.1, r.2.moveTo (Layout.between r.2.rest)) := rfl
  obtain ⟨r, hr⟩ := exists_sepBy statement (scan Layout.terminator?)
    (c.moveTo (Layout.between c.rest))
  rw [hprogram, hr]
  exact ⟨_, _, rfl⟩

/-- An error stands where the text begins that is left over. -/
lemma standsIn_of_parse_error {e : ParseError} (h : parse source = .error e) :
    (Cursor.mk e.rest e.line e.col).StandsIn source ∧ e.rest ≠ [] := by
  obtain ⟨statements, later, hrun⟩ := exists_program (Cursor.start source)
  obtain ⟨⟨hstands, -⟩, -⟩ := program_ensures _ _ _ (Cursor.start_standsIn source) hrun
  obtain ⟨rest, line, col⟩ := later
  unfold parse at h
  rw [hrun] at h
  cases rest with
  | nil => cases h
  | cons a rest =>
    obtain rfl := Except.error.inj h
    exact ⟨hstands, List.cons_ne_nil a rest⟩

/-- What a program is read as was read from its text. -/
lemma isReadStatement_of_parse {statements : List Node} (h : parse source = .ok statements) :
    ∀ statement ∈ statements, statement.IsReadStatement source := by
  obtain ⟨later, haccepts, -⟩ := parse_eq_ok.1 h
  exact (program_ensures _ _ _ (Cursor.start_standsIn source) haccepts).2

/-- **Programs are well formed and located.**  Whatever text the grammar accepts is read as a list of
statements.  There is a tree of the grammar for them, and reading any such tree as a record succeeds and
gives these statements.  Definitions and assignments stand at the top alone, an argument with a name
stands in a call alone, and operators are those of the language.  Names, strings and numbers in them are
words of program text, and every part has a place at which its text stands in the source. -/
theorem parse_wellFormed {statements : List Node} {later : Cursor}
    (haccepts : program (Cursor.start source) = some (statements, later)) (hend : later.rest = []) :
    parse source = .ok statements ∧
      ((∃ tree : Record, tree.IsProgramOf statements) ∧
        ∀ tree : Record, tree.IsProgramOf statements →
          Sketch.ofRecord tree = .ok (.list (statements.map Node.sketch))) ∧
      (∀ statement ∈ statements, statement.IsStatement) ∧
      ∀ part ∈ Node.partsOf statements, part.HasWords ∧ part.IsPlacedIn source := by
  have hparse : parse source = .ok statements := parse_eq_ok.2 ⟨later, haccepts, hend⟩
  have hread := isReadStatement_of_parse hparse
  have htree := Record.exists_isProgramOf fun statement hmem => (hread statement hmem).2.hasTree
  refine ⟨hparse, ⟨htree, fun tree h => h.ofRecord_eq⟩, fun statement hmem => ?_, ?_⟩
  · exact (hread statement hmem).1
  · exact Node.isReadFrom_partsOf fun statement hmem => (hread statement hmem).2

/-- A definition, a comment in the next line, and a call with an argument in parentheses. -/
theorem parse_wellFormed_grouped : ∃ statements later,
    program (Cursor.start "f(x) = -x\n// c\nf(x = (2))") = some (statements, later) ∧
      later.rest = [] ∧ statements.length = 2 ∧
      parse "f(x) = -x\n// c\nf(x = (2))" = .ok statements ∧
      (∃ tree : Record, tree.IsProgramOf statements) ∧
      ∀ part ∈ Node.partsOf statements,
        part.HasWords ∧ part.IsPlacedIn "f(x) = -x\n// c\nf(x = (2))" := by
  have hrun : (program (Cursor.start "f(x) = -x\n// c\nf(x = (2))")).map
      (fun r => (r.1.length, r.2.rest)) = some (2, []) := by
    decide +kernel
  obtain ⟨⟨statements, later⟩, haccepts, hread⟩ := Option.map_eq_some_iff.1 hrun
  obtain ⟨hlength, hend⟩ := Prod.mk.inj hread
  obtain ⟨hparse, htrees, -, hparts⟩ := parse_wellFormed haccepts hend
  exact ⟨statements, later, haccepts, hend, hlength, hparse, htrees.1, hparts⟩

/-- **Programs have the shape of program text.**  Every tree that a source text is read as is a
statement: a definition or an assignment with an expression in it, or an expression. -/
theorem parse_isStatement {statements : List Node}
    (h : parse source = .ok statements) : ∀ statement ∈ statements, statement.IsStatement :=
  fun statement hmem => (isReadStatement_of_parse h statement hmem).1

end SignalCalc.Syntax
