import SignalCalc.Proofs.Syntax.CutWords

/-!
# Operators at a cut

An expression that goes on behind a cut is read from the beginning up to a text of which it is known what
does not stand there: no operator that binds looser (`looser k` has the signs of those that bind looser
than level `k`), no comma and no closing parenthesis.  So the operators behind the cut are not read from
the beginning, and a row of operators is read from it as far as its operands are
(`leftAssociative_readsCut`).
-/

namespace SignalCalc.Syntax

open SignalCalc.Syntax.Grammar
open SignalCalc.Syntax.Layout
open SignalCalc.Syntax.Parser
open SignalCalc.Syntax.Token

variable {α β : Type} {source : String} {more text after : List Char} {signs A : List Char}
  {n n' d e k : ℕ} {B C : List Char → Prop}

/-! ## Scanners -/

lemma exists_scan {scanner : List Char → Option (List Char)} (h : TakesWord scanner) {c : Cursor}
    {r : List Char} (hr : scanner c.rest = some r) :
    ∃ later, scan scanner c = some ((), later) ∧ later.rest = r := by
  obtain ⟨front, -, hfront⟩ := h _ _ hr
  exact ⟨c.moveTo r, scan_eq_some.2 ⟨r, hr, rfl⟩, Cursor.rest_moveTo ⟨front, hfront.symm⟩⟩

lemma scan_readsCut {scanner : List Char → Option (List Char)} (hword : TakesWord scanner)
    (h : ∀ s, WordCut more B scanner s) :
    ReadsCut source more n n' 1 B (scan scanner) (scan scanner) := by
  refine ⟨scan_stays _, fun c c' _ hcut _ _ => ?_⟩
  cases h c'.rest with
  | within hread hmore =>
    obtain ⟨later, hlater, hrest⟩ := exists_scan hword (hcut ▸ hmore)
    obtain ⟨later', hlater', hrest'⟩ := exists_scan hword hread
    rw [hlater, hlater']
    refine .within (hrest'.symm ▸ hrest) ?_
    rw [hrest']
    exact length_lt_of_takesWord hword hread
  | fail hread hmore =>
    rw [Fails.scan (hcut ▸ hmore) c rfl, Fails.scan hread c' rfl]
    exact .fail
  | beyond hmore hlt hB =>
    obtain ⟨later, hlater, hrest⟩ := exists_scan hword (hcut ▸ hmore)
    rw [hlater]
    cases hread : scanner c'.rest with
    | none =>
      rw [Fails.scan hread c' rfl]
      exact .beyond_fail (hrest ▸ hlt)
    | some r' =>
      obtain ⟨later', hlater', hrest'⟩ := exists_scan hword hread
      rw [hlater']
      exact .beyond (hrest ▸ hlt) (hrest' ▸ hB r' hread)

lemma scan_lands {scanner : List Char → Option (List Char)} (h : TakesWord scanner) :
    (scan scanner).Lands text fun after => scanner text = some after := by
  rintro c rfl u later hrun
  obtain ⟨r, hr, -⟩ := scan_eq_some.1 hrun
  obtain ⟨later', hrun', hrest⟩ := exists_scan h hr
  obtain ⟨-, rfl⟩ := Prod.mk.inj (Option.some.inj (hrun.symm.trans hrun'))
  exact hrest ▸ hr

lemma Parser.Lands.located {p : Parser α} {tag : String} (h : p.Lands text C) :
    (located tag p).Lands text C :=
  fun c hc r later hrun => h c hc r.2 later (located_eq_some.1 hrun).1

lemma Parser.Lands.orElse {p q : Parser α} (hp : p.Lands text C) (hq : q.Lands text C) :
    (p <|> q).Lands text C := by
  intro c hc a later hrun
  rw [run_orElse] at hrun
  cases hfirst : p c with
  | none =>
    rw [hfirst] at hrun
    exact hq c hc a later hrun
  | some r =>
    rw [hfirst] at hrun
    obtain ⟨rfl, rfl⟩ := Prod.mk.inj (Option.some.inj hrun)
    exact hp c hc r.1 r.2 hfirst

namespace Parser

/-- The parsers stop at the same place in front of the cut, or none of them stops there; the end of the
beginning may be read. -/
structure LaxReadsCut (source : String) (more : List Char) (d : ℕ) (p p' : Parser α) : Prop where
  stays : p.Stays source
  run : ∀ c c' : Cursor, c.rest = c'.rest ++ more →
    (∃ a later a' later', p c = some (a, later) ∧ p' c' = some (a', later') ∧
      later.rest = later'.rest ++ more ∧ later'.rest.length + d ≤ c'.rest.length) ∨
    (∀ a later, p c = some (a, later) → later.rest.length < more.length) ∧
      ∀ a' later', p' c' = some (a', later') → later'.rest = []

namespace LaxReadsCut

variable {p p' : Parser α} {f f' : α → Parser β}

lemma scan {scanner : List Char → Option (List Char)} (hword : TakesWord scanner)
    (h : ∀ s, LaxWordCut more scanner s) : LaxReadsCut source more 1 (scan scanner) (scan scanner) := by
  refine ⟨scan_stays _, fun c c' hcut => ?_⟩
  cases h c'.rest with
  | within hread hmore =>
    obtain ⟨later, hlater, hrest⟩ := exists_scan hword (hcut ▸ hmore)
    obtain ⟨later', hlater', hrest'⟩ := exists_scan hword hread
    refine .inl ⟨(), later, (), later', hlater, hlater', hrest'.symm ▸ hrest, ?_⟩
    rw [hrest']
    exact length_lt_of_takesWord hword hread
  | beyond hmore hread =>
    refine .inr ⟨fun a later hrun => ?_, fun a' later' hrun' => ?_⟩
    · exact hmore _ (hcut ▸ scan_lands hword c rfl a later hrun)
    · exact hread _ (scan_lands hword c' rfl a' later' hrun')

lemma located {tag : String} (h : LaxReadsCut source more d p p') :
    LaxReadsCut source more d (located tag p) (located tag p') := by
  refine ⟨fun c r later hc hrun => ?_, fun c c' hcut => ?_⟩
  · exact ⟨(h.stays c r.2 later hc (located_eq_some.1 hrun).1).1, trivial⟩
  · rcases h.run c c' hcut with ⟨a, later, a', later', hrun, hrun', hrest⟩ | ⟨hmore, hread⟩
    · exact .inl ⟨_, later, _, later', located_eq_some.2 ⟨hrun, rfl⟩, located_eq_some.2 ⟨hrun', rfl⟩,
        hrest⟩
    · exact .inr ⟨fun r later hrun => hmore r.2 later (located_eq_some.1 hrun).1,
        fun r later' hrun' => hread r.2 later' (located_eq_some.1 hrun').1⟩

lemma map {g g' : α → β} (h : LaxReadsCut source more d p p') :
    LaxReadsCut source more d (p >>= fun a => Pure.pure (g a)) (p' >>= fun a => Pure.pure (g' a)) := by
  have hsome (q : Parser α) (g : α → β) (c : Cursor) (b : β) (later : Cursor)
      (hrun : (q >>= fun a => Pure.pure (g a)) c = some (b, later)) : ∃ a, q c = some (a, later) := by
    rw [run_bind] at hrun
    obtain ⟨⟨a, mid⟩, hfirst, hsecond⟩ := Option.bind_eq_some_iff.1 hrun
    obtain ⟨-, rfl⟩ := Prod.mk.inj (Option.some.inj hsecond)
    exact ⟨a, hfirst⟩
  refine ⟨Ensures.andThen h.stays fun _ => .pure trivial, fun c c' hcut => ?_⟩
  rcases h.run c c' hcut with ⟨a, later, a', later', hrun, hrun', hrest⟩ | ⟨hmore, hread⟩
  · exact .inl ⟨g a, later, g' a', later', run_bind_of_some hrun, run_bind_of_some hrun', hrest⟩
  · refine .inr ⟨fun b later hrun => ?_, fun b' later' hrun' => ?_⟩
    · obtain ⟨a, hfirst⟩ := hsome p g c b later hrun
      exact hmore a later hfirst
    · obtain ⟨a', hfirst⟩ := hsome p' g' c' b' later' hrun'
      exact hread a' later' hfirst

/-- Nothing follows at the end of the beginning. -/
lemma bind (hp : LaxReadsCut source more d p p')
    (hf : ∀ a a', ReadsCut source more (n - d) (n' - d) e C (f a) (f' a'))
    (hnil : ∀ a', (f' a').Fails []) : ReadsCut source more n n' (d + e) C (p >>= f) (p' >>= f') := by
  refine ⟨Ensures.andThen hp.stays fun a => (hf a a).stays, fun c c' hc hcut hlt hlt' => ?_⟩
  rcases hp.run c c' hcut with ⟨a, later, a', later', hrun, hrun', hrest, hle⟩ | ⟨hmore, hread⟩
  · have hlater := (hp.stays c a later hc hrun).1.1
    rw [hcut, List.length_append] at hlt
    have hsecond := (hf a a').run later later' hlater hrest
      (by rw [hrest, List.length_append]; omega) (by omega)
    rw [run_bind_of_some hrun, run_bind_of_some hrun']
    generalize f a later = s, f' a' later' = s' at hsecond
    cases hsecond with
    | fail => exact .fail
    | within hrest hle' => exact .within hrest (by omega)
    | beyond_fail hshort => exact .beyond_fail hshort
    | beyond hshort hC => exact .beyond hshort hC
  · have hnone : (p' >>= f') c' = none := by
      cases hfirst : p' c' with
      | none => exact run_bind_of_none hfirst
      | some r => exact (run_bind_of_some hfirst).trans (hnil r.1 r.2 (hread r.1 r.2 hfirst))
    rw [hnone]
    cases hfirst : p c with
    | none =>
      rw [run_bind_of_none hfirst]
      exact .fail
    | some r =>
      rw [run_bind_of_some hfirst]
      cases hsecond : f r.1 r.2 with
      | none => exact .fail
      | some s =>
        have hle := ((hf r.1 r.1).stays r.2 s.1 s.2 (hp.stays c r.1 r.2 hc hfirst).1.1 hsecond).1.2
        exact .beyond_fail (hle.trans_lt (hmore r.1 r.2 hfirst))

end LaxReadsCut

end Parser

/-! ## Words and layout -/

lemma gap_readsCut : ReadsCut source more n n' 0 IsSpent gap gap := by
  refine ⟨gap_stays, fun c c' _ hcut _ _ => ?_⟩
  have hrest : (c.moveTo (inside c.rest)).rest = inside c.rest :=
    Cursor.rest_moveTo (inside_suffix (List.suffix_refl _))
  have hrest' : (c'.moveTo (inside c'.rest)).rest = inside c'.rest :=
    Cursor.rest_moveTo (inside_suffix (List.suffix_refl _))
  show EndsAlike more 0 _ IsSpent (some ((), c.moveTo (inside c.rest)))
    (some ((), c'.moveTo (inside c'.rest)))
  rcases inside_cut c'.rest more with hinside | ⟨hlt, hspent⟩
  · refine .within ?_ ?_
    · rw [hrest, hrest', hcut, hinside]
    · rw [hrest']
      exact (inside_suffix (List.suffix_refl _)).length_le
  · refine .beyond ?_ ?_
    · rwa [hrest, hcut]
    · rwa [hrest']

lemma word_readsCut {w : String} (hw : w.toList ≠ []) :
    ReadsCut source more n n' 1 Never (word w) (word w) :=
  scan_readsCut (fun _ _ h => ⟨w.toList, hw, literal_eq_some h⟩) (literal_cut w.toList)

lemma word_fails_of_spent {w : String} {c : Char} {cs : List Char} (hw : w.toList = c :: cs)
    (hc : c ≠ '/') (h : IsSpent text) : (word w).Fails text := by
  refine word_fails hw ?_
  cases h with
  | nil => nofun
  | slash => exact fun heq => hc (Option.some.inj heq).symm
  | opening => exact fun heq => hc (Option.some.inj heq).symm

lemma name_readsCut : ReadsCut source more n n' 1 (· = []) name name :=
  (scan_readsCut name_readsLocally.proper name_cut).located.bind_total (fun _ _ => .pure)
    (fun _ _ => nofun) fun _ _ hs => .pure hs

lemma name_fails_of_spent (h : IsSpent text) : name.Fails text := by
  refine name_fails (name_eq_none ?_)
  cases h with
  | nil => exact nofun
  | slash => exact forall_head_cons (by decide)
  | opening => exact forall_head_cons (by decide)

lemma comma_readsCut : ReadsCut source more n n' 1 IsSpent comma comma :=
  (gap_readsCut.bind (fun _ _ => word_readsCut (by decide))
    fun _ _ hs => word_fails_of_spent rfl (by decide) hs).bind
    (fun _ _ => gap_readsCut) fun _ _ => False.elim

/-! ## Operators -/

/-- The text starts with one of the signs, or it has a sign alone, which is read up to its end. -/
def AtSign (signs text after : List Char) : Prop :=
  (signOf text = none → after = []) ∧ ∀ c ∈ signOf text, c ∈ signs

lemma atSign_literal {c : Char} {cs : List Char} (hslash : c ≠ '/')
    (hequal : c = '=' → cs.head? = some '=') (h : literal (c :: cs) text = some after) : signOf text = some c := by
  rw [literal_eq_some h, List.cons_append, signOf, if_neg]
  rintro (⟨hc, hhead⟩ | ⟨hc, -⟩)
  · obtain ⟨rest, rfl⟩ := List.head?_eq_some_iff.1 (hequal hc)
    exact hhead rfl
  · exact hslash hc

lemma atSign_of_signOf {c : Char} (h : signOf text = some c) (hc : c ∈ signs) :
    AtSign signs text after := by
  refine ⟨fun hnone => ?_, fun d hd => ?_⟩
  · rw [h] at hnone
    cases hnone
  · rw [h] at hd
    exact Option.some.inj hd ▸ hc

lemma atSign_slash (h : slash text = some after) (hsigns : '/' ∈ signs) : AtSign signs text after := by
  obtain ⟨rfl, hnext⟩ := slash_eq_some h
  cases after with
  | nil => exact ⟨fun _ => rfl, by simp [signOf]⟩
  | cons c rest =>
    refine atSign_of_signOf (c := '/') ?_ hsigns
    rw [signOf, if_neg]
    rintro (⟨hc, -⟩ | ⟨-, hnil | hslash | hstar⟩)
    · cases hc
    · cases hnil
    · exact hnext.1 hslash
    · exact hnext.2 hstar

lemma atSign_scan {op : BinaryOperator} (hop : op.IsWritten) (h : op.scan text = some after)
    (hsigns : op.initial ∈ signs) : AtSign signs text after := by
  cases op with
  | arithmetic op =>
    cases op with
    | div => exact atSign_slash h hsigns
    | _ => exact atSign_of_signOf (atSign_literal (by decide) (by decide) h) hsigns
  | other symbol => exact hop.elim
  | _ => exact atSign_of_signOf (atSign_literal (by decide) (by decide) h) hsigns

lemma atSign_unaryScan (h : unaryScan text = some after) : AtSign ['+', '-', '/', '!'] text after := by
  obtain ⟨scanner, hmem, hscan⟩ := List.exists_of_findSome?_eq_some h
  simp only [List.mem_cons, List.not_mem_nil, or_false] at hmem
  rcases hmem with rfl | rfl | rfl | rfl
  · exact atSign_of_signOf (atSign_literal (by decide) (by decide) hscan) (by decide)
  · exact atSign_of_signOf (atSign_literal (by decide) (by decide) hscan) (by decide)
  · exact atSign_slash hscan (by decide)
  · exact atSign_of_signOf (atSign_literal (by decide) (by decide) hscan) (by decide)

lemma unaryScan_takesWord : TakesWord unaryScan := by
  intro text rest h
  obtain ⟨op, hop, rfl⟩ := unaryScan_eq_some h
  refine ⟨op.symbol.toList, ?_, rfl⟩
  cases op with
  | other symbol => exact hop.elim
  | _ => exact List.cons_ne_nil _ _

/-- Scanners of which one at most can read the texts that start with a character. -/
def Exclusive (scanners : List (List Char → Option (List Char))) : Prop :=
  scanners.Pairwise fun f g => ∀ c s s', f (c :: s) ≠ none → g (c :: s') = none

lemma exclusive_map {ι : Type} {items : List ι} {head : ι → Char}
    {scanner : ι → List Char → Option (List Char)}
    (hhead : ∀ i ∈ items, ∀ c s, c ≠ head i → scanner i (c :: s) = none)
    (hdistinct : items.Pairwise fun i j => head i ≠ head j) : Exclusive (items.map scanner) := by
  refine List.pairwise_map.2 (hdistinct.imp_of_mem fun {i j} hi hj hne c s s' hread => ?_)
  have hc : c = head i := not_not.1 fun hne => hread (hhead i hi c s hne)
  exact hhead j hj c s' (hc ▸ hne)

lemma Exclusive.exists_findSome? {scanners : List (List Char → Option (List Char))}
    (h : Exclusive scanners) (c : Char) :
    (∃ f ∈ scanners, ∀ s, scanners.findSome? (· (c :: s)) = f (c :: s)) ∨
      ∀ s, scanners.findSome? (· (c :: s)) = none := by
  induction scanners with
  | nil => exact .inr fun _ => rfl
  | cons f scanners ih =>
    obtain ⟨hfirst, hothers⟩ := List.pairwise_cons.1 h
    by_cases hread : ∃ t, f (c :: t) ≠ none
    · obtain ⟨t, ht⟩ := hread
      refine .inl ⟨f, List.mem_cons_self, fun s => ?_⟩
      have hnone : scanners.findSome? (· (c :: s)) = none :=
        List.findSome?_eq_none_iff.2 fun g hg => hfirst g hg c t s ht
      rw [List.findSome?_cons, hnone]
      cases f (c :: s) <;> rfl
    · have hskip (s : List Char) : (f :: scanners).findSome? (· (c :: s)) =
          scanners.findSome? (· (c :: s)) := by
        rw [List.findSome?_cons, not_not.1 (not_exists.1 hread s)]
      simp only [hskip]
      exact (ih hothers).imp_left fun ⟨g, hg, heq⟩ => ⟨g, List.mem_cons_of_mem f hg, heq⟩

lemma takesWord_findSome? {scanners : List (List Char → Option (List Char))}
    (h : ∀ f ∈ scanners, TakesWord f) : TakesWord fun text => scanners.findSome? (· text) := by
  intro text rest hread
  obtain ⟨f, hf, hread⟩ := List.exists_of_findSome?_eq_some hread
  exact h f hf text rest hread

lemma findSome?_cut {scanners : List (List Char → Option (List Char))}
    (hword : ∀ f ∈ scanners, TakesWord f) (hexclusive : Exclusive scanners)
    (h : ∀ f ∈ scanners, ∀ s, LaxWordCut more f s) (s : List Char) :
    LaxWordCut more (fun text => scanners.findSome? (· text)) s := by
  cases s with
  | nil => exact (WordCut.nil (takesWord_findSome? hword)).lax
  | cons c s =>
    rcases hexclusive.exists_findSome? c with ⟨f, hf, heq⟩ | hnone
    · cases h f hf (c :: s) with
      | within hread hmore => exact .within ((heq s).trans hread) ((heq _).trans hmore)
      | beyond hmore hread =>
        exact .beyond (fun r hr => hmore r ((heq _).symm.trans hr))
          fun r' hr' => hread r' ((heq s).symm.trans hr')
    · refine .beyond (fun r hr => ?_) fun r' hr' => ?_
      · cases (hnone _).symm.trans hr
      · cases (hnone s).symm.trans hr'

lemma BinaryOperator.takesWord_scan {op : BinaryOperator} (hop : op.IsWritten) : TakesWord op.scan := by
  intro text rest h
  obtain ⟨cs, hcs⟩ := symbol_eq_cons hop
  exact ⟨op.symbol.toList, hcs ▸ List.cons_ne_nil _ _, scan_eq_some h⟩

lemma BinaryOperator.scan_cut {op : BinaryOperator} (hop : op.IsWritten) (s : List Char) :
    LaxWordCut more op.scan s := by
  have hliteral (w : List Char) : LaxWordCut more (literal w) s :=
    ((literal_cut w s).mono fun _ => False.elim).lax
  cases op with
  | arithmetic op =>
    cases op with
    | div => exact slash_cut s
    | _ => exact hliteral _
  | other symbol => exact hop.elim
  | _ => exact hliteral _

lemma operatorOf_cut {tag : String} (words : List BinaryOperator) (hwords : ∀ op ∈ words, op.IsWritten)
    (hdistinct : words.Pairwise fun op op' => op.initial ≠ op'.initial) :
    LaxReadsCut source more 1 (operatorOf tag (words.map BinaryOperator.scan))
      (operatorOf tag (words.map BinaryOperator.scan)) := by
  have hall {P : (List Char → Option (List Char)) → Prop} (h : ∀ op : BinaryOperator, op.IsWritten →
      P op.scan) : ∀ f ∈ words.map BinaryOperator.scan, P f := by
    intro f hf
    obtain ⟨op, hop, rfl⟩ := List.mem_map.1 hf
    exact h op (hwords op hop)
  have hexclusive : Exclusive (words.map BinaryOperator.scan) :=
    exclusive_map (fun op hop c s hne => BinaryOperator.scan_cons_of_ne (hwords op hop) hne s) hdistinct
  have hword := hall (P := TakesWord) fun op hop => BinaryOperator.takesWord_scan hop
  refine .map (.located (.scan (takesWord_findSome? hword) (findSome?_cut hword hexclusive ?_)))
  exact hall (P := fun f => ∀ s, LaxWordCut more f s) fun op hop => BinaryOperator.scan_cut hop

lemma operatorOf_lands {tag : String} (words : List BinaryOperator) (hwords : ∀ op ∈ words, op.IsWritten)
    (hsigns : ∀ op ∈ words, op.initial ∈ signs) :
    (operatorOf tag (words.map BinaryOperator.scan)).Lands text (AtSign signs text) := by
  refine .bind (.located (scan_lands (takesWord_findSome? ?_))) fun r after hafter => .pure ?_
  · intro f hf
    obtain ⟨op, hop, rfl⟩ := List.mem_map.1 hf
    exact BinaryOperator.takesWord_scan (hwords op hop)
  · obtain ⟨f, hf, hread⟩ := List.exists_of_findSome?_eq_some hafter
    obtain ⟨op, hop, rfl⟩ := List.mem_map.1 hf
    exact atSign_scan (hwords op hop) hread (hsigns op hop)

/-- The signs of the operators of a level. -/
def levelSigns (k : ℕ) : List Char := (levelWords k).map BinaryOperator.initial

lemma levelOperator_cut (hk : k < 6) :
    LaxReadsCut source more 1 (levelOperator k) (levelOperator k) := by
  obtain ⟨tag, htag⟩ := levelOperator_eq hk
  rw [htag]
  refine operatorOf_cut _ (fun op hop => (level_of_mem_levelWords hop).2) ?_
  interval_cases k <;> simp [levelWords, BinaryOperator.initial]

lemma levelOperator_lands (hk : k < 6) : (levelOperator k).Lands text (AtSign (levelSigns k) text) := by
  obtain ⟨tag, htag⟩ := levelOperator_eq hk
  rw [htag]
  exact operatorOf_lands _ (fun op hop => (level_of_mem_levelWords hop).2)
    fun op hop => List.mem_map_of_mem hop

/-- The sign of a power. -/
lemma powerOperator_cut : LaxReadsCut source more 1 (operatorOf "pow_op" [Token.literal ['^']])
    (operatorOf "pow_op" [Token.literal ['^']]) :=
  operatorOf_cut [.arithmetic .pow] (by simp [BinaryOperator.IsWritten]) (List.pairwise_singleton _ _)

lemma powerOperator_lands :
    (operatorOf "pow_op" [Token.literal ['^']]).Lands text (AtSign ['^'] text) :=
  operatorOf_lands [.arithmetic .pow] (by simp [BinaryOperator.IsWritten])
    (by simp [BinaryOperator.initial])

section Operators

variable {p p' : Parser Node} {level : Parser (Location × BinaryOperator)}

/-- Nothing is read where none of the signs stands. -/
lemma operatorStep_fails (hsign : ∀ t, level.Lands t (AtSign signs t)) (hnil : p.Fails [])
    (h : Blocked signs text) : (operatorStep p level).Fails text := by
  refine gap_bind_fails ((hsign _).bind_fails fun op after hafter => ?_)
  have hnone : signOf (inside text) = none := by
    cases hsome : signOf (inside text) with
    | none => rfl
    | some c => exact absurd (hafter.2 c hsome) (h c hsome)
  rw [hafter.1 hnone]
  exact gap_bind_fails (.bind hnil)

/-- Something is read where one of the signs stands, and none of the others then does. -/
lemma blocked_of_operatorStep (hsign : ∀ t, level.Lands t (AtSign signs t)) (hnil : p.Fails [])
    (hA : ∀ c ∈ signs, c ∉ A) {c : Cursor} (h : operatorStep p level c ≠ none) : Blocked A c.rest := by
  intro x hx hmem
  have hfree : Blocked signs c.rest := by
    intro y hy hsigns
    obtain rfl := Option.some.inj (hx.symm.trans hy)
    exact hA x hsigns hmem
  exact h (operatorStep_fails hsign hnil hfree c rfl)

lemma operatorStep_readsCut (hlevel : LaxReadsCut source more 1 level level)
    (hsign : ∀ t, level.Lands t (AtSign signs t)) (hp : ReadsCut source more (n - 1) (n' - 1) 0 B p p')
    (hspent : ∀ s, IsSpent s → p'.Fails s) :
    ReadsCut source more n n' 1 B (operatorStep p level) (operatorStep p' level) := by
  have hright (op op' : Location × BinaryOperator) : ReadsCut source more (n - 1) (n' - 1) 0 B
      (gap >>= fun _ => p >>= fun right => pure (op, right))
      (gap >>= fun _ => p' >>= fun right => pure (op', right)) :=
    gap_readsCut.bind (fun _ _ => hp.map) fun _ s hs => .bind (hspent s hs)
  refine gap_readsCut.bind (fun _ _ => hlevel.bind hright fun op => ?_) fun _ s hs => ?_
  · exact gap_bind_fails (.bind (hspent [] .nil))
  · refine (hsign s).bind_fails fun op after hafter => ?_
    rw [hafter.1 hs.signOf_eq]
    exact gap_bind_fails (.bind (hspent [] .nil))

lemma leftAssociative_readsCut (hlevel : LaxReadsCut source more 1 level level)
    (hsign : ∀ t, level.Lands t (AtSign signs t)) (hA : ∀ c ∈ signs, c ∉ A)
    (hp : ReadsCut source more n n' 0 (Blocked (signs ++ A)) p p') (hnil : p.Fails [])
    (hspent : ∀ s, IsSpent s → p'.Fails s) :
    ReadsCut source more n n' 0 (Blocked A) (leftAssociative p level) (leftAssociative p' level) := by
  have hstep := operatorStep_readsCut hlevel hsign (hp.within (Nat.sub_le n 1) (Nat.sub_le n' 1)) hspent
  have hfails (s : List Char) (hs : Blocked (signs ++ A) s) : (operatorStep p' level).Fails s :=
    operatorStep_fails hsign (hspent [] .nil) (hs.mono (List.subset_append_left signs A))
  have hmany : ReadsCut source more n n' 0 (Blocked A) (many (operatorStep p level))
      (many (operatorStep p' level)) := by
    refine hstep.many (fun c c' hcut hread => ?_) fun s hs => ?_
    · have hblocked := blocked_of_operatorStep hsign hnil hA hread
      rw [hcut] at hblocked
      exact hblocked.of_append
    · exact ⟨hs.mono (List.subset_append_right signs A), hfails s hs⟩
  rw [leftAssociative_eq, leftAssociative_eq]
  refine hp.bind_total (fun _ _ => hmany.map) (fun _ _ => nofun) fun _ s hs => ?_
  refine .bind (Reads.many_nil (hfails s hs)).lands fun _ mid hmid => .pure ?_
  rw [hmid]
  exact hs.mono (List.subset_append_right signs A)

end Operators

/-- The signs that end an expression, and those of the operators that bind looser than a level. -/
def looser : ℕ → List Char
  | 0 => [')', ',']
  | k + 1 => levelSigns k ++ looser k

lemma looser_six :
    looser 6 = ['*', '/', '+', '-', '<', '>', '=', '!', '&', '|', ')', ','] := rfl

lemma not_mem_looser (hk : k < 6) : ∀ c ∈ levelSigns k, c ∉ looser k := by
  interval_cases k <;> simp [looser, levelSigns, levelWords, BinaryOperator.initial]

lemma head?_of_signOf {c : Char} (h : signOf text = some c) : text.head? = some c := by
  cases text with
  | nil => cases h
  | cons d rest =>
    rw [signOf] at h
    split at h
    · cases h
    · exact h

lemma Blocked.head_ne {c : Char} (h : Blocked A text) (hc : c ∈ A) (hplain : c ≠ '=' ∧ c ≠ '/') :
    (inside text).head? ≠ some c := by
  intro hhead
  obtain ⟨rest, hrest⟩ := List.head?_eq_some_iff.1 hhead
  refine h c ?_ hc
  rw [signAt, hrest, signOf, if_neg]
  · rfl
  · exact fun hsign => hsign.elim (fun hequal => hplain.1 hequal.1) fun hslash => hplain.2 hslash.1

/-- No expression starts here. -/
def NoExpression (text : List Char) : Prop :=
  ∀ c ∈ signOf text, startsPrimary c = false ∧ c ∉ ['+', '-', '/', '!']

lemma IsSpent.noExpression (h : IsSpent text) : NoExpression text := by
  rw [NoExpression, h.signOf_eq]
  exact nofun

lemma NoExpression.head (h : NoExpression text) : ∀ c ∈ text.head?, startsPrimary c = false := by
  cases text with
  | nil => exact nofun
  | cons c rest =>
    refine forall_head_cons ?_
    rw [NoExpression, signOf] at h
    split at h
    · rename_i hsign
      rcases hsign with ⟨rfl, -⟩ | ⟨rfl, -⟩
      · decide
      · decide
    · exact (h c rfl).1

section Operands

variable {depth depth' : ℕ} {p p' : Parser Node}

lemma operand_fails_of_noExpression (h : NoExpression text) (depth : ℕ) :
    (operand depth).Fails text := by
  cases depth with
  | zero => exact fun _ _ => rfl
  | succ depth =>
    have hpower : (power (operand depth)).Fails text :=
      .bind (.bind (.located (.bind (primary_fails h.head))))
    refine .orElse (.bind (.located ?_)) hpower
    refine (scan_lands unaryScan_takesWord).located.bind_fails fun _ after hafter => ?_
    have hsign := atSign_unaryScan hafter
    have hnone : signOf text = none := by
      cases hsome : signOf text with
      | none => rfl
      | some c => exact absurd (hsign.2 c hsome) (h c hsome).2
    rw [hsign.1 hnone]
    exact gap_bind_fails (.bind (operand_fails noOperand_nil depth))

lemma levelParser_fails (h : NoExpression text) (hk : k ≤ 6) : (levelParser depth k).Fails text := by
  induction hk using Nat.decreasingInduction with
  | self => exact operand_fails_of_noExpression h depth
  | of_succ k hk ih =>
    rw [levelParser_of_lt hk]
    exact .bind ih

lemma expressionOver_fails_of_noExpression (h : NoExpression text) :
    (expressionOver (operand depth)).Fails text :=
  levelParser_fails (k := 0) h (Nat.zero_le 6)

/-- No expression starts with layout. -/
lemma inside_eq_or_noExpression (text : List Char) : inside text = text ∨ NoExpression text := by
  unfold inside
  split
  · exact .inr (by simp [NoExpression, signOf])
  · exact .inr (by simpa [NoExpression, signOf] using by decide)
  · exact .inr (by simpa [NoExpression, signOf] using by decide)
  · exact .inl rfl

/-- No comma and no parenthesis stands where an expression starts. -/
lemma blocked_of_read {q : Parser α} (hq : ∀ s, NoExpression s → q.Fails s) (h : ¬q.Fails text) :
    Blocked (looser 0) text := by
  intro c hc hmem
  refine h (hq _ ?_)
  rcases inside_eq_or_noExpression text with hinside | hnone
  · intro d hd
    rw [signAt, hinside] at hc
    obtain rfl := Option.some.inj (hc.symm.trans hd)
    rcases List.mem_pair.1 hmem with rfl | rfl
    · decide
    · decide
  · exact hnone

lemma levelParser_readsCut (hk : k ≤ 6)
    (h : ReadsCut source more n n' 0 (Blocked (looser 6)) (operand depth) (operand depth')) :
    ReadsCut source more n n' 0 (Blocked (looser k)) (levelParser depth k) (levelParser depth' k) := by
  induction hk using Nat.decreasingInduction with
  | self => exact h
  | of_succ k hk ih =>
    rw [levelParser_of_lt hk, levelParser_of_lt hk]
    refine leftAssociative_readsCut (levelOperator_cut hk) (fun _ => levelOperator_lands hk)
      (not_mem_looser hk) ih ?_ fun s hs => ?_
    · exact levelParser_fails nofun hk
    · exact levelParser_fails hs.noExpression hk

end Operands

end SignalCalc.Syntax
