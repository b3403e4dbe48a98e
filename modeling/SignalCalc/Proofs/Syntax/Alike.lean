import Mathlib.Data.List.Forall2
import Mathlib.Data.Nat.Notation
import Mathlib.Tactic.Lemma
import SignalCalc.Proofs.Syntax.Reads

/-!
# Two parsers on two texts

`ReadsAlike R n n' d V p p'` compares a parser at one text with a parser at another one, where the
two texts are related by `R`: either both of them fail, or both read something, with results related
by `V`, and stop at texts that are related again.  Each of them takes at least `d` characters.

The texts are shorter than `n` and `n'`.  The rules of the grammar are built with a bound on their
nesting, which differs between the two texts, and what is nested stands behind a character that was
read; so the bounds go down together with the texts, and the recursion of the grammar becomes an
induction on them.
-/

namespace SignalCalc.Syntax.Parser

variable {α α' β β' : Type} {R : List Char → List Char → Prop} {n n' m m' d : ℕ}

/-- Both parsers fail on related texts, or both read something of at least `d` characters and stop
at related texts. -/
def ReadsAlike (R : List Char → List Char → Prop) (n n' d : ℕ) (V : α → α' → Prop) (p : Parser α)
    (p' : Parser α') : Prop :=
  ∀ c c' : Cursor, R c.rest c'.rest → c.rest.length < n → c'.rest.length < n' →
    Option.Rel (fun r r' => V r.1 r'.1 ∧ R r.2.rest r'.2.rest ∧
      r.2.rest.length + d ≤ c.rest.length ∧ r'.2.rest.length + d ≤ c'.rest.length) (p c) (p' c')

/-- A scanner takes the same word off two related texts, or nothing off either. -/
def TakesAlike (R : List Char → List Char → Prop) (scanner : List Char → Option (List Char)) :
    Prop :=
  ∀ s s', R s s' → (scanner s = none ∧ scanner s' = none) ∨
    ∃ front rest rest', front ≠ [] ∧ s = front ++ rest ∧ s' = front ++ rest' ∧
      scanner s = some rest ∧ scanner s' = some rest' ∧ R rest rest'

lemma run_bind (p : Parser α) (f : α → Parser β) (c : Cursor) :
    (p >>= f) c = (p c).bind fun r => f r.1 r.2 := rfl

namespace ReadsAlike

variable {V : α → α' → Prop} {W : β → β' → Prop} {p q : Parser α} {p' q' : Parser α'}
  {f : α → Parser β} {f' : α' → Parser β'}

/-! ## Bounds and conditions -/

lemma within (h : ReadsAlike R n n' d V p p') (hm : m ≤ n) (hm' : m' ≤ n') :
    ReadsAlike R m m' d V p p' :=
  fun c c' hR hc hc' => h c c' hR (by omega) (by omega)

lemma weaken (h : ReadsAlike R n n' d V p p') : ReadsAlike R n n' 0 V p p' := by
  intro c c' hR hc hc'
  have hrun := h c c' hR hc hc'
  generalize p c = r, p' c' = r' at hrun ⊢
  cases hrun with
  | none => exact .none
  | some hread =>
    obtain ⟨hV, hrest, hlt, hlt'⟩ := hread
    exact .some ⟨hV, hrest, by omega, by omega⟩

/-- Nothing has to be shown for texts shorter than zero. -/
lemma of_zero_left : ReadsAlike R 0 n' d V p p' := fun _ _ _ hc _ => absurd hc (Nat.not_lt_zero _)

lemma of_zero_right : ReadsAlike R n 0 d V p p' := fun _ _ _ _ hc' => absurd hc' (Nat.not_lt_zero _)

/-! ## One thing after the other -/

lemma pure {a : α} {a' : α'} (h : V a a') : ReadsAlike R n n' 0 V (Pure.pure a) (Pure.pure a') :=
  fun _ _ hR _ _ => .some ⟨h, hR, Nat.le_refl _, Nat.le_refl _⟩

lemma bind_add {e : ℕ} (hp : ReadsAlike R n n' d V p p')
    (hf : ∀ a a', V a a' → ReadsAlike R (n - d) (n' - d) e W (f a) (f' a')) :
    ReadsAlike R n n' (d + e) W (p >>= f) (p' >>= f') := by
  intro c c' hR hc hc'
  have hrun := hp c c' hR hc hc'
  rw [run_bind, run_bind]
  generalize p c = r, p' c' = r' at hrun ⊢
  cases hrun with
  | none => exact .none
  | @some r r' hread =>
    obtain ⟨hV, hrest, hlt, hlt'⟩ := hread
    have hsecond := hf r.1 r'.1 hV r.2 r'.2 hrest (by omega) (by omega)
    rw [Option.bind_some, Option.bind_some]
    generalize f r.1 r.2 = s, f' r'.1 r'.2 = s' at hsecond ⊢
    cases hsecond with
    | none => exact .none
    | some hread =>
      obtain ⟨hW, hrest, hle, hle'⟩ := hread
      exact .some ⟨hW, hrest, by omega, by omega⟩

/-- Something that takes characters comes first. -/
lemma bind (hp : ReadsAlike R n n' d V p p')
    (hf : ∀ a a', V a a' → ReadsAlike R (n - d) (n' - d) 0 W (f a) (f' a')) :
    ReadsAlike R n n' d W (p >>= f) (p' >>= f') :=
  hp.bind_add hf

/-- Something that may be empty comes first. -/
lemma bind_empty (hp : ReadsAlike R n n' 0 V p p')
    (hf : ∀ a a', V a a' → ReadsAlike R n n' d W (f a) (f' a')) :
    ReadsAlike R n n' d W (p >>= f) (p' >>= f') :=
  Nat.zero_add d ▸ hp.bind_add hf

/-! ## Alternatives -/

lemma orElse (hp : ReadsAlike R n n' d V p p') (hq : ReadsAlike R n n' d V q q') :
    ReadsAlike R n n' d V (p <|> q) (p' <|> q') := by
  intro c c' hR hc hc'
  have hrun := hp c c' hR hc hc'
  rw [run_orElse, run_orElse]
  generalize p c = r, p' c' = r' at hrun ⊢
  cases hrun with
  | none => exact hq c c' hR hc hc'
  | some hread => exact .some hread

lemma maybe (hp : ReadsAlike R n n' 0 V p p') :
    ReadsAlike R n n' 0 (Option.Rel V) (maybe p) (maybe p') := by
  intro c c' hR hc hc'
  have hrun := hp c c' hR hc hc'
  unfold Parser.maybe
  generalize p c = r, p' c' = r' at hrun ⊢
  cases hrun with
  | none => exact .some ⟨.none, hR, Nat.le_refl _, Nat.le_refl _⟩
  | some hread => exact .some ⟨.some hread.1, hread.2⟩

/-! ## Repetitions -/

lemma many (hp : ReadsAlike R n n' 1 V p p') :
    ReadsAlike R n n' 0 (List.Forall₂ V) (many p) (many p') := by
  intro c c' hR hc hc'
  refine .some ?_
  show List.Forall₂ V (manyFrom p c).1 (manyFrom p' c').1 ∧
    R (manyFrom p c).2.rest (manyFrom p' c').2.rest ∧
    (manyFrom p c).2.rest.length ≤ c.rest.length ∧
    (manyFrom p' c').2.rest.length ≤ c'.rest.length
  induction hlength : c.rest.length using Nat.strongRecOn generalizing c c' with
  | ind k ih =>
    have hrun := hp c c' hR hc hc'
    generalize hread : p c = r, hread' : p' c' = r' at hrun
    cases hrun with
    | none =>
      rw [manyFrom_of_none hread, manyFrom_of_none hread']
      exact ⟨.nil, hR, Nat.le_of_eq hlength, Nat.le_refl _⟩
    | @some r r' hrun =>
      obtain ⟨hV, hrest, hlt, hlt'⟩ := hrun
      have hothers := ih r.2.rest.length (by omega) r.2 r'.2 hrest (by omega) (by omega) rfl
      rw [manyFrom_of_some hread hlt, manyFrom_of_some hread' hlt']
      obtain ⟨hothers, hlast, hle, hle'⟩ := hothers
      exact ⟨.cons hV hothers, hlast, Nat.le_trans hle (by omega),
        Nat.le_trans hle' (by omega)⟩

lemma sepBy {s : Parser β} {s' : Parser β'} (hp : ReadsAlike R n n' 0 V p p')
    (hs : ReadsAlike R n n' 1 W s s') :
    ReadsAlike R n n' 0 (List.Forall₂ V) (sepBy p s) (sepBy p' s') := by
  have hother : ReadsAlike R n n' 1 V (s *> p) (s' *> p') :=
    hs.bind fun _ _ _ => hp.within (Nat.sub_le n 1) (Nat.sub_le n' 1)
  have hone : ReadsAlike R n n' 0 (List.Forall₂ V) (sepBy1 p s) (sepBy1 p' s') :=
    hp.bind fun _ _ hfirst => hother.many.bind fun _ _ hothers => .pure (.cons hfirst hothers)
  refine hone.maybe.bind fun _ _ hread => .pure ?_
  cases hread with
  | none => exact .nil
  | some hread => exact hread

/-! ## Scanners and places -/

/-- The places of what was read differ, and the results do not. -/
lemma located {tag : String} (hp : ReadsAlike R n n' d V p p') :
    ReadsAlike R n n' d (fun r r' => V r.2 r'.2) (located tag p) (located tag p') := by
  intro c c' hR hc hc'
  have hrun := hp c c' hR hc hc'
  unfold Parser.located
  generalize p c = r, p' c' = r' at hrun ⊢
  cases hrun with
  | none => exact .none
  | some hread => exact .some hread

end ReadsAlike

namespace TakesAlike

variable {scanner : List Char → Option (List Char)}

/-- What is read with the same word at both places. -/
lemma readsAlike {p : Parser α} {P : List Char → α → Prop} {V : α → α → Prop}
    (h : TakesAlike R scanner) (hfails : ∀ s, scanner s = none → p.Fails s)
    (hreads : ∀ front rest, scanner (front ++ rest) = some rest → p.Reads (P front) front rest)
    (hV : ∀ front a a', P front a → P front a' → V a a') : ReadsAlike R n n' 1 V p p := by
  intro c c' hR hc hc'
  rcases h _ _ hR with ⟨hnone, hnone'⟩ | ⟨front, rest, rest', hne, hs, hs', hsome, hsome', hrest⟩
  · rw [hfails _ hnone c rfl, hfails _ hnone' c' rfl]
    exact .none
  · obtain ⟨a, later, hrun, ha, rfl⟩ := hreads front rest (hs ▸ hsome) c hs
    obtain ⟨a', later', hrun', ha', rfl⟩ := hreads front rest' (hs' ▸ hsome') c' hs'
    have hpos : 0 < front.length := List.length_pos_iff.2 hne
    have hle (rest : List Char) : rest.length + 1 ≤ front.length + rest.length := by omega
    rw [hrun, hrun', hs, hs', List.length_append, List.length_append]
    exact .some ⟨hV front a a' ha ha', hrest, hle _, hle _⟩

lemma scan (h : TakesAlike R scanner) :
    ReadsAlike R n n' 1 (fun _ _ => True) (scan scanner) (scan scanner) :=
  h.readsAlike (P := fun _ _ => True) (fun _ => .scan) (fun _ _ => .scan) fun _ _ _ _ _ => trivial

/-- The word read is the same text at both places. -/
lemma located {tag : String} (h : TakesAlike R scanner) :
    ReadsAlike R n n' 1 (fun r r' => r.1.text = r'.1.text) (located tag (Parser.scan scanner))
      (located tag (Parser.scan scanner)) :=
  h.readsAlike (fun _ hnone => .located (.scan hnone))
    (fun _ _ hsome => .located (.scan hsome)) fun _ _ _ hr hr' => hr.2.trans hr'.2.symm

lemma findSome? {scanners : List (List Char → Option (List Char))}
    (h : ∀ scanner ∈ scanners, TakesAlike R scanner) :
    TakesAlike R fun text => scanners.findSome? (· text) := by
  intro s s' hR
  induction scanners with
  | nil => exact .inl ⟨rfl, rfl⟩
  | cons scanner scanners ih =>
    rcases h scanner List.mem_cons_self s s' hR with ⟨hnone, hnone'⟩ | htaken
    · simp only [List.findSome?_cons, hnone, hnone']
      exact ih fun other hother => h other (List.mem_cons_of_mem scanner hother)
    · obtain ⟨front, rest, rest', hne, hs, hs', hsome, hsome', hrest⟩ := htaken
      exact .inr ⟨front, rest, rest', hne, hs, hs', by simp only [List.findSome?_cons, hsome],
        by simp only [List.findSome?_cons, hsome'], hrest⟩

end TakesAlike

end SignalCalc.Syntax.Parser
