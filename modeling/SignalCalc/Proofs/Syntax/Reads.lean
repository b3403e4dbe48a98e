import Mathlib.Data.Nat.Notation
import Mathlib.Tactic.Lemma
import SignalCalc.Syntax.Cursor

/-!
# What parsers read

`p.Reads P front rest` says that a parser reads exactly `front` where `rest` follows, and that its
result meets `P`; `p.Fails text` says that it reads nothing at the start of `text`; `p.Lands text C`
says where it stops if it does read something.  All three are about text alone, not about lines and
columns.  There is one lemma for each way to put parsers together.

Alternatives are ordered, so reading the second one needs a proof that the first one fails; and a
repetition reads as long as it can, so its end needs a proof that one more reading fails.
-/

namespace SignalCalc.Syntax.Parser

variable {α β : Type}

/-- The parser reads `front` and no more of the text, with a result that meets a condition. -/
def Reads (p : Parser α) (P : α → Prop) (front rest : List Char) : Prop :=
  ∀ c : Cursor, c.rest = front ++ rest → ∃ a later, p c = some (a, later) ∧ P a ∧ later.rest = rest

/-- The parser reads nothing here. -/
def Fails (p : Parser α) (text : List Char) : Prop := ∀ c : Cursor, c.rest = text → p c = none

/-- If the parser reads something here, it stops at a text that meets a condition. -/
def Lands (p : Parser α) (text : List Char) (C : List Char → Prop) : Prop :=
  ∀ c : Cursor, c.rest = text → ∀ a later, p c = some (a, later) → C later.rest

lemma run_bind_of_some {p : Parser α} {f : α → Parser β} {c later : Cursor} {a : α}
    (h : p c = some (a, later)) : (p >>= f) c = f a later := by
  show (p c >>= fun r => f r.1 r.2) = _
  rw [h]
  rfl

lemma run_bind_of_none {p : Parser α} {f : α → Parser β} {c : Cursor} (h : p c = none) :
    (p >>= f) c = none := by
  show (p c >>= fun r => f r.1 r.2) = _
  rw [h]
  rfl

lemma run_orElse (p q : Parser α) (c : Cursor) :
    (p <|> q) c = match p c with
      | some r => some r
      | none => q c := by
  show (p c <|> q c) = _
  cases p c <;> rfl

variable {P P' : α → Prop} {Q : β → Prop} {p p' : Parser α} {f : α → Parser β}
  {u v front rest text : List Char}

/-! ## One thing after the other -/

namespace Reads

lemma mono (h : p.Reads P front rest) (hP : ∀ a, P a → P' a) : p.Reads P' front rest := by
  intro c hc
  obtain ⟨a, later, hrun, ha, hlater⟩ := h c hc
  exact ⟨a, later, hrun, hP a ha, hlater⟩

lemma pure {a : α} (h : P a) : Reads (Pure.pure a) P [] rest := fun c hc => ⟨a, c, rfl, h, hc⟩

lemma bind (hp : p.Reads P u (v ++ rest)) (hf : ∀ a, P a → (f a).Reads Q v rest) :
    (p >>= f).Reads Q (u ++ v) rest := by
  intro c hc
  obtain ⟨a, middle, hrun, ha, hmiddle⟩ := hp c (hc.trans (List.append_assoc u v rest))
  obtain ⟨b, later, hrun', hb, hlater⟩ := hf a ha middle hmiddle
  exact ⟨b, later, (run_bind_of_some hrun).trans hrun', hb, hlater⟩

/-- The second part reads nothing more. -/
lemma bind_nil (hp : p.Reads P front rest) (hf : ∀ a, P a → (f a).Reads Q [] rest) :
    (p >>= f).Reads Q front rest := by
  intro c hc
  obtain ⟨a, middle, hrun, ha, hmiddle⟩ := hp c hc
  obtain ⟨b, later, hrun', hb, hlater⟩ := hf a ha middle hmiddle
  exact ⟨b, later, (run_bind_of_some hrun).trans hrun', hb, hlater⟩

lemma seqRight {q : Parser β} (hp : p.Reads P u (v ++ rest)) (hq : q.Reads Q v rest) :
    (p *> q).Reads Q (u ++ v) rest :=
  bind hp fun _ _ => hq

end Reads

lemma Fails.bind (hp : p.Fails text) : (p >>= f).Fails text := fun c hc =>
  run_bind_of_none (hp c hc)

lemma Fails.seqRight {q : Parser β} (hp : p.Fails text) : (p *> q).Fails text := hp.bind

/-! ## Where a parser stops -/

section Lands

variable {C D : List Char → Prop}

lemma Reads.lands (hp : p.Reads P front rest) : p.Lands (front ++ rest) (· = rest) := by
  intro c hc a later hrun
  obtain ⟨a', later', hrun', -, hlater⟩ := hp c hc
  rw [hrun'] at hrun
  obtain ⟨-, rfl⟩ := Prod.mk.inj (Option.some.inj hrun)
  exact hlater

lemma Fails.lands (hp : p.Fails text) : p.Lands text C := by
  intro c hc a later hrun
  rw [hp c hc] at hrun
  cases hrun

lemma Lands.mono (hp : p.Lands text C) (hC : ∀ after, C after → D after) : p.Lands text D :=
  fun c hc a later hrun => hC _ (hp c hc a later hrun)

lemma Lands.pure {a : α} (h : C text) : Lands (Pure.pure a) text C := by
  intro c hc a' later hrun
  obtain ⟨-, rfl⟩ := Prod.mk.inj (Option.some.inj hrun)
  exact hc ▸ h

lemma Lands.bind (hp : p.Lands text C) (hf : ∀ a mid, C mid → (f a).Lands mid D) :
    (p >>= f).Lands text D := by
  intro c hc b later hrun
  cases hfirst : p c with
  | none =>
    rw [run_bind_of_none hfirst] at hrun
    cases hrun
  | some r =>
    rw [run_bind_of_some hfirst] at hrun
    exact hf r.1 _ (hp c hc r.1 r.2 hfirst) r.2 rfl b later hrun

lemma Lands.bind_fails (hp : p.Lands text C) (hf : ∀ a mid, C mid → (f a).Fails mid) :
    (p >>= f).Fails text := by
  intro c hc
  cases hfirst : p c with
  | none => exact run_bind_of_none hfirst
  | some r =>
    exact (run_bind_of_some hfirst).trans (hf r.1 _ (hp c hc r.1 r.2 hfirst) r.2 rfl)

lemma Lands.maybe (h : C text) (hp : p.Lands text C) : (maybe p).Lands text C := by
  intro c hc a later hrun
  rw [Parser.maybe] at hrun
  cases hfirst : p c with
  | none =>
    rw [hfirst] at hrun
    obtain ⟨-, rfl⟩ := Prod.mk.inj (Option.some.inj hrun)
    exact hc ▸ h
  | some r =>
    rw [hfirst] at hrun
    obtain ⟨-, rfl⟩ := Prod.mk.inj (Option.some.inj hrun)
    exact hp c hc r.1 r.2 hfirst

/-- A repetition stops before its first reading, or where it stops after that. -/
lemma Lands.many (h : C text) (hp : p.Lands text fun mid => (many p).Lands mid C) :
    (many p).Lands text C := by
  intro c hc as later hrun
  have hlater : (manyFrom p c).2 = later := congrArg Prod.snd (Option.some.inj hrun)
  rw [← hlater, manyFrom]
  cases hfirst : p c with
  | none => exact hc ▸ h
  | some r =>
    simp only
    split
    · exact hp c hc r.1 r.2 hfirst r.2 rfl _ _ rfl
    · exact hc ▸ h

end Lands

/-! ## Scanners and places -/

lemma Reads.scan {scanner : List Char → Option (List Char)}
    (h : scanner (front ++ rest) = some rest) :
    (scan scanner).Reads (fun _ => True) front rest := by
  intro c hc
  refine ⟨(), c.moveTo rest, ?_, trivial, Cursor.rest_moveTo (hc ▸ List.suffix_append front rest)⟩
  exact scan_eq_some.2 ⟨rest, hc ▸ h, rfl⟩

lemma Fails.scan {scanner : List Char → Option (List Char)} (h : scanner text = none) :
    (scan scanner).Fails text := by
  intro c hc
  show (scanner c.rest).map _ = none
  rw [hc, h]
  rfl

lemma Reads.skip {layout : List Char → List Char} (h : layout (front ++ rest) = rest) :
    (skip layout).Reads (fun _ => True) front rest := by
  intro c hc
  have hlayout : layout c.rest = rest := hc ▸ h
  refine ⟨(), c.moveTo rest, ?_, trivial, Cursor.rest_moveTo (hc ▸ List.suffix_append front rest)⟩
  show some ((), c.moveTo (layout c.rest)) = _
  rw [hlayout]

/-- The place of what was read holds its text. -/
lemma Reads.located {tag : String} (hp : p.Reads P front rest) :
    (located tag p).Reads
      (fun r => P r.2 ∧ r.1.text = some (String.ofList front)) front rest := by
  intro c hc
  obtain ⟨a, later, hrun, ha, hlater⟩ := hp c hc
  refine ⟨(c.locationTo later tag, a), later, located_eq_some.2 ⟨hrun, rfl⟩, ⟨ha, ?_⟩, hlater⟩
  show some (c.textTo later) = _
  rw [Cursor.textTo_append (hlater ▸ hc)]

lemma Fails.located {tag : String} (hp : p.Fails text) : (located tag p).Fails text := by
  intro c hc
  unfold Parser.located
  rw [hp c hc]

/-! ## Alternatives -/

lemma Reads.orElse_left (hp : p.Reads P front rest) : (p <|> p').Reads P front rest := by
  intro c hc
  obtain ⟨a, later, hrun, h⟩ := hp c hc
  exact ⟨a, later, by rw [run_orElse, hrun], h⟩

lemma Reads.orElse_right (hp : p.Fails (front ++ rest)) (hp' : p'.Reads P front rest) :
    (p <|> p').Reads P front rest := by
  intro c hc
  obtain ⟨a, later, hrun, h⟩ := hp' c hc
  exact ⟨a, later, by rw [run_orElse, hp c hc, hrun], h⟩

lemma Fails.orElse (hp : p.Fails text) (hp' : p'.Fails text) : (p <|> p').Fails text := by
  intro c hc
  rw [run_orElse, hp c hc, hp' c hc]

lemma Reads.maybe_some (hp : p.Reads P front rest) :
    (maybe p).Reads (fun r => ∃ a, r = some a ∧ P a) front rest := by
  intro c hc
  obtain ⟨a, later, hrun, ha, hlater⟩ := hp c hc
  exact ⟨some a, later, by rw [maybe, hrun], ⟨a, rfl, ha⟩, hlater⟩

lemma Reads.maybe_none (hp : p.Fails rest) : (maybe p).Reads (· = none) [] rest := by
  intro c hc
  exact ⟨none, c, by rw [maybe, hp c hc], rfl, hc⟩

/-! ## Repetitions -/

lemma manyFrom_of_none {c : Cursor} (h : p c = none) : manyFrom p c = ([], c) := by
  rw [manyFrom, h]

lemma manyFrom_of_some {c later : Cursor} {a : α} (h : p c = some (a, later))
    (hlt : later.rest.length < c.rest.length) :
    manyFrom p c = (a :: (manyFrom p later).1, (manyFrom p later).2) := by
  rw [manyFrom, h]
  simp only [if_pos hlt]

lemma Reads.many_nil (hp : p.Fails rest) : (many p).Reads (· = []) [] rest := by
  intro c hc
  exact ⟨[], c, congrArg some (manyFrom_of_none (hp c hc)), rfl, hc⟩

lemma Reads.many_cons {R : List α → Prop} (hu : u ≠ []) (hp : p.Reads P u (v ++ rest))
    (hmany : (many p).Reads R v rest) :
    (many p).Reads (fun xs => ∃ a as, xs = a :: as ∧ P a ∧ R as) (u ++ v) rest := by
  intro c hc
  obtain ⟨a, middle, hrun, ha, hmiddle⟩ := hp c (hc.trans (List.append_assoc u v rest))
  obtain ⟨as, later, hrest, has, hlater⟩ := hmany middle hmiddle
  refine ⟨a :: as, later, ?_, ⟨a, as, rfl, ha, has⟩, hlater⟩
  have hshorter : middle.rest.length < c.rest.length := by
    have hpos := List.length_pos_iff.2 hu
    simp only [hmiddle, hc, List.length_append]
    omega
  have hfrom : manyFrom p middle = (as, later) := Option.some.inj hrest
  show some (manyFrom p c) = _
  rw [manyFrom_of_some hrun hshorter, hfrom]

end SignalCalc.Syntax.Parser
