import Mathlib.Data.List.Forall2
import Mathlib.Tactic.Lemma
import SignalCalc.Call.Signature

/-!
# Related calls

`Signature.bind` never looks into a value: it counts, compares names and asks the parameters.
So two calls whose arguments are related one by one are bound alike.  `Signature.bind_of_related`
says this for any relation that the parameters respect: where the first call binds, the second one
binds too, and their slots are related.

Values and their streams, values and their samples, values and their shifts are all instances of
such a relation, so no later proof opens the binding again.
-/

namespace SignalCalc.Call

open List

variable {ε ε' α β γ δ : Type}

/-- Where the first computation succeeds, the second one does too, with a related result. -/
def Leads (R : α → β → Prop) (x : Except ε α) (y : Except ε' β) : Prop :=
  ∀ a, x = .ok a → ∃ b, y = .ok b ∧ R a b

namespace Leads

variable {R : α → β → Prop}

lemma ok {a : α} {b : β} (h : R a b) : Leads R (.ok a : Except ε α) (.ok b : Except ε' β) := by
  intro a' ha
  obtain rfl := Except.ok.inj ha
  exact ⟨b, rfl, h⟩

lemma error (e : ε) (y : Except ε' β) : Leads R (.error e : Except ε α) y := by
  intro a ha
  cases ha

lemma imp {S : α → β → Prop} {x : Except ε α} {y : Except ε' β} (h : Leads R x y)
    (hRS : ∀ a b, R a b → S a b) : Leads S x y := by
  intro a ha
  obtain ⟨b, hb, hab⟩ := h a ha
  exact ⟨b, hb, hRS a b hab⟩

lemma bind {S : γ → δ → Prop} {x : Except ε α} {y : Except ε' β} {f : α → Except ε γ}
    {g : β → Except ε' δ} (h : Leads R x y) (hfg : ∀ a b, R a b → Leads S (f a) (g b)) :
    Leads S (x >>= f) (y >>= g) := by
  intro c hc
  obtain ⟨a, ha, hfa⟩ := Signature.bind_eq_ok_iff.1 hc
  obtain ⟨b, hb, hab⟩ := h a ha
  obtain ⟨d, hd, hcd⟩ := hfg a b hab c hfa
  exact ⟨d, Signature.bind_eq_ok_iff.2 ⟨b, hb, hd⟩, hcd⟩

/-- A row of computations, one for each of two related inputs. -/
lemma mapM {S : γ → δ → Prop} {f : α → Except ε γ} {g : β → Except ε' δ} {xs : List α}
    {ys : List β} (hxs : Forall₂ R xs ys) (hfg : ∀ a b, R a b → Leads S (f a) (g b)) :
    Leads (Forall₂ S) (xs.mapM f) (ys.mapM g) := by
  induction hxs with
  | nil => exact ok .nil
  | cons hxy _ ih =>
    simp only [List.mapM_cons]
    refine (hfg _ _ hxy).bind fun c d hcd => ih.bind fun cs ds hcds => ?_
    exact ok (.cons hcd hcds)

/-- Computations that all succeed, each with a result that belongs to one of `xs`. -/
lemma exists_mapM {f : γ → Except ε β} {xs : List α} {zs : List γ}
    (h : Forall₂ (fun x z => ∃ y, f z = .ok y ∧ R x y) xs zs) :
    ∃ ys, zs.mapM f = .ok ys ∧ Forall₂ R xs ys := by
  induction h with
  | nil => exact ⟨[], rfl, .nil⟩
  | cons hz _ ih =>
    obtain ⟨y, hy, hxy⟩ := hz
    obtain ⟨ys, hys, hxys⟩ := ih
    exact ⟨y :: ys, by simp only [List.mapM_cons, hy, hys]; rfl, .cons hxy hxys⟩

lemma exists_mapM_of_forall {f : α → Except ε β} {xs : List α}
    (h : ∀ x ∈ xs, ∃ y, f x = .ok y) : ∃ ys, xs.mapM f = .ok ys := by
  have hrelated : Forall₂ (fun (_ : α) x => ∃ y, f x = .ok y ∧ True) xs xs :=
    forall₂_same.2 fun x hx => by
      obtain ⟨y, hy⟩ := h x hx
      exact ⟨y, hy, trivial⟩
  obtain ⟨ys, hys, -⟩ := exists_mapM hrelated
  exact ⟨ys, hys⟩

/-- A run over two related rows of inputs that keeps the states related. -/
lemma foldlM {S : γ → δ → Prop} {f : γ → α → Except ε γ} {g : δ → β → Except ε' δ}
    {xs : List α} {ys : List β} (hxs : Forall₂ R xs ys)
    (hfg : ∀ s t a b, S s t → R a b → Leads S (f s a) (g t b)) {s : γ} {t : δ} (hst : S s t) :
    Leads S (xs.foldlM f s) (ys.foldlM g t) := by
  induction hxs generalizing s t with
  | nil => exact ok hst
  | cons hxy _ ih =>
    simp only [List.foldlM_cons]
    exact (hfg s t _ _ hst hxy).bind fun s' t' hst' => ih hst'

end Leads

/-- Both computations succeed, with related results, or both of them fail. -/
def Agree (R : α → β → Prop) (x : Except ε α) (y : Except ε' β) : Prop :=
  Leads R x y ∧ Leads (flip R) y x

namespace Agree

variable {R : α → β → Prop}

lemma ok {a : α} {b : β} (h : R a b) : Agree R (.ok a : Except ε α) (.ok b : Except ε' β) :=
  ⟨Leads.ok h, Leads.ok h⟩

lemma error (e : ε) (e' : ε') : Agree R (.error e : Except ε α) (.error e' : Except ε' β) :=
  ⟨Leads.error e _, Leads.error e' _⟩

lemma imp {S : α → β → Prop} {x : Except ε α} {y : Except ε' β} (h : Agree R x y)
    (hRS : ∀ a b, R a b → S a b) : Agree S x y :=
  ⟨h.1.imp hRS, h.2.imp fun b a => hRS a b⟩

lemma bind {S : γ → δ → Prop} {x : Except ε α} {y : Except ε' β} {f : α → Except ε γ}
    {g : β → Except ε' δ} (h : Agree R x y) (hfg : ∀ a b, R a b → Agree S (f a) (g b)) :
    Agree S (x >>= f) (y >>= g) :=
  ⟨h.1.bind fun a b hab => (hfg a b hab).1, h.2.bind fun b a hab => (hfg a b hab).2⟩

lemma cases {x : Except ε α} {y : Except ε' β} (h : Agree R x y) :
    (∃ a b, x = .ok a ∧ y = .ok b ∧ R a b) ∨ ∃ e e', x = .error e ∧ y = .error e' := by
  cases x with
  | ok a =>
    obtain ⟨b, hb, hab⟩ := h.1 a rfl
    exact .inl ⟨a, b, rfl, hb, hab⟩
  | error e =>
    cases y with
    | ok b =>
      obtain ⟨a, ha, -⟩ := h.2 b rfl
      cases ha
    | error e' => exact .inr ⟨e, e', rfl, rfl⟩

lemma map {S : γ → δ → Prop} {x : Except ε α} {y : Except ε' β} {f : α → γ} {g : β → δ}
    (h : Agree R x y) (hfg : ∀ a b, R a b → S (f a) (g b)) : Agree S (f <$> x) (g <$> y) := by
  rw [map_eq_pure_bind, map_eq_pure_bind]
  exact h.bind fun a b hab => ok (hfg a b hab)

lemma mapM {S : γ → δ → Prop} {f : α → Except ε γ} {g : β → Except ε' δ} {xs : List α}
    {ys : List β} (hxs : Forall₂ R xs ys) (hfg : ∀ a b, R a b → Agree S (f a) (g b)) :
    Agree (Forall₂ S) (xs.mapM f) (ys.mapM g) := by
  refine ⟨Leads.mapM hxs fun a b hab => (hfg a b hab).1, fun ds hds => ?_⟩
  have hback : Leads (Forall₂ (flip S)) (ys.mapM g) (xs.mapM f) :=
    Leads.mapM (R := flip R) hxs.flip fun b a hab => (hfg a b hab).2
  obtain ⟨cs, hcs, hrel⟩ := hback ds hds
  exact ⟨cs, hcs, hrel.flip⟩

end Agree

/-! ## Signatures over related values -/

/-- Two parameters of one name and kind, whose defaults are related. -/
structure Parameter.Related (R : β → γ → Prop) (p : Parameter β) (q : Parameter γ) : Prop where
  name : p.name = q.name
  kind : p.kind = q.kind
  default : Option.Rel R p.default q.default

lemma Parameter.Related.flip {R : β → γ → Prop} {p : Parameter β} {q : Parameter γ}
    (h : p.Related R q) : q.Related (flip R) p := by
  have hdefault := h.default
  refine ⟨h.name.symm, h.kind.symm, ?_⟩
  generalize p.default = v, q.default = w at hdefault ⊢
  cases hdefault with
  | some hvw => exact .some hvw
  | none => exact .none

/-- Two named values of one name. -/
def NamedRelated (R : β → γ → Prop) (x : String × β) (y : String × γ) : Prop :=
  x.1 = y.1 ∧ R x.2 y.2

section Labelled

variable {R : β → γ → Prop} {label : β → Option String} {label' : γ → Option String} {bs : List β}
  {cs : List γ}

/-- Related values with the same labels are given by position alike. -/
lemma filter_related (hlabel : ∀ b c, R b c → label b = label' c) (h : Forall₂ R bs cs) :
    Forall₂ R (bs.filter fun b => (label b).isNone) (cs.filter fun c => (label' c).isNone) := by
  refine List.rel_filter (fun b c hbc => ?_) h
  simp only [hlabel b c hbc]

/-- Related values with the same labels are given by name alike. -/
lemma filterMap_related (hlabel : ∀ b c, R b c → label b = label' c) (h : Forall₂ R bs cs) :
    Forall₂ (NamedRelated R) (bs.filterMap fun b => (label b).map fun name => (name, b))
      (cs.filterMap fun c => (label' c).map fun name => (name, c)) := by
  refine List.rel_filterMap (fun b c hbc => ?_) h
  rw [hlabel b c hbc]
  cases label' c with
  | none => exact .none
  | some name => exact .some ⟨rfl, hbc⟩

end Labelled

/-- Rows that are related by what is made of them are mapped to the same row. -/
lemma map_eq_of_forall₂ {f : γ → δ} {g : β → δ} {bs : List β} {cs : List γ}
    (h : Forall₂ (fun b c => f c = g b) bs cs) : cs.map f = bs.map g := by
  induction h with
  | nil => rfl
  | cons hfirst _ ih => rw [map_cons, map_cons, hfirst, ih]

lemma forall₂_replicate {R : β → γ → Prop} {b : β} {c : γ} (h : R b c) (n : ℕ) :
    Forall₂ R (List.replicate n b) (List.replicate n c) := by
  induction n with
  | zero => exact .nil
  | succ n ih => exact .cons h ih

lemma forall₂_set {R : β → γ → Prop} {bs : List β} {cs : List γ} (hs : Forall₂ R bs cs) {b : β}
    {c : γ} (h : R b c) (i : ℕ) : Forall₂ R (bs.set i b) (cs.set i c) := by
  induction hs generalizing i with
  | nil => exact .nil
  | cons hbc htail ih =>
    cases i with
    | zero => exact .cons h htail
    | succ i => exact .cons hbc (ih i)

lemma isSome_getD_of_related {R : β → γ → Prop} {bs : List (Option β)} {cs : List (Option γ)}
    (h : Forall₂ (Option.Rel R) bs cs) (i : ℕ) :
    (bs.getD i none).isSome = (cs.getD i none).isSome := by
  induction h generalizing i with
  | nil => rfl
  | cons hbc _ ih =>
    cases i with
    | zero => cases hbc <;> rfl
    | succ i => simpa using ih i

namespace Signature

variable {R S : β → γ → Prop} {s : Signature β} {t : Signature γ}

lemma arity_eq_of_related (h : Forall₂ (Parameter.Related R) s.params t.params) :
    s.arity = t.arity :=
  h.length_eq

lemma index?_eq_of_related (h : Forall₂ (Parameter.Related R) s.params t.params)
    (name : String) : s.index? name = t.index? name := by
  unfold index?
  generalize s.params = ps at h ⊢
  generalize t.params = qs at h ⊢
  induction h with
  | nil => rfl
  | cons hpq _ ih => simp [List.findIdx?_cons, hpq.name, ih]

lemma positionalSlots_related (h : Forall₂ (Parameter.Related R) s.params t.params)
    {xs : List β} {ys : List γ} (hxs : Forall₂ R xs ys) :
    Forall₂ (Option.Rel R) (s.positionalSlots xs) (t.positionalSlots ys) := by
  unfold positionalSlots
  rw [arity_eq_of_related h, hxs.length_eq]
  refine List.rel_append ?_ (forall₂_replicate .none _)
  exact List.rel_map (fun _ _ hab => .some hab) hxs

lemma place_related (h : Forall₂ (Parameter.Related R) s.params t.params)
    {bs : List (Option β)} {cs : List (Option γ)} (hslots : Forall₂ (Option.Rel R) bs cs)
    {x : String × β} {y : String × γ} (hxy : NamedRelated R x y) :
    Leads (Forall₂ (Option.Rel R)) (s.place bs x) (t.place cs y) := by
  unfold place
  rw [hxy.1, index?_eq_of_related h]
  cases t.index? y.1 with
  | none => exact Leads.error _ _
  | some i =>
    simp only [isSome_getD_of_related hslots i]
    split
    · exact Leads.error _ _
    · exact Leads.ok (forall₂_set hslots (.some hxy.2) i)

lemma settle_related {accept : Kind → β → Except Refusal β} {accept' : Kind → γ → Except Refusal γ}
    {p : Parameter β} {q : Parameter γ} (hpq : Parameter.Related R p q)
    (haccept : ∀ b c, R b c → Leads S (accept p.kind b) (accept' p.kind c)) (found : ℕ)
    {b : Option β} {c : Option γ} (hbc : Option.Rel R b c) :
    Leads S (s.settle accept found p b) (t.settle accept' found q c) := by
  have hvalue : Option.Rel R (b.or p.default) (c.or q.default) := by
    cases hbc with
    | some hbc => exact .some hbc
    | none => exact hpq.default
  unfold settle
  rw [← hpq.kind]
  generalize b.or p.default = v, c.or q.default = w at hvalue ⊢
  cases hvalue with
  | none => exact Leads.error _ _
  | @some v w hvw =>
    intro b' hb'
    cases hv : accept p.kind v with
    | error e => cases e <;> simp [hv] at hb'
    | ok v' =>
      obtain ⟨w', hw', hvw'⟩ := haccept v w hvw v' hv
      simp only [hv, Except.ok.injEq] at hb'
      exact ⟨w', by simp [hw'], hb' ▸ hvw'⟩

/-- Calls with related arguments are bound alike.  What the parameters make of related arguments
may be related in another way. -/
theorem bind_of_related (h : Forall₂ (Parameter.Related R) s.params t.params)
    {accept : Kind → β → Except Refusal β} {accept' : Kind → γ → Except Refusal γ}
    (haccept : ∀ p ∈ s.params, ∀ b c, R b c → Leads S (accept p.kind b) (accept' p.kind c))
    {xs : List β} {ys : List γ} (hxs : Forall₂ R xs ys) {named : List (String × β)}
    {named' : List (String × γ)} (hnamed : Forall₂ (NamedRelated R) named named') :
    Leads (Forall₂ S) (s.bind accept xs named) (t.bind accept' ys named') := by
  unfold Signature.bind
  rw [arity_eq_of_related h, hxs.length_eq, hnamed.length_eq]
  by_cases hcount : ys.length + named'.length > t.arity
  · simp only [if_pos hcount]
    exact Leads.error _ _
  · simp only [if_neg hcount]
    refine Leads.bind (Leads.foldlM hnamed (fun _ _ _ _ hslots hxy => place_related h hslots hxy)
      (positionalSlots_related h hxs)) fun bs cs hslots => ?_
    have hzip : Forall₂ (fun x y => x.1 ∈ s.params ∧ Parameter.Related R x.1 y.1 ∧
        Option.Rel R x.2 y.2) (s.params.zip bs) (t.params.zip cs) := by
      suffices hsome : ∀ all ps qs, Forall₂ (Parameter.Related R) ps qs → ps ⊆ all →
          Forall₂ (fun x y => x.1 ∈ all ∧ Parameter.Related R x.1 y.1 ∧ Option.Rel R x.2 y.2)
            (ps.zip bs) (qs.zip cs) from
        hsome s.params s.params t.params h (List.Subset.refl _)
      intro all ps qs hpqs hall
      induction hpqs generalizing bs cs with
      | nil => exact .nil
      | cons hpq _ ih =>
        cases hslots with
        | nil => exact .nil
        | cons hbc hrest =>
          have hsub := List.cons_subset.1 hall
          exact .cons ⟨hsub.1, hpq, hbc⟩ (ih _ _ hrest hsub.2)
    exact Leads.mapM hzip fun _ _ hxy => settle_related hxy.2.1 (haccept _ hxy.1) _ hxy.2.2

/-- Calls with related arguments both fit, or neither of them does. -/
theorem bind_agrees (h : Forall₂ (Parameter.Related R) s.params t.params)
    {accept : Kind → β → Except Refusal β} {accept' : Kind → γ → Except Refusal γ}
    (haccept : ∀ kind b c, R b c → Agree S (accept kind b) (accept' kind c))
    {xs : List β} {ys : List γ} (hxs : Forall₂ R xs ys) {named : List (String × β)}
    {named' : List (String × γ)} (hnamed : Forall₂ (NamedRelated R) named named') :
    Agree (Forall₂ S) (s.bind accept xs named) (t.bind accept' ys named') := by
  refine ⟨bind_of_related h (fun p _ b c hbc => (haccept p.kind b c hbc).1) hxs hnamed,
    fun cs hcs => ?_⟩
  have hparams : Forall₂ (Parameter.Related (flip R)) t.params s.params :=
    (h.imp fun _ _ hpq => hpq.flip).flip
  have hnamed' : Forall₂ (NamedRelated (flip R)) named' named :=
    (hnamed.imp fun x y (hxy : NamedRelated R x y) =>
      (⟨hxy.1.symm, hxy.2⟩ : NamedRelated (flip R) y x)).flip
  have hback : Leads (Forall₂ (flip S)) (t.bind accept' ys named') (s.bind accept xs named) :=
    bind_of_related hparams (fun p _ c b hbc => (haccept p.kind b c hbc).2) hxs.flip hnamed'
  obtain ⟨bs, hbs, hrel⟩ := hback cs hcs
  exact ⟨bs, hbs, hrel.flip⟩

end Signature

/-! ## Repeated names -/

/-- One step of `lastWins`: an entry takes the place of the one that has its name already. -/
def keepLast (kept : List (String × β)) (entry : String × β) : List (String × β) :=
  if kept.any (·.1 == entry.1) then kept.map fun old => if old.1 == entry.1 then entry else old
  else kept ++ [entry]

lemma lastWins_eq_foldl (entries : List (String × β)) :
    lastWins entries = entries.foldl keepLast [] := rfl

lemma keepLast_related {R : β → γ → Prop} {kept : List (String × β)} {kept' : List (String × γ)}
    (hkept : Forall₂ (NamedRelated R) kept kept') {x : String × β} {y : String × γ}
    (hxy : NamedRelated R x y) :
    Forall₂ (NamedRelated R) (keepLast kept x) (keepLast kept' y) := by
  have hany : kept.any (·.1 == x.1) = kept'.any (·.1 == y.1) := by
    induction hkept with
    | nil => rfl
    | cons hold _ ih =>
      rw [List.any_cons, List.any_cons, ih, hold.1, hxy.1]
  unfold keepLast
  rw [hany]
  split
  · refine List.rel_map (fun old old' hold => ?_) hkept
    rw [hold.1, hxy.1]
    split
    · exact hxy
    · exact hold
  · exact List.rel_append hkept (.cons hxy .nil)

lemma lastWins_related {R : β → γ → Prop} {named : List (String × β)} {named' : List (String × γ)}
    (h : Forall₂ (NamedRelated R) named named') :
    Forall₂ (NamedRelated R) (lastWins named) (lastWins named') := by
  rw [lastWins_eq_foldl, lastWins_eq_foldl]
  suffices hfold : ∀ kept kept', Forall₂ (NamedRelated R) kept kept' →
      Forall₂ (NamedRelated R) (named.foldl keepLast kept) (named'.foldl keepLast kept') from
    hfold [] [] .nil
  induction h with
  | nil => exact fun _ _ hkept => hkept
  | cons hxy _ ih => exact fun kept kept' hkept => ih _ _ (keepLast_related hkept hxy)

/-- Entries of different names are all kept. -/
lemma lastWins_eq_self {entries : List (String × β)} (h : (entries.map Prod.fst).Nodup) :
    lastWins entries = entries := by
  suffices hfold : ∀ kept : List (String × β), ((kept ++ entries).map Prod.fst).Nodup →
      entries.foldl keepLast kept = kept ++ entries from hfold [] h
  clear h
  induction entries with
  | nil => exact fun kept _ => (append_nil kept).symm
  | cons entry rest ih =>
    intro kept hnodup
    have hnew : kept.any (·.1 == entry.1) = false := by
      rw [map_append, map_cons, nodup_append] at hnodup
      refine any_eq_false.2 fun old hold hsame => ?_
      exact hnodup.2.2 old.1 (mem_map_of_mem hold) entry.1 mem_cons_self (beq_iff_eq.1 hsame)
    rw [foldl_cons, keepLast, hnew, if_neg Bool.false_ne_true, ih]
    · rw [append_assoc, singleton_append]
    · rwa [append_assoc, singleton_append]

namespace Signature

variable {s : Signature β}

lemma place_eq_ok {slots after : List (Option β)} {entry : String × β}
    (h : s.place slots entry = .ok after) :
    ∃ i, s.index? entry.1 = some i ∧ (slots.getD i none).isSome = false ∧
      after = slots.set i (some entry.2) := by
  unfold place at h
  split at h
  · cases h
  · rename_i i hi
    split at h
    · cases h
    · exact ⟨i, hi, Bool.eq_false_iff.2 ‹_›, (Except.ok.inj h).symm⟩

lemma index?_lt_arity {name : String} {i : ℕ} (h : s.index? name = some i) : i < s.arity :=
  (findIdx?_eq_some_iff_findIdx_eq.1 h).1

/-- A slot that is taken stays taken, so its name does not come again. -/
lemma not_named_of_taken {slots after : List (Option β)} {named : List (String × β)}
    (h : named.foldlM s.place slots = .ok after) {name : String} {i : ℕ}
    (hi : s.index? name = some i) (htaken : (slots.getD i none).isSome = true) :
    ∀ entry ∈ named, entry.1 ≠ name := by
  induction named generalizing slots with
  | nil => exact forall_mem_nil _
  | cons entry rest ih =>
    rw [foldlM_cons, bind_eq_ok_iff] at h
    obtain ⟨next, hnext, hrest⟩ := h
    obtain ⟨j, hj, hfree, rfl⟩ := place_eq_ok hnext
    have hij : i ≠ j := by
      rintro rfl
      rw [htaken] at hfree
      cases hfree
    refine forall_mem_cons.2 ⟨?_, ih hrest ?_⟩
    · rintro rfl
      exact hij (Option.some.inj (hi.symm.trans hj))
    · rw [getD_eq_getElem?_getD, getElem?_set_ne (Ne.symm hij), ← getD_eq_getElem?_getD]
      exact htaken

/-- A call that fits gives no name twice. -/
theorem names_nodup_of_bind {accept : Kind → β → Except Refusal β} {positional values : List β}
    {named : List (String × β)} (h : s.bind accept positional named = .ok values) :
    (named.map Prod.fst).Nodup := by
  unfold Signature.bind at h
  by_cases hcount : positional.length + named.length > s.arity
  · rw [if_pos hcount] at h
    cases h
  rw [if_neg hcount] at h
  obtain ⟨slots, hslots, -⟩ := bind_eq_ok_iff.1 h
  have hlength : (s.positionalSlots positional).length = s.arity :=
    s.length_positionalSlots (by omega)
  clear h hcount
  generalize s.positionalSlots positional = start at hslots hlength
  induction named generalizing start with
  | nil => exact nodup_nil
  | cons entry rest ih =>
    rw [foldlM_cons, bind_eq_ok_iff] at hslots
    obtain ⟨next, hnext, hrest⟩ := hslots
    have hlength' := (length_place hnext).trans hlength
    obtain ⟨i, hi, -, rfl⟩ := place_eq_ok hnext
    have htaken : ((start.set i (some entry.2)).getD i none).isSome = true := by
      have hlt : i < start.length := hlength ▸ index?_lt_arity hi
      rw [getD_eq_getElem?_getD, getElem?_set_self hlt]
      rfl
    refine nodup_cons.2 ⟨fun hmem => ?_, ih _ hrest hlength'⟩
    obtain ⟨other, hother, hname⟩ := mem_map.1 hmem
    exact not_named_of_taken hrest hi htaken other hother hname

end Signature

end SignalCalc.Call
