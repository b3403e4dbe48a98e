import SignalCalc.Proofs.Call.Related

/-!
# Paired calls

`Signature.bind_of_related` follows two calls as long as they fit.  Calls whose arguments the parameters
take and refuse alike end alike in every case: both give slots that belong together, or both fail for the
same reason (`Signature.bind_paired`).
-/

namespace SignalCalc.Call

open List

variable {ε ε' α β γ δ : Type}

/-- Two computations that both succeed, with related results, or both fail, with related errors. -/
def Paired (E : ε → ε' → Prop) (R : α → β → Prop) : Except ε α → Except ε' β → Prop
  | .ok a, .ok b => R a b
  | .error e, .error e' => E e e'
  | _, _ => False

namespace Paired

variable {E : ε → ε' → Prop} {R : α → β → Prop} {S : γ → δ → Prop}

lemma bind {x : Except ε α} {y : Except ε' β} {f : α → Except ε γ} {g : β → Except ε' δ}
    (h : Paired E R x y) (hfg : ∀ a b, R a b → Paired E S (f a) (g b)) :
    Paired E S (x >>= f) (y >>= g) := by
  cases x with
  | ok a =>
    cases y with
    | ok b => exact hfg a b h
    | error => exact h.elim
  | error e =>
    cases y with
    | ok => exact h.elim
    | error => exact h

/-- A row of computations, one for each of two related inputs. -/
lemma mapM {f : α → Except ε γ} {g : β → Except ε' δ} {xs : List α} {ys : List β}
    (hxs : Forall₂ R xs ys) (hfg : ∀ a b, R a b → Paired E S (f a) (g b)) :
    Paired E (Forall₂ S) (xs.mapM f) (ys.mapM g) := by
  induction hxs with
  | nil => exact .nil
  | cons hxy _ ih =>
    rw [mapM_cons, mapM_cons]
    exact (hfg _ _ hxy).bind fun c d hcd => ih.bind fun cs ds hcds => Forall₂.cons hcd hcds

/-- A run over two related rows of inputs that keeps the states related. -/
lemma foldlM {f : γ → α → Except ε γ} {g : δ → β → Except ε' δ} {xs : List α} {ys : List β}
    (hxs : Forall₂ R xs ys) (hfg : ∀ s t a b, S s t → R a b → Paired E S (f s a) (g t b)) {s : γ}
    {t : δ} (hst : S s t) : Paired E S (xs.foldlM f s) (ys.foldlM g t) := by
  induction hxs generalizing s t with
  | nil => exact hst
  | cons hxy _ ih =>
    rw [foldlM_cons, foldlM_cons]
    exact (hfg s t _ _ hst hxy).bind fun s' t' hst' => ih hst'

end Paired

/-- Rows that are related by what comes of them run to the same end. -/
lemma mapM_eq_of_forall₂ {f : α → Except ε γ} {g : β → Except ε γ} {as : List α} {bs : List β}
    (h : Forall₂ (fun a b => f a = g b) as bs) : as.mapM f = bs.mapM g := by
  induction h with
  | nil => rfl
  | cons hfirst _ ih => rw [mapM_cons, mapM_cons, hfirst, ih]

lemma zip_related {R : α → β → Prop} {S : γ → δ → Prop} {as : List α} {bs : List β} {cs : List γ}
    {ds : List δ} (h : Forall₂ R as bs) (h' : Forall₂ S cs ds) :
    Forall₂ (fun x y => R x.1 y.1 ∧ S x.2 y.2) (as.zip cs) (bs.zip ds) := by
  induction h generalizing cs ds with
  | nil => exact .nil
  | cons hfirst _ ih =>
    cases h' with
    | nil => exact .nil
    | cons hfirst' hrest' => exact .cons ⟨hfirst, hfirst'⟩ (ih hrest')

/-- The same names are given. -/
lemma any_name_eq_of_related {R : β → γ → Prop} {named : List (String × β)}
    {named' : List (String × γ)} (h : Forall₂ (NamedRelated R) named named') (name : String) :
    named.any (·.1 == name) = named'.any (·.1 == name) := by
  induction h with
  | nil => rfl
  | cons hxy _ ih => rw [any_cons, any_cons, ih, hxy.1]

/-- The same reason why arguments do not fit. -/
inductive BindError.Related (R : β → γ → Prop) : BindError β → BindError γ → Prop where
  | arity (expected found : ℕ) : Related R (.arity expected found) (.arity expected found)
  | unknownName (name : String) : Related R (.unknownName name) (.unknownName name)
  | secondValue (name : String) : Related R (.secondValue name) (.secondValue name)
  | wrongKind {b : β} {c : γ} : R b c → Related R (.wrongKind b) (.wrongKind c)
  | tooLarge : Related R .tooLarge .tooLarge

namespace Signature

variable {R : β → γ → Prop} {s : Signature β} {t : Signature γ}
  {accept : Kind → β → Except Refusal β} {accept' : Kind → γ → Except Refusal γ}

lemma place_paired (h : Forall₂ (Parameter.Related R) s.params t.params) {bs : List (Option β)}
    {cs : List (Option γ)} (hslots : Forall₂ (Option.Rel R) bs cs) {x : String × β}
    {y : String × γ} (hxy : NamedRelated R x y) :
    Paired (BindError.Related R) (Forall₂ (Option.Rel R)) (s.place bs x) (t.place cs y) := by
  unfold place
  rw [hxy.1, index?_eq_of_related h]
  cases t.index? y.1 with
  | none => exact .unknownName _
  | some i =>
    simp only [isSome_getD_of_related hslots i]
    split
    · exact BindError.Related.secondValue _
    · exact forall₂_set hslots (.some hxy.2) i

lemma requiredCount_eq_of_related (h : Forall₂ (Parameter.Related R) s.params t.params) :
    s.requiredCount = t.requiredCount := by
  unfold requiredCount
  generalize s.params = ps at h ⊢
  generalize t.params = qs at h ⊢
  induction h with
  | nil => rfl
  | @cons p q _ _ hpq _ ih =>
    have hrequired : p.required = q.required := by
      have hdefault := hpq.default
      unfold Parameter.required
      generalize p.default = v, q.default = w at hdefault ⊢
      cases hdefault <;> rfl
    rw [countP_cons, countP_cons, ih, hrequired]

lemma settle_paired {p : Parameter β} {q : Parameter γ} (hpq : p.Related R q)
    (hrequired : s.requiredCount = t.requiredCount)
    (haccept : ∀ b c, R b c → Paired Eq R (accept p.kind b) (accept' p.kind c)) (found : ℕ)
    {b : Option β} {c : Option γ} (hbc : Option.Rel R b c) :
    Paired (BindError.Related R) R (s.settle accept found p b) (t.settle accept' found q c) := by
  have hvalue : Option.Rel R (b.or p.default) (c.or q.default) := by
    cases hbc with
    | some hbc => exact .some hbc
    | none => exact hpq.default
  unfold settle
  rw [← hpq.kind, hrequired]
  generalize b.or p.default = v, c.or q.default = w at hvalue ⊢
  cases hvalue with
  | none => exact .arity _ _
  | @some v w hvw =>
    have hends := haccept v w hvw
    dsimp only
    generalize accept p.kind v = r, accept' p.kind w = r' at hends ⊢
    cases r with
    | ok b =>
      cases r' with
      | ok c => exact hends
      | error => exact hends.elim
    | error e =>
      cases r' with
      | ok => exact hends.elim
      | error e' =>
        obtain rfl : e = e' := hends
        cases e with
        | wrongKind => exact .wrongKind hvw
        | tooLarge => exact .tooLarge

/-- **Calls end alike.**  If the parameters take and refuse related arguments alike, then two calls with
such arguments both fit, and their slots are related, or both fail for the same reason. -/
theorem bind_paired (h : Forall₂ (Parameter.Related R) s.params t.params)
    (haccept : ∀ kind b c, R b c → Paired Eq R (accept kind b) (accept' kind c)) {xs : List β}
    {ys : List γ} (hxs : Forall₂ R xs ys) {named : List (String × β)} {named' : List (String × γ)}
    (hnamed : Forall₂ (NamedRelated R) named named') :
    Paired (BindError.Related R) (Forall₂ R) (s.bind accept xs named)
      (t.bind accept' ys named') := by
  unfold Signature.bind
  rw [arity_eq_of_related h, hxs.length_eq, hnamed.length_eq]
  by_cases hcount : ys.length + named'.length > t.arity
  · simp only [if_pos hcount]
    exact BindError.Related.arity _ _
  · simp only [if_neg hcount]
    refine Paired.bind (Paired.foldlM hnamed (fun _ _ _ _ hslots hxy => place_paired h hslots hxy)
      (positionalSlots_related h hxs)) fun bs cs hslots => ?_
    exact Paired.mapM (zip_related h hslots) fun _ _ hxy =>
      settle_paired hxy.1 (requiredCount_eq_of_related h) (haccept _) _ hxy.2

end Signature

end SignalCalc.Call
