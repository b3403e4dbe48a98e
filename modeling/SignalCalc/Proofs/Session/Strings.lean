import SignalCalc.Proofs.Session.Kept

/-!
# Strings of a session

A string literal holds neither a quote nor the end of a line, and programs make new strings only by
joining others.  So no string that comes up in a session does (`Computes.isQuotable`), however it went
through names, functions and arguments.
-/

namespace SignalCalc

open SignalCalc.Syntax
open SignalCalc.Evaluation

/-- A string can stand between quotes, and a function of a program is made of words of program text. -/
def Value.IsQuotable : Value → Prop
  | .string text => Token.IsQuotable text.toList
  | .function (.user f) => f.body.IsWithin Node.HasWords
  | _ => True

lemma Value.IsInert.isQuotable {v : Value} (h : v.IsInert) : v.IsQuotable := by
  cases v with
  | string text => exact h.elim
  | function f =>
    cases f with
    | user f => exact h.elim
    | real | constructor => trivial
  | _ => trivial

lemma Evaluation.isQuotable_lasting : Lasting Node.HasWords Value.IsQuotable where
  inert h := h.isQuotable
  literal h := h
  append {a b} ha hb := by
    show Token.IsQuotable (a ++ b).toList
    rw [String.toList_append]
    exact List.forall_mem_append.2 ⟨ha, hb⟩
  user := Iff.rfl

namespace Session

variable {s : Session} {source : String} {v : Value}

lemma readsWithin_hasWords (source : String) : ReadsWithin Node.HasWords source :=
  fun _ h statement hmem part hpart =>
    ((isReadStatement_of_parse h statement hmem).2.parts part hpart).1

lemma Reached.all_isQuotable (h : s.Reached) : s.machine.store.All Value.IsQuotable :=
  h.keeps isQuotable_lasting readsWithin_hasWords

lemma isQuotable_of_handle (hs : s.Reached) (h : .value v ∈ (s.handle source).1) :
    v.IsQuotable := by
  rcases (handle_keeps isQuotable_lasting hs.all_isQuotable (readsWithin_hasWords source)).2 _ h with
    hkept | ⟨e, he, -⟩
  · exact hkept
  · cases he

lemma isQuotable_of_evaluate (hs : s.Reached) (h : (s.evaluate source).1 = .ok v) :
    v.IsQuotable :=
  (evaluate_keeps isQuotable_lasting hs.all_isQuotable (readsWithin_hasWords source)).2 v h

/-- **No string holds a quote or the end of a line**, neither a result nor one that is made on the
way. -/
theorem Computes.isQuotable (hs : s.Reached) (h : s.Computes source v) : v.IsQuotable :=
  h.isKept isQuotable_lasting hs.all_isQuotable (readsWithin_hasWords source)

end Session

end SignalCalc
