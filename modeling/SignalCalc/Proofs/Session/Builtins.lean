import Mathlib.Tactic.Lemma
import SignalCalc.Session.Basic

/-!
# The built-in names of a session

A new session knows the built-in functions by their names, and the prelude binds none of these
names again (`start_knowsBuiltins`).  That is a fact about one text, so it is decided by running it.
-/

namespace SignalCalc

open SignalCalc.Builtin
open SignalCalc.Syntax

/-- Every built-in function has its name. -/
structure Store.KnowsBuiltins (store : Store) : Prop where
  constructors (c : Constructor) :
    store.lookup? Store.root c.name = some (.function (.constructor c))
  realFunctions (f : RealFunction) : store.lookup? Store.root f.name = some (.function (.real f))

/-- The name of this constructor is bound to it. -/
def Store.bindsConstructor (store : Store) (c : Constructor) : Bool :=
  match store.lookup? Store.root c.name with
  | some (.function (.constructor d)) => d == c
  | _ => false

/-- The name of this real function is bound to it. -/
def Store.bindsRealFunction (store : Store) (f : RealFunction) : Bool :=
  match store.lookup? Store.root f.name with
  | some (.function (.real g)) => g == f
  | _ => false

lemma Store.knowsBuiltins_of_all {store : Store}
    (h : (Constructor.all.all store.bindsConstructor &&
      RealFunction.all.all store.bindsRealFunction) = true) : store.KnowsBuiltins := by
  rw [Bool.and_eq_true, List.all_eq_true, List.all_eq_true] at h
  constructor
  · intro c
    have hc := h.1 c (by cases c <;> decide)
    unfold Store.bindsConstructor at hc
    split at hc
    · rename_i d heq
      rw [heq, beq_iff_eq.1 hc]
    · cases hc
  · intro f
    have hf := h.2 f (by cases f <;> decide)
    unfold Store.bindsRealFunction at hf
    split at hf
    · rename_i g heq
      rw [heq, beq_iff_eq.1 hf]
    · cases hf

namespace Session

/-- The scopes of a new session after it has run a text. -/
def storeAfter (text : List Char) : Store :=
  match Grammar.program ⟨text, 1, 1⟩ with
  | some (statements, ⟨[], _, _⟩) => (runUntilFailure bare.cleared .nothing statements).2.store
  | _ => bare.machine.store

lemma store_evaluate (source : String) :
    (⟨(bare.evaluate source).2.cleared⟩ : Session).machine.store = storeAfter source.toList := by
  show (bare.evaluate source).2.machine.store = storeAfter source.toList
  unfold evaluate parse storeAfter Cursor.start
  rcases Grammar.program ⟨source.toList, 1, 1⟩ with _ | ⟨statements, _ | ⟨c, rest⟩, line, col⟩
  · rfl
  · dsimp only
    rcases runUntilFailure bare.cleared .nothing statements with ⟨_ | v, m⟩ <;> rfl
  · rfl

/-- The built-in functions still have their names after a text. -/
def keepsBuiltins (text : List Char) : Bool :=
  Constructor.all.all (storeAfter text).bindsConstructor &&
    RealFunction.all.all (storeAfter text).bindsRealFunction

set_option maxRecDepth 8000 in
lemma keepsBuiltins_prelude : keepsBuiltins prelude.toList = true := by
  -- The kernel is slow on long strings, so the text is made a list of characters first.
  simp only [prelude, String.intercalate_cons_cons, String.intercalate_singleton,
    String.toList_append, String.reduceToList]
  decide +kernel

/-- **New sessions know the built-in functions**, whether they have run the prelude or not. -/
theorem start_knowsBuiltins (withPrelude : Bool) :
    (start withPrelude).machine.store.KnowsBuiltins := by
  cases withPrelude with
  | false => exact Store.knowsBuiltins_of_all (by decide +kernel)
  | true =>
    have hkeeps := Store.knowsBuiltins_of_all keepsBuiltins_prelude
    rw [start, if_pos rfl, fresh, store_evaluate]
    exact hkeeps

end Session

end SignalCalc
