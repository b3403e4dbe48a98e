import SignalCalc.Proofs.Session.Executed
import SignalCalc.Proofs.Syntax.Parsed
import SignalCalc.Session.Report

/-!
# What source texts end in

A session is `Reached` if nothing but source texts brought it about.  Its machine is orderly: the
built-in names are bound to computed values, and what is read from a text is a program.  So a text
that is run in it ends in values of the language, in errors of the program, or for want of depth
(`handle_ordinary`), and every sound that comes out can be played (`handle_playable`).
-/

namespace SignalCalc

open SignalCalc.Builtin
open SignalCalc.Call
open SignalCalc.Signal
open SignalCalc.Syntax
open SignalCalc.Evaluation
open List

namespace Session

/-- The session came about by source texts alone. -/
inductive Reached : Session → Prop where
  | start (withPrelude : Bool) : Reached (start withPrelude)
  | handle {s : Session} (source : String) : Reached s → Reached (s.handle source).2
  | evaluate {s : Session} (source : String) : Reached s → Reached (s.evaluate source).2

lemma isComputed_of_mem_builtins {entry : String × Value} (h : entry ∈ builtins) :
    entry.2.IsComputed := by
  rcases mem_append.1 h with h | h
  · rcases mem_append.1 h with h | h
    · obtain ⟨c, -, rfl⟩ := mem_map.1 h
      exact trivial
    · obtain ⟨f, -, rfl⟩ := mem_map.1 h
      exact trivial
  · simp only [mem_cons, not_mem_nil, or_false] at h
    rcases h with rfl | rfl | rfl | rfl <;> exact trivial

lemma isOrderly_bare : bare.machine.IsOrderly where
  values := by
    intro scope hscope entry hentry
    obtain rfl := Array.mem_singleton.1 hscope
    exact isComputed_of_mem_builtins hentry
  arguments := forall_mem_nil _
  root := ⟨builtins, rfl⟩

variable {s : Session} {source : String}

lemma isOrderly_cleared (h : s.machine.IsOrderly) : s.cleared.IsOrderly :=
  ⟨h.values, forall_mem_nil _, h.root⟩

lemma isOrderly_opened (h : s.machine.IsOrderly) : s.opened.IsOrderly :=
  ⟨h.values, h.arguments, h.root⟩

lemma handle_isComputed (h : s.machine.IsOrderly) (source : String) :
    (s.handle source).2.machine.IsOrderly ∧ ∀ result ∈ (s.handle source).1,
      result.IsComputed ∨ ∃ e, result = .malformed e ∧ parse source = .error e := by
  have hopened := isOrderly_opened h
  cases hparse : parse source with
  | error e =>
    rw [handle_of_error hparse]
    exact ⟨hopened, forall_mem_singleton.2 (.inr ⟨e, rfl, rfl⟩)⟩
  | ok statements =>
    rw [handle_of_ok hparse]
    obtain ⟨hlast, hresults⟩ := runAll_isComputed (parse_isStatement hparse) hopened
    exact ⟨hlast, fun result hresult => .inl (hresults result hresult)⟩

lemma evaluate_isComputed (h : s.machine.IsOrderly) (source : String) :
    (s.evaluate source).2.machine.IsOrderly ∧
      ∀ v, (s.evaluate source).1 = .ok v → v.IsComputed ∨ v = .nothing := by
  have hcleared := isOrderly_cleared h
  unfold evaluate
  cases hparse : parse source with
  | error e => exact ⟨hcleared, nofun⟩
  | ok statements =>
    obtain ⟨hlast, hmeets⟩ :=
      runUntilFailure_isComputed (parse_isStatement hparse) hcleared (.inr rfl)
    dsimp only
    generalize runUntilFailure s.cleared .nothing statements = out at hlast hmeets
    obtain ⟨_ | v, m⟩ := out
    · exact ⟨hlast, nofun⟩
    · refine ⟨hlast, ?_⟩
      rintro _ ⟨⟩
      exact hmeets

/-- The prelude is a source text like any other, so it need not be run to know this. -/
lemma isOrderly_fresh : fresh.machine.IsOrderly :=
  isOrderly_cleared (evaluate_isComputed isOrderly_bare prelude).1

/-- Source texts leave the machine orderly. -/
theorem Reached.isOrderly (h : s.Reached) : s.machine.IsOrderly := by
  induction h with
  | start withPrelude =>
    cases withPrelude with
    | false => exact isOrderly_bare
    | true => exact isOrderly_fresh
  | handle source _ ih => exact (handle_isComputed ih source).1
  | evaluate source _ ih => exact (evaluate_isComputed ih source).1

/-- The function of a program that a name stands for. -/
def userFunction? (s : Session) (name : String) : Option UserFunction :=
  match s.lookup? name with
  | some (.function (.user f)) => some f
  | _ => none

lemma userFunction?_eq_some {name : String} {f : UserFunction} :
    s.userFunction? name = some f ↔ s.lookup? name = some (.function (.user f)) := by
  unfold userFunction?
  split
  · rename_i g hg
    rw [hg]
    simp
  · rename_i hnone
    exact ⟨nofun, fun h => (hnone f h).elim⟩

end Session

/-! ## Values and errors of the language -/

/-- The value is of one of the types of the language. -/
def Value.IsOfLanguage (v : Value) : Prop :=
  (∃ x, v = .real x) ∨ (∃ b, v = .bool b) ∨ (∃ text, v = .string text) ∨ (∃ s, v = .sound s) ∨
    ∃ f, v = .function f

lemma Value.IsComputed.isOfLanguage {v : Value} (h : v.IsComputed) : v.IsOfLanguage := by
  cases v with
  | real x => exact .inl ⟨x, rfl⟩
  | bool b => exact .inr (.inl ⟨b, rfl⟩)
  | string text => exact .inr (.inr (.inl ⟨text, rfl⟩))
  | sound s => exact .inr (.inr (.inr (.inl ⟨s, rfl⟩)))
  | function f => exact .inr (.inr (.inr (.inr ⟨f, rfl⟩)))
  | whole | nothing | list => exact h.elim

lemma Cause.IsOrdinary.title_ne {cause : Cause} (h : cause.IsOrdinary) :
    cause.title ≠ "InternalError" := by
  rcases h with h | rfl
  · cases cause with
    | notEvaluable | tooLarge | tooDeep => cases h
    | _ => simp [title]
  · simp [title]

namespace Report

lemma exists_frameText {frame : Frame} (h : ∀ v ∈ frame.args, v.IsComputed) :
    ∃ text, frameText frame = .ok text := by
  have hargument : ∀ v ∈ frame.args, ∃ text, argumentText v = .ok text := by
    intro v hv
    have hcomputed := h v hv
    cases v with
    | sound s | function f => exact ⟨_, rfl⟩
    | _ => exact hcomputed.exists_text
  obtain ⟨texts, htexts⟩ := Leads.exists_mapM_of_forall hargument
  unfold frameText
  rw [htexts]
  exact ⟨_, rfl⟩

/-- The result of a statement can be reported. -/
lemma exists_ofResult {result : Result} (h : result.IsComputed) (source : String) :
    ∃ report, ofResult source result = .ok report := by
  cases result with
  | malformed e => exact h.elim
  | value v =>
    obtain ⟨text, htext⟩ := Value.IsComputed.exists_text h
    refine ⟨.value v text, ?_⟩
    rw [ofResult, htext]
    rfl
  | failed cause node frames =>
    obtain ⟨texts, htexts⟩ := Leads.exists_mapM_of_forall fun frame hframe =>
      exists_frameText (h.2 frame (mem_reverse.1 hframe))
    rw [ofResult, ofFailure]
    split
    · exact ⟨_, rfl⟩
    · rw [stackText, htexts]
      exact ⟨_, rfl⟩

end Report

namespace Session

variable {s : Session}

/-- **Nothing but values and errors of the language comes out.**  Every result of a source text that
is run in a session which source texts alone have brought about is a value of one of the types of
the language, an error of the program or the end of the depth, or tells that the text is no program;
and it can be reported. -/
theorem handle_ordinary (hs : s.Reached) (source : String) :
    ∀ result ∈ (s.handle source).1,
      (match result with
        | .value v => v.IsOfLanguage
        | .failed cause _ _ => (cause.isLanguageError = true ∨ cause = .tooDeep) ∧
            cause.title ≠ "InternalError"
        | .malformed e => parse source = .error e) ∧
      ∃ report, Report.ofResult source result = .ok report := by
  intro result hresult
  rcases (handle_isComputed hs.isOrderly source).2 result hresult with hcomputed | ⟨e, rfl, hparse⟩
  · refine ⟨?_, Report.exists_ofResult hcomputed source⟩
    cases result with
    | value v => exact Value.IsComputed.isOfLanguage hcomputed
    | failed cause node frames => exact ⟨hcomputed.1, hcomputed.1.title_ne⟩
    | malformed e => exact hcomputed.elim
  · exact ⟨hparse, _, rfl⟩

/-- A session with a function that needs a name which is not bound yet. -/
def unboundCall : Session := ((start false).handle "f(x) = x + y").2

theorem handle_ordinary_unbound :
    unboundCall.Reached ∧ (unboundCall.handle "f(1); y = Sin(2); f(y)").1.length = 3 ∧
      ∀ result ∈ (unboundCall.handle "f(1); y = Sin(2); f(y)").1,
        (match result with
          | .value v => v.IsOfLanguage
          | .failed cause _ _ => (cause.isLanguageError = true ∨ cause = .tooDeep) ∧
              cause.title ≠ "InternalError"
          | .malformed e => parse "f(1); y = Sin(2); f(y)" = .error e) ∧
        ∃ report, Report.ofResult "f(1); y = Sin(2); f(y)" result = .ok report := by
  have hreached : unboundCall.Reached := .handle _ (.start false)
  have hlength : (unboundCall.handle "f(1); y = Sin(2); f(y)").1.length = 3 := by
    decide +kernel
  exact ⟨hreached, hlength, handle_ordinary hreached _⟩

/-- **Every sound that comes out can be played.**  A sound that a source text ends in, moved in time
or not, can be played at every rate. -/
theorem handle_playable (hs : s.Reached) {source : String} {v : Sound Float}
    (hv : .value (.sound v) ∈ (s.handle source).1 ∨ (s.evaluate source).1 = .ok (.sound v))
    {w : Sound Float} (hw : w = v ∨ ∃ t, w = v.shift t) (rate : Float) : w.IsPlayable rate := by
  have hbuilt : v.IsBuilt := by
    rcases hv with hv | hv
    · rcases (handle_isComputed hs.isOrderly source).2 _ hv with hcomputed | ⟨e, he, -⟩
      · exact hcomputed
      · cases he
    · rcases (evaluate_isComputed hs.isOrderly source).2 _ hv with hcomputed | hnothing
      · exact hcomputed
      · cases hnothing
  rcases hw with rfl | ⟨t, rfl⟩
  · exact hbuilt.isPlayable rate
  · exact (hbuilt.shift t).isPlayable rate

/-- The sound that is the result of a statement. -/
def sound? : Result → Option (Sound Float)
  | .value (.sound v) => some v
  | _ => none

lemma eq_of_sound? {result : Result} {v : Sound Float} (h : sound? result = some v) :
    result = .value (.sound v) := by
  unfold sound? at h
  split at h
  · rw [Option.some.inj h]
  · cases h

theorem handle_playable_raised :
    ∃ v : Sound Float,
      .value (.sound v) ∈ ((start false).handle "shift(-max(Linear(1, 0), b=2), 3)").1 ∧
        v.IsPlayable 0.0 ∧ (v.shift 0.5).IsPlayable 0.0 := by
  have hsound : (((start false).handle "shift(-max(Linear(1, 0), b=2), 3)").1.any fun result =>
      (sound? result).isSome) = true := by
    decide +kernel
  obtain ⟨result, hmem, hresult⟩ := any_eq_true.1 hsound
  obtain ⟨v, hv⟩ := Option.isSome_iff_exists.1 hresult
  rw [eq_of_sound? hv] at hmem
  exact ⟨v, hmem, handle_playable (.start false) (.inl hmem) (.inl rfl) 0.0,
    handle_playable (.start false) (.inl hmem) (.inr ⟨0.5, rfl⟩) 0.0⟩

end Session

end SignalCalc
