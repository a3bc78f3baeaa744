import Pawrly.Engine.Stream
import Mathlib.Algebra.BigOperators.Group.List.Basic

/-!
# The life of a query

A query that reaches its result stream is finalized exactly once, whatever the stream inside does,
whenever it is cancelled and wherever the consumer drops it.  What the final record says is right
for two kinds of runs only: the stream was read to its end without an error (`ReadToEnd`), or it was
left before its end and no row had flowed (`NoRows`).
-/

namespace Pawrly
namespace Engine

variable {B : Type} (numRows : B → ℕ)

/-! ## Runs -/

/-- The polls reach the end of the stream inside, with no cancellation and no error before it. -/
def ReadToEnd : List (Bool × Polled B) → Prop
  | [] => False
  | (true, _) :: _ => False
  | (false, .ended) :: _ => True
  | (false, .error _) :: _ => False
  | (false, .batch _) :: polls => ReadToEnd polls
  | (false, .pending) :: polls => ReadToEnd polls

/-- The polls stop before the end of the stream inside, by a cancellation or because the consumer
drops the stream, and no batch before has a row. -/
def NoRows : List (Bool × Polled B) → Prop
  | [] => True
  | (true, _) :: _ => True
  | (false, .ended) :: _ => False
  | (false, .error _) :: polls => NoRows polls
  | (false, .batch b) :: polls => numRows b = 0 ∧ NoRows polls
  | (false, .pending) :: polls => NoRows polls

/-- The rows of the yielded batches. -/
def yieldedRows (out : List (Except EngineError B)) : ℕ :=
  (out.map fun item => match item with
    | .ok b => numRows b
    | .error _ => 0).sum

/-- An error was yielded. -/
def Failed (out : List (Except EngineError B)) : Prop := ∃ e, .error e ∈ out

/-- The right end of a query: finalized once, its record tells what the consumer saw, and nothing is
left of it in the registry and in the count of active queries. -/
structure Lifecycle (shared : Shared) (c : Consumed B) : Prop where
  rows : c.shared.completion = some ⟨yieldedRows numRows c.yielded, false⟩
  total : ∃ t, c.shared.totals = shared.totals ++ [t] ∧
    (t.status = .ok ↔ c.ended = true ∧ ¬ Failed c.yielded) ∧
    (t.errorCode.isSome ↔ t.status = .error ∧ Failed c.yielded)
  cancellations : c.shared.cancellations = shared.cancellations
  active : c.shared.active = shared.active

/-! ## What one run records -/

@[simp] lemma yieldedRows_nil : yieldedRows numRows [] = 0 := rfl

@[simp] lemma yieldedRows_ok (b : B) (out : List (Except EngineError B)) :
    yieldedRows numRows (.ok b :: out) = numRows b + yieldedRows numRows out := by
  simp [yieldedRows]

@[simp] lemma yieldedRows_error (e : EngineError) (out : List (Except EngineError B)) :
    yieldedRows numRows (.error e :: out) = yieldedRows numRows out := by
  simp [yieldedRows]

@[simp] lemma not_failed_nil : ¬ Failed ([] : List (Except EngineError B)) := by
  simp [Failed]

@[simp] lemma failed_ok (b : B) (out : List (Except EngineError B)) :
    Failed (.ok b :: out) ↔ Failed out := by
  simp [Failed]

@[simp] lemma failed_error (e : EngineError) (out : List (Except EngineError B)) :
    Failed (.error e :: out) := by
  simp [Failed]

/-- How a run ends, from a state whose guard is there: which items it yields further, and what the
guard has when it is dropped. -/
structure Ending (g : QueryGuard) (rows : ℕ) (polls : List (Bool × Polled B))
    (last : QueryGuard) (out : List (Except EngineError B)) (ended : Bool) : Prop where
  same : last.cancel = g.cancel ∧ last.hasCompletion = g.hasCompletion
  code : last.errorCode.isSome ↔ g.errorCode.isSome ∨ Failed out
  ok : last.status = .ok → ended = true ∧ last.rows = rows + yieldedRows numRows out
  error : last.status = .error → last.rows = 0 ∧ (ended = true → Failed out)
  readToEnd : ReadToEnd polls ↔ last.status = .ok ∧ ¬ Failed out
  noRows : NoRows numRows polls ↔ last.status = .error ∧ yieldedRows numRows out = 0

variable {numRows}

lemma Ending.batch {g last : QueryGuard} {rows : ℕ} {b : B} {polls : List (Bool × Polled B)}
    {out : List (Except EngineError B)} {ended : Bool}
    (h : Ending numRows g (rows + numRows b) polls last out ended) :
    Ending numRows g rows ((false, .batch b) :: polls) last (.ok b :: out) ended where
  same := h.same
  code := by simpa using h.code
  ok := fun hok => ⟨(h.ok hok).1, by rw [(h.ok hok).2, yieldedRows_ok, Nat.add_assoc]⟩
  error := by simpa using h.error
  readToEnd := by simpa [ReadToEnd] using h.readToEnd
  noRows := by
    rw [NoRows, h.noRows, yieldedRows_ok, Nat.add_eq_zero_iff]
    tauto

/-- After an error the record can no longer be right when the end is reached. -/
lemma Ending.failed {g last : QueryGuard} {rows : ℕ} {e : EngineError}
    {polls : List (Bool × Polled B)} {out : List (Except EngineError B)} {ended : Bool}
    (h : Ending numRows (g.markError e) rows polls last out ended) :
    Ending numRows g rows ((false, .error e) :: polls) last (.error e :: out) ended where
  same := h.same
  code := by simpa [QueryGuard.markError] using h.code
  ok := by simpa using h.ok
  error := fun herr => ⟨(h.error herr).1, fun _ => failed_error e out⟩
  readToEnd := by simp [ReadToEnd]
  noRows := by simpa [NoRows] using h.noRows

variable (numRows)

/-- After the cancellation error the stream ends or is dropped. -/
lemma consume_cancelled (polls : List (Bool × Polled B)) (g : QueryGuard) (rows : ℕ)
    (shared : Shared) (out : List (Except EngineError B)) :
    ∃ ended, consume numRows polls { guard := some g, rows := rows, cancelEmitted := true } shared
      out = ⟨g.drop shared, out, ended⟩ := by
  cases polls with
  | nil => exact ⟨false, rfl⟩
  | cons p polls => exact ⟨true, rfl⟩

/-- Run: by induction on the polls, one case for each result of the stream inside. -/
theorem consume_ending (polls : List (Bool × Polled B)) (g : QueryGuard) (hstatus : g.status = .error)
    (hrows : g.rows = 0) (rows : ℕ) (shared : Shared) (out : List (Except EngineError B)) :
    ∃ last more ended, consume numRows polls { guard := some g, rows := rows } shared out =
        ⟨last.drop shared, out ++ more, ended⟩ ∧ Ending numRows g rows polls last more ended := by
  induction polls generalizing g rows out with
  | nil =>
      refine ⟨g, [], false, by simp [consume, InstrumentedStream.finalize], ⟨rfl, rfl⟩, ?_, ?_, ?_, ?_, ?_⟩
      · simp
      · simp [hstatus]
      · simp [hrows]
      · simp [ReadToEnd, hstatus]
      · simp [NoRows, hstatus]
  | cons p polls ih =>
      obtain ⟨cancelled, inner⟩ := p
      cases cancelled with
      | true =>
          obtain ⟨ended, hconsume⟩ := consume_cancelled numRows polls (g.markError .cancelled) rows
            shared (out ++ [.error .cancelled])
          refine ⟨g.markError .cancelled, [.error .cancelled], ended, hconsume, ⟨rfl, rfl⟩,
            ?_, ?_, ?_, ?_, ?_⟩
          · simp [QueryGuard.markError]
          · simp [QueryGuard.markError, hstatus]
          · simp [QueryGuard.markError, hrows]
          · simp [ReadToEnd]
          · simp [NoRows, QueryGuard.markError, hstatus]
      | false =>
          cases inner with
          | pending =>
              obtain ⟨last, more, ended, hconsume, hend⟩ := ih g hstatus hrows rows out
              exact ⟨last, more, ended, hconsume, hend.same, hend.code, hend.ok, hend.error,
                hend.readToEnd, hend.noRows⟩
          | batch b =>
              obtain ⟨last, more, ended, hconsume, hend⟩ :=
                ih g hstatus hrows (rows + numRows b) (out ++ [.ok b])
              rw [List.append_assoc] at hconsume
              exact ⟨last, .ok b :: more, ended, hconsume, hend.batch⟩
          | error e =>
              obtain ⟨last, more, ended, hconsume, hend⟩ :=
                ih (g.markError e) hstatus hrows rows (out ++ [.error e])
              rw [List.append_assoc] at hconsume
              exact ⟨last, .error e :: more, ended, hconsume, hend.failed⟩
          | ended =>
              refine ⟨g.markOk rows, [], true, ?_, ⟨rfl, rfl⟩, ?_, ?_, ?_, ?_, ?_⟩
              · simp [consume, InstrumentedStream.pollNext, InstrumentedStream.finalize]
              · simp [QueryGuard.markOk]
              · simp [QueryGuard.markOk]
              · simp [QueryGuard.markOk]
              · simp [ReadToEnd, QueryGuard.markOk]
              · simp [NoRows, QueryGuard.markOk]

/-- **Lifecycle.**  The record of a query is right exactly when its stream is read to the end without
a cancellation or an error, or is left before its end and had no row. -/
theorem lifecycle_iff (shared : Shared) (id : String) (hid : id ∉ shared.cancellations)
    (activity : Option String) (polls : List (Bool × Polled B)) :
    Lifecycle numRows shared (runQuery numRows shared id activity polls) ↔
      ReadToEnd polls ∨ NoRows numRows polls := by
  obtain ⟨last, out, ended, hconsume, hend⟩ := consume_ending numRows polls
    (QueryGuard.start id activity) rfl rfl 0 (shared.started id) []
  have hrun : runQuery numRows shared id activity polls =
      ⟨last.drop (shared.started id), out, ended⟩ := hconsume
  have hcode : last.errorCode.isSome ↔ Failed out := by
    simpa [QueryGuard.start] using hend.code
  have hcompletion : (last.drop (shared.started id)).completion = some ⟨last.rows, false⟩ := by
    simp [QueryGuard.drop, hend.same.2, QueryGuard.start, Shared.started]
  have htotals : (last.drop (shared.started id)).totals =
      shared.totals ++ [⟨last.status, last.errorCode⟩] := rfl
  have hcancellations : (last.drop (shared.started id)).cancellations = shared.cancellations := by
    have hfilter : shared.cancellations.filter (· ≠ id) = shared.cancellations :=
      List.filter_eq_self.mpr fun a ha => by simpa using fun h : a = id => hid (h ▸ ha)
    simpa [QueryGuard.drop, hend.same.1, QueryGuard.start, Shared.started] using hfilter
  have hactive : (last.drop (shared.started id)).active = shared.active := by
    simp [QueryGuard.drop, Shared.started]
  rw [hrun, hend.readToEnd, hend.noRows]
  cases hstatus : last.status with
  | ok =>
      obtain ⟨hended, hrows⟩ := hend.ok hstatus
      constructor
      · rintro ⟨-, ⟨t, ht, hok, -⟩, -, -⟩
        have hlast : t = ⟨last.status, last.errorCode⟩ := by simpa [htotals] using ht.symm
        rw [hlast] at hok
        exact .inl ⟨rfl, (hok.mp hstatus).2⟩
      · rintro (⟨-, hclean⟩ | ⟨h, -⟩)
        · refine ⟨by simp [hcompletion, hrows], ⟨_, htotals, ?_, ?_⟩, hcancellations, hactive⟩
          · simp [hstatus, hended, hclean]
          · simp [hstatus, hcode, hclean]
        · cases h
  | error =>
      obtain ⟨hrows, hfailed⟩ := hend.error hstatus
      constructor
      · rintro ⟨h, -, -, -⟩
        refine .inr ⟨rfl, ?_⟩
        have hcount := h.symm.trans hcompletion
        simpa [hrows] using hcount
      · rintro (⟨h, -⟩ | ⟨-, hnone⟩)
        · cases h
        · refine ⟨by simp [hcompletion, hrows, hnone], ⟨_, htotals, ?_, ?_⟩, hcancellations, hactive⟩
          · simp only [hstatus, reduceCtorEq, false_iff, not_and, not_not]
            exact hfailed
          · simp [hstatus, hcode]

/-- No query yet. -/
def idle : Shared where
  active := 0
  cancellations := []
  completion := none
  totals := []
  rowsHistogram := []
  activity := []

/-- Two batches, read to the end. -/
theorem twoBatches_lifecycle : Lifecycle (B := ℕ) (fun n => n) idle (runQuery (fun n => n) idle "q"
    (some "q") [(false, .batch 2), (false, .pending), (false, .batch 1), (false, .ended)]) :=
  (lifecycle_iff _ idle "q" (by simp [idle]) (some "q") _).mpr (.inl trivial)

/-- An error item and then the end: the record says `ok`, and still has an error code. -/
theorem errorThenEnd_fails : ¬ Lifecycle (B := ℕ) (fun n => n) idle (runQuery (fun n => n) idle "q"
    (some "q") [(false, .error (.internal "datafusion: boom")), (false, .ended)]) := by
  rintro ⟨-, ⟨t, ht, hok, -⟩, -, -⟩
  have hlast : t = ⟨.ok, some "PAWRLY_INTERNAL"⟩ := (List.cons.inj ht).1.symm
  rw [hlast] at hok
  exact (hok.mp rfl).2 ⟨_, List.mem_cons_self⟩

end Engine
end Pawrly
