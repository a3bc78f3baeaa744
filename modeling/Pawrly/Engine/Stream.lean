import Mathlib.Tactic.Common
import Mathlib.Algebra.GroupWithZero.Nat
import Mathlib.Data.Nat.Notation
import Mathlib.Data.Int.Notation

/-!
# Result streams of queries

The instrumented result stream of a query: it counts the rows that flow to the consumer, ends early
on cancellation, and finalizes the metrics, the completion slot and the cancel registry of its query
when it ends or is dropped.
-/

namespace Pawrly
namespace Engine

/-- The errors of a result stream: the engine cancels it, or the query fails. -/
inductive EngineError
  | cancelled
  | internal (message : String)
  deriving DecidableEq

def EngineError.code : EngineError → String
  | cancelled => "PAWRLY_CANCELLED"
  | internal _ => "PAWRLY_INTERNAL"

inductive Status
  | ok
  | error
  deriving DecidableEq

/-- Terminal metadata of a query. -/
structure QueryCompleted where
  rowsReturned : ℕ
  truncated : Bool
  deriving DecidableEq

/-- What a finished query adds to the metrics. -/
structure QueryTotal where
  status : Status
  errorCode : Option String
  deriving DecidableEq

/-- An entry of the activity log: its id and the parts that the end of the query decides. -/
structure ActivityRecord where
  id : String
  status : Status
  errorCode : Option String
  rowsReturned : Option ℕ
  deriving DecidableEq

/-- What queries share with the engine: the count of active queries, the ids that can be cancelled,
the completion slot of the query, the metrics and the activity log. -/
structure Shared where
  active : ℤ
  cancellations : List String
  completion : Option QueryCompleted
  totals : List QueryTotal
  rowsHistogram : List ℕ
  activity : List ActivityRecord

/-- Tracks one query in flight. -/
structure QueryGuard where
  rows : ℕ
  status : Status
  errorCode : Option String
  activity : Option String
  cancel : Option String
  hasCompletion : Bool

namespace QueryGuard

/-- The guard of a query: `start`, with its id in the cancel registry, a completion slot and, when
the activity log is on, a record to write. -/
def start (id : String) (activity : Option String) : QueryGuard where
  rows := 0
  status := .error
  errorCode := none
  activity := activity
  cancel := some id
  hasCompletion := true

def markOk (g : QueryGuard) (rows : ℕ) : QueryGuard := { g with status := .ok, rows := rows }

def markError (g : QueryGuard) (e : EngineError) : QueryGuard := { g with errorCode := some e.code }

/-- `Drop`. -/
def drop (g : QueryGuard) (shared : Shared) : Shared where
  active := shared.active - 1
  totals := shared.totals ++ [⟨g.status, g.errorCode⟩]
  rowsHistogram :=
    if g.status = .ok then shared.rowsHistogram ++ [g.rows] else shared.rowsHistogram
  activity := shared.activity ++ (g.activity.map fun id =>
    { id := id, status := g.status, errorCode := g.errorCode
      rowsReturned := if g.status = .ok then some g.rows else none }).toList
  -- the slot is written once: a second `set` has no effect
  completion :=
    if g.hasCompletion then shared.completion.or (some ⟨g.rows, false⟩) else shared.completion
  cancellations := match g.cancel with
    | some id => shared.cancellations.filter (· ≠ id)
    | none => shared.cancellations

end QueryGuard

/-- The result of a poll. -/
inductive Polled (B : Type)
  | pending
  | batch (b : B)
  | error (e : EngineError)
  | ended

/-- The instrumented stream, without the stream inside it. -/
structure InstrumentedStream where
  guard : Option QueryGuard
  rows : ℕ := 0
  cancelEmitted : Bool := false

namespace InstrumentedStream

variable {B : Type} (numRows : B → ℕ)

/-- Drop the guard, if it is still there. -/
def finalize (s : InstrumentedStream) (shared : Shared) : Shared :=
  match s.guard with
  | some g => g.drop shared
  | none => shared

/-- `poll_next`.  `cancelled` is the value of the cancel flag, `inner` what a poll of the stream
inside gives. -/
def pollNext (s : InstrumentedStream) (shared : Shared) (cancelled : Bool) (inner : Polled B) :
    Shared × InstrumentedStream × Polled B :=
  if s.cancelEmitted then (s.finalize shared, { s with guard := none }, .ended)
  else if cancelled then
    (shared, { s with
      cancelEmitted := true, guard := s.guard.map (·.markError .cancelled) }, .error .cancelled)
  else
    match inner with
    | .batch b => (shared, { s with rows := s.rows + numRows b }, .batch b)
    | .error e => (shared, { s with guard := s.guard.map (·.markError e) }, .error e)
    | .ended =>
        match s.guard with
        | some g => ((g.markOk s.rows).drop shared, { s with guard := none }, .ended)
        | none => (shared, s, .ended)
    | .pending => (shared, s, .pending)

end InstrumentedStream

/-- What a consumer has seen of a stream, and what is shared after it dropped the stream. -/
structure Consumed (B : Type) where
  shared : Shared
  yielded : List (Except EngineError B)
  ended : Bool

/-- A consumer polls until the stream ends or the list is used up, and drops the stream.  Each poll
comes with the value of the cancel flag and the result of the stream inside. -/
def consume {B : Type} (numRows : B → ℕ) :
    List (Bool × Polled B) → InstrumentedStream → Shared → List (Except EngineError B) → Consumed B
  | [], s, shared, out => ⟨s.finalize shared, out, false⟩
  | (cancelled, inner) :: polls, s, shared, out =>
      match s.pollNext numRows shared cancelled inner with
      | (shared, s, .pending) => consume numRows polls s shared out
      | (shared, s, .batch b) => consume numRows polls s shared (out ++ [.ok b])
      | (shared, s, .error e) => consume numRows polls s shared (out ++ [.error e])
      | (shared, s, .ended) => ⟨s.finalize shared, out, true⟩

/-- The shared state after a query has started. -/
def Shared.started (shared : Shared) (id : String) : Shared :=
  { shared with
    active := shared.active + 1, cancellations := id :: shared.cancellations, completion := none }

/-- A query that gets as far as its result stream, consumed. -/
def runQuery {B : Type} (numRows : B → ℕ) (shared : Shared) (id : String) (activity : Option String)
    (polls : List (Bool × Polled B)) : Consumed B :=
  consume numRows polls { guard := some (QueryGuard.start id activity) } (shared.started id) []

end Engine
end Pawrly
