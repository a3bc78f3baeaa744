import Pawrly.Engine.ErrorWire
import Pawrly.Semantic.QueryWire
import Mathlib.Algebra.GroupWithZero.Nat
import Mathlib.Data.Int.Notation

/-!
# An engine behind gRPC

`RemoteEngineClient` is an engine whose queries are run by another one: its request is sent as a message,
the service of `pawrly-server/src/services/query.rs` calls the engine with what it reads of it, and writes
the result as frames, of which the client builds a result again.

Over a connection that keeps the frames, a remote query is the query of the engine behind it
(`query_remote`, `semanticQuery_remote`); when the connection is lost on the way, what the client has got
is a first part of the result, and it is never taken for the whole (`query_lost`).  The Arrow encoding of a
batch is a parameter, as is the time that a query takes.
-/

namespace Pawrly
namespace Client
namespace Remote

open Engine.ErrorWire Semantic Semantic.QueryWire

/-! ## Requests -/

inductive Interface
  | inProcess
  | cli
  | grpc
  | mcp
  | flight
  deriving DecidableEq

structure RequestContext where
  interface : Interface := .inProcess
  principal : Option String := none
  traceparent : Option String := none

structure QueryRequest where
  sql : String
  params : List (String × String)
  timeout : Option Duration
  maxRows : ℕ
  traceId : Option String
  context : RequestContext := {}

structure WireQueryRequest where
  sql : String
  params : List (String × String)
  timeout : Option ProtoDuration
  maxRows : ℕ
  traceId : String

/-- A duration that does not fit is left out. -/
def durationToWire (d : Duration) : Option ProtoDuration :=
  if d.secs < 2 ^ 63 then some ⟨d.secs, d.nanos⟩ else none

lemma nanos_mod_lt (n : ℕ) : n % 10 ^ 9 < 10 ^ 9 := Nat.mod_lt n (by decide)

/-- `Duration::new`: whole seconds are carried over. -/
def durationNew (secs nanos : ℕ) : Duration := ⟨secs + nanos / 10 ^ 9, nanos % 10 ^ 9, nanos_mod_lt nanos⟩

def durationOfWire (d : ProtoDuration) : Option Duration :=
  if 0 ≤ d.seconds ∧ 0 ≤ d.nanos then some (durationNew d.seconds.toNat d.nanos.toNat) else none

/-- An empty text stands for none. -/
def nonEmpty (s : String) : Option String := if s = "" then none else some s

/-- `From<core::QueryRequest> for v1::QueryRequest`. -/
def requestToWire (req : QueryRequest) : WireQueryRequest where
  sql := req.sql
  params := req.params
  timeout := req.timeout.bind durationToWire
  maxRows := req.maxRows
  traceId := req.traceId.getD ""

/-- `From<v1::QueryRequest> for core::QueryRequest`. -/
def requestOfWire (req : WireQueryRequest) : QueryRequest where
  sql := req.sql
  params := req.params
  timeout := req.timeout.bind durationOfWire
  maxRows := req.maxRows
  traceId := nonEmpty req.traceId

/-! ## Results -/

structure QueryCompleted where
  rowsReturned : ℕ
  truncated : Bool
  elapsed : Duration

/-- `QueryHandle`: the id, what the result stream yields, and what the completion slot holds at its end. -/
structure QueryHandle (Batch : Type) where
  id : String
  items : List (Except EngineError Batch)
  completion : Option QueryCompleted

inductive Payload (Bytes : Type)
  | started (queryId : String)
  | ipcStream (bytes : Bytes)
  | completed (rowsReturned : ℕ) (elapsed : Option ProtoDuration) (truncated : Bool)
  | error (code message : String)

/-- What is received of a frame: its payload, if it has one that is known, or the status that ends the
response. -/
abbrev Frame (Bytes : Type) := Except Status (Option (Payload Bytes))

/-- The Arrow encoding of batches; `classic` has the view columns of a batch as plain ones. -/
structure Ipc (Batch Bytes : Type) where
  encode : Batch → Except String Bytes
  decode : Bytes → Except String (List Batch)
  classic : Batch → Batch
  numRows : Batch → ℕ

/-- A batch can be encoded, as one batch without views, whose rows are those of the batch. -/
structure Ipc.Lawful {Batch Bytes : Type} (ipc : Ipc Batch Bytes) : Prop where
  encode : ∀ b, ∃ bytes, ipc.encode b = .ok bytes ∧ ipc.decode bytes = .ok [ipc.classic b]
  classic_classic : ∀ b, ipc.classic (ipc.classic b) = ipc.classic b
  numRows_classic : ∀ b, ipc.numRows (ipc.classic b) = ipc.numRows b

/-- `Status::internal`. -/
def statusInternal (message : String) (errorCode : Option String) : Status := ⟨.internal, message, errorCode⟩

section

variable {Batch Bytes : Type} (ipc : Ipc Batch Bytes)

/-! ## The service -/

/-- `as i64`. -/
def asI64 (n : ℕ) : ℤ := if n % 2 ^ 64 < 2 ^ 63 then n % 2 ^ 64 else n % 2 ^ 64 - 2 ^ 64

/-- The frames behind the first, with the rows that have been sent. -/
def batchFrames (elapsed : Duration) (completion : Option QueryCompleted) :
    ℕ → List (Except EngineError Batch) → List (Frame Bytes)
  | rows, [] =>
      [.ok (some (.completed rows (some ⟨asI64 elapsed.secs, elapsed.nanos⟩)
        ((completion.map QueryCompleted.truncated).getD false)))]
  | rows, .ok batch :: items =>
      match ipc.encode batch with
      | .error e => [.error (statusInternal ("ipc encode: " ++ e) none)]
      | .ok bytes =>
          .ok (some (.ipcStream bytes)) :: batchFrames elapsed completion (rows + ipc.numRows batch) items
  | _, .error e :: _ =>
      [.ok (some (.error (((engineErrorToStatus e).errorCode.bind metadataValue).getD "PAWRLY_INTERNAL")
        e.display))]

/-- The response to a query, of the handle that the engine gives. -/
def queryFrames (elapsed : Duration) (handle : QueryHandle Batch) : List (Frame Bytes) :=
  .ok (some (.started handle.id)) :: batchFrames ipc elapsed handle.completion 0 handle.items

/-- `QuerySvc::query`. -/
def serveQuery (engine : QueryRequest → Except EngineError (QueryHandle Batch)) (elapsed : Duration)
    (traceparent : Option String) (req : WireQueryRequest) : Except Status (List (Frame Bytes)) :=
  match engine { requestOfWire req with context := ⟨.grpc, none, traceparent⟩ } with
  | .error e => .error (engineErrorToStatus e)
  | .ok handle => .ok (queryFrames ipc elapsed handle)

/-- `SemanticSvc::semantic_query`. -/
def serveSemanticQuery (engine : SemanticQuery → Except EngineError (QueryHandle Batch)) (elapsed : Duration)
    (req : SemanticQueryRequest) : Except Status (List (Frame Bytes)) :=
  match engine (ofRequest req) with
  | .error e => .error (engineErrorToStatus e)
  | .ok handle => .ok (queryFrames ipc elapsed handle)

/-! ## The client -/

/-- The error of an error frame. -/
def frameError (code message : String) : EngineError :=
  statusToEngineError (statusInternal message (metadataValue code))

/-- `proto_completed`. -/
def completedOfWire (rowsReturned : ℕ) (elapsed : Option ProtoDuration) (truncated : Bool) :
    QueryCompleted where
  rowsReturned := rowsReturned
  truncated := truncated
  elapsed := (elapsed.map fun d => durationNew d.seconds.toNat d.nanos.toNat).getD .zero

/-- `read_started_id`. -/
def readStartedId : List (Frame Bytes) → Except EngineError (String × List (Frame Bytes))
  | [] => .ok ("", [])
  | .error status :: _ => .error (statusToEngineError status)
  | .ok (some (.started id)) :: frames => .ok (id, frames)
  | .ok (some (.error code message)) :: _ => .error (frameError code message)
  | .ok _ :: _ => .error (.protocol "expected a Started frame first")

/-- The stream of the client, and what it puts into the completion slot, which is written once. -/
def clientStream : List (Frame Bytes) → List (Except EngineError Batch) × Option QueryCompleted
  | [] => ([], none)
  | .error status :: _ => ([.error (statusToEngineError status)], none)
  | .ok none :: frames | .ok (some (.started _)) :: frames => clientStream frames
  | .ok (some (.ipcStream bytes)) :: frames =>
      match ipc.decode bytes with
      | .error e => ([.error (.protocol ("ipc decode: " ++ e))], none)
      | .ok batches => (batches.map .ok ++ (clientStream frames).1, (clientStream frames).2)
  | .ok (some (.completed rows elapsed truncated)) :: frames =>
      ((clientStream frames).1, some (completedOfWire rows elapsed truncated))
  | .ok (some (.error code message)) :: _ => ([.error (frameError code message)], none)

/-- What `query` and `semantic_query` make of a response. -/
def readResponse (response : Except Status (List (Frame Bytes))) :
    Except EngineError (QueryHandle Batch) :=
  match response with
  | .error status => .error (statusToEngineError status)
  | .ok frames =>
      (readStartedId frames).map fun started =>
        ⟨started.1, (clientStream ipc started.2).1, (clientStream ipc started.2).2⟩

/-- The engine that a client is to a service of another engine. -/
def remoteQuery (engine : QueryRequest → Except EngineError (QueryHandle Batch)) (elapsed : Duration)
    (traceparent : Option String) (req : QueryRequest) : Except EngineError (QueryHandle Batch) :=
  readResponse ipc (serveQuery ipc engine elapsed traceparent (requestToWire req))

def remoteSemanticQuery (engine : SemanticQuery → Except EngineError (QueryHandle Batch))
    (elapsed : Duration) (q : SemanticQuery) : Except EngineError (QueryHandle Batch) :=
  readResponse ipc (serveSemanticQuery ipc engine elapsed (toRequest q))

/-- A connection on the way to an engine: how long a query takes behind it, and the trace that its request
belongs to. -/
structure Hop where
  elapsed : Duration
  traceparent : Option String

/-- An engine that is reached over connections, the first of which is the client's own. -/
def remoteEngine (engine : QueryRequest → Except EngineError (QueryHandle Batch)) :
    List Hop → QueryRequest → Except EngineError (QueryHandle Batch)
  | [] => engine
  | hop :: hops => remoteQuery ipc (remoteEngine engine hops) hop.elapsed hop.traceparent

def remoteSemanticEngine (engine : SemanticQuery → Except EngineError (QueryHandle Batch)) :
    List Hop → SemanticQuery → Except EngineError (QueryHandle Batch)
  | [] => engine
  | hop :: hops => remoteSemanticQuery ipc (remoteSemanticEngine engine hops) hop.elapsed

/-! ## What arrives -/

/-- The request that the engine gets: a timeout that does not fit is lost, and so is an empty trace id. -/
def arrived (traceparent : Option String) (req : QueryRequest) : QueryRequest :=
  { req with
    timeout := req.timeout.filter fun d => d.secs < 2 ^ 63
    traceId := req.traceId.bind nonEmpty
    context := ⟨.grpc, none, traceparent⟩ }

/-- What is left of a result: its batches without views, up to its first error, which comes back as errors
do. -/
def relay : List (Except EngineError Batch) → List (Except EngineError Batch)
  | [] => []
  | .ok b :: items => .ok (ipc.classic b) :: relay items
  | .error e :: _ => [.error (resent e)]

/-- The batches of a result. -/
def batches (items : List (Except EngineError Batch)) : List Batch := items.filterMap Except.toOption

/-- The handle that the client has: its completion counts the rows, unless the query failed. -/
def relayed (elapsed : Duration) (handle : QueryHandle Batch) : QueryHandle Batch where
  id := handle.id
  items := relay ipc handle.items
  completion :=
    if handle.items.all Except.isOk then
      some
        { rowsReturned := ((batches handle.items).map ipc.numRows).sum
          truncated := (handle.completion.map QueryCompleted.truncated).getD false
          elapsed := elapsed }
    else none

variable {ipc}

lemma durationNew_self (d : Duration) : durationNew d.secs d.nanos = d := by
  obtain ⟨secs, nanos, hnanos⟩ := d
  simp only [durationNew, Nat.div_eq_of_lt hnanos, Nat.mod_eq_of_lt hnanos, Nat.add_zero]

lemma durationOfWire_durationToWire (d : Duration) :
    (durationToWire d).bind durationOfWire = if d.secs < 2 ^ 63 then some d else none := by
  rw [durationToWire]
  split_ifs
  · rw [Option.bind_some, durationOfWire, if_pos ⟨Int.natCast_nonneg _, Int.natCast_nonneg _⟩,
      Int.toNat_natCast, Int.toNat_natCast, durationNew_self]
  · rfl

/-- The request is read as it was written. -/
lemma requestOfWire_requestToWire (req : QueryRequest) (traceparent : Option String) :
    { requestOfWire (requestToWire req) with context := ⟨.grpc, none, traceparent⟩ } =
      arrived traceparent req := by
  have htimeout : (req.timeout.bind durationToWire).bind durationOfWire =
      req.timeout.filter fun d => d.secs < 2 ^ 63 := by
    cases req.timeout with
    | none => rfl
    | some d =>
        rw [Option.bind_some, durationOfWire_durationToWire, Option.filter_some]
        simp only [decide_eq_true_eq]
  have htrace : nonEmpty (req.traceId.getD "") = req.traceId.bind nonEmpty := by
    cases req.traceId <;> rfl
  rw [requestOfWire, requestToWire, arrived]
  simp only [htimeout, htrace]

lemma frameError_resent (e : EngineError) :
    frameError (((engineErrorToStatus e).errorCode.bind metadataValue).getD "PAWRLY_INTERNAL") e.display =
      resent e := by
  have hcode : ((engineErrorToStatus e).errorCode.bind metadataValue).getD "PAWRLY_INTERNAL" = e.code := by
    rw [engineErrorToStatus]
    simp [metadataValue_code]
  rw [hcode, frameError, statusToEngineError, resent_eq]
  simp [statusInternal, metadataValue_code]

lemma asI64_of_lt {n : ℕ} (h : n < 2 ^ 63) : asI64 n = n := by
  have hmod : n % 2 ^ 64 = n := Nat.mod_eq_of_lt (by omega)
  have hcast : ((n % 2 ^ 64 : ℕ) : ℤ) = n := by rw [hmod]
  rw [asI64, hmod, if_pos h]
  omega

/-- The frames behind the first are read as what is left of the result. -/
lemma clientStream_batchFrames (hipc : ipc.Lawful) {elapsed : Duration} (helapsed : elapsed.secs < 2 ^ 63)
    (completion : Option QueryCompleted) (rows : ℕ) (items : List (Except EngineError Batch)) :
    clientStream ipc (batchFrames ipc elapsed completion rows items) =
      (relay ipc items,
        if items.all Except.isOk then
          some ⟨rows + ((batches items).map ipc.numRows).sum,
            (completion.map QueryCompleted.truncated).getD false, elapsed⟩
        else none) := by
  induction items generalizing rows with
  | nil =>
      simp [batchFrames, clientStream, completedOfWire, relay, batches, asI64_of_lt helapsed,
        durationNew_self]
  | cons item items ih =>
      cases item with
      | error e => simp [batchFrames, clientStream, relay, frameError_resent, Except.isOk, Except.toBool]
      | ok b =>
          obtain ⟨bytes, hencode, hdecode⟩ := hipc.encode b
          simp only [batchFrames, hencode, clientStream, hdecode, ih, relay]
          simp [batches, Except.isOk, Except.toBool, Except.toOption, Nat.add_assoc]

lemma readResponse_queryFrames (hipc : ipc.Lawful) {elapsed : Duration} (helapsed : elapsed.secs < 2 ^ 63)
    (handle : QueryHandle Batch) :
    readResponse ipc (.ok (queryFrames ipc elapsed handle)) = .ok (relayed ipc elapsed handle) := by
  simp only [readResponse, queryFrames, readStartedId, Except.map, clientStream_batchFrames hipc helapsed,
    relayed, Nat.zero_add]

lemma remoteQuery_eq (hipc : ipc.Lawful) {elapsed : Duration} (helapsed : elapsed.secs < 2 ^ 63)
    (engine : QueryRequest → Except EngineError (QueryHandle Batch)) (traceparent : Option String)
    (req : QueryRequest) :
    remoteQuery ipc engine elapsed traceparent req =
      ((engine (arrived traceparent req)).map (relayed ipc elapsed)).mapError resent := by
  rw [remoteQuery, serveQuery, requestOfWire_requestToWire]
  cases engine (arrived traceparent req) with
  | error e => rfl
  | ok handle => exact readResponse_queryFrames hipc helapsed handle

lemma remoteSemanticQuery_eq (hipc : ipc.Lawful) {elapsed : Duration} (helapsed : elapsed.secs < 2 ^ 63)
    (engine : SemanticQuery → Except EngineError (QueryHandle Batch)) (q : SemanticQuery) :
    remoteSemanticQuery ipc engine elapsed q =
      ((engine q).map (relayed ipc elapsed)).mapError resent := by
  rw [remoteSemanticQuery, serveSemanticQuery, ofRequest_toRequest]
  cases engine q with
  | error e => rfl
  | ok handle => exact readResponse_queryFrames hipc helapsed handle

/-! ## Several connections -/

lemma arrived_arrived (traceparent traceparent' : Option String) (req : QueryRequest) :
    arrived traceparent (arrived traceparent' req) = arrived traceparent req := by
  have htimeout : (req.timeout.filter fun d => d.secs < 2 ^ 63).filter (fun d => d.secs < 2 ^ 63) =
      req.timeout.filter fun d => d.secs < 2 ^ 63 := by
    rw [Option.filter_filter]
    simp only [Bool.and_self]
  have htrace : (req.traceId.bind nonEmpty).bind nonEmpty = req.traceId.bind nonEmpty := by
    cases req.traceId with
    | none => rfl
    | some id =>
        rw [Option.bind_some, nonEmpty]
        split_ifs with hid
        · rfl
        · rw [Option.bind_some, nonEmpty, if_neg hid]
  simp only [arrived, htimeout, htrace]

/-- What is left of a result is left of it again; its batches are those of the result if no error was among
its items. -/
lemma relay_relay (hipc : ipc.Lawful) (items : List (Except EngineError Batch)) :
    relay ipc (relay ipc items) = relay ipc items ∧
      (relay ipc items).all Except.isOk = items.all Except.isOk ∧
      (items.all Except.isOk = true →
        (batches (relay ipc items)).map ipc.numRows = (batches items).map ipc.numRows) := by
  induction items with
  | nil => exact ⟨rfl, rfl, fun _ => rfl⟩
  | cons item items ih =>
      obtain ⟨hrelay, hok, hrows⟩ := ih
      cases item with
      | error e =>
          refine ⟨?_, rfl, fun h => ?_⟩
          · rw [relay, relay, resent_resent]
          · simp [Except.isOk, Except.toBool] at h
      | ok b =>
          refine ⟨?_, ?_, fun h => ?_⟩
          · rw [relay, relay, hrelay, hipc.classic_classic]
          · rw [relay, List.all_cons, hok, List.all_cons]
            rfl
          · have hitems : items.all Except.isOk = true := (Bool.and_eq_true_iff.mp h).2
            have hbatches := hrows hitems
            simp only [batches] at hbatches
            simp [relay, batches, Except.toOption, hipc.numRows_classic, hbatches]

lemma relayed_relayed (hipc : ipc.Lawful) (elapsed elapsed' : Duration) (handle : QueryHandle Batch) :
    relayed ipc elapsed (relayed ipc elapsed' handle) = relayed ipc elapsed handle := by
  obtain ⟨hrelay, hok, hrows⟩ := relay_relay hipc handle.items
  rw [relayed, relayed, relayed, hrelay, hok]
  by_cases hall : handle.items.all Except.isOk = true
  · simp [hall, hrows hall]
  · simp [hall]

lemma relayed_twice (hipc : ipc.Lawful) (elapsed elapsed' : Duration)
    (result : Except EngineError (QueryHandle Batch)) :
    ((((result.map (relayed ipc elapsed')).mapError resent).map (relayed ipc elapsed)).mapError resent) =
      (result.map (relayed ipc elapsed)).mapError resent := by
  cases result with
  | error e => exact congrArg Except.error (resent_resent e)
  | ok handle => exact congrArg Except.ok (relayed_relayed hipc elapsed elapsed' handle)

/-- Over any connections that keep their frames, a query gives what the engine at their end gives for the
request that arrives there, as it is left by one connection: the batches without views, up to an error that
comes back as errors do, and a completion that counts their rows.  A semantic query arrives as it is. -/
theorem queries_remote (hipc : ipc.Lawful)
    (engine : QueryRequest → Except EngineError (QueryHandle Batch))
    (semanticEngine : SemanticQuery → Except EngineError (QueryHandle Batch)) (hop : Hop) (hops : List Hop)
    (hhops : ∀ h ∈ hop :: hops, h.elapsed.secs < 2 ^ 63) (req : QueryRequest) (q : SemanticQuery) :
    remoteEngine ipc engine (hop :: hops) req =
        ((engine (arrived (hops.getLastD hop).traceparent req)).map
          (relayed ipc hop.elapsed)).mapError resent ∧
      remoteSemanticEngine ipc semanticEngine (hop :: hops) q =
        ((semanticEngine q).map (relayed ipc hop.elapsed)).mapError resent := by
  induction hops generalizing hop req with
  | nil =>
      have helapsed := hhops hop List.mem_cons_self
      exact ⟨remoteQuery_eq hipc helapsed engine hop.traceparent req,
        remoteSemanticQuery_eq hipc helapsed semanticEngine q⟩
  | cons next hops ih =>
      have helapsed := hhops hop List.mem_cons_self
      have hnext : ∀ req, _ := fun req => ih next (fun h hh => hhops h (List.mem_cons_of_mem _ hh)) req
      constructor
      · rw [remoteEngine, remoteQuery_eq hipc helapsed, (hnext _).1, relayed_twice hipc, arrived_arrived,
          List.getLastD_cons]
      · rw [remoteSemanticEngine, remoteSemanticQuery_eq hipc helapsed, (hnext req).2,
          relayed_twice hipc]

/-- Batches that are rows of numbers, each encoded as itself. -/
def plainIpc : Ipc (List ℕ) (List ℕ) where
  encode := .ok
  decode := fun bytes => .ok [bytes]
  classic := id
  numRows := List.length

lemma plainIpc_lawful : plainIpc.Lawful :=
  ⟨fun b => ⟨b, rfl, rfl⟩, fun _ => rfl, fun _ => rfl⟩

/-- A query that runs into its timeout behind two connections. -/
theorem queries_remote_timeout :
    remoteEngine plainIpc
        (fun _ => .ok ⟨"q1", [.ok [1, 2], .error (.timeout ⟨30, 0, by decide⟩), .ok [3]], none⟩)
        [⟨.zero, none⟩, ⟨.zero, some "00-1-2-01"⟩] ⟨"SELECT 1", [], none, 0, some "", {}⟩ =
      .ok ⟨"q1", [.ok [1, 2], .error (.timeout .zero)], none⟩ :=
  (queries_remote plainIpc_lawful _ (fun _ => .error .cancelled) ⟨.zero, none⟩ [⟨.zero, some "00-1-2-01"⟩]
    (by simp [Duration.zero]) _ {}).1

/-! ## Lost connections -/

/-- How a response can end on the way: the connection is closed, or it ends with a status. -/
def Ending (ending : List (Frame Bytes)) : Prop := ending = [] ∨ ∃ status, ending = [.error status]

/-- The client knows that the response has ended: there is no completion, and a status is an error behind
the batches. -/
structure Cut (ipc : Ipc Batch Bytes) (items : List (Except EngineError Batch)) (ending : List (Frame Bytes))
    (got : List (Except EngineError Batch) × Option QueryCompleted) : Prop where
  batches : batches got.1 <+: batches (relay ipc items)
  completion : got.2 = none
  status : ∀ status, ending = [.error status] → got.1.getLast? = some (.error (statusToEngineError status))

lemma cut_nil (items : List (Except EngineError Batch)) {ending : List (Frame Bytes)} (h : Ending ending) :
    Cut ipc items ending (clientStream ipc ending) := by
  rcases h with rfl | ⟨status, rfl⟩
  · exact ⟨List.nil_prefix, rfl, fun _ heq => absurd heq (List.cons_ne_nil _ _).symm⟩
  · refine ⟨List.nil_prefix, rfl, fun status' heq => ?_⟩
    obtain rfl : status = status' := by simpa using heq
    rfl

lemma cut_batchFrames (hipc : ipc.Lawful) (elapsed : Duration) (completion : Option QueryCompleted)
    (rows : ℕ) (items : List (Except EngineError Batch)) {ending : List (Frame Bytes)} (h : Ending ending)
    {n : ℕ} (hn : n < (batchFrames ipc elapsed completion rows items).length) :
    Cut ipc items ending
      (clientStream ipc ((batchFrames ipc elapsed completion rows items).take n ++ ending)) := by
  induction items generalizing rows n with
  | nil =>
      obtain rfl : n = 0 := Nat.lt_one_iff.mp hn
      exact cut_nil [] h
  | cons item items ih =>
      cases item with
      | error e =>
          obtain rfl : n = 0 := Nat.lt_one_iff.mp hn
          exact cut_nil (.error e :: items) h
      | ok b =>
          obtain ⟨bytes, hencode, hdecode⟩ := hipc.encode b
          cases n with
          | zero => exact cut_nil (.ok b :: items) h
          | succ n =>
              have hframes : batchFrames ipc elapsed completion rows (.ok b :: items) =
                  .ok (some (.ipcStream bytes)) ::
                    batchFrames ipc elapsed completion (rows + ipc.numRows b) items := by
                rw [batchFrames, hencode]
              rw [hframes, List.length_cons, Nat.add_lt_add_iff_right] at hn
              have hrest := ih (rows + ipc.numRows b) hn
              rw [hframes, List.take_succ_cons, List.cons_append, clientStream, hdecode]
              refine ⟨?_, hrest.completion, fun status hstatus => ?_⟩
              · exact List.cons_prefix_cons.mpr ⟨rfl, hrest.batches⟩
              · have hlast := hrest.status status hstatus
                dsimp only
                rw [List.map_singleton, List.singleton_append, List.getLast?_cons, hlast, Option.getD_some]

/-- When a connection is lost before the last frame, the client has a first part of the batches, and no
completion that would say that they are all; where a status tells of it, the stream ends with its error. -/
theorem query_lost (hipc : ipc.Lawful) (elapsed : Duration) (handle : QueryHandle Batch)
    {ending : List (Frame Bytes)} (hending : Ending ending) {n : ℕ}
    (hn : n < (queryFrames ipc elapsed handle).length) :
    (∃ status, n = 0 ∧ ending = [.error status] ∧
        readResponse ipc (.ok ((queryFrames ipc elapsed handle).take n ++ ending)) =
          .error (statusToEngineError status)) ∨
      ∃ got, readResponse ipc (.ok ((queryFrames ipc elapsed handle).take n ++ ending)) = .ok got ∧
        batches got.items <+: batches (relay ipc handle.items) ∧ got.completion = none ∧
        ∀ status, ending = [.error status] →
          got.items.getLast? = some (.error (statusToEngineError status)) := by
  cases n with
  | zero =>
      rcases hending with rfl | ⟨status, rfl⟩
      · exact .inr ⟨_, rfl, List.nil_prefix, rfl, fun _ heq => absurd heq (List.cons_ne_nil _ _).symm⟩
      · exact .inl ⟨status, rfl, rfl, rfl⟩
  | succ n =>
      rw [queryFrames, List.length_cons, Nat.add_lt_add_iff_right] at hn
      have hcut := cut_batchFrames hipc elapsed handle.completion 0 handle.items hending hn
      exact .inr ⟨_, rfl, hcut.batches, hcut.completion, hcut.status⟩

theorem query_lost_closed :
    ∃ got, readResponse plainIpc (.ok ((queryFrames plainIpc .zero
        ⟨"q1", [.ok [1, 2], .ok [3]], some ⟨3, false, .zero⟩⟩).take 2 ++ [])) = .ok got ∧
      batches got.items = [[1, 2]] ∧ got.completion = none := by
  rcases query_lost plainIpc_lawful .zero ⟨"q1", [.ok [1, 2], .ok [3]], some ⟨3, false, .zero⟩⟩
    (.inl rfl) (n := 2) (by decide) with ⟨status, hn, -⟩ | ⟨got, hgot, -, hcompletion, -⟩
  · exact absurd hn (by decide)
  · refine ⟨got, hgot, ?_, hcompletion⟩
    rw [← Except.ok.inj hgot]
    rfl

end

end Remote
end Client
end Pawrly
