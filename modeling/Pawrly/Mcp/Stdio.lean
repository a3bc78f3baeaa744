import Pawrly.Lib.Separated
import Pawrly.Lib.Tasks
import Pawrly.Lib.Utf8
import Pawrly.Mcp.ToolFetch
import Pawrly.Server.RestFormats
import Mathlib.Algebra.Order.Group.Multiset

/-!
# The stdio transport

An MCP server runs as a child process; requests go to its stdin as lines of JSON, and a reader hands
each message on its stdout to the request of the same id.  Requests run side by side, each in steps that
the two locks leave undivided: it takes a number, waits for the lock of the pending requests and
registers, waits for the lock of the pipe and writes as much as the pipe takes, flushes, and waits for
its message.  It may be dropped wherever it waits.

What the child reads are whole lines (`lines_of_run`).  Each request gets the first message of its id
after it registered (`answers_of_run`), and from a server that answers what it reads its own answer
(`replies_of_run`).  The end of stdout does not wake a request (`waits_forever`).
-/

namespace Pawrly
namespace Mcp
namespace Stdio

open Http (Json isNumber)

/-! ## Messages -/

/-- `value.as_i64()`. -/
def asI64? : Json → Option ℤ
  | .num text => Text.parseSigned 64 text
  | _ => none

/-- `rpc_request`. -/
def rpcRequest (id : ℤ) (method : String) (params : Json) : Json :=
  .obj [("id", .num (toString id)), ("jsonrpc", .str "2.0"), ("method", .str method),
    ("params", params)]

/-- `rpc_notification`. -/
def rpcNotification (method : String) (params : Json) : Json :=
  .obj [("jsonrpc", .str "2.0"), ("method", .str method), ("params", params)]

/-- `rpc_result`. -/
def rpcResult (response : Json) : Except McpError Json :=
  match response.get? "error" with
  | some error =>
      .error (.rpc (((error.get? "code").bind asI64?).getD 0)
        (((error.get? "message").bind Json.asStr?).getD "unknown error"))
  | none => .ok ((response.get? "result").getD .null)

/-- The id by which the reader looks for a request. -/
def idOf (message : Json) : Option ℤ := (message.get? "id").bind asI64?

/-- What `write` makes of a message. -/
def line (message : Json) : List UInt8 := Utf8.encode message.print.toList ++ [10]

mutual

/-- The numbers of a value. -/
def numbers : Json → List String
  | .num text => [text]
  | .arr items => itemNumbers items
  | .obj fields => fieldNumbers fields
  | _ => []

def itemNumbers : List Json → List String
  | [] => []
  | v :: vs => numbers v ++ itemNumbers vs

def fieldNumbers : List (String × Json) → List String
  | [] => []
  | (_, v) :: fields => numbers v ++ fieldNumbers fields

end

/-- A value whose numbers are numbers. -/
abbrev Params := { v : Json // ∀ text ∈ numbers v, isNumber text.toList = true }

/-! ## The transport -/

/-- `request` or `notify`. -/
inductive Call
  | request (method : String) (params : Params)
  | notify (method : String) (params : Params)

/-- What happened, as far as it can be told from outside: a request registered, the reader looked for
the request of a message, a message was written as a line, or the writing of one broke off. -/
inductive Event
  | registered (ticket : ℕ)
  | arrived (message : Json)
  | wrote (ticket : Option ℕ) (message : Json)
  | torn (message : Json) (sent : ℕ)

/-- `StdioTransport`: what the child was sent, whether the pipe is locked, the requests that took a
number, those that are pending, what was sent on their channels, and what happened. -/
structure Transport where
  stdin : List UInt8
  locked : Bool
  given : List Call
  pending : List (ℤ × ℕ)
  answers : List (ℕ × Json)
  events : List Event

/-- The number that `next_id.fetch_add` gives to the request of a ticket. -/
def ident (ticket : ℕ) : ℤ := Int.bmod (ticket + 1) (2 ^ 64)

/-- What a call sends. -/
def Call.message (ticket : Option ℕ) : Call → Json
  | .request method params => rpcRequest (ident (ticket.getD 0)) method params.1
  | .notify method params => rpcNotification method params.1

/-- What a call does next.  A request has a ticket, a notification has none. -/
inductive Phase
  | numbers
  /-- Waits for the lock of `pending`. -/
  | registers (ticket : ℕ)
  /-- Waits for the lock of the pipe. -/
  | locks (ticket : Option ℕ)
  | writes (ticket : Option ℕ) (sent : ℕ)
  | flushes (ticket : Option ℕ)
  | awaits (ticket : ℕ)
  | returned (ticket : Option ℕ) (result : Except McpError Json)
  | dropped (ticket : Option ℕ)

inductive Task
  | reads
  /-- The reader waits for the lock of `pending`. -/
  | looksUp (message : Json)
  | ended
  | caller (call : Call) (phase : Phase)

def Call.task : Call → Task
  | .request method params => .caller (.request method params) .numbers
  | .notify method params => .caller (.notify method params) (.locks none)

/-- How a step goes: on, with so many bytes more in the pipe, with a failure, with a line of stdout,
with its end, or not at all because the call is dropped. -/
inductive Choice
  | goOn
  | accepts (bytes : ℕ)
  | fails (message : String)
  | reads (text : String)
  | ends
  | drop

/-- The next step of a call. -/
def Phase.advance (call : Call) (s : Transport) : Choice → Phase → Option (Transport × Phase)
  | .goOn, .numbers =>
      some ({ s with given := s.given ++ [call] }, .registers s.given.length)
  | .goOn, .registers ticket =>
      some ({ s with
        pending := (ident ticket, ticket) :: s.pending.filter (·.1 ≠ ident ticket)
        events := s.events ++ [.registered ticket] }, .locks (some ticket))
  | .goOn, .locks ticket =>
      if s.locked then none else some ({ s with locked := true }, .writes ticket 0)
  | .accepts bytes, .writes ticket sent =>
      let message := call.message ticket
      if bytes = 0 ∨ (line message).length < sent + bytes then none
      else
        let s := { s with stdin := s.stdin ++ ((line message).drop sent).take bytes }
        if sent + bytes < (line message).length then some (s, .writes ticket (sent + bytes))
        else some ({ s with events := s.events ++ [.wrote ticket message] }, .flushes ticket)
  | .fails text, .writes ticket sent =>
      some ({ s with locked := false, events := s.events ++ [.torn (call.message ticket) sent] },
        .returned ticket (.error (.transport text)))
  | .goOn, .flushes ticket =>
      some ({ s with locked := false },
        match ticket with
        | some ticket => .awaits ticket
        | none => .returned none (.ok .null))
  | .fails text, .flushes ticket =>
      some ({ s with locked := false }, .returned ticket (.error (.transport text)))
  | .goOn, .awaits ticket =>
      match s.answers.lookup ticket with
      | some message => some (s, .returned (some ticket) (rpcResult message))
      | none =>
          if s.pending.any (·.2 = ticket) then none
          else some (s, .returned (some ticket) (.error (.transport "server closed the connection")))
  | .drop, .registers ticket => some (s, .dropped (some ticket))
  | .drop, .locks ticket => some (s, .dropped ticket)
  | .drop, .writes ticket sent =>
      some ({ s with locked := false, events := s.events ++ [.torn (call.message ticket) sent] },
        .dropped ticket)
  | .drop, .flushes ticket => some ({ s with locked := false }, .dropped ticket)
  | .drop, .awaits ticket => some (s, .dropped (some ticket))
  | _, _ => none

/-- The reader found a message.  `pending.remove` and `tx.send`. -/
def Transport.deliver (s : Transport) (message : Json) : Transport :=
  match idOf message with
  | none => s
  | some id =>
      match s.pending.lookup id with
      | none => { s with events := s.events ++ [.arrived message] }
      | some ticket =>
          { s with
            pending := s.pending.filter (·.1 ≠ id)
            answers := s.answers ++ [(ticket, message)]
            events := s.events ++ [.arrived message] }

/-- The next step of the reader or of a call.  `parse` is the JSON parser. -/
def Task.advance (parse : String → Option Json) (s : Transport) (choice : Choice) :
    Task → Option (Transport × Task)
  | .reads =>
      match choice with
      | .reads text =>
          match parse text with
          | none => some (s, .reads)
          | some message =>
              if (idOf message).isSome then some (s, .looksUp message) else some (s, .reads)
      | .ends => some (s, .ended)
      | _ => none
  | .looksUp message =>
      match choice with
      | .goOn => some (s.deliver message, .reads)
      | _ => none
  | .ended => none
  | .caller call phase => (phase.advance call s choice).map fun r => (r.1, .caller call r.2)

/-- A step of the reader and the calls. -/
abbrev step (parse : String → Option Json) := Tasks.step Call.task (Task.advance parse)

/-- `spawn`: the reader runs, and nothing was sent. -/
def spawn : Tasks.System Transport Task := ⟨⟨[], false, [], [], [], []⟩, [.reads]⟩

/-! ## What a step does -/

/-- The phase of a call that ended without an answer. -/
def Phase.Failed (ticket : Option ℕ) (phase : Phase) : Prop :=
  phase = .dropped ticket ∨ ∃ text, phase = .returned ticket (.error (.transport text))

/-- The steps of a call. -/
inductive Moves (call : Call) (s : Transport) : Phase → Transport → Phase → Prop
  | number : Moves call s .numbers { s with given := s.given ++ [call] } (.registers s.given.length)
  | register (ticket : ℕ) :
      Moves call s (.registers ticket)
        { s with
          pending := (ident ticket, ticket) :: s.pending.filter (·.1 ≠ ident ticket)
          events := s.events ++ [.registered ticket] } (.locks (some ticket))
  | lock (ticket : Option ℕ) (free : s.locked = false) :
      Moves call s (.locks ticket) { s with locked := true } (.writes ticket 0)
  | accept (ticket : Option ℕ) (sent bytes : ℕ)
      (part : sent + bytes < (line (call.message ticket)).length) :
      Moves call s (.writes ticket sent)
        { s with stdin := s.stdin ++ ((line (call.message ticket)).drop sent).take bytes }
        (.writes ticket (sent + bytes))
  | write (ticket : Option ℕ) (sent bytes : ℕ)
      (whole : sent + bytes = (line (call.message ticket)).length) :
      Moves call s (.writes ticket sent)
        { s with
          stdin := s.stdin ++ ((line (call.message ticket)).drop sent).take bytes
          events := s.events ++ [.wrote ticket (call.message ticket)] } (.flushes ticket)
  | tear (ticket : Option ℕ) (sent : ℕ) (phase : Phase) (failed : phase.Failed ticket) :
      Moves call s (.writes ticket sent)
        { s with locked := false, events := s.events ++ [.torn (call.message ticket) sent] } phase
  | flush (ticket : ℕ) :
      Moves call s (.flushes (some ticket)) { s with locked := false } (.awaits ticket)
  | notified :
      Moves call s (.flushes none) { s with locked := false } (.returned none (.ok .null))
  | abandon (ticket : Option ℕ) (phase : Phase) (failed : phase.Failed ticket) :
      Moves call s (.flushes ticket) { s with locked := false } phase
  | receive (ticket : ℕ) (message : Json) (sent : (ticket, message) ∈ s.answers) :
      Moves call s (.awaits ticket) s (.returned (some ticket) (rpcResult message))
  | close (ticket : ℕ) (unanswered : ∀ message, (ticket, message) ∉ s.answers)
      (gone : ∀ id, (id, ticket) ∉ s.pending) :
      Moves call s (.awaits ticket) s
        (.returned (some ticket) (.error (.transport "server closed the connection")))
  | leave (phase : Phase) (ticket : Option ℕ)
      (waits : phase = .locks ticket ∨ ∃ k, ticket = some k ∧ (phase = .registers k ∨ phase = .awaits k)) :
      Moves call s phase s (.dropped ticket)

lemma mem_of_lookup {α β : Type} [DecidableEq α] {l : List (α × β)} {a : α} {b : β}
    (h : l.lookup a = some b) : (a, b) ∈ l := by
  obtain ⟨l₁, l₂, rfl, -⟩ := List.lookup_eq_some_iff.mp h
  simp

lemma notMem_of_lookup {α β : Type} [DecidableEq α] {l : List (α × β)} {a : α}
    (h : l.lookup a = none) (b : β) : (a, b) ∉ l := by
  intro hmem
  have hne := List.lookup_eq_none_iff.mp h (a, b) hmem
  simp at hne

lemma moves_of_advance {call : Call} {s s' : Transport} {choice : Choice} {phase phase' : Phase}
    (h : phase.advance call s choice = some (s', phase')) : Moves call s phase s' phase' := by
  unfold Phase.advance at h
  split at h
  · cases h
    exact .number
  · cases h
    exact .register _
  · split_ifs at h with hlocked
    cases h
    exact .lock _ (Bool.eq_false_of_not_eq_true hlocked)
  · dsimp only at h
    split_ifs at h with hbytes hpart
    · cases h
      exact .accept _ _ _ hpart
    · cases h
      exact .write _ _ _ (by omega)
  · cases h
    exact .tear _ _ _ (.inr ⟨_, rfl⟩)
  · rename_i ticket
    cases ticket with
    | none =>
        cases h
        exact .notified
    | some ticket =>
        cases h
        exact .flush ticket
  · cases h
    exact .abandon _ _ (.inr ⟨_, rfl⟩)
  · split at h
    · cases h
      exact .receive _ _ (mem_of_lookup ‹_›)
    · split_ifs at h with hpending
      cases h
      refine .close _ (notMem_of_lookup ‹_›) fun id hmem => hpending ?_
      exact List.any_eq_true.mpr ⟨_, hmem, decide_eq_true rfl⟩
  · cases h
    exact .leave _ _ (.inr ⟨_, rfl, .inl rfl⟩)
  · cases h
    exact .leave _ _ (.inl rfl)
  · cases h
    exact .tear _ _ _ (.inl rfl)
  · cases h
    exact .abandon _ _ (.inl rfl)
  · cases h
    exact .leave _ _ (.inr ⟨_, rfl, .inr rfl⟩)
  · cases h

/-- The steps of a task: the reader goes on, hands a message over, or ends, or a call moves. -/
lemma advance_cases {parse : String → Option Json} {s s' : Transport} {choice : Choice} {t t' : Task}
    (h : Task.advance parse s choice t = some (s', t')) :
    (t = .reads ∧ s' = s ∧ (t' = .reads ∨ t' = .ended ∨
      ∃ message, t' = .looksUp message ∧ (idOf message).isSome)) ∨
    (∃ message, t = .looksUp message ∧ s' = s.deliver message ∧ t' = .reads) ∨
    ∃ call phase phase', t = .caller call phase ∧ t' = .caller call phase' ∧
      Moves call s phase s' phase' := by
  cases t with
  | reads =>
      left
      simp only [Task.advance] at h
      split at h
      · split at h
        · cases h
          exact ⟨rfl, rfl, .inl rfl⟩
        · split_ifs at h with hid
          · cases h
            exact ⟨rfl, rfl, .inr (.inr ⟨_, rfl, hid⟩)⟩
          · cases h
            exact ⟨rfl, rfl, .inl rfl⟩
      · cases h
        exact ⟨rfl, rfl, .inr (.inl rfl)⟩
      · cases h
  | looksUp message =>
      right; left
      simp only [Task.advance] at h
      split at h
      · cases h
        exact ⟨message, rfl, rfl, rfl⟩
      · cases h
  | ended => cases h
  | caller call phase =>
      right; right
      obtain ⟨r, hr, hrest⟩ := Option.map_eq_some_iff.mp h
      cases hrest
      exact ⟨call, phase, r.2, rfl, rfl, moves_of_advance hr⟩

/-! ## Lines -/

/-- What an event left in the pipe. -/
def Event.bytes : Event → List UInt8
  | .wrote _ message => line message
  | .torn message sent => (line message).take sent
  | _ => []

/-- What a call holds of the pipe: the lock, and with it the part of a message that was sent. -/
def Task.holding : Task → Multiset (Option (Json × ℕ))
  | .caller call (.writes ticket sent) => {some (call.message ticket, sent)}
  | .caller _ (.flushes _) => {none}
  | _ => 0

/-- The pipe has the lines and torn lines of the past, and behind them what the one call that holds
the lock has sent. -/
inductive Framed (s : Transport) : Multiset (Option (Json × ℕ)) → Prop
  | free (unlocked : s.locked = false) (whole : s.stdin = s.events.flatMap Event.bytes) : Framed s 0
  | written (locked : s.locked = true) (whole : s.stdin = s.events.flatMap Event.bytes) :
      Framed s {none}
  | writing (message : Json) (sent : ℕ) (locked : s.locked = true)
      (part : sent < (line message).length)
      (whole : s.stdin = s.events.flatMap Event.bytes ++ (line message).take sent) :
      Framed s {some (message, sent)}

section

variable {parse : String → Option Json} {s s' : Transport} {choice : Choice} {t t' : Task}
  {rest : Multiset (Option (Json × ℕ))}

lemma length_line_pos (message : Json) : 0 < (line message).length := by
  rw [line, List.length_append, List.length_singleton]
  omega

/-- Nothing that the pipe and its lock depend on is changed. -/
lemma Framed.congr {m : Multiset (Option (Json × ℕ))} (h : Framed s m) (hstdin : s'.stdin = s.stdin)
    (hlocked : s'.locked = s.locked)
    (hevents : s'.events.flatMap Event.bytes = s.events.flatMap Event.bytes) : Framed s' m := by
  cases h with
  | free unlocked whole =>
      refine .free ?_ ?_
      · rw [hlocked, unlocked]
      · rw [hstdin, hevents, whole]
  | written locked whole =>
      refine .written ?_ ?_
      · rw [hlocked, locked]
      · rw [hstdin, hevents, whole]
  | writing message sent locked part whole =>
      refine .writing message sent ?_ part ?_
      · rw [hlocked, locked]
      · rw [hstdin, hevents, whole]

/-- The call that holds the lock is the only one. -/
lemma Framed.alone {x : Option (Json × ℕ)} (h : Framed s ({x} + rest)) :
    rest = 0 ∧ s.locked = true ∧ Framed s {x} := by
  generalize hm : {x} + rest = m at h
  have hcard := congrArg Multiset.card hm
  rw [Multiset.card_add, Multiset.card_singleton] at hcard
  have hrest : m.card = 1 → rest = 0 := by
    intro hone
    refine Multiset.card_eq_zero.mp ?_
    omega
  have hlocked : s.locked = true := by
    cases h with
    | free unlocked whole =>
        rw [Multiset.card_zero] at hcard
        omega
    | written locked whole => exact locked
    | writing message sent locked part whole => exact locked
  have hempty : rest = 0 := by
    cases h with
    | free unlocked whole =>
        rw [Multiset.card_zero] at hcard
        omega
    | written locked whole => exact hrest (Multiset.card_singleton _)
    | writing message sent locked part whole => exact hrest (Multiset.card_singleton _)
  refine ⟨hempty, hlocked, ?_⟩
  rw [hempty, add_zero] at hm
  rw [hm]
  exact h

/-- Who holds the lock and has sent so much. -/
lemma Framed.sent {message : Json} {sent : ℕ} (h : Framed s {some (message, sent)}) :
    sent < (line message).length ∧
      s.stdin = s.events.flatMap Event.bytes ++ (line message).take sent := by
  generalize hm : ({some (message, sent)} : Multiset (Option (Json × ℕ))) = m at h
  cases h with
  | free unlocked whole => exact absurd hm (Multiset.singleton_ne_zero _)
  | written locked whole => exact absurd (Multiset.singleton_inj.mp hm) (Option.some_ne_none _)
  | writing message' sent' locked part whole =>
      obtain ⟨rfl, rfl⟩ := Prod.mk.inj (Option.some.inj (Multiset.singleton_inj.mp hm))
      exact ⟨part, whole⟩

lemma Framed.flushed (h : Framed s {none}) : s.stdin = s.events.flatMap Event.bytes := by
  generalize hm : ({none} : Multiset (Option (Json × ℕ))) = m at h
  cases h with
  | free unlocked whole => exact absurd hm (Multiset.singleton_ne_zero _)
  | written locked whole => exact whole
  | writing message sent locked part whole =>
      exact absurd (Multiset.singleton_inj.mp hm).symm (Option.some_ne_none _)

lemma Framed.unlocked {m : Multiset (Option (Json × ℕ))} (h : Framed s m) (hfree : s.locked = false) :
    m = 0 ∧ s.stdin = s.events.flatMap Event.bytes := by
  cases h with
  | free unlocked whole => exact ⟨rfl, whole⟩
  | written locked whole => simp [hfree] at locked
  | writing message sent locked part whole => simp [hfree] at locked

lemma flatMap_bytes_snoc {events : List Event} {e : Event} :
    (events ++ [e]).flatMap Event.bytes = events.flatMap Event.bytes ++ e.bytes := by
  rw [List.flatMap_append, List.flatMap_singleton]

lemma deliver_stdin (s : Transport) (message : Json) :
    (s.deliver message).stdin = s.stdin ∧ (s.deliver message).locked = s.locked ∧
      (s.deliver message).events.flatMap Event.bytes = s.events.flatMap Event.bytes := by
  unfold Transport.deliver
  split
  · exact ⟨rfl, rfl, rfl⟩
  · split
    · refine ⟨rfl, rfl, ?_⟩
      rw [flatMap_bytes_snoc]
      exact List.append_nil _
    · refine ⟨rfl, rfl, ?_⟩
      rw [flatMap_bytes_snoc]
      exact List.append_nil _

lemma Phase.Failed.holding {call : Call} {ticket : Option ℕ} {phase : Phase}
    (h : phase.Failed ticket) : (Task.caller call phase).holding = 0 := by
  rcases h with rfl | ⟨text, rfl⟩
  · rfl
  · rfl

lemma framed_moves {call : Call} {phase phase' : Phase} (hmoves : Moves call s phase s' phase')
    (h : Framed s ((Task.caller call phase).holding + rest)) :
    Framed s' ((Task.caller call phase').holding + rest) := by
  cases hmoves with
  | number => exact h.congr rfl rfl rfl
  | register ticket =>
      refine h.congr rfl rfl ?_
      rw [flatMap_bytes_snoc]
      exact List.append_nil _
  | lock ticket free =>
      obtain ⟨hrest, hwhole⟩ := h.unlocked free
      obtain rfl : rest = 0 := by
        rw [show (Task.caller call (.locks ticket)).holding = 0 from rfl, zero_add] at hrest
        exact hrest
      refine .writing _ 0 rfl (length_line_pos _) ?_
      rw [List.take_zero, List.append_nil]
      exact hwhole
  | accept ticket sent bytes part =>
      obtain ⟨rfl, hlocked, halone⟩ := h.alone
      obtain ⟨-, hwhole⟩ := halone.sent
      refine .writing _ _ hlocked part ?_
      rw [List.take_add, ← List.append_assoc, ← hwhole]
  | write ticket sent bytes whole =>
      obtain ⟨rfl, hlocked, halone⟩ := h.alone
      obtain ⟨-, hwhole⟩ := halone.sent
      refine .written hlocked ?_
      rw [flatMap_bytes_snoc, hwhole, List.append_assoc, ← List.take_add, whole, List.take_length]
      rfl
  | tear ticket sent phase failed =>
      obtain ⟨rfl, -, halone⟩ := h.alone
      rw [failed.holding]
      refine .free rfl ?_
      rw [flatMap_bytes_snoc, (halone.sent).2]
      rfl
  | flush ticket =>
      obtain ⟨rfl, -, halone⟩ := h.alone
      exact .free rfl halone.flushed
  | notified =>
      obtain ⟨rfl, -, halone⟩ := h.alone
      exact .free rfl halone.flushed
  | abandon ticket phase failed =>
      obtain ⟨rfl, -, halone⟩ := h.alone
      rw [failed.holding]
      exact .free rfl halone.flushed
  | receive ticket message sent => exact h
  | close ticket unanswered gone => exact h
  | leave phase ticket waits =>
      have hnone : (Task.caller call phase).holding = 0 := by
        rcases waits with rfl | ⟨k, -, rfl | rfl⟩ <;> rfl
      rw [hnone] at h
      exact h

lemma framed_advance (h : Framed s (t.holding + rest))
    (hstep : Task.advance parse s choice t = some (s', t')) : Framed s' (t'.holding + rest) := by
  rcases advance_cases hstep with ⟨rfl, rfl, ht'⟩ | ⟨message, rfl, rfl, rfl⟩ |
    ⟨call, phase, phase', rfl, rfl, hmoves⟩
  · rcases ht' with rfl | rfl | ⟨message, rfl, -⟩
    · exact h
    · exact h
    · exact h
  · obtain ⟨hstdin, hlocked, hevents⟩ := deliver_stdin s message
    exact h.congr hstdin hlocked hevents
  · exact framed_moves hmoves h

end

/-! ## One message on one line -/

mutual

lemma newline_notMem_print (v : Json) (h : ∀ text ∈ numbers v, '\n' ∉ text.toList) :
    '\n' ∉ v.print.toList := by
  cases v with
  | null =>
      show '\n' ∉ "null".toList
      decide
  | bool b =>
      show '\n' ∉ (toString b).toList
      cases b <;> decide
  | num text => exact h text (List.mem_singleton_self _)
  | str s => exact Server.Rest.newline_notMem_printString s
  | arr items =>
      have hitems := newline_notMem_items items h
      intro hmem
      simp only [Json.print, String.toList_append, List.mem_append] at hmem
      rcases hmem with (hmem | hmem) | hmem
      · revert hmem
        decide
      · rcases Server.Rest.of_mem_join hmem with hmem | ⟨part, hpart, hmem⟩
        · revert hmem
          decide
        · exact hitems part hpart hmem
      · revert hmem
        decide
  | obj fields =>
      have hfields := newline_notMem_fields fields h
      intro hmem
      simp only [Json.print, String.toList_append, List.mem_append] at hmem
      rcases hmem with (hmem | hmem) | hmem
      · revert hmem
        decide
      · rcases Server.Rest.of_mem_join hmem with hmem | ⟨part, hpart, hmem⟩
        · revert hmem
          decide
        · exact hfields part hpart hmem
      · revert hmem
        decide

lemma newline_notMem_items (items : List Json)
    (h : ∀ text ∈ itemNumbers items, '\n' ∉ text.toList) :
    ∀ part ∈ Json.printItems items, '\n' ∉ part.toList := by
  cases items with
  | nil => simp [Json.printItems]
  | cons v vs =>
      intro part hpart
      rcases List.mem_cons.mp hpart with rfl | hpart
      · exact newline_notMem_print v fun text hmem => h text (List.mem_append_left _ hmem)
      · exact newline_notMem_items vs (fun text hmem => h text (List.mem_append_right _ hmem))
          part hpart

lemma newline_notMem_fields (fields : List (String × Json))
    (h : ∀ text ∈ fieldNumbers fields, '\n' ∉ text.toList) :
    ∀ part ∈ Json.printFields fields, '\n' ∉ part.toList := by
  cases fields with
  | nil => simp [Json.printFields]
  | cons field fields =>
      obtain ⟨key, v⟩ := field
      intro part hpart
      rcases List.mem_cons.mp hpart with rfl | hpart
      · have hv := newline_notMem_print v fun text hmem => h text (List.mem_append_left _ hmem)
        have hkey := Server.Rest.newline_notMem_printString key
        simp only [String.toList_append, List.mem_append, not_or]
        exact ⟨⟨hkey, by decide⟩, hv⟩
      · exact newline_notMem_fields fields
          (fun text hmem => h text (List.mem_append_right _ hmem)) part hpart

end

lemma newline_notMem_message (ticket : Option ℕ) (call : Call) :
    10 ∉ Utf8.encode (call.message ticket).print.toList := by
  have hten : (10 : UInt8).toNat < 0x80 := by decide
  rw [Utf8.mem_encode hten]
  rintro ⟨c, hc, hvalue⟩
  have hnewline : (10 : UInt8).toNat = '\n'.toNat := by decide
  rw [hnewline, Char.toNat_inj] at hvalue
  rw [hvalue] at hc
  refine newline_notMem_print _ (fun text hmem => ?_) hc
  cases call with
  | request method params =>
      simp only [Call.message, rpcRequest, numbers, fieldNumbers, List.cons_append, List.nil_append,
        List.append_nil, List.mem_cons] at hmem
      rcases hmem with hmem | hmem
      · rw [hmem]
        exact Server.Rest.newline_notMem_int _
      · exact Server.Rest.newline_notMem_number (params.2 text hmem)
  | notify method params =>
      simp only [Call.message, rpcNotification, numbers, fieldNumbers, List.nil_append,
        List.append_nil] at hmem
      exact Server.Rest.newline_notMem_number (params.2 text hmem)

/-- What can be said of an event: what was written is a message, and what is torn is not all of one. -/
def Event.Formed : Event → Prop
  | .wrote ticket message => ∃ call : Call, message = call.message ticket
  | .torn message sent => sent < (line message).length
  | _ => True

/-- The message that an event wrote. -/
def Event.message? : Event → Option Json
  | .wrote _ message => some message
  | _ => none

lemma formed_snoc {events : List Event} (e : Event) (h : ∀ e' ∈ events, e'.Formed)
    (he : e.Formed) : ∀ e' ∈ events ++ [e], e'.Formed := by
  intro e' hmem
  rcases List.mem_append.mp hmem with hmem | hmem
  · exact h e' hmem
  · rw [List.mem_singleton.mp hmem]
    exact he

lemma formed_advance {parse : String → Option Json} {s s' : Transport} {choice : Choice}
    {t t' : Task} {rest : Multiset (Option (Json × ℕ))} (h : Framed s (t.holding + rest))
    (hformed : ∀ e ∈ s.events, e.Formed) (hstep : Task.advance parse s choice t = some (s', t')) :
    ∀ e ∈ s'.events, e.Formed := by
  rcases advance_cases hstep with ⟨rfl, rfl, -⟩ | ⟨message, rfl, rfl, -⟩ |
    ⟨call, phase, phase', rfl, rfl, hmoves⟩
  · exact hformed
  · unfold Transport.deliver
    split
    · exact hformed
    · split
      · exact formed_snoc _ hformed trivial
      · exact formed_snoc _ hformed trivial
  · cases hmoves with
    | register ticket => exact formed_snoc _ hformed trivial
    | write ticket sent bytes whole => exact formed_snoc _ hformed ⟨call, rfl⟩
    | tear ticket sent phase failed => exact formed_snoc _ hformed (h.alone.2.2.sent).1
    | number | lock ticket free | accept ticket sent bytes part | flush ticket | notified
      | abandon ticket phase failed | receive ticket message sent
      | close ticket unanswered gone | leave phase ticket waits => exact hformed

/-- The lines of what was written whole. -/
lemma splitOn_bytes {events : List Event} (hformed : ∀ e ∈ events, e.Formed)
    (hwhole : ∀ message sent, .torn message sent ∉ events) :
    (events.flatMap Event.bytes).splitOn 10 =
      (events.filterMap Event.message?).map (fun message => Utf8.encode message.print.toList) ++
        [[]] := by
  have hlines : events.flatMap Event.bytes = ((events.filterMap Event.message?).map
      fun message => Utf8.encode message.print.toList).flatMap fun l => l ++ [10] := by
    induction events with
    | nil => rfl
    | cons e events ih =>
        obtain ⟨-, hrest⟩ := List.forall_mem_cons.mp hformed
        have htail := ih hrest fun message sent hmem =>
          hwhole message sent (List.mem_cons_of_mem _ hmem)
        rw [List.flatMap_cons, htail]
        cases e with
        | registered ticket => rfl
        | arrived message => rfl
        | wrote ticket message => rfl
        | torn message sent => exact absurd List.mem_cons_self (hwhole message sent)
  rw [hlines]
  refine Separated.splitOn_flatMap fun l hl => ?_
  obtain ⟨message, hmessage, rfl⟩ := List.mem_map.mp hl
  obtain ⟨e, he, hsome⟩ := List.mem_filterMap.mp hmessage
  cases e with
  | wrote ticket message' =>
      obtain rfl := Option.some.inj hsome
      obtain ⟨call, rfl⟩ := hformed _ he
      exact newline_notMem_message ticket call
  | registered ticket => cases hsome
  | arrived message' => cases hsome
  | torn message' sent => cases hsome

/-- The pipe has the messages that were written, each whole and on its own line, with what a failed or
dropped call may have torn off between them and with what is being written at its end. -/
theorem lines_of_run {parse : String → Option Json} {as : List (Tasks.Action Call Choice)}
    {s : Tasks.System Transport Task} (hrun : LabelledRun.exec (step parse) spawn as = some s) :
    (∃ part, s.shared.stdin = s.shared.events.flatMap Event.bytes ++ part ∧
      (part ≠ [] → s.shared.locked = true ∧ ∃ message sent, sent < (line message).length ∧
        part = (line message).take sent)) ∧
      (∀ message sent, .torn message sent ∈ s.shared.events → sent < (line message).length) ∧
      ((∀ message sent, .torn message sent ∉ s.shared.events) →
        (s.shared.events.flatMap Event.bytes).splitOn 10 =
          (s.shared.events.filterMap Event.message?).map
            (fun message => Utf8.encode message.print.toList) ++ [[]]) := by
  obtain ⟨hframed, hformed⟩ := Tasks.framed_of_run
    (P := fun s m => Framed s m ∧ ∀ e ∈ s.events, e.Formed) Task.holding
    (fun call => by cases call <;> rfl)
    (fun s choice t s' t' rest h hstep =>
      ⟨framed_advance h.1 hstep, formed_advance h.1 h.2 hstep⟩)
    (s := spawn) ⟨.free rfl rfl, fun e he => absurd he List.not_mem_nil⟩ hrun
  refine ⟨?_, fun message sent hmem => hformed _ hmem, splitOn_bytes hformed⟩
  generalize Tasks.owned Task.holding s.tasks = m at hframed
  cases hframed with
  | free unlocked whole => exact ⟨[], by rw [whole, List.append_nil], fun h => absurd rfl h⟩
  | written locked whole => exact ⟨[], by rw [whole, List.append_nil], fun h => absurd rfl h⟩
  | writing message sent locked part whole =>
      exact ⟨_, whole, fun _ => ⟨locked, message, sent, part, rfl⟩⟩

/-- A parser that reads one answer. -/
def readsPong (text : String) : Option Json :=
  if text = "\x7b\"id\":1,\"result\":\"pong\"\x7d" then
    some (.obj [("id", .num "1"), ("result", .str "pong")])
  else none

lemma numbers_empty : ∀ text ∈ numbers (.obj []), isNumber text.toList = true :=
  fun _ h => absurd h List.not_mem_nil

/-- A request that is written in two parts, and its answer. -/
def ping : List (Tasks.Action Call Choice) :=
  [.start (.request "ping" ⟨.obj [], numbers_empty⟩), .advance 1 .goOn,
    .advance 1 .goOn, .advance 1 .goOn, .advance 1 (.accepts 20), .advance 1 (.accepts 33),
    .advance 1 .goOn, .advance 0 (.reads "\x7b\"id\":1,\"result\":\"pong\"\x7d"),
    .advance 0 .goOn, .advance 1 .goOn]

theorem lines_of_run_ping : ∃ s, LabelledRun.exec (step readsPong) spawn ping = some s ∧
    ∃ part, s.shared.stdin = s.shared.events.flatMap Event.bytes ++ part ∧
      (part ≠ [] → s.shared.locked = true ∧ ∃ message sent, sent < (line message).length ∧
        part = (line message).take sent) :=
  ⟨_, rfl, (@lines_of_run readsPong ping _ rfl).1⟩

/-! ## Answers -/

/-- The id that an event is about. -/
def Event.id? : Event → Option ℤ
  | .registered ticket => some (ident ticket)
  | .arrived message => idOf message
  | _ => none

/-- Nothing happened to an id. -/
def Quiet (id : ℤ) (events : List Event) : Prop := ∀ e ∈ events, e.id? ≠ some id

/-- A request has registered, and nothing happened to its id since. -/
def Waits (events : List Event) (ticket : ℕ) : Prop :=
  ∃ past since, events = past ++ .registered ticket :: since ∧ Quiet (ident ticket) since

/-- A message is the first of its id after a request registered. -/
def Answered (events : List Event) (ticket : ℕ) (message : Json) : Prop :=
  ∃ past between later, events = past ++ .registered ticket :: between ++ .arrived message :: later ∧
    Quiet (ident ticket) between ∧ idOf message = some (ident ticket)

/-- What is pending waits, and what was sent on a channel answers its request.  A request that registered
is pending or answered, unless a later one took its id.  A request is registered before it is
written. -/
structure Correlated (s : Transport) : Prop where
  pending : ∀ id ticket, (id, ticket) ∈ s.pending → id = ident ticket ∧ Waits s.events ticket
  answers : ∀ ticket message, (ticket, message) ∈ s.answers → Answered s.events ticket message
  settled : ∀ ticket, .registered ticket ∈ s.events →
    (ident ticket, ticket) ∈ s.pending ∨ (∃ message, (ticket, message) ∈ s.answers) ∨
      ∃ other, other ≠ ticket ∧ .registered other ∈ s.events ∧ ident other = ident ticket
  known : ∀ ticket, .registered ticket ∈ s.events → ticket < s.given.length
  wrote : ∀ (i : ℕ) ticket message, s.events[i]? = some (.wrote (some ticket) message) →
    .registered ticket ∈ s.events.take i ∧
      ∃ call, s.given[ticket]? = some call ∧ message = call.message (some ticket)

/-- What a call knows. -/
def Phase.Knows (call : Call) (s : Transport) : Phase → Prop
  | .registers ticket => s.given[ticket]? = some call
  | .locks (some ticket) | .writes (some ticket) _ =>
      s.given[ticket]? = some call ∧ .registered ticket ∈ s.events
  | .flushes (some ticket) | .awaits ticket =>
      (s.given[ticket]? = some call ∧ .registered ticket ∈ s.events) ∧
        .wrote (some ticket) (call.message (some ticket)) ∈ s.events
  | .returned (some ticket) result =>
      (∃ message, (ticket, message) ∈ s.answers ∧ result = rpcResult message ∧
        s.given[ticket]? = some call ∧
        .wrote (some ticket) (call.message (some ticket)) ∈ s.events) ∨
      ∃ text, result = .error (.transport text)
  | _ => True

/-- The reader is the first of the tasks. -/
def Task.Knows (n : ℕ) (s : Transport) : Task → Prop
  | .reads | .ended => n = 0
  | .looksUp message => n = 0 ∧ (idOf message).isSome
  | .caller call phase => n ≠ 0 ∧ phase.Knows call s

/-- What happened stays. -/
structure Later (s s' : Transport) : Prop where
  given : ∀ (ticket : ℕ) call, s.given[ticket]? = some call → s'.given[ticket]? = some call
  answers : s.answers ⊆ s'.answers
  events : s.events ⊆ s'.events

lemma Later.of_subset {s s' : Transport} (hgiven : s'.given = s.given)
    (hanswers : s.answers ⊆ s'.answers) (hevents : s.events ⊆ s'.events) : Later s s' :=
  ⟨fun _ _ h => hgiven ▸ h, hanswers, hevents⟩

lemma Phase.Knows.later {call : Call} {s s' : Transport} {phase : Phase} (h : phase.Knows call s)
    (hlater : Later s s') : phase.Knows call s' := by
  unfold Phase.Knows at h ⊢
  split at h
  · exact hlater.given _ _ h
  · exact ⟨hlater.given _ _ h.1, hlater.events h.2⟩
  · exact ⟨hlater.given _ _ h.1, hlater.events h.2⟩
  · exact ⟨⟨hlater.given _ _ h.1.1, hlater.events h.1.2⟩, hlater.events h.2⟩
  · exact ⟨⟨hlater.given _ _ h.1.1, hlater.events h.1.2⟩, hlater.events h.2⟩
  · rcases h with ⟨message, hanswer, hresult, hgiven, hwrote⟩ | htext
    · exact .inl ⟨message, hlater.answers hanswer, hresult, hlater.given _ _ hgiven,
        hlater.events hwrote⟩
    · exact .inr htext
  · trivial

lemma Task.Knows.later {n : ℕ} {s s' : Transport} {t : Task} (h : t.Knows n s)
    (hlater : Later s s') : t.Knows n s' := by
  cases t with
  | reads | ended | looksUp message => exact h
  | caller call phase => exact ⟨h.1, h.2.later hlater⟩

section

variable {s s' : Transport} {events : List Event} {e : Event} {ticket : ℕ} {message : Json}

lemma Quiet.snoc {id : ℤ} (h : Quiet id events) (he : e.id? ≠ some id) : Quiet id (events ++ [e]) := by
  intro e' hmem
  rcases List.mem_append.mp hmem with hmem | hmem
  · exact h e' hmem
  · rw [List.mem_singleton.mp hmem]
    exact he

lemma Waits.snoc (h : Waits events ticket) (he : e.id? ≠ some (ident ticket)) :
    Waits (events ++ [e]) ticket := by
  obtain ⟨past, since, rfl, hquiet⟩ := h
  exact ⟨past, since ++ [e], by simp, hquiet.snoc he⟩

lemma Answered.snoc (h : Answered events ticket message) : Answered (events ++ [e]) ticket message := by
  obtain ⟨past, between, later, rfl, hquiet, hid⟩ := h
  exact ⟨past, between, later ++ [e], by simp, hquiet, hid⟩

/-- The first message of the id answers the request. -/
lemma Waits.answered (h : Waits events ticket) (hid : idOf message = some (ident ticket)) :
    Answered (events ++ [.arrived message]) ticket message := by
  obtain ⟨past, since, rfl, hquiet⟩ := h
  exact ⟨past, since, [], by simp, hquiet, hid⟩

/-- What is written stays behind its registration. -/
lemma Correlated.wrote_snoc (h : Correlated s) {given : List Call}
    (hgiven : ∀ (k : ℕ) call, s.given[k]? = some call → given[k]? = some call)
    (he : ∀ k message, e = .wrote (some k) message → .registered k ∈ s.events ∧
      ∃ call, given[k]? = some call ∧ message = call.message (some k)) :
    ∀ (i : ℕ) k message, (s.events ++ [e])[i]? = some (.wrote (some k) message) →
      .registered k ∈ (s.events ++ [e]).take i ∧
        ∃ call, given[k]? = some call ∧ message = call.message (some k) := by
  intro i k message hi
  rw [List.take_append, List.mem_append]
  rw [List.getElem?_append] at hi
  split_ifs at hi with hlt
  · obtain ⟨hregistered, call, hcall, hmessage⟩ := h.wrote i k message hi
    exact ⟨.inl hregistered, call, hgiven k call hcall, hmessage⟩
  · have heq := List.mem_singleton.mp (List.mem_of_getElem? hi)
    obtain ⟨hregistered, hcall⟩ := he k message heq.symm
    rw [List.take_of_length_le (Nat.le_of_not_lt hlt)]
    exact ⟨.inl hregistered, hcall⟩

/-- An event that is about no id and no request. -/
lemma Correlated.event (h : Correlated s) (he : e.id? = none)
    (hwrote : ∀ k message, e = .wrote (some k) message → .registered k ∈ s.events ∧
      ∃ call, s.given[k]? = some call ∧ message = call.message (some k))
    (hpending : s'.pending = s.pending) (hanswers : s'.answers = s.answers)
    (hgiven : s'.given = s.given) (hevents : s'.events = s.events ++ [e]) : Correlated s' := by
  have hregistered : ∀ k, .registered k ∈ s'.events ↔ .registered k ∈ s.events := by
    intro k
    rw [hevents, List.mem_append, List.mem_singleton]
    refine or_iff_left fun heq => ?_
    rw [← heq] at he
    cases he
  refine ⟨fun id k hmem => ?_, fun k message hmem => ?_, fun k hmem => ?_, fun k hmem => ?_, ?_⟩
  · rw [hpending] at hmem
    obtain ⟨hid, hwaits⟩ := h.pending id k hmem
    rw [hevents]
    exact ⟨hid, hwaits.snoc (he ▸ (Option.some_ne_none _).symm)⟩
  · rw [hanswers] at hmem
    rw [hevents]
    exact (h.answers k message hmem).snoc
  · rw [hpending, hanswers]
    simp only [hregistered] at hmem ⊢
    exact h.settled k hmem
  · rw [hgiven]
    exact h.known k ((hregistered k).mp hmem)
  · rw [hevents, hgiven]
    exact h.wrote_snoc (fun k call hcall => hcall) hwrote

lemma Correlated.congr (h : Correlated s) (hpending : s'.pending = s.pending)
    (hanswers : s'.answers = s.answers) (hgiven : s'.given = s.given)
    (hevents : s'.events = s.events) : Correlated s' := by
  obtain ⟨hp, ha, hs, hk, hw⟩ := h
  rw [← hpending, ← hevents] at hp
  rw [← hanswers, ← hevents] at ha
  rw [← hpending, ← hanswers, ← hevents] at hs
  rw [← hgiven, ← hevents] at hk
  rw [← hgiven, ← hevents] at hw
  exact ⟨hp, ha, hs, hk, hw⟩

/-- A request registers; one whose id it takes is pending no more. -/
lemma Correlated.register (h : Correlated s) (hknown : ticket < s.given.length) :
    Correlated { s with
      pending := (ident ticket, ticket) :: s.pending.filter (·.1 ≠ ident ticket)
      events := s.events ++ [.registered ticket] } := by
  refine ⟨fun id k hmem => ?_, fun k message hmem => ?_, fun k hmem => ?_, fun k hmem => ?_, ?_⟩
  · rcases List.mem_cons.mp hmem with heq | hmem
    · obtain ⟨hid, hk⟩ := Prod.mk.inj heq
      rw [hid, hk]
      exact ⟨rfl, s.events, [], rfl, fun e he => absurd he List.not_mem_nil⟩
    · obtain ⟨hmem, hne⟩ := List.mem_filter.mp hmem
      obtain ⟨hid, hwaits⟩ := h.pending id k hmem
      refine ⟨hid, hwaits.snoc fun heq => ?_⟩
      exact of_decide_eq_true hne (hid.trans (Option.some.inj heq).symm)
  · exact (h.answers k message hmem).snoc
  · rcases List.mem_append.mp hmem with hmem | hmem
    · rcases h.settled k hmem with hpending | hanswered | ⟨other, hother, hregistered, hid⟩
      · by_cases hid : ident k = ident ticket
        · by_cases hk : k = ticket
          · subst hk
            exact .inl List.mem_cons_self
          · exact .inr (.inr ⟨ticket, Ne.symm hk, List.mem_append_right _ (List.mem_singleton_self _),
              hid.symm⟩)
        · exact .inl (List.mem_cons_of_mem _ (List.mem_filter.mpr ⟨hpending, by simpa using hid⟩))
      · exact .inr (.inl hanswered)
      · exact .inr (.inr ⟨other, hother, List.mem_append_left _ hregistered, hid⟩)
    · obtain rfl : k = ticket := by simpa using hmem
      exact .inl List.mem_cons_self
  · rcases List.mem_append.mp hmem with hmem | hmem
    · exact h.known k hmem
    · obtain rfl : k = ticket := by simpa using hmem
      exact hknown
  · exact h.wrote_snoc (fun k call hcall => hcall) fun k message heq => by simp at heq

/-- The reader hands a message to the request that is pending under its id, if there is one. -/
lemma Correlated.deliver (h : Correlated s) (message : Json) : Correlated (s.deliver message) := by
  unfold Transport.deliver
  cases hid : idOf message with
  | none => exact h
  | some id =>
      have hregistered : ∀ k, .registered k ∈ s.events ++ [.arrived message] ↔
          .registered k ∈ s.events := by simp
      have hwrote := @Correlated.wrote_snoc s (.arrived message) h s.given
        (fun k call hcall => hcall) fun k message heq => by simp at heq
      dsimp only
      cases hlookup : s.pending.lookup id with
      | none =>
          refine ⟨fun id' k hmem => ?_, fun k m hmem => (h.answers k m hmem).snoc, fun k hmem => ?_,
            fun k hmem => h.known k ((hregistered k).mp hmem), hwrote⟩
          · obtain ⟨hid', hwaits⟩ := h.pending id' k hmem
            refine ⟨hid', hwaits.snoc fun heq => ?_⟩
            replace heq : idOf message = some (ident k) := heq
            rw [hid, ← hid'] at heq
            rw [Option.some.inj heq] at hlookup
            exact notMem_of_lookup hlookup k hmem
          · simp only [hregistered] at hmem ⊢
            exact h.settled k hmem
      | some ticket =>
          obtain ⟨htaken, hwaits⟩ := h.pending id ticket (mem_of_lookup hlookup)
          refine ⟨fun id' k hmem => ?_, fun k m hmem => ?_, fun k hmem => ?_,
            fun k hmem => h.known k ((hregistered k).mp hmem), hwrote⟩
          · obtain ⟨hmem, hne⟩ := List.mem_filter.mp hmem
            obtain ⟨hid', hother⟩ := h.pending id' k hmem
            refine ⟨hid', hother.snoc fun heq => ?_⟩
            replace heq : idOf message = some (ident k) := heq
            rw [hid, ← hid'] at heq
            exact of_decide_eq_true hne (Option.some.inj heq).symm
          · rcases List.mem_append.mp hmem with hmem | hmem
            · exact (h.answers k m hmem).snoc
            · have heq := Prod.mk.inj (List.mem_singleton.mp hmem)
              rw [heq.1, heq.2]
              exact hwaits.answered (htaken ▸ hid)
          · simp only [hregistered] at hmem ⊢
            rcases h.settled k hmem with hpending | ⟨m, hanswered⟩ | hother
            · by_cases hk : k = ticket
              · rw [hk]
                exact .inr (.inl ⟨message, List.mem_append_right _ (List.mem_singleton_self _)⟩)
              · by_cases heq : ident k = ident ticket
                · exact .inr (.inr ⟨ticket, Ne.symm hk,
                    hwaits.elim fun past hpast => hpast.elim fun since hsince => by
                      rw [hsince.1]
                      simp, heq.symm⟩)
                · exact .inl (List.mem_filter.mpr ⟨hpending, by simpa [htaken] using heq⟩)
            · exact .inr (.inl ⟨m, List.mem_append_left _ hanswered⟩)
            · exact .inr (.inr hother)

end

/-! ## Runs -/

section

variable {parse : String → Option Json} {s s' : Transport} {choice : Choice} {t t' : Task}

lemma later_deliver (s : Transport) (message : Json) : Later s (s.deliver message) := by
  unfold Transport.deliver
  split
  · exact .of_subset rfl (List.Subset.refl _) (List.Subset.refl _)
  · split
    · exact .of_subset rfl (List.Subset.refl _) (List.subset_append_left _ _)
    · exact .of_subset rfl (List.subset_append_left _ _) (List.subset_append_left _ _)

lemma Phase.Failed.knows {call : Call} {ticket : Option ℕ} {phase : Phase} (h : phase.Failed ticket) :
    phase.Knows call s := by
  rcases h with rfl | ⟨text, rfl⟩
  · trivial
  · cases ticket with
    | none => trivial
    | some ticket => exact .inr ⟨text, rfl⟩

lemma correlated_moves {call : Call} {phase phase' : Phase} (hmoves : Moves call s phase s' phase')
    (h : Correlated s) (hknows : phase.Knows call s) :
    Correlated s' ∧ phase'.Knows call s' ∧ Later s s' := by
  cases hmoves with
  | number =>
      have hgiven : ∀ (k : ℕ) other, s.given[k]? = some other → (s.given ++ [call])[k]? = some other :=
        fun k other hk => List.getElem?_append_left (List.getElem?_eq_some_iff.mp hk).1 ▸ hk
      refine ⟨⟨h.pending, h.answers, h.settled, fun k hmem => ?_, fun i k message hi => ?_⟩, ?_,
        hgiven, List.Subset.refl _, List.Subset.refl _⟩
      · rw [List.length_append]
        exact Nat.lt_add_right _ (h.known k hmem)
      · obtain ⟨hregistered, other, hother, hmessage⟩ := h.wrote i k message hi
        exact ⟨hregistered, other, hgiven k other hother, hmessage⟩
      · show (s.given ++ [call])[s.given.length]? = some call
        rw [List.getElem?_concat_length]
  | register ticket =>
      have hknown : ticket < s.given.length := (List.getElem?_eq_some_iff.mp hknows).1
      exact ⟨h.register hknown, ⟨hknows, List.mem_append_right _ (List.mem_singleton_self _)⟩,
        .of_subset rfl (List.Subset.refl _) (List.subset_append_left _ _)⟩
  | lock ticket free =>
      refine ⟨h.congr rfl rfl rfl rfl, ?_, .of_subset rfl (List.Subset.refl _) (List.Subset.refl _)⟩
      cases ticket with
      | none => trivial
      | some ticket => exact hknows
  | accept ticket sent bytes part =>
      refine ⟨h.congr rfl rfl rfl rfl, ?_, .of_subset rfl (List.Subset.refl _) (List.Subset.refl _)⟩
      cases ticket with
      | none => trivial
      | some ticket => exact hknows
  | write ticket sent bytes whole =>
      refine ⟨h.event rfl (fun k message heq => ?_) rfl rfl rfl rfl, ?_,
        .of_subset rfl (List.Subset.refl _) (List.subset_append_left _ _)⟩
      · obtain ⟨rfl, rfl⟩ := Event.wrote.inj heq
        exact ⟨hknows.2, call, hknows.1, rfl⟩
      · cases ticket with
        | none => trivial
        | some ticket =>
            exact ⟨⟨hknows.1, List.mem_append_left _ hknows.2⟩,
              List.mem_append_right _ (List.mem_singleton_self _)⟩
  | tear ticket sent phase failed =>
      refine ⟨h.event rfl (fun k message heq => ?_) rfl rfl rfl rfl, failed.knows,
        .of_subset rfl (List.Subset.refl _) (List.subset_append_left _ _)⟩
      cases heq
  | flush ticket =>
      exact ⟨h.congr rfl rfl rfl rfl, hknows,
        .of_subset rfl (List.Subset.refl _) (List.Subset.refl _)⟩
  | notified =>
      exact ⟨h.congr rfl rfl rfl rfl, trivial,
        .of_subset rfl (List.Subset.refl _) (List.Subset.refl _)⟩
  | abandon ticket phase failed =>
      exact ⟨h.congr rfl rfl rfl rfl, failed.knows,
        .of_subset rfl (List.Subset.refl _) (List.Subset.refl _)⟩
  | receive ticket message sent =>
      exact ⟨h, .inl ⟨message, sent, rfl, hknows.1.1, hknows.2⟩,
        .of_subset rfl (List.Subset.refl _) (List.Subset.refl _)⟩
  | close ticket unanswered gone =>
      exact ⟨h, .inr ⟨_, rfl⟩, .of_subset rfl (List.Subset.refl _) (List.Subset.refl _)⟩
  | leave phase ticket waits =>
      exact ⟨h, trivial, .of_subset rfl (List.Subset.refl _) (List.Subset.refl _)⟩

lemma correlated_advance {n : ℕ} (h : Correlated s) (hknows : t.Knows n s)
    (hstep : Task.advance parse s choice t = some (s', t')) :
    Correlated s' ∧ t'.Knows n s' ∧ Later s s' := by
  rcases advance_cases hstep with ⟨rfl, rfl, ht'⟩ | ⟨message, rfl, rfl, rfl⟩ |
    ⟨call, phase, phase', rfl, rfl, hmoves⟩
  · refine ⟨h, ?_, .of_subset rfl (List.Subset.refl _) (List.Subset.refl _)⟩
    rcases ht' with rfl | rfl | ⟨message, rfl, hid⟩
    · exact hknows
    · exact hknows
    · exact ⟨hknows, hid⟩
  · exact ⟨h.deliver message, hknows.1, later_deliver s message⟩
  · obtain ⟨hcorrelated, hknows', hlater⟩ := correlated_moves hmoves h hknows.2
    exact ⟨hcorrelated, ⟨hknows.1, hknows'⟩, hlater⟩

/-- Only the reader hands messages over. -/
lemma answers_moves {call : Call} {phase phase' : Phase} (hmoves : Moves call s phase s' phase') :
    s'.answers = s.answers := by
  cases hmoves <;> rfl

end

lemma kept_correlated (parse : String → Option Json) :
    Tasks.Kept Call.task (Task.advance parse) 1 Correlated fun n s t => t.Knows n s where
  start n s call hn _ := by
    cases call <;> exact ⟨Nat.one_le_iff_ne_zero.mp hn, trivial⟩
  shared n s choice t s' t' h hknows hstep := (correlated_advance h hknows hstep).1
  own n s choice t s' t' h hknows hstep := (correlated_advance h hknows hstep).2.1
  others n s choice t s' t' m u h hknows hstep _ hother :=
    hother.later (correlated_advance h hknows hstep).2.2

lemma correlated_of_run {parse : String → Option Json} {as : List (Tasks.Action Call Choice)}
    {s : Tasks.System Transport Task} (hrun : LabelledRun.exec (step parse) spawn as = some s) :
    Tasks.Holds Correlated (fun n s t => t.Knows n s) s := by
  have hone : 1 ≤ spawn.tasks.length := Nat.le_refl 1
  refine (kept_correlated parse).holds_of_run hone ⟨⟨?_, ?_, ?_, ?_, ?_⟩, ?_⟩ hrun
  · exact fun id ticket h => absurd h List.not_mem_nil
  · exact fun ticket message h => absurd h List.not_mem_nil
  · exact fun ticket h => absurd h List.not_mem_nil
  · exact fun ticket h => absurd h List.not_mem_nil
  · exact fun i ticket message h => by cases h
  · intro n t ht
    obtain ⟨rfl, rfl⟩ : n = 0 ∧ .reads = t := by
      cases n with
      | zero => exact ⟨rfl, Option.some.inj ht⟩
      | succ n => cases ht
    rfl

/-- The tickets of the calls. -/
def Phase.ticket : Phase → Multiset ℕ
  | .registers ticket | .awaits ticket => {ticket}
  | .locks (some ticket) | .writes (some ticket) _ | .flushes (some ticket)
  | .returned (some ticket) _ | .dropped (some ticket) => {ticket}
  | _ => 0

def Task.ticket : Task → Multiset ℕ
  | .caller _ phase => phase.ticket
  | _ => 0

lemma Phase.Failed.ticket {ticket : Option ℕ} {phase : Phase}
    (h : phase.Failed ticket) : phase.ticket = (Phase.locks ticket).ticket := by
  rcases h with rfl | ⟨text, rfl⟩
  · cases ticket <;> rfl
  · cases ticket <;> rfl

/-- No two calls have one ticket. -/
lemma tickets_moves {call : Call} {s s' : Transport} {phase phase' : Phase} {rest : Multiset ℕ}
    (hmoves : Moves call s phase s' phase')
    (h : (phase.ticket + rest).Nodup ∧ ∀ k ∈ phase.ticket + rest, k < s.given.length) :
    (phase'.ticket + rest).Nodup ∧ ∀ k ∈ phase'.ticket + rest, k < s'.given.length := by
  have hkept : phase'.ticket = phase.ticket → s'.given = s.given →
      (phase'.ticket + rest).Nodup ∧ ∀ k ∈ phase'.ticket + rest, k < s'.given.length := by
    intro hticket hgiven
    rw [hticket, hgiven]
    exact h
  cases hmoves with
  | number =>
      obtain ⟨hnodup, hlt⟩ := h
      simp only [Phase.ticket, zero_add, Multiset.singleton_add] at hnodup hlt ⊢
      refine ⟨Multiset.nodup_cons.mpr ⟨fun hmem => ?_, hnodup⟩, fun k hk => ?_⟩
      · exact Nat.lt_irrefl _ (hlt _ hmem)
      · rw [List.length_append]
        rcases Multiset.mem_cons.mp hk with rfl | hk
        · exact Nat.lt_succ_self _
        · exact Nat.lt_add_right _ (hlt k hk)
  | register ticket => exact hkept rfl rfl
  | lock ticket free => exact hkept (by cases ticket <;> rfl) rfl
  | accept ticket sent bytes part => exact hkept (by cases ticket <;> rfl) rfl
  | write ticket sent bytes whole => exact hkept (by cases ticket <;> rfl) rfl
  | tear ticket sent phase failed =>
      refine hkept ?_ rfl
      rw [failed.ticket]
      cases ticket <;> rfl
  | flush ticket => exact hkept rfl rfl
  | notified => exact hkept rfl rfl
  | abandon ticket phase failed =>
      refine hkept ?_ rfl
      rw [failed.ticket]
      cases ticket <;> rfl
  | receive ticket message sent => exact hkept rfl rfl
  | close ticket unanswered gone => exact hkept rfl rfl
  | leave phase ticket waits =>
      refine hkept ?_ rfl
      rcases waits with rfl | ⟨k, rfl, rfl | rfl⟩
      · cases ticket <;> rfl
      · rfl
      · rfl

lemma tickets_of_run {parse : String → Option Json} {as : List (Tasks.Action Call Choice)}
    {s : Tasks.System Transport Task} (hrun : LabelledRun.exec (step parse) spawn as = some s) :
    (Tasks.owned Task.ticket s.tasks).Nodup := by
  refine (Tasks.framed_of_run (P := fun s m => m.Nodup ∧ ∀ k ∈ m, k < s.given.length) Task.ticket
    (fun call => by cases call <;> rfl) (fun s choice t s' t' rest h hstep => ?_)
    (s := spawn) ⟨Multiset.nodup_zero, fun k hk => absurd hk (Multiset.notMem_zero k)⟩ hrun).1
  rcases advance_cases hstep with ⟨rfl, rfl, ht'⟩ | ⟨message, rfl, rfl, rfl⟩ |
    ⟨call, phase, phase', rfl, rfl, hmoves⟩
  · rcases ht' with rfl | rfl | ⟨message, rfl, -⟩ <;> exact h
  · have hgiven : (s.deliver message).given = s.given := by
      unfold Transport.deliver
      split
      · rfl
      · split <;> rfl
    rw [hgiven]
    exact h
  · exact tickets_moves hmoves h

/-! ## What the calls return -/

/-- Each request that gets an answer gets the first message of its id after it registered, which is
before it was written, and the requests have different tickets. -/
theorem answers_of_run {parse : String → Option Json} {as : List (Tasks.Action Call Choice)}
    {s : Tasks.System Transport Task} (hrun : LabelledRun.exec (step parse) spawn as = some s) :
    (∀ (n : ℕ) call ticket result,
      s.tasks[n]? = some (.caller call (.returned (some ticket) result)) →
        (∃ message, Answered s.shared.events ticket message ∧ result = rpcResult message) ∨
          ∃ text, result = .error (.transport text)) ∧
      (∀ (n m : ℕ) call call' ticket ticket' result result', n ≠ m →
        s.tasks[n]? = some (.caller call (.returned (some ticket) result)) →
        s.tasks[m]? = some (.caller call' (.returned (some ticket') result')) → ticket ≠ ticket') ∧
      ∀ (i : ℕ) ticket message, s.shared.events[i]? = some (.wrote (some ticket) message) →
        .registered ticket ∈ s.shared.events.take i := by
  obtain ⟨hcorrelated, hknows⟩ := correlated_of_run hrun
  refine ⟨fun n call ticket result hn => ?_,
    fun n m call call' ticket ticket' result result' hne hn hm heq => ?_,
    fun i ticket message hi => (hcorrelated.wrote i ticket message hi).1⟩
  · rcases (hknows n _ hn).2 with ⟨message, hanswer, hresult, -, -⟩ | htext
    · exact .inl ⟨message, hcorrelated.answers ticket message hanswer, hresult⟩
    · exact .inr htext
  · have hnodup := tickets_of_run hrun
    obtain ⟨rest, hrest⟩ := Tasks.exists_rest_pair Task.ticket .ended rfl hne hn hm
    rw [hrest] at hnodup
    simp [Task.ticket, Phase.ticket, heq] at hnodup

theorem answers_of_run_ping : ∃ s call, LabelledRun.exec (step readsPong) spawn ping = some s ∧
    s.tasks[1]? = some (.caller call (.returned (some 0) (.ok (.str "pong")))) ∧
    ((∃ message, Answered s.shared.events 0 message ∧ .ok (.str "pong") = rpcResult message) ∨
      ∃ text, (.ok (.str "pong") : Except McpError Json) = .error (.transport text)) :=
  ⟨_, _, rfl, rfl, (@answers_of_run readsPong ping _ rfl).1 1 _ 0 _ rfl⟩

/-- The ids of fewer requests than 64 bits tell apart are different. -/
lemma ident_inj {k k' : ℕ} (hk : k < 2 ^ 64) (hk' : k' < 2 ^ 64) (h : ident k = ident k') :
    k = k' := by
  have hdvd := Int.dvd_of_bmod_eq_zero (Int.bmod_eq_bmod_iff_bmod_sub_eq_zero.mp h)
  omega

/-- The server answers each message it reads, and what it says under the id of a request is the answer to
it. -/
def Honest (reply : Json → Json) (events : List Event) : Prop :=
  ∀ (i : ℕ) message, events[i]? = some (.arrived message) → ∃ ticket request,
    .wrote (some ticket) request ∈ events.take i ∧ idOf message = some (ident ticket) ∧
      message = reply request

lemma Later.length_le {s s' : Transport} (h : Later s s') : s.given.length ≤ s'.given.length := by
  by_contra hlt
  have hcall : s.given[s'.given.length]? = some (s.given[s'.given.length]) :=
    List.getElem?_eq_getElem (Nat.lt_of_not_le hlt)
  have hcall' := (List.getElem?_eq_some_iff.mp (h.given _ _ hcall)).1
  exact Nat.lt_irrefl _ hcall'

/-- A request that waits without an answer only waits on, or is dropped, until the ids repeat. -/
lemma waits_moves {call : Call} {s s' : Transport} {ticket : ℕ} {phase phase' : Phase}
    (h : Correlated s) (hknows : phase.Knows call s)
    (hnone : ∀ message, (ticket, message) ∉ s.answers)
    (hphase : phase = .awaits ticket ∨ phase = .dropped (some ticket))
    (hmoves : Moves call s phase s' phase') :
    phase' = .dropped (some ticket) ∨ 2 ^ 64 < s'.given.length := by
  rcases hphase with rfl | rfl
  · cases hmoves with
    | receive ticket message sent => exact absurd sent (hnone message)
    | close ticket unanswered gone =>
        right
        rcases h.settled ticket hknows.1.2 with hpending | ⟨message, hanswer⟩ |
          ⟨other, hne, hregistered, hid⟩
        · exact absurd hpending (gone _)
        · exact absurd hanswer (hnone message)
        · have hlt := h.known ticket hknows.1.2
          have hlt' := h.known other hregistered
          by_contra hle
          exact hne (ident_inj (by omega) (by omega) hid)
    | leave phase other waits =>
        left
        rcases waits with heq | ⟨k, rfl, heq | heq⟩
        · cases heq
        · cases heq
        · cases heq
          rfl
  · cases hmoves with
    | leave phase other waits =>
        rcases waits with heq | ⟨k, rfl, heq | heq⟩
        · cases heq
        · cases heq
        · cases heq

lemma kept_waiting (parse : String → Option Json) (n ticket : ℕ) (call : Call) :
    Tasks.Kept Call.task (Task.advance parse) (n + 1)
      (fun s => Correlated s ∧ ∀ message, (ticket, message) ∉ s.answers)
      (fun m s t => t.Knows m s ∧ (m = 0 → t = .ended) ∧
        (m = n → t = .caller call (.awaits ticket) ∨ t = .caller call (.dropped (some ticket)) ∨
          2 ^ 64 < s.given.length)) where
  start m s call hm _ := by
    have hpos : m ≠ 0 := by omega
    refine ⟨?_, fun h => absurd h hpos, fun h => by omega⟩
    cases call <;> exact ⟨hpos, trivial⟩
  shared m s choice t s' t' h hknows hstep := by
    refine ⟨(correlated_advance h.1 hknows.1 hstep).1, ?_⟩
    rcases advance_cases hstep with ⟨rfl, rfl, -⟩ | ⟨message, rfl, rfl, -⟩ |
      ⟨call, phase, phase', rfl, rfl, hmoves⟩
    · exact h.2
    · cases hknows.2.1 hknows.1.1
    · rw [answers_moves hmoves]
      exact h.2
  own m s choice t s' t' h hknows hstep := by
    obtain ⟨-, hknows', hlater⟩ := correlated_advance h.1 hknows.1 hstep
    refine ⟨hknows', fun hm => ?_, fun hm => ?_⟩
    · rw [hknows.2.1 hm] at hstep
      cases hstep
    · have hwaits : t = .caller call (.awaits ticket) ∨ t = .caller call (.dropped (some ticket)) →
          t' = .caller call (.dropped (some ticket)) ∨ 2 ^ 64 < s'.given.length := by
        intro ht
        obtain ⟨phase, hphase, rfl⟩ : ∃ phase, (phase = .awaits ticket ∨
            phase = .dropped (some ticket)) ∧ t = .caller call phase := by
          rcases ht with rfl | rfl
          · exact ⟨_, .inl rfl, rfl⟩
          · exact ⟨_, .inr rfl, rfl⟩
        obtain ⟨r, hr, hrest⟩ := Option.map_eq_some_iff.mp hstep
        cases hrest
        rcases waits_moves h.1 hknows.1.2 h.2 hphase (moves_of_advance hr) with hdropped | hgiven
        · rw [hdropped]
          exact .inl rfl
        · exact .inr hgiven
      rcases hknows.2.2 hm with ht | ht | hgiven
      · exact .inr (hwaits (.inl ht))
      · exact .inr (hwaits (.inr ht))
      · exact .inr (.inr (Nat.lt_of_lt_of_le hgiven hlater.length_le))
  others m s choice t s' t' j u h hknows hstep _ hother := by
    obtain ⟨-, -, hlater⟩ := correlated_advance h.1 hknows.1 hstep
    refine ⟨hother.1.later hlater, hother.2.1, fun hj => ?_⟩
    rcases hother.2.2 hj with hu | hu | hgiven
    · exact .inl hu
    · exact .inr (.inl hu)
    · exact .inr (.inr (Nat.lt_of_lt_of_le hgiven hlater.length_le))

/-- When stdout has ended, a request without an answer waits until it is dropped: it gets no answer and no
error. -/
theorem waits_forever {parse : String → Option Json} {as as' : List (Tasks.Action Call Choice)}
    {s s' : Tasks.System Transport Task} {n : ℕ} {call : Call} {ticket : ℕ}
    (hrun : LabelledRun.exec (step parse) spawn as = some s)
    (hended : s.tasks[0]? = some .ended)
    (hwaits : s.tasks[n]? = some (.caller call (.awaits ticket)))
    (hnone : ∀ message, (ticket, message) ∉ s.shared.answers)
    (hlater : LabelledRun.exec (step parse) s as' = some s')
    (hgiven : s'.shared.given.length ≤ 2 ^ 64) :
    s'.tasks[n]? = some (.caller call (.awaits ticket)) ∨
      s'.tasks[n]? = some (.caller call (.dropped (some ticket))) := by
  obtain ⟨hcorrelated, hknows⟩ := correlated_of_run hrun
  have hn : n < s.tasks.length := (List.getElem?_eq_some_iff.mp hwaits).1
  have hholds := (kept_waiting parse n ticket call).holds_of_run hn
    ⟨⟨hcorrelated, hnone⟩, fun m t ht => ⟨hknows m t ht, fun hm => ?_, fun hm => ?_⟩⟩ hlater
  · have hn' : n < s'.tasks.length := Nat.lt_of_lt_of_le hn (Tasks.length_le_run hlater)
    have ht : s'.tasks[n]? = some s'.tasks[n] := List.getElem?_eq_getElem hn'
    rcases (hholds.2 n _ ht).2.2 rfl with heq | heq | hlt
    · exact .inl (ht.trans (congrArg some heq))
    · exact .inr (ht.trans (congrArg some heq))
    · exact absurd hgiven (Nat.not_le_of_lt hlt)
  · rw [hm, hended] at ht
    exact (Option.some.inj ht).symm
  · rw [hm, hwaits] at ht
    exact .inl (Option.some.inj ht).symm

theorem waits_forever_ping : ∃ s s' call,
    LabelledRun.exec (step readsPong) spawn (ping.take 7 ++ [.advance 0 .ends]) = some s ∧
    LabelledRun.exec (step readsPong) s [.start call] = some s' ∧
    (s'.tasks[1]? = some (.caller call (.awaits 0)) ∨
      s'.tasks[1]? = some (.caller call (.dropped (some 0)))) := by
  refine ⟨_, _, .request "ping" ⟨.obj [], numbers_empty⟩, rfl, rfl, ?_⟩
  exact @waits_forever readsPong (ping.take 7 ++ [.advance 0 .ends]) [.start _] _ _ 1 _ 0 rfl rfl rfl
    (fun message h => absurd h List.not_mem_nil) rfl (by decide)

end Stdio
end Mcp
end Pawrly
