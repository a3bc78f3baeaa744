import Pawrly.Lib.LabelledRun
import Mathlib.Logic.Function.Basic

/-!
# Cancelling MCP queries

`pawrly-mcp/src/cancel.rs` and `run_cancellable` of `dispatch.rs`: a registry of cancellation tokens
under query ids that the clients choose.  Executions, cancellations and disconnecting clients
interleave; each step below is what one of them does at once.

The registry is exact when it lists the executions in flight and nothing else (`Exact`).  A step
keeps it exact or not according to the state before (`exact_step_iff`), so `exact_run_iff` says
which runs keep it exact throughout.
-/

namespace Pawrly
namespace Mcp

open LabelledRun

/-! ## The server -/

/-- What the `select!` of an execution has taken: the result of its own future, or the
cancellation. -/
inductive Outcome
  | own
  | cancelled
  deriving DecidableEq

/-- An execution of `run_cancellable`, from its start until it has returned or was dropped. -/
structure Execution where
  queryId : Option String
  outcome : Option Outcome := none
  deriving DecidableEq

/-- The registry with the executions that share it.  Executions are numbered, and each has the token
of its number; `cancelled` is the state of the tokens. -/
structure Server where
  inner : String → Option ℕ
  cancelled : ℕ → Bool
  executions : ℕ → Option Execution
  next : ℕ
  fresh : ∀ n, next ≤ n → executions n = none

namespace Server

def new : Server := ⟨fun _ => none, fun _ => false, fun _ => none, 0, fun _ _ => rfl⟩

/-- `register`: an entry of the same id is overwritten. -/
def register (inner : String → Option ℕ) (id : String) (token : ℕ) : String → Option ℕ :=
  Function.update inner id (some token)

/-- `finish`: the entry of the id is removed, whatever its token is. -/
def finish (inner : String → Option ℕ) (id : String) : String → Option ℕ :=
  Function.update inner id none

/-- `cancel`, with whether there was an entry. -/
def cancel (s : Server) (id : String) : Server × Bool :=
  match s.inner id with
  | some token =>
      ({ s with
          inner := Function.update s.inner id none
          cancelled := Function.update s.cancelled token true }, true)
  | none => (s, false)

/-- An execution that has started already goes on, or ends. -/
def setExecution (s : Server) (n : ℕ) (e : Option Execution) (h : n < s.next) : Server :=
  { s with
    executions := Function.update s.executions n e
    fresh := by
      intro m hm
      rw [Function.update_of_ne (by omega)]
      exact s.fresh m hm }

def setInner (s : Server) (inner : String → Option ℕ) : Server := { s with inner }

@[simp] lemma setExecution_inner (s : Server) (n : ℕ) (e : Option Execution) (h : n < s.next) :
    (s.setExecution n e h).inner = s.inner := rfl

@[simp] lemma setExecution_cancelled (s : Server) (n : ℕ) (e : Option Execution) (h : n < s.next) :
    (s.setExecution n e h).cancelled = s.cancelled := rfl

@[simp] lemma setExecution_executions (s : Server) (n : ℕ) (e : Option Execution) (h : n < s.next) :
    (s.setExecution n e h).executions = Function.update s.executions n e := rfl

lemma lt_next {s : Server} {n : ℕ} {e : Execution} (h : s.executions n = some e) : n < s.next := by
  by_contra hle
  rw [s.fresh n (Nat.not_lt.mp hle)] at h
  cases h

end Server

/-! ## Steps -/

/-- What can happen next: a request starts, with a query id or without; a `cancel_query`; the
`select!` of an execution takes its own result or the cancellation; an execution that has a result
removes its entry and returns; the future of an execution is dropped while it waits. -/
inductive Action
  | start (queryId : Option String)
  | cancelQuery (id : String)
  | ready (n : ℕ)
  | aborted (n : ℕ)
  | finish (n : ℕ)
  | drop (n : ℕ)

lemma Server.start_fresh (s : Server) (queryId : Option String) (m : ℕ) (hm : s.next + 1 ≤ m) :
    Function.update s.executions s.next (some { queryId }) m = none := by
  rw [Function.update_of_ne (by omega)]
  exact s.fresh m (by omega)

def Server.start (s : Server) (queryId : Option String) : Server where
  inner :=
    match queryId with
    | some id => Server.register s.inner id s.next
    | none => s.inner
  cancelled := Function.update s.cancelled s.next false
  executions := Function.update s.executions s.next (some { queryId })
  next := s.next + 1
  fresh := s.start_fresh queryId

def step (s : Server) : Action → Option Server
  | .start queryId => some (s.start queryId)
  | .cancelQuery id => some (s.cancel id).1
  | .ready n =>
      match h : s.executions n with
      | some ⟨queryId, none⟩ =>
          some (s.setExecution n (some ⟨queryId, some .own⟩) (Server.lt_next h))
      | _ => none
  | .aborted n =>
      match h : s.executions n with
      | some ⟨queryId, none⟩ =>
          if s.cancelled n then
            some (s.setExecution n (some ⟨queryId, some .cancelled⟩) (Server.lt_next h))
          else none
      | _ => none
  | .finish n =>
      match h : s.executions n with
      | some ⟨queryId, some _⟩ =>
          some ((s.setExecution n none (Server.lt_next h)).setInner
            (match queryId with
              | some id => Server.finish s.inner id
              | none => s.inner))
      | _ => none
  | .drop n =>
      match h : s.executions n with
      | some ⟨_, none⟩ => some (s.setExecution n none (Server.lt_next h))
      | _ => none

/-! ## What the registry is for -/

/-- The execution has the id, has not returned, was not dropped and was not cancelled yet. -/
def InFlight (s : Server) (id : String) (n : ℕ) : Prop :=
  ∃ e, s.executions n = some e ∧ e.queryId = some id ∧ s.cancelled n = false

/-- A `cancel` would report exactly whether an execution with the id is in flight, and cancel that
execution and no other; and no execution that was cancelled has a result of its own. -/
structure Exact (s : Server) : Prop where
  reports : ∀ id, (s.cancel id).2 = true ↔ ∃ n, InFlight s id n
  cancels : ∀ id n, InFlight s id n →
    (s.cancel id).1.cancelled = Function.update s.cancelled n true
  obeyed : ∀ n e, s.executions n = some e → s.cancelled n = true → e.outcome ≠ some .own

/-- The step does not spoil the registry: no start under the id of an execution in flight; no
`cancel_query` after the execution took its own result and before it removed its entry; no own result
after the cancellation; no removal of the entry of another execution; no drop of an execution in
flight. -/
def Orderly (s : Server) : Action → Prop
  | .start queryId => ∀ id n, queryId = some id → ¬ InFlight s id n
  | .cancelQuery id => ∀ n e, InFlight s id n → s.executions n = some e → e.outcome ≠ some .own
  | .ready n => s.cancelled n = false
  | .aborted _ => True
  | .finish n => ∀ id e m, s.executions n = some e → e.queryId = some id → InFlight s id m → m = n
  | .drop n => ∀ id, ¬ InFlight s id n

/-! ## One step -/

section

variable {s : Server}

lemma InFlight.not_cancelled {id : String} {n : ℕ} (h : InFlight s id n) :
    s.cancelled n = false := by
  obtain ⟨e, -, -, hnot⟩ := h
  exact hnot

/-- The registry is exact when it lists the executions in flight. -/
lemma exact_iff : Exact s ↔ (∀ id n, s.inner id = some n ↔ InFlight s id n) ∧
    ∀ n e, s.executions n = some e → s.cancelled n = true → e.outcome ≠ some .own := by
  constructor
  · intro h
    refine ⟨fun id n => ?_, h.obeyed⟩
    have hreports := h.reports id
    have hcancels := h.cancels id
    unfold Server.cancel at hreports hcancels
    cases hentry : s.inner id with
    | none =>
        rw [hentry] at hreports
        have hnone : ¬ ∃ n, InFlight s id n := fun hex => by
          cases hreports.mpr hex
        exact iff_of_false (by simp) fun hn => hnone ⟨n, hn⟩
    | some m =>
        rw [hentry] at hreports hcancels
        -- the token that is fired is that of every execution in flight under the id
        have hsame : ∀ k, InFlight s id k → k = m := by
          intro k hk
          by_contra hne
          have hfired := congrFun (hcancels k hk) k
          dsimp only at hfired
          rw [Function.update_of_ne hne, Function.update_self, hk.not_cancelled] at hfired
          cases hfired
        obtain ⟨k, hk⟩ := hreports.mp rfl
        rw [Option.some.injEq]
        constructor
        · rintro rfl
          rwa [← hsame k hk]
        · exact fun hn => (hsame n hn).symm
  · rintro ⟨hlisted, hobeyed⟩
    refine ⟨fun id => ?_, fun id n hn => ?_, hobeyed⟩
    · unfold Server.cancel
      cases hentry : s.inner id with
      | none =>
          refine iff_of_false (by simp) ?_
          rintro ⟨n, hn⟩
          rw [(hlisted id n).mpr hn] at hentry
          cases hentry
      | some m => exact iff_of_true rfl ⟨m, (hlisted id m).mp hentry⟩
    · unfold Server.cancel
      rw [(hlisted id n).mpr hn]

/-- An execution that goes on is in flight as before. -/
lemma inFlight_setExecution {n : ℕ} {e e' : Execution} (h : s.executions n = some e)
    (hid : e'.queryId = e.queryId) {id : String} {m : ℕ} :
    InFlight (s.setExecution n (some e') (Server.lt_next h)) id m ↔ InFlight s id m := by
  unfold InFlight Server.setExecution
  by_cases hm : m = n
  · subst hm
    simp [h, hid]
  · simp [hm]

lemma inFlight_remove {n : ℕ} (h : n < s.next) {id : String} {m : ℕ} :
    InFlight (s.setExecution n none h) id m ↔ InFlight s id m ∧ m ≠ n := by
  unfold InFlight Server.setExecution
  by_cases hm : m = n
  · subst hm
    simp
  · simp [hm]

/-- Nothing is in flight under the number of the next execution. -/
lemma not_inFlight_next {id : String} : ¬ InFlight s id s.next := by
  rintro ⟨e, he, -⟩
  rw [s.fresh s.next (Nat.le_refl _)] at he
  cases he

lemma inFlight_start {queryId : Option String} {id : String} {m : ℕ} :
    InFlight (s.start queryId) id m ↔ (m = s.next ∧ queryId = some id) ∨ InFlight s id m := by
  by_cases hm : m = s.next
  · subst hm
    rw [or_iff_left not_inFlight_next]
    simp [InFlight, Server.start]
  · simp [InFlight, Server.start, hm]

lemma start_exact_iff {queryId : Option String} (h : Exact s) :
    Exact (s.start queryId) ↔ Orderly s (.start queryId) := by
  obtain ⟨hlisted, hobeyed⟩ := exact_iff.mp h
  have hentries : ∀ id n, (s.start queryId).inner id = some n ↔
      (queryId = some id ∧ n = s.next) ∨ (queryId ≠ some id ∧ InFlight s id n) := by
    intro id n
    rw [← hlisted]
    cases queryId with
    | none => simp [Server.start]
    | some id' =>
        by_cases hid : id = id'
        · simp [Server.start, Server.register, hid, eq_comm]
        · simp [Server.start, Server.register, hid, Ne.symm hid]
  constructor
  · intro hexact id n hid hn
    -- the execution of before is in flight still, but the entry is the new one's
    have hentry := ((exact_iff.mp hexact).1 id n).mpr (inFlight_start.mpr (.inr hn))
    rcases (hentries id n).mp hentry with ⟨-, rfl⟩ | ⟨hne, -⟩
    · exact not_inFlight_next hn
    · exact hne hid
  · intro horderly
    refine exact_iff.mpr ⟨fun id n => ?_, fun n e he hcancelled => ?_⟩
    · rw [hentries, inFlight_start]
      constructor
      · rintro (⟨hid, hn⟩ | ⟨-, hn⟩)
        · exact .inl ⟨hn, hid⟩
        · exact .inr hn
      · rintro (⟨hn, hid⟩ | hn)
        · exact .inl ⟨hid, hn⟩
        · exact .inr ⟨fun hid => horderly id n hid hn, hn⟩
    · by_cases hn : n = s.next
      · subst hn
        simp [Server.start] at hcancelled
      · simp only [Server.start, Function.update_of_ne hn] at he hcancelled
        exact hobeyed n e he hcancelled

lemma cancel_exact_iff {id : String} (h : Exact s) :
    Exact (s.cancel id).1 ↔ Orderly s (.cancelQuery id) := by
  obtain ⟨hlisted, hobeyed⟩ := exact_iff.mp h
  unfold Server.cancel
  cases hentry : s.inner id with
  | none =>
      refine iff_of_true h fun n e hn => ?_
      rw [(hlisted id n).mpr hn] at hentry
      cases hentry
  | some n =>
      dsimp only
      obtain ⟨e, he, hid, hnot⟩ := (hlisted id n).mp hentry
      have hflight : ∀ id' m, InFlight { s with
          inner := Function.update s.inner id none
          cancelled := Function.update s.cancelled n true } id' m ↔ InFlight s id' m ∧ m ≠ n := by
        intro id' m
        by_cases hm : m = n
        · subst hm
          simp [InFlight]
        · simp [InFlight, hm]
      have hsame : ∀ m, InFlight s id m → m = n := by
        intro m hm
        rw [← hlisted, hentry] at hm
        exact (Option.some.inj hm).symm
      rw [exact_iff]
      constructor
      · rintro ⟨-, hobeyed'⟩ m e' hm he'
        obtain rfl := hsame m hm
        exact hobeyed' m e' he' (Function.update_self _ _ _)
      · intro horderly
        refine ⟨fun id' m => ?_, fun m e' he' hcancelled => ?_⟩
        · rw [hflight]
          by_cases hid' : id' = id
          · subst hid'
            dsimp only
            rw [Function.update_self]
            exact iff_of_false (by simp) fun hc => hc.2 (hsame m hc.1)
          · dsimp only
            rw [Function.update_of_ne hid', hlisted, iff_self_and]
            rintro ⟨e', he', hid'', -⟩ rfl
            rw [he] at he'
            obtain rfl := Option.some.inj he'
            rw [hid] at hid''
            exact hid' (Option.some.inj hid'').symm
        · by_cases hm : m = n
          · subst hm
            exact horderly m e' ⟨e, he, hid, hnot⟩ he'
          · dsimp only at he' hcancelled
            rw [Function.update_of_ne hm] at hcancelled
            exact hobeyed m e' he' hcancelled

/-- An execution whose `select!` is done. -/
lemma settle_exact_iff {n : ℕ} {queryId : Option String} {outcome : Outcome}
    (he : s.executions n = some ⟨queryId, none⟩) (h : Exact s) :
    Exact (s.setExecution n (some ⟨queryId, some outcome⟩) (Server.lt_next he)) ↔
      (outcome = .own → s.cancelled n = false) := by
  obtain ⟨hlisted, hobeyed⟩ := exact_iff.mp h
  have hsame : ∀ id m, (s.setExecution n (some ⟨queryId, some outcome⟩)
      (Server.lt_next he)).inner id = some m ↔ InFlight (s.setExecution n
        (some ⟨queryId, some outcome⟩) (Server.lt_next he)) id m := by
    intro id m
    rw [@inFlight_setExecution _ _ _ ⟨queryId, some outcome⟩ he rfl]
    exact hlisted id m
  rw [exact_iff, and_iff_right hsame]
  constructor
  · rintro hobeyed' rfl
    by_contra hcancelled
    exact hobeyed' n ⟨queryId, some .own⟩ (by simp) (by simpa using hcancelled) rfl
  · intro hown m e' he' hcancelled
    rw [Server.setExecution_executions] at he'
    rw [Server.setExecution_cancelled] at hcancelled
    by_cases hm : m = n
    · subst hm
      rw [Function.update_self] at he'
      obtain rfl := Option.some.inj he'
      intro hc
      rw [hown (Option.some.inj hc)] at hcancelled
      cases hcancelled
    · rw [Function.update_of_ne hm] at he'
      exact hobeyed m e' he' hcancelled

/-- An execution that is gone, with the entries `inner'` afterwards. -/
lemma obeyed_remove {n : ℕ} (hn : n < s.next) (h : Exact s) :
    ∀ m e, (s.setExecution n none hn).executions m = some e → s.cancelled m = true →
      e.outcome ≠ some .own := by
  intro m e he hcancelled
  rw [Server.setExecution_executions] at he
  by_cases hm : m = n
  · subst hm
    rw [Function.update_self] at he
    cases he
  · rw [Function.update_of_ne hm] at he
    exact h.obeyed m e he hcancelled

lemma drop_exact_iff {n : ℕ} (hn : n < s.next) (h : Exact s) :
    Exact (s.setExecution n none hn) ↔ ∀ id, ¬ InFlight s id n := by
  obtain ⟨hlisted, -⟩ := exact_iff.mp h
  refine exact_iff.trans ((and_iff_left (obeyed_remove hn h)).trans ?_)
  constructor
  · intro hlisted' id hflight
    have hentry := (hlisted id n).mpr hflight
    exact (inFlight_remove hn).mp ((hlisted' id n).mp hentry) |>.2 rfl
  · intro hnone id m
    rw [inFlight_remove, Server.setExecution_inner, hlisted, iff_self_and]
    rintro hm rfl
    exact hnone id hm

lemma finish_exact_iff {n : ℕ} {id : String} {outcome : Option Outcome}
    (he : s.executions n = some ⟨some id, outcome⟩) (h : Exact s) :
    Exact ((s.setExecution n none (Server.lt_next he)).setInner (Server.finish s.inner id)) ↔
      ∀ m, InFlight s id m → m = n := by
  obtain ⟨hlisted, -⟩ := exact_iff.mp h
  refine exact_iff.trans ((and_iff_left (obeyed_remove (Server.lt_next he) h)).trans ?_)
  have hflight : ∀ id' m, InFlight ((s.setExecution n none (Server.lt_next he)).setInner
      (Server.finish s.inner id)) id' m ↔ InFlight s id' m ∧ m ≠ n :=
    fun id' m => inFlight_remove (Server.lt_next he)
  constructor
  · intro hlisted' m hm
    by_contra hne
    have hentry := (hlisted' id m).mpr ((hflight id m).mpr ⟨hm, hne⟩)
    simp [Server.finish, Server.setInner] at hentry
  · intro honly id' m
    rw [hflight]
    by_cases hid : id' = id
    · subst hid
      exact iff_of_false (by simp [Server.finish, Server.setInner]) fun hc => hc.2 (honly m hc.1)
    · simp only [Server.finish, Server.setInner, Function.update_of_ne hid, hlisted, iff_self_and]
      rintro ⟨e', he', hid', -⟩ rfl
      rw [he] at he'
      obtain rfl := Option.some.inj he'
      exact hid (Option.some.inj hid').symm

/-- **A step keeps the registry exact** when it is orderly, and spoils it at once when it is not. -/
theorem exact_step_iff {s' : Server} {a : Action} (h : Exact s) (hstep : step s a = some s') :
    Exact s' ↔ Orderly s a := by
  cases a with
  | start queryId =>
      obtain rfl := Option.some.inj hstep
      exact start_exact_iff h
  | cancelQuery id =>
      obtain rfl := Option.some.inj hstep
      exact cancel_exact_iff h
  | ready n =>
      simp only [step] at hstep
      split at hstep
      · next queryId he =>
          obtain rfl := Option.some.inj hstep
          rw [settle_exact_iff he h]
          exact ⟨fun hown => hown rfl, fun hn _ => hn⟩
      · cases hstep
  | aborted n =>
      simp only [step] at hstep
      split at hstep
      · next queryId he =>
          split_ifs at hstep
          obtain rfl := Option.some.inj hstep
          rw [settle_exact_iff he h]
          exact iff_of_true (fun hc => by cases hc) trivial
      · cases hstep
  | finish n =>
      simp only [step] at hstep
      split at hstep
      · next queryId outcome he =>
          obtain rfl := Option.some.inj hstep
          cases queryId with
          | none =>
              -- without an id no entry is removed
              refine iff_of_true ((drop_exact_iff (Server.lt_next he) h).mpr ?_) ?_
              · rintro id ⟨e, he', hid, -⟩
                rw [he] at he'
                obtain rfl := Option.some.inj he'
                cases hid
              · intro id e m he' hid
                rw [he] at he'
                obtain rfl := Option.some.inj he'
                cases hid
          | some id =>
              rw [finish_exact_iff he h]
              constructor
              · intro honly id' e m he' hid' hm
                rw [he] at he'
                obtain rfl := Option.some.inj he'
                obtain rfl := Option.some.inj hid'
                exact honly m hm
              · exact fun horderly m hm => horderly id _ m he rfl hm
      · cases hstep
  | drop n =>
      simp only [step] at hstep
      split at hstep
      · next queryId he =>
          obtain rfl := Option.some.inj hstep
          exact drop_exact_iff (Server.lt_next he) h
      · cases hstep

end

/-! ## Runs -/

lemma exact_new : Exact Server.new := by
  refine exact_iff.mpr ⟨fun id n => iff_of_false (fun hc => by cases hc) ?_, fun n e he => by cases he⟩
  rintro ⟨e, he, -⟩
  cases he

lemma every_exact_iff {s : Server} (h : Exact s) (as : List Action) :
    Every step (fun _ _ s' => Exact s') s as ↔ Every step (fun s a _ => Orderly s a) s as := by
  induction as generalizing s with
  | nil => exact Iff.rfl
  | cons a as ih =>
      constructor
      · intro hexact s' hstep
        obtain ⟨hs', hrest⟩ := hexact s' hstep
        exact ⟨(exact_step_iff h hstep).mp hs', (ih hs').mp hrest⟩
      · intro horderly s' hstep
        obtain ⟨hs, hrest⟩ := horderly s' hstep
        have hs' : Exact s' := (exact_step_iff h hstep).mpr hs
        exact ⟨hs', (ih hs').mpr hrest⟩

/-- **The registry is exact after every step of a run** exactly when every step of the run is
orderly. -/
theorem exact_run_iff (as : List Action) :
    Every step (fun _ _ s' => Exact s') Server.new as ↔
      Every step (fun s a _ => Orderly s a) Server.new as :=
  every_exact_iff exact_new as

/-! ## A query id that is used twice -/

/-- Two executions under one id, of which the first returns. -/
def reusedId : List Action := [.start (some "q"), .start (some "q"), .ready 0, .finish 0]

/-- The second execution is in flight, and its entry is gone with the first one. -/
theorem reusedId_not_exact :
    ¬ ∀ (as : List Action) (s : Server), exec step Server.new as = some s → Exact s := by
  intro hall
  have hthere : (exec step Server.new reusedId).isSome = true := by decide
  obtain ⟨s, hs⟩ := Option.isSome_iff_exists.mp hthere
  have hreport : ((exec step Server.new reusedId).map fun s => (s.cancel "q").2) = some false := by
    decide
  have hflight : ((exec step Server.new reusedId).map fun s =>
      (s.executions 1, s.cancelled 1)) = some (some ⟨some "q", none⟩, false) := by decide
  rw [hs, Option.map_some, Option.some.injEq] at hreport hflight
  obtain ⟨hexec, hnot⟩ := Prod.mk.inj hflight
  have hcancel := ((hall reusedId s hs).reports "q").mpr ⟨1, _, hexec, rfl, hnot⟩
  rw [hreport] at hcancel
  cases hcancel

end Mcp
end Pawrly
