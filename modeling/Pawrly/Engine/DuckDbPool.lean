import Pawrly.Lib.Tasks
import Mathlib.Algebra.Group.Prod
import Mathlib.Algebra.Order.BigOperators.Group.List
import Mathlib.Algebra.Order.Ring.Nat
import Mathlib.Algebra.Order.Group.Multiset
import Mathlib.Data.Finset.Insert

/-!
# The connection pool

`DuckDbPool` hands a connection to each operation and counts the operations by the permits of a
semaphore.  `INSTALL` is asked for once, `LOAD` once for each connection: `ensure_extension` loads the
extension onto the idle connections and leaves the others to their next checkout.  The calls run
side by side, in the steps that the locks leave undivided, and any statement may fail.

No two operations hold one connection and there are never more of them than permits, nothing is
loaded twice or before it was installed (`safe_of_run`), and an operation that begins after
`ensure_extension` has returned runs with the extension (`loaded_of_ensured`).
-/

namespace Pawrly
namespace Engine
namespace DuckDbPool

/-! ## The pool -/

/-- What the pool asks of the database. -/
inductive Statement
  | tryClone
  | install (ext : String)
  | load (raw : ℕ) (ext : String)
  | run (raw : ℕ)
  deriving DecidableEq

/-- The statements that were made, and whether they succeeded. -/
abbrev Log := List (Statement × Bool)

/-- A connection, by its number, with the extensions it has loaded. -/
structure PooledConn where
  raw : ℕ
  loaded : Finset String
  deriving DecidableEq

/-- `PoolInner` with the permits that are left, the number of the next connection and the statements
that were made. -/
structure PoolInner where
  free : List PooledConn
  required : List String
  installed : Finset String
  permits : ℕ
  nextRaw : ℕ
  log : Log

/-- The end of a loading: what it was about, the statements and whether they succeeded. -/
structure Loading (α : Type) where
  value : α
  log : Log
  ok : Bool

/-- `load_ext`. -/
def loadExt (succeeds : Statement → Bool) (conn : PooledConn) (ext : String) : Loading PooledConn :=
  if ext ∈ conn.loaded then ⟨conn, [], true⟩
  else if succeeds (.load conn.raw ext) then
    ⟨{ conn with loaded := insert ext conn.loaded }, [(.load conn.raw ext, true)], true⟩
  else ⟨conn, [(.load conn.raw ext, false)], false⟩

/-- The loop of `ensure_extension` over the idle connections. -/
def loadFree (succeeds : Statement → Bool) (ext : String) :
    List PooledConn → Loading (List PooledConn)
  | [] => ⟨[], [], true⟩
  | conn :: conns =>
      let first := loadExt succeeds conn ext
      if first.ok then
        let rest := loadFree succeeds ext conns
        ⟨first.value :: rest.value, first.log ++ rest.log, rest.ok⟩
      else ⟨first.value :: conns, first.log, false⟩

/-- `with_offline`, when the database opens. -/
def withOffline (size : ℕ) : PoolInner where
  free := (List.range (max size 1)).map fun raw => ⟨raw, ∅⟩
  required := []
  installed := ∅
  permits := max size 1
  nextRaw := max size 1
  log := []

/-! ## The calls -/

inductive Call
  | ensureExtension (ext : String)
  /-- `execute`, `fetch_arrow` or `fetch_arrow_stream`. -/
  | operate

/-- What a call does next. -/
inductive Task
  /-- Looks whether the extension is required already. -/
  | ensures (ext : String)
  /-- Waits for a permit, to install an extension. -/
  | awaits (ext : String)
  | installs (ext : String)
  | loadsFree (ext : String)
  /-- Looks again whether the extension is required. -/
  | checks (ext : String)
  | pushes (ext : String)
  /-- Waits for a permit, to run a statement. -/
  | operates
  | checksOut
  /-- Has a connection and clones the list of required extensions. -/
  | reads (conn : PooledConn)
  | loads (conn : PooledConn) (exts : List String)
  /-- Runs its statement and gives the connection back. -/
  | runs (conn : PooledConn)
  /-- Gives the permit back. -/
  | closes (ext : Option String) (ok : Bool)
  | returned (ext : Option String) (ok : Bool)
  | dropped
  deriving DecidableEq

def Call.task : Call → Task
  | .ensureExtension ext => .ensures ext
  | .operate => .operates

/-- A call goes on, where its statements succeed or fail, or is dropped while it waits. -/
inductive Choice
  | goOn (succeeds : Statement → Bool)
  | drop

namespace Task

/-- `checkout`, up to the connection: an idle one, or a clone of the anchor. -/
def checkout (succeeds : Statement → Bool) (s : PoolInner) : PoolInner × Task :=
  match s.free.getLast? with
  | some conn => ({ s with free := s.free.dropLast }, .reads conn)
  | none =>
      if succeeds .tryClone then
        ({ s with nextRaw := s.nextRaw + 1, log := s.log ++ [(.tryClone, true)] },
          .reads ⟨s.nextRaw, ∅⟩)
      else ({ s with log := s.log ++ [(.tryClone, false)] }, .closes none false)

/-- The next step of a call. -/
def goOn (offline : Bool) (succeeds : Statement → Bool) (s : PoolInner) :
    Task → Option (PoolInner × Task)
  | .ensures ext =>
      if ext ∈ s.required then some (s, .returned (some ext) true) else some (s, .awaits ext)
  | .awaits ext =>
      if s.permits = 0 then none else some ({ s with permits := s.permits - 1 }, .installs ext)
  | .installs ext =>
      if !offline && ext ∉ s.installed then
        if succeeds (.install ext) then
          some ({ s with
            installed := insert ext s.installed, log := s.log ++ [(.install ext, true)] },
            .loadsFree ext)
        else some ({ s with log := s.log ++ [(.install ext, false)] }, .closes (some ext) false)
      else some ({ s with installed := insert ext s.installed }, .loadsFree ext)
  | .loadsFree ext =>
      let r := loadFree succeeds ext s.free
      some ({ s with free := r.value, log := s.log ++ r.log },
        if r.ok then .checks ext else .closes (some ext) false)
  | .checks ext =>
      if ext ∈ s.required then some (s, .closes (some ext) true) else some (s, .pushes ext)
  | .pushes ext => some ({ s with required := s.required ++ [ext] }, .closes (some ext) true)
  | .operates =>
      if s.permits = 0 then none else some ({ s with permits := s.permits - 1 }, .checksOut)
  | .checksOut => some (checkout succeeds s)
  | .reads conn => some (s, .loads conn s.required)
  | .loads conn [] => some (s, .runs conn)
  | .loads conn (ext :: exts) =>
      let r := loadExt succeeds conn ext
      some ({ s with log := s.log ++ r.log },
        if r.ok then .loads r.value exts else .closes none false)
  | .runs conn =>
      some ({ s with
        free := s.free ++ [conn], log := s.log ++ [(.run conn.raw, succeeds (.run conn.raw))] },
        .closes none (succeeds (.run conn.raw)))
  | .closes ext ok => some ({ s with permits := s.permits + 1 }, .returned ext ok)
  | .returned _ _ => none
  | .dropped => none

/-- A future that has no permit yet can be dropped; the blocking task of one that has goes on. -/
def waits : Task → Bool
  | .ensures _ | .awaits _ | .operates => true
  | _ => false

def advance (offline : Bool) (s : PoolInner) (choice : Choice) (t : Task) :
    Option (PoolInner × Task) :=
  match choice with
  | .goOn succeeds => goOn offline succeeds s t
  | .drop => if t.waits then some (s, .dropped) else none

end Task

/-- A step of the pool and its calls. -/
abbrev step (offline : Bool) := Tasks.step Call.task (Task.advance offline)

/-- The pool before the first call. -/
def start (size : ℕ) : Tasks.System PoolInner Task := ⟨withOffline size, []⟩

/-! ## Connections -/

/-- What the log says about connections: they are different ones, and each has loaded what was loaded
on it, once. -/
structure Conns (conns : Multiset PooledConn) (nextRaw : ℕ) (log : Log) : Prop where
  nodup : (conns.map PooledConn.raw).Nodup
  fresh : ∀ c ∈ conns, c.raw < nextRaw
  loaded : ∀ c ∈ conns, ∀ ext, ext ∈ c.loaded ↔ (.load c.raw ext, true) ∈ log
  used : ∀ raw ext ok, (.load raw ext, ok) ∈ log → raw < nextRaw
  once : ∀ raw ext, log.count (.load raw ext, true) ≤ 1

section

variable {conns rest : Multiset PooledConn} {nextRaw : ℕ} {log log' : Log} {conn : PooledConn}
  {succeeds : Statement → Bool} {ext : String}

lemma Conns.mono (h : Conns (conn ::ₘ rest) nextRaw log) : Conns rest nextRaw log where
  nodup := (Multiset.nodup_cons.mp (Multiset.map_cons _ _ _ ▸ h.nodup)).2
  fresh c hc := h.fresh c (Multiset.mem_cons_of_mem hc)
  loaded c hc := h.loaded c (Multiset.mem_cons_of_mem hc)
  used := h.used
  once := h.once

/-- Other statements than loadings change nothing. -/
lemma Conns.append (h : Conns conns nextRaw log)
    (hlog : ∀ raw ext ok, (.load raw ext, ok) ∉ log') : Conns conns nextRaw (log ++ log') where
  nodup := h.nodup
  fresh := h.fresh
  loaded c hc ext := by
    rw [h.loaded c hc ext, List.mem_append, or_iff_left (hlog _ _ _)]
  used raw ext ok hmem := h.used raw ext ok ((List.mem_append.mp hmem).resolve_right (hlog _ _ _))
  once raw ext := by
    rw [List.count_append, List.count_eq_zero_of_not_mem (hlog raw ext true)]
    exact h.once raw ext

lemma Conns.clone (h : Conns conns nextRaw log) :
    Conns (⟨nextRaw, ∅⟩ ::ₘ conns) (nextRaw + 1) log where
  nodup := by
    rw [Multiset.map_cons, Multiset.nodup_cons]
    refine ⟨fun hmem => ?_, h.nodup⟩
    obtain ⟨c, hc, hraw⟩ := Multiset.mem_map.mp hmem
    have hlt := h.fresh c hc
    replace hraw : c.raw = nextRaw := hraw
    omega
  fresh c hc := by
    rcases Multiset.mem_cons.mp hc with rfl | hc
    · exact Nat.lt_succ_self _
    · exact Nat.lt_succ_of_lt (h.fresh c hc)
  loaded c hc ext := by
    rcases Multiset.mem_cons.mp hc with rfl | hc
    · refine iff_of_false (Finset.notMem_empty ext) fun hmem => ?_
      exact Nat.lt_irrefl _ (h.used _ _ _ hmem)
    · exact h.loaded c hc ext
  used raw ext ok hmem := Nat.lt_succ_of_lt (h.used raw ext ok hmem)
  once := h.once

@[simp] lemma loadExt_raw : (loadExt succeeds conn ext).value.raw = conn.raw := by
  unfold loadExt
  split_ifs <;> rfl

lemma loadExt_log : (loadExt succeeds conn ext).log = [] ∨
    ∃ ok, (loadExt succeeds conn ext).log = [(.load conn.raw ext, ok)] := by
  unfold loadExt
  split_ifs
  · exact .inl rfl
  · exact .inr ⟨true, rfl⟩
  · exact .inr ⟨false, rfl⟩

/-- A loading that ends well ends with the extension, and none takes an extension away. -/
lemma loadExt_loaded (hok : (loadExt succeeds conn ext).ok = true) :
    ext ∈ (loadExt succeeds conn ext).value.loaded := by
  unfold loadExt at hok ⊢
  split_ifs at hok ⊢ with hmem
  · exact hmem
  · exact Finset.mem_insert_self _ _

lemma subset_loadExt : conn.loaded ⊆ (loadExt succeeds conn ext).value.loaded := by
  unfold loadExt
  split_ifs
  · exact Finset.Subset.refl _
  · exact Finset.subset_insert _ _
  · exact Finset.Subset.refl _

lemma Conns.load (h : Conns (conn ::ₘ rest) nextRaw log) :
    Conns ((loadExt succeeds conn ext).value ::ₘ rest) nextRaw
      (log ++ (loadExt succeeds conn ext).log) := by
  have hraw : conn.raw < nextRaw := h.fresh conn (Multiset.mem_cons_self _ _)
  have hother : ∀ c ∈ rest, c.raw ≠ conn.raw := by
    intro c hc heq
    have hnodup := h.nodup
    rw [Multiset.map_cons, Multiset.nodup_cons] at hnodup
    exact hnodup.1 (heq ▸ Multiset.mem_map_of_mem _ hc)
  unfold loadExt
  split_ifs with hmem hsucceeds
  · simpa using h
  · have hnew : (Statement.load conn.raw ext, true) ∉ log := fun hin =>
      hmem ((h.loaded conn (Multiset.mem_cons_self _ _) ext).mpr hin)
    refine ⟨?_, ?_, ?_, ?_, ?_⟩
    · simpa using h.nodup
    · intro c hc
      rcases Multiset.mem_cons.mp hc with rfl | hc
      · exact hraw
      · exact h.fresh c (Multiset.mem_cons_of_mem hc)
    · intro c hc other
      rcases Multiset.mem_cons.mp hc with rfl | hc
      · have hbefore := h.loaded conn (Multiset.mem_cons_self _ _) other
        simp only [Finset.mem_insert, hbefore, List.mem_append, List.mem_singleton, Prod.mk.injEq,
          Statement.load.injEq, true_and, and_true]
        exact or_comm
      · have hne := hother c hc
        simp [h.loaded c (Multiset.mem_cons_of_mem hc) other, hne]
    · intro raw other ok hin
      rcases List.mem_append.mp hin with hin | hin
      · exact h.used raw other ok hin
      · simp only [List.mem_singleton, Prod.mk.injEq, Statement.load.injEq] at hin
        rw [hin.1.1]
        exact hraw
    · intro raw other
      rw [List.count_append, List.count_singleton]
      split_ifs with heq
      · rw [← eq_of_beq heq, List.count_eq_zero_of_not_mem hnew]
      · exact h.once raw other
  · refine ⟨h.nodup, h.fresh, fun c hc other => ?_, fun raw other ok hin => ?_, fun raw other => ?_⟩
    · simp [h.loaded c hc other]
    · rcases List.mem_append.mp hin with hin | hin
      · exact h.used raw other ok hin
      · simp only [List.mem_singleton, Prod.mk.injEq, Statement.load.injEq] at hin
        rw [hin.1.1]
        exact hraw
    · rw [List.count_append]
      simpa using h.once raw other

lemma Conns.loadFree {free : List PooledConn} (h : Conns (free + rest) nextRaw log) :
    Conns ((DuckDbPool.loadFree succeeds ext free).value + rest) nextRaw
      (log ++ (DuckDbPool.loadFree succeeds ext free).log) := by
  induction free generalizing rest log with
  | nil => simpa [DuckDbPool.loadFree] using h
  | cons conn free ih =>
      rw [← Multiset.cons_coe, Multiset.cons_add] at h
      have hfirst := @Conns.load _ _ _ conn succeeds ext h
      unfold DuckDbPool.loadFree
      dsimp only
      split_ifs with hok
      · -- the rest of the loop keeps the connection that is done
        rw [← Multiset.add_cons] at hfirst
        have hrest := ih hfirst
        dsimp only
        rw [← Multiset.cons_coe, Multiset.cons_add, ← Multiset.add_cons, ← List.append_assoc]
        exact hrest
      · dsimp only
        rw [← Multiset.cons_coe, Multiset.cons_add]
        exact hfirst

lemma length_loadFree {free : List PooledConn} :
    (DuckDbPool.loadFree succeeds ext free).value.length = free.length := by
  induction free with
  | nil => rfl
  | cons conn free ih =>
      unfold DuckDbPool.loadFree
      dsimp only
      split_ifs
      · simp [ih]
      · simp

end

/-! ## What the calls own -/

namespace Task

/-- The connection that a call holds. -/
def held : Task → Multiset PooledConn
  | .reads conn | .loads conn _ | .runs conn => {conn}
  | _ => 0

/-- The permit of a call that has no connection. -/
def spare : Task → ℕ
  | .installs _ | .loadsFree _ | .checks _ | .pushes _ | .checksOut | .closes _ _ => 1
  | _ => 0

def own (t : Task) : ℕ × Multiset PooledConn := (t.spare, t.held)

end Task

/-- The permits that are left and those of the calls are all there are, and neither are there more
connections. -/
structure Owned (size : ℕ) (s : PoolInner) (m : ℕ × Multiset PooledConn) : Prop where
  permits : s.permits + m.1 + m.2.card = max size 1
  bounded : s.free.length + m.2.card ≤ max size 1
  conns : Conns (s.free + m.2) s.nextRaw s.log

lemma owned_start (size : ℕ) : Owned size (start size).shared (Tasks.owned Task.own []) where
  permits := by simp [start, withOffline, Tasks.owned]
  bounded := by simp [start, withOffline, Tasks.owned]
  conns := by
    have hraws : ((List.range (max size 1)).map (PooledConn.mk · ∅)).map PooledConn.raw =
        List.range (max size 1) := by simp [Function.comp_def]
    refine ⟨?_, fun c hc => ?_, fun c hc ext => ?_, ?_, ?_⟩
    · simp only [start, withOffline, Tasks.owned, List.map_nil, List.sum_nil, Prod.snd_zero,
        add_zero, Multiset.map_coe, hraws, Multiset.coe_nodup]
      exact List.nodup_range
    · obtain ⟨raw, hraw, rfl⟩ : ∃ raw, raw < max size 1 ∧ (⟨raw, ∅⟩ : PooledConn) = c := by
        simpa [start, withOffline, Tasks.owned] using hc
      exact hraw
    · obtain ⟨raw, hraw, rfl⟩ : ∃ raw, raw < max size 1 ∧ (⟨raw, ∅⟩ : PooledConn) = c := by
        simpa [start, withOffline, Tasks.owned] using hc
      simp [start, withOffline]
    · simp [start, withOffline]
    · simp [start, withOffline]

section

variable {size : ℕ} {offline : Bool} {succeeds : Statement → Bool} {s s' : PoolInner} {t t' : Task}
  {rest : ℕ × Multiset PooledConn}

lemma owned_checkout (h : Owned size s (Task.checksOut.own + rest)) :
    Owned size (Task.checkout succeeds s).1 ((Task.checkout succeeds s).2.own + rest) := by
  obtain ⟨spare, held⟩ := rest
  obtain ⟨hpermits, hbounded, hconns⟩ := h
  simp only [Task.own, Task.spare, Task.held, Prod.mk_add_mk, zero_add] at hpermits hbounded hconns
  unfold Task.checkout
  cases hlast : s.free.getLast? with
  | some conn =>
      -- the connection goes over from the idle ones to the call
      have hfree : s.free = s.free.dropLast ++ [conn] :=
        (List.dropLast_append_getLast? conn hlast).symm
      have hlength : s.free.length = s.free.dropLast.length + 1 := by
        conv_lhs => rw [hfree]
        simp
      have hsame : (s.free : Multiset PooledConn) + held = s.free.dropLast + ({conn} + held) := by
        conv_lhs => rw [hfree]
        rw [← Multiset.coe_add, ← Multiset.coe_singleton, add_assoc]
      refine ⟨?_, ?_, ?_⟩
      · simp only [Task.own, Task.spare, Task.held, Prod.mk_add_mk, Multiset.card_add,
          Multiset.card_singleton]
        omega
      · simp only [Task.own, Task.held, Prod.mk_add_mk, Multiset.card_add, Multiset.card_singleton]
        omega
      · exact hsame ▸ hconns
  | none =>
      have hempty : s.free = [] := List.getLast?_eq_none_iff.mp hlast
      have hnone : ∀ ok : Bool, ∀ raw ext (ok' : Bool),
          (Statement.load raw ext, ok') ∉ [(Statement.tryClone, ok)] := by simp
      dsimp only
      split_ifs
      · refine ⟨?_, ?_, ?_⟩
        · simp only [Task.own, Task.spare, Task.held, Prod.mk_add_mk, Multiset.card_add,
            Multiset.card_singleton]
          omega
        · simp only [Task.own, Task.held, Prod.mk_add_mk, Multiset.card_add, hempty,
            Multiset.card_singleton, List.length_nil]
          omega
        · simp only [Task.own, Task.held, Prod.mk_add_mk, hempty, Multiset.coe_nil, zero_add,
            Multiset.singleton_add] at hconns ⊢
          exact (hconns.append (hnone true)).clone
      · refine ⟨?_, ?_, ?_⟩
        · simp only [Task.own, Task.spare, Task.held, Prod.mk_add_mk, zero_add]
          omega
        · simpa [Task.own, Task.held] using hbounded
        · simp only [Task.own, Task.held, Prod.mk_add_mk, zero_add]
          exact hconns.append (hnone false)

lemma owned_goOn (h : Owned size s (t.own + rest))
    (hstep : Task.goOn offline succeeds s t = some (s', t')) : Owned size s' (t'.own + rest) := by
  cases t with
  | ensures ext =>
      rw [Task.goOn] at hstep
      split_ifs at hstep
      · cases hstep
        exact h
      · cases hstep
        exact h
  | awaits ext =>
      rw [Task.goOn] at hstep
      split_ifs at hstep with hpermits
      cases hstep
      refine ⟨?_, h.bounded, h.conns⟩
      have hall := h.permits
      simp only [Task.own, Task.spare, Task.held, Prod.fst_add, Prod.snd_add, zero_add] at hall ⊢
      omega
  | installs ext =>
      have hnone : ∀ ok : Bool, ∀ raw ext' (ok' : Bool),
          (Statement.load raw ext', ok') ∉ [(Statement.install ext, ok)] := by simp
      rw [Task.goOn] at hstep
      split_ifs at hstep
      · cases hstep
        exact ⟨h.permits, h.bounded, h.conns.append (hnone true)⟩
      · cases hstep
        exact ⟨h.permits, h.bounded, h.conns.append (hnone false)⟩
      · cases hstep
        exact ⟨h.permits, h.bounded, h.conns⟩
  | loadsFree ext =>
      cases hstep
      have hown : ∀ ok, (if ok = true then Task.checks ext else .closes (some ext) false).own =
          (Task.loadsFree ext).own := by
        intro ok
        cases ok <;> rfl
      rw [hown]
      refine ⟨h.permits, ?_, ?_⟩
      · rw [length_loadFree]
        exact h.bounded
      · exact h.conns.loadFree
  | checks ext =>
      rw [Task.goOn] at hstep
      split_ifs at hstep
      · cases hstep
        exact h
      · cases hstep
        exact h
  | pushes ext =>
      cases hstep
      exact ⟨h.permits, h.bounded, h.conns⟩
  | operates =>
      rw [Task.goOn] at hstep
      split_ifs at hstep with hpermits
      cases hstep
      refine ⟨?_, h.bounded, h.conns⟩
      have hall := h.permits
      simp only [Task.own, Task.spare, Task.held, Prod.fst_add, Prod.snd_add, zero_add] at hall ⊢
      omega
  | checksOut =>
      have hcheckout := @owned_checkout _ succeeds _ _ h
      rw [Option.some.inj hstep] at hcheckout
      exact hcheckout
  | reads conn =>
      cases hstep
      exact h
  | loads conn exts =>
      cases exts with
      | nil =>
          cases hstep
          exact h
      | cons ext exts =>
          cases hstep
          have hconns := h.conns
          simp only [Task.own, Task.held, Prod.snd_add, Multiset.singleton_add,
            Multiset.add_cons] at hconns
          have hload := @Conns.load _ _ _ conn succeeds ext hconns
          have hpermits := h.permits
          have hbounded := h.bounded
          simp only [Task.own, Task.spare, Task.held, Prod.fst_add, Prod.snd_add,
            Multiset.card_add, Multiset.card_singleton, zero_add] at hpermits hbounded
          split_ifs
          · refine ⟨?_, ?_, ?_⟩
            · simp only [Task.own, Task.spare, Task.held, Prod.fst_add, Prod.snd_add,
                Multiset.card_add, Multiset.card_singleton, zero_add]
              exact hpermits
            · simp only [Task.own, Task.held, Prod.snd_add, Multiset.card_add,
                Multiset.card_singleton]
              exact hbounded
            · simp only [Task.own, Task.held, Prod.snd_add, Multiset.singleton_add,
                Multiset.add_cons]
              exact hload
          · -- the connection is closed
            refine ⟨?_, ?_, ?_⟩
            · simp only [Task.own, Task.spare, Task.held, Prod.fst_add, Prod.snd_add, zero_add]
              omega
            · simp only [Task.own, Task.held, Prod.snd_add, zero_add]
              omega
            · simp only [Task.own, Task.held, Prod.snd_add, zero_add]
              exact hload.mono
  | runs conn =>
      cases hstep
      have hpermits := h.permits
      have hbounded := h.bounded
      have hconns := h.conns
      simp only [Task.own, Task.spare, Task.held, Prod.fst_add, Prod.snd_add,
        Multiset.card_add, Multiset.card_singleton, zero_add] at hpermits hbounded hconns
      refine ⟨?_, ?_, ?_⟩
      · simp only [Task.own, Task.spare, Task.held, Prod.fst_add, Prod.snd_add, zero_add]
        omega
      · simp only [Task.own, Task.held, Prod.snd_add, zero_add, List.length_append,
          List.length_singleton]
        omega
      · simp only [Task.own, Task.held, Prod.snd_add, zero_add, ← Multiset.coe_add,
          Multiset.coe_singleton, add_assoc]
        exact hconns.append (by simp)
  | closes ext ok =>
      cases hstep
      refine ⟨?_, h.bounded, h.conns⟩
      have hall := h.permits
      simp only [Task.own, Task.spare, Task.held, Prod.fst_add, Prod.snd_add, zero_add] at hall ⊢
      omega
  | returned ext ok => cases hstep
  | dropped => cases hstep

lemma owned_advance {choice : Choice} (h : Owned size s (t.own + rest))
    (hstep : Task.advance offline s choice t = some (s', t')) : Owned size s' (t'.own + rest) := by
  cases choice with
  | goOn succeeds => exact owned_goOn h hstep
  | drop =>
      unfold Task.advance at hstep
      dsimp only at hstep
      split_ifs at hstep with hwaits
      cases hstep
      have hown : t.own = Task.dropped.own := by
        cases t <;> first | rfl | cases hwaits
      exact hown ▸ h

end

theorem owned_of_run {size : ℕ} {offline : Bool} {as : List (Tasks.Action Call Choice)}
    {s : Tasks.System PoolInner Task}
    (hrun : LabelledRun.exec (step offline) (start size) as = some s) :
    Owned size s.shared (Tasks.owned Task.own s.tasks) := by
  refine Tasks.framed_of_run Task.own (fun call => ?_) (fun s choice t s' t' rest => owned_advance)
    (owned_start size) hrun
  cases call <;> rfl

/-! ## What the calls know -/

/-- What the log says about installations: none succeeds twice, none is asked for offline, and online
a loading comes after the installation. -/
structure Installs (offline : Bool) (installed : Finset String) (log : Log) : Prop where
  once : ∀ ext, log.count (.install ext, true) ≤ 1
  installed_iff : offline = false → ∀ ext, ext ∈ installed ↔ (.install ext, true) ∈ log
  never : offline = true → ∀ ext ok, (.install ext, ok) ∉ log
  before : offline = false → ∀ i raw ext ok, log[i]? = some (.load raw ext, ok) →
    (.install ext, true) ∈ log.take i

/-- What a call knows when it goes on. -/
def Known (s : PoolInner) : Task → Prop
  | .loadsFree ext | .checks ext | .pushes ext => ext ∈ s.installed
  | .loads _ exts => ∀ ext ∈ exts, ext ∈ s.installed
  | .closes (some ext) true | .returned (some ext) true => ext ∈ s.required
  | _ => True

structure Sound (offline : Bool) (s : PoolInner) : Prop where
  installs : Installs offline s.installed s.log
  required : ∀ ext ∈ s.required, ext ∈ s.installed

/-- What is installed or required stays so. -/
structure Grows (s s' : PoolInner) : Prop where
  installed : s.installed ⊆ s'.installed
  required : s.required ⊆ s'.required

lemma Grows.same {s s' : PoolInner} (hinstalled : s'.installed = s.installed)
    (hrequired : s'.required = s.required) : Grows s s' :=
  ⟨hinstalled ▸ Finset.Subset.refl _, hrequired ▸ List.Subset.refl _⟩

lemma Known.grows {s s' : PoolInner} {t : Task} (h : Known s t) (hgrows : Grows s s') :
    Known s' t := by
  unfold Known at h ⊢
  split at h
  all_goals first
    | exact hgrows.installed h
    | exact fun ext hext => hgrows.installed (h ext hext)
    | exact hgrows.required h
    | trivial

section

variable {offline : Bool} {installed : Finset String} {log log' : Log} {succeeds : Statement → Bool}
  {conn : PooledConn} {ext : String} {s s' : PoolInner} {t t' : Task}

/-- Other statements than installations may follow, loadings of what is installed among them. -/
lemma Installs.append (h : Installs offline installed log)
    (hnone : ∀ ext (ok : Bool), (.install ext, ok) ∉ log')
    (hload : ∀ raw ext (ok : Bool), (.load raw ext, ok) ∈ log' → ext ∈ installed) :
    Installs offline installed (log ++ log') where
  once ext := by
    rw [List.count_append, List.count_eq_zero_of_not_mem (hnone ext true)]
    exact h.once ext
  installed_iff honline ext := by
    rw [h.installed_iff honline ext, List.mem_append, or_iff_left (hnone ext true)]
  never hoffline ext ok hmem :=
    (List.mem_append.mp hmem).elim (h.never hoffline ext ok) (hnone ext ok)
  before honline i raw ext ok hi := by
    rw [List.take_append, List.mem_append]
    left
    rw [List.getElem?_append] at hi
    split_ifs at hi with hlt
    · exact h.before honline i raw ext ok hi
    · rw [List.take_of_length_le (Nat.le_of_not_lt hlt)]
      exact (h.installed_iff honline ext).mp (hload raw ext ok (List.mem_of_getElem? hi))

lemma Installs.fail (h : Installs false installed log) (ext : String) :
    Installs false installed (log ++ [(.install ext, false)]) where
  once other := by
    rw [List.count_append]
    simpa using h.once other
  installed_iff honline other := by simp [h.installed_iff honline other]
  never hoffline := by cases hoffline
  before honline i raw other ok hi := by
    rw [List.take_append, List.mem_append]
    left
    rw [List.getElem?_append] at hi
    split_ifs at hi with hlt
    · exact h.before honline i raw other ok hi
    · have hmem := List.mem_of_getElem? hi
      simp at hmem

lemma Installs.insert (h : Installs false installed log) (hnew : ext ∉ installed) :
    Installs false (insert ext installed) (log ++ [(.install ext, true)]) where
  once other := by
    rw [List.count_append, List.count_singleton]
    split_ifs with heq
    · obtain rfl : ext = other := by simpa using heq
      rw [List.count_eq_zero_of_not_mem fun hmem => hnew ((h.installed_iff rfl _).mpr hmem)]
    · exact h.once other
  installed_iff honline other := by
    simp only [Finset.mem_insert, h.installed_iff honline other, List.mem_append, List.mem_singleton,
      Prod.mk.injEq, Statement.install.injEq, and_true]
    exact or_comm
  never hoffline := by cases hoffline
  before honline i raw other ok hi := by
    rw [List.take_append, List.mem_append]
    left
    rw [List.getElem?_append] at hi
    split_ifs at hi with hlt
    · exact h.before honline i raw other ok hi
    · have hmem := List.mem_of_getElem? hi
      simp at hmem

lemma mem_loadExt_log {x : Statement × Bool} (h : x ∈ (loadExt succeeds conn ext).log) :
    ∃ raw ok, x = (.load raw ext, ok) := by
  rcases @loadExt_log conn succeeds ext with hlog | ⟨ok, hlog⟩
  · rw [hlog] at h
    exact absurd h List.not_mem_nil
  · rw [hlog] at h
    exact ⟨conn.raw, ok, List.mem_singleton.mp h⟩

lemma mem_loadFree_log {x : Statement × Bool} {free : List PooledConn}
    (h : x ∈ (loadFree succeeds ext free).log) : ∃ raw ok, x = (.load raw ext, ok) := by
  induction free with
  | nil => exact absurd h List.not_mem_nil
  | cons conn free ih =>
      unfold loadFree at h
      dsimp only at h
      split_ifs at h
      · exact (List.mem_append.mp h).elim mem_loadExt_log ih
      · exact mem_loadExt_log h

/-- Statements that load one installed extension may follow. -/
lemma Installs.loads (h : Installs offline installed log) (hext : ext ∈ installed)
    (hlog : ∀ x ∈ log', ∃ raw ok, x = (.load raw ext, ok)) :
    Installs offline installed (log ++ log') := by
  refine h.append (fun other ok hmem => ?_) fun raw other ok hmem => ?_
  · obtain ⟨raw, ok', hx⟩ := hlog _ hmem
    simp at hx
  · obtain ⟨raw', ok', hx⟩ := hlog _ hmem
    simp only [Prod.mk.injEq, Statement.load.injEq] at hx
    rw [hx.1.2]
    exact hext

lemma Installs.other (h : Installs offline installed log) {st : Statement} (ok : Bool)
    (hinstall : ∀ ext, st ≠ .install ext) (hload : ∀ raw ext, st ≠ .load raw ext) :
    Installs offline installed (log ++ [(st, ok)]) := by
  refine h.append (fun other ok hmem => ?_) fun raw other ok hmem => ?_
  · exact hinstall other (Prod.ext_iff.mp (List.mem_singleton.mp hmem)).1.symm
  · exact absurd (Prod.ext_iff.mp (List.mem_singleton.mp hmem)).1.symm (hload raw other)

lemma sound_checkout (h : Sound offline s) :
    Sound offline (Task.checkout succeeds s).1 ∧
      Known (Task.checkout succeeds s).1 (Task.checkout succeeds s).2 ∧
      Grows s (Task.checkout succeeds s).1 := by
  unfold Task.checkout
  split
  · exact ⟨⟨h.installs, h.required⟩, trivial, .same rfl rfl⟩
  · have hclone : ∀ ok, Installs offline s.installed (s.log ++ [(.tryClone, ok)]) := fun ok =>
      h.installs.other ok (by simp) (by simp)
    split_ifs
    · exact ⟨⟨hclone true, h.required⟩, trivial, .same rfl rfl⟩
    · exact ⟨⟨hclone false, h.required⟩, trivial, .same rfl rfl⟩

lemma sound_installs (h : Sound offline s)
    (hstep : Task.goOn offline succeeds s (.installs ext) = some (s', t')) :
    Sound offline s' ∧ Known s' t' ∧ Grows s s' := by
  have hgrows : s.installed ⊆ insert ext s.installed := Finset.subset_insert _ _
  have hrequired : ∀ other ∈ s.required, other ∈ insert ext s.installed := fun other hmem =>
    hgrows (h.required other hmem)
  rw [Task.goOn] at hstep
  split_ifs at hstep with hnew hsucceeds
  · obtain ⟨rfl, hmem⟩ : offline = false ∧ ext ∉ s.installed := by simpa using hnew
    cases hstep
    exact ⟨⟨h.installs.insert hmem, hrequired⟩, Finset.mem_insert_self _ _,
      hgrows, List.Subset.refl _⟩
  · obtain ⟨rfl, -⟩ : offline = false ∧ ext ∉ s.installed := by simpa using hnew
    cases hstep
    exact ⟨⟨h.installs.fail ext, h.required⟩, trivial, .same rfl rfl⟩
  · cases hstep
    refine ⟨⟨?_, hrequired⟩, Finset.mem_insert_self _ _, hgrows, List.Subset.refl _⟩
    cases offline with
    | false =>
        have hmem : ext ∈ s.installed := by simpa using hnew
        rw [Finset.insert_eq_of_mem hmem]
        exact h.installs
    | true => exact ⟨h.installs.once, by simp, h.installs.never, by simp⟩

lemma sound_goOn (h : Sound offline s) (hknown : Known s t)
    (hstep : Task.goOn offline succeeds s t = some (s', t')) :
    Sound offline s' ∧ Known s' t' ∧ Grows s s' := by
  cases t with
  | ensures ext =>
      rw [Task.goOn] at hstep
      split_ifs at hstep with hmem
      · cases hstep
        exact ⟨h, hmem, .same rfl rfl⟩
      · cases hstep
        exact ⟨h, trivial, .same rfl rfl⟩
  | awaits ext =>
      rw [Task.goOn] at hstep
      split_ifs at hstep
      cases hstep
      exact ⟨⟨h.installs, h.required⟩, trivial, .same rfl rfl⟩
  | installs ext => exact sound_installs h hstep
  | loadsFree ext =>
      cases hstep
      refine ⟨⟨h.installs.loads hknown fun x => mem_loadFree_log, h.required⟩, ?_, .same rfl rfl⟩
      split_ifs
      · exact hknown
      · trivial
  | checks ext =>
      rw [Task.goOn] at hstep
      split_ifs at hstep with hmem
      · cases hstep
        exact ⟨h, hmem, .same rfl rfl⟩
      · cases hstep
        exact ⟨h, hknown, .same rfl rfl⟩
  | pushes ext =>
      cases hstep
      refine ⟨⟨h.installs, fun other hmem => ?_⟩, List.mem_append_right _ (List.mem_singleton_self _),
        Finset.Subset.refl _, List.subset_append_left _ _⟩
      rcases List.mem_append.mp hmem with hmem | hmem
      · exact h.required other hmem
      · rw [List.mem_singleton.mp hmem]
        exact hknown
  | operates =>
      rw [Task.goOn] at hstep
      split_ifs at hstep
      cases hstep
      exact ⟨⟨h.installs, h.required⟩, trivial, .same rfl rfl⟩
  | checksOut =>
      have hcheckout := @sound_checkout _ succeeds _ h
      rw [Option.some.inj hstep] at hcheckout
      exact hcheckout
  | reads conn =>
      cases hstep
      exact ⟨h, h.required, .same rfl rfl⟩
  | loads conn exts =>
      cases exts with
      | nil =>
          cases hstep
          exact ⟨h, trivial, .same rfl rfl⟩
      | cons ext exts =>
          cases hstep
          have hext : ext ∈ s.installed := hknown ext List.mem_cons_self
          refine ⟨⟨h.installs.loads hext fun x => mem_loadExt_log, h.required⟩, ?_, .same rfl rfl⟩
          split_ifs
          · exact fun other hmem => hknown other (List.mem_cons_of_mem _ hmem)
          · trivial
  | runs conn =>
      cases hstep
      exact ⟨⟨h.installs.other _ (by simp) (by simp), h.required⟩, trivial, .same rfl rfl⟩
  | closes ext ok =>
      cases hstep
      refine ⟨⟨h.installs, h.required⟩, ?_, .same rfl rfl⟩
      cases ext <;> cases ok <;> exact hknown
  | returned ext ok => cases hstep
  | dropped => cases hstep

lemma sound_advance {choice : Choice} (h : Sound offline s) (hknown : Known s t)
    (hstep : Task.advance offline s choice t = some (s', t')) :
    Sound offline s' ∧ Known s' t' ∧ Grows s s' := by
  cases choice with
  | goOn succeeds => exact sound_goOn h hknown hstep
  | drop =>
      unfold Task.advance at hstep
      dsimp only at hstep
      split_ifs at hstep
      cases hstep
      exact ⟨h, trivial, .same rfl rfl⟩

end

lemma kept_sound (offline : Bool) :
    Tasks.Kept Call.task (Task.advance offline) 0 (Sound offline) fun _ => Known where
  start n s call _ _ := by
    cases call <;> trivial
  shared n s choice t s' t' h hknown hstep := (sound_advance h hknown hstep).1
  own n s choice t s' t' h hknown hstep := (sound_advance h hknown hstep).2.1
  others n s choice t s' t' m u h hknown hstep _ hother :=
    hother.grows (sound_advance h hknown hstep).2.2

lemma sound_of_run {size : ℕ} {offline : Bool} {as : List (Tasks.Action Call Choice)}
    {s : Tasks.System PoolInner Task}
    (hrun : LabelledRun.exec (step offline) (start size) as = some s) :
    Tasks.Holds (Sound offline) (fun _ => Known) s := by
  refine (kept_sound offline).holds_of_run (Nat.zero_le _) ⟨⟨⟨?_, ?_, ?_, ?_⟩, ?_⟩, ?_⟩ hrun
  all_goals simp [start, withOffline]

/-- No connection is held twice or held and idle, and there are never more than permits; an extension
is installed once, never offline, and loaded on each connection once, online after its
installation. -/
theorem safe_of_run {size : ℕ} {offline : Bool} {as : List (Tasks.Action Call Choice)}
    {s : Tasks.System PoolInner Task}
    (hrun : LabelledRun.exec (step offline) (start size) as = some s) :
    ((s.shared.free + (Tasks.owned Task.own s.tasks).2 : Multiset PooledConn).map
        PooledConn.raw).Nodup ∧
      s.shared.free.length + (Tasks.owned Task.own s.tasks).2.card ≤ max size 1 ∧
      (∀ raw ext, s.shared.log.count (.load raw ext, true) ≤ 1) ∧
      (∀ ext, s.shared.log.count (.install ext, true) ≤ 1) ∧
      (offline = true → ∀ ext ok, (.install ext, ok) ∉ s.shared.log) ∧
      (offline = false → ∀ i raw ext ok, s.shared.log[i]? = some (.load raw ext, ok) →
        (.install ext, true) ∈ s.shared.log.take i) := by
  have howned := owned_of_run hrun
  have hinstalls := (sound_of_run hrun).1.installs
  exact ⟨howned.conns.nodup, howned.bounded, howned.conns.once, hinstalls.once, hinstalls.never,
    hinstalls.before⟩

theorem safe_of_run_install : ∃ s, LabelledRun.exec (step false) (start 1)
      (.start (.ensureExtension "httpfs") :: List.replicate 7 (.advance 0 (.goOn fun _ => true))) =
        some s ∧
    (.load 0 "httpfs", true) ∈ s.shared.log ∧ s.shared.log.count (.load 0 "httpfs", true) ≤ 1 := by
  refine ⟨_, rfl, List.mem_cons_of_mem _ List.mem_cons_self, ?_⟩
  exact (@safe_of_run 1 false (.start (.ensureExtension "httpfs") ::
    List.replicate 7 (.advance 0 (.goOn fun _ => true))) _ rfl).2.2.1 0 "httpfs"

/-! ## Operations that begin late -/

/-- An operation that has not looked yet at what is required. -/
def Task.early : Task → Bool
  | .operates | .checksOut | .reads _ => true
  | _ => false

/-- What an operation that begins late knows of an extension. -/
def Loaded (ext : String) : Task → Prop
  | .loads conn exts => ext ∈ exts ∨ ext ∈ conn.loaded
  | .runs conn => ext ∈ conn.loaded
  | _ => True

section

variable {offline : Bool} {succeeds : Statement → Bool} {ext : String} {s s' : PoolInner}
  {t t' : Task}

lemma loaded_of_early (h : t.early) : Loaded ext t := by
  cases t <;> trivial

lemma loaded_goOn (hrequired : ext ∈ s.required) (h : Loaded ext t)
    (hstep : Task.goOn offline succeeds s t = some (s', t')) : Loaded ext t' := by
  cases t with
  | reads conn =>
      cases hstep
      exact .inl hrequired
  | loads conn exts =>
      cases exts with
      | nil =>
          cases hstep
          exact h.resolve_left List.not_mem_nil
      | cons other exts =>
          cases hstep
          split_ifs with hok
          · rcases h with hmem | hmem
            · rcases List.mem_cons.mp hmem with rfl | hmem
              · exact .inr (loadExt_loaded hok)
              · exact .inl hmem
            · exact .inr (subset_loadExt hmem)
          · trivial
  | checksOut =>
      have ht' : t' = (Task.checkout succeeds s).2 := by rw [Option.some.inj hstep]
      rw [ht', Task.checkout]
      split
      · trivial
      · split_ifs <;> trivial
  | loadsFree other =>
      cases hstep
      split_ifs <;> trivial
  | ensures other | awaits other | installs other | checks other | operates =>
      rw [Task.goOn] at hstep
      split_ifs at hstep <;> cases hstep <;> trivial
  | pushes other | runs conn | closes other ok =>
      cases hstep
      trivial
  | returned other ok | dropped => cases hstep

lemma loaded_advance {choice : Choice} (hrequired : ext ∈ s.required) (h : Loaded ext t)
    (hstep : Task.advance offline s choice t = some (s', t')) : Loaded ext t' := by
  cases choice with
  | goOn succeeds => exact loaded_goOn hrequired h hstep
  | drop =>
      unfold Task.advance at hstep
      dsimp only at hstep
      split_ifs at hstep
      cases hstep
      trivial

end

/-- What is required stays so, and the call of a number goes on as it should. -/
lemma kept_loaded (offline : Bool) (ext : String) (m : ℕ) :
    Tasks.Kept Call.task (Task.advance offline) 0
      (fun s => Sound offline s ∧ ext ∈ s.required)
      (fun n s t => Known s t ∧ (n = m → Loaded ext t)) where
  start n s call _ _ := by
    cases call <;> exact ⟨trivial, fun _ => trivial⟩
  shared n s choice t s' t' h hknown hstep :=
    have hsound := sound_advance h.1 hknown.1 hstep
    ⟨hsound.1, hsound.2.2.required h.2⟩
  own n s choice t s' t' h hknown hstep :=
    ⟨(sound_advance h.1 hknown.1 hstep).2.1,
      fun hn => loaded_advance h.2 (hknown.2 hn) hstep⟩
  others n s choice t s' t' m u h hknown hstep _ hother :=
    ⟨hother.1.grows (sound_advance h.1 hknown.1 hstep).2.2, hother.2⟩

/-- Once a call of `ensure_extension` has returned well, an operation that looks later at what is
required runs its statement on a connection that has loaded the extension. -/
theorem loaded_of_ensured {size : ℕ} {offline : Bool} {as as' : List (Tasks.Action Call Choice)}
    {s s' : Tasks.System PoolInner Task} {n m : ℕ} {ext : String} {conn : PooledConn}
    (hrun : LabelledRun.exec (step offline) (start size) as = some s)
    (hensured : s.tasks[n]? = some (.returned (some ext) true))
    (hearly : ∀ t, s.tasks[m]? = some t → t.early)
    (hlater : LabelledRun.exec (step offline) s as' = some s')
    (hruns : s'.tasks[m]? = some (.runs conn)) :
    (.load conn.raw ext, true) ∈ s'.shared.log := by
  obtain ⟨hsound, hknown⟩ := sound_of_run hrun
  have hholds := (kept_loaded offline ext m).holds_of_run (Nat.zero_le _)
    ⟨⟨hsound, hknown n _ hensured⟩, fun k t ht =>
      ⟨hknown k t ht, fun hk => loaded_of_early (hearly t (hk ▸ ht))⟩⟩ hlater
  have hloaded : ext ∈ conn.loaded := (hholds.2 m _ hruns).2 rfl
  have hwhole := LabelledRun.exec_append hrun hlater
  have hconns := (owned_of_run hwhole).conns
  obtain ⟨rest, hrest, -⟩ := Tasks.exists_rest Task.own hruns
  refine (hconns.loaded conn ?_ ext).mp hloaded
  rw [hrest]
  simp [Task.own, Task.held]

theorem loaded_of_ensured_operate : ∃ s s', LabelledRun.exec (step true) (start 1)
      (.start (.ensureExtension "httpfs") :: List.replicate 7 (.advance 0 (.goOn fun _ => true))) =
        some s ∧
    LabelledRun.exec (step true) s
      (.start .operate :: List.replicate 5 (.advance 1 (.goOn fun _ => true))) = some s' ∧
    s'.tasks[1]? = some (.runs ⟨0, {"httpfs"}⟩) ∧ (.load 0 "httpfs", true) ∈ s'.shared.log := by
  refine ⟨_, _, rfl, rfl, rfl, ?_⟩
  refine @loaded_of_ensured 1 true (.start (.ensureExtension "httpfs") ::
    List.replicate 7 (.advance 0 (.goOn fun _ => true))) (.start .operate ::
    List.replicate 5 (.advance 1 (.goOn fun _ => true))) _ _ 0 1 "httpfs" ⟨0, {"httpfs"}⟩
    rfl rfl (fun t ht => ?_) rfl rfl
  cases ht

/-! ## Every call ends -/

namespace Task

/-- Whether the call may still add to what is required. -/
def pushing : Task → ℕ
  | .ensures _ | .awaits _ | .installs _ | .loadsFree _ | .checks _ | .pushes _ => 1
  | _ => 0

/-- The steps that are left to a call when at most `room` extensions will be required. -/
def left (room : ℕ) : Task → ℕ
  | .ensures _ => 7
  | .awaits _ => 6
  | .installs _ => 5
  | .loadsFree _ => 4
  | .checks _ => 3
  | .pushes _ => 2
  | .operates => room + 6
  | .checksOut => room + 5
  | .reads _ => room + 4
  | .loads _ exts => exts.length + 3
  | .runs _ => 2
  | .closes _ _ => 1
  | .returned _ _ | .dropped => 0

def done : Task → Bool
  | .returned _ _ | .dropped => true
  | _ => false

end Task

/-- What is required and what the calls may add to it. -/
def room (s : Tasks.System PoolInner Task) : ℕ :=
  s.shared.required.length + Tasks.owned Task.pushing s.tasks

def left (s : Tasks.System PoolInner Task) : ℕ := Tasks.owned (Task.left (room s)) s.tasks

section

variable {size : ℕ} {offline : Bool} {succeeds : Statement → Bool} {s s' : PoolInner} {t t' : Task}

lemma Task.left_mono (t : Task) {n m : ℕ} (h : n ≤ m) : t.left n ≤ t.left m := by
  cases t <;> simp [Task.left, h]

/-- A step makes no room, and one step less is left to its call. -/
lemma left_goOn {n : ℕ} (hn : s.required.length ≤ n)
    (hstep : Task.goOn offline succeeds s t = some (s', t')) :
    s'.required.length + t'.pushing ≤ s.required.length + t.pushing ∧ t'.left n < t.left n := by
  cases t with
  | checksOut =>
      have hs' : s' = (Task.checkout succeeds s).1 := by rw [Option.some.inj hstep]
      have ht' : t' = (Task.checkout succeeds s).2 := by rw [Option.some.inj hstep]
      rw [hs', ht', Task.checkout]
      split
      · simp [Task.pushing, Task.left]
      · split_ifs <;> simp [Task.pushing, Task.left]
  | loads conn exts =>
      cases exts with
      | nil =>
          cases hstep
          simp [Task.pushing, Task.left]
      | cons ext exts =>
          cases hstep
          split_ifs <;> simp [Task.pushing, Task.left]
  | loadsFree ext =>
      cases hstep
      split_ifs <;> simp [Task.pushing, Task.left]
  | ensures ext | awaits ext | installs ext | checks ext | operates =>
      rw [Task.goOn] at hstep
      split_ifs at hstep <;> cases hstep <;> simp [Task.pushing, Task.left]
  | pushes ext | runs conn | closes ext ok =>
      cases hstep
      simp [Task.pushing, Task.left]
  | reads conn =>
      cases hstep
      simp only [Task.pushing, Task.left]
      omega
  | returned ext ok | dropped => cases hstep

lemma left_advance {n : ℕ} {choice : Choice} (hn : s.required.length ≤ n)
    (hstep : Task.advance offline s choice t = some (s', t')) :
    s'.required.length + t'.pushing ≤ s.required.length + t.pushing ∧ t'.left n < t.left n := by
  cases choice with
  | goOn succeeds => exact left_goOn hn hstep
  | drop =>
      unfold Task.advance at hstep
      dsimp only at hstep
      split_ifs at hstep with hwaits
      cases hstep
      cases t <;> first | contradiction | simp [Task.pushing, Task.left]

lemma owned_left_mono {n m : ℕ} (h : n ≤ m) (tasks : List Task) :
    Tasks.owned (Task.left n) tasks ≤ Tasks.owned (Task.left m) tasks :=
  List.sum_le_sum fun t _ => t.left_mono h

/-- A step of a call leaves fewer steps to all of them. -/
lemma left_step {s s' : Tasks.System PoolInner Task} {n : ℕ} {choice : Choice}
    (hstep : step offline s (.advance n choice) = some s') : left s' < left s := by
  obtain ⟨t, shared, t', ht, hadvance, rfl⟩ := Tasks.step_advance hstep
  have hle : s.shared.required.length ≤ room s := Nat.le_add_right _ _
  obtain ⟨hpushing, hleft⟩ := left_advance hle hadvance
  have hroom : room ⟨shared, s.tasks.set n t'⟩ ≤ room s := by
    obtain ⟨rest, hrest, hset⟩ := Tasks.exists_rest Task.pushing ht
    simp only [room, hrest, hset]
    omega
  obtain ⟨rest, hrest, hset⟩ := Tasks.exists_rest (Task.left (room s)) ht
  calc left ⟨shared, s.tasks.set n t'⟩
      ≤ Tasks.owned (Task.left (room s)) (s.tasks.set n t') := owned_left_mono hroom _
    _ = t'.left (room s) + rest := hset t'
    _ < t.left (room s) + rest := Nat.add_lt_add_right hleft rest
    _ = left s := hrest.symm

lemma length_le_left {s s' : Tasks.System PoolInner Task} {ns : List (ℕ × Choice)}
    (hrun : LabelledRun.exec (step offline) s (ns.map fun n => .advance n.1 n.2) = some s') :
    ns.length + left s' ≤ left s := by
  induction ns generalizing s with
  | nil =>
      cases hrun
      simp
  | cons n ns ih =>
      obtain ⟨u, hu, hrun⟩ := Option.bind_eq_some_iff.mp hrun
      have hstep := left_step hu
      have hrest := ih hrun
      rw [List.length_cons]
      omega

/-- A call that is not done goes on, unless it waits for a permit and there is none. -/
lemma goOn_isSome (hdone : t.done = false) (hpermits : s.permits = 0 → t.own ≠ 0) :
    (Task.goOn offline succeeds s t).isSome := by
  cases t with
  | awaits ext | operates =>
      have hsome : s.permits ≠ 0 := fun h => hpermits h rfl
      rw [Task.goOn, if_neg hsome]
      rfl
  | ensures ext | installs ext | checks ext =>
      rw [Task.goOn]
      split_ifs <;> rfl
  | loads conn exts => cases exts <;> rfl
  | returned ext ok | dropped => cases hdone
  | loadsFree ext | pushes ext | checksOut | reads conn | runs conn | closes ext ok => rfl

end

end DuckDbPool
end Engine
end Pawrly
