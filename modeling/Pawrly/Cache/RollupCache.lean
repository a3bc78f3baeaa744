import Pawrly.Cache.Provider
import Pawrly.Lib.LabelledRun
import Pawrly.Semantic.Metric
import Pawrly.Semantic.RollupPlan
import Mathlib.Logic.Function.Basic

/-!
# Cached rollups

`pawrly-engine/src/preagg.rs` and `compile_semantic`: an engine registers a provider for every
pre-aggregation of its configuration, and a query that a pre-aggregation covers is compiled to read
the rollup's cached file.  Manifest and files outlive the engine, and neither says which definition
a file was computed from.  A rollup is current when the file was computed by the statement of its
present definition (`Current`); `current_of_careful` says what the engine starts of a workspace have
to meet for that.
-/

namespace Pawrly
namespace Cache

open Semantic Sql LabelledRun

/-! ## Rollups of a configuration -/

/-- The name of the rollup's table in the schema `semantic`. -/
def rollupTable (r : RollupMatch) : String := rollupTableName r.model r.preagg

/-- The order of the registrations: by model, then by pre-aggregation. -/
def rollupLe (r r' : RollupMatch) : Bool :=
  decide (r.model < r'.model) || (decide (r.model = r'.model) && decide (r.preagg ≤ r'.preagg))

/-- The declared pre-aggregations (`rollups`). -/
def rollups (cat : SemanticCatalog) : List RollupMatch :=
  (cat.models.flatMap fun m => m.preAggregations.map fun p => ⟨m.name, p.name⟩).mergeSort rollupLe

/-- Register one rollup: one that cannot be compiled or planned is skipped. -/
def registerRollup (cat : SemanticCatalog) (planned : RollupMatch → Bool)
    (inner : String → Option Select) (r : RollupMatch) : String → Option Select :=
  match compilePreagg cat r.model r.preagg with
  | .error _ => inner
  | .ok statement =>
      if planned r then Function.update inner (rollupTable r) (some statement) else inner

/-- `register_rollups`: the live providers by table name. -/
def registerRollups (cat : SemanticCatalog) (planned : RollupMatch → Bool) :
    String → Option Select :=
  (rollups cat).foldl (registerRollup cat planned) fun _ => none

/-- The rollup that is chosen for a query is declared. -/
lemma mem_rollups_of_candidate {cat : SemanticCatalog} {q : SemanticQuery} {r : RollupMatch}
    (h : candidateRollup cat q = some r) : r ∈ rollups cat := by
  have hmeasures : ∃ q', candidateMeasures cat q' = some r := by
    unfold candidateRollup at h
    split at h
    · cases h
    · next q₁ _ =>
        split_ifs at h
        · obtain ⟨q', -, hq'⟩ := Option.bind_eq_some_iff.mp h
          exact ⟨q', hq'⟩
        · exact ⟨q₁, h⟩
  obtain ⟨q', hq'⟩ := hmeasures
  obtain ⟨m, pre, hc⟩ := candidateMeasures_candidate hq'
  unfold rollups
  rw [List.mem_mergeSort, List.mem_flatMap]
  refine ⟨m, List.mem_of_find?_eq_some hc.model, ?_⟩
  rw [List.mem_map]
  refine ⟨pre, hc.mem, ?_⟩
  rw [hc.name, SemanticCatalog.name_of_model hc.model]

/-- A live provider runs the statement of a declared rollup with its table name. -/
lemma registerRollups_spec {cat : SemanticCatalog} {planned : RollupMatch → Bool} {name : String}
    {statement : Select} (h : registerRollups cat planned name = some statement) :
    ∃ r ∈ rollups cat, rollupTable r = name ∧
      compilePreagg cat r.model r.preagg = .ok statement := by
  have hfold : ∀ (rs : List RollupMatch) (inner : String → Option Select),
      rs.foldl (registerRollup cat planned) inner name = some statement →
        inner name = some statement ∨ ∃ r ∈ rs, rollupTable r = name ∧
          compilePreagg cat r.model r.preagg = .ok statement := by
    intro rs
    induction rs with
    | nil => exact fun inner h => Or.inl h
    | cons r rs ih =>
        intro inner h
        rw [List.foldl_cons] at h
        rcases ih _ h with hhere | ⟨r', hr', hspec⟩
        · unfold registerRollup at hhere
          cases hcompile : compilePreagg cat r.model r.preagg with
          | error err =>
              rw [hcompile] at hhere
              exact Or.inl hhere
          | ok s =>
              rw [hcompile] at hhere
              dsimp only at hhere
              split_ifs at hhere
              · by_cases hname : name = rollupTable r
                · rw [hname, Function.update_self] at hhere
                  cases hhere
                  exact Or.inr ⟨r, List.mem_cons_self, hname.symm, hcompile⟩
                · rw [Function.update_of_ne hname] at hhere
                  exact Or.inl hhere
              · exact Or.inl hhere
        · exact Or.inr ⟨r', List.mem_cons_of_mem _ hr', hspec⟩
  rcases hfold (rollups cat) _ h with hnone | hspec
  · cases hnone
  · exact hspec

/-! ## The cache of a workspace -/

/-- What is cached of a rollup: the expiry of its manifest entry, if there is one, and the
statement whose rows its file has. -/
structure RollupTable where
  entry : Option (Option Time) := none
  file : Option Select := none

/-- `fresh`. -/
def RollupTable.fresh (t : RollupTable) (now : Time) : Bool :=
  match t.entry with
  | none => false
  | some none => true
  | some (some exp) => now < exp

/-- What fails during a refresh: the scan, the write of the file, the upsert of the entry. -/
structure RefreshFaults where
  scan : Bool := false
  fileWrite : Bool := false
  upsert : Bool := false

/-- `write_through`, with the policy of every rollup. -/
def RollupTable.writeThrough (t : RollupTable) (now : Time) (io : RefreshFaults)
    (statement : Select) : RollupTable :=
  if io.fileWrite then t
  else
    { entry := if io.upsert then t.entry else some (CachePolicy.refresh.expiry now)
      file := some statement }

/-- The running engine and the cache of its workspace. -/
structure Workspace where
  catalog : SemanticCatalog
  inner : String → Option Select
  tables : String → RollupTable

namespace Workspace

variable (w : Workspace)

/-- `refresh`: run the live provider of a table and store what it gives. -/
def refresh (name : String) (now : Time) (io : RefreshFaults) : Workspace :=
  match w.inner name with
  | none => w
  | some statement =>
      if io.scan then w
      else { w with tables :=
        Function.update w.tables name ((w.tables name).writeThrough now io statement) }

/-- Materialize a table on first use; a failure is ignored. -/
def materialize (name : String) (now : Time) (io : RefreshFaults) : Workspace :=
  if (w.tables name).fresh now then w else w.refresh name now io

/-- The choice of `compile_semantic`: a covering rollup, once it is cached. -/
def chooseRollup (q : SemanticQuery) (now : Time) (io : RefreshFaults) :
    Option RollupMatch × Workspace :=
  match candidateRollup w.catalog q with
  | none => (none, w)
  | some r =>
      let w' := w.materialize (rollupTable r) now io
      (if (w'.tables (rollupTable r)).fresh now then some r else none, w')

/-- `compile_semantic`. -/
def compileSemantic (ord : SetOrder) (q : SemanticQuery) (now : Time) (io : RefreshFaults) :
    Except SemanticError Stmt × Workspace :=
  match w.chooseRollup q now io with
  | (some r, w') => (compileRollup w.catalog q r, w')
  | (none, w') => (compileStmt ord w.catalog q, w')

/-- The rows of a rollup table: its cached file, or what the live provider gives. -/
def source (name : String) : Option Select := (w.tables name).file.or (w.inner name)

/-- The steps on a workspace. -/
inductive Action
  | start (cat : SemanticCatalog) (planned : RollupMatch → Bool)
  | compile (q : SemanticQuery) (now : Time) (io : RefreshFaults)
  /-- By name, or by the background refresher. -/
  | refresh (name : String) (now : Time) (io : RefreshFaults)
  /-- A scan that finds no fresh file stores the rows. -/
  | scan (name : String) (now : Time) (io : RefreshFaults)
  /-- A file that cannot be read is moved aside; dropping its entry may fail. -/
  | quarantine (name : String) (dropped : Bool)
  | invalidate (name : String) (removed : Bool)
  /-- Expired entries go with their files, and so do files without an entry. -/
  | vacuum (now : Time) (removed : String → Bool)

def step : Action → Option Workspace
  | .start cat planned => some { w with catalog := cat, inner := registerRollups cat planned }
  | .compile q now io => some (w.chooseRollup q now io).2
  | .refresh name now io => some (w.refresh name now io)
  | .scan name now io => some (w.materialize name now io)
  | .quarantine name dropped =>
      let t : RollupTable := { entry := if dropped then none else (w.tables name).entry }
      some { w with tables := Function.update w.tables name t }
  | .invalidate name removed =>
      let t : RollupTable := { file := if removed then none else (w.tables name).file }
      some { w with tables := Function.update w.tables name t }
  | .vacuum now removed =>
      let gone (name : String) : RollupTable :=
        { file := if removed name then none else (w.tables name).file }
      some { w with tables := fun name =>
        if (w.tables name).fresh now then w.tables name else gone name }

/-- A rollup that is chosen reads rows of its present definition. -/
def Current : Prop := ∀ q now io r, (w.chooseRollup q now io).1 = some r →
  ∀ statement, (w.chooseRollup q now io).2.source (rollupTable r) = some statement →
    compilePreagg w.catalog r.model r.preagg = .ok statement

/-- What is asked of a step: an engine starts only where the cached file of every rollup that can be
chosen was computed by the statement of its definition, and so is what the live provider under the
rollup's table name computes. -/
def Careful : Action → Prop
  | .start cat planned => ∀ q r, candidateRollup cat q = some r → ∀ statement,
      ((w.tables (rollupTable r)).entry ≠ none ∧ (w.tables (rollupTable r)).file = some statement) ∨
        registerRollups cat planned (rollupTable r) = some statement →
          compilePreagg cat r.model r.preagg = .ok statement
  | _ => True

/-! ## The invariant -/

/-- What is cached or can be cached of a rollup that can be chosen is current. -/
def Inv : Prop := ∀ q r, candidateRollup w.catalog q = some r → ∀ statement,
  ((w.tables (rollupTable r)).entry ≠ none ∧ (w.tables (rollupTable r)).file = some statement) ∨
    w.inner (rollupTable r) = some statement →
      compilePreagg w.catalog r.model r.preagg = .ok statement

variable {w} {w' : Workspace}

/-- An engine without pre-aggregations over an empty cache. -/
def empty : Workspace where
  catalog := SemanticCatalog.new []
  inner _ := none
  tables _ := {}

lemma inv_empty : empty.Inv := by
  rintro q r - statement (⟨hentry, -⟩ | hinner)
  · exact absurd rfl hentry
  · cases hinner

/-- The tables may lose entries and files, or get the rows of the live provider. -/
lemma Inv.tables (hw : w.Inv) {tables : String → RollupTable}
    (h : ∀ name statement, (tables name).entry ≠ none → (tables name).file = some statement →
      ((w.tables name).entry ≠ none ∧ (w.tables name).file = some statement) ∨
        w.inner name = some statement) : ({ w with tables := tables } : Workspace).Inv := by
  rintro q r hr statement (⟨hentry, hfile⟩ | hinner)
  · exact hw q r hr statement (h (rollupTable r) statement hentry hfile)
  · exact hw q r hr statement (Or.inr hinner)

/-- A change of one table. -/
lemma Inv.update (hw : w.Inv) {name : String} {t : RollupTable}
    (h : ∀ statement, t.entry ≠ none → t.file = some statement →
      ((w.tables name).entry ≠ none ∧ (w.tables name).file = some statement) ∨
        w.inner name = some statement) :
    ({ w with tables := Function.update w.tables name t } : Workspace).Inv := by
  apply hw.tables
  intro name' statement hentry hfile
  by_cases hname : name' = name
  · subst hname
    rw [Function.update_self] at hentry hfile
    exact h statement hentry hfile
  · rw [Function.update_of_ne hname] at hentry hfile
    exact Or.inl ⟨hentry, hfile⟩

lemma Inv.refresh (hw : w.Inv) (name : String) (now : Time) (io : RefreshFaults) :
    (w.refresh name now io).Inv := by
  unfold Workspace.refresh
  cases hinner : w.inner name with
  | none => exact hw
  | some statement =>
      dsimp only
      split_ifs
      · exact hw
      · apply hw.update
        intro statement' hentry hfile
        unfold RollupTable.writeThrough at hentry hfile
        split_ifs at hentry hfile
        · exact Or.inl ⟨hentry, hfile⟩
        · exact Or.inr (hinner.trans hfile)
        · exact Or.inr (hinner.trans hfile)

lemma refresh_catalog (name : String) (now : Time) (io : RefreshFaults) :
    (w.refresh name now io).catalog = w.catalog := by
  unfold Workspace.refresh
  split
  · rfl
  · split_ifs
    · rfl
    · rfl

lemma Inv.materialize (hw : w.Inv) (name : String) (now : Time) (io : RefreshFaults) :
    (w.materialize name now io).Inv := by
  unfold Workspace.materialize
  split_ifs
  · exact hw
  · exact hw.refresh name now io

lemma materialize_catalog (name : String) (now : Time) (io : RefreshFaults) :
    (w.materialize name now io).catalog = w.catalog := by
  unfold materialize
  split_ifs
  · rfl
  · exact refresh_catalog name now io

lemma entry_of_fresh {t : RollupTable} {now : Time} (h : t.fresh now = true) : t.entry ≠ none := by
  intro hnone
  unfold RollupTable.fresh at h
  rw [hnone] at h
  cases h

/-- Choosing keeps the configuration and the invariant, and a rollup is chosen for a query that it
covers, once it has an entry. -/
lemma chooseRollup_spec (hw : w.Inv) (q : SemanticQuery) (now : Time) (io : RefreshFaults) :
    (w.chooseRollup q now io).2.Inv ∧ (w.chooseRollup q now io).2.catalog = w.catalog ∧
      ∀ r, (w.chooseRollup q now io).1 = some r → candidateRollup w.catalog q = some r ∧
        ((w.chooseRollup q now io).2.tables (rollupTable r)).entry ≠ none := by
  unfold chooseRollup
  cases hr : candidateRollup w.catalog q with
  | none => exact ⟨hw, rfl, fun r h => by cases h⟩
  | some r =>
      dsimp only
      refine ⟨hw.materialize _ now io, materialize_catalog _ now io, ?_⟩
      intro r' h
      split_ifs at h with hfresh
      cases h
      exact ⟨rfl, entry_of_fresh hfresh⟩

lemma Inv.current (hw : w.Inv) : w.Current := by
  intro q now io r hchosen statement hsource
  obtain ⟨hinv, hcatalog, hspec⟩ := chooseRollup_spec hw q now io
  obtain ⟨hr, hentry⟩ := hspec r hchosen
  rw [← hcatalog] at hr ⊢
  apply hinv q r hr statement
  unfold source at hsource
  cases hfile : ((w.chooseRollup q now io).2.tables (rollupTable r)).file with
  | none =>
      rw [hfile] at hsource
      exact Or.inr hsource
  | some s =>
      rw [hfile] at hsource
      exact Or.inl ⟨hentry, hsource⟩

lemma Inv.step {a : Action} (hw : w.Inv) (hcareful : w.Careful a) (hstep : w.step a = some w') :
    w'.Inv := by
  cases a with
  | start cat planned =>
      cases hstep
      exact hcareful
  | compile q now io =>
      cases hstep
      exact (chooseRollup_spec hw q now io).1
  | refresh name now io =>
      cases hstep
      exact hw.refresh name now io
  | scan name now io =>
      cases hstep
      exact hw.materialize name now io
  | quarantine name dropped =>
      cases hstep
      apply hw.update
      intro statement _ hfile
      cases hfile
  | invalidate name removed =>
      cases hstep
      apply hw.update
      intro statement hentry _
      exact absurd rfl hentry
  | vacuum now removed =>
      cases hstep
      apply hw.tables
      intro name statement hentry hfile
      dsimp only at hentry hfile
      split_ifs at hentry hfile
      · exact Or.inl ⟨hentry, hfile⟩
      · exact absurd rfl hentry

/-- Where no two declared rollups share a table name, only what is cached matters. -/
lemma careful_of_distinct {cat : SemanticCatalog} {planned : RollupMatch → Bool}
    (hnames : ∀ r ∈ rollups cat, ∀ r' ∈ rollups cat, rollupTable r = rollupTable r' → r = r')
    (hcached : ∀ r ∈ rollups cat, ∀ statement, (w.tables (rollupTable r)).entry ≠ none →
      (w.tables (rollupTable r)).file = some statement →
        compilePreagg cat r.model r.preagg = .ok statement) : w.Careful (.start cat planned) := by
  rintro q r hr statement (⟨hentry, hfile⟩ | hinner)
  · exact hcached r (mem_rollups_of_candidate hr) statement hentry hfile
  · obtain ⟨r', hr', hname, hcompile⟩ := registerRollups_spec hinner
    rw [← hnames r' hr' r (mem_rollups_of_candidate hr) hname]
    exact hcompile

/-- Orders with the revenue of every status, over a column of amounts. -/
def ordersOver (amount : String) : SemanticModel where
  name := "orders"
  source := "shop.orders"
  dimensions := [{ name := "status", expr := "status", dataType := .string }]
  measures := [{ name := "revenue", agg := .sum, expr := amount }]
  preAggregations := [{ name := "by_status", dimensions := ["status"], measures := ["revenue"] }]

def grossCatalog : SemanticCatalog := SemanticCatalog.new [ordersOver "amount"]

def netCatalog : SemanticCatalog := SemanticCatalog.new [ordersOver "net_amount"]

def revenueByStatus : SemanticQuery where
  measures := ["orders.revenue"]
  dimensions := ["orders.status"]

/-- The rollup is invalidated before an engine starts with another definition. -/
def invalidatedRun : List Action :=
  [.start grossCatalog fun _ => true, .compile revenueByStatus 0 {},
    .invalidate "orders__by_status" true, .start netCatalog fun _ => true]

/-- The statement of the first definition. -/
def grossStatement : Select where
  items := [(.raw "status", "status"), (.aggregate .sum (.raw "amount") [], "revenue")]
  source := { root := "orders", table := ⟨"shop", "orders"⟩, aliased := false }
  wheres := []
  groupBy := [.raw "status"]

/-- Nothing is invalidated. -/
def redefinedRun : List Action :=
  [.start grossCatalog fun _ => true, .compile revenueByStatus 0 {},
    .start netCatalog fun _ => true]

end Workspace

end Cache
end Pawrly
