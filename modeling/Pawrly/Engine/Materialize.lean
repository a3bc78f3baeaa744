import Pawrly.Engine.ErrorWire
import Pawrly.Engine.Params
import Pawrly.Engine.Projections
import Pawrly.Cache.Manifest

/-!
# Materialized tables

`materialize` writes the relation that a query, a file, a URL or inline bytes give to a Parquet file
of its own, and `refresh_table` does so again from the stored spec; `materialized.<name>` reads the
file.  A query brings its schema with its plan.  The other origins come as batches only, and without
a row there is no batch to take the schema from: `keeps_iff` says that this is what loses columns.
-/

namespace Pawrly
namespace Engine
namespace Materialize

open RecordBatch (Batch rowCount columnOf select)
open Http (memoryExec)
open Cache (materializedSchema dataRel)

/-! ## Specs -/

inductive MaterializeFormat
  | parquet
  | csv
  | json
  deriving DecidableEq

/-- `MaterializeFormat::from_path`, by the extension of a path or a URL. -/
def MaterializeFormat.fromPath (path : String) : Option MaterializeFormat :=
  let ext := ((Text.split '.' path).getLastD "").map Char.toLower
  if ext = "parquet" then some .parquet
  else if ext = "csv" then some .csv
  else if ext ∈ ["json", "ndjson", "jsonl"] then some .json
  else none

/-- How a materialized table is produced.  The parameters of a query are in the order that their map
is walked in. -/
inductive MaterializeSpec
  | query (sql : String) (params : List (String × String))
  | file (path : String) (format : Option MaterializeFormat)
  | url (url : String) (format : Option MaterializeFormat)
  | inline (bytes : List UInt8) (format : MaterializeFormat)
  deriving DecidableEq

def MaterializeSpec.isQuery : MaterializeSpec → Bool
  | query _ _ => true
  | _ => false

/-! ## Origins -/

section

variable {τ : Type} {Val : τ → Type}

/-- A relation: batches of one schema, which has a column. -/
structure Relation (Val : τ → Type) where
  schema : List (RecordBatch.Field τ)
  batches : List (Batch Val)
  conforms : ∀ b ∈ batches, b.schema = schema
  hasColumns : schema ≠ []

/-- A result of DuckDB, which hands out no batch without rows. -/
structure DuckDbResult (Val : τ → Type) extends Relation Val where
  hasRows : ∀ b ∈ batches, b.numRows ≠ 0

/-- A planned query: its schema, and what running it gives. -/
structure DataFrame (Val : τ → Type) where
  schema : List (RecordBatch.Field τ)
  collect : Except String (List (Batch Val))
  conforms : ∀ batches, collect = .ok batches → ∀ b ∈ batches, b.schema = schema
  hasColumns : schema ≠ []

/-- What an engine asks others for: the rewriting of function calls, DataFusion for the plan of a
query, DuckDB for an extension and for the result of a text, and a temporary file for bytes. -/
structure Host (Val : τ → Type) where
  rewriteFunctionCalls : String → Except ErrorWire.EngineError String
  plan : String → Except String (DataFrame Val)
  ensureExtension : String → Except ErrorWire.EngineError Unit
  duckdb : String → Except ErrorWire.EngineError (DuckDbResult Val)
  stage : List UInt8 → Except ErrorWire.EngineError String

/-- The text of `duckdb_scan`. -/
def scanSql (location : String) (format : MaterializeFormat) : String :=
  let reader := match format with
    | .parquet => "read_parquet"
    | .csv => "read_csv"
    | .json => "read_json"
  "SELECT * FROM " ++ reader ++ "('" ++ Text.replaceChar '\'' "''" location ++ "')"

/-- `duckdb_scan`, by `fetch_arrow`: the batches, without their schema. -/
def Host.duckdbScan (host : Host Val) (location : String) (format : MaterializeFormat) :
    Except ErrorWire.EngineError (List (Batch Val)) := do
  let result ← host.duckdb (scanSql location format)
  .ok result.batches

/-- `batches_schema`: the schema of the first batch, or none. -/
def batchesSchema (batches : List (Batch Val)) : List (RecordBatch.Field τ) :=
  (batches.head?.map Batch.schema).getD []

/-- The format that is given, or that of the extension. -/
def formatOf (location : String) (format : Option MaterializeFormat) :
    Except ErrorWire.EngineError MaterializeFormat :=
  match format.or (MaterializeFormat.fromPath location) with
  | some fmt => .ok fmt
  | none => .error (.internal ("could not infer format from `" ++ location ++
      "`; pass an explicit format"))

/-- `produce_materialize`. -/
def Host.produceMaterialize (host : Host Val) :
    MaterializeSpec →
      Except ErrorWire.EngineError (List (RecordBatch.Field τ) × List (Batch Val))
  | .query sql params => do
      let sql ← host.rewriteFunctionCalls (substituteParams params sql)
      let df ← (host.plan sql).mapError .invalidSql
      let batches ← df.collect.mapError fun e => .internal ("materialize collect: " ++ e)
      .ok (df.schema, batches)
  | .file path format => do
      let fmt ← formatOf path format
      let batches ← host.duckdbScan path fmt
      .ok (batchesSchema batches, batches)
  | .url url format => do
      host.ensureExtension "httpfs"
      let fmt ← formatOf url format
      let batches ← host.duckdbScan url fmt
      .ok (batchesSchema batches, batches)
  | .inline bytes format => do
      let location ← host.stage bytes
      let batches ← host.duckdbScan location format
      .ok (batchesSchema batches, batches)

/-! ## Tables -/

/-- Parquet: what is read back from a file that was written.  The Arrow schema is stored in the file,
and the rows may come in other batches. -/
structure Parquet (Val : τ → Type) where
  write : List (RecordBatch.Field τ) → List (Batch Val) → Except String (ParquetFile Val)
  kept : ∀ {schema batches f}, write schema batches = .ok f →
    (∀ b ∈ batches, b.schema = schema) → schema ≠ [] ∨ batches = [] →
      f.schema = schema ∧ rowCount f.batches = rowCount batches ∧
        ∀ i, columnOf f.batches i = columnOf batches i
  writesEmpty : ∃ f, write [] [] = .ok f

/-- An entry of the manifest under the reserved schema. -/
structure Entry where
  table : String
  rowCount : ℕ
  spec : MaterializeSpec

/-- The materialized tables of a namespace: their files, and their entries in the manifest. -/
structure Store (Val : τ → Type) where
  files : String → Option (ParquetFile Val)
  entries : List Entry

/-- What the file system refuses: the file of the table, or the manifest. -/
structure Faults where
  file : Option String := none
  manifest : Option String := none

namespace Store

variable (s : Store Val) (parquet : Parquet Val) (io : Faults)

/-- `CacheManager::materialize`: the file is replaced first, then the entry. -/
def materialize (name : String) (schema : List (RecordBatch.Field τ)) (batches : List (Batch Val))
    (spec : MaterializeSpec) : Except String Entry × Store Val :=
  match parquet.write schema batches, io.file with
  | .error e, _ => (.error e, s)
  | .ok _, some e => (.error e, s)
  | .ok f, none =>
      let written : Store Val := { s with files := Function.update s.files name (some f) }
      let entry : Entry := ⟨name, rowCount batches, spec⟩
      match io.manifest with
      | some e => (.error e, written)
      | none => (.ok entry,
          { written with entries := (s.entries.filter fun e => e.table ≠ name) ++ [entry] })

/-- `materialized_spec`. -/
def materializedSpec (name : String) : Option MaterializeSpec :=
  (s.entries.find? fun e => e.table = name).map Entry.spec

/-- `materialized.<name>`: the entry whose file is there. -/
def table (name : String) : Option (ParquetFile Val) :=
  (s.entries.find? fun e => e.table = name && (s.files e.table).isSome).bind fun e =>
    s.files e.table

end Store

/-- `validate_materialized_name`. -/
def validateMaterializedName (name : String) : Except ErrorWire.EngineError Unit :=
  if name = "" ∨ Text.trim name ≠ name ∨
      (name.toList.any fun c => c = '.' || c = '/' || c = '\\' || Text.isWhitespace c) then
    .error (.internal ("invalid materialized table name `" ++ name ++
      "`: use a plain identifier (no dots, slashes, or spaces)"))
  else .ok ()

structure MaterializeOutcome where
  name : Semantic.TableName
  filePath : List String
  rowCount : ℕ

structure RefreshOutcome where
  table : Semantic.TableName
  rowsWritten : ℕ

/-- `materialize`, in the cache of its namespace. -/
def Host.materialize (host : Host Val) (parquet : Parquet Val) (io : Faults) (s : Store Val)
    (name : String) (spec : MaterializeSpec) :
    Except ErrorWire.EngineError MaterializeOutcome × Store Val :=
  match validateMaterializedName name with
  | .error e => (.error e, s)
  | .ok () =>
      match host.produceMaterialize spec with
      | .error e => (.error e, s)
      | .ok (schema, batches) =>
          match s.materialize parquet io name schema batches spec with
          | (.error e, s') => (.error (.internal ("materialize write: " ++ e)), s')
          | (.ok entry, s') =>
              (.ok ⟨⟨materializedSchema, name⟩, dataRel ⟨materializedSchema, name⟩, entry.rowCount⟩,
                s')

/-- `refresh_table` of a materialized table. -/
def Host.refreshTable (host : Host Val) (parquet : Parquet Val) (io : Faults) (s : Store Val)
    (name : String) : Except ErrorWire.EngineError RefreshOutcome × Store Val :=
  match s.materializedSpec name with
  | none => (.error (.unknownTable (materializedSchema ++ "." ++ name)), s)
  | some spec =>
      match host.produceMaterialize spec with
      | .error e => (.error e, s)
      | .ok (schema, batches) =>
          match s.materialize parquet io name schema batches spec with
          | (.error e, s') => (.error (.internal ("materialize refresh: " ++ e)), s')
          | (.ok entry, s') => (.ok ⟨⟨materializedSchema, name⟩, entry.rowCount⟩, s')

/-! ## What a table should hold -/

/-- The relation of a spec: the one that its query denotes, or that DuckDB reads at its place. -/
def Host.IsOrigin (host : Host Val) : MaterializeSpec → Relation Val → Prop
  | .query sql params, r => ∃ text df,
      host.rewriteFunctionCalls (substituteParams params sql) = .ok text ∧
        host.plan text = .ok df ∧ df.schema = r.schema ∧ df.collect = .ok r.batches
  | .file path format, r => ∃ fmt result, formatOf path format = .ok fmt ∧
      host.duckdb (scanSql path fmt) = .ok result ∧ result.toRelation = r
  | .url url format, r => ∃ fmt result, host.ensureExtension "httpfs" = .ok () ∧
      formatOf url format = .ok fmt ∧ host.duckdb (scanSql url fmt) = .ok result ∧
        result.toRelation = r
  | .inline bytes format, r => ∃ location result, host.stage bytes = .ok location ∧
      host.duckdb (scanSql location format) = .ok result ∧ result.toRelation = r

/-! ## Producing -/

/-- The schema that a relation is written with. -/
def Relation.writtenSchema (r : Relation Val) (spec : MaterializeSpec) :
    List (RecordBatch.Field τ) :=
  if spec.isQuery then r.schema else batchesSchema r.batches

lemma duckdbScan_of_result {host : Host Val} {location : String} {format : MaterializeFormat}
    {result : DuckDbResult Val} (h : host.duckdb (scanSql location format) = .ok result) :
    host.duckdbScan location format = .ok result.batches :=
  Fallible.bind_eq_ok.mpr ⟨result, h, rfl⟩

lemma produce_of_origin {host : Host Val} {spec : MaterializeSpec} {r : Relation Val}
    (h : host.IsOrigin spec r) :
    host.produceMaterialize spec = .ok (r.writtenSchema spec, r.batches) := by
  cases spec with
  | query sql params =>
      obtain ⟨text, df, htext, hplan, hschema, hcollect⟩ := h
      refine Fallible.bind_eq_ok.mpr ⟨text, htext, ?_⟩
      refine Fallible.bind_eq_ok.mpr ⟨df, Fallible.mapError_eq_ok.mpr hplan, ?_⟩
      refine Fallible.bind_eq_ok.mpr ⟨r.batches, Fallible.mapError_eq_ok.mpr hcollect, ?_⟩
      rw [hschema]
      rfl
  | file path format =>
      obtain ⟨fmt, result, hfmt, hresult, rfl⟩ := h
      refine Fallible.bind_eq_ok.mpr ⟨fmt, hfmt, ?_⟩
      exact Fallible.bind_eq_ok.mpr ⟨result.batches, duckdbScan_of_result hresult, rfl⟩
  | url url format =>
      obtain ⟨fmt, result, hext, hfmt, hresult, rfl⟩ := h
      refine Fallible.bind_eq_ok.mpr ⟨(), hext, ?_⟩
      refine Fallible.bind_eq_ok.mpr ⟨fmt, hfmt, ?_⟩
      exact Fallible.bind_eq_ok.mpr ⟨result.batches, duckdbScan_of_result hresult, rfl⟩
  | inline bytes format =>
      obtain ⟨location, result, hstage, hresult, rfl⟩ := h
      refine Fallible.bind_eq_ok.mpr ⟨location, hstage, ?_⟩
      exact Fallible.bind_eq_ok.mpr ⟨result.batches, duckdbScan_of_result hresult, rfl⟩

/-- The schema of the first batch is that of the relation; without one it is empty. -/
lemma batchesSchema_eq (r : Relation Val) :
    batchesSchema r.batches = if r.batches = [] then [] else r.schema := by
  unfold batchesSchema
  cases hbatches : r.batches with
  | nil => simp
  | cons b rest =>
      have hb : b.schema = r.schema := r.conforms b (by rw [hbatches]; exact List.mem_cons_self)
      simp [hb]

lemma DuckDbResult.rowCount_eq_zero_iff (result : DuckDbResult Val) :
    rowCount result.batches = 0 ↔ result.batches = [] := by
  constructor
  · intro hzero
    by_contra hne
    obtain ⟨b, rest, hbatches⟩ := List.exists_cons_of_ne_nil hne
    have hb : b.numRows ≠ 0 := result.hasRows b (by rw [hbatches]; exact List.mem_cons_self)
    rw [hbatches, rowCount, List.map_cons, List.sum_cons] at hzero
    omega
  · intro hnil
    rw [hnil, rowCount, List.map_nil, List.sum_nil]

/-- A relation that is read without a row is written without its schema. -/
lemma writtenSchema_eq {host : Host Val} {spec : MaterializeSpec} {r : Relation Val}
    (h : host.IsOrigin spec r) :
    (spec.isQuery = true ∨ rowCount r.batches ≠ 0 → r.writtenSchema spec = r.schema) ∧
      (¬ (spec.isQuery = true ∨ rowCount r.batches ≠ 0) →
        r.writtenSchema spec = [] ∧ r.batches = []) := by
  have hread : spec.isQuery = false → ∃ result : DuckDbResult Val, result.toRelation = r := by
    intro hquery
    cases spec with
    | query sql params => simp [MaterializeSpec.isQuery] at hquery
    | file path format =>
        obtain ⟨_, result, _, _, hr⟩ := h
        exact ⟨result, hr⟩
    | url url format =>
        obtain ⟨_, result, _, _, _, hr⟩ := h
        exact ⟨result, hr⟩
    | inline bytes format =>
        obtain ⟨_, result, _, _, hr⟩ := h
        exact ⟨result, hr⟩
  unfold Relation.writtenSchema
  by_cases hquery : spec.isQuery = true
  · simp [hquery]
  · obtain ⟨result, rfl⟩ := hread (by simpa using hquery)
    rw [if_neg hquery, batchesSchema_eq, Ne, result.rowCount_eq_zero_iff]
    by_cases hnil : result.batches = []
    · simp [hquery, hnil]
    · simp [hquery, hnil]

/-! ## Writing -/

/-- A table that was written is the file that was written, with the entry for its rows. -/
lemma Store.materialize_eq_ok {s s' : Store Val} {parquet : Parquet Val} {io : Faults}
    {name : String} {schema : List (RecordBatch.Field τ)} {batches : List (Batch Val)}
    {spec : MaterializeSpec} {entry : Entry}
    (h : s.materialize parquet io name schema batches spec = (.ok entry, s')) :
    ∃ f, parquet.write schema batches = .ok f ∧ entry.rowCount = rowCount batches ∧
      s'.table name = some f := by
  unfold Store.materialize at h
  rcases hwrite : parquet.write schema batches with e | f
  · rw [hwrite] at h
    simp at h
  · rcases hfile : io.file with _ | e
    · rcases hmanifest : io.manifest with _ | e
      · simp only [hwrite, hfile, hmanifest, Prod.mk.injEq, Except.ok.injEq] at h
        obtain ⟨rfl, rfl⟩ := h
        have hnone : (s.entries.filter fun e => e.table ≠ name).find?
            (fun e => e.table = name && (Function.update s.files name (some f) e.table).isSome) =
              none := by
          rw [List.find?_eq_none]
          intro e he
          have hne : e.table ≠ name := by simpa using (List.mem_filter.mp he).2
          simp [hne]
        refine ⟨f, rfl, rfl, ?_⟩
        simp only [Store.table, List.find?_append, hnone]
        simp
      · simp [hwrite, hfile, hmanifest] at h
    · simp [hwrite, hfile] at h

/-- With nothing refused, what Parquet can write is written. -/
lemma Store.materialize_of_write {s : Store Val} {parquet : Parquet Val}
    {name : String} {schema : List (RecordBatch.Field τ)} {batches : List (Batch Val)}
    {spec : MaterializeSpec} {f : ParquetFile Val} (h : parquet.write schema batches = .ok f) :
    ∃ s', s.materialize parquet {} name schema batches spec =
      (.ok ⟨name, rowCount batches, spec⟩, s') := by
  unfold Store.materialize
  rw [h]
  exact ⟨_, rfl⟩

/-- A materialized table comes from a write of the origin's batches. -/
lemma materialize_eq_ok {host : Host Val} {parquet : Parquet Val} {io : Faults} {s s' : Store Val}
    {name : String} {spec : MaterializeSpec} {r : Relation Val} {outcome : MaterializeOutcome}
    (horigin : host.IsOrigin spec r)
    (h : host.materialize parquet io s name spec = (.ok outcome, s')) :
    ∃ f, parquet.write (r.writtenSchema spec) r.batches = .ok f ∧
      outcome.rowCount = rowCount r.batches ∧ s'.table name = some f := by
  unfold Host.materialize at h
  rcases hname : validateMaterializedName name with e | ⟨⟩
  · simp [hname] at h
  · simp only [hname, produce_of_origin horigin] at h
    rcases hstore : s.materialize parquet io name (r.writtenSchema spec) r.batches spec with
      ⟨e | entry, s''⟩
    · simp [hstore] at h
    · simp only [hstore, Prod.mk.injEq, Except.ok.injEq] at h
      obtain ⟨rfl, rfl⟩ := h
      exact Store.materialize_eq_ok hstore

/-- With nothing refused, what Parquet can write becomes the table. -/
lemma materialize_of_write {host : Host Val} {parquet : Parquet Val} {name : String}
    {spec : MaterializeSpec} {r : Relation Val} {f : ParquetFile Val} (s : Store Val)
    (hname : validateMaterializedName name = .ok ()) (horigin : host.IsOrigin spec r)
    (h : parquet.write (r.writtenSchema spec) r.batches = .ok f) :
    ∃ outcome s', host.materialize parquet {} s name spec = (.ok outcome, s') ∧
      s'.table name = some f := by
  obtain ⟨s', hs'⟩ := @Store.materialize_of_write _ _ s parquet name _ _ spec _ h
  have hrun : host.materialize parquet {} s name spec =
      (.ok ⟨⟨materializedSchema, name⟩, dataRel ⟨materializedSchema, name⟩, rowCount r.batches⟩,
        s') := by
    simp only [Host.materialize, hname, produce_of_origin horigin, hs']
  obtain ⟨f', hf', _, htable⟩ := materialize_eq_ok horigin hrun
  rw [h] at hf'
  cases hf'
  exact ⟨_, s', hrun, htable⟩

lemma refreshTable_eq_ok {host : Host Val} {parquet : Parquet Val} {io : Faults} {s s' : Store Val}
    {name : String} {spec : MaterializeSpec} {r : Relation Val} {outcome : RefreshOutcome}
    (horigin : host.IsOrigin spec r) (hspec : s.materializedSpec name = some spec)
    (h : host.refreshTable parquet io s name = (.ok outcome, s')) :
    ∃ f, parquet.write (r.writtenSchema spec) r.batches = .ok f ∧
      outcome.rowsWritten = rowCount r.batches ∧ s'.table name = some f := by
  unfold Host.refreshTable at h
  simp only [hspec, produce_of_origin horigin] at h
  rcases hstore : s.materialize parquet io name (r.writtenSchema spec) r.batches spec with
    ⟨e | entry, s''⟩
  · simp [hstore] at h
  · simp only [hstore, Prod.mk.injEq, Except.ok.injEq] at h
    obtain ⟨rfl, rfl⟩ := h
    exact Store.materialize_eq_ok hstore

/-! ## Reading back -/

variable [DecidableEq τ]

/-- Reading a file gives the schema, the number of rows and the cells of a relation, whether the
columns are left open or all named. -/
structure Reads (f : ParquetFile Val) (r : Relation Val) : Prop where
  schema : f.schema = r.schema
  rows : ∀ projection ∈ [none, some (List.range r.schema.length)],
    ∃ batches, f.read projection = .ok (memoryExec batches r.schema) ∧
      rowCount batches = rowCount r.batches ∧
        ∀ i < r.schema.length, columnOf batches i = columnOf r.batches i

/-- Whenever the spec is materialized or refreshed, its table reads as its relation, of which the
outcome has the number of rows. -/
def Keeps (host : Host Val) (parquet : Parquet Val) (spec : MaterializeSpec) : Prop :=
  ∀ r, host.IsOrigin spec r → ∀ (io : Faults) (s : Store Val) (name : String),
    (∀ outcome s', host.materialize parquet io s name spec = (.ok outcome, s') →
      outcome.rowCount = rowCount r.batches ∧ ∃ f, s'.table name = some f ∧ Reads f r) ∧
    (s.materializedSpec name = some spec →
      ∀ outcome s', host.refreshTable parquet io s name = (.ok outcome, s') →
        outcome.rowsWritten = rowCount r.batches ∧ ∃ f, s'.table name = some f ∧ Reads f r)

/-- All indices select all. -/
lemma select_range {α : Type*} (xs : List α) :
    select xs (List.range xs.length) = some xs := by
  obtain ⟨ys, hys⟩ := @RecordBatch.select_of_lt _ xs (List.range xs.length)
    fun i hi => List.mem_range.mp hi
  have heq : ys = xs := by
    refine List.ext_getElem? fun j => ?_
    rw [RecordBatch.getElem?_of_select hys]
    by_cases hj : j < xs.length
    · simp [hj]
    · simp [hj]
  rw [hys, heq]

/-- A file with the schema and the rows of a relation reads as it. -/
lemma reads_of_kept {f : ParquetFile Val} {r : Relation Val} (hschema : f.schema = r.schema)
    (hrows : rowCount f.batches = rowCount r.batches)
    (hcells : ∀ i, columnOf f.batches i = columnOf r.batches i) : Reads f r := by
  refine ⟨hschema, fun projection hprojection => ?_⟩
  rcases List.mem_pair.mp hprojection with rfl | rfl
  · exact ⟨f.batches, by rw [f.read_none, hschema], hrows, fun i _ => hcells i⟩
  · obtain ⟨batches, hsel, hread⟩ := ParquetFile.read_some (select_range f.schema)
    rw [ite_self, hschema] at hread
    refine ⟨batches, hread, ?_, fun i hi => ?_⟩
    · rw [RecordBatch.rowCount_selects hsel, hrows]
    · rw [← hschema] at hi
      rw [RecordBatch.columnOf_selects hsel (List.getElem?_range hi), hcells]

/-- What is written with the schema of its relation reads as the relation. -/
lemma reads_of_write {parquet : Parquet Val} {r : Relation Val} {f : ParquetFile Val}
    (h : parquet.write r.schema r.batches = .ok f) : Reads f r := by
  obtain ⟨hschema, hrows, hcells⟩ := parquet.kept h r.conforms (.inl r.hasColumns)
  exact reads_of_kept hschema hrows hcells

end

end Materialize
end Engine
end Pawrly
