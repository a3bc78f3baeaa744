import Pawrly.Http.RowCaps
import Pawrly.Http.Raw
import Pawrly.Http.Columns

/-!
# Plans of the HTTP tables

The plans that the scans of the typed and the raw table return, with the batches they hold and the
projection of them.  A typed scan that waits for a parameter is a plan as well, which fails when it
is run.
-/

namespace Pawrly
namespace Http

open RecordBatch

/-! ## Plans -/

/-- Why a scan returns no plan: its source fails, an index or an offset is out of range, which
panics, a field is missing, or columns do not make a batch. -/
inductive ScanError (τ : Type)
  | source (e : DataFusionError)
  | panic
  | noField (name : String)
  | arrow (e : BatchError τ)
  deriving DecidableEq

def ScanError.ofBuild : BuildError → ScanError ArrowType
  | .offsetOverflow => .panic
  | .arrow e => .arrow e

/-- A plan: its schema, and the batches it gives when it is run, or the parameters it lacks. -/
structure ScanPlan {τ : Type} (Val : τ → Type) where
  schema : List (RecordBatch.Field τ)
  batches : Except (List String) (List (Batch Val))

section Projection

variable {τ : Type} [DecidableEq τ] {Val : τ → Type}

/-- An access by index, which panics when there is none. -/
def orPanic {α : Type} : Option α → Except (ScanError τ) α
  | some x => .ok x
  | none => .error .panic

/-- The fields of the projection, by `schema.field`. -/
def projectSchema (schema : List (RecordBatch.Field τ)) :
    Option (List ℕ) → Except (ScanError τ) (List (RecordBatch.Field τ))
  | some p => orPanic (select schema p)
  | none => .ok schema

/-- `MemorySourceConfig::try_new_exec`. -/
def memoryExec (batches : List (Batch Val)) (schema : List (RecordBatch.Field τ)) : ScanPlan Val :=
  ⟨schema, .ok batches⟩

/-- `project_batch`. -/
def projectBatch (projection : Option (List ℕ)) (projectedSchema : List (RecordBatch.Field τ))
    (batch : Batch Val) : Except (ScanError τ) (Batch Val) :=
  match projection with
  | some p => do
      let cols ← orPanic (select batch.columns p)
      (tryNew projectedSchema cols (some batch.numRows)).mapError .arrow
  | none => .ok batch

/-! ## The law of projections -/

/-- The column of the full plan that stands at a place of the projection. -/
def sourceColumn (projection : Option (List ℕ)) (j : ℕ) : Option ℕ :=
  projection.elim (some j) fun p => p[j]?

/-- Run, the plan gives as many rows as the full one, and the cells of its columns; or both lack the
same parameters. -/
def SameRows (projection : Option (List ℕ)) :
    Except (List String) (List (Batch Val)) → Except (List String) (List (Batch Val)) → Prop
  | .ok full, .ok batches =>
      rowCount batches = rowCount full ∧
        ∀ i j, sourceColumn projection j = some i → columnOf batches j = columnOf full i
  | .error names, .error names' => names' = names
  | _, _ => False

/-- The plan is the full one under the projection. -/
structure Projected (schema : List (RecordBatch.Field τ)) (projection : Option (List ℕ))
    (full plan : ScanPlan Val) : Prop where
  schema : projectSchema schema projection = .ok plan.schema
  conforms : ∀ batches, plan.batches = .ok batches → ∀ b ∈ batches, b.schema = plan.schema
  rows : SameRows projection full.batches plan.batches

/-- The scan under the projection returns the plan of the scan without one, projected; it fails only
if that does. -/
structure LawfulAt (schema : List (RecordBatch.Field τ))
    (scan : Option (List ℕ) → Except (ScanError τ) (ScanPlan Val)) (projection : Option (List ℕ)) :
    Prop where
  plan : ∀ full, scan none = .ok full →
    ∃ plan, scan projection = .ok plan ∧ Projected schema projection full plan
  fails : ∀ e, scan none = .error e → ∃ e', scan projection = .error e'

omit [DecidableEq τ] in
lemma sameRows_none (batches : Except (List String) (List (Batch Val))) :
    SameRows none batches batches := by
  cases batches with
  | error names => rfl
  | ok batches =>
      refine ⟨rfl, ?_⟩
      intro i j hj
      cases hj
      rfl

omit [DecidableEq τ] in
lemma sameRows_selects {p : List ℕ} {full batches : List (Batch Val)}
    (h : List.Forall₂ (Selects p) full batches) : SameRows (some p) (.ok full) (.ok batches) :=
  ⟨rowCount_selects h, fun _ _ hj => columnOf_selects h hj⟩

omit [DecidableEq τ] in
lemma orPanic_eq_ok {α : Type} {x : Option α} {a : α} :
    orPanic (τ := τ) x = .ok a ↔ x = some a := by
  cases x <;> simp [orPanic]

omit [DecidableEq τ] in
/-- A projection has the fields of its columns. -/
lemma projectSchema_some {schema fields : List (RecordBatch.Field τ)} {p : List ℕ} :
    projectSchema schema (some p) = .ok fields ↔ select schema p = some fields :=
  orPanic_eq_ok

/-- The columns of a projection. -/
def InRange (schema : List (RecordBatch.Field τ)) (projection : Option (List ℕ)) : Prop :=
  ∀ p ∈ projection, ∀ i ∈ p, i < schema.length

omit [DecidableEq τ] in
lemma columns_length (batch : Batch Val) : batch.columns.length = batch.schema.length := by
  simpa using congrArg List.length batch.types

omit [DecidableEq τ] in
/-- The columns at the indices of the fields. -/
lemma exists_columns {batch : Batch Val} {p : List ℕ} {fields : List (RecordBatch.Field τ)}
    (h : select batch.schema p = some fields) : ∃ columns, select batch.columns p = some columns := by
  refine select_of_lt ?_
  rw [columns_length]
  exact lt_of_select h

/-- With the number of rows given, each projection of a batch is one. -/
lemma projectBatch_selects {batch : Batch Val} {p : List ℕ} {fields : List (RecordBatch.Field τ)}
    (h : select batch.schema p = some fields) :
    ∃ batch', projectBatch (some p) fields batch = .ok batch' ∧ Selects p batch batch' := by
  obtain ⟨columns, hcolumns⟩ := exists_columns h
  obtain ⟨batch', hnew, hsel⟩ := tryNew_of_select h hcolumns (.inl rfl)
  refine ⟨batch', ?_, hsel⟩
  show (orPanic (select batch.columns p) >>= fun cols =>
    (tryNew fields cols (some batch.numRows)).mapError ScanError.arrow) = _
  rw [hcolumns]
  show (tryNew fields columns (some batch.numRows)).mapError ScanError.arrow = _
  rw [hnew]
  rfl

omit [DecidableEq τ] in
/-- A plan of selected columns is projected. -/
lemma projected_of_selects {schema fields : List (RecordBatch.Field τ)} {p : List ℕ}
    {full batches : List (Batch Val)} (hfields : select schema p = some fields)
    (hfull : ∀ b ∈ full, b.schema = schema) (h : List.Forall₂ (Selects p) full batches) :
    Projected schema (some p) (memoryExec full schema) (memoryExec batches fields) where
  schema := projectSchema_some.mpr hfields
  conforms := by
    intro batches' heq b hb
    cases heq
    obtain ⟨a, ha, hsel⟩ := Fallible.exists_left h hb
    have hschema := hsel.schema
    rw [hfull a ha, hfields] at hschema
    exact (Option.some.inj hschema).symm
  rows := sameRows_selects h

omit [DecidableEq τ] in
lemma projected_none {schema : List (RecordBatch.Field τ)} {full : List (Batch Val)}
    (hfull : ∀ b ∈ full, b.schema = schema) :
    Projected schema none (memoryExec full schema) (memoryExec full schema) where
  schema := rfl
  conforms := by
    intro batches heq b hb
    cases heq
    exact hfull b hb
  rows := sameRows_none _

omit [DecidableEq τ] in
/-- A scan that loads batches of its schema, and selects from each, is lawful. -/
lemma lawfulAt_of_load {schema : List (RecordBatch.Field τ)} {projection : Option (List ℕ)}
    {scan : Option (List ℕ) → Except (ScanError τ) (ScanPlan Val)}
    (load : Except (ScanError τ) (List (Batch Val))) (hrange : InRange schema projection)
    (hload : ∀ full, load = .ok full → ∀ b ∈ full, b.schema = schema)
    (hnone : scan none = load >>= fun full => .ok (memoryExec full schema))
    (hfails : ∀ e p, load = .error e → ∃ e', scan (some p) = .error e')
    (hsome : ∀ full p fields, load = .ok full → select schema p = some fields →
      projection = some p → ∃ batches, scan (some p) = .ok (memoryExec batches fields) ∧
        List.Forall₂ (Selects p) full batches) :
    LawfulAt schema scan projection := by
  cases projection with
  | none =>
      refine ⟨fun plan hplan => ⟨plan, hplan, ?_⟩, fun e he => ⟨e, he⟩⟩
      rw [hnone] at hplan
      obtain ⟨full, hfull, heq⟩ := Fallible.bind_eq_ok.mp hplan
      cases heq
      exact projected_none (hload full hfull)
  | some p =>
      obtain ⟨fields, hfields⟩ := select_of_lt (hrange p rfl)
      constructor
      · intro plan hplan
        rw [hnone] at hplan
        obtain ⟨full, hfull, heq⟩ := Fallible.bind_eq_ok.mp hplan
        cases heq
        obtain ⟨batches, hscan, hsel⟩ := hsome full p fields hfull hfields rfl
        exact ⟨_, hscan, projected_of_selects hfields (hload full hfull) hsel⟩
      · intro e he
        cases hfull : load with
        | error e' => exact hfails e' p hfull
        | ok full =>
            rw [hnone, hfull] at he
            cases he

omit [DecidableEq τ] in
/-- A scan that loads one batch of its schema, and selects from it, is lawful. -/
lemma lawfulAt_of_batch {schema : List (RecordBatch.Field τ)} {projection : Option (List ℕ)}
    {scan : Option (List ℕ) → Except (ScanError τ) (ScanPlan Val)}
    (load : Except (ScanError τ) (Batch Val)) (hrange : InRange schema projection)
    (hload : ∀ full, load = .ok full → full.schema = schema)
    (hfails : ∀ e projection, load = .error e → scan projection = .error e)
    (hnone : ∀ full, load = .ok full → scan none = .ok (memoryExec [full] schema))
    (hsome : ∀ full p fields, load = .ok full → select schema p = some fields →
      projection = some p → ∃ batch, scan (some p) = .ok (memoryExec [batch] fields) ∧
        Selects p full batch) :
    LawfulAt schema scan projection := by
  cases hbatch : load with
  | error e =>
      have hscan := hfails e
      exact ⟨fun full hfull => (by rw [hscan _ hbatch] at hfull; cases hfull),
        fun _ _ => ⟨e, hscan _ hbatch⟩⟩
  | ok full =>
      refine lawfulAt_of_load (.ok [full]) hrange ?_ (hnone full hbatch) ?_ ?_
      · intro batches heq b hb
        cases heq
        rw [List.mem_singleton.mp hb]
        exact hload full hbatch
      · intro e p he
        cases he
      · intro batches p fields heq hfields hp
        cases heq
        obtain ⟨batch, hscan, hsel⟩ := hsome full p fields hbatch hfields hp
        exact ⟨[batch], hscan, .cons hsel .nil⟩

end Projection

/-! ## The typed table -/

section Typed

variable {F : Type} (fmt : Formats F)

/-- The batch of the rows of one set of values. -/
def setBatch (columns : List ResponseColumn) (specs : List ParamSpec) (params : Params)
    (rows : List Json) : Except (ScanError ArrowType) (Batch (ArrowType.Value F)) :=
  (buildBatch fmt (schemaFor columns specs) (effectiveColumns columns specs) rows params).mapError
    ScanError.ofBuild

/-- A batch, cut off where the limit is reached. -/
def trim (limit : Option ℕ) (total : ℕ) (batch : Batch (ArrowType.Value F)) :
    Batch (ArrowType.Value F) :=
  limit.elim batch fun l => if l < total + batch.numRows then batch.slice (l - total) else batch

/-- The loop of `scan_bound` over the sets of values, with the batches it collects. -/
def batchLoop (spec : HttpTableSpec) (columns : List ResponseColumn) (maxRows limit : Option ℕ)
    (fetch : Params → Option ℕ → Except DataFusionError (List Json)) :
    List Params → ℕ → Except (ScanError ArrowType) (List (Batch (ArrowType.Value F)))
  | [], _ => .ok []
  | bind :: rest, total =>
      if limit.any (· ≤ total) then .ok []
      else do
        let rows ← (fetch bind (limit.map (· - total))).mapError .source
        match maxRows.filter (· < total + rows.length) with
        | some max => .error (.source (tooManyRows spec.name max))
        | none =>
            if rows = [] then batchLoop spec columns maxRows limit fetch rest total
            else do
              let built ← setBatch fmt columns spec.params bind rows
              let batch := trim limit total built
              let more ← batchLoop spec columns maxRows limit fetch rest (total + batch.numRows)
              .ok (if 0 < batch.numRows then batch :: more else more)

/-- The batches of a scan, at least one of them. -/
def scanBatches (spec : HttpTableSpec) (columns : List ResponseColumn) (maxRows limit : Option ℕ)
    (fetch : Params → Option ℕ → Except DataFusionError (List Json)) (sets : List Params)
    (params : Params) : Except (ScanError ArrowType) (List (Batch (ArrowType.Value F))) := do
  let batches ← batchLoop fmt spec columns maxRows limit fetch sets 0
  if batches = [] then do
    let empty ← setBatch fmt columns spec.params params []
    .ok [empty]
  else .ok batches

/-- The end of `scan_bound`: each batch is projected. -/
def planBatches (schema : List (RecordBatch.Field ArrowType)) (projection : Option (List ℕ))
    (batches : List (Batch (ArrowType.Value F))) :
    Except (ScanError ArrowType) (ScanPlan (ArrowType.Value F)) := do
  let projectedSchema ← projectSchema schema projection
  let projected ← batches.mapM (projectBatch projection projectedSchema)
  .ok (memoryExec projected projectedSchema)

/-- `scan_bound`, with the plan it returns.  `fetch` is `fetch_rows`. -/
def scanBoundPlan (spec : HttpTableSpec) (columns : List ResponseColumn)
    (maxRows limit : Option ℕ)
    (fetch : Params → OrderedMap String (List String) → Option ℕ →
      Except DataFusionError (List Json))
    (filters : List Expr) (nowEpoch : ℤ) (allowDefer : Bool) (projection : Option (List ℕ)) :
    Except (ScanError ArrowType) (ScanPlan (ArrowType.Value F)) := do
  match ← (spec.bindScan filters nowEpoch allowDefer).mapError .source with
  | .deferred names => do
      let projectedSchema ← projectSchema (schemaFor columns spec.params) projection
      .ok ⟨projectedSchema, .error names⟩
  | .bound b => do
      let batches ← scanBatches fmt spec columns maxRows limit
        (fun bind rest => fetch bind b.explode rest) b.sets (spec.baseParams filters nowEpoch)
      planBatches (schemaFor columns spec.params) projection batches

/-- The scan of a typed table whose client fetches the rows. -/
def Client.scanPlan {U : Type} (client : Client U) (spec : HttpTableSpec)
    (columns : List ResponseColumn) (maxPages maxRows limit : Option ℕ)
    (send : Params → ℕ → Request U → Except DataFusionError Response) (filters : List Expr)
    (nowEpoch : ℤ) (allowDefer : Bool) :
    Option (List ℕ) → Except (ScanError ArrowType) (ScanPlan (ArrowType.Value F)) :=
  scanBoundPlan fmt spec columns maxRows limit
    (fun bind explode rest => client.fetchRows spec maxPages maxRows rest (send bind) bind explode)
    filters nowEpoch allowDefer

section Law

variable {fmt}
variable {spec : HttpTableSpec} {columns : List ResponseColumn} {maxRows limit : Option ℕ}

lemma setBatch_schema {params : Params} {rows : List Json} {batch : Batch (ArrowType.Value F)}
    (h : setBatch fmt columns spec.params params rows = .ok batch) :
    batch.schema = schemaFor columns spec.params := by
  have hbuild := Fallible.mapError_eq_ok.mp h
  unfold buildBatch at hbuild
  dsimp only at hbuild
  obtain ⟨_, hnew⟩ := Fallible.ite_error_eq_ok.mp hbuild
  exact (tryNew_eq_ok.mp (Fallible.mapError_eq_ok.mp hnew)).1

lemma trim_schema (total : ℕ) (batch : Batch (ArrowType.Value F)) :
    (trim limit total batch).schema = batch.schema := by
  unfold trim
  cases limit with
  | none => rfl
  | some l =>
      simp only [Option.elim_some]
      split_ifs <;> rfl

lemma batchLoop_schema {fetch : Params → Option ℕ → Except DataFusionError (List Json)}
    {sets : List Params} {total : ℕ} {batches : List (Batch (ArrowType.Value F))}
    (h : batchLoop fmt spec columns maxRows limit fetch sets total = .ok batches) :
    ∀ b ∈ batches, b.schema = schemaFor columns spec.params := by
  induction sets generalizing total batches with
  | nil =>
      cases h
      simp
  | cons bind rest ih =>
      unfold batchLoop at h
      split at h
      · cases h
        simp
      · obtain ⟨rows, _, h⟩ := Fallible.bind_eq_ok.mp h
        split at h
        · cases h
        · split at h
          · exact ih h
          · obtain ⟨built, hbuilt, h⟩ := Fallible.bind_eq_ok.mp h
            obtain ⟨more, hmore, h⟩ := Fallible.bind_eq_ok.mp h
            cases h
            intro b hb
            split at hb
            · rcases List.mem_cons.mp hb with rfl | hmem
              · rw [trim_schema, setBatch_schema hbuilt]
              · exact ih hmore b hmem
            · exact ih hmore b hb

lemma scanBatches_schema {fetch : Params → Option ℕ → Except DataFusionError (List Json)}
    {sets : List Params} {params : Params} {batches : List (Batch (ArrowType.Value F))}
    (h : scanBatches fmt spec columns maxRows limit fetch sets params = .ok batches) :
    ∀ b ∈ batches, b.schema = schemaFor columns spec.params := by
  obtain ⟨collected, hcollected, h⟩ := Fallible.bind_eq_ok.mp h
  split at h
  · obtain ⟨empty, hempty, h⟩ := Fallible.bind_eq_ok.mp h
    cases h
    simpa using setBatch_schema hempty
  · cases h
    exact batchLoop_schema hcollected

lemma planBatches_none (schema : List (RecordBatch.Field ArrowType))
    (batches : List (Batch (ArrowType.Value F))) :
    planBatches schema none batches = .ok (memoryExec batches schema) := by
  have hmap : batches.mapM (projectBatch none schema) = Except.ok batches :=
    Fallible.mapM_eq_ok_iff.mpr (List.forall₂_same.mpr fun _ _ => rfl)
  exact Fallible.bind_eq_ok.mpr ⟨schema, rfl, Fallible.bind_eq_ok.mpr ⟨batches, hmap, rfl⟩⟩

lemma planBatches_some {schema fields : List (RecordBatch.Field ArrowType)} {p : List ℕ}
    {full : List (Batch (ArrowType.Value F))} (hfields : select schema p = some fields)
    (hfull : ∀ b ∈ full, b.schema = schema) :
    ∃ batches, planBatches schema (some p) full = .ok (memoryExec batches fields) ∧
      List.Forall₂ (Selects p) full batches := by
  obtain ⟨batches, hbatches, hsel⟩ := Fallible.mapM_forall₂ (R := Selects p)
    (f := projectBatch (some p) fields) (l := full)
    fun b hb => projectBatch_selects (by rw [hfull b hb, hfields])
  refine ⟨batches, ?_, hsel⟩
  refine Fallible.bind_eq_ok.mpr ⟨fields, projectSchema_some.mpr hfields, ?_⟩
  exact Fallible.bind_eq_ok.mpr ⟨batches, hbatches, rfl⟩

/-- The typed table projects the plan of all columns, also the one that waits for parameters. -/
lemma scanBoundPlan_lawful
    {fetch : Params → OrderedMap String (List String) → Option ℕ →
      Except DataFusionError (List Json)}
    {filters : List Expr} {nowEpoch : ℤ} {allowDefer : Bool} {projection : Option (List ℕ)}
    (hrange : InRange (schemaFor columns spec.params) projection) :
    LawfulAt (schemaFor columns spec.params)
      (scanBoundPlan fmt spec columns maxRows limit fetch filters nowEpoch allowDefer)
      projection := by
  cases hbind : spec.bindScan filters nowEpoch allowDefer with
  | error e =>
      have hscan : ∀ projection, scanBoundPlan fmt spec columns maxRows limit fetch filters nowEpoch
          allowDefer projection = .error (.source e) := by
        intro projection
        unfold scanBoundPlan
        rw [hbind]
        rfl
      exact ⟨fun full hfull => (by rw [hscan] at hfull; cases hfull), fun _ _ => ⟨_, hscan _⟩⟩
  | ok scan =>
      cases scan with
      | deferred names =>
          have hscan : ∀ projection, scanBoundPlan fmt spec columns maxRows limit fetch filters
              nowEpoch allowDefer projection =
                projectSchema (schemaFor columns spec.params) projection >>= fun fields =>
                  .ok ⟨fields, .error names⟩ := by
            intro projection
            unfold scanBoundPlan
            rw [hbind]
            rfl
          obtain ⟨fields, hfields⟩ : ∃ fields,
              projectSchema (τ := ArrowType) (schemaFor columns spec.params) projection =
                .ok fields := by
            cases projection with
            | none => exact ⟨_, rfl⟩
            | some p =>
                obtain ⟨fields, hfields⟩ := select_of_lt (hrange p rfl)
                exact ⟨fields, projectSchema_some.mpr hfields⟩
          constructor
          · intro full hfull
            rw [hscan] at hfull
            cases hfull
            refine ⟨⟨fields, .error names⟩, ?_, hfields, fun _ h => (by cases h), rfl⟩
            rw [hscan, hfields]
            rfl
          · intro e he
            rw [hscan] at he
            cases he
      | bound b =>
          let load := scanBatches fmt spec columns maxRows limit
            (fun bind rest => fetch bind b.explode rest) b.sets (spec.baseParams filters nowEpoch)
          have hscan : ∀ projection, scanBoundPlan fmt spec columns maxRows limit fetch filters
              nowEpoch allowDefer projection =
                load >>= planBatches (schemaFor columns spec.params) projection := by
            intro projection
            unfold scanBoundPlan
            rw [hbind]
            rfl
          refine lawfulAt_of_load load hrange (fun full hfull => scanBatches_schema hfull) ?_ ?_ ?_
          · rw [hscan]
            exact congrArg (load >>= ·) (funext fun full => planBatches_none _ full)
          · intro e p he
            rw [hscan]
            exact ⟨e, Fallible.bind_eq_error he⟩
          · intro full p fields hfull hfields _
            obtain ⟨batches, hplan, hsel⟩ :=
              planBatches_some hfields (scanBatches_schema hfull)
            refine ⟨batches, ?_, hsel⟩
            rw [hscan]
            exact Fallible.bind_eq_ok.mpr ⟨full, hfull, hplan⟩

lemma Client.scanPlan_lawful {U : Type} {client : Client U} {maxPages : Option ℕ}
    {send : Params → ℕ → Request U → Except DataFusionError Response} {filters : List Expr}
    {nowEpoch : ℤ} {allowDefer : Bool} {projection : Option (List ℕ)}
    (hrange : InRange (schemaFor columns spec.params) projection) :
    LawfulAt (schemaFor columns spec.params)
      (client.scanPlan fmt spec columns maxPages maxRows limit send filters nowEpoch allowDefer)
      projection :=
  scanBoundPlan_lawful hrange

end Law

end Typed

/-! ## The raw table -/

namespace Raw

/-- The fields of the table. -/
def schema : List (RecordBatch.Field ArrowType) :=
  [⟨"request_method", .utf8⟩, ⟨"request_path", .utf8⟩, ⟨"request_query", .utf8⟩,
    ⟨"response_status", .int32⟩, ⟨"response_body", .utf8⟩]

section

variable {F : Type}

/-- The arrays of the rows. -/
def arrays (rows : List Row) : List (ArrowArray F) :=
  [⟨.utf8, rows.map fun r => some r.requestMethod⟩,
    ⟨.utf8, rows.map fun r => some r.requestPath⟩,
    ⟨.utf8, rows.map Row.requestQuery⟩,
    ⟨.int32, rows.map fun r => toSigned 32 r.response.status⟩,
    ⟨.utf8, rows.map fun r => some r.response.body⟩]

/-- The batch of the rows; a text array whose offsets overflow panics. -/
def batch (rows : List Row) : Except (ScanError ArrowType) (Batch (ArrowType.Value F)) :=
  if (arrays (F := F) rows).any fun array => maxTextBytes < textBytes array then .error .panic
  else (tryNew schema (arrays rows) none).mapError .arrow

/-- The projected columns as a batch of their own, without the number of rows. -/
def project (projectedSchema : List (RecordBatch.Field ArrowType))
    (full : Batch (ArrowType.Value F)) :
    Option (List ℕ) → Except (ScanError ArrowType) (Batch (ArrowType.Value F))
  | some p => do
      let cols ← orPanic (select full.columns p)
      (tryNew projectedSchema cols none).mapError .arrow
  | none => .ok full

/-- The batch of the requests of a scan. -/
def load (name : String)
    (send : String → String → Option String → Except DataFusionError Response)
    (filters : List Expr) : Except (ScanError ArrowType) (Batch (ArrowType.Value F)) := do
  let rows ← (scan name send filters).mapError .source
  batch rows

/-- `scan`, with the plan it returns. -/
def scanPlan (name : String)
    (send : String → String → Option String → Except DataFusionError Response)
    (filters : List Expr) (projection : Option (List ℕ)) :
    Except (ScanError ArrowType) (ScanPlan (ArrowType.Value F)) := do
  let full ← load name send filters
  let projectedSchema ← projectSchema schema projection
  let projected ← project projectedSchema full projection
  .ok (memoryExec [projected] projectedSchema)

variable {name : String} {send : String → String → Option String → Except DataFusionError Response}
  {filters : List Expr} {projection : Option (List ℕ)}

lemma batch_schema {rows : List Row} {full : Batch (ArrowType.Value F)}
    (h : batch rows = .ok full) : full.schema = schema := by
  obtain ⟨_, hnew⟩ := Fallible.ite_error_eq_ok.mp h
  exact (tryNew_eq_ok.mp (Fallible.mapError_eq_ok.mp hnew)).1

lemma load_schema {full : Batch (ArrowType.Value F)} (h : load name send filters = .ok full) :
    full.schema = schema := by
  obtain ⟨rows, _, hbatch⟩ := Fallible.bind_eq_ok.mp h
  exact batch_schema hbatch

/-- The empty projection fails, whatever the rows are. -/
lemma scanPlan_nil (plan : ScanPlan (ArrowType.Value F)) :
    scanPlan name send filters (some []) ≠ .ok plan := by
  intro h
  obtain ⟨full, _, h⟩ := Fallible.bind_eq_ok.mp h
  obtain ⟨fields, _, h⟩ := Fallible.bind_eq_ok.mp h
  obtain ⟨projected, h, _⟩ := Fallible.bind_eq_ok.mp h
  obtain ⟨cols, hcols, h⟩ := Fallible.bind_eq_ok.mp h
  rw [select_nil] at hcols
  cases hcols
  exact tryNew_nil _ _ (Fallible.mapError_eq_ok.mp h)

lemma project_selects {fields : List (RecordBatch.Field ArrowType)}
    {full : Batch (ArrowType.Value F)}
    {p : List ℕ} (hfields : select full.schema p = some fields) (hne : p ≠ []) :
    ∃ projected, project fields full (some p) = .ok projected ∧ Selects p full projected := by
  obtain ⟨columns, hcolumns⟩ := exists_columns hfields
  obtain ⟨projected, hnew, hsel⟩ := tryNew_of_select hfields hcolumns (.inr ⟨rfl, hne⟩)
  refine ⟨projected, ?_, hsel⟩
  refine Fallible.bind_eq_ok.mpr ⟨columns, orPanic_eq_ok.mpr hcolumns, ?_⟩
  exact Fallible.mapError_eq_ok.mpr hnew

/-- The raw table projects the plan of all columns, unless there is no column to select. -/
lemma scanPlan_lawful_iff (hrange : InRange schema projection) :
    LawfulAt schema (scanPlan (F := F) name send filters) projection ↔
      ((∃ full, scanPlan (F := F) name send filters none = .ok full) → projection ≠ some []) := by
  constructor
  · rintro hlaw ⟨full, hfull⟩ rfl
    obtain ⟨plan, hplan, _⟩ := hlaw.plan full hfull
    exact scanPlan_nil plan hplan
  · intro hne
    have hnone : ∀ full, load name send filters = .ok full →
        scanPlan (F := F) name send filters none = .ok (memoryExec [full] schema) :=
      fun full hfull => Fallible.bind_eq_ok.mpr ⟨full, hfull, rfl⟩
    refine lawfulAt_of_batch (load name send filters) hrange (fun full => load_schema)
      (fun e projection => Fallible.bind_eq_error) hnone ?_
    intro full p fields hfull hfields hp
    have hp' : p ≠ [] := by
      rintro rfl
      exact hne ⟨_, hnone full hfull⟩ hp
    obtain ⟨projected, hproject, hsel⟩ :=
      project_selects (by rw [load_schema hfull, hfields]) hp'
    refine ⟨projected, ?_, hsel⟩
    refine Fallible.bind_eq_ok.mpr ⟨full, hfull, ?_⟩
    refine Fallible.bind_eq_ok.mpr ⟨fields, projectSchema_some.mpr hfields, ?_⟩
    exact Fallible.bind_eq_ok.mpr ⟨projected, hproject, rfl⟩

end

end Raw

end Http
end Pawrly
