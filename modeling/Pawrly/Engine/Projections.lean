import Pawrly.Mcp.ToolTable

/-!
# Projections of scans

A scan under a projection should return the plan of the scan without one, with the projected schema
and the same rows (`LawfulAt`).  Each provider projects on its own: the typed, MCP and function call
tables keep the number of rows; the raw table does not, and fails on the empty projection; the cached
table takes its schema from the first batch, and has the one of all columns when there is none
(`lawfulAt_iff`).
-/

namespace Pawrly

open RecordBatch Http

/-! ## The function call table -/

section

variable {τ : Type} [DecidableEq τ] {Val : τ → Type}

/-- A bound call of a function: each executor makes a batch of its arrays and the schema of the
function. -/
structure FunctionCallTable (Val : τ → Type) where
  schema : List (RecordBatch.Field τ)
  arrays : Option ℕ → Except (ScanError τ) (List (Column Val))

/-- `FunctionExecutor::invoke`. -/
def FunctionCallTable.invoke (t : FunctionCallTable Val) (limit : Option ℕ) :
    Except (ScanError τ) (Batch Val) := do
  let arrays ← t.arrays limit
  (tryNew t.schema arrays none).mapError .arrow

/-- `FunctionCallTable::scan`.  An index out of range panics, when the fields are taken. -/
def FunctionCallTable.scanPlan (t : FunctionCallTable Val) (limit : Option ℕ)
    (projection : Option (List ℕ)) : Except (ScanError τ) (ScanPlan Val) := do
  let batch ← t.invoke limit
  match projection with
  | some p => do
      let fields ← orPanic (select t.schema p)
      let projected ← orPanic (batch.project p)
      .ok (memoryExec [projected] fields)
  | none => .ok (memoryExec [batch] t.schema)

/-! ## The cached table -/

/-- A file of record batches, as it is read back. -/
structure ParquetFile (Val : τ → Type) where
  schema : List (RecordBatch.Field τ)
  batches : List (Batch Val)
  conforms : ∀ b ∈ batches, b.schema = schema

/-- A cached table at a scan: the file of its entry, if that is fresh (`none` when it cannot be
read), and what the scan of the inner table gives when it is run, which has the schema of the
table. -/
structure CachedTable (Val : τ → Type) where
  schema : List (RecordBatch.Field τ)
  fresh : Option (Option (ParquetFile Val))
  fetched : Except (ScanError τ) (List (Batch Val))
  conforms : ∀ batches, fetched = .ok batches → ∀ b ∈ batches, b.schema = schema

/-- `project_batches`. -/
def projectBatches (schema : List (RecordBatch.Field τ)) (batches : List (Batch Val)) :
    Option (List ℕ) → Except (ScanError τ) (List (Batch Val))
  | none => .ok batches
  | some p => do
      let projectedSchema ← orPanic (select schema p)
      batches.mapM fun b =>
        if p = [] then (tryNew projectedSchema [] (some b.numRows)).mapError .arrow
        else do
          let cols ← orPanic (select b.columns p)
          (tryNew projectedSchema cols none).mapError .arrow

/-- The plan of projected batches: its schema is that of the first one, or the whole schema when
there is none. -/
def projectedExec (schema : List (RecordBatch.Field τ)) (batches : List (Batch Val))
    (projection : Option (List ℕ)) : Except (ScanError τ) (ScanPlan Val) := do
  let projected ← projectBatches schema batches projection
  .ok (memoryExec projected ((projected.head?.map Batch.schema).getD schema))

/-- `read_parquet_as_exec`, of a file that can be read. -/
def ParquetFile.read (f : ParquetFile Val) (projection : Option (List ℕ)) :
    Except (ScanError τ) (ScanPlan Val) :=
  projectedExec f.schema f.batches projection

/-- The part of `CachedTableProvider::scan` after a miss. -/
def CachedTable.miss (t : CachedTable Val) (projection : Option (List ℕ)) :
    Except (ScanError τ) (ScanPlan Val) := do
  let batches ← t.fetched
  projectedExec t.schema batches projection

/-- `CachedTableProvider::scan`: a file that cannot be read is a miss. -/
def CachedTable.scanPlan (t : CachedTable Val) (projection : Option (List ℕ)) :
    Except (ScanError τ) (ScanPlan Val) :=
  match t.fresh with
  | some (some f) =>
      match f.read projection with
      | .ok plan => .ok plan
      | .error .panic => .error .panic
      | .error _ => t.miss projection
  | _ => t.miss projection

/-! ## When they are lawful -/

/-- The call of a function projects the plan of all columns. -/
lemma FunctionCallTable.scanPlan_lawful {t : FunctionCallTable Val} {limit : Option ℕ}
    {projection : Option (List ℕ)} (hrange : InRange t.schema projection) :
    LawfulAt t.schema (t.scanPlan limit) projection := by
  have hload : ∀ full, t.invoke limit = .ok full → full.schema = t.schema := by
    intro full hfull
    obtain ⟨arrays, _, hnew⟩ := Fallible.bind_eq_ok.mp hfull
    exact (tryNew_eq_ok.mp (Fallible.mapError_eq_ok.mp hnew)).1
  refine lawfulAt_of_batch (t.invoke limit) hrange hload
    (fun e projection => Fallible.bind_eq_error)
    (fun full hfull => Fallible.bind_eq_ok.mpr ⟨full, hfull, rfl⟩) ?_
  intro full p fields hfull hfields hp
  obtain ⟨projected, hproject, hsel⟩ :=
    project_of_lt (by rw [hload full hfull]; exact hrange p hp)
  refine ⟨projected, ?_, hsel⟩
  refine Fallible.bind_eq_ok.mpr ⟨full, hfull, ?_⟩
  refine Fallible.bind_eq_ok.mpr ⟨fields, orPanic_eq_ok.mpr hfields, ?_⟩
  exact Fallible.bind_eq_ok.mpr ⟨projected, orPanic_eq_ok.mpr hproject, rfl⟩

/-- Projecting batches of the schema selects from each. -/
lemma projectBatches_selects {schema fields : List (RecordBatch.Field τ)}
    {batches : List (Batch Val)}
    {p : List ℕ} (hfields : select schema p = some fields)
    (hconforms : ∀ b ∈ batches, b.schema = schema) :
    ∃ projected, projectBatches schema batches (some p) = .ok projected ∧
      List.Forall₂ (Selects p) batches projected := by
  have hturn : ∀ b ∈ batches, ∃ b',
      (if p = [] then (tryNew fields [] (some b.numRows)).mapError ScanError.arrow
        else do
          let cols ← orPanic (select b.columns p)
          (tryNew fields cols none).mapError .arrow) = .ok b' ∧ Selects p b b' := by
    intro b hb
    have hb' : select b.schema p = some fields := by rw [hconforms b hb, hfields]
    obtain ⟨columns, hcolumns⟩ := exists_columns hb'
    split_ifs with hnil
    · subst hnil
      have hcolumns' : select b.columns [] = some [] := select_nil _
      obtain ⟨b', hnew, hsel⟩ := tryNew_of_select hb' hcolumns' (.inl rfl)
      exact ⟨b', Fallible.mapError_eq_ok.mpr hnew, hsel⟩
    · obtain ⟨b', hnew, hsel⟩ := tryNew_of_select hb' hcolumns (.inr ⟨rfl, hnil⟩)
      refine ⟨b', ?_, hsel⟩
      refine Fallible.bind_eq_ok.mpr ⟨columns, orPanic_eq_ok.mpr hcolumns, ?_⟩
      exact Fallible.mapError_eq_ok.mpr hnew
  obtain ⟨projected, hprojected, hsel⟩ := Fallible.mapM_forall₂ hturn
  refine ⟨projected, ?_, hsel⟩
  exact Fallible.bind_eq_ok.mpr ⟨fields, orPanic_eq_ok.mpr hfields, hprojected⟩

/-- The batches under the projection have the projected schema of the table: the indices are in
range, and the schema is projected with the batches, of which there is one. -/
def ParquetFile.Keeps (f : ParquetFile Val) (schema : List (RecordBatch.Field τ)) :
    Option (List ℕ) → Prop
  | none => f.schema = schema
  | some p => (∀ i ∈ p, i < f.schema.length) ∧
      select schema p = if f.batches = [] then some f.schema else select f.schema p

/-- What a cached table serves: the file, or the batches that are fetched, as they are written
through. -/
def CachedTable.served (t : CachedTable Val) : Option (ParquetFile Val) :=
  match t.fresh with
  | some (some f) => some f
  | _ =>
      match h : t.fetched with
      | .ok batches => some ⟨t.schema, batches, t.conforms batches h⟩
      | .error _ => none

lemma ParquetFile.read_none (f : ParquetFile Val) :
    f.read none = .ok (memoryExec f.batches f.schema) := by
  obtain ⟨schema, batches, hconforms⟩ := f
  cases batches with
  | nil => rfl
  | cons b batches =>
      show Except.ok (memoryExec (b :: batches) b.schema) = _
      rw [hconforms b List.mem_cons_self]

lemma ParquetFile.read_of_none {f : ParquetFile Val} {p : List ℕ}
    (h : select f.schema p = none) : f.read (some p) = .error .panic := by
  show (orPanic (select f.schema p) >>= _) >>= _ = _
  rw [h]
  rfl

/-- A file that is read gives its batches under the projection, and their schema if there is one. -/
lemma ParquetFile.read_some {f : ParquetFile Val} {p : List ℕ}
    {fields : List (RecordBatch.Field τ)}
    (hfields : select f.schema p = some fields) :
    ∃ projected, List.Forall₂ (Selects p) f.batches projected ∧
      f.read (some p) =
        .ok (memoryExec projected (if f.batches = [] then f.schema else fields)) := by
  obtain ⟨schema, batches, hconforms⟩ := f
  obtain ⟨projected, hprojected, hsel⟩ := projectBatches_selects hfields hconforms
  refine ⟨projected, hsel, Fallible.bind_eq_ok.mpr ⟨projected, hprojected, ?_⟩⟩
  cases hsel with
  | nil => rfl
  | @cons b b' batches projected hb _ =>
      have hschema := hb.schema
      rw [hconforms b List.mem_cons_self, hfields] at hschema
      show Except.ok (memoryExec (b' :: projected) b'.schema) = _
      rw [← Option.some.inj hschema]
      rfl

lemma ParquetFile.read_ok_or_panic (f : ParquetFile Val) (projection : Option (List ℕ)) :
    (∃ plan, f.read projection = .ok plan) ∨ f.read projection = .error .panic := by
  cases projection with
  | none => exact .inl ⟨_, f.read_none⟩
  | some p =>
      cases hfields : select f.schema p with
      | none => exact .inr (read_of_none hfields)
      | some fields =>
          obtain ⟨projected, _, hread⟩ := read_some hfields
          exact .inl ⟨_, hread⟩

lemma ParquetFile.read_lawful_iff {f : ParquetFile Val} {schema : List (RecordBatch.Field τ)}
    {projection : Option (List ℕ)} :
    LawfulAt schema f.read projection ↔ f.Keeps schema projection := by
  constructor
  · intro hlaw
    obtain ⟨plan, hplan, hprojected⟩ := hlaw.plan _ f.read_none
    cases projection with
    | none =>
        rw [f.read_none] at hplan
        cases hplan
        exact (Except.ok.inj hprojected.schema).symm
    | some p =>
        cases hfields : select f.schema p with
        | none =>
            rw [read_of_none hfields] at hplan
            cases hplan
        | some fields =>
            obtain ⟨projected, _, hread⟩ := read_some hfields
            rw [hread] at hplan
            cases hplan
            refine ⟨lt_of_select hfields, ?_⟩
            rw [projectSchema_some.mp hprojected.schema]
            split_ifs
            · rfl
            · exact hfields.symm
  · intro hkeeps
    refine ⟨?_, fun e he => (by rw [f.read_none] at he; cases he)⟩
    intro full hfull
    rw [f.read_none] at hfull
    cases hfull
    cases projection with
    | none =>
        obtain rfl : f.schema = schema := hkeeps
        exact ⟨_, f.read_none, projected_none f.conforms⟩
    | some p =>
        obtain ⟨hlt, hschema⟩ := hkeeps
        obtain ⟨fields, hfields⟩ := select_of_lt hlt
        obtain ⟨projected, hsel, hread⟩ := read_some hfields
        have hown := projected_of_selects hfields f.conforms hsel
        refine ⟨_, hread, ?_, ?_, hown.rows⟩
        · refine projectSchema_some.mpr ?_
          rw [hschema]
          show _ = some (if f.batches = [] then f.schema else fields)
          split_ifs
          · rfl
          · exact hfields
        · intro batches heq b hb
          show b.schema = if f.batches = [] then f.schema else fields
          split_ifs with hnil
          · rw [hnil] at hsel
            cases hsel
            cases heq
            cases hb
          · exact hown.conforms batches heq b hb

/-- A cached table returns the plan of what it serves. -/
lemma CachedTable.scanPlan_of_served {t : CachedTable Val} {f : ParquetFile Val}
    (h : t.served = some f) : t.scanPlan = f.read := by
  funext projection
  have hmiss : ∀ batches (hbatches : t.fetched = .ok batches),
      t.miss projection = projectedExec t.schema batches projection := by
    intro batches hbatches
    unfold miss
    rw [hbatches]
    rfl
  unfold served at h
  unfold scanPlan
  split at h
  · cases h
    rcases f.read_ok_or_panic projection with ⟨plan, hread⟩ | hread
    · simp only [hread]
    · simp only [hread]
  · split at h
    · rename_i batches hbatches
      cases h
      exact hmiss batches hbatches
    · cases h

lemma CachedTable.scanPlan_of_none {t : CachedTable Val} (h : t.served = none) :
    ∃ e, ∀ projection, t.scanPlan projection = .error e := by
  unfold served at h
  split at h
  · cases h
  · rename_i hfresh
    split at h
    · cases h
    · rename_i e he
      refine ⟨e, fun projection => ?_⟩
      unfold scanPlan
      split
      · rename_i f' hf'
        exact absurd hf' (hfresh f')
      · exact Fallible.bind_eq_error he

end

/-! ## All tables -/

/-- A scan of one of the tables, with what its source answers. -/
inductive TableScan (F : Type) : {τ : Type} → (τ → Type) → Type 1
  | typedHttp {U : Type} (fmt : Formats F) (client : Client U) (spec : HttpTableSpec)
      (columns : List ResponseColumn) (maxPages maxRows limit : Option ℕ)
      (send : Params → ℕ → Request U → Except DataFusionError Response) (filters : List Expr)
      (nowEpoch : ℤ) (allowDefer : Bool) : TableScan F (ArrowType.Value F)
  | rawHttp (name : String)
      (send : String → String → Option String → Except DataFusionError Raw.Response)
      (filters : List Expr) : TableScan F (ArrowType.Value F)
  | mcpTool (fmt : Formats F) (spec : Mcp.McpTableSpec)
      (fetch : OrderedMap String Json → Option ℕ → Except DataFusionError (List Json))
      (bound : OrderedMap String Json) (limit : Option ℕ) : TableScan F (ArrowType.Value F)
  | functionCall {τ : Type} [DecidableEq τ] {Val : τ → Type} (t : FunctionCallTable Val)
      (limit : Option ℕ) : TableScan F Val
  | cached {τ : Type} [DecidableEq τ] {Val : τ → Type} (t : CachedTable Val) : TableScan F Val

namespace TableScan

variable {F τ : Type} {Val : τ → Type}

/-- The schema of the table. -/
def schema : {τ : Type} → {Val : τ → Type} → TableScan F Val → List (RecordBatch.Field τ)
  | _, _, typedHttp _ _ spec columns _ _ _ _ _ _ _ => schemaFor columns spec.params
  | _, _, rawHttp _ _ _ => Raw.schema
  | _, _, mcpTool _ spec _ _ _ => spec.buildSchema
  | _, _, functionCall t _ => t.schema
  | _, _, cached t => t.schema

/-- The plan that the scan returns under a projection. -/
def scan : {τ : Type} → {Val : τ → Type} → TableScan F Val → Option (List ℕ) →
    Except (ScanError τ) (ScanPlan Val)
  | _, _, typedHttp fmt client spec columns maxPages maxRows limit send filters nowEpoch allowDefer =>
      client.scanPlan fmt spec columns maxPages maxRows limit send filters nowEpoch allowDefer
  | _, _, rawHttp name send filters => Raw.scanPlan name send filters
  | _, _, mcpTool fmt spec fetch bound limit => spec.scanPlan fmt fetch bound limit
  | _, _, functionCall t limit => t.scanPlan limit
  | _, _, cached t => t.scanPlan

/-- The raw table needs a column to be selected; the batches that a cached table serves must keep
the projected schema. -/
def Keeps : {τ : Type} → {Val : τ → Type} → TableScan F Val → Option (List ℕ) → Prop
  | _, _, rawHttp _ _ _, projection => projection ≠ some []
  | _, _, cached t, projection => ∀ f ∈ t.served, f.Keeps t.schema projection
  | _, _, _, _ => True

/-- A scan under a projection returns the plan of the scan without one, projected, exactly when that
fails or the table keeps the projection. -/
theorem lawfulAt_iff (t : TableScan F Val)
    (projection : { projection : Option (List ℕ) // InRange t.schema projection }) :
    LawfulAt t.schema t.scan projection ↔
      ((∃ full, t.scan none = .ok full) → t.Keeps projection) := by
  obtain ⟨projection, hrange⟩ := projection
  cases t with
  | typedHttp => exact iff_of_true (Client.scanPlan_lawful hrange) fun _ => trivial
  | rawHttp => exact Raw.scanPlan_lawful_iff hrange
  | mcpTool => exact iff_of_true (Mcp.scanPlan_lawful hrange) fun _ => trivial
  | functionCall => exact iff_of_true (FunctionCallTable.scanPlan_lawful hrange) fun _ => trivial
  | cached t =>
      show LawfulAt t.schema t.scanPlan projection ↔
        ((∃ full, t.scanPlan none = .ok full) → ∀ f ∈ t.served, f.Keeps t.schema projection)
      cases hserved : t.served with
      | none =>
          obtain ⟨e, he⟩ := CachedTable.scanPlan_of_none hserved
          refine iff_of_true ⟨?_, fun _ _ => ⟨e, he projection⟩⟩ (fun _ f hf => (by cases hf))
          intro full hfull
          rw [he] at hfull
          cases hfull
      | some f =>
          rw [CachedTable.scanPlan_of_served hserved, ParquetFile.read_lawful_iff]
          constructor
          · rintro hkeeps _ f' hf'
            cases hf'
            exact hkeeps
          · intro hkeeps
            exact hkeeps ⟨_, f.read_none⟩ f rfl

/-- `COUNT(*)` of a raw table, and one column of a cached table whose file has no rows, and so no
batch: the first fails, the second returns the schema of all columns. -/
theorem lawfulAt_fails :
    let raw : TableScan Unit (ArrowType.Value Unit) :=
      .rawHttp "api" (fun _ _ _ => .ok ⟨200, "ok"⟩)
        [.binary (.column "request_path") .eq (.literal (.utf8 "/users"))]
    let fields : List (RecordBatch.Field ArrowType) := [⟨"id", .int64⟩, ⟨"name", .utf8⟩]
    let empty : TableScan Unit (ArrowType.Value Unit) :=
      .cached
        { schema := fields
          fresh := some (some ⟨fields, [], fun _ h => (by cases h)⟩)
          fetched := .ok []
          conforms := fun batches h b hb => (by cases h; cases hb) }
    (InRange raw.schema (some []) ∧ ¬ LawfulAt raw.schema raw.scan (some [])) ∧
      InRange empty.schema (some [0]) ∧ ¬ LawfulAt empty.schema empty.scan (some [0]) := by
  intro raw fields empty
  refine ⟨⟨?_, ?_⟩, ?_, ?_⟩
  · intro p hp
    cases hp
    exact List.forall_mem_nil _
  · intro hlaw
    have hok : (raw.scan none).isOk = true := by decide
    cases hfull : raw.scan none with
    | error e =>
        rw [hfull] at hok
        cases hok
    | ok full =>
        obtain ⟨plan, hplan, _⟩ := hlaw.plan full hfull
        exact Raw.scanPlan_nil plan hplan
  · intro p hp
    cases hp
    show ∀ i ∈ [0], i < 2
    decide
  · intro hlaw
    obtain ⟨plan, hplan, hprojected⟩ := hlaw.plan ⟨fields, .ok []⟩ rfl
    cases hplan
    have hschema := hprojected.schema
    have hne : (Except.ok [⟨"id", .int64⟩] : Except (ScanError ArrowType) _) ≠ .ok fields := by
      decide
    exact hne hschema

end TableScan

end Pawrly
