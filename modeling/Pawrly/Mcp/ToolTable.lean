import Pawrly.Http.ScanPlans

/-!
# Tables of MCP tools

`McpToolTableProvider`: the schema of a table is its arguments, which are echoed, and the columns of
the output; an argument that a column has the name of is shadowed.  `scanPlan` builds a batch of the rows
that the tool returns, and projects it.
-/

namespace Pawrly
namespace Mcp

open RecordBatch
open Http (Json Formats ArrowType ArrowArray ScanError ScanPlan orPanic memoryExec)

/-- An argument of a tool. -/
structure Arg where
  name : String
  type : String
  required : Bool := false
  toolArg : Option String := none

/-- `wire_name`: the name that the tool knows the argument by. -/
def Arg.wireName (a : Arg) : String := a.toolArg.getD a.name

/-- A column of the output, at a path in the row. -/
structure Column where
  name : String
  type : String
  path : List String

/-- The argument that the limit of a query is sent as. -/
structure LimitBinding where
  toolArg : String
  max : Option ℕ := none

/-- The argument that a cursor is sent as, and where a result has the next one. -/
structure Pagination where
  cursorArg : String
  responseCursorPath : List String

/-- A table of a tool. -/
structure McpTableSpec where
  name : String := ""
  tool : String := ""
  args : List Arg
  columns : List Column
  toolArgs : OrderedMap String Json := .empty
  limitBinding : Option LimitBinding := none
  pagination : Option Pagination := none
  rowsPath : List String := []

/-- `arg_is_shadowed`. -/
def McpTableSpec.argIsShadowed (spec : McpTableSpec) (arg : String) : Bool :=
  spec.columns.any fun c => c.name = arg

/-- The arguments that are columns of their own. -/
def McpTableSpec.echoed (spec : McpTableSpec) : List Arg :=
  spec.args.filter fun a => !spec.argIsShadowed a.name

/-- `arrow_type`. -/
def arrowType (t : String) : ArrowType :=
  match t.toLower with
  | "bool" | "boolean" => .boolean
  | "int" | "int32" | "bigint" | "int64" | "long" => .int64
  | "float" | "float32" | "double" | "float64" => .float64
  | _ => .utf8

/-- `build_schema`. -/
def McpTableSpec.buildSchema (spec : McpTableSpec) : List (RecordBatch.Field ArrowType) :=
  spec.echoed.map (fun a => ⟨a.name, arrowType a.type⟩) ++
    spec.columns.map fun c => ⟨c.name, arrowType c.type⟩

section

variable {F : Type} (fmt : Formats F)

def int64Cell : Json → Http.Cell F .int64
  | .num text => (Text.parseSigned 64 text).bind (Http.toSigned 64)
  | .str s => (Text.parseSigned 64 s).bind (Http.toSigned 64)
  | _ => none

def float64Cell : Json → Http.Cell F .float64
  | .num text => fmt.asF64 text
  | .str s => fmt.parseF64 s
  | _ => none

def utf8Cell : Json → Http.Cell F .utf8
  | .null => none
  | .str s => some s
  | other => some other.print

/-- `column_array`. -/
def columnArray (type : ArrowType) (values : List Json) : ArrowArray F :=
  match type with
  | .int64 => ⟨.int64, values.map int64Cell⟩
  | .float64 => ⟨.float64, values.map (float64Cell fmt)⟩
  | .boolean => ⟨.boolean, values.map Json.asBool?⟩
  | _ => ⟨.utf8, values.map utf8Cell⟩

/-- The array of the values of a column, whose type is that of the field with its name. -/
def namedArray (schema : List (RecordBatch.Field ArrowType)) (name : String) (values : List Json) :
    Except (ScanError ArrowType) (ArrowArray F) :=
  match Http.fieldWithName schema name with
  | some f => .ok (columnArray fmt f.type values)
  | none => .error (.noField name)

/-- `build_batch`.  An argument that is not bound is null. -/
def McpTableSpec.buildBatch (spec : McpTableSpec) (bound : OrderedMap String Json)
    (rows : List Json) : Except (ScanError ArrowType) (Batch (ArrowType.Value F)) := do
  let echoed ← spec.echoed.mapM fun a =>
    namedArray fmt spec.buildSchema a.name
      (List.replicate rows.length ((bound.get? a.name).getD .null))
  let columns ← spec.columns.mapM fun c =>
    namedArray fmt spec.buildSchema c.name (rows.map fun row => (Http.walk c.path row).getD .null)
  if (echoed ++ columns).any fun array => Http.maxTextBytes < Http.textBytes array then .error .panic
  else (tryNew spec.buildSchema (echoed ++ columns) none).mapError .arrow

/-- `project`: the number of rows is carried over, since no column may be left to infer it from. -/
def project (schema : List (RecordBatch.Field ArrowType)) (batch : Batch (ArrowType.Value F)) :
    Option (List ℕ) →
      Except (ScanError ArrowType) (List (RecordBatch.Field ArrowType) × Batch (ArrowType.Value F))
  | none => .ok (schema, batch)
  | some indices => do
      let projectedSchema ← orPanic (select schema indices)
      let columns ← orPanic (select batch.columns indices)
      let projected ← (tryNew projectedSchema columns (some batch.numRows)).mapError .arrow
      .ok (projectedSchema, projected)

/-- The batch of the rows that the tool returns.  `fetch` calls the tool. -/
def McpTableSpec.load (spec : McpTableSpec)
    (fetch : OrderedMap String Json → Option ℕ → Except Http.DataFusionError (List Json))
    (bound : OrderedMap String Json) (limit : Option ℕ) :
    Except (ScanError ArrowType) (Batch (ArrowType.Value F)) := do
  let rows ← (fetch bound limit).mapError .source
  spec.buildBatch fmt bound rows

/-- `scan`, with the arguments that the filters bind. -/
def McpTableSpec.scanPlan (spec : McpTableSpec)
    (fetch : OrderedMap String Json → Option ℕ → Except Http.DataFusionError (List Json))
    (bound : OrderedMap String Json) (limit : Option ℕ) (projection : Option (List ℕ)) :
    Except (ScanError ArrowType) (ScanPlan (ArrowType.Value F)) := do
  let full ← spec.load fmt fetch bound limit
  let projected ← project spec.buildSchema full projection
  .ok (memoryExec [projected.2] projected.1)

section Law

variable {fmt}
variable {spec : McpTableSpec}
  {fetch : OrderedMap String Json → Option ℕ → Except Http.DataFusionError (List Json)}
  {bound : OrderedMap String Json} {limit : Option ℕ} {projection : Option (List ℕ)}

lemma buildBatch_schema {rows : List Json} {full : Batch (ArrowType.Value F)}
    (h : spec.buildBatch fmt bound rows = .ok full) : full.schema = spec.buildSchema := by
  obtain ⟨echoed, _, h⟩ := Fallible.bind_eq_ok.mp h
  obtain ⟨columns, _, h⟩ := Fallible.bind_eq_ok.mp h
  obtain ⟨_, hnew⟩ := Fallible.ite_error_eq_ok.mp h
  exact (tryNew_eq_ok.mp (Fallible.mapError_eq_ok.mp hnew)).1

lemma project_selects {schema fields : List (RecordBatch.Field ArrowType)}
    {full : Batch (ArrowType.Value F)}
    {p : List ℕ} (hschema : full.schema = schema) (hfields : select schema p = some fields) :
    ∃ projected, project schema full (some p) = .ok (fields, projected) ∧
      Selects p full projected := by
  subst hschema
  obtain ⟨columns, hcolumns⟩ := Http.exists_columns hfields
  obtain ⟨projected, hnew, hsel⟩ := tryNew_of_select hfields hcolumns (.inl rfl)
  refine ⟨projected, ?_, hsel⟩
  refine Fallible.bind_eq_ok.mpr ⟨fields, Http.orPanic_eq_ok.mpr hfields, ?_⟩
  refine Fallible.bind_eq_ok.mpr ⟨columns, Http.orPanic_eq_ok.mpr hcolumns, ?_⟩
  exact Fallible.bind_eq_ok.mpr ⟨projected, Fallible.mapError_eq_ok.mpr hnew, rfl⟩

/-- The table of a tool projects the plan of all columns. -/
lemma scanPlan_lawful (hrange : Http.InRange spec.buildSchema projection) :
    Http.LawfulAt spec.buildSchema (spec.scanPlan fmt fetch bound limit) projection := by
  have hload : ∀ full, spec.load fmt fetch bound limit = .ok full →
      full.schema = spec.buildSchema := by
    intro full hfull
    obtain ⟨rows, _, hbatch⟩ := Fallible.bind_eq_ok.mp hfull
    exact buildBatch_schema hbatch
  refine Http.lawfulAt_of_batch (spec.load fmt fetch bound limit) hrange hload
    (fun e projection => Fallible.bind_eq_error)
    (fun full hfull => Fallible.bind_eq_ok.mpr ⟨full, hfull, rfl⟩) ?_
  intro full p fields hfull hfields _
  obtain ⟨projected, hproject, hsel⟩ := project_selects (hload full hfull) hfields
  refine ⟨projected, ?_, hsel⟩
  refine Fallible.bind_eq_ok.mpr ⟨full, hfull, ?_⟩
  exact Fallible.bind_eq_ok.mpr ⟨(fields, projected), hproject, rfl⟩

end Law

end

end Mcp
end Pawrly
