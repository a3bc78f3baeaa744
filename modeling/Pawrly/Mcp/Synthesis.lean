import Pawrly.Mcp.ToolTable
import Pawrly.Http.OpenApiNames

/-!
# Tables of the tools of a server

`synthesize_tools`: each admitted tool becomes a table, named after it, with the properties of its
input as arguments and those of its output as columns.  `addressable_iff` says when the tables can be
told apart and build a batch of any result.
-/

namespace Pawrly
namespace Mcp

open RecordBatch
open Http (Json Formats ArrowType ArrowArray ScanError)
open Http.OpenApi (asObject? deref isArraySchema isObject rowsArray columnType paramType itemSchema
  Diagnostic ordered_get? ordered_asObject? ordered_deref ordered_itemSchema ordered_rowsArray)

/-- A tool that a server advertises. -/
structure Tool where
  name : String
  inputSchema : Json
  outputSchema : Option Json := none
  readOnly : Option Bool := none
  destructive : Option Bool := none

/-- How much introspection exposes. -/
inductive Expose
  | readOnly
  | all
  | listed
  deriving DecidableEq

structure SynthOptions where
  expose : Expose := .readOnly
  included : List String := []
  excluded : List String := []

/-! ## Columns -/

/-- `result_column`: the whole row. -/
def resultColumn : Column := ⟨"result", "json", []⟩

/-- `columns_of`: the properties of a row. -/
def columnsOf (doc item : Json) : List Column :=
  match (item.get? "properties").bind asObject? with
  | none => [resultColumn]
  | some props =>
      (props.map fun e => (⟨e.1, columnType (deref doc e.2), [e.1]⟩ : Column)).mergeSort
        fun a b => decide (a.name ≤ b.name)

/-- `output_columns`: where the rows of a result are, and their columns. -/
def outputColumns (outputSchema : Json) : List String × List Column :=
  let schema := deref outputSchema outputSchema
  if isArraySchema schema then
    ([], columnsOf outputSchema (itemSchema outputSchema schema))
  else if isObject schema then
    match (schema.get? "properties").bind asObject? with
    | some props =>
        match rowsArray outputSchema props with
        | some (prop, array) => ([prop], columnsOf outputSchema (itemSchema outputSchema array))
        | none => ([], columnsOf outputSchema schema)
    | none => ([], [resultColumn])
  else ([], [resultColumn])

/-! ## Arguments -/

/-- `tool_args`: the properties of the input. -/
def toolArgs (inputSchema : Json) : List Arg :=
  match (inputSchema.get? "properties").bind asObject? with
  | none => []
  | some props =>
      let required := (((inputSchema.get? "required").bind Json.asArray?).getD []).filterMap
        Json.asStr?
      (props.map fun e =>
        ({ name := e.1, type := paramType e.2, required := required.contains e.1 } : Arg)).mergeSort
          fun a b => decide (a.name ≤ b.name)

/-- `infer_limit_binding`. -/
def inferLimitBinding (args : List Arg) : Option LimitBinding :=
  (["limit", "first", "page_size", "pageSize", "maxResults"].find? fun n =>
    args.any fun a => a.name = n).map fun name => { toolArg := name }

/-- `infer_pagination`. -/
def inferPagination (args : List Arg) : Option Pagination :=
  (["cursor", "after", "startCursor", "page_token"].find? fun n =>
    args.any fun a => a.name = n).map fun name =>
      { cursorArg := name, responseCursorPath := ["nextCursor"] }

/-! ## Tables -/

/-- The characters of a name, with a lower line in place of each run of others. -/
def sanitizeChars : List Char → List Char → List Char
  | [], out => out.reverse
  | c :: cs, out =>
      if c.isAlphanum then sanitizeChars cs (c.toLower :: out)
      else if out.head? = some '_' then sanitizeChars cs out
      else sanitizeChars cs ('_' :: out)

/-- `sanitize`. -/
def sanitize (name : String) : String :=
  let trimmed := Text.trimBoth (· = '_') (sanitizeChars name.toList [])
  if trimmed = [] then "tool" else String.ofList trimmed

/-- `admit`. -/
def admitTool (tool : Tool) (expose : Expose) : Bool :=
  if tool.destructive = some true then false
  else
    match expose with
    | .readOnly => tool.readOnly = some true
    | .all => true
    | .listed => false

/-- The tool is neither excluded nor left out of the list of the included ones. -/
def SynthOptions.considers (opts : SynthOptions) (tool : Tool) : Bool :=
  !opts.excluded.contains tool.name &&
    (opts.included.isEmpty || opts.included.contains tool.name)

/-- The tool becomes a table. -/
def SynthOptions.admits (opts : SynthOptions) (tool : Tool) : Bool :=
  opts.considers tool && admitTool tool opts.expose

/-- `table_from_tool`. -/
def tableFromTool (tool : Tool) : McpTableSpec :=
  let args := toolArgs tool.inputSchema
  let output := match tool.outputSchema with
    | some schema => outputColumns schema
    | none => ([], [resultColumn])
  { name := sanitize tool.name
    tool := tool.name
    args := args
    columns := output.2
    limitBinding := inferLimitBinding args
    pagination := inferPagination args
    rowsPath := output.1 }

/-- What synthesis makes of the tools of a server. -/
structure Synthesis where
  tables : List McpTableSpec
  diagnostics : List Diagnostic

def heldBack (tool : Tool) : Diagnostic :=
  ⟨"MCP_TOOL_HELD_BACK",
    "tool `" ++ tool.name ++
      "` is not read-only; set `expose: all` or list it under `include`", some tool.name⟩

/-- `synthesize_tools`. -/
def synthesizeTools (tools : List Tool) (opts : SynthOptions) : Synthesis where
  tables := ((tools.filter opts.admits).map tableFromTool).mergeSort
    fun a b => decide (a.name ≤ b.name)
  diagnostics := (tools.filter fun tool =>
    opts.considers tool && !admitTool tool opts.expose).map heldBack

/-! ## Names -/

lemma mem_synthesizeTools {tools : List Tool} {opts : SynthOptions} {t : McpTableSpec} :
    t ∈ (synthesizeTools tools opts).tables ↔
      ∃ tool ∈ tools, opts.admits tool = true ∧ tableFromTool tool = t := by
  rw [synthesizeTools, (List.mergeSort_perm _ _).mem_iff]
  simp only [List.mem_map, List.mem_filter, and_assoc]

lemma tables_nodup_iff (tools : List Tool) (opts : SynthOptions) :
    ((synthesizeTools tools opts).tables.map McpTableSpec.name).Nodup ↔
      ((tools.filter opts.admits).map fun tool => sanitize tool.name).Nodup := by
  rw [synthesizeTools, ((List.mergeSort_perm _ _).map McpTableSpec.name).nodup_iff, List.map_map]
  rfl

lemma nodup_of_ordered {fields : List (String × Json)} (h : (Json.obj fields).Ordered) :
    (fields.map Prod.fst).Nodup := by
  rw [List.Nodup, List.pairwise_map]
  exact h.1.imp fun hlt => ne_of_lt hlt

lemma ordered_properties {schema : Json} {props : List (String × Json)} (h : schema.Ordered)
    (hprops : (schema.get? "properties").bind asObject? = some props) :
    (Json.obj props).Ordered := by
  obtain ⟨v, hv, hobj⟩ := Option.bind_eq_some_iff.mp hprops
  exact ordered_asObject? (ordered_get? h hv) hobj

lemma columnsOf_nodup {doc item : Json} (h : item.Ordered) :
    ((columnsOf doc item).map Column.name).Nodup := by
  unfold columnsOf
  split
  · exact List.nodup_singleton _
  · rename_i props hprops
    rw [((List.mergeSort_perm _ _).map Column.name).nodup_iff, List.map_map]
    exact nodup_of_ordered (ordered_properties h hprops)

lemma outputColumns_nodup {schema : Json} (h : schema.Ordered) :
    ((outputColumns schema).2.map Column.name).Nodup := by
  have hderef := ordered_deref h h
  unfold outputColumns
  dsimp only
  split_ifs
  · exact columnsOf_nodup (ordered_itemSchema h hderef)
  · split
    · rename_i props hprops
      have hordered := ordered_properties hderef hprops
      split
      · rename_i prop array hrows
        exact columnsOf_nodup (ordered_itemSchema h (ordered_rowsArray h hordered.2 hrows))
      · exact columnsOf_nodup hderef
    · exact List.nodup_singleton _
  · exact List.nodup_singleton _

lemma toolArgs_nodup {schema : Json} (h : schema.Ordered) :
    ((toolArgs schema).map Arg.name).Nodup := by
  unfold toolArgs
  split
  · exact List.nodup_nil
  · rename_i props hprops
    dsimp only
    rw [((List.mergeSort_perm _ _).map Arg.name).nodup_iff, List.map_map]
    exact nodup_of_ordered (ordered_properties h hprops)

/-- The schemas of the tool are JSON objects, whose names differ. -/
structure Tool.Ordered (tool : Tool) : Prop where
  input : tool.inputSchema.Ordered
  output : ∀ schema, tool.outputSchema = some schema → schema.Ordered

lemma tableFromTool_columns_nodup {tool : Tool} (h : tool.Ordered) :
    ((tableFromTool tool).columns.map Column.name).Nodup := by
  unfold tableFromTool
  dsimp only
  cases hschema : tool.outputSchema with
  | none => exact List.nodup_singleton _
  | some schema => exact outputColumns_nodup (h.output schema hschema)

/-- The fields of a table differ: the arguments, the columns, and the ones from the others, since a
shadowed argument is not a field. -/
lemma buildSchema_nodup {spec : McpTableSpec} (hargs : (spec.args.map Arg.name).Nodup)
    (hcolumns : (spec.columns.map Column.name).Nodup) :
    (spec.buildSchema.map RecordBatch.Field.name).Nodup := by
  rw [McpTableSpec.buildSchema, List.map_append, List.map_map, List.map_map]
  refine List.nodup_append.mpr ⟨?_, hcolumns, ?_⟩
  · exact hargs.sublist (List.filter_sublist.map Arg.name)
  · rintro name hname _ hcolumn rfl
    obtain ⟨a, ha, rfl⟩ := List.mem_map.mp hname
    obtain ⟨c, hc, hname⟩ := List.mem_map.mp hcolumn
    have hecho := (List.mem_filter.mp ha).2
    rw [Bool.not_eq_true', McpTableSpec.argIsShadowed, List.any_eq_false] at hecho
    exact hecho c hc (decide_eq_true hname)

/-! ## Batches -/

section

variable {F : Type} (fmt : Formats F)

/-- The array of a column of the output. -/
def outputArray (rows : List Json) (c : Column) : ArrowArray F :=
  columnArray fmt (arrowType c.type) (rows.map fun row => (Http.walk c.path row).getD .null)

/-- The array of an argument. -/
def echoArray (bound : OrderedMap String Json) (n : ℕ) (a : Arg) : ArrowArray F :=
  columnArray fmt (arrowType a.type) (List.replicate n ((bound.get? a.name).getD .null))

/-- The arrays of a batch. -/
def McpTableSpec.arrays (spec : McpTableSpec) (bound : OrderedMap String Json)
    (rows : List Json) : List (ArrowArray F) :=
  spec.echoed.map (echoArray fmt bound rows.length) ++ spec.columns.map (outputArray fmt rows)

variable {fmt}

lemma fieldWithName_of_mem {fields : List (RecordBatch.Field ArrowType)}
    (hnodup : (fields.map RecordBatch.Field.name).Nodup) {f : RecordBatch.Field ArrowType}
    (hf : f ∈ fields) : Http.fieldWithName fields f.name = some f := by
  unfold Http.fieldWithName
  induction fields with
  | nil => cases hf
  | cons g fields ih =>
      obtain ⟨hg, hnodup⟩ := List.nodup_cons.mp hnodup
      rcases List.mem_cons.mp hf with rfl | hf
      · simp
      · rw [List.find?_cons_of_neg, ih hnodup hf]
        rw [decide_eq_true_eq]
        exact fun heq => hg (List.mem_map.mpr ⟨f, hf, heq.symm⟩)

lemma mapM_eq_ok {α β ε : Type} {f : α → Except ε β} {g : α → β} {l : List α}
    (h : ∀ a ∈ l, f a = .ok (g a)) : l.mapM f = .ok (l.map g) := by
  rw [Fallible.mapM_eq_ok_iff, List.forall₂_map_right_iff]
  exact List.forall₂_same.mpr h

/-- With different names each array has the type of its own field. -/
lemma namedArray_of_mem {spec : McpTableSpec}
    (hnodup : (spec.buildSchema.map RecordBatch.Field.name).Nodup)
    {name t : String} (hmem : (⟨name, arrowType t⟩ : RecordBatch.Field ArrowType) ∈
      spec.buildSchema)
    (values : List Json) :
    namedArray fmt spec.buildSchema name values = .ok (columnArray fmt (arrowType t) values) := by
  have hfield := fieldWithName_of_mem hnodup hmem
  dsimp only at hfield
  rw [namedArray, hfield]

lemma namedArray_column {spec : McpTableSpec}
    (hnodup : (spec.buildSchema.map RecordBatch.Field.name).Nodup)
    {c : Column} (hc : c ∈ spec.columns) (values : List Json) :
    namedArray fmt spec.buildSchema c.name values =
      .ok (columnArray fmt (arrowType c.type) values) :=
  namedArray_of_mem hnodup (List.mem_append_right _ (List.mem_map.mpr ⟨c, hc, rfl⟩)) values

lemma buildBatch_eq {spec : McpTableSpec}
    (hnodup : (spec.buildSchema.map RecordBatch.Field.name).Nodup)
    (bound : OrderedMap String Json) (rows : List Json) :
    spec.buildBatch fmt bound rows =
      if (spec.arrays fmt bound rows).any fun array => Http.maxTextBytes < Http.textBytes array then
        .error .panic
      else (tryNew spec.buildSchema (spec.arrays fmt bound rows) none).mapError .arrow := by
  have hecho : ∀ a ∈ spec.echoed, namedArray fmt spec.buildSchema a.name
      (List.replicate rows.length ((bound.get? a.name).getD .null)) =
        .ok (echoArray fmt bound rows.length a) := fun a ha =>
    namedArray_of_mem hnodup (List.mem_append_left _ (List.mem_map.mpr ⟨a, ha, rfl⟩)) _
  have houtput : ∀ c ∈ spec.columns, namedArray fmt spec.buildSchema c.name
      (rows.map fun row => (Http.walk c.path row).getD .null) = .ok (outputArray fmt rows c) :=
    fun c hc => namedArray_column hnodup hc _
  simp only [McpTableSpec.buildBatch, mapM_eq_ok hecho, mapM_eq_ok houtput]
  rfl

lemma arrowType_cases (t : String) :
    arrowType t = .boolean ∨ arrowType t = .int64 ∨ arrowType t = .float64 ∨ arrowType t = .utf8 := by
  unfold arrowType
  split <;> simp

lemma columnArray_type (t : String) (values : List Json) :
    (columnArray fmt (arrowType t) values).type = arrowType t := by
  rcases arrowType_cases t with h | h | h | h <;> rw [h] <;> rfl

lemma columnArray_length (t : ArrowType) (values : List Json) :
    (columnArray fmt t values).cells.length = values.length := by
  cases t <;> exact List.length_map _

/-- The printed values fit into the array of a column of the type. -/
def FitsText (F : Type) (t : String) (values : List Json) : Prop :=
  arrowType t = .utf8 →
    (values.map fun v => Http.textSize (utf8Cell (F := F) v)).sum ≤ Http.maxTextBytes

lemma fitsText_iff (t : String) (values : List Json) :
    Http.textBytes (columnArray fmt (arrowType t) values) ≤ Http.maxTextBytes ↔
      FitsText F t values := by
  have hzero : ∀ array : ArrowArray F, array.type ≠ .utf8 →
      Http.textBytes array ≤ Http.maxTextBytes :=
    fun array h => (Http.textBytes_of_ne h).trans_le (Nat.zero_le _)
  unfold FitsText
  rcases arrowType_cases t with h | h | h | h <;> rw [h]
  · simp [hzero, columnArray]
  · simp [hzero, columnArray]
  · simp [hzero, columnArray]
  · simp [columnArray, Http.textBytes_map]

/-- The values of the fields of a table fit. -/
structure McpTableSpec.FitsTexts (F : Type) (spec : McpTableSpec) (bound : OrderedMap String Json)
    (rows : List Json) : Prop where
  args : ∀ a ∈ spec.echoed, FitsText F a.type
    (List.replicate rows.length ((bound.get? a.name).getD .null))
  columns : ∀ c ∈ spec.columns, FitsText F c.type
    (rows.map fun row => (Http.walk c.path row).getD .null)

lemma fitsTexts_iff (spec : McpTableSpec) (bound : OrderedMap String Json) (rows : List Json) :
    (∀ array ∈ spec.arrays fmt bound rows, Http.textBytes array ≤ Http.maxTextBytes) ↔
      spec.FitsTexts F bound rows := by
  rw [McpTableSpec.arrays, List.forall_mem_append, List.forall_mem_map, List.forall_mem_map]
  constructor
  · rintro ⟨hargs, hcolumns⟩
    exact ⟨fun a ha => (fitsText_iff a.type _).mp (hargs a ha),
      fun c hc => (fitsText_iff c.type _).mp (hcolumns c hc)⟩
  · rintro ⟨hargs, hcolumns⟩
    exact ⟨fun a ha => (fitsText_iff a.type _).mpr (hargs a ha),
      fun c hc => (fitsText_iff c.type _).mpr (hcolumns c hc)⟩

/-- A batch is built when the table has a field and its texts fit into the arrays. -/
lemma buildBatch_isOk_iff {spec : McpTableSpec}
    (hnodup : (spec.buildSchema.map RecordBatch.Field.name).Nodup)
    (bound : OrderedMap String Json) (rows : List Json) :
    (∃ batch, spec.buildBatch fmt bound rows = .ok batch) ↔
      spec.buildSchema ≠ [] ∧ spec.FitsTexts F bound rows := by
  rw [← @fitsTexts_iff F fmt]
  have hlength : ∀ array ∈ spec.arrays fmt bound rows, array.cells.length = rows.length := by
    intro array harray
    rcases List.mem_append.mp harray with h | h
    · obtain ⟨a, -, rfl⟩ := List.mem_map.mp h
      rw [echoArray, columnArray_length, List.length_replicate]
    · obtain ⟨c, -, rfl⟩ := List.mem_map.mp h
      rw [outputArray, columnArray_length, List.length_map]
  have htypes : (spec.arrays fmt bound rows).map RecordBatch.Column.type =
      spec.buildSchema.map RecordBatch.Field.type := by
    rw [McpTableSpec.arrays, McpTableSpec.buildSchema]
    simp only [List.map_append, List.map_map]
    congr 1
    · exact List.map_congr_left fun a _ => columnArray_type a.type _
    · exact List.map_congr_left fun c _ => columnArray_type c.type _
  have hnil : spec.arrays fmt bound rows = [] ↔ spec.buildSchema = [] := by
    rw [← List.map_eq_nil_iff (f := RecordBatch.Column.type), htypes, List.map_eq_nil_iff]
  rw [buildBatch_eq hnodup]
  by_cases hfits : ∀ array ∈ spec.arrays fmt bound rows, Http.textBytes array ≤ Http.maxTextBytes
  · have hany : ((spec.arrays fmt bound rows).any fun array =>
        Http.maxTextBytes < Http.textBytes array) = false := by
      rw [List.any_eq_false]
      intro array harray
      rw [decide_eq_true_eq]
      exact Nat.not_lt_of_le (hfits array harray)
    have hnew := @tryNew_isOk_iff _ _ _ spec.buildSchema _ _ hlength
    rw [hany]
    simp only [Bool.false_eq_true, if_false, Fallible.mapError_eq_ok]
    rw [hnew, Ne, hnil]
    exact ⟨fun h => ⟨h.1, hfits⟩, fun h => ⟨h.1, htypes⟩⟩
  · have hany : ((spec.arrays fmt bound rows).any fun array =>
        Http.maxTextBytes < Http.textBytes array) = true := by
      push Not at hfits
      obtain ⟨array, harray, hlt⟩ := hfits
      exact List.any_eq_true.mpr ⟨array, harray, decide_eq_true hlt⟩
    rw [hany]
    refine ⟨?_, fun h => absurd h.2 hfits⟩
    rintro ⟨batch, hbatch⟩
    cases hbatch

/-! ## Addressable tables -/

/-- The schema of a row of an output, if the output has one. -/
def rowSchema (outputSchema : Json) : Option Json :=
  let schema := deref outputSchema outputSchema
  if isArraySchema schema then some (itemSchema outputSchema schema)
  else if isObject schema then
    ((schema.get? "properties").bind asObject?).map fun props =>
      match rowsArray outputSchema props with
      | some e => itemSchema outputSchema e.2
      | none => schema
  else none

/-- The schema describes an object without properties. -/
def NoProperties (schema : Json) : Prop := (schema.get? "properties").bind asObject? = some []

/-- Neither the input nor a row of the output has a property. -/
structure Tool.Blank (tool : Tool) : Prop where
  input : ((tool.inputSchema.get? "properties").bind asObject?).getD [] = []
  output : ∃ schema, tool.outputSchema = some schema ∧ ∃ row, rowSchema schema = some row ∧ NoProperties row

lemma outputColumns_snd (schema : Json) :
    (outputColumns schema).2 =
      match rowSchema schema with
      | some row => columnsOf schema row
      | none => [resultColumn] := by
  unfold outputColumns rowSchema
  dsimp only
  split_ifs
  · rfl
  · cases ((deref schema schema).get? "properties").bind asObject? with
    | none => rfl
    | some props =>
        dsimp only [Option.map_some]
        cases rowsArray schema props <;> rfl
  · rfl

lemma mergeSort_eq_nil {α : Type} {le : α → α → Bool} {l : List α} :
    l.mergeSort le = [] ↔ l = [] := by
  rw [← List.length_eq_zero_iff, List.length_mergeSort, List.length_eq_zero_iff]

lemma columnsOf_eq_nil {doc item : Json} : columnsOf doc item = [] ↔ NoProperties item := by
  unfold columnsOf NoProperties
  cases (item.get? "properties").bind asObject? with
  | none => simp
  | some props => simp [mergeSort_eq_nil]

lemma toolArgs_eq_nil {schema : Json} :
    toolArgs schema = [] ↔ ((schema.get? "properties").bind asObject?).getD [] = [] := by
  unfold toolArgs
  cases (schema.get? "properties").bind asObject? with
  | none => simp
  | some props => simp [mergeSort_eq_nil]

lemma columns_eq_nil {tool : Tool} :
    (tableFromTool tool).columns = [] ↔
      ∃ schema, tool.outputSchema = some schema ∧
        ∃ row, rowSchema schema = some row ∧ NoProperties row := by
  unfold tableFromTool
  dsimp only
  cases tool.outputSchema with
  | none => simp
  | some schema =>
      dsimp only
      rw [outputColumns_snd]
      cases hrow : rowSchema schema with
      | none => simp [hrow]
      | some row => simp [hrow, columnsOf_eq_nil]

/-- Only a tool without properties has a table without fields. -/
lemma buildSchema_eq_nil {tool : Tool} : (tableFromTool tool).buildSchema = [] ↔ tool.Blank := by
  rw [McpTableSpec.buildSchema, List.append_eq_nil_iff, List.map_eq_nil_iff, List.map_eq_nil_iff]
  constructor
  · rintro ⟨hechoed, hcolumns⟩
    have hargs : (tableFromTool tool).args = [] := by
      simpa [McpTableSpec.echoed, McpTableSpec.argIsShadowed, hcolumns] using hechoed
    exact ⟨toolArgs_eq_nil.mp hargs, columns_eq_nil.mp hcolumns⟩
  · rintro ⟨hinput, houtput⟩
    have hargs : (tableFromTool tool).args = [] := toolArgs_eq_nil.mpr hinput
    rw [McpTableSpec.echoed, hargs]
    exact ⟨rfl, columns_eq_nil.mpr houtput⟩

/-- The tables are told apart by their names, which lead to the table of each admitted tool, and so are
the fields of each; each builds a batch of the rows. -/
structure Addressable (fmt : Formats F) (tools : List Tool) (opts : SynthOptions)
    (bound : OrderedMap String Json) (rows : List Json) : Prop where
  names : ((synthesizeTools tools opts).tables.map McpTableSpec.name).Nodup
  found : ∀ tool ∈ tools, opts.admits tool = true → ∃ t ∈ (synthesizeTools tools opts).tables,
    t.tool = tool.name ∧ ∀ t' ∈ (synthesizeTools tools opts).tables, t'.name = t.name → t' = t
  fields : ∀ t ∈ (synthesizeTools tools opts).tables,
    (t.buildSchema.map RecordBatch.Field.name).Nodup
  builds : ∀ t ∈ (synthesizeTools tools opts).tables, ∃ batch, t.buildBatch fmt bound rows = .ok batch

/-- The names of the admitted tools stay apart, each of these has a property, and the values fit into
its columns. -/
structure ToldApart (F : Type) (tools : List Tool) (opts : SynthOptions)
    (bound : OrderedMap String Json) (rows : List Json) : Prop where
  names : ((tools.filter opts.admits).map fun tool => sanitize tool.name).Nodup
  described : ∀ tool ∈ tools, opts.admits tool = true → ¬ tool.Blank
  texts : ∀ tool ∈ tools, opts.admits tool = true → (tableFromTool tool).FitsTexts F bound rows

lemma tableFromTool_nodup {tool : Tool} (h : tool.Ordered) :
    ((tableFromTool tool).buildSchema.map RecordBatch.Field.name).Nodup :=
  buildSchema_nodup (toolArgs_nodup h.input) (tableFromTool_columns_nodup h)

lemma builds_iff {tool : Tool} (h : tool.Ordered) (bound : OrderedMap String Json)
    (rows : List Json) :
    (∃ batch, (tableFromTool tool).buildBatch fmt bound rows = .ok batch) ↔
      ¬ tool.Blank ∧ (tableFromTool tool).FitsTexts F bound rows := by
  rw [buildBatch_isOk_iff (tableFromTool_nodup h), Ne, buildSchema_eq_nil]

/-- The tables are addressable when the tools are told apart. -/
theorem addressable_iff {tools : List Tool} (h : ∀ tool ∈ tools, tool.Ordered) (opts : SynthOptions)
    (bound : OrderedMap String Json) (rows : List Json) :
    Addressable fmt tools opts bound rows ↔ ToldApart F tools opts bound rows := by
  constructor
  · intro haddressable
    have hbuilds : ∀ tool ∈ tools, opts.admits tool = true →
        ¬ tool.Blank ∧ (tableFromTool tool).FitsTexts F bound rows := fun tool hmem hadmits =>
      (builds_iff (h tool hmem) bound rows).mp
        (haddressable.builds _ (mem_synthesizeTools.mpr ⟨tool, hmem, hadmits, rfl⟩))
    exact ⟨(tables_nodup_iff tools opts).mp haddressable.names,
      fun tool hmem hadmits => (hbuilds tool hmem hadmits).1,
      fun tool hmem hadmits => (hbuilds tool hmem hadmits).2⟩
  · intro htold
    have hnames := (tables_nodup_iff tools opts).mpr htold.names
    refine ⟨hnames, ?_, ?_, ?_⟩
    · intro tool hmem hadmits
      have ht := mem_synthesizeTools.mpr ⟨tool, hmem, hadmits, rfl⟩
      exact ⟨_, ht, rfl, fun t' ht' hname => List.inj_on_of_nodup_map hnames ht' ht hname⟩
    · intro t ht
      obtain ⟨tool, hmem, -, rfl⟩ := mem_synthesizeTools.mp ht
      exact tableFromTool_nodup (h tool hmem)
    · intro t ht
      obtain ⟨tool, hmem, hadmits, rfl⟩ := mem_synthesizeTools.mp ht
      exact (builds_iff (h tool hmem) bound rows).mpr
        ⟨htold.described tool hmem hadmits, htold.texts tool hmem hadmits⟩

end

section Examples

/-- Formats of which no example reads a value. -/
def noFormats : Formats Unit where
  asF64 _ := none
  parseF64 _ := none
  truncate _ := ⟨0, by decide⟩
  timestampMicros _ := none
  dateDays _ := none
  epochText _ _ := none
  decodeBase64 _ := none

/-- A read-only tool whose input is an object with the properties. -/
def readTool (name : String) (props : List (String × Json)) (output : Option Json) : Tool :=
  { name := name
    inputSchema := .obj [("properties", .obj props), ("type", .str "object")]
    outputSchema := output
    readOnly := some true }

lemma fitsTexts_readTool {name arg : String} {schema : Json} {bound : OrderedMap String Json}
    {rows : List Json} (harg : FitsText Unit (paramType schema)
      (List.replicate rows.length ((bound.get? arg).getD .null)))
    (hrows : FitsText Unit "json" (rows.map fun row => row)) :
    (tableFromTool (readTool name [(arg, schema)] none)).FitsTexts Unit bound rows := by
  have hargs : toolArgs (readTool name [(arg, schema)] none).inputSchema =
      [{ name := arg, type := paramType schema, required := false }] :=
    List.mergeSort_singleton _
  refine ⟨?_, ?_⟩
  · intro a ha
    have hmem : a ∈ toolArgs (readTool name [(arg, schema)] none).inputSchema :=
      (List.mem_filter.mp ha).1
    rw [hargs, List.mem_singleton] at hmem
    rw [hmem]
    exact harg
  · intro c hc
    rw [List.mem_singleton.mp hc]
    exact hrows

/-- A tool that searches and one that lists users. -/
theorem addressable_pair :
    Addressable noFormats
      [readTool "search" [("q", .obj [("type", .str "string")])] none,
        readTool "list-users" [("org", .obj [("type", .str "string")])] none] {}
      (OrderedMap.empty.insert "q" (.str "a")) [.obj [("id", .num "1")]] := by
  refine (addressable_iff ?_ _ _ _).mpr ⟨by decide, ?_, ?_⟩
  · intro tool hmem
    rcases List.mem_pair.mp hmem with rfl | rfl <;>
      exact ⟨by decide, fun _ h => nomatch h⟩
  · intro tool hmem _ hblank
    have hinput := hblank.input
    rcases List.mem_pair.mp hmem with rfl | rfl <;> cases hinput
  · intro tool hmem _
    rcases List.mem_pair.mp hmem with rfl | rfl <;>
      exact fitsTexts_readTool (fun _ => by decide) (fun _ => by decide)

/-- Two names that become one, and a tool without properties on either side. -/
theorem addressable_fails :
    ¬ Addressable noFormats
        [readTool "get-user" [("id", .obj [("type", .str "string")])] none,
          readTool "get_user" [("id", .obj [("type", .str "string")])] none] {} .empty [] ∧
      ¬ Addressable noFormats
        [readTool "ping" [] (some (.obj [("properties", .obj []), ("type", .str "object")]))] {}
        .empty [.obj []] := by
  constructor
  · intro h
    have hnames := (tables_nodup_iff _ _).mp h.names
    revert hnames
    decide
  · intro h
    set tool := readTool "ping" [] (some (.obj [("properties", .obj []), ("type", .str "object")]))
    have hmem : tableFromTool tool ∈ (synthesizeTools [tool] {}).tables :=
      mem_synthesizeTools.mpr ⟨tool, List.mem_singleton_self tool, by decide, rfl⟩
    have hargs : (tableFromTool tool).args = [] := List.mergeSort_nil
    have hcolumns : (tableFromTool tool).columns = [] := List.mergeSort_nil
    obtain ⟨batch, hbatch⟩ := h.builds _ hmem
    revert hbatch
    simp only [McpTableSpec.buildBatch, McpTableSpec.echoed, McpTableSpec.buildSchema, hargs, hcolumns]
    rintro ⟨⟩

end Examples

end Mcp
end Pawrly
