import Pawrly.Mcp.ToolFetch
import Pawrly.Mcp.Synthesis

/-!
# Records of a tool

The classifier takes the place of the rows and their columns from the schema of the output; `rows_from`
looks at the value.  `readsRecords_iff` says for which schemas and values the two agree.
-/

namespace Pawrly
namespace Mcp

open RecordBatch
open Http (Json Formats ArrowType ArrowArray ScanError walk)
open Http.OpenApi (asObject? deref isArraySchema isObject rowsArray columnType)

/-! ## What a schema describes -/

/-- The property of an output that the classifier takes the rows from. -/
def rowsProperty (outputSchema : Json) : Option String :=
  let schema := deref outputSchema outputSchema
  if isArraySchema schema then none
  else if isObject schema then
    (((schema.get? "properties").bind asObject?).bind (rowsArray outputSchema)).map Prod.fst
  else none

/-- The part of a result that has the rows. -/
def rowsPart (outputSchema v : Json) : Option Json :=
  match rowsProperty outputSchema with
  | some prop => v.get? prop
  | none => some v

/-- The records of a result: the elements of the array that the schema takes the rows from, or else
the value alone. -/
def describedRows (outputSchema v : Json) : List Json :=
  match rowsPart outputSchema v with
  | none | some .null => []
  | some (.arr rows) => rows
  | some record => [record]

/-- The properties of a record, by their paths, with their types. -/
def describedProperties (outputSchema : Json) : List (List String × String) :=
  match (rowSchema outputSchema).bind fun row => (row.get? "properties").bind asObject? with
  | some props => props.map fun e => ([e.1], columnType (deref outputSchema e.2))
  | none => [([], "json")]

/-- The value has the form of the values of a column of the type. -/
def representable {F : Type} (fmt : Formats F) (t : String) (x : Json) : Bool :=
  match arrowType t with
  | .int64 => (int64Cell (F := F) x).isSome
  | .float64 => (float64Cell fmt x).isSome
  | .boolean => x.asBool?.isSome
  | _ => true

/-- The cell of a row is present. -/
def PresentAt {F : Type} (array : ArrowArray F) (i : ℕ) : Prop :=
  ∃ cell, array.cells[i]? = some (some cell)

/-- The rows of a result are its records, and each property that a record has is in its column. -/
structure ReadsRecords {F : Type} (fmt : Formats F) (spec : McpTableSpec) (outputSchema v : Json) :
    Prop where
  rows : rowsFrom v spec.rowsPath = describedRows outputSchema v
  cells : ∀ i record, (describedRows outputSchema v)[i]? = some record →
    ∀ e ∈ describedProperties outputSchema, ∀ x, walk e.1 record = some x → x ≠ .null →
      ∃ c ∈ spec.columns, c.path = e.1 ∧ c.type = e.2 ∧ ∃ array, namedArray fmt spec.buildSchema c.name
        ((rowsFrom v spec.rowsPath).map fun row => (walk c.path row).getD .null) = .ok array ∧
          PresentAt array i

/-! ## Places -/

lemma outputColumns_fst (schema : Json) :
    (outputColumns schema).1 = (rowsProperty schema).toList := by
  unfold outputColumns rowsProperty
  dsimp only
  split_ifs
  · rfl
  · cases ((deref schema schema).get? "properties").bind asObject? with
    | none => rfl
    | some props =>
        dsimp only [Option.bind_some]
        cases rowsArray schema props <;> rfl
  · rfl

lemma walk_rowsPath (schema v : Json) : walk (outputColumns schema).1 v = rowsPart schema v := by
  rw [outputColumns_fst, rowsPart]
  cases rowsProperty schema with
  | none => rfl
  | some prop => simp [walk]

lemma mem_of_onlyArray {fields : List (String × Json)} {items : List Json}
    (h : onlyArray fields = some items) : ∃ name, (name, Json.arr items) ∈ fields := by
  unfold onlyArray at h
  split at h
  · rename_i only honly
    cases h
    obtain ⟨⟨name, v⟩, hmem, hv⟩ := List.mem_filterMap.mp (honly ▸ List.mem_singleton_self items)
    cases v <;> cases hv
    exact ⟨name, hmem⟩
  · cases h

/-- An object is not an element of an array inside it. -/
lemma onlyArray_ne_self {fields : List (String × Json)} {items : List Json}
    (h : onlyArray fields = some items) : items ≠ [.obj fields] := by
  obtain ⟨name, hmem⟩ := mem_of_onlyArray h
  rintro rfl
  have hlt := List.sizeOf_lt_of_mem hmem
  simp at hlt
  omega

lemma rowsFrom_eq_iff (schema v : Json) :
    rowsFrom v (outputColumns schema).1 = describedRows schema v ↔
      ∀ fields, rowsPart schema v = some (.obj fields) → onlyArray fields = none := by
  rw [rowsFrom, walk_rowsPath, describedRows]
  cases rowsPart schema v with
  | none => simp
  | some part =>
      cases part with
      | obj fields =>
          dsimp only
          cases honly : onlyArray fields with
          | none => simp [honly]
          | some items =>
              simp [honly, onlyArray_ne_self honly]
      | null | bool | num | str | arr => simp

/-! ## Columns -/

lemma mem_describedProperties {schema : Json} {e : List String × String} :
    e ∈ describedProperties schema ↔
      ∃ c ∈ (outputColumns schema).2, c.path = e.1 ∧ c.type = e.2 := by
  have hresult : e = ([], "json") ↔ ∃ c ∈ [resultColumn], c.path = e.1 ∧ c.type = e.2 := by
    simp only [List.mem_singleton, exists_eq_left, resultColumn, Prod.ext_iff, eq_comm]
  rw [outputColumns_snd, describedProperties]
  cases rowSchema schema with
  | none => simpa using hresult
  | some row =>
      dsimp only [Option.bind_some]
      unfold columnsOf
      cases (row.get? "properties").bind asObject? with
      | none => simpa using hresult
      | some props =>
          simp only [(List.mergeSort_perm _ _).mem_iff, List.mem_map, Prod.ext_iff]
          constructor
          · rintro ⟨f, hf, hpath, htype⟩
            exact ⟨_, ⟨f, hf, rfl⟩, hpath, htype⟩
          · rintro ⟨_, ⟨f, hf, rfl⟩, hpath, htype⟩
            exact ⟨f, hf, hpath, htype⟩

section

variable {F : Type} {fmt : Formats F}

lemma presentAt_map {t : ArrowType} (f : Json → Http.Cell F t) {values : List Json} {i : ℕ}
    {x : Json} (hx : values[i]? = some x) :
    PresentAt (⟨t, values.map f⟩ : ArrowArray F) i ↔ (f x).isSome := by
  have hget : (values.map f)[i]? = some (f x) := by
    rw [List.getElem?_map, hx]
    rfl
  rw [PresentAt, Option.isSome_iff_exists]
  constructor
  · rintro ⟨cell, hcell⟩
    exact ⟨cell, Option.some.inj (hget.symm.trans hcell)⟩
  · rintro ⟨cell, hcell⟩
    exact ⟨cell, hget.trans (congrArg some hcell)⟩

lemma presentAt_iff {t : String} {values : List Json} {i : ℕ} {x : Json} (hx : values[i]? = some x)
    (hne : x ≠ .null) :
    PresentAt (columnArray fmt (arrowType t) values) i ↔ representable fmt t x = true := by
  unfold representable
  rcases arrowType_cases t with h | h | h | h <;> rw [h]
  · exact presentAt_map (t := .boolean) Json.asBool? hx
  · exact presentAt_map int64Cell hx
  · exact presentAt_map (float64Cell fmt) hx
  · refine (presentAt_map utf8Cell hx).trans ?_
    cases x with
    | null => exact absurd rfl hne
    | bool | num | str | arr | obj => exact ⟨fun _ => rfl, fun _ => rfl⟩

/-- The rows are the records exactly where no object at the place of the rows has one array, and then
a property is in its column exactly when it has the form of the column's values. -/
theorem readsRecords_iff {tool : Tool} (h : tool.Ordered) {schema : Json}
    (hschema : tool.outputSchema = some schema) (v : Json) :
    ReadsRecords fmt (tableFromTool tool) schema v ↔
      (∀ fields, rowsPart schema v = some (.obj fields) → onlyArray fields = none) ∧
        ∀ record ∈ describedRows schema v, ∀ e ∈ describedProperties schema, ∀ x,
          walk e.1 record = some x → x ≠ .null → representable fmt e.2 x = true := by
  have hpath : (tableFromTool tool).rowsPath = (outputColumns schema).1 := by
    rw [tableFromTool, hschema]
  have hcolumns : (tableFromTool tool).columns = (outputColumns schema).2 := by
    rw [tableFromTool, hschema]
  have hcell : ∀ c ∈ (tableFromTool tool).columns, ∀ i record x, (describedRows schema v)[i]? =
      some record → walk c.path record = some x → x ≠ .null →
        ((∃ array, namedArray fmt (tableFromTool tool).buildSchema c.name
          ((describedRows schema v).map fun row => (walk c.path row).getD .null) = .ok array ∧
            PresentAt array i) ↔ representable fmt c.type x = true) := by
    intro c hc i record x hrecord hx hne
    have hget : ((describedRows schema v).map fun row => (walk c.path row).getD .null)[i]? =
        some x := by
      rw [List.getElem?_map, hrecord, Option.map_some, hx, Option.getD_some]
    rw [namedArray_column (tableFromTool_nodup h) hc, ← presentAt_iff hget hne]
    constructor
    · rintro ⟨array, harray, hpresent⟩
      cases harray
      exact hpresent
    · exact fun hpresent => ⟨_, rfl, hpresent⟩
  constructor
  · rintro ⟨hrows, hcells⟩
    rw [hpath] at hrows hcells
    refine ⟨(rowsFrom_eq_iff schema v).mp hrows, ?_⟩
    rw [hrows] at hcells
    intro record hrecord e he x hx hne
    obtain ⟨i, hi⟩ := List.mem_iff_getElem?.mp hrecord
    obtain ⟨c, hc, hcpath, htype, harray⟩ := hcells i record hi e he x hx hne
    rw [← hcpath] at hx
    rw [← htype]
    exact (hcell c hc i record x hi hx hne).mp harray
  · rintro ⟨hpart, hfits⟩
    have hrows := (rowsFrom_eq_iff schema v).mpr hpart
    rw [← hpath] at hrows
    refine ⟨hrows, ?_⟩
    rw [hrows]
    intro i record hi e he x hx hne
    obtain ⟨c, hc, hcpath, htype⟩ := mem_describedProperties.mp he
    rw [← hcolumns] at hc
    have hrep := hfits record (List.mem_iff_getElem?.mpr ⟨i, hi⟩) e he x hx hne
    rw [← hcpath] at hx
    rw [← htype] at hrep
    exact ⟨c, hc, hcpath, htype, (hcell c hc i record x hi hx hne).mpr hrep⟩

end

/-! ## Results of a schema -/

/-- The names of the JSON types of a value. -/
def typesOf : Json → List String
  | .null => ["null"]
  | .bool _ => ["boolean"]
  | .num text => if text.toList.all Char.isDigit then ["integer", "number"] else ["number"]
  | .str _ => ["string"]
  | .arr _ => ["array"]
  | .obj _ => ["object"]

/-- The value conforms to the schema, in its type, its properties and its items. -/
inductive Conforms (doc : Json) : Json → Json → Prop
  | intro {schema v : Json}
      (type : ∀ t, (deref doc schema).get? "type" = some (.str t) → t ∈ typesOf v)
      (required : ∀ names fields, (deref doc schema).get? "required" = some (.arr names) →
        v = .obj fields → ∀ name, Json.str name ∈ names → (v.get? name).isSome)
      (properties : ∀ props, (deref doc schema).get? "properties" = some (.obj props) →
        ∀ name sub x, (name, sub) ∈ props → v.get? name = some x → Conforms doc sub x)
      (items : ∀ sub l, (deref doc schema).get? "items" = some sub → v = .arr l →
        ∀ x ∈ l, Conforms doc sub x) : Conforms doc schema v

section Examples

/-- A record with an identifier and two optional arrays. -/
def recordSchema : Json :=
  .obj [("properties", .obj
      [("id", .obj [("type", .str "integer")]), ("notes", .obj [("type", .str "array")]),
        ("tags", .obj [("type", .str "array")])]),
    ("required", .arr [.str "id"]), ("type", .str "object")]

/-- A record with both arrays is one row. -/
theorem readsRecords_both :
    ReadsRecords noFormats (tableFromTool (readTool "get" [] (some recordSchema))) recordSchema
      (.obj [("id", .num "1"), ("notes", .arr []), ("tags", .arr [.str "x"])]) := by
  have hordered : (readTool "get" [] (some recordSchema)).Ordered :=
    ⟨by decide, fun schema h => by cases h; decide⟩
  refine (readsRecords_iff hordered rfl _).mpr ⟨?_, ?_⟩
  · intro fields hfields
    cases hfields
    decide
  · have hprops : describedProperties recordSchema =
        [(["id"], "bigint"), (["notes"], "json"), (["tags"], "json")] := by decide
    rw [hprops]
    intro record hrecord e he x hx _
    cases List.mem_singleton.mp hrecord
    simp only [List.mem_cons, List.not_mem_nil, or_false] at he
    rcases he with rfl | rfl | rfl <;> cases hx <;> decide +kernel

/-- The same record without notes: its tags become the rows. -/
theorem readsRecords_fails :
    Conforms recordSchema recordSchema (.obj [("id", .num "1"), ("tags", .arr [.str "x"])]) ∧
      ¬ ReadsRecords noFormats (tableFromTool (readTool "get" [] (some recordSchema))) recordSchema
        (.obj [("id", .num "1"), ("tags", .arr [.str "x"])]) := by
  constructor
  · have htype : ∀ t x, t ∈ typesOf x → Conforms recordSchema (.obj [("type", .str t)]) x := by
      intro t x ht
      refine .intro ?_ nofun nofun nofun
      rintro _ ⟨⟩
      exact ht
    refine .intro ?_ ?_ ?_ nofun
    · rintro _ ⟨⟩
      decide
    · rintro _ _ ⟨⟩ ⟨⟩ name hname
      cases List.mem_singleton.mp hname
      decide
    · rintro _ ⟨⟩ name sub x hmem hx
      simp only [List.mem_cons, List.not_mem_nil, or_false] at hmem
      rcases hmem with ⟨rfl, rfl⟩ | ⟨rfl, rfl⟩ | ⟨rfl, rfl⟩ <;> cases hx <;>
        exact htype _ _ (by decide)
  · intro h
    have hrows := h.rows
    revert hrows
    decide

end Examples

end Mcp
end Pawrly
