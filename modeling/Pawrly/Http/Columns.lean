import Pawrly.Http.Json
import Pawrly.Http.Spec
import Pawrly.Lib.RecordBatch
import Pawrly.Lib.Fallible

/-!
# Columns of a response

The columns of a table, the value that each takes from a row, and the record batch that they make.
The Arrow type of a column is chosen from its declared type (`parseArrowType`), the builder of its
array from the type of the field with its name, so the two differ where a name is declared twice;
no builder makes a `Float32` array (`buildBatch_total_iff`).  Floats, timestamps and Base64 are
those of other crates (`Formats`).
-/

namespace Pawrly
namespace Http

open RecordBatch

/-! ## Numbers and formats -/

/-- A signed number of a given width. -/
abbrev Signed (bits : ℕ) := { n : ℤ // -(2 ^ (bits - 1)) ≤ n ∧ n < 2 ^ (bits - 1) }

/-- The number, if it has the width (`try_from`). -/
def toSigned (bits : ℕ) (n : ℤ) : Option (Signed bits) :=
  if h : -(2 ^ (bits - 1)) ≤ n ∧ n < 2 ^ (bits - 1) then some ⟨n, h⟩ else none

/-- What other crates make of texts and numbers; `F` are the values of `f64`. -/
structure Formats (F : Type) where
  /-- `n.as_f64()`, of the text of a number. -/
  asF64 : String → Option F
  /-- `s.parse::<f64>()`. -/
  parseF64 : String → Option F
  /-- `f as i64`. -/
  truncate : F → Signed 64
  /-- The microseconds of a timestamp in one of the accepted formats. -/
  timestampMicros : String → Option (Signed 64)
  /-- The days of a date. -/
  dateDays : String → Option (Signed 32)
  /-- The RFC 3339 text of an epoch number, in seconds or milliseconds. -/
  epochText : Bool → F → Option String
  /-- The text that a Base64 text stands for. -/
  decodeBase64 : String → Option String

/-! ## Expressions -/

/-- A computed column (`ColumnExpr`). -/
inductive ColumnExpr
  | path (path : List String)
  | currentRow
  | null
  | fromFilter (filter : String)
  | coalesce (exprs : List ColumnExpr)
  | toTimestamp (unit : String) (expr : ColumnExpr)
  | join (path : List String)
  | mapJoin (path itemPath : List String)
  | firstOf (path itemPath : List String)
  | lookup (path : List String) (key keyField valueField : String)
  | lookupJoin (path : List String) (key keyField valueField : String)
  | pick (path : List String) (by_ : String) (itemPath : List String)
  | literal (value : Json)
  | ifPresent (check : ColumnExpr) (thenValue : Json)
  | fromBase64 (expr : ColumnExpr)
  | replace (expr : ColumnExpr) (pattern replacement : String)

/-- `walk`: object keys only. -/
def walk (path : List String) (v : Json) : Option Json := path.foldlM (fun v seg => v.get? seg) v

/-- `value_to_text`. -/
def valueToText : Json → String
  | .str s => s
  | .null => ""
  | other => other.print

def joinValues (values : List Json) : String := Text.join "," (values.map valueToText)

def Json.isNull : Json → Bool
  | .null => true
  | _ => false

def Json.asStr? : Json → Option String
  | .str s => some s
  | _ => none

/-- `s.replace(from, to)`; an empty pattern stands before every character and at the end. -/
def replaceAll (pattern replacement s : String) : String :=
  if pattern = "" then replacement ++ String.join (s.toList.map fun c => c.toString ++ replacement)
  else Text.replace pattern replacement s

section Eval

variable {F : Type} (fmt : Formats F)

/-- `to_rfc3339`. -/
def toRfc3339 (unit : String) : Json → Option String
  | .str s => some s
  | .num text => (fmt.asF64 text).bind (fmt.epochText (unit = "millis" || unit = "milliseconds"))
  | _ => none

/-- The elements of the array whose key field has the key. -/
def keyed (key keyField : String) (items : List Json) : List Json :=
  items.filter fun el => (el.get? keyField).bind Json.asStr? = some key

mutual

/-- `ColumnExpr::eval`. -/
def ColumnExpr.eval (row : Json) (params : Params) : ColumnExpr → Option Json
  | .path path => walk path row
  | .currentRow => some row
  | .null => none
  | .fromFilter filter => (params.get? filter).map .str
  | .coalesce exprs => evalFirst row params exprs
  | .toTimestamp unit expr =>
      ((expr.eval row params).bind (toRfc3339 fmt unit)).map .str
  | .join path =>
      ((walk path row).bind Json.asArray?).map fun items => .str (joinValues items)
  | .mapJoin path itemPath =>
      ((walk path row).bind Json.asArray?).map fun items =>
        .str (joinValues (items.filterMap (walk itemPath)))
  | .firstOf path itemPath =>
      (((walk path row).bind Json.asArray?).bind List.head?).bind (walk itemPath)
  | .lookup path key keyField valueField =>
      ((walk path row).bind Json.asArray?).bind fun items =>
        (keyed key keyField items).head?.bind fun el => el.get? valueField
  | .lookupJoin path key keyField valueField =>
      ((walk path row).bind Json.asArray?).map fun items =>
        .str (joinValues ((keyed key keyField items).filterMap fun el => el.get? valueField))
  | .pick path by_ itemPath =>
      (walk path row).bind fun obj => (params.get? by_).bind fun key =>
        (obj.get? key).bind (walk itemPath)
  | .literal value => some value
  | .ifPresent check thenValue =>
      ((check.eval row params).filter fun v => !v.isNull).map fun _ => thenValue
  | .fromBase64 expr =>
      (((expr.eval row params).bind Json.asStr?).bind fun s =>
        fmt.decodeBase64 (Text.trim s)).map .str
  | .replace expr pattern replacement =>
      ((expr.eval row params).bind Json.asStr?).map fun s =>
        .str (replaceAll pattern replacement s)

/-- The first value that is not null. -/
def evalFirst (row : Json) (params : Params) : List ColumnExpr → Option Json
  | [] => none
  | expr :: exprs =>
      match (expr.eval row params).filter fun v => !v.isNull with
      | some v => some v
      | none => evalFirst row params exprs

end

/-! ## The value of a column in a row -/

/-- A column of a response (`ResponseColumn`). -/
structure ResponseColumn where
  name : String
  type : String
  source : Option String := none
  expr : Option ColumnExpr := none

/-- The names that a `$` path of a column goes through. -/
def sourceKeys (path : String) : List String :=
  (Text.split '.' (Text.trimStartMatches "$." path)).filter (· ≠ "")

/-- The value that a source takes from a row. -/
def pullSource (name source : String) (row : Json) (params : Params) : Option Json :=
  if source = "param" then (params.get? name).map .str
  else if source = "$" then some row
  else if source.toList.head? = some '$' then walk (sourceKeys source) row
  else row.get? source

/-- `pull_value`. -/
def pullValue (col : ResponseColumn) (params : Params) (row : Json) : Option Json :=
  match col.expr with
  | some expr => expr.eval fmt row params
  | none =>
      match col.source with
      | none => row.get? col.name
      | some source => pullSource col.name source row params

end Eval

/-! ## Types -/

/-- The Arrow types of columns. -/
inductive ArrowType
  | boolean
  | int32
  | int64
  | float32
  | float64
  | date32
  | timestamp (utc : Bool)
  | utf8
  deriving DecidableEq

/-- The values of a type, over the values of `f64`. -/
def ArrowType.Value (F : Type) : ArrowType → Type
  | boolean => Bool
  | int32 | date32 => Signed 32
  | int64 | timestamp _ => Signed 64
  | float32 | float64 => F
  | utf8 => String

/-- `parse_arrow_type`. -/
def parseArrowType (s : String) : ArrowType :=
  match s.toLower with
  | "bool" | "boolean" => .boolean
  | "int" | "int32" => .int32
  | "bigint" | "int64" | "long" => .int64
  | "float" | "float32" => .float32
  | "double" | "float64" => .float64
  | "date" => .date32
  | "timestamp" => .timestamp false
  | "timestamptz" => .timestamp true
  | _ => .utf8

/-- The declared type keeps a value as JSON text. -/
def ResponseColumn.isJson (col : ResponseColumn) : Bool := col.type.toLower = "json"

def ResponseColumn.arrowType (col : ResponseColumn) : ArrowType := parseArrowType col.type

lemma ResponseColumn.arrowType_of_isJson {col : ResponseColumn} (h : col.isJson) :
    col.arrowType = .utf8 := by
  unfold isJson at h
  rw [decide_eq_true_eq] at h
  rw [arrowType, parseArrowType, h]
  rfl

/-- The parameters that are columns of their own. -/
def paramColumns (schema : List ResponseColumn) (params : List ParamSpec) : List ResponseColumn :=
  (params.filter fun p => p.filterable && !(schema.map ResponseColumn.name).contains p.name).map
    fun p => { name := p.name, type := p.type, source := some "param" }

/-- `effective_columns`: the columns of the response, and a column for each filterable parameter that
none of them has the name of. -/
def effectiveColumns (schema : List ResponseColumn) (params : List ParamSpec) :
    List ResponseColumn :=
  schema ++ paramColumns schema params

def fieldOf (col : ResponseColumn) : RecordBatch.Field ArrowType := ⟨col.name, col.arrowType⟩

/-- `schema_for`. -/
def schemaFor (schema : List ResponseColumn) (params : List ParamSpec) :
    List (RecordBatch.Field ArrowType) :=
  (effectiveColumns schema params).map fieldOf

/-- `schema.field_with_name`: the first field with the name. -/
def fieldWithName (fields : List (RecordBatch.Field ArrowType)) (name : String) :
    Option (RecordBatch.Field ArrowType) :=
  fields.find? fun f => f.name = name

/-! ## Arrays -/

section Build

variable {F : Type} (fmt : Formats F)

abbrev Cell (F : Type) (t : ArrowType) := Option (t.Value F)

abbrev ArrowArray (F : Type) := Column (ArrowType.Value F)

/-- The integer of a number: as it is, or cut off from a float. -/
def asInteger (text : String) : Option (Signed 64) :=
  match (Text.parseSigned 64 text).bind (toSigned 64) with
  | some n => some n
  | none => (fmt.asF64 text).map fmt.truncate

def utf8Cell : Option Json → Cell F .utf8
  | none | some .null => none
  | some (.str s) => some s
  | some other => some other.print

def jsonCell : Option Json → Cell F .utf8
  | none | some .null => none
  | some v => some v.print

def int64Cell : Option Json → Cell F .int64
  | some (.num text) => asInteger fmt text
  | some (.str s) => (Text.parseSigned 64 s).bind (toSigned 64)
  | _ => none

def int32Cell : Option Json → Cell F .int32
  | some (.num text) => (asInteger fmt text).bind fun n => toSigned 32 n.1
  | some (.str s) => (Text.parseSigned 32 s).bind (toSigned 32)
  | _ => none

def float64Cell : Option Json → Cell F .float64
  | some (.num text) => fmt.asF64 text
  | some (.str s) => fmt.parseF64 (Text.trim s)
  | _ => none

def booleanCell : Option Json → Cell F .boolean
  | some (.bool b) => some b
  | some (.str s) =>
      match (Text.trim s).toLower with
      | "true" => some true
      | "false" => some false
      | _ => none
  | _ => none

def timestampCell (utc : Bool) (v : Option Json) : Cell F (.timestamp utc) :=
  (v.bind Json.asStr?).bind fmt.timestampMicros

def date32Cell (v : Option Json) : Cell F .date32 := (v.bind Json.asStr?).bind fmt.dateDays

/-- The array of a column whose field has a type.  There is no builder for `float32`: its array is
one of null texts. -/
def arrayOf (type : ArrowType) (values : List (Option Json)) : ArrowArray F :=
  match type with
  | .boolean => ⟨.boolean, values.map booleanCell⟩
  | .int32 => ⟨.int32, values.map (int32Cell fmt)⟩
  | .int64 => ⟨.int64, values.map (int64Cell fmt)⟩
  | .float32 => ⟨.utf8, values.map fun _ => none⟩
  | .float64 => ⟨.float64, values.map (float64Cell fmt)⟩
  | .date32 => ⟨.date32, values.map (date32Cell fmt)⟩
  | .timestamp utc => ⟨.timestamp utc, values.map (timestampCell fmt utc)⟩
  | .utf8 => ⟨.utf8, values.map utf8Cell⟩

/-- The array of a column. -/
def columnArray (fields : List (RecordBatch.Field ArrowType)) (params : Params) (rows : List Json)
    (col : ResponseColumn) : ArrowArray F :=
  let values := rows.map (pullValue fmt col params)
  if col.isJson then ⟨.utf8, values.map jsonCell⟩
  else
    match fieldWithName fields col.name with
    | some f => arrayOf fmt f.type values
    | none => ⟨.utf8, values.map fun _ => none⟩

/-- The bytes of a text cell. -/
def textSize (cell : Cell F .utf8) : ℕ :=
  match (cell : Option String) with
  | some s => s.utf8ByteSize
  | none => 0

/-- The bytes of the texts of an array. -/
def textBytes (array : ArrowArray F) : ℕ :=
  match array with
  | ⟨.utf8, cells⟩ => (cells.map textSize).sum
  | _ => 0

/-- The offsets of a text array are `i32`. -/
def maxTextBytes : ℕ := 2 ^ 31 - 1

/-- Why there is no batch: the offsets of a text array overflow, which panics, or the arrays do not
make one. -/
inductive BuildError
  | offsetOverflow
  | arrow (e : BatchError ArrowType)

/-- `build_batch`. -/
def buildBatch (fields : List (RecordBatch.Field ArrowType)) (columns : List ResponseColumn)
    (rows : List Json)
    (params : Params) : Except BuildError (Batch (ArrowType.Value F)) :=
  let arrays := columns.map (columnArray fmt fields params rows)
  if arrays.any fun array => maxTextBytes < textBytes array then .error .offsetOverflow
  else (tryNew fields arrays none).mapError .arrow

/-! ## Which tables build -/

/-- The type of the array that is built for a field. -/
def builtType : ArrowType → ArrowType
  | .float32 => .utf8
  | t => t

lemma builtType_eq_self {t : ArrowType} : builtType t = t ↔ t ≠ .float32 := by
  cases t <;> simp [builtType]

lemma builtType_ne_float32 (t : ArrowType) : builtType t ≠ .float32 := by
  cases t <;> simp [builtType]

lemma arrayOf_type (t : ArrowType) (values : List (Option Json)) :
    (arrayOf fmt t values).type = builtType t := by
  cases t <;> rfl

lemma arrayOf_length (t : ArrowType) (values : List (Option Json)) :
    (arrayOf fmt t values).cells.length = values.length := by
  cases t <;> exact List.length_map _

lemma fieldWithName_map (cols : List ResponseColumn) (name : String) :
    fieldWithName (cols.map fieldOf) name = (cols.find? fun d => d.name = name).map fieldOf := by
  unfold fieldWithName
  rw [List.find?_map]
  rfl

/-- The first column with the name of another one. -/
lemma exists_first {cols : List ResponseColumn} {col : ResponseColumn} (h : col ∈ cols) :
    ∃ d ∈ cols, (cols.find? fun d => d.name = col.name) = some d := by
  have hsome : (cols.find? fun d => d.name = col.name).isSome := by
    rw [List.find?_isSome]
    exact ⟨col, h, by simp⟩
  obtain ⟨d, hd⟩ := Option.isSome_iff_exists.mp hsome
  exact ⟨d, List.mem_of_find?_eq_some hd, hd⟩

/-- The bytes of the text of a value in a text column. -/
def cellBytes (col : ResponseColumn) : Option Json → ℕ
  | none | some .null => 0
  | some (.str s) => if col.isJson then (Json.str s).print.utf8ByteSize else s.utf8ByteSize
  | some v => v.print.utf8ByteSize

/-- There is a column; none is a `float32`; each has the Arrow type of the first column with its name
or is JSON text; and the offsets of the text columns do not overflow. -/
structure Buildable (cols : List ResponseColumn) (rows : List Json) (params : Params) : Prop where
  nonempty : cols ≠ []
  noFloat32 : ∀ col ∈ cols, col.arrowType ≠ .float32
  sameType : ∀ col ∈ cols, col.isJson = false → ∀ d,
    (cols.find? fun d => d.name = col.name) = some d → d.arrowType = col.arrowType
  texts : ∀ col ∈ cols, col.arrowType = .utf8 →
    (rows.map fun row => cellBytes col (pullValue fmt col params row)).sum ≤ maxTextBytes

variable {fmt}

lemma columnArray_of_isJson {fields : List (RecordBatch.Field ArrowType)} {params : Params}
    {rows : List Json}
    {col : ResponseColumn} (h : col.isJson) :
    columnArray fmt fields params rows col =
      ⟨.utf8, (rows.map (pullValue fmt col params)).map jsonCell⟩ := by
  unfold columnArray
  rw [if_pos h]

lemma columnArray_of_first {cols : List ResponseColumn} {params : Params} {rows : List Json}
    {col d : ResponseColumn} (h : col.isJson = false)
    (hd : (cols.find? fun d => d.name = col.name) = some d) :
    columnArray fmt (cols.map fieldOf) params rows col =
      arrayOf fmt d.arrowType (rows.map (pullValue fmt col params)) := by
  unfold columnArray
  rw [if_neg (by rw [h]; decide), fieldWithName_map, hd]
  rfl

/-- A column has a cell for each row. -/
lemma columnArray_length (fields : List (RecordBatch.Field ArrowType)) (params : Params)
    (rows : List Json)
    (col : ResponseColumn) : (columnArray fmt fields params rows col).cells.length = rows.length := by
  by_cases hjson : col.isJson = true
  · rw [columnArray_of_isJson hjson]
    show ((rows.map (pullValue fmt col params)).map jsonCell).length = _
    rw [List.length_map, List.length_map]
  · cases hfield : fieldWithName fields col.name with
    | none =>
        have harray : columnArray fmt fields params rows col =
            ⟨.utf8, (rows.map (pullValue fmt col params)).map fun _ => none⟩ := by
          unfold columnArray
          rw [if_neg hjson, hfield]
        rw [harray]
        show ((rows.map (pullValue fmt col params)).map _).length = _
        rw [List.length_map, List.length_map]
    | some f =>
        have harray : columnArray fmt fields params rows col =
            arrayOf fmt f.type (rows.map (pullValue fmt col params)) := by
          unfold columnArray
          rw [if_neg hjson, hfield]
        rw [harray, arrayOf_length, List.length_map]

/-- The arrays have the declared types. -/
lemma types_iff {cols : List ResponseColumn} {params : Params} {rows : List Json} :
    ((cols.map (columnArray fmt (cols.map fieldOf) params rows)).map Column.type =
        (cols.map fieldOf).map RecordBatch.Field.type) ↔
      (∀ col ∈ cols, col.arrowType ≠ .float32) ∧
        ∀ col ∈ cols, col.isJson = false → ∀ d,
          (cols.find? fun d => d.name = col.name) = some d → d.arrowType = col.arrowType := by
  rw [List.map_map, List.map_map, List.map_inj_left]
  show (∀ col ∈ cols, (columnArray fmt (cols.map fieldOf) params rows col).type = col.arrowType) ↔ _
  constructor
  · intro h
    have hfloat : ∀ col ∈ cols, col.arrowType ≠ .float32 := by
      intro col hcol hfloat
      have htype := h col hcol
      cases hjson : col.isJson with
      | true =>
          rw [ResponseColumn.arrowType_of_isJson hjson] at hfloat
          cases hfloat
      | false =>
          obtain ⟨d, _, hd⟩ := exists_first hcol
          rw [columnArray_of_first hjson hd, arrayOf_type, hfloat] at htype
          exact builtType_ne_float32 _ htype
    refine ⟨hfloat, ?_⟩
    intro col hcol hjson d hd
    have htype := h col hcol
    rw [columnArray_of_first hjson hd, arrayOf_type] at htype
    rwa [builtType_eq_self.mpr (hfloat d (List.mem_of_find?_eq_some hd))] at htype
  · rintro ⟨hfloat, hsame⟩ col hcol
    cases hjson : col.isJson with
    | true => rw [columnArray_of_isJson hjson, ResponseColumn.arrowType_of_isJson hjson]
    | false =>
        obtain ⟨d, hmem, hd⟩ := exists_first hcol
        rw [columnArray_of_first hjson hd, arrayOf_type, builtType_eq_self.mpr (hfloat d hmem)]
        exact hsame col hcol hjson d hd

lemma textBytes_map {α : Type} (f : α → Cell F .utf8) (l : List α) :
    textBytes (⟨.utf8, l.map f⟩ : ArrowArray F) = (l.map fun a => textSize (f a)).sum := by
  show ((l.map f).map textSize).sum = _
  rw [List.map_map]
  rfl

lemma textSize_jsonCell {col : ResponseColumn} (h : col.isJson) (v : Option Json) :
    textSize (F := F) (jsonCell v) = cellBytes col v := by
  rcases v with _ | v
  · rfl
  · cases v with
    | null | bool | num | arr | obj => rfl
    | str s =>
        rw [cellBytes, if_pos h]
        rfl

lemma textSize_utf8Cell {col : ResponseColumn} (h : col.isJson = false) (v : Option Json) :
    textSize (F := F) (utf8Cell v) = cellBytes col v := by
  rcases v with _ | v
  · rfl
  · cases v with
    | null | bool | num | arr | obj => rfl
    | str s =>
        rw [cellBytes, if_neg (by rw [h]; decide)]
        rfl

lemma textBytes_of_ne {array : ArrowArray F} (h : array.type ≠ .utf8) : textBytes array = 0 := by
  obtain ⟨t, cells⟩ := array
  cases t with
  | utf8 => exact absurd rfl h
  | boolean | int32 | int64 | float32 | float64 | date32 | timestamp => rfl

/-- A text column takes the bytes of its cells, another column takes none. -/
lemma textBytes_columnArray {cols : List ResponseColumn} {params : Params} {rows : List Json}
    {col : ResponseColumn} (hcol : col ∈ cols) (hfloat : col.arrowType ≠ .float32)
    (hsame : col.isJson = false → ∀ d,
      (cols.find? fun d => d.name = col.name) = some d → d.arrowType = col.arrowType) :
    textBytes (columnArray fmt (cols.map fieldOf) params rows col) =
      if col.arrowType = .utf8 then
        (rows.map fun row => cellBytes col (pullValue fmt col params row)).sum
      else 0 := by
  cases hjson : col.isJson with
  | true =>
      rw [if_pos (ResponseColumn.arrowType_of_isJson hjson), columnArray_of_isJson hjson,
        textBytes_map, List.map_map]
      congr 1
      exact List.map_congr_left fun row _ => textSize_jsonCell hjson _
  | false =>
      obtain ⟨d, _, hd⟩ := exists_first hcol
      rw [columnArray_of_first hjson hd, hsame hjson d hd]
      split_ifs with hutf8
      · rw [hutf8, arrayOf, textBytes_map, List.map_map]
        congr 1
        exact List.map_congr_left fun row _ => textSize_utf8Cell hjson _
      · refine textBytes_of_ne ?_
        rw [arrayOf_type, builtType_eq_self.mpr hfloat]
        exact hutf8

/-- Every table builds a batch with its schema and a cell of the declared type in each row, exactly
when it is buildable. -/
theorem buildBatch_total_iff {schema : List ResponseColumn} {specs : List ParamSpec}
    {rows : List Json} {params : Params} :
    (∃ batch, buildBatch fmt (schemaFor schema specs) (effectiveColumns schema specs) rows params =
        .ok batch ∧ batch.schema = schemaFor schema specs ∧ batch.numRows = rows.length ∧
        batch.columns.map Column.type =
          (effectiveColumns schema specs).map ResponseColumn.arrowType) ↔
      Buildable fmt (effectiveColumns schema specs) rows params := by
  unfold schemaFor buildBatch
  generalize effectiveColumns schema specs = cols
  dsimp only
  have hrows : ∀ c ∈ cols.map (columnArray fmt (cols.map fieldOf) params rows),
      c.cells.length = rows.length := by
    intro c hc
    obtain ⟨col, _, rfl⟩ := List.mem_map.mp hc
    exact columnArray_length _ _ _ _
  constructor
  · rintro ⟨batch, h, _⟩
    split_ifs at h with hoverflow
    have hnew : ∃ batch, tryNew (cols.map fieldOf)
        (cols.map (columnArray fmt (cols.map fieldOf) params rows)) none = .ok batch :=
      ⟨batch, Fallible.mapError_eq_ok.mp h⟩
    obtain ⟨hne, htypes⟩ := (tryNew_isOk_iff hrows).mp hnew
    obtain ⟨hfloat, hsame⟩ := types_iff.mp htypes
    refine ⟨fun hnil => hne (by rw [hnil]; rfl), hfloat, hsame, ?_⟩
    intro col hcol hutf8
    have hsize : textBytes (columnArray fmt (cols.map fieldOf) params rows col) = _ :=
      textBytes_columnArray hcol (hfloat col hcol) (hsame col hcol)
    rw [if_pos hutf8] at hsize
    rw [← hsize, ← not_lt]
    intro hlt
    refine hoverflow (List.any_eq_true.mpr ⟨_, List.mem_map_of_mem hcol, ?_⟩)
    exact decide_eq_true hlt
  · rintro ⟨hne, hfloat, hsame, htexts⟩
    have hoverflow : (cols.map (columnArray fmt (cols.map fieldOf) params rows)).any
        (fun array => maxTextBytes < textBytes array) = false := by
      rw [List.any_eq_false]
      intro array harray
      obtain ⟨col, hcol, rfl⟩ := List.mem_map.mp harray
      rw [textBytes_columnArray hcol (hfloat col hcol) (hsame col hcol), decide_eq_true_eq, not_lt]
      split_ifs with hutf8
      · exact htexts col hcol hutf8
      · exact Nat.zero_le _
    obtain ⟨batch, hbatch⟩ := (tryNew_isOk_iff hrows).mpr
      ⟨fun hnil => hne (List.map_eq_nil_iff.mp hnil), types_iff.mpr ⟨hfloat, hsame⟩⟩
    obtain ⟨hschema, hcolumns, hcount⟩ := tryNew_eq_ok.mp hbatch
    refine ⟨batch, ?_, hschema, ?_, ?_⟩
    · rw [hoverflow, if_neg (by decide), hbatch]
      rfl
    · obtain ⟨col, cols, rfl⟩ := List.exists_cons_of_ne_nil hne
      exact (Option.some.inj hcount).symm.trans (hrows _ List.mem_cons_self)
    · rw [batch.types, hschema, List.map_map]
      rfl

/-- A row with a price, under a `float` column, under two columns of one name, and without columns:
the last has no row count, the others an array of another type than their field. -/
theorem buildBatch_fails :
    let fmt : Formats Unit :=
      { asF64 := fun _ => none, parseF64 := fun _ => none
        truncate := fun _ => ⟨0, by decide⟩
        timestampMicros := fun _ => none, dateDays := fun _ => none
        epochText := fun _ _ => none, decodeBase64 := fun _ => none }
    let rows := [Json.obj [("price", .num "1.5")]]
    let builds := fun schema : List ResponseColumn =>
      ∃ batch, buildBatch fmt (schemaFor schema []) (effectiveColumns schema []) rows .empty =
        .ok batch
    ¬ builds [{ name := "price", type := "float" }] ∧
      ¬ builds [{ name := "price", type := "double" }, { name := "price", type := "varchar" }] ∧
      ¬ builds [] := by
  intro fmt rows builds
  have hno : ∀ schema, (buildBatch fmt (schemaFor schema []) (effectiveColumns schema []) rows
      .empty).isOk = false → ¬ builds schema := by
    rintro schema h ⟨batch, hbatch⟩
    rw [hbatch] at h
    cases h
  exact ⟨hno _ (by decide +kernel), hno _ (by decide +kernel), hno _ (by decide +kernel)⟩

end Build

end Http
end Pawrly
