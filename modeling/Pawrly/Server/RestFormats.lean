import Pawrly.Http.JsonTokens
import Pawrly.Lib.Csv
import Pawrly.Mcp.Truncation

/-!
# Formats of REST responses

`stream_response` answers in one of three formats: `json` and `csv` format the whole result, `ndjson`
one batch after the other under what is left of the limit.  All show the same rows.  A row is keyed by
the names of the columns in `json` and `ndjson`, where of two columns of one name only the second
stays; a csv text takes its header from the first batch; and columns that cannot be formatted leave no
row.  `agrees_iff` says that nothing else is lost.
-/

namespace Pawrly
namespace Server
namespace Rest

open RecordBatch Http
open Mcp (DataType Row batchRows formattable shownRows formatBatches formatBatches_eq cellToJson)

/-! ## Responses -/

/-- Arrow's formatters, whose numbers are those of JSON. -/
structure Formatters extends Mcp.Formatters where
  number : ∀ x text, fromF64 x = some text → isNumber text.toList = true

variable {fmt : Formatters} {E : Type}

/-- The items of a query stream. -/
abbrev QueryStream (fmt : Formatters) (E : Type) := List (Except E (Batch fmt.Value))

/-- `row_object`. -/
def rowObject (columns : List String) (row : List Json) : Json :=
  .obj (Json.extendFields [] (columns.zip row))

/-- `csv_cell`. -/
def csvCell : Json → String
  | .str s => s
  | .null => ""
  | other => other.print

/-- The loop of `push_csv_row`, over what is left of the cells. -/
def pushCells (first : Bool) : List String → List Char
  | [] => []
  | cell :: cells =>
      (if first then [] else [',']) ++
        (if cell.toList.any fun c => ['"', ',', '\n', '\r'].contains c then
          '"' :: (Text.replaceChar '"' "\"\"" cell).toList ++ ['"']
        else cell.toList) ++ pushCells false cells

/-- `push_csv_row`. -/
def pushCsvRow (cells : List String) : List Char := pushCells true cells ++ ['\n']

/-- `rows_to_csv`. -/
def rowsToCsv (columns : List String) (rows : List (List Json)) : String :=
  String.ofList (pushCsvRow columns ++ rows.flatMap fun row => pushCsvRow (row.map csvCell))

/-- The lines of a chunk: the rows of one batch. -/
def ndjsonLines (columns : List String) (rows : List (List Json)) : String :=
  String.ofList (rows.flatMap fun row => (rowObject columns row).print.toList ++ ['\n'])

/-- `ndjson_stream`, from some items on, with what remains of the limit. -/
def ndjsonStream : QueryStream fmt E → ℕ → List (Except E String)
  | [], _ => []
  | item :: stream, remaining =>
      if remaining = 0 then []
      else
        match item with
        | .error e => [.error e]
        | .ok batch =>
            let formatted := formatBatches [batch] remaining
            let buf := ndjsonLines formatted.columns formatted.rows
            (if buf = "" then [] else [.ok buf]) ++
              ndjsonStream stream (remaining - formatted.total)

/-- The batches of a stream, or its first error. -/
def collect : QueryStream fmt E → Except E (List (Batch fmt.Value))
  | [] => .ok []
  | .error e :: _ => .error e
  | .ok batch :: stream => (collect stream).map (batch :: ·)

/-- The envelope of a `json` response. -/
def jsonBody (formatted : Mcp.Formatted) : Json :=
  .obj
    [("columns", .arr (formatted.columns.map .str)),
      ("row_count", .num (toString formatted.total)),
      ("rows", .arr (formatted.rows.map (rowObject formatted.columns))),
      ("truncated", .bool formatted.truncated)]

inductive Response (E : Type)
  | json (body : Json)
  | ndjson (chunks : List (Except E String))
  | csv (text : String)
  | engineError (e : E)
  | badFormat (message : String)

/-- `stream_response`. -/
def streamResponse (stream : QueryStream fmt E) (limit : ℕ) (format : Option String) :
    Response E :=
  let fmt' := format.getD "json"
  if fmt' = "ndjson" then .ndjson (ndjsonStream stream limit)
  else if fmt' = "json" ∨ fmt' = "csv" then
    match collect stream with
    | .error e => .engineError e
    | .ok batches =>
        let formatted := formatBatches batches limit
        if fmt' = "csv" then .csv (rowsToCsv formatted.columns formatted.rows)
        else .json (jsonBody formatted)
  else .badFormat ("unknown format `" ++ fmt' ++ "`; use json | ndjson | csv")

/-! ## What they should carry -/

/-- A result: its schema, and its rows in batches. -/
structure QueryResult (fmt : Formatters) where
  schema : List (RecordBatch.Field DataType)
  batches : List (Batch fmt.Value)
  conforms : ∀ b ∈ batches, b.schema = schema

namespace QueryResult

variable (t : QueryResult fmt)

def rows : List (Row fmt.toFormatters) := t.batches.flatMap batchRows

def names : List String := t.schema.map RecordBatch.Field.name

/-- The values of the first rows. -/
def kept (limit : ℕ) : List (List Json) :=
  (t.rows.take limit).map fun row => row.map (cellToJson fmt.toFormatters)

/-- The stream of a query that does not fail. -/
def stream (E : Type) : QueryStream fmt E := t.batches.map .ok

end QueryResult

/-- An object tells the value of each column by its name. -/
def Tells (names : List String) (object : Json) (row : List Json) : Prop :=
  ∀ (i : ℕ) name value, names[i]? = some name → row[i]? = some value → object.get? name = some value

/-- The three responses show the first rows: the objects of `json`, the lines of `ndjson`, and, when
there is a column, the records of `csv` behind a header. -/
structure Agrees (E : Type) (t : QueryResult fmt) (limit : ℕ) : Prop where
  objects : ∃ objects,
    (∃ body, streamResponse (t.stream E) limit (some "json") = .json body ∧
      body.get? "rows" = some (.arr objects)) ∧
    (∃ chunks : List String, streamResponse (t.stream E) limit (some "ndjson") =
        .ndjson (chunks.map .ok) ∧
      (chunks.flatMap String.toList).splitOn '\n' =
        objects.map (fun object => object.print.toList) ++ [[]]) ∧
    List.Forall₂ (Tells t.names) objects (t.kept limit)
  csv : t.schema ≠ [] → ∃ text, streamResponse (t.stream E) limit (some "csv") = .csv text ∧
    Csv.parse text.toList =
      some ((t.names :: (t.kept limit).map fun row => row.map csvCell).map
        fun record => record.map String.toList)

/-- The columns can be formatted or there is no row to show, columns of one name hold the same values
in the rows that are shown, and a batch brings the header. -/
structure Shows (t : QueryResult fmt) (limit : ℕ) : Prop where
  formattable : (∀ f ∈ t.schema, fmt.knows f.type = true) ∨ t.kept limit = []
  named : ∀ row ∈ t.kept limit, ∀ i j : ℕ, i < t.names.length → t.names[i]? = t.names[j]? →
    row[i]? = row[j]?
  headed : t.schema ≠ [] → t.batches ≠ [] ∨ t.names = [""]

/-! ## Formatting -/

namespace QueryResult

variable (t : QueryResult fmt)

lemma formattable_eq {b : Batch fmt.Value} (hb : b.schema = t.schema) :
    formattable b = true ↔ ∀ f ∈ t.schema, fmt.knows f.type = true := by
  have htypes : b.columns.map Column.type = t.schema.map RecordBatch.Field.type := by
    rw [b.types, hb]
  have hcolumns : formattable b = true ↔ ∀ ty ∈ b.columns.map Column.type, fmt.knows ty = true := by
    rw [formattable, List.all_eq_true, List.forall_mem_map]
  rw [hcolumns, htypes, List.forall_mem_map]

/-- Either all rows can be shown or none. -/
lemma shownRows_of_knows (h : ∀ f ∈ t.schema, fmt.knows f.type = true) :
    shownRows t.batches = t.rows := by
  have hall : t.batches.filter formattable = t.batches :=
    List.filter_eq_self.mpr fun b hb => (t.formattable_eq (t.conforms b hb)).mpr h
  rw [shownRows, hall, rows]

lemma shownRows_of_unknown (h : ¬ ∀ f ∈ t.schema, fmt.knows f.type = true) :
    shownRows t.batches = [] := by
  have hnone : t.batches.filter formattable = [] :=
    List.filter_eq_nil_iff.mpr fun b hb => fun hb' => h ((t.formattable_eq (t.conforms b hb)).mp hb')
  rw [shownRows, hnone, List.flatMap_nil]

/-- The values that the formatter shows. -/
def shown (limit : ℕ) : List (List Json) :=
  ((shownRows t.batches).take limit).map fun row => row.map (cellToJson fmt.toFormatters)

lemma shown_eq_kept_iff {limit : ℕ} : t.shown limit = t.kept limit ↔
    (∀ f ∈ t.schema, fmt.knows f.type = true) ∨ t.kept limit = [] := by
  unfold shown
  by_cases h : ∀ f ∈ t.schema, fmt.knows f.type = true
  · rw [t.shownRows_of_knows h]
    exact iff_of_true rfl (.inl h)
  · rw [t.shownRows_of_unknown h, List.take_nil, List.map_nil, or_iff_right h, eq_comm]

/-- The header of a result that comes in batches. -/
def header : List String := if t.batches = [] then [] else t.names

lemma formatBatches_columns (limit : ℕ) :
    (formatBatches t.batches limit).columns = t.header := by
  unfold formatBatches header
  rw [Mcp.batchLoop_eq t.batches (Nat.zero_le limit) rfl]
  cases hbatches : t.batches with
  | nil => rfl
  | cons b batches =>
      have hb : b.schema = t.schema := t.conforms b (by rw [hbatches]; exact List.mem_cons_self)
      show b.schema.map RecordBatch.Field.name = t.names
      rw [hb, names]

lemma formatBatches_rows (limit : ℕ) : (formatBatches t.batches limit).rows = t.shown limit := by
  rw [formatBatches_eq]
  rfl

/-- A row has a value for each column, and its batch brings the header. -/
lemma length_of_mem_rows {row : Row fmt.toFormatters} (h : row ∈ t.rows) :
    row.length = t.names.length ∧ t.header = t.names := by
  obtain ⟨b, hb, hrow⟩ := List.mem_flatMap.mp h
  obtain ⟨i, _, rfl⟩ := List.mem_map.mp hrow
  have hlength : b.columns.length = t.schema.length := by
    rw [← t.conforms b hb]
    simpa using congrArg List.length b.types
  refine ⟨by simp [names, hlength], ?_⟩
  rw [header, if_neg (List.ne_nil_of_mem hb)]

lemma mem_rows_of_shown {row : Row fmt.toFormatters} (h : row ∈ shownRows t.batches) :
    row ∈ t.rows := by
  obtain ⟨b, hb, hrow⟩ := List.mem_flatMap.mp h
  exact List.mem_flatMap.mpr ⟨b, (List.mem_filter.mp hb).1, hrow⟩

lemma length_of_mem_kept {limit : ℕ} {row : List Json} (h : row ∈ t.kept limit) :
    row.length = t.names.length ∧ t.header = t.names := by
  obtain ⟨cells, hcells, rfl⟩ := List.mem_map.mp h
  rw [List.length_map]
  exact t.length_of_mem_rows (List.mem_of_mem_take hcells)

lemma length_of_mem_shown {limit : ℕ} {row : List Json} (h : row ∈ t.shown limit) :
    row.length = t.names.length ∧ t.header = t.names := by
  obtain ⟨cells, hcells, rfl⟩ := List.mem_map.mp h
  rw [List.length_map]
  exact t.length_of_mem_rows (t.mem_rows_of_shown (List.mem_of_mem_take hcells))

lemma collect_stream : collect (t.stream E) = .ok t.batches := by
  unfold stream
  induction t.batches with
  | nil => rfl
  | cons b batches ih =>
      rw [List.map_cons, collect, ih]
      rfl

end QueryResult

/-! ## Objects -/

lemma lookup_extendFields (fields l : List (String × Json)) (k : String) :
    (k ∉ l.map Prod.fst ∧ (Json.extendFields fields l).lookup k = fields.lookup k) ∨
      ∃ v, (k, v) ∈ l ∧ (Json.extendFields fields l).lookup k = some v := by
  induction l generalizing fields with
  | nil => exact .inl ⟨by simp, rfl⟩
  | cons e l ih =>
      have hcons : Json.extendFields fields (e :: l) =
          Json.extendFields (OrderedMap.insertEntry e.1 e.2 fields) l := rfl
      rw [hcons]
      rcases ih (OrderedMap.insertEntry e.1 e.2 fields) with ⟨hmem, hget⟩ | ⟨v, hv, hget⟩
      · rw [OrderedMap.lookup_insertEntry] at hget
        by_cases hk : k = e.1
        · rw [if_pos hk] at hget
          exact .inr ⟨e.2, hk ▸ List.mem_cons_self, hget⟩
        · rw [if_neg hk] at hget
          exact .inl ⟨by simp [hk, hmem], hget⟩
      · exact .inr ⟨v, List.mem_cons_of_mem _ hv, hget⟩

/-- The object of a row tells the values exactly when columns of one name hold the same. -/
lemma tells_rowObject_iff {names : List String} {row : List Json}
    (hlength : row.length = names.length) :
    Tells names (rowObject names row) row ↔
      ∀ i j : ℕ, i < names.length → names[i]? = names[j]? → row[i]? = row[j]? := by
  have hget : ∀ name, (rowObject names row).get? name =
      (Json.extendFields [] (names.zip row)).lookup name := fun _ => rfl
  constructor
  · intro htells i j hi hsame
    have hj : j < names.length := by
      by_contra hj
      rw [List.getElem?_eq_none (not_lt.mp hj), List.getElem?_eq_getElem hi] at hsame
      simp at hsame
    have hi' : i < row.length := by omega
    have hj' : j < row.length := by omega
    have hvalue := htells i names[i] row[i] (List.getElem?_eq_getElem hi)
      (List.getElem?_eq_getElem hi')
    have hvalue' := htells j names[j] row[j] (List.getElem?_eq_getElem hj)
      (List.getElem?_eq_getElem hj')
    rw [List.getElem?_eq_getElem hi, List.getElem?_eq_getElem hj, Option.some.injEq] at hsame
    rw [hsame] at hvalue
    rw [List.getElem?_eq_getElem hi', List.getElem?_eq_getElem hj', ← hvalue, hvalue']
  · intro hnamed i name value hname hvalue
    rw [hget]
    have hentry : (name, value) ∈ names.zip row := by
      refine List.mem_of_getElem? (i := i) ?_
      simp [List.getElem?_zip_eq_some, hname, hvalue]
    rcases lookup_extendFields [] (names.zip row) name with ⟨hmem, _⟩ | ⟨v, hv, hlookup⟩
    · exact absurd (List.mem_map.mpr ⟨_, hentry, rfl⟩) hmem
    · obtain ⟨j, hj⟩ := List.mem_iff_getElem?.mp hv
      obtain ⟨hjname, hjvalue⟩ := List.getElem?_zip_eq_some.mp hj
      have hi : i < names.length := (List.getElem?_eq_some_iff.mp hname).1
      have hsame := hnamed i j hi (by rw [hname, hjname])
      rw [hvalue, hjvalue, Option.some.injEq] at hsame
      rw [hlookup, hsame]

/-! ## Lines -/

/-- The lines of a text whose lines all end. -/
lemma splitOn_lines {lines : List (List Char)} (h : ∀ line ∈ lines, '\n' ∉ line) :
    (lines.flatMap fun line => line ++ ['\n']).splitOn '\n' = lines ++ [[]] := by
  induction lines with
  | nil => rfl
  | cons line lines ih =>
      obtain ⟨hline, hlines⟩ := List.forall_mem_cons.mp h
      rw [List.flatMap_cons, List.append_assoc, List.singleton_append,
        List.splitOn_append_cons_self, ih hlines, List.splitOn_eq_singleton hline]
      rfl

lemma newline_notMem_escapeChar (c : Char) : '\n' ∉ Json.escapeChar c := by
  have hhex : ∀ n < 16, '\n' ≠ Json.hexDigit n := by decide
  unfold Json.escapeChar
  split_ifs with h₁ h₂ h₃ h₄ h₅ h₆ h₇ h₈
  · decide
  · decide
  · decide
  · decide
  · decide
  · decide
  · decide
  · have hhigh := hhex (c.toNat / 16) (by omega)
    have hlow := hhex (c.toNat % 16) (by omega)
    simp [hhigh, hlow]
  · simpa using Ne.symm h₅

lemma newline_notMem_printString (s : String) : '\n' ∉ (Json.printString s).toList := by
  intro h
  simp only [Json.printString, String.toList_append, String.toList_ofList, List.mem_append,
    List.mem_flatMap] at h
  rcases h with (h | ⟨c, _, hc⟩) | h
  · simp at h
  · exact newline_notMem_escapeChar c hc
  · simp at h

/-- A character of a joined text is one of the separator or of a part. -/
lemma of_mem_join {c : Char} {sep : String} {parts : List String}
    (h : c ∈ (Text.join sep parts).toList) : c ∈ sep.toList ∨ ∃ part ∈ parts, c ∈ part.toList := by
  induction parts with
  | nil => simp at h
  | cons part parts ih =>
      by_cases hparts : parts = []
      · rw [hparts, Text.join_singleton] at h
        exact .inr ⟨part, List.mem_cons_self, h⟩
      · rw [Text.join_cons sep part hparts] at h
        simp only [String.toList_append, List.mem_append] at h
        rcases h with (h | h) | h
        · exact .inr ⟨part, List.mem_cons_self, h⟩
        · exact .inl h
        · rcases ih h with hsep | ⟨part', hmem, hc⟩
          · exact .inl hsep
          · exact .inr ⟨part', List.mem_cons_of_mem _ hmem, hc⟩

lemma newline_notMem_number {text : String} (h : isNumber text.toList = true) :
    '\n' ∉ text.toList := by
  intro hmem
  have hchar := isNumber_chars h _ hmem
  revert hchar
  decide

lemma newline_notMem_nat (n : ℕ) : '\n' ∉ (toString n).toList := by
  intro h
  have hdigits := Text.isDigits_toString n
  rw [Text.isDigits, Bool.and_eq_true, List.all_eq_true] at hdigits
  exact absurd (hdigits.2 _ h) (by decide)

lemma newline_notMem_int (n : ℤ) : '\n' ∉ (toString n).toList := by
  rcases n with n | n
  · exact newline_notMem_nat n
  · show '\n' ∉ ("-" ++ toString (n + 1)).toList
    rw [String.toList_append, List.mem_append, not_or]
    exact ⟨by decide, newline_notMem_nat (n + 1)⟩

/-- The formatter writes a cell on one line. -/
lemma newline_notMem_cell (c : Mcp.Cell fmt.toFormatters) :
    '\n' ∉ (cellToJson fmt.toFormatters c).print.toList := by
  have hfloat : ∀ x, '\n' ∉ (Mcp.f64Cell fmt.toFormatters x).print.toList := by
    intro x
    unfold Mcp.f64Cell
    split
    · rename_i text htext
      exact newline_notMem_number (fmt.number x text htext)
    · exact newline_notMem_printString _
  obtain ⟨ty, _ | value⟩ := c
  · show '\n' ∉ "null".toList
    decide
  · cases ty with
    | boolean =>
        obtain _ | _ : Bool := value
        · show '\n' ∉ "false".toList
          decide
        · show '\n' ∉ "true".toList
          decide
    | int bits => exact newline_notMem_int value
    | uint bits => exact newline_notMem_nat value
    | float32 => exact hfloat (fmt.widen value)
    | float64 => exact hfloat value
    | other name => exact newline_notMem_printString _

lemma mem_printFields {fields : List (String × Json)} {part : String}
    (h : part ∈ Json.printFields fields) :
    ∃ e ∈ fields, part = Json.printString e.1 ++ ":" ++ e.2.print := by
  induction fields with
  | nil => simp [Json.printFields] at h
  | cons e fields ih =>
      obtain ⟨k, v⟩ := e
      rw [Json.printFields, List.mem_cons] at h
      rcases h with h | h
      · exact ⟨(k, v), List.mem_cons_self, h⟩
      · obtain ⟨e, he, hpart⟩ := ih h
        exact ⟨e, List.mem_cons_of_mem _ he, hpart⟩

lemma newline_notMem_rowObject {columns : List String} {row : List Json}
    (h : ∀ v ∈ row, '\n' ∉ v.print.toList) : '\n' ∉ (rowObject columns row).print.toList := by
  intro hmem
  rw [rowObject, Json.print, String.toList_append, String.toList_append, List.mem_append,
    List.mem_append] at hmem
  rcases hmem with (hmem | hmem) | hmem
  · revert hmem
    decide
  · rcases of_mem_join hmem with hmem | ⟨part, hpart, hmem⟩
    · revert hmem
      decide
    · obtain ⟨e, he, rfl⟩ := mem_printFields hpart
      have hvalue : e.2 ∈ row := (List.of_mem_zip ((Json.mem_of_mem_extendFields he).resolve_left List.not_mem_nil)).2
      rw [String.toList_append, String.toList_append, List.mem_append, List.mem_append] at hmem
      rcases hmem with (hmem | hmem) | hmem
      · exact newline_notMem_printString _ hmem
      · revert hmem
        decide
      · exact h e.2 hvalue hmem
  · revert hmem
    decide

/-! ## The stream of lines -/

/-- The lines of some rows, as text. -/
def lineText (columns : List String) (rows : List (List Json)) : List Char :=
  rows.flatMap fun row => (rowObject columns row).print.toList ++ ['\n']

lemma shownRows_cons (b : Batch fmt.Value) (batches : List (Batch fmt.Value)) :
    shownRows (b :: batches) = shownRows [b] ++ shownRows batches := by
  rw [shownRows, shownRows, shownRows, ← List.flatMap_append, ← List.filter_append,
    List.singleton_append]

/-- Batch by batch, the lines of the first rows come out. -/
lemma ndjsonStream_eq (schema : List (RecordBatch.Field DataType))
    (batches : List (Batch fmt.Value)) (hconforms : ∀ b ∈ batches, b.schema = schema)
    (remaining : ℕ) :
    ∃ chunks : List String,
      ndjsonStream (batches.map (Except.ok : _ → Except E (Batch fmt.Value))) remaining =
        chunks.map .ok ∧
      chunks.flatMap String.toList = lineText (schema.map RecordBatch.Field.name)
        (((shownRows batches).take remaining).map fun row =>
          row.map (cellToJson fmt.toFormatters)) := by
  induction batches generalizing remaining with
  | nil => exact ⟨[], rfl, by simp [shownRows, lineText]⟩
  | cons b batches ih =>
      obtain ⟨hb, hbatches⟩ := List.forall_mem_cons.mp hconforms
      rw [List.map_cons, ndjsonStream]
      by_cases hremaining : remaining = 0
      · exact ⟨[], by rw [if_pos hremaining]; rfl, by simp [hremaining, lineText]⟩
      · obtain ⟨chunks, hchunks, htext⟩ :=
          ih hbatches (remaining - (formatBatches [b] remaining).total)
        let one : QueryResult fmt := ⟨schema, [b], by simpa using hb⟩
        have hcolumns : (formatBatches [b] remaining).columns =
            schema.map RecordBatch.Field.name := one.formatBatches_columns remaining
        have hrows := one.formatBatches_rows remaining
        have htotal : remaining - (formatBatches [b] remaining).total =
            remaining - (shownRows [b]).length := by
          rw [formatBatches_eq]
          dsimp only
          omega
        rw [if_neg hremaining]
        dsimp only
        rw [hchunks]
        let buf := ndjsonLines (formatBatches [b] remaining).columns
          (formatBatches [b] remaining).rows
        refine ⟨(if buf = "" then [] else [buf]) ++ chunks, ?_, ?_⟩
        · rw [List.map_append]
          congr 1
          split_ifs <;> rfl
        · have hbuf : (if buf = "" then [] else [buf]).flatMap String.toList = buf.toList := by
            split_ifs with hempty
            · rw [hempty]
              rfl
            · simp
          have hlines : buf.toList = lineText (schema.map RecordBatch.Field.name)
              (one.shown remaining) := by
            show (ndjsonLines _ _).toList = _
            rw [hcolumns, hrows, ndjsonLines, String.toList_ofList]
            rfl
          rw [List.flatMap_append, hbuf, hlines, htext, htotal, shownRows_cons b batches, List.take_append,
            List.map_append, lineText, lineText, lineText, List.flatMap_append]
          rfl

/-! ## The csv text -/

/-- The text of a cell is that of the format. -/
lemma csv_writeCell (cell : String) :
    (if cell.toList.any fun c => ['"', ',', '\n', '\r'].contains c then
      '"' :: (Text.replaceChar '"' "\"\"" cell).toList ++ ['"'] else cell.toList) =
      Csv.writeCell cell.toList := by
  have hspecial : (fun c => ['"', ',', '\n', '\r'].contains c) = Csv.isSpecial := by
    funext c
    simp [Csv.isSpecial, Bool.or_assoc]
  rw [hspecial, Csv.writeCell, Text.replaceChar, String.toList_ofList]
  rfl

lemma pushCells_false (cells : List String) :
    pushCells false cells ++ ['\n'] =
      if cells = [] then ['\n'] else ',' :: Csv.writeRow (cells.map String.toList) := by
  induction cells with
  | nil => rfl
  | cons cell cells ih =>
      rw [pushCells, csv_writeCell, List.append_assoc, ih, if_neg (List.cons_ne_nil _ _)]
      cases cells with
      | nil => rfl
      | cons cell' cells => rfl

/-- A record is written as the format has it. -/
lemma pushCsvRow_eq (cells : List String) :
    pushCsvRow cells = Csv.writeRow (cells.map String.toList) := by
  cases cells with
  | nil => rfl
  | cons cell cells =>
      rw [pushCsvRow, pushCells, csv_writeCell, List.append_assoc, pushCells_false]
      cases cells with
      | nil => rfl
      | cons cell' cells => rfl

/-- The records of a csv text, as their cells are rendered. -/
def records (columns : List String) (rows : List (List Json)) : List (List String) :=
  columns :: rows.map fun row => row.map csvCell

lemma rowsToCsv_eq (columns : List String) (rows : List (List Json)) :
    (rowsToCsv columns rows).toList =
      Csv.write ((records columns rows).map fun record => record.map String.toList) := by
  simp only [rowsToCsv, String.toList_ofList, pushCsvRow_eq, Csv.write, records,
    List.map_cons, List.flatMap_cons, List.map_map, List.flatMap_map, Function.comp_def]

/-- A csv text reads as its header and its rows, which have cells. -/
lemma parse_rowsToCsv {columns : List String} {rows : List (List Json)} (hcolumns : columns ≠ [])
    (hrows : ∀ row ∈ rows, row ≠ []) :
    Csv.parse (rowsToCsv columns rows).toList =
      some ((records columns rows).map fun record => record.map String.toList) := by
  rw [rowsToCsv_eq]
  refine Csv.parse_write fun record hrecord => ?_
  obtain ⟨cells, hcells, rfl⟩ := List.mem_map.mp hrecord
  rcases List.mem_cons.mp hcells with rfl | hcells
  · simpa using hcolumns
  · obtain ⟨row, hrow, rfl⟩ := List.mem_map.mp hcells
    simpa using hrows row hrow

/-! ## Agreement -/

namespace QueryResult

variable (t : QueryResult fmt) (limit : ℕ)

/-- The objects of the rows that are shown. -/
def shownObjects : List Json := (t.shown limit).map (rowObject t.header)

lemma json_response :
    streamResponse (t.stream E) limit (some "json") =
      .json (jsonBody (formatBatches t.batches limit)) := by
  show (match collect (t.stream E) with
    | .error e => Response.engineError e
    | .ok batches => _) = _
  rw [t.collect_stream]
  rfl

lemma jsonBody_rows :
    (jsonBody (formatBatches t.batches limit)).get? "rows" =
      some (.arr (t.shownObjects limit)) := by
  rw [jsonBody, t.formatBatches_columns, t.formatBatches_rows]
  rfl

lemma csv_response :
    streamResponse (t.stream E) limit (some "csv") = .csv (rowsToCsv t.header (t.shown limit)) := by
  rw [← t.formatBatches_columns limit, ← t.formatBatches_rows]
  show (match collect (t.stream E) with
    | .error e => Response.engineError e
    | .ok batches => _) = _
  rw [t.collect_stream]
  rfl

/-- The lines of `ndjson` are the objects of `json`. -/
lemma ndjson_response :
    ∃ chunks : List String,
      streamResponse (t.stream E) limit (some "ndjson") = .ndjson (chunks.map .ok) ∧
        (chunks.flatMap String.toList).splitOn '\n' =
          (t.shownObjects limit).map (fun object => object.print.toList) ++ [[]] := by
  obtain ⟨chunks, hchunks, htext⟩ := @ndjsonStream_eq fmt E t.schema t.batches t.conforms limit
  refine ⟨chunks, congrArg Response.ndjson hchunks, ?_⟩
  have hlines : lineText t.names (t.shown limit) =
      ((t.shownObjects limit).map fun object => object.print.toList).flatMap
        fun line => line ++ ['\n'] := by
    rw [lineText, shownObjects, List.flatMap_map, List.flatMap_map]
    refine List.flatMap_congr fun row hrow => ?_
    rw [(t.length_of_mem_shown hrow).2]
  rw [htext]
  refine (congrArg (List.splitOn '\n') hlines).trans (splitOn_lines fun line hline => ?_)
  simp only [shownObjects, shown, List.map_map, List.mem_map, Function.comp] at hline
  obtain ⟨row, _, rfl⟩ := hline
  refine newline_notMem_rowObject fun v hv => ?_
  obtain ⟨cell, _, rfl⟩ := List.mem_map.mp hv
  exact newline_notMem_cell cell

/-- Without a batch the csv text is an empty line. -/
lemma parse_of_noBatches (h : t.batches = []) :
    t.kept limit = [] ∧ Csv.parse (rowsToCsv t.header (t.shown limit)).toList = some [[[]]] := by
  have hrows : t.rows = [] := by rw [rows, h, List.flatMap_nil]
  have hshown : t.shown limit = [] := by
    rw [shown, h, shownRows, List.filter_nil, List.flatMap_nil, List.take_nil, List.map_nil]
  refine ⟨by rw [kept, hrows, List.take_nil, List.map_nil], ?_⟩
  rw [header, if_pos h, hshown, rowsToCsv_eq]
  decide

/-- The objects tell the values of the rows exactly when columns of one name hold the same. -/
lemma tells_iff : List.Forall₂ (Tells t.names) ((t.kept limit).map (rowObject t.header))
    (t.kept limit) ↔ ∀ row ∈ t.kept limit, ∀ i j : ℕ, i < t.names.length →
      t.names[i]? = t.names[j]? → row[i]? = row[j]? := by
  rw [List.forall₂_map_left_iff, List.forall₂_same]
  refine forall₂_congr fun row hrow => ?_
  obtain ⟨hlength, hheader⟩ := t.length_of_mem_kept hrow
  rw [hheader]
  exact tells_rowObject_iff hlength

end QueryResult

/-- **The formats agree** exactly when they show the rows, name the values and have a header. -/
theorem agrees_iff (E : Type) (t : QueryResult fmt) (limit : ℕ) :
    Agrees E t limit ↔ Shows t limit := by
  constructor
  · rintro ⟨⟨objects, ⟨body, hjson, hrows⟩, _, htells⟩, hcsv⟩
    rw [t.json_response limit] at hjson
    cases hjson
    rw [t.jsonBody_rows] at hrows
    cases hrows
    have hlength : (t.shown limit).length = (t.kept limit).length := by
      simpa [QueryResult.shownObjects] using htells.length_eq
    have hformattable : (∀ f ∈ t.schema, fmt.knows f.type = true) ∨ t.kept limit = [] := by
      by_cases hknows : ∀ f ∈ t.schema, fmt.knows f.type = true
      · exact .inl hknows
      · rw [QueryResult.shown, t.shownRows_of_unknown hknows, List.take_nil] at hlength
        exact .inr (List.length_eq_zero_iff.mp hlength.symm)
    refine ⟨hformattable, ?_, fun hschema => ?_⟩
    · rw [QueryResult.shownObjects, t.shown_eq_kept_iff.mpr hformattable] at htells
      exact (t.tells_iff limit).mp htells
    · by_cases hbatches : t.batches = []
      · obtain ⟨hkept, hempty⟩ := t.parse_of_noBatches limit hbatches
        obtain ⟨text, htext, hparse⟩ := hcsv hschema
        rw [t.csv_response] at htext
        cases htext
        rw [hempty, hkept] at hparse
        have hheader : t.names.map String.toList = [""].map String.toList := by
          simpa using hparse.symm
        refine .inr (List.map_injective_iff.mpr (fun a b h => String.toList_inj.mp h) hheader)
      · exact .inl hbatches
  · rintro ⟨hformattable, hnamed, hheaded⟩
    have hshown : t.shown limit = t.kept limit := t.shown_eq_kept_iff.mpr hformattable
    refine ⟨⟨t.shownObjects limit, ⟨_, t.json_response limit, t.jsonBody_rows limit⟩,
      t.ndjson_response limit, ?_⟩, fun hschema => ⟨_, t.csv_response limit, ?_⟩⟩
    · rw [QueryResult.shownObjects, hshown]
      exact (t.tells_iff limit).mpr hnamed
    · have hnames : t.names ≠ [] := by simpa [QueryResult.names] using hschema
      by_cases hbatches : t.batches = []
      · obtain ⟨hkept, hempty⟩ := t.parse_of_noBatches limit hbatches
        rw [hempty, hkept, (hheaded hschema).resolve_left (not_not.mpr hbatches)]
        rfl
      · have hheader : t.header = t.names := if_neg hbatches
        rw [hheader, hshown]
        refine parse_rowsToCsv hnames fun row hrow => ?_
        rw [← List.length_pos_iff, (t.length_of_mem_kept hrow).1, List.length_pos_iff]
        exact hnames

/-- `SELECT 1 AS a, 2 AS a`: an object has one value under `a`. -/
theorem repeatedName_loses_value :
    let fmt : Formatters :=
      { F32 := Empty
        F64 := Empty
        Other := fun _ => Empty
        widen := id
        fromF64 := Empty.elim
        displayFloat := Empty.elim
        displayOther := fun _ => Empty.elim
        knows := fun _ => true
        number := fun x => x.elim }
    let fields : List (RecordBatch.Field DataType) := [⟨"a", .int 64⟩, ⟨"a", .int 64⟩]
    let cell (n : ℤ) : Column fmt.Value := ⟨.int 64, [some n]⟩
    let batch : Batch fmt.Value :=
      { schema := fields
        columns := [cell 1, cell 2]
        numRows := 1
        types := rfl
        lengths := by simp [cell] }
    ¬ Agrees Unit (⟨fields, [batch], by simp [batch]⟩ : QueryResult fmt) 1000 := by
  intro fmt fields cell batch hagrees
  obtain ⟨objects, _, _, htells⟩ := hagrees.objects
  have hkept : (⟨fields, [batch], by simp [batch]⟩ : QueryResult fmt).kept 1000 =
      [[.num "1", .num "2"]] := by decide
  rw [hkept] at htells
  obtain ⟨object, _, hobject, _, _⟩ := List.forall₂_cons_right_iff.mp htells
  have hfirst := hobject 0 "a" (.num "1") rfl rfl
  have hsecond := hobject 1 "a" (.num "2") rfl rfl
  rw [hfirst] at hsecond
  revert hsecond
  decide

end Rest
end Server
end Pawrly
