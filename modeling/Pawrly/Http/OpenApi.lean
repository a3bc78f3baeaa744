import Pawrly.Http.Columns
import Mathlib.Data.Prod.Lex
import Mathlib.Data.List.Sort

/-!
# Tables from an OpenAPI document

`synthesize`: each GET operation of a document becomes a table, with the parameters of its path and
query, the columns of its success response and a pagination inferred from the names of both.
-/

namespace Pawrly
namespace Http
namespace OpenApi

/-! ## JSON Schema -/

def asObject? : Json → Option (List (String × Json))
  | .obj fields => some fields
  | _ => none

/-- The field, when it is a string. -/
def strField (v : Json) (key : String) : Option String := (v.get? key).bind Json.asStr?

/-- `schema_type`. -/
def schemaType (schema : Json) : Option String :=
  match schema.get? "type" with
  | some (.str s) => some s
  | some (.arr items) => (items.filterMap Json.asStr?).find? fun s => s ≠ "null"
  | _ => none

/-- `is_object`. -/
def isObject (schema : Json) : Bool :=
  match schemaType schema with
  | some t => t = "object"
  | none => (schema.get? "properties").isSome

def intType (schema : Json) : String :=
  if strField schema "format" = some "int32" then "int" else "bigint"

def numberType (schema : Json) : String :=
  if strField schema "format" = some "float" then "float" else "double"

/-- `column_type`. -/
def columnType (schema : Json) : String :=
  match schemaType schema with
  | some "integer" => intType schema
  | some "number" => numberType schema
  | some "boolean" => "bool"
  | some "string" =>
      match strField schema "format" with
      | some "date" => "date"
      | some "date-time" => "timestamp"
      | _ => "varchar"
  | _ => "json"

/-- `param_type`. -/
def paramType (schema : Json) : String :=
  match schemaType schema with
  | some "integer" => intType schema
  | some "number" => numberType schema
  | some "boolean" => "bool"
  | _ => "varchar"

/-- The index of a pointer token: without a sign or leading zeros. -/
def pointerIndex (token : String) : Option ℕ :=
  if token.toList.head? = some '+' then none
  else if token.toList.head? = some '0' && token.length ≠ 1 then none
  else Text.parseUnsigned (2 ^ 64 - 1) token

/-- One token of a JSON pointer. -/
def pointerStep (target : Json) (token : String) : Option Json :=
  match target with
  | .obj fields => fields.lookup token
  | .arr items => (pointerIndex token).bind fun i => items[i]?
  | _ => none

/-- `doc.pointer(pointer)`. -/
def pointer (doc : Json) (text : String) : Option Json :=
  if text = "" then some doc
  else if text.toList.head? = some '/' then
    (((Text.split '/' text).drop 1).map fun token =>
      Text.replace "~0" "~" (Text.replace "~1" "/" token)).foldlM pointerStep doc
  else none

/-- The loop of `deref`, with the references that may still be followed. -/
def derefLoop (doc : Json) : ℕ → Json → Json
  | 0, current => current
  | left + 1, current =>
      match ((strField current "$ref").bind (Text.stripPrefix "#")).bind (pointer doc) with
      | some target => derefLoop doc left target
      | none => current

def deref (doc value : Json) : Json := derefLoop doc 32 value

def isMetadataField (name : String) : Bool :=
  ["total_count", "incomplete_results", "has_more", "next", "previous"].contains name

def isArraySchema (schema : Json) : Bool := schemaType schema = some "array"

/-- `rows_array`: the property that holds the rows, and its schema. -/
def rowsArray (doc : Json) (props : List (String × Json)) : Option (String × Json) :=
  let named := ["items", "data", "results", "rows"].filterMap fun name =>
    (props.lookup name).map fun prop => (name, deref doc prop)
  match named.find? fun e => isArraySchema e.2 with
  | some e => some e
  | none =>
      match props.filter fun e => !isMetadataField e.1 && isArraySchema (deref doc e.2) with
      | [(name, prop)] => some (name, deref doc prop)
      | _ => none

/-! ## Diagnostics and options -/

structure Diagnostic where
  code : String
  message : String
  table : Option String

/-- Which operations become tables. -/
structure Selector where
  tags : List String := []
  paths : List String := []
  operations : List String := []

inductive Naming
  | operationId
  | path
  | tag

structure SynthOptions where
  include_ : Selector := {}
  exclude : Selector := {}
  naming : Naming := .operationId

inductive SynthError
  | missingVersion
  | unsupportedVersion (version : String)
  | missingPaths

/-- A table with its columns. -/
structure SynthTable where
  spec : HttpTableSpec
  schema : List ResponseColumn
  description : Option String

structure Synthesis where
  baseUrl : Option String := none
  tables : List SynthTable := []
  diagnostics : List Diagnostic := []

/-! ## Selecting operations -/

/-- The text behind the first match of a pattern. -/
def afterFirst (pat : List Char) : List Char → Option (List Char)
  | [] => if pat.isEmpty then some [] else none
  | c :: cs =>
      if pat.isPrefixOf (c :: cs) then some ((c :: cs).drop pat.length) else afterFirst pat cs

/-- The parts between the stars of a pattern, one after the other. -/
def globParts : Bool → List String → List Char → Bool
  | _, [], _ => true
  | first, part :: parts, text =>
      let chars := part.toList
      if chars.isEmpty then globParts false parts text
      else if first then chars.isPrefixOf text && globParts false parts (text.drop chars.length)
      else if parts.isEmpty then chars.isSuffixOf text
      else
        match afterFirst chars text with
        | some rest => globParts false parts rest
        | none => false

/-- `glob_match`. -/
def globMatch (pattern text : String) : Bool :=
  if Text.hasChar '*' pattern then globParts true (Text.split '*' pattern) text.toList
  else pattern = text

def operationId (op : Json) : Option String := strField op "operationId"

def Selector.isEmpty (s : Selector) : Bool :=
  s.tags.isEmpty && s.paths.isEmpty && s.operations.isEmpty

def Selector.matches (s : Selector) (path : String) (op : Json) : Bool :=
  s.operations.any (fun id => operationId op = some id) ||
    s.paths.any (fun glob => globMatch glob path) ||
    s.tags.any fun want =>
      ((op.get? "tags").bind Json.asArray?).any fun tags =>
        (tags.filterMap Json.asStr?).contains want

/-- The operation is selected. -/
def SynthOptions.includes (opts : SynthOptions) (path : String) (op : Json) : Bool :=
  (opts.include_.isEmpty || opts.include_.matches path op) &&
    !(!opts.exclude.isEmpty && opts.exclude.matches path op)

/-! ## Names of tables -/

/-- One character of `to_snake`: the text so far, and whether it ends in a lower-case letter or a
digit. -/
def snakeStep (st : List Char × Bool) (ch : Char) : List Char × Bool :=
  if ch.isAlphanum then
    (st.1 ++ (if ch.isUpper && st.2 then ['_'] else []) ++ [ch.toLower], ch.isLower || ch.isDigit)
  else (if st.1.getLast? = some '_' then st.1 else st.1 ++ ['_'], false)

def toSnake (raw : String) : String :=
  Text.trimChars ['_'] (String.ofList (raw.toList.foldl snakeStep ([], false)).1)

/-- The segments of a path that are not parameters. -/
def plainSegments (path : String) : List String :=
  (Text.split '/' path).filter fun s => s ≠ "" && s.toList.head? ≠ some '\x7b'

def pathName (path : String) : String :=
  Text.join "_" (((plainSegments path).map toSnake).filter (· ≠ ""))

def pathLeaf (path : String) : String := ((plainSegments path).getLast?.map toSnake).getD ""

/-- `table_name`. -/
def tableName (op : Json) (path : String) (naming : Naming) : String :=
  let raw :=
    match naming with
    | .operationId => (((operationId op).map toSnake).filter (· ≠ "")).getD (pathName path)
    | .path => pathName path
    | .tag =>
        let tag := ((((op.get? "tags").bind Json.asArray?).bind List.head?).bind Json.asStr?).map
          toSnake
        match tag.filter (· ≠ "") with
        | some tag => tag ++ "_" ++ pathLeaf path
        | none => pathName path
  if raw = "" then "table" else raw

/-- The names that are tried when the base is taken. -/
def nameCandidate (base : String) (n : ℕ) : String := base ++ "_" ++ toString n

/-- `unique_name`.  Of one more candidate than there are taken names, one is free. -/
def uniqueName (base : String) (taken : List String) : String :=
  if taken.contains base then
    ((((List.range (taken.length + 1)).map fun n => nameCandidate base (n + 2)).find? fun name =>
      !taken.contains name)).getD base
  else base

/-! ## Parameters -/

/-- Where a parameter is, and its name. -/
abbrev ParamKey := String ×ₗ String

/-- `scalar_to_string`. -/
def scalarToString : Json → String
  | .str s => s
  | other => other.print

/-- The place, the name and the declaration of a parameter that is pushed down, or what is wrong
with it. -/
def readParam (doc : Json) (table : String) (param : Json) :
    Except (Option Diagnostic) (ParamKey × Json) :=
  let resolved := deref doc param
  match asObject? resolved with
  | none => .error (some ⟨"OPENAPI_PARAM_INVALID", "parameter is not an object", some table⟩)
  | some fields =>
      match strField (.obj fields) "name" with
      | none => .error (some ⟨"OPENAPI_PARAM_INVALID", "parameter has no name", some table⟩)
      | some name =>
          match strField (.obj fields) "in" with
          | none => .error none
          | some location =>
              if location ≠ "path" ∧ location ≠ "query" then
                .error (some ⟨"OPENAPI_PARAM_LOCATION_SKIPPED",
                  "`" ++ location ++ "` parameter `" ++ name ++ "` is not pushed down", some table⟩)
              else .ok (toLex (location, name), resolved)

/-- The elements of an array, if it is one. -/
def items (v : Option Json) : List Json := (v.bind Json.asArray?).getD []

/-- The parameters of a path and of its operation. -/
def declaredParams (pathLevel : Option Json) (op : Json) : List Json :=
  items pathLevel ++ items (op.get? "parameters")

/-- The parameters by place and name; a later one replaces an earlier one. -/
def mergeParams (doc : Json) (table : String) (params : List Json) : OrderedMap ParamKey Json :=
  params.foldl (fun merged param =>
    match readParam doc table param with
    | .ok (key, resolved) => merged.insert key resolved
    | .error _ => merged) .empty

def paramDiagnostics (doc : Json) (table : String) (params : List Json) : List Diagnostic :=
  params.filterMap fun param =>
    match readParam doc table param with
    | .ok _ => none
    | .error d => d

def paramSpec (doc : Json) (key : ParamKey) (param : Json) : ParamSpec :=
  let schema := (param.get? "schema").map (deref doc)
  { name := (ofLex key).2
    type := (schema.map paramType).getD "varchar"
    required := (ofLex key).1 = "path" || ((param.get? "required").bind Json.asBool?).getD false
    default := (schema.bind fun s => s.get? "default").map scalarToString }

/-- `build_params`. -/
def buildParams (doc : Json) (pathLevel : Option Json) (op : Json) (table : String) :
    List ParamSpec × List Diagnostic :=
  let params := declaredParams pathLevel op
  ((mergeParams doc table params).entries.map fun e => paramSpec doc e.1 e.2,
    paramDiagnostics doc table params)

/-! ## Responses -/

def jsonColumn (name : String) : ResponseColumn := { name := name, type := "json" }

/-- `object_columns`. -/
def objectColumns (doc schema : Json) (table : String) : List ResponseColumn × List Diagnostic :=
  match (schema.get? "properties").bind asObject? with
  | none =>
      ([jsonColumn "value"], [⟨"OPENAPI_ROW_SCHEMA_OPAQUE",
        "row schema declares no properties (e.g. polymorphic anyOf); exposing a single json column",
        some table⟩])
  | some props =>
      ((props.map fun e => ({ name := e.1, type := columnType (deref doc e.2) } : ResponseColumn)).mergeSort
        (fun a b => decide (a.name ≤ b.name)), [])

/-- The row schema of an array schema. -/
def itemSchema (doc array : Json) : Json := ((array.get? "items").map (deref doc)).getD .null

/-- `classify`: the rows path and the columns of a response schema. -/
def classify (doc schema : Json) (table : String) :
    String × List ResponseColumn × List Diagnostic :=
  if isArraySchema schema then ("$", objectColumns doc (itemSchema doc schema) table)
  else if isObject schema then
    match ((schema.get? "properties").bind asObject?).bind (rowsArray doc) with
    | some (prop, array) => ("$." ++ prop, objectColumns doc (itemSchema doc array) table)
    | none => ("$", objectColumns doc schema table)
  else
    ("$", [jsonColumn "value"], [⟨"OPENAPI_RESPONSE_UNCLASSIFIED",
      "response schema is neither array nor object; exposing a single json column", some table⟩])

/-- The schema of the JSON content of a response. -/
def jsonSchema (doc response : Json) : Option Json :=
  (((deref doc response).get? "content").bind fun c => c.get? "application/json").bind fun j =>
    j.get? "schema"

def parseStatus : String → Option ℕ := Text.parseUnsigned 65535

/-- The first entry with the lowest code. -/
def lowest : List (ℕ × Json) → Option (ℕ × Json)
  | [] => none
  | e :: es =>
      match lowest es with
      | some best => if best.1 < e.1 then some best else some e
      | none => some e

/-- `success_schema`. -/
def successSchema (doc op : Json) : Option Json :=
  ((op.get? "responses").bind asObject?).bind fun responses =>
    let schemas := responses.filterMap fun e => (jsonSchema doc e.2).map fun s => (e.1, s)
    let numeric := schemas.filterMap fun e =>
      ((parseStatus e.1).filter fun code => 200 ≤ code && code < 300).map fun code => (code, e.2)
    let range := schemas.filter fun e => (parseStatus e.1).isNone && e.1.toLower = "2xx"
    (((numeric.find? fun e => e.1 = 200).or (lowest numeric)).map Prod.snd).or
      (range.getLast?.map Prod.snd)

/-- `build_response`. -/
def buildResponse (doc op : Json) (table : String) :
    String × List ResponseColumn × List Diagnostic :=
  match successSchema doc op with
  | none =>
      ("$", [jsonColumn "value"], [⟨"OPENAPI_NO_JSON_RESPONSE",
        "no 2xx application/json response; exposing a single json column", some table⟩])
  | some schema => classify doc (deref doc schema) table

/-- `response_fields`. -/
def responseFields (doc op : Json) : List String :=
  match successSchema doc op with
  | none => []
  | some schema =>
      ((((deref doc schema).get? "properties").bind asObject?).map fun props =>
        props.map Prod.fst).getD []

/-! ## Pagination -/

/-- `infer_pagination`. -/
def inferPagination (params : List ParamSpec) (fields : List String) : Option PaginationConfig :=
  let has := fun name => params.any fun p => p.name = name
  let first := fun names : List String => names.find? has
  let page :=
    if has "page" then
      (first ["per_page", "page_size", "pageSize", "limit"]).map fun size =>
        PaginationConfig.page "page" 1 (some size) none
    else none
  let offset :=
    (first ["offset", "skip"]).bind fun offset =>
      if has "limit" then some (PaginationConfig.offset offset "limit" 100) else none
  let cursor :=
    (first ["cursor", "page_token", "next_token"]).bind fun param =>
      (["next_cursor", "next_page_token", "next"].find? fields.contains).map fun field =>
        PaginationConfig.cursor ("$." ++ field) param
  let rowCursor :=
    (first ["starting_after", "after"]).bind fun param =>
      (["has_more", "hasMore"].find? fields.contains).map fun flag =>
        PaginationConfig.rowCursor param "id" (some ("$." ++ flag))
  ((page.or offset).or cursor).or rowCursor

/-- `pagination_params`. -/
def paginationParams : Option PaginationConfig → List String
  | some (.cursor _ param) | some (.rowCursor param _ _) => [param]
  | some (.page param _ sizeParam _) => param :: sizeParam.toList
  | some (.offset param sizeParam _) => [param, sizeParam]
  | some .linkHeader | some (.bodyCursor _ _) | none => []

/-- `mark_filterable`. -/
def markFilterable (params : List ParamSpec) (pagination : Option PaginationConfig) :
    List ParamSpec :=
  params.map fun p => { p with filterable := !(paginationParams pagination).contains p.name }

/-! ## The document -/

/-- `operation_description`. -/
def operationDescription (op : Json) : Option String :=
  ((((op.get? "summary").or (op.get? "description")).bind Json.asStr?).map Text.trim).filter (· ≠ "")

/-- The loop of `resolve_server_template`; the fuel is the length of the text. -/
def resolveServerLoop (default : String → String) : ℕ → String → String
  | 0, rest => rest
  | fuel + 1, rest =>
      match Text.splitOnce '\x7b' rest with
      | none => rest
      | some (before, afterOpen) =>
          match Text.splitOnce '\x7d' afterOpen with
          | none => before ++ "\x7b" ++ resolveServerLoop default fuel afterOpen
          | some (name, afterClose) =>
              before ++ default name ++ resolveServerLoop default fuel afterClose

/-- `resolve_server_template`: the variables of the first server. -/
def resolveServerTemplate (doc : Json) (url : String) : String :=
  let declared := ((items (doc.get? "servers")).head?.bind fun s => s.get? "variables").bind asObject?
  resolveServerLoop (fun name =>
    ((declared.bind fun vars => vars.lookup name).bind fun v => strField v "default").getD "")
    url.length url

/-- `server_url`. -/
def serverUrl (doc : Json) : Option String :=
  ((items (doc.get? "servers")).findSome? fun s => strField s "url").map (resolveServerTemplate doc)

/-- The operations that become tables, with their paths and the parameters of the path. -/
def operations (opts : SynthOptions) (paths : List (String × Json)) :
    List (String × Option Json × Json) :=
  paths.filterMap fun e =>
    match e.2 with
    | .obj item =>
        match item.lookup "get" with
        | some (.obj op) =>
            if opts.includes e.1 (.obj op) then some (e.1, item.lookup "parameters", .obj op)
            else none
        | _ => none
    | _ => none

/-- The table of an operation. -/
def synthTable (doc : Json) (name path : String) (pathLevel : Option Json) (op : Json) :
    SynthTable × List Diagnostic :=
  let params := buildParams doc pathLevel op name
  let response := buildResponse doc op name
  let pagination := inferPagination params.1 (responseFields doc op)
  ({ spec :=
      { name := name
        endpoint := path
        params := markFilterable params.1 pagination
        response := { path := response.1 }
        pagination := pagination }
     schema := response.2.1
     description := operationDescription op }, params.2 ++ response.2.2)

/-- The loop of `synthesize`, with the names that are taken. -/
def synthLoop (doc : Json) (naming : Naming) :
    List (String × Option Json × Json) → List String → List (SynthTable × List Diagnostic)
  | [], _ => []
  | (path, pathLevel, op) :: ops, taken =>
      let name := uniqueName (tableName op path naming) taken
      synthTable doc name path pathLevel op :: synthLoop doc naming ops (name :: taken)

/-- `synthesize`. -/
def synthesize (doc : Json) (opts : SynthOptions) : Except SynthError Synthesis :=
  match strField doc "openapi" with
  | none => .error .missingVersion
  | some version =>
      if (Text.stripPrefix "3.0." version).isNone then .error (.unsupportedVersion version)
      else
        match (doc.get? "paths").bind asObject? with
        | none => .error .missingPaths
        | some paths =>
            let made := synthLoop doc opts.naming (operations opts paths) []
            .ok
              { baseUrl := serverUrl doc
                tables := (made.map Prod.fst).mergeSort fun a b => decide (a.spec.name ≤ b.spec.name)
                diagnostics := made.flatMap Prod.snd }

end OpenApi
end Http
end Pawrly
