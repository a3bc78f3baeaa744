import Pawrly.Http.Paginate
import Pawrly.Lib.Fallible

/-!
# Fetching the pages of a table

`fetch_rows`: for one set of bound parameters, send the request of a page, turn the response into
rows, and go on with the next page until there is none.  What the URL library, the JSON parser, the
target guard and the authentication do is a parameter (`Client`).
-/

namespace Pawrly
namespace Http

/-! ## Bodies -/

/-- `render_template`: the bound parameters in place of their placeholders, in the order of their
names. -/
def renderTemplate (template : String) (params : Params) : String :=
  params.entries.foldl (fun out e => Text.replace (placeholder e.1) e.2 out) template

/-- The mark of an optional parameter that is not bound. -/
def unboundSentinel : String := "__pawrly_unbound_placeholder__"

mutual

/-- `prune_unbound_filters`. -/
def pruneUnboundFilters : Json → Option Json
  | .str s => if s = unboundSentinel then none else some (.str s)
  | .obj fields =>
      let out := pruneFields fields
      if !fields.isEmpty && out.isEmpty then none else some (.obj out)
  | .arr items => some (.arr (pruneItems items))
  | v => some v

def pruneFields : List (String × Json) → List (String × Json)
  | [] => []
  | (k, v) :: fields =>
      match pruneUnboundFilters v with
      | some v => (k, v) :: pruneFields fields
      | none => pruneFields fields

def pruneItems : List Json → List Json
  | [] => []
  | v :: vs =>
      match pruneUnboundFilters v with
      | some v => v :: pruneItems vs
      | none => pruneItems vs

end

/-- `render_json_body`.  `parse` is the JSON parser. -/
def renderJsonBody (parse : String → Except String Json) (template : String) (bound : Params)
    (declared : List ParamSpec) : String :=
  let rendered := renderTemplate template bound
  let unbound := (declared.filter fun p => !bound.contains p.name).map ParamSpec.name
  if unbound = [] then rendered
  else
    let sentinel := "\"" ++ unboundSentinel ++ "\""
    let marked := unbound.foldl (fun out name =>
      Text.replace (placeholder name) sentinel
        (Text.replace ("\"" ++ placeholder name ++ "\"") sentinel out)) rendered
    match parse marked with
    | .ok v => ((pruneUnboundFilters v).map Json.print).getD "\x7b\x7d"
    | .error _ => rendered

/-- A JSON object of credential fields (`custom_body_object`). -/
def customBodyObject (fields : List (String × String)) : List (String × Json) :=
  Json.extendFields [] (fields.map fun f => (f.1, .str f.2))

/-! ## Requests -/

/-- What a source gives to the fetch of its tables: its base URL, headers and credential fields,
and the libraries that build URLs, guard their target and parse JSON. -/
structure Client (U : Type) where
  baseUrl : U
  headers : List (String × String)
  authBody : List (String × String)
  parseUrl : String → Except String U
  joinUrl : U → String → Except String U
  appendPairs : U → List (String × String) → U
  checkTarget : U → Except String Unit
  parseJson : String → Except String Json
  statusText : ℕ → String

/-- A request.  `params` are the parameters that it was built from. -/
structure Request (U : Type) where
  method : String
  url : U
  headers : List (String × String)
  body : Option String
  params : Params

/-- The path of `build_url` and its query pairs: each parameter fills its placeholder in the path
or in the body, or becomes a query pair. -/
def substitute (bodyTemplate : Option String) :
    List (String × String) → String → String × List (String × String)
  | [], path => (path, [])
  | (k, v) :: params, path =>
      if Text.contains (placeholder k) path then
        substitute bodyTemplate params (Text.replace (placeholder k) v path)
      else if bodyTemplate.any (Text.contains (placeholder k)) then
        substitute bodyTemplate params path
      else
        let rest := substitute bodyTemplate params path
        (rest.1, (k, v) :: rest.2)

/-- Without placeholders every parameter becomes a query pair. -/
lemma substitute_of_plain {path : String} (hpath : '\x7b' ∉ path.toList)
    (params : List (String × String)) : substitute none params path = (path, params) := by
  induction params with
  | nil => rfl
  | cons e params ih =>
      have hmem : '\x7b' ∈ (placeholder e.1).toList := by
        rw [placeholder, String.toList_append, String.toList_append]
        exact List.mem_append_left _ (List.mem_append_left _ (List.mem_singleton_self _))
      rw [substitute, if_neg (by rw [Text.contains_eq_false_of_notMem hmem hpath]; decide), ih]
      rfl

/-- The repeated query pairs of the exploded parameters. -/
def explodePairs (explode : OrderedMap String (List String)) : List (String × String) :=
  explode.entries.flatMap fun e => e.2.map fun v => (e.1, v)

section

variable {U : Type} (client : Client U) (spec : HttpTableSpec)

/-- The URL with query pairs appended. -/
def Client.withPairs (url : U) (pairs : List (String × String)) : U :=
  if pairs = [] then url else client.appendPairs url pairs

/-- `build_url`. -/
def Client.buildUrl (endpoint : String) (params : Params) (bodyTemplate : Option String)
    (explode : OrderedMap String (List String)) : Except DataFusionError U := do
  let (path, pairs) := substitute bodyTemplate params.entries endpoint
  let url ← (client.joinUrl client.baseUrl (Text.trimStartMatches "/" path)).mapError fun e =>
    .plan ("bad url: " ++ e)
  (client.checkTarget url).mapError .plan
  .ok (client.withPairs url (pairs ++ explodePairs explode))

/-- Two header names are the same, up to the case of ASCII letters. -/
def sameHeader (a b : String) : Bool := a.toLower = b.toLower

/-- `has_content_type`. -/
def Client.hasContentType : Bool :=
  client.headers.any (fun h => sameHeader h.1 "content-type") ||
    spec.headers.entries.any fun h => sameHeader h.1 "content-type"

/-- The headers of the source, without those that the table sets, and the headers of the table. -/
def Client.requestHeaders : List (String × String) :=
  client.headers.filter (fun h => !spec.headers.entries.any fun t => sameHeader t.1 h.1) ++
    spec.headers.entries

def BodyKind.contentType : BodyKind → String
  | json => "application/json"
  | form => "application/x-www-form-urlencoded"

/-- The path that a body cursor is written at. -/
def HttpTableSpec.bodyCursorPath : Option String :=
  match spec.pagination with
  | some (.bodyCursor cursorPath _) => some cursorPath
  | _ => none

/-- The body of the table, rendered. -/
def Client.renderBody (body : RequestBody) (params : Params) : String :=
  match body.kind with
  | .json => renderJsonBody client.parseJson body.template params spec.params
  | .form => renderTemplate body.template params

/-- The value with the cursor of the next page, if there is one and nothing blocks its path. -/
def HttpTableSpec.injectCursor (cursor : Option String) (v : Json) : Option Json :=
  cursor.bind fun c => spec.bodyCursorPath.bind fun path => v.setAtPath path (.str c)

/-- The body of a request, with its content type. -/
def Client.requestBody (body : Option RequestBody) (params : Params) (cursor : Option String) :
    Except DataFusionError (Option (String × String)) :=
  match body, client.authBody with
  | some body, [] =>
      let rendered := client.renderBody spec body params
      match (client.parseJson rendered).toOption.bind (spec.injectCursor cursor) with
      | some v => .ok (some (v.print, body.kind.contentType))
      | none => .ok (some (rendered, body.kind.contentType))
  | some body, fields =>
      if body.kind ≠ .json then
        .error (.plan "custom auth `body` requires a JSON table body to merge into")
      else
        match client.parseJson (renderJsonBody client.parseJson body.template params spec.params) with
        | .error e => .error (.plan ("table body is not valid JSON: " ++ e))
        | .ok (.obj own) =>
            let value := Json.obj (Json.extendFields own (customBodyObject fields))
            .ok (some (((spec.injectCursor cursor value).getD value).print, "application/json"))
        | .ok _ =>
            .error (.plan "table body must be a JSON object to merge custom auth body")
  | none, [] => .ok none
  | none, fields => .ok (some ((Json.obj (customBodyObject fields)).print, "application/json"))

/-- The state of the fetch: what the next request is built from, and the rows so far. -/
structure FetchState (U : Type) where
  params : Params
  url : Option U := none
  bodyCursor : Option String := none
  pageIndex : ℕ := 0
  rows : List Json := []

/-- The request of the next page. -/
def Client.request (shape : RequestShape) (explode : OrderedMap String (List String))
    (st : FetchState U) : Except DataFusionError (Request U) := do
  let url ← match st.url with
    | some u => .ok u
    | none => client.buildUrl shape.endpoint st.params (shape.body.map RequestBody.template) explode
  let body ← client.requestBody spec shape.body st.params st.bodyCursor
  let contentType := match body with
    | some (_, type) =>
        if client.hasContentType spec then [] else [("content-type", type)]
    | none => []
  .ok { method := shape.method
        url := url
        headers := client.requestHeaders spec ++ contentType
        body := body.map Prod.fst
        params := st.params }

/-! ## Responses -/

/-- A response; reading its body may fail. -/
structure Response where
  status : ℕ
  headers : List (String × String)
  text : Except String String

/-- The message of an error value. -/
def errorMessage : Json → Option String
  | .null => none
  | .str s => if s = "" then none else some s
  | v => some v.print

/-- `detect_error`. -/
def ResponseErrorSpec.detect (e : ResponseErrorSpec) (status : ℕ) (body : Json) :
    Option String :=
  let pathMsg := e.path.bind fun p => (body.atPath p).bind errorMessage
  if e.status.any (StatusMatcher.matches status) || pathMsg.isSome then
    some (pathMsg.getD ("HTTP " ++ toString status))
  else none

/-- `as_array`. -/
def asRows : Json → Except DataFusionError (List Json)
  | .arr items => .ok items
  | .obj fields => .ok [.obj fields]
  | .null => .ok []
  | v => .error (.plan ("expected array or object at response path, got " ++ v.print))

/-- `reshape_dict_entries`. -/
def reshapeDictEntries : Json → List Json
  | .obj fields => fields.map fun e =>
      match e.2 with
      | .obj inner => .obj (OrderedMap.insertEntry "_key" (.str e.1) inner)
      | v => .obj [("_key", .str e.1), ("_value", v)]
  | _ => []

/-- A row of a series: its fields without the points, and the two values of a point. -/
def seriesRow (s : Json) (points timestamp value : String) (t v : Json) : Json :=
  match s with
  | .obj fields => .obj (OrderedMap.insertEntry value v
      (OrderedMap.insertEntry timestamp t (fields.filter fun e => e.1 ≠ points)))
  | other => other

/-- `reshape_series_points`. -/
def reshapeSeriesPoints (v : Json) (series points timestamp value : String) : List Json :=
  (((v.get? series).bind Json.asArray?).getD []).flatMap fun s =>
    (((s.get? points).bind Json.asArray?).getD []).filterMap fun pt =>
      match pt with
      | .arr (t :: val :: _) => some (seriesRow s points timestamp value t val)
      | _ => none

/-- `extract_rows`. -/
def ResponseSpec.extractRows (r : ResponseSpec) (body : Json) :
    Except DataFusionError (List Json) :=
  match body.atPath r.path with
  | none => .ok []
  | some at_ =>
      match r.reshape with
      | none => asRows at_
      | some .dictEntries => .ok (reshapeDictEntries at_)
      | some (.seriesPoints series points timestamp value) =>
          .ok (reshapeSeriesPoints at_ series points timestamp value)

/-- A page is the last one, or the state of the next page follows. -/
inductive PageOutcome (U : Type)
  | done (rows : List Json)
  | next (st : FetchState U)

/-- The JSON body of a response, checked for a declared error. -/
def Client.responseBody (resp : Response) : Except DataFusionError Json := do
  let text ← resp.text.mapError fun e =>
    .external ("reading response body failed (status " ++ client.statusText resp.status ++ "): " ++ e)
  match client.parseJson text with
  | .error e =>
      match spec.response.error.bind fun err => err.detect resp.status .null with
      | some msg => .error (.external msg)
      | none => .error (.external
          ("json parse failed (status " ++ client.statusText resp.status ++ "): " ++ e))
  | .ok body =>
      match spec.response.error.bind fun err => err.detect resp.status body with
      | some msg => .error (.external msg)
      | none => .ok body

/-- The state after a page, when the pagination goes on. -/
def Client.advance (st : FetchState U) (all : List Json) :
    NextPage → Except DataFusionError (FetchState U)
  | .params p => .ok { st with
      params := p, url := none, pageIndex := st.pageIndex + 1, rows := all }
  | .url u => do
      let parsed ← (client.parseUrl u).mapError fun e =>
        .plan ("bad pagination url `" ++ u ++ "`: " ++ e)
      (client.checkTarget parsed).mapError .plan
      .ok { st with url := some parsed, pageIndex := st.pageIndex + 1, rows := all }
  | .bodyCursor c => .ok { st with
      bodyCursor := some c, url := none, pageIndex := st.pageIndex + 1, rows := all }

/-- What follows from a response. -/
def Client.page (maxRows limit : Option ℕ) (st : FetchState U) (resp : Response) :
    Except DataFusionError (PageOutcome U) := do
  if resp.status = 404 && spec.response.allow404Empty then .ok (.done st.rows)
  else do
    let body ← client.responseBody spec resp
    let rows ← spec.response.extractRows body
    let all := st.rows ++ rows
    if limit.any (· ≤ all.length) then .ok (.done all)
    else
      match maxRows.filter (· < all.length) with
      | some max => .error (tooManyRows spec.name max)
      | none =>
          match spec.pagination.bind fun config =>
              nextPage config st.params body resp.headers rows st.pageIndex with
          | none => .ok (.done all)
          | some next => do
              let st ← client.advance st all next
              .ok (.next st)

/-! ## The loop -/

/-- The cap on the pages of a table that declares none. -/
def defaultMaxPages : ℕ := 1000

/-- The loop of `fetch_rows`, with the number of pages left; `send` answers the requests one after
the other. -/
def Client.fetchLoop (shape : RequestShape) (explode : OrderedMap String (List String))
    (maxPages : ℕ) (maxRows limit : Option ℕ)
    (send : ℕ → Request U → Except DataFusionError Response) :
    ℕ → FetchState U → Except DataFusionError (List Json)
  | 0, _ => .error (tooManyPages spec.name maxPages)
  | left + 1, st => do
      let req ← client.request spec shape explode st
      let resp ← send st.pageIndex req
      match ← client.page spec maxRows limit st resp with
      | .done rows => .ok rows
      | .next st => Client.fetchLoop shape explode maxPages maxRows limit send left st

/-- The parameters of the first page. -/
def HttpTableSpec.firstParams (params : Params) : Params :=
  match spec.pagination with
  | some config => seedInitial config params
  | none => params

/-- `fetch_rows`. -/
def Client.fetchRows (maxPages maxRows limit : Option ℕ)
    (send : ℕ → Request U → Except DataFusionError Response) (params : Params)
    (explode : OrderedMap String (List String)) : Except DataFusionError (List Json) := do
  let cap := maxPages.getD defaultMaxPages
  let rows ← client.fetchLoop spec (spec.selectRequest params) explode cap maxRows limit send cap
    { params := spec.firstParams params }
  .ok (limit.elim rows rows.take)

end

end Http
end Pawrly
