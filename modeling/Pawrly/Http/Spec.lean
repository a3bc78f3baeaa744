import Pawrly.Text
import Pawrly.Http.Filter
import Pawrly.Lib.OrderedMap

/-!
# HTTP tables

The declaration of a table of an HTTP source: its parameters, the shapes of its request, and how
its response is paged, checked and turned into rows.
-/

namespace Pawrly
namespace Http

/-- The values of bound parameters (`BTreeMap<String, String>`). -/
abbrev Params := OrderedMap String String

/-- How a parameter computes its value when the query does not supply one. -/
inductive Derive
  | ago (seconds : ℕ)
  | split (fromParam separator : String) (part : ℕ)
  deriving DecidableEq

/-- `Derive::resolve`. -/
def Derive.resolve (params : Params) (nowEpoch : ℤ) : Derive → Option String
  | ago seconds => some (toString (nowEpoch - min (seconds : ℤ) (2 ^ 63 - 1)))
  | split fromParam separator part =>
      (params.get? fromParam).bind fun v => (Text.splitText separator v)[part]?

/-- A parameter of a table. -/
structure ParamSpec where
  name : String
  type : String := "varchar"
  required : Bool := false
  default : Option String := none
  accepts : List String := []
  emit : OrderedMap String String := .empty
  explode : Bool := false
  derive? : Option Derive := none
  filterable : Bool := false

/-- How to walk from one page of results to the next. -/
inductive PaginationConfig
  | linkHeader
  | cursor (nextPath param : String)
  | rowCursor (param field : String) (morePath : Option String)
  | page (param : String) (start : ℕ) (sizeParam : Option String) (size : Option ℕ)
  | offset (param sizeParam : String) (size : ℕ)
  | bodyCursor (cursorPath nextPath : String)
  deriving DecidableEq

inductive BodyKind
  | json
  | form
  deriving DecidableEq

/-- A request body: a text with `{param}` placeholders. -/
structure RequestBody where
  kind : BodyKind := .json
  template : String
  deriving DecidableEq

/-- A request shape for the bindings that have all of `whenFilters`. -/
structure ConditionalRequest where
  whenFilters : List String
  endpoint : String
  method : String := "GET"
  body : Option RequestBody := none

/-- A condition on the status of a response. -/
inductive StatusMatcher
  | exact (code : ℕ)
  | expr (text : String)
  deriving DecidableEq

def parseU16 : String → Option ℕ := Text.parseUnsigned 65535

/-- The comparison operators of a status expression, in the order they are tried. -/
def statusOps : List (String × (ℕ → ℕ → Bool)) :=
  [(">=", fun status code => code ≤ status), ("<=", fun status code => status ≤ code),
    (">", fun status code => code < status), ("<", fun status code => status < code),
    ("==", fun status code => status = code), ("=", fun status code => status = code)]

/-- `match_status_expr`. -/
def matchStatusExpr (expr : String) (status : ℕ) : Bool :=
  let expr := Text.trim expr
  match Text.stripSuffix "xx" expr with
  | some hundreds =>
      match parseU16 hundreds with
      | some h =>
          -- the products and sums of `u16` wrap
          let base := h * 100 % 65536
          base ≤ status && status < (base + 100) % 65536
      | none => false
  | none =>
      match statusOps.findSome? fun op => (Text.stripPrefix op.1 expr).map fun rest =>
          (op.2, rest) with
      | some (compare, rest) => ((parseU16 (Text.trim rest)).map (compare status)).getD false
      | none => parseU16 expr = some status

def StatusMatcher.matches (status : ℕ) : StatusMatcher → Bool
  | exact code => code = status
  | expr text => matchStatusExpr text status

/-- How an error response is recognized. -/
structure ResponseErrorSpec where
  status : List StatusMatcher := []
  path : Option String := none

/-- How a payload that is not an array becomes rows. -/
inductive Reshape
  | dictEntries
  | seriesPoints (series points timestamp value : String)
  deriving DecidableEq

/-- The shape of a response. -/
structure ResponseSpec where
  path : String := "$"
  allow404Empty : Bool := false
  error : Option ResponseErrorSpec := none
  reshape : Option Reshape := none

/-- The declaration of a table. -/
structure HttpTableSpec where
  name : String
  endpoint : String
  method : String := "GET"
  params : List ParamSpec := []
  headers : OrderedMap String String := .empty
  body : Option RequestBody := none
  requests : List ConditionalRequest := []
  response : ResponseSpec := {}
  pagination : Option PaginationConfig := none

/-- `{name}`. -/
def placeholder (name : String) : String := "\x7b" ++ name ++ "\x7d"

/-- The declaration of a parameter: the first one with its name. -/
def HttpTableSpec.param? (spec : HttpTableSpec) (name : String) : Option ParamSpec :=
  spec.params.find? fun p => p.name = name

/-- `is_path_param`: the name is a placeholder of an endpoint. -/
def HttpTableSpec.isPathParam (spec : HttpTableSpec) (name : String) : Bool :=
  Text.contains (placeholder name) spec.endpoint ||
    spec.requests.any fun r => Text.contains (placeholder name) r.endpoint

/-- The endpoint, method and body of a request. -/
structure RequestShape where
  endpoint : String
  method : String
  body : Option RequestBody

/-- `select_request`: the first conditional request whose filters are all bound, else the request
of the table. -/
def HttpTableSpec.selectRequest (spec : HttpTableSpec) (params : Params) : RequestShape :=
  match spec.requests.find? fun r => r.whenFilters.all params.contains with
  | some r => ⟨r.endpoint, r.method, r.body⟩
  | none => ⟨spec.endpoint, spec.method, spec.body⟩

/-! ## The safety limits -/

/-- `SafetyError::TooManyRows`. -/
def tooManyRows (table : String) (maxRows : ℕ) : DataFusionError :=
  .external ("refusing to scan `" ++ table ++ "`: would return more than " ++ toString maxRows ++
    " rows")

/-- `SafetyError::TooManyPages`. -/
def tooManyPages (table : String) (maxPages : ℕ) : DataFusionError :=
  .external ("refusing to scan `" ++ table ++ "`: would page more than " ++ toString maxPages ++
    " times. A top-level ORDER BY, GROUP BY, or aggregate forces the whole feed to be paged " ++
    "because the LIMIT can no longer push into the scan. Drop the outer sort and rely " ++
    "on the source's default order, or bound the scan first: " ++
    "SELECT ... FROM (SELECT * FROM " ++ table ++ " LIMIT 200) t ORDER BY ...")

end Http
end Pawrly
