import Pawrly.Config.Validator
import Pawrly.Http.Json

/-!
# The workspace configuration

The sources, functions and dynamic variables of a loaded `pawrly.yaml`, and what the engine takes
from them (`pawrly-config/src/types.rs`).
-/

namespace Pawrly
namespace Config

open Http (Json)

/-! ## Sources -/

inductive SourceKind
  | file
  | http
  | mcp
  | sqlite
  | postgres
  | mysql
  | duckdb
  | snowflake
  | iceberg
  | ducklake
  | delta
  deriving DecidableEq

/-- The `cache:` of a source.  Times are in milliseconds. -/
inductive CachePolicy
  | none
  | ttl (ttl : ℕ)
  | refresh (every : ℕ)
  | cron (cron : String)
  | append (cursorColumn : String)
  deriving DecidableEq

def CachePolicy.caches : CachePolicy → Bool
  | none => false
  | _ => true

/-- A declared table.  A safety policy is given by its JSON, which is all that a reload reads of
it. -/
structure TableDef where
  name : String
  description : Option String := none
  wiki : Option String := none
  config : Json := .null
  cache : Option CachePolicy := none
  safety : Option Json := none
  deriving DecidableEq

/-- The engine's descriptor of a source. -/
structure SourceDef where
  name : String
  kind : SourceKind
  description : Option String := none
  wiki : Option String := none
  examples : List String := []
  config : Json := .null
  cache : CachePolicy := .none
  safety : Option Json := none
  tables : List TableDef := []
  rawTable : Bool := false
  rawTableSafety : Option Json := none
  deriving DecidableEq

/-! ## Functions -/

inductive FunctionKind
  | http
  | mcp
  | file
  deriving DecidableEq

/-- The kind of the functions that a source of a kind may carry. -/
def FunctionKind.forSource : SourceKind → Option FunctionKind
  | .http => some .http
  | .mcp => some .mcp
  | .file => some .file
  | _ => none

structure FunctionArg where
  name : String
  type : String
  required : Bool := true
  default : Option String := none
  toolArg : Option String := none

structure FunctionColumn where
  name : String
  type : String
  source : Option String := none

/-- A function as it is declared, below a source or at the top. -/
structure FunctionDecl where
  name : String
  ns : Option String := none
  kind : Option FunctionKind := none
  args : List FunctionArg := []
  returns : List FunctionColumn := []
  config : Json := .null
  body : Json := .null

/-- The engine's descriptor of a function. -/
structure FunctionDef where
  ns : String
  name : String
  kind : FunctionKind
  args : List FunctionArg := []
  returns : List FunctionColumn := []
  connection : Json := .null
  body : Json := .null
  source : Option String := none
  builtin : Bool := false

def FunctionDecl.toEngine (f : FunctionDecl) (ns : String) (kind : FunctionKind) (connection : Json)
    (source : Option String) : FunctionDef where
  ns := ns
  name := f.name
  kind := kind
  args := f.args
  returns := f.returns
  connection := connection
  body := f.body
  source := source

/-- `http.get`, `file.glob` and `file.grep`. -/
def builtins : List FunctionDef :=
  [{ ns := "http", name := "get", kind := .http, builtin := true
     args := [{ name := "url", type := "varchar" },
       { name := "path", type := "varchar", required := false, default := some "$" }]
     returns := [{ name := "body", type := "varchar", source := some "$" }]
     body := .obj [("endpoint", .str "\x7burl\x7d"),
       ("response", .obj [("path", .str "\x7bpath\x7d")])] },
   { ns := "file", name := "glob", kind := .file, builtin := true
     args := [{ name := "pattern", type := "varchar" }]
     returns := [{ name := "path", type := "varchar" }, { name := "file_name", type := "varchar" },
       { name := "size_bytes", type := "bigint" }, { name := "modified", type := "timestamp" }]
     body := .obj [("path", .str "\x7bpattern\x7d")] },
   { ns := "file", name := "grep", kind := .file, builtin := true
     args := [{ name := "pattern", type := "varchar" }, { name := "glob", type := "varchar" }]
     returns := [{ name := "path", type := "varchar" }, { name := "line_number", type := "bigint" },
       { name := "line", type := "varchar" }]
     body := .obj [("grep", .str "\x7bpattern\x7d"), ("path", .str "\x7bglob\x7d")] }]

/-! ## The configuration -/

/-- A dynamic `${var:NAME}` reference that the loader resolved to a variable; the variable's
declaration is given by its JSON. -/
structure DynamicVarBinding where
  name : String
  id : String
  spec : Json

/-- A declared source. -/
structure DeclaredSource extends SourceDef where
  dynamicVars : List DynamicVarBinding := []
  functions : List FunctionDecl := []

/-- A configuration that passed the loader: `validate` takes every source name once. -/
structure WorkspaceConfig where
  sources : List DeclaredSource
  functions : List FunctionDecl := []
  semantic : Option SemanticConfig := none
  sources_nodup : (sources.map fun s => s.name).Nodup

namespace WorkspaceConfig

variable (cfg : WorkspaceConfig)

/-- `dynamic_specs`: the declaration of every variable, the last one of an id. -/
def dynamicSpecs : String → Option Json :=
  (cfg.sources.flatMap fun s => s.dynamicVars).foldl
    (fun specs b => Function.update specs b.id (some b.spec)) fun _ => none

/-- The `NAME → VarId` map of a source. -/
def bindingsOf (vars : List DynamicVarBinding) : String → Option String :=
  vars.foldl (fun names b => Function.update names b.name (some b.id)) fun _ => none

/-- `dynamic_bindings_by_source`: a source without dynamic variables has no map. -/
def dynamicBindingsBySource : String → Option (String → Option String) :=
  cfg.sources.foldl (fun maps s =>
    if s.dynamicVars.isEmpty then maps
    else Function.update maps s.name (some (bindingsOf s.dynamicVars))) fun _ => none

/-- The map of a source, empty when it has none. -/
def dynamicOf (name : String) : String → Option String :=
  (cfg.dynamicBindingsBySource name).getD fun _ => none

def intoEngineSources : List SourceDef := cfg.sources.map fun s => s.toSourceDef

/-- `engine_functions`: the functions of the sources that can carry some, then the standalone
ones. -/
def engineFunctions : List FunctionDef :=
  (cfg.sources.flatMap fun s =>
    match FunctionKind.forSource s.kind with
    | some kind => s.functions.map fun f => f.toEngine s.name kind s.config (some s.name)
    | none => []) ++
  cfg.functions.filterMap fun f =>
    match f.ns, f.kind with
    | some ns, some kind => some (f.toEngine ns kind f.config none)
    | _, _ => none

/-- The catalog of the `semantic:` block; without one it is empty. -/
def semanticCatalog : Semantic.SemanticCatalog :=
  (cfg.semantic.getD { models := [] }).catalog

lemma intoEngineSources_nodup : (cfg.intoEngineSources.map SourceDef.name).Nodup := by
  rw [intoEngineSources, List.map_map]
  exact cfg.sources_nodup

/-- A source is known by its name. -/
lemma eq_of_name_eq {d d' : SourceDef} (h : d ∈ cfg.intoEngineSources)
    (h' : d' ∈ cfg.intoEngineSources) (hname : d.name = d'.name) : d = d' :=
  List.inj_on_of_nodup_map cfg.intoEngineSources_nodup h h' hname

end WorkspaceConfig

end Config
end Pawrly
