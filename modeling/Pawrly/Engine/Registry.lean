import Pawrly.Config.Workspace
import Pawrly.Cache.Namespace
import Pawrly.Lib.EffectfulLoop

/-!
# Registering a source's tables

`pawrly-engine/src/registry.rs` with the registrars it dispatches to: a source answers with its
tables or with a database to attach, and the registrar puts what it found into the catalog of the
session.  A registrar that fails leaves in the catalog what it had put there.
-/

namespace Pawrly
namespace Engine

open Config EffectfulLoop
open Http (Json)

/-! ## Live objects -/

/-- The dynamic `${var:}` variables of an engine, by their declarations. -/
structure VariableStore where
  specs : String → Option Json

/-- The connection of an HTTP source, with the variable store and the `NAME → VarId` map that it
resolves its placeholders with.  `ω` is the type of what outside code builds. -/
structure HttpSource (ω : Type) where
  definition : SourceDef
  connection : ω
  vars : VariableStore
  dynamic : String → Option String

/-- The live connection that attached functions share. -/
inductive SourceHandle (ω : Type)
  | none
  | http (source : HttpSource ω)
  | mcp (session : ω)

/-- A queryable table. -/
inductive Provider (ω : Type)
  | http (source : HttpSource ω) (spec : ω)
  | rawHttp (source : HttpSource ω)
  | native (object : ω)
  | attached (database : ω) (table : String)
  | cached (policy : CachePolicy) (inner : Provider ω)

variable {ω : Type}

abbrev Tables (ω : Type) := String → Option (Provider ω)

/-- A schema of the catalog: a `MemorySchemaProvider`, or an attached database whose tables are
resolved when they are queried. -/
inductive Schema (ω : Type)
  | memory (tables : Tables ω)
  | attached (database : ω)

def Schema.table : Schema ω → String → Option (Provider ω)
  | memory tables, name => tables name
  | attached database, name => some (.attached database name)

structure TableSummary where
  name : String
  description : Option String := none
  wiki : Option String := none
  requiredFilters : List String := []

/-- What a source answers to its registrar: a refusal before any schema is made, the tables in the
order they are found (and what fails after the last of them), or a database to attach. -/
inductive Discovery (ω : Type)
  | refused (message : String)
  | tables (connection : ω) (listed : List (TableSummary × ω)) (failure : Option String)
  | attach (database : ω) (listed : List TableSummary)

inductive RegisterError
  | source (message : String)
  | tableExists (schema table : String)
  | noSchema (schema : String)
  | unsupported (schema : String)
  | databaseExists (name : String)

/-- `RegisterReport`; its table count is the number of the tables. -/
structure RegisterReport (ω : Type) where
  tables : List TableSummary
  functionHandle : SourceHandle ω

/-! ## The session -/

/-- The catalog of a session and the databases that its DuckDB pool has attached. -/
structure Session (ω : Type) where
  catalog : String → Option (Schema ω)
  attached : String → Bool

/-- The schema of the unqualified names. -/
def defaultSchema : String := "default"

/-- `MemorySchemaProvider::register_table`: a name is given once. -/
def insertTable (schema : String) (tables : Tables ω) (t : String × Provider ω) :
    Tables ω × Except RegisterError Unit :=
  if (tables t.1).isSome then (tables, .error (.tableExists schema t.1))
  else (Function.update tables t.1 (some t.2), .ok ())

def insertTables (schema : String) : Tables ω → List (String × Provider ω) →
    Tables ω × Except RegisterError Unit :=
  runAll (insertTable schema)

namespace Session

variable (ss : Session ω)

def table (schema name : String) : Option (Provider ω) :=
  (ss.catalog schema).bind fun s => s.table name

def deregisterSchema (name : String) : Session ω :=
  { ss with catalog := Function.update ss.catalog name none }

def setTables (schema : String) (tables : Tables ω) : Session ω :=
  { ss with catalog := Function.update ss.catalog schema (some (.memory tables)) }

/-- A schema that is there is taken as it is. -/
def ensureSchema (name : String) : Session ω :=
  match ss.catalog name with
  | some _ => ss
  | none => ss.setTables name fun _ => none

end Session

/-- `SchemaProvider::register_table`: an attached database takes no tables. -/
def Session.registerTable (schema : String) (ss : Session ω) (t : String × Provider ω) :
    Session ω × Except RegisterError Unit :=
  match ss.catalog schema with
  | none => (ss, .error (.noSchema schema))
  | some (.attached _) => (ss, .error (.unsupported schema))
  | some (.memory tables) =>
      (ss.setTables schema (insertTable schema tables t).1, (insertTable schema tables t).2)

def Session.registerTables (schema : String) :
    Session ω → List (String × Provider ω) → Session ω × Except RegisterError Unit :=
  runAll (Session.registerTable schema)

/-! ## Registrars -/

/-- The provider of a table that a source lists. -/
def providerOf (source : HttpSource ω) (object : ω) : Provider ω :=
  match source.definition.kind with
  | .http => .http source object
  | _ => .native object

def handleOf (source : HttpSource ω) : SourceHandle ω :=
  match source.definition.kind with
  | .http => .http source
  | .mcp => .mcp source.connection
  | _ => .none

/-- The source has a raw table. -/
def registersRaw (d : SourceDef) : Bool := d.kind = .http && d.rawTable

def rawSummary (d : SourceDef) : TableSummary where
  name := d.name
  description := some "raw HTTP escape hatch"
  requiredFilters := ["request_path"]

/-- The listed tables with their providers. -/
def listedProviders (source : HttpSource ω) (listed : List (TableSummary × ω)) :
    List (String × Provider ω) :=
  listed.map fun t => (t.1.name, providerOf source t.2)

/-- The usage notes come from the declarations. -/
def RegisterReport.backfill (d : SourceDef) (report : RegisterReport ω) : RegisterReport ω :=
  { report with tables := report.tables.map fun t =>
      { t with wiki := (d.tables.find? fun def' => def'.name = t.name).bind fun def' => def'.wiki } }

/-- The raw table has the name of its source. -/
def registerRawIn (source : HttpSource ω) (ss : Session ω) (schema : String) :
    Session ω × Except RegisterError Unit :=
  ss.registerTable schema (source.definition.name, .rawHttp source)

namespace Session

variable (ss : Session ω)

/-- The raw table is registered in the default schema, then in the source's own. -/
def registerRaw (source : HttpSource ω) : Session ω × Except RegisterError Unit :=
  runAll (registerRawIn source) ss [defaultSchema, source.definition.name]

def registerListed (source : HttpSource ω) (listed : List (TableSummary × ω))
    (failure : Option String) : Session ω × Except RegisterError Unit :=
  match registerTables source.definition.name (ss.ensureSchema source.definition.name)
    (listedProviders source listed) with
  | (ss', .error e) => (ss', .error e)
  | (ss', .ok ()) =>
      match failure with
      | some message => (ss', .error (.source message))
      | none => if registersRaw source.definition then ss'.registerRaw source else (ss', .ok ())

/-- `ATTACH … AS name` fails when the pool has a database of that name. -/
def registerAttached (name : String) (database : ω) : Session ω × Except RegisterError Unit :=
  if ss.attached name then (ss, .error (.databaseExists name))
  else ({ catalog := Function.update ss.catalog name (some (.attached database))
          attached := Function.update ss.attached name true }, .ok ())

/-- `registry::register_source`. -/
def registerSource (found : Discovery ω) (vars : VariableStore)
    (dynamic : String → Option String) (d : SourceDef) :
    Session ω × Except RegisterError (RegisterReport ω) :=
  match found with
  | .refused message => (ss, .error (.source message))
  | .attach database listed =>
      ((ss.registerAttached d.name database).1,
        (ss.registerAttached d.name database).2.map fun _ =>
          RegisterReport.backfill d ⟨listed, .none⟩)
  | .tables connection listed failure =>
      let source : HttpSource ω := ⟨d, connection, vars, dynamic⟩
      ((ss.registerListed source listed failure).1,
        (ss.registerListed source listed failure).2.map fun _ =>
          RegisterReport.backfill d
            ⟨listed.map Prod.fst ++ if registersRaw d then [rawSummary d] else [], handleOf source⟩)

/-- Wrap a table of a memory schema in the cache. -/
def wrapTable (schema : String) (policy : CachePolicy) (t : TableSummary) : Session ω :=
  match ss.catalog schema with
  | some (.memory tables) =>
      match tables t.name with
      | some p => ss.setTables schema (Function.update tables t.name (some (.cached policy p)))
      | none => ss
  | _ => ss

/-- The reported tables of a source that caches are wrapped. -/
def wrapTables (d : SourceDef) (tables : List TableSummary) : Session ω :=
  if d.cache.caches then tables.foldl (fun ss t => ss.wrapTable d.name d.cache t) ss else ss

end Session

/-! ## What a registration puts there -/

/-- The report of a registration, with the provider of every reported table. -/
structure Installation (ω : Type) where
  report : RegisterReport ω
  providers : List (Provider ω)

/-- The tables of a source in the order they are registered. -/
def entriesOf (source : HttpSource ω) (listed : List (TableSummary × ω)) :
    List (TableSummary × Provider ω) :=
  (listed.map fun t => (t.1, providerOf source t.2)) ++
    if registersRaw source.definition then [(rawSummary source.definition, .rawHttp source)] else []

def wrapProvider (policy : CachePolicy) (p : Provider ω) : Provider ω :=
  if policy.caches then .cached policy p else p

/-- What a registration that succeeds installs; a source that refuses, fails or lists a table twice
installs nothing. -/
def Discovery.installation (vars : VariableStore) (dynamic : String → Option String)
    (d : SourceDef) : Discovery ω → Option (Installation ω)
  | refused _ => none
  | attach database listed =>
      some ⟨RegisterReport.backfill d ⟨listed, .none⟩,
        listed.map fun t => .attached database t.name⟩
  | tables connection listed failure =>
      let source : HttpSource ω := ⟨d, connection, vars, dynamic⟩
      if ((entriesOf source listed).map fun t => t.1.name).Nodup ∧ failure = none then
        some ⟨RegisterReport.backfill d ⟨(entriesOf source listed).map Prod.fst, handleOf source⟩,
          (entriesOf source listed).map fun t => wrapProvider d.cache t.2⟩
      else none

end Engine
end Pawrly
