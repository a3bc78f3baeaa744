import Pawrly.Engine.RegistryEffects

/-!
# Source management of the local engine

`pawrly-engine/src/local.rs`: registering and removing sources, registering functions, building an
engine from a configuration, and the calls that change its catalog at run time.  A call that fails
returns its error together with the state in which it leaves the engine.
-/

namespace Pawrly
namespace Engine

open Config EffectfulLoop

/-! ## State -/

/-- `SourceInfo`; times are readings of the engine's clock. -/
structure SourceInfo where
  name : String
  kind : SourceKind
  tableCount : ℕ
  registeredAt : ℕ

structure RegisteredSource (ω : Type) where
  info : SourceInfo
  tables : List TableSummary
  definition : SourceDef
  functionHandle : SourceHandle ω

/-- The connection that a function runs on: the live one of its source, or one of its own. -/
inductive FunctionConnection (ω : Type)
  | shared (handle : SourceHandle ω)
  | own (connection : ω)
  | none

/-- A registered function with the executor that outside code built for it. -/
structure RegisteredFunction (ω : Type) where
  definition : FunctionDef
  connection : FunctionConnection ω
  executor : ω

/-- A `LocalEngine`.  The functions are those of the registry; each of them has its UDTF. -/
structure LocalEngine (ω : Type) where
  session : Session ω
  sources : OrderedMap String (RegisteredSource ω)
  functions : String × String → Option (RegisteredFunction ω)
  vars : VariableStore
  dynamicBindings : String → Option (String → Option String)
  semantic : Semantic.SemanticCatalog
  configPath : Option String
  clock : ℕ
  registered_before : ∀ n r, sources.get? n = some r → r.info.registeredAt < clock

/-- What the engine meets during a call: the configuration file, the sources, and what functions
connect to. -/
structure Outside (ω : Type) where
  load : Except String WorkspaceConfig
  /-- `validate_engine_source`: the messages of what is wrong. -/
  validate : SourceDef → List String := fun _ => []
  discover : SourceDef → Discovery ω
  connect : FunctionDef → Except String ω
  execute : FunctionDef → Except String ω

/-- The `EngineError`s of source management. -/
inductive CatalogError
  | internal (message : String)
  | sourceRegistration (name : String) (kind : SourceKind) (source : RegisterError)
  | unknownTable (message : String)

variable {ω : Type}

namespace LocalEngine

/-! ## Sources -/

/-- The source becomes a registered one. -/
def insertSource (s : LocalEngine ω) (d : SourceDef) (report : RegisterReport ω)
    (ss : Session ω) : LocalEngine ω :=
  { s with
    session := ss
    sources := s.sources.insert d.name
      { info := ⟨d.name, d.kind, report.tables.length, s.clock⟩
        tables := report.tables
        definition := d
        functionHandle := report.functionHandle }
    clock := s.clock + 1
    registered_before := by
      intro n r hr
      rw [OrderedMap.get?_insert] at hr
      split_ifs at hr with hn
      · obtain rfl := Option.some.inj hr
        exact Nat.lt_succ_self s.clock
      · exact Nat.lt_succ_of_lt (s.registered_before n r hr) }

def reservedForMaterialized (name : String) : CatalogError :=
  .internal ("source name `" ++ name ++ "` is reserved for materialized tables")

def reservedForSystem (name : String) : CatalogError :=
  .internal ("source name `" ++ name ++ "` is reserved for engine system tables")

/-- The map that a source resolves its placeholders with. -/
def dynamicOf (s : LocalEngine ω) (name : String) : String → Option String :=
  (s.dynamicBindings name).getD fun _ => none

/-- `register_source`: what the source had in the catalog is dropped before it is asked. -/
def registerSource (out : Outside ω) (s : LocalEngine ω) (d : SourceDef) :
    LocalEngine ω × Except CatalogError Unit :=
  if d.name = Cache.materializedSchema then (s, .error (reservedForMaterialized d.name))
  else if d.name = Cache.systemSchema then (s, .error (reservedForSystem d.name))
  else
    match (s.session.deregisterSchema d.name).registerSource (out.discover d) s.vars
      (s.dynamicOf d.name) d with
    | (ss, .error e) => ({ s with session := ss }, .error (.sourceRegistration d.name d.kind e))
    | (ss, .ok report) => (s.insertSource d report (ss.wrapTables d report.tables), .ok ())

/-- `remove_by_source`. -/
def removeBySource (functions : String × String → Option (RegisteredFunction ω)) (source : String) :
    String × String → Option (RegisteredFunction ω) :=
  fun key => (functions key).filter fun f => f.definition.source ≠ some source

/-- `remove_source_inner`, with whether the source was registered. -/
def removeSourceInner (s : LocalEngine ω) (name : String) : LocalEngine ω × Bool :=
  if s.sources.contains name then
    ({ s with
        sources := s.sources.erase name
        session := s.session.deregisterSchema name
        functions := removeBySource s.functions name
        registered_before := by
          intro n r hr
          rw [OrderedMap.get?_erase] at hr
          split_ifs at hr
          exact s.registered_before n r hr }, true)
  else ({ s with functions := removeBySource s.functions name }, false)

/-! ## Functions -/

/-- The connection of a function (`build_executor`): a handle of its own kind is shared. -/
def functionConnection (out : Outside ω) (f : FunctionDef) (handle : SourceHandle ω) :
    Except CatalogError (FunctionConnection ω) :=
  match f.kind, handle with
  | .http, .http source => .ok (.shared (.http source))
  | .mcp, .mcp session => .ok (.shared (.mcp session))
  | .file, _ => .ok .none
  | _, _ => ((out.connect f).map .own).mapError .internal

def buildRegisteredFunction (out : Outside ω) (f : FunctionDef) (handle : SourceHandle ω) :
    Except CatalogError (RegisteredFunction ω) := do
  let connection ← functionConnection out f handle
  let executor ← (out.execute f).mapError .internal
  return ⟨f, connection, executor⟩

/-- The live handle of the source that a function is attached to. -/
def handleFor (s : LocalEngine ω) (f : FunctionDef) : SourceHandle ω :=
  match f.source with
  | some source => ((s.sources.get? source).map RegisteredSource.functionHandle).getD .none
  | none => .none

def insertFunction (s : LocalEngine ω) (f : RegisteredFunction ω) : LocalEngine ω :=
  { s with functions :=
      Function.update s.functions (f.definition.ns, f.definition.name) (some f) }

def registerOneFunction (out : Outside ω) (s : LocalEngine ω) (f : FunctionDef)
    (handle : SourceHandle ω) : LocalEngine ω × Except CatalogError Unit :=
  match buildRegisteredFunction out f handle with
  | .error e => (s, .error e)
  | .ok registered => (s.insertFunction registered, .ok ())

def registerBuiltin (out : Outside ω) (s : LocalEngine ω) (f : FunctionDef) :
    LocalEngine ω × Except CatalogError Unit :=
  registerOneFunction out s f .none

def registerDeclared (out : Outside ω) (s : LocalEngine ω) (f : FunctionDef) :
    LocalEngine ω × Except CatalogError Unit :=
  registerOneFunction out s f (s.handleFor f)

/-- `register_functions`: the builtins, then the declared functions. -/
def registerFunctions (out : Outside ω) (s : LocalEngine ω) (defs : List FunctionDef) :
    LocalEngine ω × Except CatalogError Unit :=
  match runAll (registerBuiltin out) s builtins with
  | (s', .error e) => (s', .error e)
  | (s', .ok ()) => runAll (registerDeclared out) s' defs

/-! ## Building an engine -/

/-- The engine before its sources are registered. -/
def start (cfg : WorkspaceConfig) (path : Option String) : LocalEngine ω where
  session :=
    { catalog := Function.update (fun _ => none) defaultSchema (some (.memory fun _ => none))
      attached := fun _ => false }
  sources := .empty
  functions := fun _ => none
  vars := ⟨cfg.dynamicSpecs⟩
  dynamicBindings := cfg.dynamicBindingsBySource
  semantic := cfg.semanticCatalog
  configPath := path
  clock := 0
  registered_before := by
    intro n r hr
    cases hr

def build (out : Outside ω) (cfg : WorkspaceConfig) (path : Option String) :
    Except CatalogError (LocalEngine ω) :=
  match runAll (registerSource out) (start cfg path) cfg.intoEngineSources with
  | (_, .error e) => .error e
  | (s, .ok ()) =>
      match registerFunctions out s cfg.engineFunctions with
      | (_, .error e) => .error e
      | (s', .ok ()) => .ok s'

/-! ## Changing the catalog -/

def addSource (out : Outside ω) (s : LocalEngine ω) (d : SourceDef) :
    LocalEngine ω × Except CatalogError SourceInfo :=
  match out.validate d with
  | [] =>
      match s.registerSource out d with
      | (s', .error e) => (s', .error e)
      | (s', .ok ()) =>
          match s'.sources.get? d.name with
          | some r => (s', .ok r.info)
          | none => (s', .error (.internal "source vanished after register"))
  | messages =>
      (s, .error (.internal ("source `" ++ d.name ++ "` failed validation: " ++
        String.intercalate "; " messages)))

/-- The sources to re-register; `order` is the order in which the map of the sources yields its
keys. -/
def refreshDefs (s : LocalEngine ω) (source : Option String) (order : List String) :
    Except CatalogError (List SourceDef) :=
  match source with
  | some name =>
      match s.sources.get? name with
      | some r => .ok [r.definition]
      | none => .error (.unknownTable ("source `" ++ name ++ "` is not registered"))
  | none => .ok (order.filterMap fun n => (s.sources.get? n).map RegisteredSource.definition)

structure RefreshCatalogOutcome where
  sourcesRefreshed : ℕ
  tablesDiscovered : ℕ

def refreshCatalog (out : Outside ω) (s : LocalEngine ω) (source : Option String)
    (order : List String) : LocalEngine ω × Except CatalogError RefreshCatalogOutcome :=
  match s.refreshDefs source order with
  | .error e => (s, .error e)
  | .ok defs =>
      match runAll (registerSource out) s defs with
      | (s', .error e) => (s', .error e)
      | (s', .ok ()) =>
          (s', .ok ⟨defs.length, (defs.filterMap fun d =>
            (s'.sources.get? d.name).map fun r => r.tables.length).sum⟩)

structure ReloadReport where
  sourcesAdded : ℕ
  sourcesChanged : ℕ
  sourcesRemoved : ℕ

/-- The definitions of the live sources. -/
def current (s : LocalEngine ω) (name : String) : Option SourceDef :=
  (s.sources.get? name).map RegisteredSource.definition

/-- One source of a reload: a definition that is there as it is, is not registered again. -/
def reloadSource (out : Outside ω) (current : String → Option SourceDef) (s : LocalEngine ω)
    (d : SourceDef) : LocalEngine ω × Except CatalogError Unit :=
  match current d.name with
  | none => s.registerSource out d
  | some old => if old ≠ d then s.registerSource out d else (s, .ok ())

/-- The live sources that the new configuration does not have. -/
def unseen (s : LocalEngine ω) (defs : List SourceDef) : List String :=
  (s.sources.entries.map Prod.fst).filter fun n => n ∉ defs.map SourceDef.name

def removeSources (s : LocalEngine ω) (names : List String) : LocalEngine ω :=
  names.foldl (fun s n => (s.removeSourceInner n).1) s

def drainFunctions (s : LocalEngine ω) : LocalEngine ω := { s with functions := fun _ => none }

/-- The variable store and the bindings of a new configuration. -/
def setVariables (s : LocalEngine ω) (cfg : WorkspaceConfig) : LocalEngine ω :=
  { s with vars := ⟨cfg.dynamicSpecs⟩, dynamicBindings := cfg.dynamicBindingsBySource }

/-- The counters of a reload that went through: every live source that is not seen is removed. -/
def reloadReport (s : LocalEngine ω) (defs : List SourceDef) : ReloadReport where
  sourcesAdded := (defs.filter fun d => s.current d.name = none).length
  sourcesChanged :=
    (defs.filter fun d => s.current d.name ≠ none ∧ s.current d.name ≠ some d).length
  sourcesRemoved := (s.unseen defs).length

/-- `reload_config`, after the new configuration is loaded. -/
def applyConfig (out : Outside ω) (s : LocalEngine ω) (cfg : WorkspaceConfig) :
    LocalEngine ω × Except CatalogError ReloadReport :=
  match runAll (reloadSource out s.current) (s.setVariables cfg) cfg.intoEngineSources with
  | (s', .error e) => (s', .error e)
  | (s', .ok ()) =>
      match (s'.removeSources (s.unseen cfg.intoEngineSources)).drainFunctions.registerFunctions out
        cfg.engineFunctions with
      | (s'', .error e) => (s'', .error e)
      | (s'', .ok ()) => (s'', .ok (s.reloadReport cfg.intoEngineSources))

def reloadConfig (out : Outside ω) (s : LocalEngine ω) :
    LocalEngine ω × Except CatalogError ReloadReport :=
  match s.configPath with
  | none =>
      (s, .error (.internal "reload_config requires an engine built from a config file"))
  | some _ =>
      match out.load with
      | .error message => (s, .error (.internal message))
      | .ok cfg => s.applyConfig out cfg

end LocalEngine
end Engine
end Pawrly
