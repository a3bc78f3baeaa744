import Pawrly.Cache.Interleaving
import Mathlib.Data.List.Dedup

/-!
# Namespaces of a storage root

`pawrly-engine/src/namespace.rs`: every namespace is a cache directory below the storage root, and
`<namespace>.<source>.<table>` resolves through the manager that a process keeps for the namespace.
A process opens its own namespace when it starts and any other when it is first named; from then on
the manager is memoized, and only its own locked writes refresh its copy of the manifest.
-/

namespace Pawrly
namespace Cache

open Semantic

/-! ## Names -/

def pawrlyCatalog : String := "pawrly"

def systemSchema : String := "system"

/-- Every character that is not safe in a path becomes `-`. -/
def sanitizeSegment (s : String) : String :=
  s.map fun c => if c.isAlphanum || c = '_' || c = '-' || c = '.' then c else '-'

/-- A namespace is a clean segment and shadows no reserved name. -/
def validateNamespace (ns : String) : Except String Unit :=
  if !(ns.toList.any Char.isAlphanum) || sanitizeSegment ns ≠ ns then
    .error ("invalid namespace `" ++ ns ++
      "`: use alphanumerics, `_`, `-`, or `.`, with at least one alphanumeric")
  else if ns ∈ [pawrlyCatalog, materializedSchema, systemSchema, "information_schema"] then
    .error ("namespace `" ++ ns ++ "` is reserved")
  else .ok ()

/-! ## The catalog of a manager -/

section

variable {β : Type*}

/-- The file of the entry is there. -/
def ManifestEntry.present (files : List String → Option β) (e : ManifestEntry) : Bool :=
  (files e.filePath.rel).isSome

/-- `sort` and `dedup`. -/
def sortDedup (names : List String) : List String := (names.mergeSort fun a b => a ≤ b).dedup

variable (mgr : CacheManager) (files : List String → Option β)

/-- `namespace_sources`, the schemas of the catalog. -/
def CacheManager.namespaceSources : List String :=
  sortDedup ((mgr.manifest.entries.filter fun e => e.present files).map fun e => e.source)

/-- `namespace_tables`, the tables of a schema. -/
def CacheManager.namespaceTables (source : String) : List String :=
  sortDedup ((mgr.manifest.entries.filter fun e => e.source = source && e.present files).map
    fun e => e.table)

/-- `namespace_path`, the file of a table. -/
def CacheManager.namespacePath (source table : String) : Option FilePath :=
  (mgr.manifest.entries.find? fun e =>
    e.source = source && e.table = table && e.present files).map fun e => e.filePath

/-- `<source>.<table>` in the catalog of the manager: the schema has to exist first. -/
def CacheManager.table (source table : String) : Option FilePath :=
  if source ∈ mgr.namespaceSources files then mgr.namespacePath files source table else none

end

/-! ## Processes on a storage root -/

/-- An engine process with its `NamespaceRegistry`. -/
structure Process where
  storageRoot : String
  defaultNs : String
  /-- The memoized namespaces. -/
  extra : String → Bool := fun _ => false
  running : Bool := true

/-- The storage root and its processes; the manager of process `p` on a namespace is the manager
`p` of its directory. -/
structure Storage (β : Type*) where
  spaces : String → World β
  /-- `manifest.json` is there. -/
  stored : String → Bool
  processes : ℕ → Option Process

namespace Storage

variable {β : Type*} (s : Storage β)

/-- The process has a manager for the namespace. -/
def hasOpen (p : ℕ) (ns : String) : Bool :=
  match s.processes p with
  | some proc => proc.running && (decide (ns = proc.defaultNs) || proc.extra ns)
  | none => false

/-- The namespace is the workspace's own. -/
def isDefault (p : ℕ) (ns : String) : Bool :=
  match s.processes p with
  | some proc => proc.running && decide (ns = proc.defaultNs)
  | none => false

/-- `CacheManager::new`: the copy is what is on disk. -/
def freshManager (proc : Process) (ns : String) : CacheManager where
  root := proc.storageRoot ++ "/" ++ ns
  manifest := (s.spaces ns).manifest

/-- `lookup`: the manager that a name of a catalog resolves to. -/
def lookup (p : ℕ) (proc : Process) (ns : String) : Option CacheManager :=
  if ns = proc.defaultNs then some ((s.spaces ns).managers p)
  else match validateNamespace ns with
    | .error _ => none
    | .ok _ =>
        if proc.extra ns then some ((s.spaces ns).managers p)
        else if s.stored ns then some (s.freshManager proc ns)
        else none

/-- `<ns>.<source>.<table>` in a process. -/
def resolve (p : ℕ) (proc : Process) (ns source table : String) : Option FilePath :=
  (s.lookup p proc ns).bind fun mgr => mgr.table (s.spaces ns).files source table

/-- `catalog_names` lists the namespace. -/
def enumerates (proc : Process) (ns : String) : Bool :=
  decide (ns = proc.defaultNs) || proc.extra ns || ((validateNamespace ns).isOk && s.stored ns)

/-- The tables that a schema of the namespace enumerates. -/
def tableNames (p : ℕ) (proc : Process) (ns source : String) : List String :=
  match s.lookup p proc ns with
  | some mgr =>
      if source ∈ mgr.namespaceSources (s.spaces ns).files then
        mgr.namespaceTables (s.spaces ns).files source
      else []
  | none => []

/-! ## Steps -/

end Storage

section

variable {β : Type*}

/-- The manager that a thread's operation runs on. -/
def Thread.manager : Thread β → Option ℕ
  | .renamed h _ _ | .reclaiming h _ | .listing h _ | .sweeping h _ _ => some h
  | .idle | .removing _ | .suspecting _ | .moving _ => none

/-- The manager that a step runs on. -/
def World.manager (w : World β) : Action β → Option ℕ
  | .rename _ h _ _ | .invalidate _ h _ | .dropMaterialized _ h _ | .quarantine _ h _
  | .expire _ h _ => some h
  | .commit t | .reclaim t | .collect t | .list t _ | .sweep t => (w.threads t).manager
  | .remove _ | .check _ | .moveAside _ => none

/-- The operations that only the workspace's own namespace has. -/
def Action.ofWorkspace : Action β → Bool
  | .rename _ _ (.source _ _) _ | .invalidate _ _ _ | .quarantine _ _ _ | .expire _ _ _ => true
  | _ => false

/-- The step rewrites the manifest. -/
def Action.rewrites : Action β → Bool
  | .commit _ | .invalidate _ _ _ | .dropMaterialized _ _ _ | .quarantine _ _ _
  | .expire _ _ _ => true
  | _ => false

/-- A step of the processes on a storage root. -/
inductive StorageAction (β : Type*)
  | start (p : ℕ) (storageRoot defaultNs : String)
  | stop (p : ℕ)
  /-- A namespace is memoized: for a write, or because it is on disk. -/
  | openSpace (p : ℕ) (ns : String)
  | act (ns : String) (a : Action β)

end

namespace Storage

variable {β : Type*} (s : Storage β)

/-- A process keeps a new manager for a namespace. -/
def memoize (p : ℕ) (proc : Process) (ns : String) : Storage β :=
  { s with spaces := Function.update s.spaces ns { s.spaces ns with
      managers := Function.update (s.spaces ns).managers p (s.freshManager proc ns) } }

/-- The processes that may take a step. -/
def permits (ns : String) (a : Action β) : Bool :=
  match (s.spaces ns).manager a with
  | some h => if a.ofWorkspace then s.isDefault h ns else s.hasOpen h ns
  | none => true

def step : StorageAction β → Option (Storage β)
  | .start p storageRoot defaultNs =>
      match s.processes p with
      | some _ => none
      | none =>
          let proc : Process := { storageRoot := storageRoot, defaultNs := defaultNs }
          some { s.memoize p proc defaultNs with
            processes := Function.update s.processes p (some proc) }
  | .stop p =>
      match s.processes p with
      | some proc => some { s with
          processes := Function.update s.processes p (some { proc with running := false }) }
      | none => none
  | .openSpace p ns =>
      match s.processes p with
      | some proc =>
          -- a namespace that is open already keeps its manager
          if proc.running && !s.hasOpen p ns && (validateNamespace ns).isOk then
            some { s.memoize p proc ns with
              processes := Function.update s.processes p
                (some { proc with extra := Function.update proc.extra ns true }) }
          else none
      | none => none
  | .act ns a =>
      if s.permits ns a then
        ((s.spaces ns).step a).map fun w => { s with
          spaces := Function.update s.spaces ns w
          stored := Function.update s.stored ns (s.stored ns || a.rewrites) }
      else none

end Storage

end Cache
end Pawrly
