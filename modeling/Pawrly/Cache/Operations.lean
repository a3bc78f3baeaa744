import Pawrly.Cache.Manifest
import Mathlib.Logic.Function.Basic

/-!
# The operations of a cache manager

`CacheManager` over a directory: the manifest file, the data files, and the read-modify-write of
the manifest under its lock.  What the file system may refuse is a parameter of an operation.
-/

namespace Pawrly
namespace Cache

open Semantic

/-! ## The directory -/

/-- `manifest.json`.  A file that cannot be read or parsed still holds entries, for a process
that can. -/
inductive ManifestFile
  | absent
  | valid (m : Manifest)
  | unreadable (m : Manifest)
  deriving DecidableEq

/-- `read_manifest_disk`: an empty manifest when the file is absent or unreadable. -/
def ManifestFile.read : ManifestFile → Manifest
  | absent => .empty
  | valid m => m
  | unreadable _ => .empty

/-- The entries the file holds. -/
def ManifestFile.held : ManifestFile → List ManifestEntry
  | absent => []
  | valid m => m.entries
  | unreadable m => m.entries

/-- The cache directory: the manifest and the files by their path below the root. -/
structure Disk (β : Type*) where
  manifest : ManifestFile
  files : List String → Option β

/-- What the file system refuses during one operation: taking the lock or writing the manifest
(with the error), removing a file, moving one aside. -/
structure Faults where
  lock : Option String := none
  write : Option String := none
  keeps : List String → Bool := fun _ => false
  moveFails : Bool := false

section

variable {β : Type*}

/-- `remove_file`, its result ignored. -/
def removeFile (io : Faults) (files : List String → Option β) (p : List String) :
    List String → Option β :=
  if io.keeps p then files else Function.update files p none

/-- A path under `data/`. -/
def isData (p : List String) : Bool := p.head? = some "data"

/-! ## The manager -/

/-- A cache manager: its spelling of the root and its copy of the manifest. -/
structure CacheManager where
  root : String
  manifest : Manifest

/-- `with_locked_manifest`: read the file, edit, write it back, refresh the copy. -/
def CacheManager.withLockedManifest {α : Type*} (mgr : CacheManager) (io : Faults)
    (disk : Disk β) (f : Manifest → Manifest × α) :
    Except String (α × CacheManager × Disk β) :=
  match io.lock, io.write with
  | some err, _ => .error err
  | none, some err => .error err
  | none, none =>
      let r := f disk.manifest.read
      .ok (r.2, { mgr with manifest := r.1 }, { disk with manifest := .valid r.1 })

/-- The error of a failed manifest flush. -/
def flushError (err : String) : String := "cache manifest flush: " ++ err

/-- The result of an operation with the manager and the directory it leaves; a failed operation
leaves both as they were. -/
structure Outcome (α β : Type*) where
  result : Except String α
  mgr : CacheManager
  disk : Disk β

/-- `upsert`. -/
def CacheManager.upsert (mgr : CacheManager) (io : Faults) (disk : Disk β)
    (entry : ManifestEntry) : Outcome Unit β :=
  match mgr.withLockedManifest io disk fun m => (m.upsert entry, ()) with
  | .error err => ⟨.error err, mgr, disk⟩
  | .ok (_, mgr', disk') => ⟨.ok (), mgr', disk'⟩

/-- Remove the entry that an edit gives, then its file. -/
def CacheManager.removeEntry (mgr : CacheManager) (io : Faults) (disk : Disk β)
    (edit : Manifest → Manifest × Option ManifestEntry) : Outcome Bool β :=
  match mgr.withLockedManifest io disk edit with
  | .error err => ⟨.error (flushError err), mgr, disk⟩
  | .ok (none, mgr', disk') => ⟨.ok false, mgr', disk'⟩
  | .ok (some entry, mgr', disk') =>
      ⟨.ok true, mgr', { disk' with files := removeFile io disk'.files entry.filePath.rel }⟩

/-- `invalidate`. -/
def CacheManager.invalidate (mgr : CacheManager) (io : Faults) (disk : Disk β)
    (key : TableName) : Outcome Bool β :=
  mgr.removeEntry io disk fun m => m.invalidate key

/-- `drop_materialized`. -/
def CacheManager.dropMaterialized (mgr : CacheManager) (io : Faults) (disk : Disk β)
    (name : String) : Outcome Bool β :=
  mgr.removeEntry io disk fun m => m.dropMaterialized name

/-- The place a corrupt file is moved to, under a fresh name. -/
def corruptRel (key : TableName) (fresh : String) (entry : ManifestEntry) : List String :=
  ["corrupt", key.schema, key.table, fresh ++ "-" ++ entry.filePath.rel.getLastD ""]

/-- Move a file aside; when that fails, remove it. -/
def moveAside (io : Faults) (files : List String → Option β) (p dest : List String) :
    List String → Option β :=
  if (files p).isNone then files
  else if io.moveFails then removeFile io files p
  else Function.update (Function.update files p none) dest (files p)

/-- `quarantine`: a failed flush of the manifest is ignored. -/
def CacheManager.quarantine (mgr : CacheManager) (io : Faults) (disk : Disk β)
    (key : TableName) (entry : ManifestEntry) (fresh : String) : Outcome Unit β :=
  match mgr.withLockedManifest io disk fun m => (m.quarantine key entry, ()) with
  | .error _ =>
      ⟨.ok (), mgr, { disk with
        files := moveAside io disk.files entry.filePath.rel (corruptRel key fresh entry) }⟩
  | .ok (_, mgr', disk') =>
      ⟨.ok (), mgr', { disk' with
        files := moveAside io disk'.files entry.filePath.rel (corruptRel key fresh entry) }⟩

/-- Remove the data files whose path, spelled under the manager's root, no entry of its copy
has. -/
def CacheManager.sweepData (mgr : CacheManager) (io : Faults)
    (files : List String → Option β) : List String → Option β := fun p =>
  if isData p && !(mgr.manifest.entries.any fun e => e.filePath = ⟨mgr.root, p⟩) &&
      !io.keeps p then none
  else files p

/-- Remove the files under `tmp/` that a test calls too old. -/
def sweepTmp (io : Faults) (old : List String → Bool) (files : List String → Option β) :
    List String → Option β := fun p =>
  if decide (p.head? = some "tmp") && old p && !io.keeps p then none else files p

/-- `vacuum`: drop the expired entries with their files, then the data files that no entry of
the refreshed copy refers to, then abandoned writes. -/
def CacheManager.vacuum (mgr : CacheManager) (io : Faults) (disk : Disk β) (now : Time)
    (oldTmp : List String → Bool) : Outcome Unit β :=
  match mgr.withLockedManifest io disk fun m => m.vacuum now with
  | .error err => ⟨.error (flushError err), mgr, disk⟩
  | .ok (expired, mgr', disk') =>
      let files := expired.foldl (fun files e => removeFile io files e.filePath.rel) disk'.files
      ⟨.ok (), mgr', { disk' with files := sweepTmp io oldTmp (mgr'.sweepData io files) }⟩

/-! ## Operations as steps -/

/-- The entry a manager writes for a table (`write_through`, `materialize`). -/
def CacheManager.newEntry (mgr : CacheManager) (key : TableName) (expiresAt : Option Time)
    (origin : Origin) : ManifestEntry where
  source := key.schema
  table := key.table
  expiresAt := expiresAt
  filePath := ⟨mgr.root, dataRel key⟩
  origin := origin
  placed := rfl

/-- An operation on the manifest with its arguments.  A quarantined entry is one its caller found
for the table it reads. -/
inductive Op
  | upsert (key : TableName) (expiresAt : Option Time) (origin : Origin)
  | invalidate (key : TableName)
  | dropMaterialized (name : String)
  | quarantine (entry : ManifestEntry) (fresh : String)
  | vacuum (now : Time) (oldTmp : List String → Bool)

/-- A manager over its directory. -/
structure Store (β : Type*) where
  mgr : CacheManager
  disk : Disk β

/-- Where an operation leaves the store, and whether it succeeded. -/
def Outcome.finish {α : Type*} (o : Outcome α β) : Bool × Store β :=
  (o.result.isOk, ⟨o.mgr, o.disk⟩)

/-- Run one operation. -/
def Store.run (s : Store β) (op : Op) (io : Faults) : Bool × Store β :=
  match op with
  | .upsert key expiresAt origin =>
      (s.mgr.upsert io s.disk (s.mgr.newEntry key expiresAt origin)).finish
  | .invalidate key => (s.mgr.invalidate io s.disk key).finish
  | .dropMaterialized name => (s.mgr.dropMaterialized io s.disk name).finish
  | .quarantine entry fresh => (s.mgr.quarantine io s.disk entry.key entry fresh).finish
  | .vacuum now oldTmp => (s.mgr.vacuum io s.disk now oldTmp).finish

/-- One step of a sequence of operations. -/
def Store.step (s : Store β) (a : Op × Faults) : Option (Store β) := some (s.run a.1 a.2).2

end

end Cache
end Pawrly
