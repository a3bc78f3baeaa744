import Pawrly.Cache.Operations

/-!
# Interleaved cache operations

The operations of any number of managers on one directory, cut into their atomic steps: the
rename of a written file into place, the read-modify-write of the manifest under its lock, the
removal of one file, the listing of the data directory.  A step belongs to a thread, which
remembers what is left of its operation.

`committed` is no part of the system: it records the content of the last committed write of
each table.
-/

namespace Pawrly
namespace Cache

open Semantic

variable {β : Type*}

/-! ## States -/

/-- What is left of a thread's operation; `h` is the manager it runs on. -/
inductive Thread (β : Type*)
  | idle
  /-- `materialize`, `write_through`, `refresh`: the file is in place, the upsert is left. -/
  | renamed (h : ℕ) (entry : ManifestEntry) (content : β)
  /-- `invalidate`, `drop_materialized`: the entry is removed, its file is left. -/
  | removing (p : List String)
  /-- `quarantine`: the entry is removed, the check of the file is left. -/
  | suspecting (p : List String)
  /-- `quarantine`: the file was there, the move is left. -/
  | moving (p : List String)
  /-- `vacuum`: the expired entries are removed, their files are left. -/
  | reclaiming (h : ℕ) (ps : List (List String))
  /-- `vacuum`: the referenced files are collected, the listing is left. -/
  | listing (h : ℕ) (referenced : List FilePath)
  /-- `vacuum`: the files found, still to be compared. -/
  | sweeping (h : ℕ) (referenced : List FilePath) (found : List (List String))

/-- The directory, the managers and the threads. -/
structure World (β : Type*) where
  manifest : Manifest
  files : List String → Option β
  managers : ℕ → CacheManager
  threads : ℕ → Thread β
  committed : TableName → Option β

/-- The table a write is for: a source's, or a materialized one. -/
inductive Target
  | source (key : TableName) (expiresAt : Option Time)
  | materialized (name : String)

def Target.key : Target → TableName
  | source key _ => key
  | materialized name => ⟨materializedSchema, name⟩

/-- The entry a write will commit. -/
def Target.entry (target : Target) (mgr : CacheManager) : ManifestEntry :=
  match target with
  | source key expiresAt => mgr.newEntry key expiresAt .cacheCopy
  | materialized name => mgr.newEntry ⟨materializedSchema, name⟩ none .materialized

/-- No source has the reserved name. -/
def Target.permitted : Target → Bool
  | source key _ => key.schema ≠ materializedSchema
  | materialized _ => true

/-! ## Steps -/

/-- An atomic step of a thread. -/
inductive Action (β : Type*)
  | rename (t h : ℕ) (target : Target) (content : β)
  | commit (t : ℕ)
  | invalidate (t h : ℕ) (key : TableName)
  | dropMaterialized (t h : ℕ) (name : String)
  | remove (t : ℕ)
  | quarantine (t h : ℕ) (entry : ManifestEntry)
  | check (t : ℕ)
  | moveAside (t : ℕ)
  | expire (t h : ℕ) (now : Time)
  | reclaim (t : ℕ)
  | collect (t : ℕ)
  | list (t : ℕ) (found : List (List String))
  | sweep (t : ℕ)

namespace World

/-- A thread goes on. -/
def goOn (w : World β) (t : ℕ) (th : Thread β) : World β :=
  { w with threads := Function.update w.threads t th }

/-- The manifest is rewritten under the lock by a manager, whose copy follows. -/
def rewrite (w : World β) (h : ℕ) (m : Manifest) : World β :=
  { w with
    manifest := m
    managers := Function.update w.managers h { w.managers h with manifest := m } }

/-- A file disappears: removed, or moved to `corrupt/`. -/
def erase (w : World β) (p : List String) : World β :=
  { w with files := Function.update w.files p none }

/-- The step of an action, if it is enabled. -/
def step (w : World β) : Action β → Option (World β)
  | .rename t h target content =>
      match w.threads t with
      | .idle =>
          if target.permitted then
            let w' := { w with
              files := Function.update w.files (dataRel target.key) (some content) }
            some (w'.goOn t (.renamed h (target.entry (w.managers h)) content))
          else none
      | _ => none
  | .commit t =>
      match w.threads t with
      | .renamed h entry content =>
          let w' := w.rewrite h (w.manifest.upsert entry)
          some ({ w' with
            committed := Function.update w.committed entry.key (some content) }.goOn t .idle)
      | _ => none
  | .invalidate t h key =>
      match w.threads t with
      | .idle =>
          let r := w.manifest.invalidate key
          some ((w.rewrite h r.1).goOn t (match r.2 with
            | some entry => .removing entry.filePath.rel
            | none => .idle))
      | _ => none
  | .dropMaterialized t h name =>
      match w.threads t with
      | .idle =>
          let r := w.manifest.dropMaterialized name
          some ((w.rewrite h r.1).goOn t (match r.2 with
            | some entry => .removing entry.filePath.rel
            | none => .idle))
      | _ => none
  | .remove t =>
      match w.threads t with
      | .removing p => some ((w.erase p).goOn t .idle)
      | _ => none
  | .quarantine t h entry =>
      -- cached reads are of source tables
      match w.threads t with
      | .idle =>
          if entry.source = materializedSchema then none
          else some ((w.rewrite h (w.manifest.quarantine entry.key entry)).goOn t
            (.suspecting entry.filePath.rel))
      | _ => none
  | .check t =>
      match w.threads t with
      | .suspecting p => some (w.goOn t (if (w.files p).isSome then .moving p else .idle))
      | _ => none
  | .moveAside t =>
      match w.threads t with
      | .moving p => some ((w.erase p).goOn t .idle)
      | _ => none
  | .expire t h now =>
      match w.threads t with
      | .idle =>
          let r := w.manifest.vacuum now
          some ((w.rewrite h r.1).goOn t (.reclaiming h (r.2.map fun e => e.filePath.rel)))
      | _ => none
  | .reclaim t =>
      match w.threads t with
      | .reclaiming h (p :: ps) => some ((w.erase p).goOn t (.reclaiming h ps))
      | _ => none
  | .collect t =>
      match w.threads t with
      | .reclaiming h [] =>
          some (w.goOn t (.listing h ((w.managers h).manifest.entries.map fun e => e.filePath)))
      | _ => none
  | .list t found =>
      -- what a listing finds is there
      match w.threads t with
      | .listing h referenced =>
          if found.all fun p => isData p && (w.files p).isSome then
            some (w.goOn t (.sweeping h referenced found))
          else none
      | _ => none
  | .sweep t =>
      match w.threads t with
      | .sweeping h referenced (p :: ps) =>
          let w' := if (⟨(w.managers h).root, p⟩ : FilePath) ∈ referenced then w else w.erase p
          some (w'.goOn t (.sweeping h referenced ps))
      | .sweeping _ _ [] => some (w.goOn t .idle)
      | _ => none

/-- Every operation has ended. -/
def Quiesced (w : World β) : Prop := ∀ t, w.threads t = .idle

/-- Every entry has its file, with the content of the last committed write. -/
def Safe (w : World β) : Prop :=
  ∀ e ∈ w.manifest.entries, ∃ c, w.files e.filePath.rel = some c ∧ w.committed e.key = some c

end World

/-- A materialized table stays in the manifest unless it is explicitly dropped. -/
def PinnedKept (w : World β) (a : Action β) (w' : World β) : Prop :=
  ∀ e ∈ w.manifest.entries, e.origin = .materialized →
    (∃ e' ∈ w'.manifest.entries, e'.key = e.key ∧ e'.origin = .materialized) ∨
      (∃ t h, a = .invalidate t h e.key) ∨ ∃ t h, a = .dropMaterialized t h e.table

end Cache
end Pawrly
