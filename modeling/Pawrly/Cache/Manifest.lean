import Pawrly.Semantic.Types
import Mathlib.Data.List.Nodup
import Mathlib.Data.Int.Notation

/-!
# The cache manifest

`pawrly-engine/src/cache.rs`: the entries of the manifest, the edits that the operations make to
it under the manifest lock, and what these keep.  An entry's file lies at the data path of its
table, and a manifest has at most one entry for a table.
-/

namespace Pawrly
namespace Cache

open Semantic

/-! ## Entries -/

/-- A time; expiry compares times only. -/
abbrev Time := ℤ

/-- What produced a manifest entry. -/
inductive Origin
  | cacheCopy
  | materialized
  deriving DecidableEq

def Origin.isMaterialized : Origin → Bool
  | cacheCopy => false
  | materialized => true

/-- A path below a cache root, with the root as it was spelled by the process that wrote it.
Processes may spell the root of one cache differently. -/
structure FilePath where
  root : String
  rel : List String
  deriving DecidableEq

/-- The reserved schema of materialized tables. -/
def materializedSchema : String := "materialized"

/-- The place of a table's data file below the root. -/
def dataRel (key : TableName) : List String :=
  ["data", key.schema, key.table, "part-000000.parquet"]

/-- One cache entry. -/
structure ManifestEntry where
  source : String
  table : String
  expiresAt : Option Time
  filePath : FilePath
  origin : Origin
  placed : filePath.rel = dataRel ⟨source, table⟩
  deriving DecidableEq

/-- The table of an entry. -/
def ManifestEntry.key (e : ManifestEntry) : TableName := ⟨e.source, e.table⟩

/-- The entry has not expired. -/
def ManifestEntry.live (now : Time) (e : ManifestEntry) : Bool :=
  match e.expiresAt with
  | none => true
  | some exp => now < exp

/-- Vacuum never drops a materialized entry. -/
def ManifestEntry.keptByVacuum (now : Time) (e : ManifestEntry) : Bool :=
  e.origin.isMaterialized || e.live now

lemma dataRel_injective : Function.Injective dataRel := by
  intro a b h
  simp only [dataRel, List.cons.injEq, true_and] at h
  obtain ⟨schema, table⟩ := a
  obtain ⟨schema', table'⟩ := b
  rw [TableName.mk.injEq]
  exact ⟨h.1, h.2.1⟩

lemma ManifestEntry.rel_eq (e : ManifestEntry) : e.filePath.rel = dataRel e.key := e.placed

/-! ## Manifests -/

/-- The manifest: at most one entry for a table. -/
structure Manifest where
  version : ℕ
  entries : List ManifestEntry
  keys_nodup : (entries.map ManifestEntry.key).Nodup
  deriving DecidableEq

/-- The manifest a reader falls back to. -/
def Manifest.empty : Manifest where
  version := 1
  entries := []
  keys_nodup := List.nodup_nil

lemma Manifest.eq_of_key (m : Manifest) {e e' : ManifestEntry} (he : e ∈ m.entries)
    (he' : e' ∈ m.entries) (h : e.key = e'.key) : e = e' :=
  List.inj_on_of_nodup_map m.keys_nodup he he' h

/-- Keep the entries that satisfy a test. -/
def Manifest.retain (m : Manifest) (p : ManifestEntry → Bool) : Manifest where
  version := m.version
  entries := m.entries.filter p
  keys_nodup := m.keys_nodup.sublist (List.filter_sublist.map _)

/-- Remove the first entry that satisfies a test. -/
def Manifest.removeFirst (m : Manifest) (p : ManifestEntry → Bool) : Manifest where
  version := m.version
  entries := m.entries.eraseP p
  keys_nodup := m.keys_nodup.sublist ((List.eraseP_sublist).map _)

/-- Replace any entry of the table by a new one. -/
def Manifest.upsert (m : Manifest) (entry : ManifestEntry) : Manifest where
  version := m.version
  entries := m.entries.filter (fun e => e.key ≠ entry.key) ++ [entry]
  keys_nodup := by
    rw [List.map_append, List.map_singleton, List.nodup_append]
    refine ⟨m.keys_nodup.sublist (List.filter_sublist.map _), List.nodup_singleton _, ?_⟩
    intro k hk k' hk'
    obtain ⟨e, he, rfl⟩ := List.mem_map.mp hk
    rw [List.mem_singleton.mp hk']
    simpa using (List.mem_filter.mp he).2

/-- `invalidate`: the entry of the table. -/
def Manifest.invalidate (m : Manifest) (key : TableName) : Manifest × Option ManifestEntry :=
  (m.removeFirst fun e => e.key = key, m.entries.find? fun e => e.key = key)

/-- `drop_materialized`: the entry of the table, if it is materialized. -/
def Manifest.dropMaterialized (m : Manifest) (name : String) :
    Manifest × Option ManifestEntry :=
  let test := fun e : ManifestEntry =>
    decide (e.key = ⟨materializedSchema, name⟩) && e.origin.isMaterialized
  (m.removeFirst test, m.entries.find? test)

/-- `quarantine`: the entries of the table with the file of the given entry. -/
def Manifest.quarantine (m : Manifest) (key : TableName) (entry : ManifestEntry) : Manifest :=
  m.retain fun e => !(decide (e.key = key) && decide (e.filePath = entry.filePath))

/-- `vacuum`: the expired entries. -/
def Manifest.vacuum (m : Manifest) (now : Time) : Manifest × List ManifestEntry :=
  (m.retain fun e => e.keptByVacuum now, m.entries.filter fun e => !e.keptByVacuum now)

/-! ## What the edits keep -/

lemma mem_eraseP_of_not {p : ManifestEntry → Bool} {l : List ManifestEntry} {e : ManifestEntry}
    (he : e ∈ l) (hp : p e = false) : e ∈ l.eraseP p := by
  rw [List.mem_eraseP_of_neg (by simp [hp])]
  exact he

lemma Manifest.mem_removeFirst {m : Manifest} {p : ManifestEntry → Bool} {e : ManifestEntry}
    (he : e ∈ (m.removeFirst p).entries) : e ∈ m.entries :=
  List.mem_of_mem_eraseP he

lemma Manifest.mem_upsert {m : Manifest} {entry e : ManifestEntry} :
    e ∈ (m.upsert entry).entries ↔ (e ∈ m.entries ∧ e.key ≠ entry.key) ∨ e = entry := by
  simp [Manifest.upsert]

/-- After `invalidate` the table has no entry. -/
lemma Manifest.invalidate_key {m : Manifest} {key : TableName} {e : ManifestEntry}
    (he : e ∈ (m.invalidate key).1.entries) : e.key ≠ key := by
  intro hkey
  have hmem := Manifest.mem_removeFirst he
  obtain ⟨front, back, hfront, hsplit⟩ : ∃ front back : List ManifestEntry,
      (∀ x ∈ front, x.key ≠ key) ∧ m.entries = front ++ e :: back := by
    obtain ⟨front, back, hsplit⟩ := List.append_of_mem hmem
    refine ⟨front, back, fun x hx hxkey => ?_, hsplit⟩
    have hnodup := m.keys_nodup
    rw [hsplit, List.map_append, List.map_cons, List.nodup_append] at hnodup
    exact hnodup.2.2 x.key (List.mem_map_of_mem hx) e.key List.mem_cons_self
      (hxkey.trans hkey.symm)
  have hnodup := m.keys_nodup
  rw [hsplit, List.map_append, List.map_cons, List.nodup_append, List.nodup_cons] at hnodup
  have herase : (m.invalidate key).1.entries = front ++ back := by
    show m.entries.eraseP _ = _
    rw [hsplit, List.eraseP_append_right _ (fun x hx => by simpa using hfront x hx),
      List.eraseP_cons_of_pos (by simpa using hkey)]
  rw [herase] at he
  rcases List.mem_append.mp he with h | h
  · exact hfront e h hkey
  · exact hnodup.2.1.1 (List.mem_map_of_mem h)

end Cache
end Pawrly
