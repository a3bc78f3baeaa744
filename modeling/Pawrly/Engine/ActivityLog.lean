import Mathlib.Tactic.Common
import Mathlib.Algebra.Group.Int.Defs
import Mathlib.Data.Int.Notation
import Mathlib.Data.Int.Order.Basic

/-!
# The durable activity log

Records are buffered in memory and flushed in batches to files that a manifest lists; a read takes
the files of the manifest and then the buffer.  The steps are those between which another thread
can run: a flush empties the buffer, writes its file and lists it; a read takes the manifest, opens
the files one by one and takes the buffer; a prune holds the lock of the manifest while it removes
files.
-/

namespace Pawrly
namespace Engine
namespace DurableActivity

/-- A record, told apart by the call that it comes from. -/
structure ActivityRecord where
  call : ℕ
  atMicros : ℤ
  deriving DecidableEq

/-- A file of the manifest, with the range of its records.  Names of files are never reused. -/
structure FileEntry where
  path : ℕ
  minAt : ℤ
  maxAt : ℤ
  rows : ℕ
  deriving DecidableEq

/-- A flush that has emptied the buffer: the call that runs it, and its file once it is written. -/
structure Flush where
  call : Option ActivityRecord
  records : List ActivityRecord
  entry : Option FileEntry := none

/-- A read: the records whose calls were over when it started, the files of its manifest that are
left, and what it has found. -/
structure Reader where
  required : List ActivityRecord
  todo : Option (List FileEntry) := none
  found : List ActivityRecord := []

/-- A prune, which holds the lock of the manifest. -/
structure Prune where
  cutoff : ℤ
  todo : List FileEntry

/-- A finished read. -/
structure Read where
  required : List ActivityRecord
  returned : List ActivityRecord
  endedAt : ℤ

/-- The settings of a store (`flush_threshold`, `retention`). -/
structure StoreConfig where
  flushThreshold : ℕ
  retention : Option ℤ

structure ActivityStore where
  clock : ℤ := 0
  pending : List ActivityRecord := []
  accepted : List ActivityRecord := []
  completed : List ActivityRecord := []
  /-- The calls that found the buffer full and have to flush it. -/
  full : List ActivityRecord := []
  flushes : List Flush := []
  disk : ℕ → Option (List ActivityRecord) := fun _ => none
  nextPath : ℕ := 0
  manifest : List FileEntry := []
  prune : Option Prune := none
  readers : List Reader := []
  reads : List Read := []

namespace ActivityStore

/-- `i64::MAX` and `i64::MIN`. -/
def maxI64 : ℤ := 2 ^ 63 - 1

def minI64 : ℤ := -2 ^ 63

/-- The range of the times of some records. -/
def timeRange (records : List ActivityRecord) : ℤ × ℤ :=
  records.foldl (fun range r => (min range.1 r.atMicros, max range.2 r.atMicros)) (maxI64, minI64)

/-- The manifest entry of a file. -/
def fileEntry (path : ℕ) (records : List ActivityRecord) : FileEntry where
  path := path
  minAt := (timeRange records).1
  maxAt := (timeRange records).2
  rows := records.length

/-- The records that reading a file gives; a missing file is skipped. -/
def contents (s : ActivityStore) (path : ℕ) : List ActivityRecord := (s.disk path).getD []

/-- The records of some files. -/
def recordsOf (s : ActivityStore) (entries : List FileEntry) : List ActivityRecord :=
  entries.flatMap fun e => s.contents e.path

inductive Action
  | tick (d : ℕ)
  | record (r : ActivityRecord)
  | take (call : Option ActivityRecord)
  | write (i : ℕ)
  | writeFail (i : ℕ)
  | commit (i : ℕ)
  | commitFail (i : ℕ)
  | startPrune (waited : ℕ)
  | removeFile (removed : Bool)
  | endPrune (written : Bool)
  | startRead
  | readManifest (i : ℕ)
  | readFile (i : ℕ)
  | readPending (i : ℕ)

variable (config : StoreConfig)

/-- `record`: push the record; a call that finds the buffer full goes on with a flush. -/
def push (s : ActivityStore) (r : ActivityRecord) : ActivityStore :=
  let pending := s.pending ++ [r]
  if config.flushThreshold ≤ pending.length then
    { s with pending := pending, accepted := r :: s.accepted, full := r :: s.full }
  else
    { s with pending := pending, accepted := r :: s.accepted, completed := r :: s.completed }

/-- The first step of `flush`: take the buffer. -/
def takePending (s : ActivityStore) (call : Option ActivityRecord) : ActivityStore :=
  let full := s.full.filter fun r => call ≠ some r
  if s.pending = [] then { s with full := full, completed := call.toList ++ s.completed }
  else
    { s with
      full := full
      pending := []
      flushes := s.flushes ++ [{ call := call, records := s.pending }] }

/-- The file of a flush is written. -/
def writeFile (s : ActivityStore) (i : ℕ) (f : Flush) : ActivityStore :=
  { s with
    disk := fun p => if p = s.nextPath then some f.records else s.disk p
    nextPath := s.nextPath + 1
    flushes := s.flushes.set i { f with entry := some (fileEntry s.nextPath f.records) } }

/-- A flush ends, and the call that ran it returns. -/
def endFlush (s : ActivityStore) (i : ℕ) (f : Flush) : ActivityStore :=
  { s with flushes := s.flushes.eraseIdx i, completed := f.call.toList ++ s.completed }

/-- One step; `none` when it is not possible. -/
def step (s : ActivityStore) : Action → Option ActivityStore
  | .tick d => some { s with clock := s.clock + d }
  | .record r => if r ∈ s.accepted then none else some (s.push config r)
  | .take call =>
      if call.all fun r => r ∈ s.full then some (s.takePending call) else none
  | .write i =>
      match s.flushes[i]? with
      | some f => if f.entry = none then some (s.writeFile i f) else none
      | none => none
  | .writeFail i =>
      match s.flushes[i]? with
      | some f => if f.entry = none then some (s.endFlush i f) else none
      | none => none
  | .commit i =>
      match s.flushes[i]?, s.prune with
      | some f, none => f.entry.map fun e => { s.endFlush i f with manifest := s.manifest ++ [e] }
      | _, _ => none
  | .commitFail i =>
      match s.flushes[i]? with
      | some f => if f.entry = none then none else some (s.endFlush i f)
      | none => none
  | .startPrune waited =>
      match config.retention, s.prune with
      | some retention, none =>
          -- the time is read before the lock is granted
          let cutoff := s.clock - waited - retention
          some { s with prune := some ⟨cutoff, s.manifest.filter fun e => e.maxAt < cutoff⟩ }
      | _, _ => none
  | .removeFile removed =>
      match s.prune with
      | some ⟨cutoff, e :: todo⟩ => some { s with
          disk := fun p => if removed = true ∧ p = e.path then none else s.disk p
          prune := some ⟨cutoff, todo⟩ }
      | _ => none
  | .endPrune written =>
      match s.prune with
      | some ⟨cutoff, []⟩ => some { s with
          manifest := if written then s.manifest.filter fun e => cutoff ≤ e.maxAt else s.manifest
          prune := none }
      | _ => none
  | .startRead => some { s with readers := s.readers ++ [{ required := s.completed }] }
  | .readManifest i =>
      match s.readers[i]? with
      | some reader =>
          if reader.todo = none then
            some { s with readers := s.readers.set i { reader with todo := some s.manifest } }
          else none
      | none => none
  | .readFile i =>
      match s.readers[i]? with
      | some ⟨required, some (e :: todo), found⟩ => some { s with
          readers := s.readers.set i ⟨required, some todo, found ++ s.contents e.path⟩ }
      | _ => none
  | .readPending i =>
      match s.readers[i]? with
      | some ⟨required, some [], found⟩ => some { s with
          readers := s.readers.eraseIdx i
          reads := ⟨required, found ++ s.pending, s.clock⟩ :: s.reads }
      | _ => none

/-! ## What the steps do -/

section

variable {config} {s s' : ActivityStore} {i : ℕ}

lemma step_take {call : Option ActivityRecord} (h : step config s (.take call) = some s') :
    (∀ r, call = some r → r ∈ s.full) ∧ s' = s.takePending call := by
  simp only [step] at h
  split_ifs at h with hcall
  refine ⟨?_, (Option.some.inj h).symm⟩
  rintro r rfl
  simpa using hcall

lemma step_write (h : step config s (.write i) = some s') :
    ∃ f, s.flushes[i]? = some f ∧ f.entry = none ∧ s' = s.writeFile i f := by
  simp only [step] at h
  split at h
  · next f hf =>
      split_ifs at h with hentry
      exact ⟨f, hf, hentry, (Option.some.inj h).symm⟩
  · cases h

/-- A flush that fails, at either write. -/
lemma step_fail (h : step config s (.writeFail i) = some s' ∨ step config s (.commitFail i) = some s') :
    ∃ f, s.flushes[i]? = some f ∧ s' = s.endFlush i f := by
  rcases h with h | h
  · simp only [step] at h
    split at h
    · next f hf =>
        split_ifs at h with hentry
        exact ⟨f, hf, (Option.some.inj h).symm⟩
    · cases h
  · simp only [step] at h
    split at h
    · next f hf =>
        split_ifs at h with hentry
        exact ⟨f, hf, (Option.some.inj h).symm⟩
    · cases h

lemma step_commit (h : step config s (.commit i) = some s') :
    ∃ f e, s.flushes[i]? = some f ∧ f.entry = some e ∧
      s' = { s.endFlush i f with manifest := s.manifest ++ [e] } := by
  simp only [step] at h
  split at h
  · next f hf _ =>
      obtain ⟨e, he, hs'⟩ := Option.map_eq_some_iff.mp h
      exact ⟨f, e, hf, he, hs'.symm⟩
  · cases h

lemma step_startPrune {waited : ℕ} (h : step config s (.startPrune waited) = some s') :
    ∃ retention, config.retention = some retention ∧ s' = { s with
      prune := some ⟨s.clock - waited - retention,
        s.manifest.filter fun e => e.maxAt < s.clock - waited - retention⟩ } := by
  simp only [step] at h
  split at h
  · next retention hret _ => exact ⟨retention, hret, (Option.some.inj h).symm⟩
  · cases h

lemma step_removeFile {removed : Bool} (h : step config s (.removeFile removed) = some s') :
    ∃ cutoff e todo, s.prune = some ⟨cutoff, e :: todo⟩ ∧ s' = { s with
      disk := fun p => if removed = true ∧ p = e.path then none else s.disk p
      prune := some ⟨cutoff, todo⟩ } := by
  simp only [step] at h
  split at h
  · next cutoff e todo hprune => exact ⟨cutoff, e, todo, hprune, (Option.some.inj h).symm⟩
  · cases h

lemma step_endPrune {written : Bool} (h : step config s (.endPrune written) = some s') :
    ∃ cutoff, s.prune = some ⟨cutoff, []⟩ ∧ s' = { s with
      manifest := if written then s.manifest.filter fun e => cutoff ≤ e.maxAt else s.manifest
      prune := none } := by
  simp only [step] at h
  split at h
  · next cutoff hprune => exact ⟨cutoff, hprune, (Option.some.inj h).symm⟩
  · cases h

lemma step_readManifest (h : step config s (.readManifest i) = some s') :
    ∃ reader, s.readers[i]? = some reader ∧ reader.todo = none ∧
      s' = { s with readers := s.readers.set i { reader with todo := some s.manifest } } := by
  simp only [step] at h
  split at h
  · next reader hreader =>
      split_ifs at h with htodo
      exact ⟨reader, hreader, htodo, (Option.some.inj h).symm⟩
  · cases h

lemma step_readFile (h : step config s (.readFile i) = some s') :
    ∃ required e todo found, s.readers[i]? = some ⟨required, some (e :: todo), found⟩ ∧
      s' = { s with readers := s.readers.set i ⟨required, some todo, found ++ s.contents e.path⟩ } := by
  simp only [step] at h
  split at h
  · next required e todo found hreader =>
      exact ⟨required, e, todo, found, hreader, (Option.some.inj h).symm⟩
  · cases h

lemma step_readPending (h : step config s (.readPending i) = some s') :
    ∃ required found, s.readers[i]? = some ⟨required, some [], found⟩ ∧ s' = { s with
      readers := s.readers.eraseIdx i
      reads := ⟨required, found ++ s.pending, s.clock⟩ :: s.reads } := by
  simp only [step] at h
  split at h
  · next required found hreader => exact ⟨required, found, hreader, (Option.some.inj h).symm⟩
  · cases h

/-- The clock does not go back, and only the last step of a read finishes it. -/
lemma step_frame {a : Action} (hstep : step config s a = some s') :
    s.clock ≤ s'.clock ∧ ((∀ i, a ≠ .readPending i) → s'.reads = s.reads) := by
  cases a with
  | tick d =>
      cases hstep
      refine ⟨?_, fun _ => rfl⟩
      show s.clock ≤ s.clock + d
      omega
  | record r =>
      simp only [step] at hstep
      split_ifs at hstep
      cases hstep
      unfold push
      dsimp only
      split_ifs
      · exact ⟨le_refl _, fun _ => rfl⟩
      · exact ⟨le_refl _, fun _ => rfl⟩
  | take call =>
      obtain ⟨-, rfl⟩ := step_take hstep
      unfold takePending
      dsimp only
      split_ifs
      · exact ⟨le_refl _, fun _ => rfl⟩
      · exact ⟨le_refl _, fun _ => rfl⟩
  | write i =>
      obtain ⟨f, -, -, rfl⟩ := step_write hstep
      exact ⟨le_refl _, fun _ => rfl⟩
  | writeFail i =>
      obtain ⟨f, -, rfl⟩ := step_fail (Or.inl hstep)
      exact ⟨le_refl _, fun _ => rfl⟩
  | commit i =>
      obtain ⟨f, e, -, -, rfl⟩ := step_commit hstep
      exact ⟨le_refl _, fun _ => rfl⟩
  | commitFail i =>
      obtain ⟨f, -, rfl⟩ := step_fail (Or.inr hstep)
      exact ⟨le_refl _, fun _ => rfl⟩
  | startPrune waited =>
      obtain ⟨retention, -, rfl⟩ := step_startPrune hstep
      exact ⟨le_refl _, fun _ => rfl⟩
  | removeFile removed =>
      obtain ⟨cutoff, e, todo, -, rfl⟩ := step_removeFile hstep
      exact ⟨le_refl _, fun _ => rfl⟩
  | endPrune written =>
      obtain ⟨cutoff, -, rfl⟩ := step_endPrune hstep
      exact ⟨le_refl _, fun _ => rfl⟩
  | startRead =>
      cases hstep
      exact ⟨le_refl _, fun _ => rfl⟩
  | readManifest i =>
      obtain ⟨reader, -, -, rfl⟩ := step_readManifest hstep
      exact ⟨le_refl _, fun _ => rfl⟩
  | readFile i =>
      obtain ⟨required, e, todo, found, -, rfl⟩ := step_readFile hstep
      exact ⟨le_refl _, fun _ => rfl⟩
  | readPending i =>
      obtain ⟨required, found, -, rfl⟩ := step_readPending hstep
      exact ⟨le_refl _, fun ha => absurd rfl (ha i)⟩

end

end ActivityStore

end DurableActivity
end Engine
end Pawrly
