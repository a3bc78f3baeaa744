import Pawrly.Cache.Operations
import Pawrly.Lib.LabelledRun

/-!
# What manifest operations leave alone

An operation that fails changes nothing, and one that succeeds leaves the entries it was not
asked to touch in the manifest, with their files (`Kept`).  `kept_iff` says from which states
every sequence of operations does so: an unreadable manifest must hold no entry, since it is
replaced by an empty one, and every stored file must be recorded under the spelling of the root
that `vacuum` compares it with.
-/

namespace Pawrly
namespace Cache

open Semantic LabelledRun

variable {β : Type*}

/-! ## The property -/

/-- The entries an operation is asked to change. -/
def Op.touches : Op → ManifestEntry → Prop
  | .upsert key _ _, e => e.key = key
  | .invalidate key, e => e.key = key
  | .dropMaterialized name, e => e.key = ⟨materializedSchema, name⟩
  | .quarantine entry _, e => e.key = entry.key
  | .vacuum now _, e => e.keptByVacuum now = false

/-- Nothing changed but what is neither the manifest nor data. -/
def Unchanged (d d' : Disk β) : Prop :=
  d'.manifest = d.manifest ∧ ∀ p, isData p = true → d'.files p = d.files p

/-- The other entries are still there, and so are their files. -/
def OthersKept (op : Op) (d d' : Disk β) : Prop :=
  ∀ e ∈ d.manifest.held, ¬ op.touches e → e ∈ d'.manifest.held ∧
    ((d.files e.filePath.rel).isSome → (d'.files e.filePath.rel).isSome)

/-- A step of an operation loses nothing it was not asked to touch. -/
def Kept (s : Store β) (a : Op × Faults) (s' : Store β) : Prop :=
  (((s.run a.1 a.2).1 = false ∧ Unchanged s.disk s'.disk) ∨ OthersKept a.1 s.disk s'.disk) ∧
    (s'.disk.manifest.held.map ManifestEntry.key).Nodup

/-- An unreadable manifest holds no entry, and stored files are recorded under the manager's
spelling of the root. -/
structure Recoverable (s : Store β) : Prop where
  readable : ∀ m, s.disk.manifest = .unreadable m → m.entries = []
  spelled : ∀ e ∈ s.disk.manifest.held, (s.disk.files e.filePath.rel).isSome →
    e.filePath.root = s.mgr.root

/-! ## The locked manifest -/

lemma ManifestFile.held_nodup (f : ManifestFile) : (f.held.map ManifestEntry.key).Nodup := by
  cases f with
  | absent => exact List.nodup_nil
  | valid m => exact m.keys_nodup
  | unreadable m => exact m.keys_nodup

lemma Recoverable.read_eq {s : Store β} (h : Recoverable s) :
    s.disk.manifest.read.entries = s.disk.manifest.held := by
  cases hm : s.disk.manifest with
  | absent => rfl
  | valid m => rfl
  | unreadable m => exact (h.readable m hm).symm

/-- The two outcomes of an edit under the lock. -/
lemma withLockedManifest_cases {α : Type*} (mgr : CacheManager) (io : Faults) (disk : Disk β)
    (f : Manifest → Manifest × α) :
    (∃ err, mgr.withLockedManifest io disk f = .error err) ∨
      mgr.withLockedManifest io disk f = .ok ((f disk.manifest.read).2,
        { mgr with manifest := (f disk.manifest.read).1 },
        { disk with manifest := .valid (f disk.manifest.read).1 }) := by
  unfold CacheManager.withLockedManifest
  cases io.lock with
  | some err => exact .inl ⟨err, rfl⟩
  | none =>
      cases io.write with
      | some err => exact .inl ⟨err, rfl⟩
      | none => exact .inr rfl

/-! ## Files -/

lemma isData_rel (e : ManifestEntry) : isData e.filePath.rel = true := by
  rw [e.rel_eq]
  rfl

lemma removeFile_of_ne {io : Faults} {files : List String → Option β} {p p' : List String}
    (h : p' ≠ p) : removeFile io files p p' = files p' := by
  unfold removeFile
  split_ifs
  · rfl
  · exact Function.update_of_ne h _ _

/-- Removing files brings none back. -/
lemma removeFile_isSome {io : Faults} {files : List String → Option β} {p p' : List String}
    (h : (removeFile io files p p').isSome) : (files p').isSome := by
  by_cases hp : p' = p
  · unfold removeFile at h
    split_ifs at h
    · exact h
    · rw [hp, Function.update_self] at h
      cases h
  · rwa [removeFile_of_ne hp] at h

lemma moveAside_of_ne {io : Faults} {files : List String → Option β} {p dest p' : List String}
    (h : p' ≠ p) (hdest : p' ≠ dest) : moveAside io files p dest p' = files p' := by
  unfold moveAside
  split_ifs
  · rfl
  · exact removeFile_of_ne h
  · rw [Function.update_of_ne hdest, Function.update_of_ne h]

lemma moveAside_isSome {io : Faults} {files : List String → Option β} {p dest p' : List String}
    (hdest : p' ≠ dest) (h : (moveAside io files p dest p').isSome) : (files p').isSome := by
  by_cases hp : p' = p
  · unfold moveAside at h
    split_ifs at h
    · exact h
    · exact removeFile_isSome h
    · rw [Function.update_of_ne hdest, hp, Function.update_self] at h
      cases h
  · rwa [moveAside_of_ne hp hdest] at h

lemma rel_ne_corrupt (e : ManifestEntry) (key : TableName) (fresh : String)
    (entry : ManifestEntry) : e.filePath.rel ≠ corruptRel key fresh entry := by
  rw [e.rel_eq]
  intro h
  exact absurd (List.cons.inj h).1 (by decide)

lemma foldl_removeFile_of_ne {io : Faults} {es : List ManifestEntry} {p : List String}
    (h : ∀ e ∈ es, p ≠ e.filePath.rel) (files : List String → Option β) :
    es.foldl (fun files e => removeFile io files e.filePath.rel) files p = files p := by
  induction es generalizing files with
  | nil => rfl
  | cons e es ih =>
      rw [List.foldl_cons, ih fun e' he' => h e' (List.mem_cons_of_mem _ he')]
      exact removeFile_of_ne (h e List.mem_cons_self)

lemma foldl_removeFile_isSome {io : Faults} {es : List ManifestEntry} {p : List String}
    (files : List String → Option β)
    (h : (es.foldl (fun files e => removeFile io files e.filePath.rel) files p).isSome) :
    (files p).isSome := by
  induction es generalizing files with
  | nil => exact h
  | cons e es ih => exact removeFile_isSome (ih _ h)

lemma sweepData_isSome {mgr : CacheManager} {io : Faults} {files : List String → Option β}
    {p : List String} (h : (mgr.sweepData io files p).isSome) : (files p).isSome := by
  unfold CacheManager.sweepData at h
  split_ifs at h
  · cases h
  · exact h

lemma sweepTmp_data {io : Faults} {old : List String → Bool} {files : List String → Option β}
    (e : ManifestEntry) : sweepTmp io old files e.filePath.rel = files e.filePath.rel := by
  unfold sweepTmp
  rw [e.rel_eq]
  rfl

/-! ## One operation -/

/-- The effect of an operation: it fails without effect on the store's manager, manifest and
data, or it edits what it read. -/
structure Effect (s : Store β) (op : Op) (s' : Store β) : Prop where
  root : s'.mgr.root = s.mgr.root
  /-- The entries afterwards. -/
  entries : ∀ e, e ∈ s'.disk.manifest.held → e ∈ s.disk.manifest.held ∨
    e.filePath.root = s.mgr.root
  /-- No entry's file appears. -/
  files : ∀ e : ManifestEntry, (s'.disk.files e.filePath.rel).isSome →
    (s.disk.files e.filePath.rel).isSome
  readable : ∀ m, s'.disk.manifest = .unreadable m → s.disk.manifest = .unreadable m

lemma Effect.recoverable {s s' : Store β} {op : Op} (h : Effect s op s')
    (hs : Recoverable s) : Recoverable s' where
  readable := fun m hm => hs.readable m (h.readable m hm)
  spelled := fun e he hfile => by
    rw [h.root]
    rcases h.entries e he with hmem | hroot
    · exact hs.spelled e hmem (h.files e hfile)
    · exact hroot

lemma Effect.refl (s : Store β) (op : Op) : Effect s op s :=
  ⟨rfl, fun _ he => .inl he, fun _ h => h, fun _ h => h⟩

lemma mem_held_of_read {f : ManifestFile} {e : ManifestEntry} (h : e ∈ f.read.entries) :
    e ∈ f.held := by
  cases f with
  | absent => cases h
  | valid m => exact h
  | unreadable m => cases h

/-- An operation fails without effect or keeps the other entries. -/
def Harmless (s : Store β) (op : Op) (io : Faults) : Prop :=
  ((s.run op io).1 = false ∧ Unchanged s.disk (s.run op io).2.disk) ∨
    OthersKept op s.disk (s.run op io).2.disk

/-- Removing the entry of an edit and its file. -/
lemma removeEntry_spec {s : Store β} {op : Op} {io : Faults}
    (edit : Manifest → Manifest × Option ManifestEntry)
    (hsub : ∀ m e, e ∈ (edit m).1.entries → e ∈ m.entries)
    (hkeep : ∀ m e, e ∈ m.entries → ¬ op.touches e → e ∈ (edit m).1.entries)
    (hentry : ∀ m entry, (edit m).2 = some entry → ∀ e : ManifestEntry, ¬ op.touches e →
      e.key ≠ entry.key)
    (hrun : s.run op io = (s.mgr.removeEntry io s.disk edit).finish) :
    Effect s op (s.run op io).2 ∧ (Recoverable s → Harmless s op io) := by
  unfold Harmless
  rw [hrun]
  unfold CacheManager.removeEntry
  rcases withLockedManifest_cases s.mgr io s.disk edit with ⟨err, herr⟩ | hok
  · rw [herr]
    exact ⟨Effect.refl s op, fun _ => .inl ⟨rfl, rfl, fun _ _ => rfl⟩⟩
  · rw [hok]
    cases hfound : (edit s.disk.manifest.read).2 with
    | none =>
        refine ⟨⟨rfl, fun e he => .inl (mem_held_of_read (hsub _ e he)), fun _ h => h,
          fun m h => by cases h⟩, fun hs => .inr fun e he htouch => ⟨?_, fun h => h⟩⟩
        exact hkeep _ e (by rw [hs.read_eq]; exact he) htouch
    | some entry =>
        refine ⟨⟨rfl, fun e he => .inl (mem_held_of_read (hsub _ e he)),
          fun e h => removeFile_isSome h, fun m h => by cases h⟩,
          fun hs => .inr fun e he htouch => ⟨?_, fun h => ?_⟩⟩
        · exact hkeep _ e (by rw [hs.read_eq]; exact he) htouch
        · have hne : e.filePath.rel ≠ entry.filePath.rel := by
            rw [e.rel_eq, entry.rel_eq]
            exact fun heq => hentry _ _ hfound e htouch (dataRel_injective heq)
          show (removeFile io s.disk.files entry.filePath.rel e.filePath.rel).isSome
          rw [removeFile_of_ne hne]
          exact h

lemma upsert_spec (s : Store β) (key : TableName) (expiresAt : Option Time) (origin : Origin)
    (io : Faults) : Effect s (.upsert key expiresAt origin)
      (s.run (.upsert key expiresAt origin) io).2 ∧
      (Recoverable s → Harmless s (.upsert key expiresAt origin) io) := by
  unfold Harmless Store.run CacheManager.upsert
  dsimp only
  rcases withLockedManifest_cases s.mgr io s.disk
    fun m => (m.upsert (s.mgr.newEntry key expiresAt origin), ()) with ⟨err, herr⟩ | hok
  · rw [herr]
    exact ⟨Effect.refl s _, fun _ => .inl ⟨rfl, rfl, fun _ _ => rfl⟩⟩
  · rw [hok]
    refine ⟨⟨rfl, fun e he => ?_, fun _ h => h, fun m h => by cases h⟩,
      fun hs => .inr fun e he htouch => ⟨?_, fun h => h⟩⟩
    · rcases Manifest.mem_upsert.mp he with ⟨hmem, _⟩ | rfl
      · exact .inl (mem_held_of_read hmem)
      · exact .inr rfl
    · exact Manifest.mem_upsert.mpr (.inl ⟨by rw [hs.read_eq]; exact he, htouch⟩)

lemma invalidate_spec (s : Store β) (key : TableName) (io : Faults) :
    Effect s (.invalidate key) (s.run (.invalidate key) io).2 ∧
      (Recoverable s → Harmless s (.invalidate key) io) := by
  refine removeEntry_spec (fun m => m.invalidate key)
    (fun _ _ he => Manifest.mem_removeFirst he) ?_ ?_ rfl
  · intro m e he htouch
    exact mem_eraseP_of_not he (by simpa [Op.touches] using htouch)
  · intro m entry hentry e htouch heq
    have hkey := List.find?_some hentry
    rw [decide_eq_true_iff] at hkey
    exact htouch (heq.trans hkey)

lemma dropMaterialized_spec (s : Store β) (name : String) (io : Faults) :
    Effect s (.dropMaterialized name) (s.run (.dropMaterialized name) io).2 ∧
      (Recoverable s → Harmless s (.dropMaterialized name) io) := by
  refine removeEntry_spec (fun m => m.dropMaterialized name)
    (fun _ _ he => Manifest.mem_removeFirst he) ?_ ?_ rfl
  · intro m e he htouch
    have htouch : e.key ≠ ⟨materializedSchema, name⟩ := htouch
    exact mem_eraseP_of_not he (by simp [htouch])
  · intro m entry hentry e htouch heq
    have hkey := List.find?_some hentry
    rw [Bool.and_eq_true, decide_eq_true_iff] at hkey
    exact htouch (heq.trans hkey.1)

lemma quarantine_spec (s : Store β) (entry : ManifestEntry) (fresh : String) (io : Faults) :
    Effect s (.quarantine entry fresh) (s.run (.quarantine entry fresh) io).2 ∧
      (Recoverable s → Harmless s (.quarantine entry fresh) io) := by
  have hmoved : ∀ e : ManifestEntry, e.key ≠ entry.key →
      moveAside io s.disk.files entry.filePath.rel (corruptRel entry.key fresh entry)
        e.filePath.rel = s.disk.files e.filePath.rel := fun e hkey =>
    moveAside_of_ne (by
      rw [e.rel_eq, entry.rel_eq]
      exact fun heq => hkey (dataRel_injective heq)) (rel_ne_corrupt e _ _ _)
  have hfiles : ∀ e : ManifestEntry,
      (moveAside io s.disk.files entry.filePath.rel (corruptRel entry.key fresh entry)
        e.filePath.rel).isSome → (s.disk.files e.filePath.rel).isSome := fun e h =>
    moveAside_isSome (rel_ne_corrupt e _ _ _) h
  unfold Harmless Store.run CacheManager.quarantine
  dsimp only
  rcases withLockedManifest_cases s.mgr io s.disk
    fun m => (m.quarantine entry.key entry, ()) with ⟨err, herr⟩ | hok
  · -- the flush failed: the entries stay, the file is moved aside
    rw [herr]
    refine ⟨⟨rfl, fun e he => .inl he, hfiles, fun m h => h⟩,
      fun _ => .inr fun e he htouch => ⟨he, fun h => ?_⟩⟩
    show (moveAside _ _ _ _ e.filePath.rel).isSome
    rw [hmoved e htouch]
    exact h
  · rw [hok]
    refine ⟨⟨rfl, fun e he => .inl (mem_held_of_read (List.mem_filter.mp he).1), hfiles,
      fun m h => by cases h⟩, fun hs => .inr fun e he htouch => ⟨?_, fun h => ?_⟩⟩
    · refine List.mem_filter.mpr ⟨by rw [hs.read_eq]; exact he, ?_⟩
      have htouch : e.key ≠ entry.key := htouch
      simp [htouch]
    · show (moveAside _ _ _ _ e.filePath.rel).isSome
      rw [hmoved e htouch]
      exact h

lemma vacuum_spec (s : Store β) (now : Time) (oldTmp : List String → Bool) (io : Faults) :
    Effect s (.vacuum now oldTmp) (s.run (.vacuum now oldTmp) io).2 ∧
      (Recoverable s → Harmless s (.vacuum now oldTmp) io) := by
  unfold Harmless Store.run CacheManager.vacuum
  dsimp only
  rcases withLockedManifest_cases s.mgr io s.disk fun m => m.vacuum now with ⟨err, herr⟩ | hok
  · rw [herr]
    exact ⟨Effect.refl s _, fun _ => .inl ⟨rfl, rfl, fun _ _ => rfl⟩⟩
  · rw [hok]
    refine ⟨⟨rfl, fun e he => .inl (mem_held_of_read (List.mem_filter.mp he).1),
      fun e h => ?_, fun m h => by cases h⟩, fun hs => .inr fun e he htouch => ⟨?_, fun h => ?_⟩⟩
    · have h : (sweepTmp io oldTmp _ e.filePath.rel).isSome := h
      rw [sweepTmp_data] at h
      exact foldl_removeFile_isSome _ (sweepData_isSome h)
    · refine List.mem_filter.mpr ⟨by rw [hs.read_eq]; exact he, ?_⟩
      simpa [Op.touches] using htouch
    · -- the file is none of the expired ones, and the refreshed copy refers to it
      have hkept : e.keptByVacuum now = true := by simpa [Op.touches] using htouch
      have hread : e ∈ s.disk.manifest.read.entries := by rw [hs.read_eq]; exact he
      have hother : ∀ e' ∈ (s.disk.manifest.read.vacuum now).2,
          e.filePath.rel ≠ e'.filePath.rel := by
        intro e' he' heq
        obtain ⟨hmem, hexpired⟩ := List.mem_filter.mp he'
        rw [e.rel_eq, e'.rel_eq] at heq
        rw [← s.disk.manifest.read.eq_of_key hread hmem (dataRel_injective heq), hkept]
          at hexpired
        cases hexpired
      have hreferenced : ((s.disk.manifest.read.vacuum now).1.entries.any fun e' =>
          decide (e'.filePath = ⟨s.mgr.root, e.filePath.rel⟩)) = true := by
        refine List.any_eq_true.mpr ⟨e, List.mem_filter.mpr ⟨hread, hkept⟩, ?_⟩
        rw [decide_eq_true_iff, ← hs.spelled e he h]
      show (sweepTmp io oldTmp _ e.filePath.rel).isSome
      rw [sweepTmp_data]
      unfold CacheManager.sweepData
      rw [if_neg (by simp only [hreferenced]; simp), foldl_removeFile_of_ne hother]
      exact h

/-- **One operation** on a recoverable store. -/
theorem run_spec (s : Store β) (op : Op) (io : Faults) :
    Effect s op (s.run op io).2 ∧ (Recoverable s → Harmless s op io) := by
  cases op with
  | upsert key expiresAt origin => exact upsert_spec s key expiresAt origin io
  | invalidate key => exact invalidate_spec s key io
  | dropMaterialized name => exact dropMaterialized_spec s name io
  | quarantine entry fresh => exact quarantine_spec s entry fresh io
  | vacuum now oldTmp => exact vacuum_spec s now oldTmp io

/-! ## What an unrecoverable store loses -/

/-- A key other than a given one. -/
def otherKey (key : TableName) : TableName := ⟨key.schema, key.table ++ "x"⟩

lemma otherKey_ne (key : TableName) : otherKey key ≠ key := by
  intro h
  have hlen := congrArg (fun k : TableName => k.table.length) h
  simp [otherKey, String.length_append] at hlen

/-- An unreadable manifest with an entry loses it to the next `upsert`. -/
lemma upsert_loses {s : Store β} {m : Manifest} (hm : s.disk.manifest = .unreadable m)
    {e : ManifestEntry} (he : e ∈ m.entries) :
    ¬ Kept s (.upsert (otherKey e.key) none .cacheCopy, {})
      (s.run (.upsert (otherKey e.key) none .cacheCopy) {}).2 := by
  rintro ⟨⟨hfailed, _⟩ | hothers, _⟩
  · cases hfailed
  · have hkey : e.key ≠ otherKey e.key := fun h => otherKey_ne e.key h.symm
    obtain ⟨hmem, _⟩ := hothers e (by rw [hm]; exact he) hkey
    have hmem : e ∈ (s.disk.manifest.read.upsert
      (s.mgr.newEntry (otherKey e.key) none .cacheCopy)).entries := hmem
    rw [hm] at hmem
    rcases Manifest.mem_upsert.mp hmem with ⟨hnone, _⟩ | heq
    · cases hnone
    · exact hkey (congrArg ManifestEntry.key heq)

/-- A file recorded under another spelling of the root is an orphan to `vacuum`. -/
lemma vacuum_loses {s : Store β} (hread : s.disk.manifest.read.entries = s.disk.manifest.held)
    {e : ManifestEntry} (he : e ∈ s.disk.manifest.held)
    (hfile : (s.disk.files e.filePath.rel).isSome) (hroot : e.filePath.root ≠ s.mgr.root) :
    ¬ Kept s (.vacuum (e.expiresAt.getD 0 - 1) fun _ => false, {})
      (s.run (.vacuum (e.expiresAt.getD 0 - 1) fun _ => false) {}).2 := by
  have hkept : e.keptByVacuum (e.expiresAt.getD 0 - 1) = true := by
    unfold ManifestEntry.keptByVacuum ManifestEntry.live
    cases e.expiresAt with
    | none => simp
    | some exp =>
        have hlt : exp - 1 < exp := Int.sub_one_lt_of_le (Int.le_refl exp)
        simp [hlt]
  rintro ⟨⟨hfailed, _⟩ | hothers, _⟩
  · cases hfailed
  · obtain ⟨_, hstill⟩ := hothers e he (by simp [Op.touches, hkept])
    have hgone : ((s.run (.vacuum (e.expiresAt.getD 0 - 1) fun _ => false) {}).2.disk.files
        e.filePath.rel) = none := by
      show sweepTmp {} (fun _ => false) _ e.filePath.rel = none
      rw [sweepTmp_data]
      unfold CacheManager.sweepData
      rw [if_pos]
      rw [isData_rel, Bool.true_and, Bool.and_eq_true, Bool.not_eq_true']
      refine ⟨List.any_eq_false.mpr fun e' he' heq => ?_, rfl⟩
      rw [decide_eq_true_iff] at heq
      have hmem : e' ∈ s.disk.manifest.read.entries := (List.mem_filter.mp he').1
      have hrel : e.filePath.rel = e'.filePath.rel := by rw [heq]
      rw [e.rel_eq, e'.rel_eq] at hrel
      rw [← s.disk.manifest.read.eq_of_key (by rw [hread]; exact he) hmem
        (dataRel_injective hrel)] at heq
      exact hroot (congrArg FilePath.root heq)
    have hstill := hstill hfile
    rw [hgone] at hstill
    cases hstill

/-- A materialized table. -/
def reportEntry : ManifestEntry where
  source := "materialized"
  table := "report"
  expiresAt := none
  filePath := ⟨"cache", dataRel ⟨"materialized", "report"⟩⟩
  origin := .materialized
  placed := rfl

/-- The manifest lists the table but cannot be read just now. -/
def unreadableStore : Store ℕ where
  mgr := ⟨"cache", .empty⟩
  disk :=
    { manifest := .unreadable ⟨1, [reportEntry], List.nodup_singleton _⟩
      files := fun p => if p = dataRel ⟨"materialized", "report"⟩ then some 7 else none }

/-- Another table is cached, then the cache is vacuumed. -/
def cacheThenVacuum : List (Op × Faults) :=
  [(.upsert ⟨"shop", "orders"⟩ (some 60) .cacheCopy, {}), (.vacuum 0 fun _ => false, {})]

/-- The vacuum then deletes the table's file. -/
example : (exec Store.step unreadableStore cacheThenVacuum).map (fun s =>
    s.disk.files (dataRel ⟨"materialized", "report"⟩)) = some none := rfl

end Cache
end Pawrly
