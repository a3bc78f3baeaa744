import Pawrly.Cache.Namespace
import Pawrly.Lib.LabelledRun

/-!
# Freshness of the namespace catalog

A process resolves and enumerates a table of a namespace exactly when the manifest on disk lists it
and its file is there (`Fresh`).  The copies that processes keep of a manifest have to list the same
tables as the manifest; a step that lists a new table or forgets one keeps this only while no other
process has the namespace open, since nothing tells the others (`fresh_of_careful`).
-/

namespace Pawrly
namespace Cache

open Semantic LabelledRun

variable {β : Type*}

/-! ## Catalogs and manifests -/

/-- The manifest has an entry for the table. -/
def Manifest.Lists (m : Manifest) (key : TableName) : Prop := ∃ e ∈ m.entries, e.key = key

lemma mem_sortDedup {names : List String} {x : String} : x ∈ sortDedup names ↔ x ∈ names := by
  simp [sortDedup]

/-- All entries of a table have its file. -/
lemma ManifestEntry.present_eq (files : List String → Option β) (e : ManifestEntry) :
    e.present files = (files (dataRel e.key)).isSome := by
  unfold present
  rw [e.rel_eq]

section

variable {mgr : CacheManager} {files : List String → Option β} {source table : String}

lemma CacheManager.mem_namespaceSources : source ∈ mgr.namespaceSources files ↔
    ∃ e ∈ mgr.manifest.entries, e.present files = true ∧ e.source = source := by
  unfold namespaceSources
  rw [mem_sortDedup, List.mem_map]
  simp only [List.mem_filter, and_assoc]

lemma CacheManager.mem_namespaceTables : table ∈ mgr.namespaceTables files source ↔
    mgr.manifest.Lists ⟨source, table⟩ ∧ (files (dataRel ⟨source, table⟩)).isSome := by
  unfold namespaceTables
  rw [mem_sortDedup, List.mem_map]
  constructor
  · rintro ⟨e, he, rfl⟩
    obtain ⟨hmem, htest⟩ := List.mem_filter.mp he
    simp only [Bool.and_eq_true, decide_eq_true_eq] at htest
    obtain ⟨rfl, hpresent⟩ := htest
    rw [e.present_eq] at hpresent
    exact ⟨⟨e, hmem, rfl⟩, hpresent⟩
  · rintro ⟨⟨e, hmem, hkey⟩, hfile⟩
    have hpresent : e.present files = true := by
      rw [e.present_eq, hkey]
      exact hfile
    cases hkey
    refine ⟨e, List.mem_filter.mpr ⟨hmem, ?_⟩, rfl⟩
    simp [hpresent]

/-- A listed table whose file is there is found. -/
lemma CacheManager.table_of_lists (hlists : mgr.manifest.Lists ⟨source, table⟩)
    (hfile : (files (dataRel ⟨source, table⟩)).isSome = true) :
    ∃ path, mgr.table files source table = some path ∧ path.rel = dataRel ⟨source, table⟩ := by
  obtain ⟨e, hmem, hkey⟩ := hlists
  have hpresent : e.present files = true := by
    rw [e.present_eq, hkey]
    exact hfile
  have hsource : e.source = source := congrArg TableName.schema hkey
  have htable : e.table = table := congrArg TableName.table hkey
  have hschema : source ∈ mgr.namespaceSources files :=
    mem_namespaceSources.mpr ⟨e, hmem, hpresent, hsource⟩
  unfold CacheManager.table namespacePath
  rw [if_pos hschema]
  cases hfind : mgr.manifest.entries.find? fun e =>
      e.source = source && e.table = table && e.present files with
  | none =>
      have hnone := List.find?_eq_none.mp hfind e hmem
      simp [hsource, htable, hpresent] at hnone
  | some e' =>
      have htest := List.find?_some hfind
      simp only [Bool.and_eq_true, decide_eq_true_eq] at htest
      refine ⟨e'.filePath, rfl, ?_⟩
      rw [e'.rel_eq]
      unfold ManifestEntry.key
      rw [htest.1.1, htest.1.2]

/-- A table that the copy of the manifest does not list is not found. -/
lemma CacheManager.table_of_not_lists (h : ¬ mgr.manifest.Lists ⟨source, table⟩) :
    mgr.table files source table = none := by
  unfold CacheManager.table namespacePath
  split_ifs
  · rw [Option.map_eq_none_iff, List.find?_eq_none]
    intro e hmem htest
    simp only [Bool.and_eq_true, decide_eq_true_eq] at htest
    apply h
    refine ⟨e, hmem, ?_⟩
    unfold ManifestEntry.key
    rw [htest.1.1, htest.1.2]
  · rfl

end

/-! ## Steps that change the tables of a manifest -/

/-- The step lists a table that the manifest did not list, or forgets one. -/
def World.Relists (w : World β) : Action β → Prop
  | .commit t => ∃ h entry content, w.threads t = .renamed h entry content ∧
      ¬ w.manifest.Lists entry.key
  | .invalidate _ _ key => w.manifest.Lists key
  | .dropMaterialized _ _ name => ∃ e ∈ w.manifest.entries, e.key = ⟨materializedSchema, name⟩ ∧
      e.origin.isMaterialized = true
  | .quarantine _ _ entry => ∃ e ∈ w.manifest.entries, e.key = entry.key ∧
      e.filePath = entry.filePath
  | .expire _ _ now => ∃ e ∈ w.manifest.entries, e.keptByVacuum now = false
  | _ => False

lemma Manifest.lists_upsert {m : Manifest} {entry : ManifestEntry} (h : m.Lists entry.key)
    (key : TableName) : (m.upsert entry).Lists key ↔ m.Lists key := by
  constructor
  · rintro ⟨e, he, rfl⟩
    rcases Manifest.mem_upsert.mp he with ⟨hmem, -⟩ | rfl
    · exact ⟨e, hmem, rfl⟩
    · exact h
  · rintro ⟨e, hmem, rfl⟩
    by_cases hkey : e.key = entry.key
    · exact ⟨entry, Manifest.mem_upsert.mpr (Or.inr rfl), hkey.symm⟩
    · exact ⟨e, Manifest.mem_upsert.mpr (Or.inl ⟨hmem, hkey⟩), rfl⟩

/-- Removing what is not there changes nothing. -/
lemma Manifest.lists_removeFirst {m : Manifest} {p : ManifestEntry → Bool}
    (h : ∀ e ∈ m.entries, p e = false) (key : TableName) :
    (m.removeFirst p).Lists key ↔ m.Lists key := by
  have hsame : (m.removeFirst p).entries = m.entries :=
    List.eraseP_of_forall_not fun e he => by simp [h e he]
  unfold Manifest.Lists
  rw [hsame]

lemma Manifest.lists_retain {m : Manifest} {p : ManifestEntry → Bool}
    (h : ∀ e ∈ m.entries, p e = true) (key : TableName) :
    (m.retain p).Lists key ↔ m.Lists key := by
  have hsame : (m.retain p).entries = m.entries := List.filter_eq_self.mpr h
  unfold Manifest.Lists
  rw [hsame]

/-- What a step does to the manifest and the copies of it. -/
structure World.Rewrites (w : World β) (a : Action β) (w' : World β) (h : ℕ) : Prop where
  manager : w.manager a = some h
  rewrites : a.rewrites = true
  managers : w'.managers =
    Function.update w.managers h { w.managers h with manifest := w'.manifest }
  lists : ¬ w.Relists a → ∀ key, w'.manifest.Lists key ↔ w.manifest.Lists key

/-- A step leaves the manifest and the copies alone, or rewrites both through its manager. -/
lemma World.step_manifest {w w' : World β} {a : Action β} (hstep : w.step a = some w') :
    (w'.manifest = w.manifest ∧ w'.managers = w.managers ∧ a.rewrites = false) ∨
      ∃ h, w.Rewrites a w' h := by
  cases a with
  | rename t h target content =>
      left
      simp only [step] at hstep
      split at hstep
      · split_ifs at hstep
        cases hstep
        exact ⟨rfl, rfl, rfl⟩
      · cases hstep
  | commit t =>
      right
      simp only [step] at hstep
      split at hstep
      · next h entry content hthread =>
          cases hstep
          refine ⟨h, ?_, rfl, rfl, ?_⟩
          · show (w.threads t).manager = some h
            rw [hthread]
            rfl
          · intro hrelists key
            have hlisted : w.manifest.Lists entry.key := by
              by_contra hnot
              exact hrelists ⟨h, entry, content, hthread, hnot⟩
            exact Manifest.lists_upsert hlisted key
      · cases hstep
  | invalidate t h key =>
      right
      simp only [step] at hstep
      split at hstep
      · cases hstep
        refine ⟨h, rfl, rfl, rfl, fun hrelists => ?_⟩
        refine Manifest.lists_removeFirst fun e he => decide_eq_false fun hkey => ?_
        exact hrelists ⟨e, he, hkey⟩
      · cases hstep
  | dropMaterialized t h name =>
      right
      simp only [step] at hstep
      split at hstep
      · cases hstep
        refine ⟨h, rfl, rfl, rfl, fun hrelists => ?_⟩
        refine Manifest.lists_removeFirst fun e he => ?_
        rw [Bool.and_eq_false_iff]
        by_cases hkey : e.key = ⟨materializedSchema, name⟩
        · right
          rw [Bool.eq_false_iff]
          exact fun horigin => hrelists ⟨e, he, hkey, horigin⟩
        · exact Or.inl (decide_eq_false hkey)
      · cases hstep
  | remove t =>
      left
      simp only [step] at hstep
      split at hstep
      · cases hstep
        exact ⟨rfl, rfl, rfl⟩
      · cases hstep
  | quarantine t h entry =>
      right
      simp only [step] at hstep
      split at hstep
      · split_ifs at hstep
        cases hstep
        refine ⟨h, rfl, rfl, rfl, fun hrelists => ?_⟩
        refine Manifest.lists_retain fun e he => ?_
        simp only [Bool.not_eq_true', Bool.and_eq_false_iff, decide_eq_false_iff_not]
        by_cases hkey : e.key = entry.key
        · exact Or.inr fun hpath => hrelists ⟨e, he, hkey, hpath⟩
        · exact Or.inl hkey
      · cases hstep
  | check t =>
      left
      simp only [step] at hstep
      split at hstep
      · cases hstep
        exact ⟨rfl, rfl, rfl⟩
      · cases hstep
  | moveAside t =>
      left
      simp only [step] at hstep
      split at hstep
      · cases hstep
        exact ⟨rfl, rfl, rfl⟩
      · cases hstep
  | expire t h now =>
      right
      simp only [step] at hstep
      split at hstep
      · cases hstep
        refine ⟨h, rfl, rfl, rfl, fun hrelists => ?_⟩
        refine Manifest.lists_retain fun e he => ?_
        by_contra hgone
        exact hrelists ⟨e, he, by simpa using hgone⟩
      · cases hstep
  | reclaim t =>
      left
      simp only [step] at hstep
      split at hstep
      · cases hstep
        exact ⟨rfl, rfl, rfl⟩
      · cases hstep
  | collect t =>
      left
      simp only [step] at hstep
      split at hstep
      · cases hstep
        exact ⟨rfl, rfl, rfl⟩
      · cases hstep
  | list t found =>
      left
      simp only [step] at hstep
      split at hstep
      · split_ifs at hstep
        cases hstep
        exact ⟨rfl, rfl, rfl⟩
      · cases hstep
  | sweep t =>
      left
      simp only [step] at hstep
      split at hstep
      · cases hstep
        split_ifs
        · exact ⟨rfl, rfl, rfl⟩
        · exact ⟨rfl, rfl, rfl⟩
      · cases hstep
        exact ⟨rfl, rfl, rfl⟩
      · cases hstep

namespace Storage

/-! ## The property -/

/-- The process enumerates the table and resolves it to the file. -/
structure Shown (s : Storage β) (p : ℕ) (proc : Process) (ns : String) (key : TableName) :
    Prop where
  namespaced : s.enumerates proc ns = true
  enumerated : key.table ∈ s.tableNames p proc ns key.schema
  resolved : ∃ path, s.resolve p proc ns key.schema key.table = some path ∧ path.rel = dataRel key

/-- What a process shows of the namespaces is what is on disk. -/
structure Fresh (s : Storage β) : Prop where
  listed : ∀ p proc, s.processes p = some proc → proc.running = true → ∀ ns key,
    (s.spaces ns).manifest.Lists key → ((s.spaces ns).files (dataRel key)).isSome = true →
      s.Shown p proc ns key
  unlisted : ∀ p proc, s.processes p = some proc → proc.running = true → ∀ ns key,
    ¬ (s.spaces ns).manifest.Lists key →
      s.resolve p proc ns key.schema key.table = none ∧
        key.table ∉ s.tableNames p proc ns key.schema

/-- An empty storage root without processes. -/
def empty (manager : CacheManager) : Storage β where
  spaces _ := {
    manifest := .empty
    files := fun _ => none
    managers := fun _ => manager
    threads := fun _ => .idle
    committed := fun _ => none }
  stored _ := false
  processes _ := none

/-- What is asked of a step: the workspace's own namespace has a valid name, and the tables of a
namespace change only while no other process has it open. -/
def Careful (s : Storage β) : StorageAction β → Prop
  | .start _ _ defaultNs => (validateNamespace defaultNs).isOk = true
  | .act ns a => (s.spaces ns).Relists a → ∀ h, (s.spaces ns).manager a = some h →
      ∀ p, p ≠ h → s.hasOpen p ns = false
  | _ => True

/-! ## Copies that agree with the disk -/

structure Coherent (s : Storage β) : Prop where
  copies : ∀ p ns, s.hasOpen p ns = true → ∀ key,
    ((s.spaces ns).managers p).manifest.Lists key ↔ (s.spaces ns).manifest.Lists key
  opened : ∀ p ns, s.hasOpen p ns = true → (validateNamespace ns).isOk = true
  stored : ∀ ns, s.stored ns = true → (validateNamespace ns).isOk = true
  absent : ∀ ns, s.stored ns = false → ∀ key, ¬ (s.spaces ns).manifest.Lists key

variable {s s' : Storage β}

lemma coherent_empty (manager : CacheManager) : (empty manager : Storage β).Coherent where
  copies p ns h := by cases h
  opened p ns h := by cases h
  stored ns h := by cases h
  absent ns _ key := by
    rintro ⟨e, he, -⟩
    cases he

/-- The manager that a name resolves to lists the tables on disk. -/
lemma Coherent.lookup_lists (hs : s.Coherent) {p : ℕ} {proc : Process}
    (hproc : s.processes p = some proc) (hrun : proc.running = true) {ns : String}
    {mgr : CacheManager} (h : s.lookup p proc ns = some mgr) (key : TableName) :
    mgr.manifest.Lists key ↔ (s.spaces ns).manifest.Lists key := by
  unfold lookup at h
  by_cases hdefault : ns = proc.defaultNs
  · rw [if_pos hdefault] at h
    cases h
    refine hs.copies p ns ?_ key
    simp [hasOpen, hproc, hrun, hdefault]
  · rw [if_neg hdefault] at h
    cases hname : validateNamespace ns with
    | error err =>
        rw [hname] at h
        cases h
    | ok u =>
        rw [hname] at h
        dsimp only at h
        split_ifs at h with hextra
        · cases h
          refine hs.copies p ns ?_ key
          simp [hasOpen, hproc, hrun, hextra]
        · cases h
          exact Iff.rfl

/-- A namespace that is on disk resolves. -/
lemma Coherent.lookup_stored (hs : s.Coherent) (p : ℕ) (proc : Process) {ns : String}
    (h : s.stored ns = true) : (∃ mgr, s.lookup p proc ns = some mgr) ∧
      s.enumerates proc ns = true := by
  have hvalid := hs.stored ns h
  refine ⟨?_, by simp [enumerates, h, hvalid]⟩
  unfold lookup
  by_cases hdefault : ns = proc.defaultNs
  · rw [if_pos hdefault]
    exact ⟨_, rfl⟩
  · rw [if_neg hdefault]
    cases hname : validateNamespace ns with
    | error err =>
        rw [hname] at hvalid
        cases hvalid
    | ok u =>
        dsimp only
        split_ifs with hextra
        · exact ⟨_, rfl⟩
        · exact ⟨_, rfl⟩

lemma Coherent.fresh (hs : s.Coherent) : s.Fresh where
  listed p proc hproc hrun ns key hlists hfile := by
    have hstored : s.stored ns = true := by
      by_contra hnot
      exact hs.absent ns (by simpa using hnot) key hlists
    obtain ⟨⟨mgr, hmgr⟩, henumerates⟩ := hs.lookup_stored p proc hstored
    have hcopy := (hs.lookup_lists hproc hrun hmgr key).mpr hlists
    refine ⟨henumerates, ?_, ?_⟩
    · unfold tableNames
      rw [hmgr]
      dsimp only
      obtain ⟨e, he, hkey⟩ := hcopy
      have hpresent : e.present (s.spaces ns).files = true := by
        rw [e.present_eq, hkey]
        exact hfile
      rw [if_pos (CacheManager.mem_namespaceSources.mpr
        ⟨e, he, hpresent, congrArg TableName.schema hkey⟩)]
      exact CacheManager.mem_namespaceTables.mpr ⟨⟨e, he, hkey⟩, hfile⟩
    · obtain ⟨path, hpath, hrel⟩ := CacheManager.table_of_lists hcopy hfile
      refine ⟨path, ?_, hrel⟩
      unfold resolve
      rw [hmgr]
      exact hpath
  unlisted p proc hproc hrun ns key hnot := by
    unfold resolve tableNames
    cases hmgr : s.lookup p proc ns with
    | none => exact ⟨rfl, List.not_mem_nil⟩
    | some mgr =>
        have hcopy : ¬ mgr.manifest.Lists key := fun h =>
          hnot ((hs.lookup_lists hproc hrun hmgr key).mp h)
        refine ⟨CacheManager.table_of_not_lists hcopy, ?_⟩
        dsimp only
        split_ifs
        · exact fun h => hcopy (CacheManager.mem_namespaceTables.mp h).1
        · exact List.not_mem_nil

/-! ## Steps keep the copies -/

/-- A process opens a namespace. -/
lemma Coherent.memoize (hs : s.Coherent) {p : ℕ} {proc proc' : Process} {ns : String}
    (hvalid : (validateNamespace ns).isOk = true) (hnew : s.hasOpen p ns = false)
    (hopen : ∀ ns', ({ s.memoize p proc ns with
      processes := Function.update s.processes p (some proc') } : Storage β).hasOpen p ns' = true →
        ns' = ns ∨ s.hasOpen p ns' = true) :
    ({ s.memoize p proc ns with
      processes := Function.update s.processes p (some proc') } : Storage β).Coherent := by
  have hother : ∀ q, q ≠ p → ∀ ns', ({ s.memoize p proc ns with
      processes := Function.update s.processes p (some proc') } : Storage β).hasOpen q ns' =
        s.hasOpen q ns' := by
    intro q hq ns'
    unfold hasOpen
    dsimp only
    rw [Function.update_of_ne hq]
  have hmanifest : ∀ ns', ((s.memoize p proc ns).spaces ns').manifest = (s.spaces ns').manifest := by
    intro ns'
    unfold Storage.memoize
    dsimp only
    by_cases hns : ns' = ns
    · subst hns
      rw [Function.update_self]
    · rw [Function.update_of_ne hns]
  refine ⟨?_, ?_, hs.stored, ?_⟩
  · intro q ns' hq key
    show (((s.memoize p proc ns).spaces ns').managers q).manifest.Lists key ↔
      ((s.memoize p proc ns).spaces ns').manifest.Lists key
    rw [hmanifest]
    unfold Storage.memoize
    dsimp only
    by_cases hns : ns' = ns
    · subst hns
      rw [Function.update_self]
      dsimp only
      by_cases hqp : q = p
      · subst hqp
        rw [Function.update_self]
        exact Iff.rfl
      · rw [Function.update_of_ne hqp]
        exact hs.copies q ns' ((hother q hqp ns').symm.trans hq) key
    · rw [Function.update_of_ne hns]
      by_cases hqp : q = p
      · subst hqp
        rcases hopen ns' hq with heq | hold
        · exact absurd heq hns
        · exact hs.copies q ns' hold key
      · exact hs.copies q ns' ((hother q hqp ns').symm.trans hq) key
  · intro q ns' hq
    by_cases hqp : q = p
    · subst hqp
      rcases hopen ns' hq with rfl | hold
      · exact hvalid
      · exact hs.opened q ns' hold
    · exact hs.opened q ns' ((hother q hqp ns').symm.trans hq)
  · intro ns' hstored key
    show ¬ ((s.memoize p proc ns).spaces ns').manifest.Lists key
    rw [hmanifest]
    exact hs.absent ns' hstored key

/-- A process ends. -/
lemma Coherent.stop (hs : s.Coherent) {p : ℕ} {proc : Process} (hstopped : proc.running = false) :
    ({ s with processes := Function.update s.processes p (some proc) } : Storage β).Coherent := by
  have hopen : ∀ q ns, ({ s with
      processes := Function.update s.processes p (some proc) } : Storage β).hasOpen q ns = true →
        s.hasOpen q ns = true := by
    intro q ns h
    unfold hasOpen at h ⊢
    dsimp only at h
    by_cases hqp : q = p
    · subst hqp
      rw [Function.update_self] at h
      simp [hstopped] at h
    · rw [Function.update_of_ne hqp] at h
      exact h
  exact ⟨fun q ns h => hs.copies q ns (hopen q ns h), fun q ns h => hs.opened q ns (hopen q ns h),
    hs.stored, hs.absent⟩

/-- A step in a namespace. -/
lemma Coherent.act (hs : s.Coherent) {ns : String} {a : Action β} {w : World β}
    (hcareful : Careful s (.act ns a)) (hpermits : s.permits ns a = true)
    (hstep : (s.spaces ns).step a = some w) :
    ({ s with
      spaces := Function.update s.spaces ns w
      stored := Function.update s.stored ns (s.stored ns || a.rewrites) } : Storage β).Coherent := by
  rcases World.step_manifest hstep with ⟨hmanifest, hmanagers, hrewrites⟩ | ⟨h, hw⟩
  · refine ⟨?_, hs.opened, ?_, ?_⟩
    · intro p ns' hopen key
      dsimp only
      by_cases hns : ns' = ns
      · subst hns
        rw [Function.update_self, hmanifest, hmanagers]
        exact hs.copies p ns' hopen key
      · rw [Function.update_of_ne hns]
        exact hs.copies p ns' hopen key
    · intro ns' hstored
      dsimp only at hstored
      by_cases hns : ns' = ns
      · subst hns
        rw [Function.update_self, hrewrites, Bool.or_false] at hstored
        exact hs.stored ns' hstored
      · rw [Function.update_of_ne hns] at hstored
        exact hs.stored ns' hstored
    · intro ns' hstored key
      dsimp only at hstored ⊢
      by_cases hns : ns' = ns
      · subst hns
        rw [Function.update_self, hrewrites, Bool.or_false] at hstored
        rw [Function.update_self, hmanifest]
        exact hs.absent ns' hstored key
      · rw [Function.update_of_ne hns] at hstored ⊢
        exact hs.absent ns' hstored key
  · -- the process that writes has the namespace open
    have hopener : s.hasOpen h ns = true := by
      unfold permits at hpermits
      rw [hw.manager] at hpermits
      dsimp only at hpermits
      split_ifs at hpermits
      · unfold isDefault at hpermits
        unfold hasOpen
        cases hproc : s.processes h with
        | none =>
            rw [hproc] at hpermits
            cases hpermits
        | some proc =>
            rw [hproc] at hpermits
            simp only [Bool.and_eq_true] at hpermits
            simp [hpermits.1, of_decide_eq_true hpermits.2]
      · exact hpermits
    refine ⟨?_, hs.opened, ?_, ?_⟩
    · intro p ns' hopen key
      have hold : s.hasOpen p ns' = true := hopen
      dsimp only
      by_cases hns : ns' = ns
      · subst hns
        rw [Function.update_self, hw.managers]
        by_cases hp : p = h
        · subst hp
          rw [Function.update_self]
        · rw [Function.update_of_ne hp]
          have hsame : ¬ (s.spaces ns').Relists a := by
            intro hrelists
            rw [hcareful hrelists h hw.manager p hp] at hold
            cases hold
          rw [hw.lists hsame key]
          exact hs.copies p ns' hold key
      · rw [Function.update_of_ne hns]
        exact hs.copies p ns' hold key
    · intro ns' hstored
      dsimp only at hstored
      by_cases hns : ns' = ns
      · subst hns
        exact hs.opened h ns' hopener
      · rw [Function.update_of_ne hns] at hstored
        exact hs.stored ns' hstored
    · intro ns' hstored key
      dsimp only at hstored ⊢
      by_cases hns : ns' = ns
      · subst hns
        rw [Function.update_self, hw.rewrites, Bool.or_true] at hstored
        cases hstored
      · rw [Function.update_of_ne hns] at hstored ⊢
        exact hs.absent ns' hstored key

lemma Coherent.step {a : StorageAction β} (hs : s.Coherent) (hcareful : Careful s a)
    (hstep : s.step a = some s') : s'.Coherent := by
  cases a with
  | start p storageRoot defaultNs =>
      simp only [Storage.step] at hstep
      split at hstep
      · cases hstep
      · next hnone =>
          cases hstep
          have hclosed : ∀ ns, s.hasOpen p ns = false := by
            intro ns
            simp [hasOpen, hnone]
          refine hs.memoize hcareful (hclosed defaultNs) fun ns' hopen => Or.inl ?_
          unfold hasOpen at hopen
          dsimp only at hopen
          rw [Function.update_self] at hopen
          simpa using hopen
  | stop p =>
      simp only [Storage.step] at hstep
      split at hstep
      · cases hstep
        exact hs.stop rfl
      · cases hstep
  | openSpace p ns =>
      simp only [Storage.step] at hstep
      split at hstep
      · next proc hproc =>
          split_ifs at hstep with hguard
          cases hstep
          simp only [Bool.and_eq_true, Bool.not_eq_true'] at hguard
          obtain ⟨⟨hrun, hnew⟩, hvalid⟩ := hguard
          refine hs.memoize hvalid hnew fun ns' hopen => ?_
          unfold hasOpen at hopen ⊢
          dsimp only at hopen
          rw [Function.update_self] at hopen
          rw [hproc]
          by_cases hns : ns' = ns
          · exact Or.inl hns
          · right
            simpa [Function.update_of_ne hns] using hopen
      · cases hstep
  | act ns a =>
      simp only [Storage.step] at hstep
      split_ifs at hstep with hpermits
      obtain ⟨w, hw, rfl⟩ := Option.map_eq_some_iff.mp hstep
      exact hs.act hcareful hpermits hw

/-! ## Runs -/

/-- Every state that careful steps reach is fresh. -/
theorem fresh_of_careful {manager : CacheManager} {as : List (StorageAction β)}
    (h : Along step Careful (empty manager) as s) : s.Fresh :=
  (h.invariant (fun _ _ _ hs hcareful hstep => hs.step hcareful hstep)
    (coherent_empty manager)).fresh

/-! ## Two processes on one workspace -/

def freshCopy : CacheManager := ⟨"", .empty⟩

/-- A table is materialized, and then a second process starts. -/
def materializeThenStart : List (StorageAction ℕ) :=
  [.start 0 "/cache" "default", .act "default" (.rename 0 0 (.materialized "report") 7),
    .act "default" (.commit 0), .start 1 "/cache" "default"]

theorem materializeThenStart_fresh : ∃ s, exec step (empty freshCopy) materializeThenStart = some s ∧
    s.Fresh := by
  have hvalid : (validateNamespace "default").isOk = true := by decide +kernel
  have hrun : ∃ s, Along step Careful (empty freshCopy) materializeThenStart s := by
    refine ⟨_, .cons hvalid rfl (.cons ?_ rfl (.cons ?_ rfl (.cons hvalid rfl (.nil _))))⟩
    · intro hrelists
      cases hrelists
    · intro _ h hmanager p hp
      have hzero : h = 0 := by
        cases hmanager
        rfl
      rw [hzero] at hp
      simp [hasOpen, empty, Function.update_of_ne hp]
  obtain ⟨s, hs⟩ := hrun
  exact ⟨s, hs.exec, fresh_of_careful hs⟩

/-- The second process starts first. -/
def startThenMaterialize : List (StorageAction ℕ) :=
  [.start 0 "/cache" "default", .start 1 "/cache" "default",
    .act "default" (.rename 0 0 (.materialized "report") 7), .act "default" (.commit 0)]

theorem startThenMaterialize_stale :
    ¬ ∀ (as : List (StorageAction ℕ)) (s : Storage ℕ),
      exec step (empty freshCopy) as = some s → s.Fresh := by
  intro hall
  have hfresh := hall startThenMaterialize _ rfl
  have hshown := hfresh.listed 1 _ rfl rfl "default" ⟨materializedSchema, "report"⟩
    ⟨_, List.mem_cons_self, rfl⟩ rfl
  obtain ⟨path, hpath, -⟩ := hshown.resolved
  exact absurd (Option.isSome_iff_exists.mpr ⟨path, hpath⟩) (by decide +kernel)

end Storage

end Cache
end Pawrly
