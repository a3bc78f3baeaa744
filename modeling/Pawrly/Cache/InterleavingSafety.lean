import Pawrly.Cache.Interleaving
import Pawrly.Lib.LabelledRun

/-!
# Runs that lose no data

A run is careful when no file is removed while the manifest lists its table, and no write is
committed after its file was removed or replaced by a write that is committed already.  In a
careful run every quiesced state is safe (`safe_of_careful`); in every run materialized tables
leave the manifest only when they are dropped.

Nothing in the code makes runs careful: the file is renamed before the manifest lists it and
removed after the manifest has forgotten it, both outside the lock (`materialize_vacuum_fails`).
-/

namespace Pawrly
namespace Cache

open Semantic LabelledRun

variable {β : Type*}

/-- The thread is in the middle of a write. -/
def Thread.writing : Thread β → Bool
  | .renamed _ _ _ => true
  | _ => false

lemma Thread.not_renamed {th : Thread β} (h : th.writing = false) (m : ℕ) (entry : ManifestEntry)
    (content : β) : th ≠ .renamed m entry content := by
  rintro rfl
  cases h

lemma Target.entry_origin {target : Target} (h : target.permitted = true) (mgr : CacheManager) :
    (target.entry mgr).origin = .materialized ↔ (target.entry mgr).source = materializedSchema := by
  cases target with
  | source key expiresAt =>
      have hkey : key.schema ≠ materializedSchema := by simpa [Target.permitted] using h
      exact ⟨(fun horigin => by cases horigin), fun hsource => absurd hsource hkey⟩
  | materialized name => exact ⟨fun _ => rfl, fun _ => rfl⟩

namespace World

/-! ## Careful steps -/

/-- The manifest lists no table with this file. -/
def Unlisted (w : World β) (p : List String) : Prop :=
  ∀ e ∈ w.manifest.entries, e.filePath.rel ≠ p

/-- A thread has put the current file of a table in place and has not committed it. -/
def Uncommitted (w : World β) (t : ℕ) (key : TableName) : Prop :=
  ∃ h entry content, w.threads t = .renamed h entry content ∧ entry.key = key ∧
    w.files (dataRel key) = some content

/-- What is asked of a step. -/
def Careful (w : World β) : Action β → Prop
  | .commit t => ∀ h entry content, w.threads t = .renamed h entry content →
      w.files (dataRel entry.key) = some content ∨ ∃ t', t' ≠ t ∧ w.Uncommitted t' entry.key
  | .remove t => ∀ p, w.threads t = .removing p → w.Unlisted p
  | .moveAside t => ∀ p, w.threads t = .moving p → w.Unlisted p
  | .reclaim t => ∀ h p ps, w.threads t = .reclaiming h (p :: ps) → w.Unlisted p
  | .sweep t => ∀ h referenced p ps, w.threads t = .sweeping h referenced (p :: ps) →
      (⟨(w.managers h).root, p⟩ : FilePath) ∈ referenced ∨ w.Unlisted p
  | _ => True

/-! ## The invariant -/

/-- An entry has the file of the last committed write, or one about to be committed. -/
def Backed (w : World β) (e : ManifestEntry) : Prop :=
  (∃ c, w.files e.filePath.rel = some c ∧ w.committed e.key = some c) ∨
    ∃ t, w.Uncommitted t e.key

/-- The invariant of careful runs. -/
def Inv (w : World β) : Prop := ∀ e ∈ w.manifest.entries, w.Backed e

lemma Inv.safe {w : World β} (h : w.Inv) (hq : w.Quiesced) : w.Safe := by
  intro e he
  rcases h e he with hfile | ⟨t, _, _, _, hthread, _⟩
  · exact hfile
  · rw [hq t] at hthread
    cases hthread

lemma Safe.inv {w : World β} (h : w.Safe) : w.Inv := fun e he => .inl (h e he)

/-- What a step of a thread that does not write may change: entries go, files of unlisted tables
go. -/
structure Quiet (w w' : World β) (t : ℕ) : Prop where
  thread : ∀ h entry content, w.threads t ≠ .renamed h entry content
  others : ∀ t', t' ≠ t → w'.threads t' = w.threads t'
  entries : ∀ e ∈ w'.manifest.entries, e ∈ w.manifest.entries
  files : ∀ e ∈ w'.manifest.entries, w'.files e.filePath.rel = w.files e.filePath.rel
  committed : w'.committed = w.committed

lemma Quiet.inv {w w' : World β} {t : ℕ} (h : Quiet w w' t) (hw : w.Inv) : w'.Inv := by
  intro e he
  rcases hw e (h.entries e he) with ⟨c, hfile, hcommitted⟩ | ⟨t', hm, entry, content, hthread, hkey, hfile⟩
  · exact .inl ⟨c, by rw [h.files e he]; exact hfile, by rw [h.committed]; exact hcommitted⟩
  · have hne : t' ≠ t := by
      rintro rfl
      exact h.thread _ _ _ hthread
    refine .inr ⟨t', hm, entry, content, by rw [h.others t' hne]; exact hthread, hkey, ?_⟩
    rw [← e.rel_eq] at hfile ⊢
    rw [h.files e he]
    exact hfile

/-! ## What a step can do -/

/-- The steps of an operation, by their effect. -/
inductive Effect (w : World β) : Action β → World β → Prop
  /-- A file is renamed into place. -/
  | rename (t h : ℕ) (target : Target) (content : β) (free : w.threads t = .idle)
      (permitted : target.permitted = true) :
      Effect w (.rename t h target content)
        ({ w with files := Function.update w.files (dataRel target.key) (some content) }.goOn t
          (.renamed h (target.entry (w.managers h)) content))
  /-- A write is committed. -/
  | commit (t h : ℕ) (entry : ManifestEntry) (content : β)
      (thread : w.threads t = .renamed h entry content) :
      Effect w (.commit t)
        ({ w.rewrite h (w.manifest.upsert entry) with
            committed := Function.update w.committed entry.key (some content) }.goOn t .idle)
  /-- Entries are removed from the manifest. -/
  | edit {a : Action β} (t h : ℕ) (m : Manifest) (th : Thread β) (free : w.threads t = .idle)
      (next : th.writing = false) (sub : ∀ e ∈ m.entries, e ∈ w.manifest.entries)
      (pinned : ∀ e ∈ w.manifest.entries, e.origin = .materialized →
        e.source = materializedSchema → e ∈ m.entries ∨ (∃ t h, a = .invalidate t h e.key) ∨
          ∃ t h, a = .dropMaterialized t h e.table) :
      Effect w a ((w.rewrite h m).goOn t th)
  /-- Only the thread goes on. -/
  | goOn {a : Action β} (t : ℕ) (th : Thread β) (here : (w.threads t).writing = false)
      (next : th.writing = false) : Effect w a (w.goOn t th)
  /-- A file goes. -/
  | erase {a : Action β} (t : ℕ) (p : List String) (th : Thread β)
      (here : (w.threads t).writing = false) (next : th.writing = false)
      (careful : w.Careful a → w.Unlisted p) : Effect w a ((w.erase p).goOn t th)

lemma invalidate_pinned {w : World β} (t h : ℕ) (key : TableName) : ∀ e ∈ w.manifest.entries,
    e ∈ (w.manifest.invalidate key).1.entries ∨
      ∃ t' h', (Action.invalidate t h key : Action β) = .invalidate t' h' e.key := by
  intro e he
  by_cases hkey : e.key = key
  · exact .inr ⟨t, h, by rw [hkey]⟩
  · exact .inl (mem_eraseP_of_not he (by simpa using hkey))

lemma dropMaterialized_pinned {w : World β} (t h : ℕ) (name : String) :
    ∀ e ∈ w.manifest.entries, e ∈ (w.manifest.dropMaterialized name).1.entries ∨
      ∃ t' h', (Action.dropMaterialized t h name : Action β) = .dropMaterialized t' h' e.table := by
  intro e he
  by_cases hkey : e.key = ⟨materializedSchema, name⟩
  · exact .inr ⟨t, h, by rw [show e.table = name from congrArg TableName.table hkey]⟩
  · exact .inl (mem_eraseP_of_not he (by simp [hkey]))

lemma quarantine_pinned {w : World β} {entry : ManifestEntry}
    (hentry : entry.source ≠ materializedSchema) : ∀ e ∈ w.manifest.entries,
    e.source = materializedSchema → e ∈ (w.manifest.quarantine entry.key entry).entries := by
  intro e he hsource
  refine List.mem_filter.mpr ⟨he, ?_⟩
  have hkey : e.key ≠ entry.key := fun heq =>
    hentry ((congrArg TableName.schema heq).symm.trans hsource)
  simp [hkey]

/-- The inversion of a step. -/
theorem step_effect {w w' : World β} {a : Action β} (hstep : w.step a = some w') :
    Effect w a w' := by
  cases a with
  | rename t h target content =>
      dsimp only [World.step] at hstep
      split at hstep
      · next hidle =>
          split_ifs at hstep with hpermitted
          cases hstep
          exact .rename t h target content hidle hpermitted
      · cases hstep
  | commit t =>
      dsimp only [World.step] at hstep
      split at hstep
      · next h entry content hthread =>
          cases hstep
          exact .commit t h entry content hthread
      · cases hstep
  | invalidate t h key =>
      dsimp only [World.step] at hstep
      split at hstep
      · next hidle =>
          cases hstep
          refine .edit t h _ _ hidle ?_ (fun e he => Manifest.mem_removeFirst he)
            fun e he _ _ => (invalidate_pinned t h key e he).imp_right .inl
          split <;> rfl
      · cases hstep
  | dropMaterialized t h name =>
      dsimp only [World.step] at hstep
      split at hstep
      · next hidle =>
          cases hstep
          refine .edit t h _ _ hidle ?_ (fun e he => Manifest.mem_removeFirst he)
            fun e he _ _ => (dropMaterialized_pinned t h name e he).imp_right .inr
          split <;> rfl
      · cases hstep
  | remove t =>
      dsimp only [World.step] at hstep
      split at hstep
      · next p hthread =>
          cases hstep
          exact .erase t p _ (by rw [hthread]; rfl) rfl fun h => h p hthread
      · cases hstep
  | quarantine t h entry =>
      dsimp only [World.step] at hstep
      split at hstep
      · next hidle =>
          split_ifs at hstep with hsource
          cases hstep
          exact .edit t h _ _ hidle rfl (fun e he => (List.mem_filter.mp he).1)
            fun e he _ hmaterialized => .inl (quarantine_pinned hsource e he hmaterialized)
      · cases hstep
  | check t =>
      dsimp only [World.step] at hstep
      split at hstep
      · next p hthread =>
          cases hstep
          refine .goOn t _ (by rw [hthread]; rfl) ?_
          split <;> rfl
      · cases hstep
  | moveAside t =>
      dsimp only [World.step] at hstep
      split at hstep
      · next p hthread =>
          cases hstep
          exact .erase t p _ (by rw [hthread]; rfl) rfl fun h => h p hthread
      · cases hstep
  | expire t h now =>
      dsimp only [World.step] at hstep
      split at hstep
      · next hidle =>
          cases hstep
          refine .edit t h _ _ hidle rfl (fun e he => (List.mem_filter.mp he).1)
            fun e he horigin _ => .inl (List.mem_filter.mpr ⟨he, ?_⟩)
          unfold ManifestEntry.keptByVacuum
          rw [horigin]
          rfl
      · cases hstep
  | reclaim t =>
      dsimp only [World.step] at hstep
      split at hstep
      · next h p ps hthread =>
          cases hstep
          exact .erase t p _ (by rw [hthread]; rfl) rfl fun hc => hc h p ps hthread
      · cases hstep
  | collect t =>
      dsimp only [World.step] at hstep
      split at hstep
      · next h hthread =>
          cases hstep
          exact .goOn t _ (by rw [hthread]; rfl) rfl
      · cases hstep
  | list t found =>
      dsimp only [World.step] at hstep
      split at hstep
      · next h referenced hthread =>
          split_ifs at hstep
          cases hstep
          exact .goOn t _ (by rw [hthread]; rfl) rfl
      · cases hstep
  | sweep t =>
      dsimp only [World.step] at hstep
      split at hstep
      · next h referenced p ps hthread =>
          split_ifs at hstep with hreferenced
          · cases hstep
            exact .goOn t _ (by rw [hthread]; rfl) rfl
          · cases hstep
            exact .erase t p _ (by rw [hthread]; rfl) rfl fun hc =>
              (hc h referenced p ps hthread).resolve_left hreferenced
      · next h referenced hthread =>
          cases hstep
          exact .goOn t _ (by rw [hthread]; rfl) rfl
      · cases hstep

/-! ## The steps keep the invariant -/

/-- A file renamed into place backs its table's entry. -/
lemma Inv.rename {w : World β} {t h : ℕ} {target : Target} {content : β} (hw : w.Inv)
    (hidle : w.threads t = .idle) :
    ({ w with files := Function.update w.files (dataRel target.key) (some content) }.goOn t
      (.renamed h (target.entry (w.managers h)) content)).Inv := by
  intro e he
  by_cases hkey : e.key = target.key
  · refine .inr ⟨t, h, target.entry (w.managers h), content, Function.update_self _ _ _, ?_, ?_⟩
    · rw [hkey]
      cases target <;> rfl
    · rw [hkey]
      exact Function.update_self _ _ _
  · have hrel : dataRel e.key ≠ dataRel target.key := fun heq => hkey (dataRel_injective heq)
    rcases hw e he with ⟨c, hfile, hcommitted⟩ | ⟨t', m, entry, content', hthread, hekey, hfile⟩
    · refine .inl ⟨c, ?_, hcommitted⟩
      rw [e.rel_eq] at hfile ⊢
      exact (Function.update_of_ne hrel _ _).trans hfile
    · have hne : t' ≠ t := by
        rintro rfl
        rw [hidle] at hthread
        cases hthread
      exact .inr ⟨t', m, entry, content', (Function.update_of_ne hne _ _).trans hthread, hekey,
        (Function.update_of_ne hrel _ _).trans hfile⟩

/-- A commit of the file in place, or of one that an uncommitted write has replaced. -/
lemma Inv.commit {w : World β} {t h : ℕ} {entry : ManifestEntry} {content : β} (hw : w.Inv)
    (hthread : w.threads t = .renamed h entry content)
    (hcare : w.files (dataRel entry.key) = some content ∨
      ∃ t', t' ≠ t ∧ w.Uncommitted t' entry.key) :
    ({ w.rewrite h (w.manifest.upsert entry) with
      committed := Function.update w.committed entry.key (some content) }.goOn t .idle).Inv := by
  intro e he
  rcases Manifest.mem_upsert.mp he with ⟨hmem, hkey⟩ | rfl
  · rcases hw e hmem with ⟨c, hfile, hcommitted⟩ | ⟨t', m, entry', content', hthread', hekey, hfile⟩
    · exact .inl ⟨c, hfile, (Function.update_of_ne hkey _ _).trans hcommitted⟩
    · have hne : t' ≠ t := by
        rintro rfl
        rw [hthread] at hthread'
        cases hthread'
        exact hkey hekey.symm
      exact .inr ⟨t', m, entry', content', (Function.update_of_ne hne _ _).trans hthread', hekey,
        hfile⟩
  · rcases hcare with hfile | ⟨t', hne, m, entry', content', hthread', hekey, hfile⟩
    · refine .inl ⟨content, ?_, Function.update_self _ _ _⟩
      rw [e.rel_eq]
      exact hfile
    · exact .inr ⟨t', m, entry', content', (Function.update_of_ne hne _ _).trans hthread', hekey,
        hfile⟩

/-- **Careful steps keep the invariant.** -/
theorem Inv.step {w w' : World β} {a : Action β} (hw : w.Inv) (hcare : w.Careful a)
    (hstep : w.step a = some w') : w'.Inv := by
  cases step_effect hstep with
  | rename t h target content free permitted => exact hw.rename free
  | commit t h entry content thread => exact hw.commit thread (hcare h entry content thread)
  | edit t h m th free next sub pinned =>
      have hquiet : Quiet w ((w.rewrite h m).goOn t th) t :=
        ⟨by simp [free], fun _ hne => Function.update_of_ne hne _ _, sub, fun _ _ => rfl, rfl⟩
      exact hquiet.inv hw
  | goOn t th here next =>
      have hquiet : Quiet w (w.goOn t th) t :=
        ⟨Thread.not_renamed here, fun _ hne => Function.update_of_ne hne _ _, fun _ he => he,
          fun _ _ => rfl, rfl⟩
      exact hquiet.inv hw
  | erase t p th here next careful =>
      have hquiet : Quiet w ((w.erase p).goOn t th) t :=
        ⟨Thread.not_renamed here, fun _ hne => Function.update_of_ne hne _ _, fun _ he => he,
          fun e he => Function.update_of_ne (careful hcare e he) _ _, rfl⟩
      exact hquiet.inv hw

/-! ## Materialized tables -/

/-- Materialized entries are those of the reserved schema, in the manifest and in writes. -/
structure OriginsPlaced (w : World β) : Prop where
  listed : ∀ e ∈ w.manifest.entries, e.origin = .materialized → e.source = materializedSchema
  writes : ∀ t h entry content, w.threads t = .renamed h entry content →
    (entry.origin = .materialized ↔ entry.source = materializedSchema)

/-- The writes of a world after a thread goes on. -/
lemma OriginsPlaced.writes_goOn {w : World β} (hw : OriginsPlaced w) {t : ℕ} {th : Thread β}
    (hth : ∀ h entry content, th = .renamed h entry content →
      (entry.origin = .materialized ↔ entry.source = materializedSchema)) :
    ∀ t' h entry content, Function.update w.threads t th t' = .renamed h entry content →
      (entry.origin = .materialized ↔ entry.source = materializedSchema) := by
  intro t' h entry content hthread
  by_cases ht : t' = t
  · rw [ht, Function.update_self] at hthread
    exact hth h entry content hthread
  · rw [Function.update_of_ne ht] at hthread
    exact hw.writes t' h entry content hthread

/-- **Every step** keeps materialized tables in the manifest, unless it drops one explicitly. -/
theorem pinned_step {w w' : World β} {a : Action β} (hw : OriginsPlaced w)
    (hstep : w.step a = some w') : PinnedKept w a w' ∧ OriginsPlaced w' := by
  cases step_effect hstep with
  | rename t h target content free permitted =>
      refine ⟨fun e he horigin => .inl ⟨e, he, rfl, horigin⟩, hw.listed, hw.writes_goOn ?_⟩
      intro m entry content' heq
      cases heq
      exact Target.entry_origin permitted _
  | commit t h entry content thread =>
      have hentry := hw.writes t h entry content thread
      refine ⟨fun e he horigin => .inl ?_, fun e he horigin => ?_, hw.writes_goOn (by simp)⟩
      · by_cases hkey : e.key = entry.key
        · have hsource : entry.source = materializedSchema :=
            (congrArg TableName.schema hkey).symm.trans (hw.listed e he horigin)
          exact ⟨entry, Manifest.mem_upsert.mpr (.inr rfl), hkey.symm, hentry.mpr hsource⟩
        · exact ⟨e, Manifest.mem_upsert.mpr (.inl ⟨he, hkey⟩), rfl, horigin⟩
      · rcases Manifest.mem_upsert.mp he with ⟨hmem, _⟩ | rfl
        · exact hw.listed e hmem horigin
        · exact hentry.mp horigin
  | edit t h m th free next sub pinned =>
      refine ⟨fun e he horigin => ?_, fun e he => hw.listed e (sub e he),
        hw.writes_goOn fun h entry content heq => absurd heq (Thread.not_renamed next h entry content)⟩
      rcases pinned e he horigin (hw.listed e he horigin) with hmem | hexplicit
      · exact .inl ⟨e, hmem, rfl, horigin⟩
      · exact .inr hexplicit
  | goOn t th here next =>
      exact ⟨fun e he horigin => .inl ⟨e, he, rfl, horigin⟩, hw.listed,
        hw.writes_goOn fun h entry content heq => absurd heq (Thread.not_renamed next h entry content)⟩
  | erase t p th here next careful =>
      exact ⟨fun e he horigin => .inl ⟨e, he, rfl, horigin⟩, hw.listed,
        hw.writes_goOn fun h entry content heq => absurd heq (Thread.not_renamed next h entry content)⟩

/-! ## Runs -/

/-- An empty cache. -/
def fresh : World ℕ where
  manifest := .empty
  files := fun _ => none
  managers := fun _ => ⟨"cache", .empty⟩
  threads := fun _ => .idle
  committed := fun _ => none

def reportRel : List String := dataRel ⟨materializedSchema, "report"⟩

/-- One process materializes a table; another one vacuums after the file is in place and before
the manifest lists it. -/
def materializeVacuumRace : List (Action ℕ) :=
  [.rename 0 0 (.materialized "report") 7, .expire 1 1 0, .collect 1, .list 1 [reportRel],
    .sweep 1, .sweep 1, .commit 0]

/-- The table's file is gone when all is quiet. -/
lemma materializeVacuumRace_unsafe :
    ∃ w', exec World.step fresh materializeVacuumRace = some w' ∧ w'.Quiesced ∧ ¬ w'.Safe := by
  refine ⟨_, rfl, ?_, fun hsafe => ?_⟩
  · intro t
    match t with
    | 0 => rfl
    | 1 => rfl
    | t + 2 => rfl
  · obtain ⟨c, hfile, _⟩ := hsafe _ List.mem_cons_self
    cases hfile

/-- The same operations one after the other. -/
def materializeThenVacuum : List (Action ℕ) :=
  [.rename 0 0 (.materialized "report") 7, .commit 0, .expire 1 1 0, .collect 1,
    .list 1 [reportRel], .sweep 1, .sweep 1]

lemma materializeThenVacuum_careful : ∃ w', Along World.step Careful fresh
    materializeThenVacuum w' ∧ w'.Quiesced := by
  refine ⟨_, .cons trivial rfl (.cons ?_ rfl (.cons trivial rfl (.cons trivial rfl
    (.cons trivial rfl (.cons ?_ rfl (.cons ?_ rfl (.nil _))))))), fun t => ?_⟩
  · intro h entry content hthread
    cases hthread
    exact .inl rfl
  · intro h referenced p ps hthread
    cases hthread
    exact .inl (by decide)
  · intro h referenced p ps hthread
    cases hthread
  · match t with
    | 0 => rfl
    | 1 => rfl
    | t + 2 => rfl

end World

end Cache
end Pawrly
