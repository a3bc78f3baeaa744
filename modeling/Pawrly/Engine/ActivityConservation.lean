import Pawrly.Engine.ActivityLog
import Pawrly.Lib.LabelledRun
import Mathlib.Data.List.Perm.Basic

/-!
# Conservation of the activity log

Every record that is not past retention is in the buffer or in one file of the manifest whenever no
flush is running, and a read returns every record whose call was over when it started.  A flush
holds its records outside of both between the step that empties the buffer and the step that lists
the file, and a read takes the manifest and the buffer in two steps; `Careful` says which steps have
to stay out of these gaps, and that no write of a flush fails.
-/

namespace Pawrly
namespace Engine
namespace DurableActivity
namespace ActivityStore

open LabelledRun

variable (config : StoreConfig)

/-! ## The property -/

/-- The record is not past retention at a time. -/
def LiveAt (clock : ℤ) (r : ActivityRecord) : Prop :=
  ∀ retention, config.retention = some retention → clock - retention ≤ r.atMicros

def Read.Complete (read : Read) : Prop :=
  ∀ r ∈ read.required, LiveAt config read.endedAt r → read.returned.count r = 1

/-- The records that the manifest lists. -/
def listed (s : ActivityStore) : List ActivityRecord := s.recordsOf s.manifest

/-- The records that the flushes hold. -/
def flying (s : ActivityStore) : List ActivityRecord := s.flushes.flatMap Flush.records

structure Conserved (s : ActivityStore) : Prop where
  placed : s.flushes = [] → ∀ r ∈ s.accepted, LiveAt config s.clock r →
    s.pending.count r + s.listed.count r = 1
  read : ∀ read ∈ s.reads, Read.Complete config read

/-! ## Careful steps -/

/-- What is asked of a step. -/
def Careful (s : ActivityStore) : Action → Prop
  | .writeFail i | .commitFail i => ∀ f, s.flushes[i]? = some f → ∀ r ∈ f.records,
      ¬ LiveAt config s.clock r
  | .take _ => ∀ reader ∈ s.readers, reader.todo ≠ none → ∀ r ∈ reader.required, r ∈ s.pending →
      ¬ LiveAt config s.clock r
  | .readManifest i => ∀ reader, s.readers[i]? = some reader → ∀ r ∈ reader.required,
      r ∈ s.flying → ¬ LiveAt config s.clock r
  | _ => True

/-! ## The invariant -/

/-- The files that some part of the store knows of. -/
def Mentions (s : ActivityStore) (e : FileEntry) : Prop :=
  e ∈ s.manifest ∨ (∃ reader ∈ s.readers, ∃ todo, reader.todo = some todo ∧ e ∈ todo) ∨
    (∃ p, s.prune = some p ∧ e ∈ p.todo) ∨ ∃ f ∈ s.flushes, f.entry = some e

structure WellFormed (s : ActivityStore) : Prop where
  aged : ∀ e, s.Mentions e → e.path < s.nextPath ∧ ∀ r ∈ s.contents e.path, r.atMicros ≤ e.maxAt
  pruning : ∀ p, s.prune = some p →
    (∃ retention, config.retention = some retention ∧ p.cutoff ≤ s.clock - retention) ∧
      ∀ e ∈ p.todo, e.maxAt < p.cutoff
  full : ∀ r ∈ s.full, r ∈ s.accepted
  completed : ∀ r ∈ s.completed, r ∈ s.accepted
  calls : ∀ f ∈ s.flushes, ∀ r, f.call = some r → r ∈ s.accepted
  required : ∀ reader ∈ s.readers, ∀ r ∈ reader.required, r ∈ s.accepted
  unread : ∀ reader ∈ s.readers, reader.todo = none → reader.found = []

/-- Where a record is, and what the reads under way have of it. -/
structure Tracked (s : ActivityStore) (r : ActivityRecord) : Prop where
  placed : s.pending.count r + s.flying.count r + s.listed.count r =
    if r ∈ s.accepted then 1 else 0
  written : ∀ f ∈ s.flushes, ∀ e, f.entry = some e →
    (s.contents e.path).count r = f.records.count r
  reading : ∀ reader ∈ s.readers, ∀ todo, reader.todo = some todo → r ∈ reader.required →
    reader.found.count r + (s.recordsOf todo).count r + s.pending.count r = 1

structure Inv (s : ActivityStore) : Prop where
  wellFormed : s.WellFormed config
  tracked : ∀ r, LiveAt config s.clock r → s.Tracked r
  reads : ∀ read ∈ s.reads, Read.Complete config read

/-! ## Lists of flushes -/

lemma count_flying_eraseIdx {fs : List Flush} {i : ℕ} {f : Flush} (h : fs[i]? = some f)
    (r : ActivityRecord) : (fs.flatMap Flush.records).count r =
      f.records.count r + ((fs.eraseIdx i).flatMap Flush.records).count r := by
  obtain ⟨hi, rfl⟩ := List.getElem?_eq_some_iff.mp h
  have hperm := (List.getElem_cons_eraseIdx_perm hi).flatMap_right Flush.records
  rw [← hperm.count_eq r, List.flatMap_cons, List.count_append]

lemma flatMap_set {fs : List Flush} {i : ℕ} {f f' : Flush} (h : fs[i]? = some f)
    (hrec : f'.records = f.records) :
    (fs.set i f').flatMap Flush.records = fs.flatMap Flush.records := by
  induction fs generalizing i with
  | nil => rfl
  | cons g fs ih =>
      cases i with
      | zero =>
          cases h
          rw [List.set_cons_zero, List.flatMap_cons, List.flatMap_cons, hrec]
      | succ i =>
          rw [List.set_cons_succ, List.flatMap_cons, List.flatMap_cons, ih h]

/-- The range of some records contains their times, by induction along the fold. -/
lemma le_maxAt {path : ℕ} {records : List ActivityRecord} :
    ∀ r ∈ records, r.atMicros ≤ (fileEntry path records).maxAt := by
  have hfold : ∀ (l : List ActivityRecord) (range : ℤ × ℤ),
      range.2 ≤ (l.foldl (fun range r => (min range.1 r.atMicros, max range.2 r.atMicros)) range).2 ∧
        ∀ r ∈ l, r.atMicros ≤
          (l.foldl (fun range r => (min range.1 r.atMicros, max range.2 r.atMicros)) range).2 := by
    intro l
    induction l with
    | nil => exact fun range => ⟨le_refl _, fun r hr => absurd hr List.not_mem_nil⟩
    | cons x l ih =>
        intro range
        obtain ⟨hstart, hall⟩ := ih (min range.1 x.atMicros, max range.2 x.atMicros)
        refine ⟨le_trans (le_max_left _ _) hstart, fun r hr => ?_⟩
        rcases List.mem_cons.mp hr with rfl | hr
        · exact le_trans (le_max_right _ _) hstart
        · exact hall r hr
  exact (hfold records _).2

variable {config} {s : ActivityStore}

lemma LiveAt.earlier {clock clock' : ℤ} {r : ActivityRecord} (h : LiveAt config clock' r)
    (hle : clock ≤ clock') : LiveAt config clock r := by
  intro retention hret
  have hlive := h retention hret
  omega

/-! ## Well-formedness along a step -/

section

variable {s' : ActivityStore} {i : ℕ}

lemma wellFormed_tick (h : s.WellFormed config) (d : ℕ) :
    ({ s with clock := s.clock + d } : ActivityStore).WellFormed config where
  aged := h.aged
  pruning p hp := by
    obtain ⟨⟨retention, hret, hcut⟩, htodo⟩ := h.pruning p hp
    refine ⟨⟨retention, hret, ?_⟩, htodo⟩
    show p.cutoff ≤ s.clock + d - retention
    omega
  full := h.full
  completed := h.completed
  calls := h.calls
  required := h.required
  unread := h.unread

lemma wellFormed_push (h : s.WellFormed config) (r : ActivityRecord) :
    (s.push config r).WellFormed config := by
  unfold push
  dsimp only
  split_ifs
  · refine ⟨h.aged, h.pruning, ?_, ?_, ?_, ?_, h.unread⟩
    · intro x hx
      rcases List.mem_cons.mp hx with rfl | hx
      · exact List.mem_cons_self
      · exact List.mem_cons_of_mem _ (h.full x hx)
    · exact fun x hx => List.mem_cons_of_mem _ (h.completed x hx)
    · exact fun f hf x hx => List.mem_cons_of_mem _ (h.calls f hf x hx)
    · exact fun reader hreader x hx => List.mem_cons_of_mem _ (h.required reader hreader x hx)
  · refine ⟨h.aged, h.pruning, ?_, ?_, ?_, ?_, h.unread⟩
    · exact fun x hx => List.mem_cons_of_mem _ (h.full x hx)
    · intro x hx
      rcases List.mem_cons.mp hx with rfl | hx
      · exact List.mem_cons_self
      · exact List.mem_cons_of_mem _ (h.completed x hx)
    · exact fun f hf x hx => List.mem_cons_of_mem _ (h.calls f hf x hx)
    · exact fun reader hreader x hx => List.mem_cons_of_mem _ (h.required reader hreader x hx)

lemma wellFormed_take (h : s.WellFormed config) {call : Option ActivityRecord}
    (hcall : ∀ r, call = some r → r ∈ s.full) : (s.takePending call).WellFormed config := by
  have hfull : ∀ r ∈ s.full.filter fun r => call ≠ some r, r ∈ s.accepted :=
    fun r hr => h.full r (List.mem_filter.mp hr).1
  unfold takePending
  dsimp only
  split_ifs
  · refine ⟨h.aged, h.pruning, hfull, ?_, h.calls, h.required, h.unread⟩
    intro r hr
    rcases List.mem_append.mp hr with hr | hr
    · exact h.full r (hcall r (Option.mem_toList.mp hr))
    · exact h.completed r hr
  · refine ⟨?_, h.pruning, hfull, h.completed, ?_, h.required, h.unread⟩
    · intro e he
      refine h.aged e ?_
      rcases he with he | he | he | ⟨f, hf, he⟩
      · exact Or.inl he
      · exact Or.inr (Or.inl he)
      · exact Or.inr (Or.inr (Or.inl he))
      · rcases List.mem_append.mp hf with hf | hf
        · exact Or.inr (Or.inr (Or.inr ⟨f, hf, he⟩))
        · rw [List.mem_singleton.mp hf] at he
          cases he
    · intro f hf r hr
      rcases List.mem_append.mp hf with hf | hf
      · exact h.calls f hf r hr
      · rw [List.mem_singleton.mp hf] at hr
        exact h.full r (hcall r hr)

lemma contents_writeFile {f : Flush} {p : ℕ} :
    (s.writeFile i f).contents p = if p = s.nextPath then f.records else s.contents p := by
  unfold contents writeFile
  dsimp only
  split_ifs <;> rfl

lemma wellFormed_write (h : s.WellFormed config) {f : Flush} (hf : s.flushes[i]? = some f) :
    (s.writeFile i f).WellFormed config := by
  have hmem : f ∈ s.flushes := List.mem_of_getElem? hf
  refine ⟨?_, h.pruning, h.full, h.completed, ?_, h.required, h.unread⟩
  · intro e he
    rw [contents_writeFile]
    have hold : s.Mentions e → e.path < s.nextPath + 1 ∧
        ∀ r ∈ if e.path = s.nextPath then f.records else s.contents e.path,
          r.atMicros ≤ e.maxAt := by
      intro he
      obtain ⟨hlt, haged⟩ := h.aged e he
      rw [if_neg (by omega)]
      exact ⟨by omega, haged⟩
    rcases he with he | he | he | ⟨g, hg, he⟩
    · exact hold (Or.inl he)
    · exact hold (Or.inr (Or.inl he))
    · exact hold (Or.inr (Or.inr (Or.inl he)))
    · rcases List.mem_or_eq_of_mem_set hg with hg | rfl
      · exact hold (Or.inr (Or.inr (Or.inr ⟨g, hg, he⟩)))
      · cases he
        have hpath : (fileEntry s.nextPath f.records).path = s.nextPath := rfl
        rw [if_pos hpath]
        exact ⟨Nat.lt_succ_self _, le_maxAt⟩
  · intro g hg r hr
    rcases List.mem_or_eq_of_mem_set hg with hg | rfl
    · exact h.calls g hg r hr
    · exact h.calls f hmem r hr

lemma wellFormed_endFlush (h : s.WellFormed config) {f : Flush} (hf : s.flushes[i]? = some f)
    (manifest : List FileEntry)
    (hmanifest : ∀ e ∈ manifest, e ∈ s.manifest ∨ f.entry = some e) :
    ({ s.endFlush i f with manifest := manifest } : ActivityStore).WellFormed config := by
  have hmem : f ∈ s.flushes := List.mem_of_getElem? hf
  refine ⟨?_, h.pruning, h.full, ?_, ?_, h.required, h.unread⟩
  · intro e he
    refine h.aged e ?_
    rcases he with he | he | he | ⟨g, hg, he⟩
    · rcases hmanifest e he with he | he
      · exact Or.inl he
      · exact Or.inr (Or.inr (Or.inr ⟨f, hmem, he⟩))
    · exact Or.inr (Or.inl he)
    · exact Or.inr (Or.inr (Or.inl he))
    · exact Or.inr (Or.inr (Or.inr ⟨g, List.mem_of_mem_eraseIdx hg, he⟩))
  · intro r hr
    rcases List.mem_append.mp hr with hr | hr
    · exact h.calls f hmem r (Option.mem_toList.mp hr)
    · exact h.completed r hr
  · exact fun g hg => h.calls g (List.mem_of_mem_eraseIdx hg)

/-- A step of a prune: what it still has to remove was in the manifest or left before, and the files
only shrink. -/
lemma wellFormed_prune (h : s.WellFormed config) (manifest : List FileEntry)
    (disk : ℕ → Option (List ActivityRecord)) (prune : Option Prune)
    (hmanifest : ∀ e ∈ manifest, e ∈ s.manifest)
    (hdisk : ∀ p, ∀ r ∈ (disk p).getD [], r ∈ s.contents p)
    (hmentions : ∀ p, prune = some p → ∀ e ∈ p.todo, s.Mentions e)
    (hpruning : ∀ p, prune = some p →
      (∃ retention, config.retention = some retention ∧ p.cutoff ≤ s.clock - retention) ∧
        ∀ e ∈ p.todo, e.maxAt < p.cutoff) :
    ({ s with manifest := manifest, disk := disk, prune := prune } : ActivityStore).WellFormed
      config := by
  refine ⟨?_, hpruning, h.full, h.completed, h.calls, h.required, h.unread⟩
  intro e he
  have hold : s.Mentions e := by
    rcases he with he | he | ⟨p, hp, he⟩ | he
    · exact Or.inl (hmanifest e he)
    · exact Or.inr (Or.inl he)
    · exact hmentions p hp e he
    · exact Or.inr (Or.inr (Or.inr he))
  obtain ⟨hlt, haged⟩ := h.aged e hold
  exact ⟨hlt, fun r hr => haged r (hdisk e.path r hr)⟩

/-- A step of a read. -/
lemma wellFormed_readers (h : s.WellFormed config) (readers : List Reader) (reads : List Read)
    (hmentions : ∀ reader ∈ readers, ∀ todo, reader.todo = some todo → ∀ e ∈ todo, s.Mentions e)
    (hrequired : ∀ reader ∈ readers, ∀ r ∈ reader.required, r ∈ s.accepted)
    (hunread : ∀ reader ∈ readers, reader.todo = none → reader.found = []) :
    ({ s with readers := readers, reads := reads } : ActivityStore).WellFormed config := by
  refine ⟨?_, h.pruning, h.full, h.completed, h.calls, hrequired, hunread⟩
  intro e he
  refine h.aged e ?_
  rcases he with he | ⟨reader, hreader, todo, htodo, he⟩ | he | he
  · exact Or.inl he
  · exact hmentions reader hreader todo htodo e he
  · exact Or.inr (Or.inr (Or.inl he))
  · exact Or.inr (Or.inr (Or.inr he))

lemma wellFormed_step {a : Action} (h : s.WellFormed config) (hstep : step config s a = some s') :
    s'.WellFormed config := by
  cases a with
  | tick d =>
      cases hstep
      exact wellFormed_tick h d
  | record r =>
      simp only [step] at hstep
      split_ifs at hstep with hr
      cases hstep
      exact wellFormed_push h r
  | take call =>
      obtain ⟨hcall, rfl⟩ := step_take hstep
      exact wellFormed_take h hcall
  | write i =>
      obtain ⟨f, hf, -, rfl⟩ := step_write hstep
      exact wellFormed_write h hf
  | writeFail i =>
      obtain ⟨f, hf, rfl⟩ := step_fail (Or.inl hstep)
      exact wellFormed_endFlush h hf s.manifest fun e he => Or.inl he
  | commit i =>
      obtain ⟨f, e, hf, he, rfl⟩ := step_commit hstep
      refine wellFormed_endFlush h hf _ fun e' he' => ?_
      rcases List.mem_append.mp he' with he' | he'
      · exact Or.inl he'
      · exact Or.inr (by rw [he, List.mem_singleton.mp he'])
  | commitFail i =>
      obtain ⟨f, hf, rfl⟩ := step_fail (Or.inr hstep)
      exact wellFormed_endFlush h hf s.manifest fun e he => Or.inl he
  | startPrune waited =>
      obtain ⟨retention, hret, rfl⟩ := step_startPrune hstep
      refine wellFormed_prune h s.manifest s.disk _ (fun e he => he) (fun p r hr => hr) ?_ ?_
      · rintro _ ⟨⟩ e he
        exact Or.inl (List.mem_filter.mp he).1
      · rintro _ ⟨⟩
        refine ⟨⟨retention, hret, ?_⟩, fun e he => of_decide_eq_true (List.mem_filter.mp he).2⟩
        show s.clock - waited - retention ≤ s.clock - retention
        omega
  | removeFile removed =>
      obtain ⟨cutoff, e, todo, hprune, rfl⟩ := step_removeFile hstep
      obtain ⟨hcutoff, htodo⟩ := h.pruning _ hprune
      refine wellFormed_prune h s.manifest _ _ (fun e he => he) ?_ ?_ ?_
      · intro p r hr
        split_ifs at hr with hp
        · exact absurd hr List.not_mem_nil
        · exact hr
      · rintro _ ⟨⟩ e' he'
        exact Or.inr (Or.inr (Or.inl ⟨_, hprune, List.mem_cons_of_mem _ he'⟩))
      · rintro _ ⟨⟩
        exact ⟨hcutoff, fun e' he' => htodo e' (List.mem_cons_of_mem _ he')⟩
  | endPrune written =>
      obtain ⟨cutoff, hprune, rfl⟩ := step_endPrune hstep
      refine wellFormed_prune h _ s.disk none ?_ (fun p r hr => hr) (fun p hp => by cases hp)
        fun p hp => by cases hp
      intro e he
      split_ifs at he
      · exact (List.mem_filter.mp he).1
      · exact he
  | startRead =>
      cases hstep
      refine wellFormed_readers h _ s.reads ?_ ?_ ?_
      · intro reader hreader todo htodo e he
        rcases List.mem_append.mp hreader with hreader | hreader
        · exact Or.inr (Or.inl ⟨reader, hreader, todo, htodo, he⟩)
        · rw [List.mem_singleton.mp hreader] at htodo
          cases htodo
      · intro reader hreader r hr
        rcases List.mem_append.mp hreader with hreader | hreader
        · exact h.required reader hreader r hr
        · rw [List.mem_singleton.mp hreader] at hr
          exact h.completed r hr
      · intro reader hreader htodo
        rcases List.mem_append.mp hreader with hreader | hreader
        · exact h.unread reader hreader htodo
        · rw [List.mem_singleton.mp hreader]
  | readManifest i =>
      obtain ⟨reader, hreader, -, rfl⟩ := step_readManifest hstep
      have hmem := List.mem_of_getElem? hreader
      refine wellFormed_readers h _ s.reads ?_ ?_ ?_
      · intro reader' hreader' todo htodo e he
        rcases List.mem_or_eq_of_mem_set hreader' with hreader' | rfl
        · exact Or.inr (Or.inl ⟨reader', hreader', todo, htodo, he⟩)
        · cases htodo
          exact Or.inl he
      · intro reader' hreader' r hr
        rcases List.mem_or_eq_of_mem_set hreader' with hreader' | rfl
        · exact h.required reader' hreader' r hr
        · exact h.required reader hmem r hr
      · intro reader' hreader' htodo
        rcases List.mem_or_eq_of_mem_set hreader' with hreader' | rfl
        · exact h.unread reader' hreader' htodo
        · cases htodo
  | readFile i =>
      obtain ⟨required, e, todo, found, hreader, rfl⟩ := step_readFile hstep
      have hmem := List.mem_of_getElem? hreader
      refine wellFormed_readers h _ s.reads ?_ ?_ ?_
      · intro reader' hreader' todo' htodo e' he'
        rcases List.mem_or_eq_of_mem_set hreader' with hreader' | rfl
        · exact Or.inr (Or.inl ⟨reader', hreader', todo', htodo, he'⟩)
        · cases htodo
          exact Or.inr (Or.inl ⟨_, hmem, _, rfl, List.mem_cons_of_mem _ he'⟩)
      · intro reader' hreader' r hr
        rcases List.mem_or_eq_of_mem_set hreader' with hreader' | rfl
        · exact h.required reader' hreader' r hr
        · exact h.required _ hmem r hr
      · intro reader' hreader' htodo
        rcases List.mem_or_eq_of_mem_set hreader' with hreader' | rfl
        · exact h.unread reader' hreader' htodo
        · cases htodo
  | readPending i =>
      obtain ⟨required, found, hreader, rfl⟩ := step_readPending hstep
      refine wellFormed_readers h _ _ ?_ ?_ ?_
      · intro reader' hreader' todo htodo e he
        exact Or.inr (Or.inl ⟨reader', List.mem_of_mem_eraseIdx hreader', todo, htodo, he⟩)
      · exact fun reader' hreader' => h.required reader' (List.mem_of_mem_eraseIdx hreader')
      · exact fun reader' hreader' => h.unread reader' (List.mem_of_mem_eraseIdx hreader')

/-! ## One record along a step -/

variable {r : ActivityRecord}

lemma count_recordsOf_congr {entries : List FileEntry}
    (h : ∀ e ∈ entries, (s'.contents e.path).count r = (s.contents e.path).count r) :
    (s'.recordsOf entries).count r = (s.recordsOf entries).count r := by
  induction entries with
  | nil => rfl
  | cons e entries ih =>
      have hrest := ih fun e' he' => h e' (List.mem_cons_of_mem _ he')
      unfold recordsOf at hrest ⊢
      rw [List.flatMap_cons, List.flatMap_cons, List.count_append, List.count_append, hrest,
        h e List.mem_cons_self]

/-- A file whose newest record is past retention has no live record. -/
lemma count_contents_of_old (h : s.WellFormed config) {e : FileEntry} {cutoff : ℤ}
    (he : s.Mentions e) (hcutoff : ∃ retention, config.retention = some retention ∧
      cutoff ≤ s.clock - retention) (hold : e.maxAt < cutoff)
    (hlive : LiveAt config s.clock r) : (s.contents e.path).count r = 0 := by
  rw [List.count_eq_zero]
  intro hr
  obtain ⟨retention, hret, hle⟩ := hcutoff
  have hat := (h.aged e he).2 r hr
  have hkeep := hlive retention hret
  omega

lemma count_recordsOf_filter {entries : List FileEntry} {p : FileEntry → Bool}
    (h : ∀ e ∈ entries, p e = false → (s.contents e.path).count r = 0) :
    (s.recordsOf (entries.filter p)).count r = (s.recordsOf entries).count r := by
  induction entries with
  | nil => rfl
  | cons e entries ih =>
      have hrest := ih fun e' he' => h e' (List.mem_cons_of_mem _ he')
      unfold recordsOf at hrest ⊢
      rw [List.filter_cons, List.flatMap_cons, List.count_append, ← hrest]
      cases hp : p e with
      | true =>
          rw [if_pos rfl, List.flatMap_cons, List.count_append]
      | false =>
          rw [if_neg (by decide), h e List.mem_cons_self hp]
          omega

lemma tracked_push (h : s.Tracked r) (hwf : s.WellFormed config) {r₀ : ActivityRecord}
    (hr₀ : r₀ ∉ s.accepted) : (s.push config r₀).Tracked r := by
  have hplaced : (s.pending ++ [r₀]).count r + s.flying.count r + s.listed.count r =
      if r ∈ r₀ :: s.accepted then 1 else 0 := by
    have hold := h.placed
    rw [List.count_append, List.count_singleton]
    by_cases hr : r₀ = r
    · subst hr
      simp only [hr₀, if_false] at hold
      simp
      omega
    · have hr' : r ≠ r₀ := fun e => hr e.symm
      simp [hr, hr']
      omega
  have hreading : ∀ reader ∈ s.readers, ∀ todo, reader.todo = some todo → r ∈ reader.required →
      reader.found.count r + (s.recordsOf todo).count r + (s.pending ++ [r₀]).count r = 1 := by
    intro reader hreader todo htodo hr
    have hne : r₀ ≠ r := by
      rintro rfl
      exact hr₀ (hwf.required reader hreader _ hr)
    have hold := h.reading reader hreader todo htodo hr
    simp [hne]
    omega
  unfold push
  dsimp only
  split_ifs
  · exact ⟨hplaced, h.written, hreading⟩
  · exact ⟨hplaced, h.written, hreading⟩

/-- The buffer becomes a flush.  A reader that has its manifest and still needs the record from the
buffer would miss it. -/
lemma tracked_take (h : s.Tracked r) {call : Option ActivityRecord}
    (hcareful : ∀ reader ∈ s.readers, reader.todo ≠ none → r ∈ reader.required → r ∉ s.pending) :
    (s.takePending call).Tracked r := by
  unfold takePending
  dsimp only
  split_ifs
  · exact ⟨h.placed, h.written, h.reading⟩
  · refine ⟨?_, ?_, ?_⟩
    · have hold := h.placed
      show ([] : List ActivityRecord).count r +
        ((s.flushes ++ [_]).flatMap Flush.records).count r + s.listed.count r = _
      rw [List.flatMap_append, List.count_append, List.flatMap_singleton]
      unfold flying at hold
      simp only [List.count_nil]
      omega
    · intro f hf e he
      rcases List.mem_append.mp hf with hf | hf
      · exact h.written f hf e he
      · rw [List.mem_singleton.mp hf] at he
        cases he
    · intro reader hreader todo htodo hr
      have hold := h.reading reader hreader todo htodo hr
      have hgone := hcareful reader hreader (by rw [htodo]; exact Option.some_ne_none _) hr
      rw [List.count_eq_zero.mpr hgone] at hold
      exact hold

/-- Files change only where nothing that the store knows of is, or lose records that are not
live. -/
lemma tracked_contents (h : s.Tracked r)
    (hcontents : ∀ e, s.Mentions e → (s'.contents e.path).count r = (s.contents e.path).count r)
    (hpending : s'.pending = s.pending) (haccepted : s'.accepted = s.accepted)
    (hflying : s'.flying = s.flying) (hmanifest : s'.manifest = s.manifest)
    (hreaders : s'.readers = s.readers)
    (hwritten : ∀ f ∈ s'.flushes, ∀ e, f.entry = some e →
      (s'.contents e.path).count r = f.records.count r) : s'.Tracked r where
  placed := by
    have hlisted : s'.listed.count r = s.listed.count r := by
      unfold listed
      rw [hmanifest]
      exact count_recordsOf_congr fun e he => hcontents e (Or.inl he)
    rw [hpending, hflying, hlisted, haccepted]
    exact h.placed
  written := hwritten
  reading := by
    rw [hreaders, hpending]
    intro reader hreader todo htodo hr
    have htodos : (s'.recordsOf todo).count r = (s.recordsOf todo).count r :=
      count_recordsOf_congr fun e he =>
        hcontents e (Or.inr (Or.inl ⟨reader, hreader, todo, htodo, he⟩))
    rw [htodos]
    exact h.reading reader hreader todo htodo hr

lemma tracked_write (h : s.Tracked r) (hwf : s.WellFormed config) {f : Flush}
    (hf : s.flushes[i]? = some f) : (s.writeFile i f).Tracked r := by
  have hcontents : ∀ e, s.Mentions e →
      ((s.writeFile i f).contents e.path).count r = (s.contents e.path).count r := by
    intro e he
    have hlt := (hwf.aged e he).1
    rw [contents_writeFile, if_neg (by omega)]
  refine tracked_contents h hcontents rfl rfl (flatMap_set hf rfl) rfl rfl ?_
  intro g hg e he
  rcases List.mem_or_eq_of_mem_set hg with hg | rfl
  · rw [hcontents e (Or.inr (Or.inr (Or.inr ⟨g, hg, he⟩)))]
    exact h.written g hg e he
  · cases he
    have hpath : (fileEntry s.nextPath f.records).path = s.nextPath := rfl
    rw [contents_writeFile, if_pos hpath]

/-- A flush ends: its records are in a file that is listed now, or are not live. -/
lemma tracked_endFlush (h : s.Tracked r) {f : Flush} (hf : s.flushes[i]? = some f)
    (manifest : List FileEntry)
    (hmanifest : (s.recordsOf manifest).count r = s.listed.count r + f.records.count r) :
    ({ s.endFlush i f with manifest := manifest } : ActivityStore).Tracked r where
  placed := by
    have hold := h.placed
    have hflying : s.flying.count r = _ := count_flying_eraseIdx hf r
    show s.pending.count r + ((s.flushes.eraseIdx i).flatMap Flush.records).count r +
      (s.recordsOf manifest).count r = if r ∈ s.accepted then 1 else 0
    omega
  written g hg := h.written g (List.mem_of_mem_eraseIdx hg)
  reading := h.reading

lemma tracked_readers (h : s.Tracked r) (readers : List Reader) (reads : List Read)
    (hreading : ∀ reader ∈ readers, ∀ todo, reader.todo = some todo → r ∈ reader.required →
      reader.found.count r + (s.recordsOf todo).count r + s.pending.count r = 1) :
    ({ s with readers := readers, reads := reads } : ActivityStore).Tracked r :=
  ⟨h.placed, h.written, hreading⟩

lemma tracked_step {a : Action} (h : s.Tracked r) (hwf : s.WellFormed config)
    (hlive : LiveAt config s.clock r) (hcareful : Careful config s a)
    (hstep : step config s a = some s') : s'.Tracked r := by
  cases a with
  | tick d =>
      cases hstep
      exact ⟨h.placed, h.written, h.reading⟩
  | record r₀ =>
      simp only [step] at hstep
      split_ifs at hstep with hr
      cases hstep
      exact tracked_push h hwf hr
  | take call =>
      obtain ⟨-, rfl⟩ := step_take hstep
      refine tracked_take h fun reader hreader htodo hr hpending => ?_
      exact hcareful reader hreader htodo r hr hpending hlive
  | write i =>
      obtain ⟨f, hf, -, rfl⟩ := step_write hstep
      exact tracked_write h hwf hf
  | writeFail i =>
      obtain ⟨f, hf, rfl⟩ := step_fail (Or.inl hstep)
      have hnone : f.records.count r = 0 :=
        List.count_eq_zero.mpr fun hr => hcareful f hf r hr hlive
      exact tracked_endFlush h hf s.manifest (by rw [hnone]; rfl)
  | commit i =>
      obtain ⟨f, e, hf, he, rfl⟩ := step_commit hstep
      refine tracked_endFlush h hf _ ?_
      have hwritten := h.written f (List.mem_of_getElem? hf) e he
      unfold listed recordsOf
      rw [List.flatMap_append, List.count_append, List.flatMap_singleton, hwritten]
  | commitFail i =>
      obtain ⟨f, hf, rfl⟩ := step_fail (Or.inr hstep)
      have hnone : f.records.count r = 0 :=
        List.count_eq_zero.mpr fun hr => hcareful f hf r hr hlive
      exact tracked_endFlush h hf s.manifest (by rw [hnone]; rfl)
  | startPrune waited =>
      obtain ⟨retention, -, rfl⟩ := step_startPrune hstep
      exact ⟨h.placed, h.written, h.reading⟩
  | removeFile removed =>
      obtain ⟨cutoff, e, todo, hprune, rfl⟩ := step_removeFile hstep
      obtain ⟨hcutoff, htodo⟩ := hwf.pruning _ hprune
      have hold : (s.contents e.path).count r = 0 :=
        count_contents_of_old hwf (Or.inr (Or.inr (Or.inl ⟨_, hprune, List.mem_cons_self⟩)))
          hcutoff (htodo e List.mem_cons_self) hlive
      -- the file that goes has no live record, and the others stay
      have hcontents : ∀ p : ℕ,
          (((if removed = true ∧ p = e.path then none else s.disk p).getD []).count r) =
            (s.contents p).count r := by
        intro p
        split_ifs with hp
        · rw [hp.2, hold]
          rfl
        · rfl
      refine tracked_contents h (fun e' _ => hcontents e'.path) rfl rfl rfl rfl rfl ?_
      exact fun f hf e' he' => (hcontents e'.path).trans (h.written f hf e' he')
  | endPrune written =>
      obtain ⟨cutoff, hprune, rfl⟩ := step_endPrune hstep
      obtain ⟨hcutoff, -⟩ := hwf.pruning _ hprune
      refine ⟨?_, h.written, h.reading⟩
      cases written with
      | false => exact h.placed
      | true =>
          have hlisted : (s.recordsOf (s.manifest.filter fun e => cutoff ≤ e.maxAt)).count r =
              s.listed.count r := by
            refine count_recordsOf_filter fun e he hdrop => ?_
            have hlt : e.maxAt < cutoff := not_le.mp (of_decide_eq_false hdrop)
            exact count_contents_of_old hwf (Or.inl he) hcutoff hlt hlive
          have hold := h.placed
          rw [← hlisted] at hold
          exact hold
  | startRead =>
      cases hstep
      refine tracked_readers h _ s.reads fun reader hreader todo htodo hr => ?_
      rcases List.mem_append.mp hreader with hreader | hreader
      · exact h.reading reader hreader todo htodo hr
      · rw [List.mem_singleton.mp hreader] at htodo
        cases htodo
  | readManifest i =>
      obtain ⟨reader, hreader, htodo, rfl⟩ := step_readManifest hstep
      have hmem := List.mem_of_getElem? hreader
      refine tracked_readers h _ s.reads fun reader' hreader' todo htodo' hr => ?_
      rcases List.mem_or_eq_of_mem_set hreader' with hreader' | rfl
      · exact h.reading reader' hreader' todo htodo' hr
      · cases htodo'
        have hflying : s.flying.count r = 0 :=
          List.count_eq_zero.mpr fun hfly => hcareful reader hreader r hr hfly hlive
        have hplaced := h.placed
        rw [if_pos (hwf.required reader hmem r hr), hflying] at hplaced
        show reader.found.count r + s.listed.count r + s.pending.count r = 1
        rw [hwf.unread reader hmem htodo, List.count_nil]
        omega
  | readFile i =>
      obtain ⟨required, e, todo, found, hreader, rfl⟩ := step_readFile hstep
      have hmem := List.mem_of_getElem? hreader
      refine tracked_readers h _ s.reads fun reader' hreader' todo' htodo' hr => ?_
      rcases List.mem_or_eq_of_mem_set hreader' with hreader' | rfl
      · exact h.reading reader' hreader' todo' htodo' hr
      · cases htodo'
        have hold := h.reading _ hmem _ rfl hr
        unfold recordsOf at hold ⊢
        rw [List.flatMap_cons, List.count_append] at hold
        show (found ++ s.contents e.path).count r + _ + _ = 1
        rw [List.count_append]
        dsimp only at hold
        omega
  | readPending i =>
      obtain ⟨required, found, -, rfl⟩ := step_readPending hstep
      exact tracked_readers h _ _ fun reader' hreader' =>
        h.reading reader' (List.mem_of_mem_eraseIdx hreader')

/-! ## Runs -/

/-- A read that ends has every record it had to find once, from the files or the buffer. -/
lemma complete_of_readPending (h : s.Inv config) (hstep : step config s (.readPending i) = some s') :
    ∀ read ∈ s'.reads, Read.Complete config read := by
  obtain ⟨required, found, hreader, rfl⟩ := step_readPending hstep
  intro read hread
  rcases List.mem_cons.mp hread with rfl | hread
  · intro r hr hlive
    have hreading := (h.tracked r hlive).reading _ (List.mem_of_getElem? hreader) [] rfl hr
    show (found ++ s.pending).count r = 1
    rw [List.count_append]
    simp only [recordsOf, List.flatMap_nil, List.count_nil] at hreading
    omega
  · exact h.reads read hread

lemma inv_step {a : Action} (h : s.Inv config) (hcareful : Careful config s a)
    (hstep : step config s a = some s') : s'.Inv config where
  wellFormed := wellFormed_step h.wellFormed hstep
  tracked r hlive := by
    have hlive' : LiveAt config s.clock r := hlive.earlier (step_frame hstep).1
    exact tracked_step (h.tracked r hlive') h.wellFormed hlive' hcareful hstep
  reads := by
    by_cases ha : ∃ i, a = .readPending i
    · obtain ⟨i, rfl⟩ := ha
      exact complete_of_readPending h hstep
    · rw [(step_frame hstep).2 fun i hi => ha ⟨i, hi⟩]
      exact h.reads

end

/-- An empty store. -/
lemma inv_empty (start : ℤ) : ({ clock := start } : ActivityStore).Inv config where
  wellFormed := {
    aged := by
      rintro e (he | ⟨reader, hreader, -⟩ | ⟨p, hp, -⟩ | ⟨f, hf, -⟩)
      · cases he
      · cases hreader
      · cases hp
      · cases hf
    pruning := by
      intro p hp
      cases hp
    full := by simp
    completed := by simp
    calls := by simp
    required := by simp
    unread := by simp }
  tracked r _ := {
    placed := by simp [flying, listed, recordsOf]
    written := by simp
    reading := by simp }
  reads read hread := by cases hread

lemma Inv.conserved (h : s.Inv config) : s.Conserved config where
  placed hquiet r hr hlive := by
    have hplaced := (h.tracked r hlive).placed
    have hflying : s.flying.count r = 0 := by
      unfold flying
      rw [hquiet]
      rfl
    rw [if_pos hr] at hplaced
    omega
  read := h.reads

/-- Every state that careful steps reach is conserved. -/
theorem conserved_of_careful {start : ℤ} {as : List Action}
    (h : Along (step config) (Careful config) { clock := start } as s) : s.Conserved config :=
  (h.invariant (fun _ _ _ hinv hcareful hstep => inv_step hinv hcareful hstep)
    (inv_empty start)).conserved

section

def exampleConfig : StoreConfig := { flushThreshold := 2, retention := none }

def exampleRecord : ActivityRecord := { call := 0, atMicros := 0 }

/-- A record, a timed flush and a read. -/
def flushedRun : List Action :=
  [.record exampleRecord, .take none, .write 0, .commit 0, .startRead, .readManifest 0,
    .readFile 0, .readPending 0]

theorem flushedRun_conserved : ∃ s, exec (step exampleConfig) { clock := 0 } flushedRun = some s ∧
    s.reads.length = 1 ∧ s.Conserved exampleConfig := by
  have hrun : ∃ s, Along (step exampleConfig) (Careful exampleConfig) { clock := 0 } flushedRun s ∧
      s.reads.length = 1 := by
    refine ⟨_, .cons trivial rfl (.cons ?_ rfl (.cons trivial rfl (.cons trivial rfl
      (.cons trivial rfl (.cons ?_ rfl (.cons trivial rfl (.cons trivial rfl (.nil _)))))))), rfl⟩
    · intro reader hreader
      cases hreader
    · intro reader _ r _ hr
      cases hr
  obtain ⟨s, hs, hreads⟩ := hrun
  exact ⟨s, hs.exec, hreads, conserved_of_careful hs⟩

/-- A flush between the two halves of a read, and a flush whose file cannot be written. -/
def racedRun : List Action :=
  [.record exampleRecord, .startRead, .readManifest 0, .take none, .write 0, .commit 0,
    .readPending 0]

def failedRun : List Action :=
  [.record exampleRecord, .take none, .writeFail 0]

theorem raced_failed_not_conserved :
    (∃ s, exec (step exampleConfig) { clock := 0 } racedRun = some s ∧
      ¬ s.Conserved exampleConfig) ∧
    ∃ s, exec (step exampleConfig) { clock := 0 } failedRun = some s ∧
      ¬ s.Conserved exampleConfig := by
  have hlive : LiveAt exampleConfig 0 exampleRecord := by
    intro retention hret
    cases hret
  refine ⟨⟨_, rfl, fun h => ?_⟩, ⟨_, rfl, fun h => ?_⟩⟩
  · have hread := h.read _ List.mem_cons_self exampleRecord List.mem_cons_self hlive
    exact absurd hread (by decide)
  · have hplaced := h.placed rfl exampleRecord List.mem_cons_self hlive
    exact absurd hplaced (by decide)

end

end ActivityStore

end DurableActivity
end Engine
end Pawrly
