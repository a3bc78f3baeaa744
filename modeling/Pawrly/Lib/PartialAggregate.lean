import Mathlib.Tactic.Common
import Mathlib.Data.List.Dedup
import Mathlib.Data.List.Perm.Basic
import Mathlib.Data.List.Perm.Lattice

/-!
# Aggregating in two stages

Rows are grouped by a key, every group is aggregated, and the partial results of some of the
groups are combined.  For an aggregate that decomposes this gives the aggregate of the rows
whose group was kept (`combine_partials`): the first grouping may be finer than what is asked
for in the end.
-/

namespace PartialAggregate

variable {ρ α γ κ : Type*}

/-- An aggregate whose partial results can be combined: it does not depend on the order of its
values, and combining the results of some lists gives the result of their concatenation. -/
structure Decomposes (agg : List α → γ) (combine : List γ → γ) : Prop where
  perm : ∀ {l l' : List α}, l.Perm l' → agg l = agg l'
  flatten : ∀ ls : List (List α), ls ≠ [] → combine (ls.map agg) = agg ls.flatten

variable [DecidableEq κ]

/-- The keys of the groups. -/
def groupKeys (key : ρ → κ) (rows : List ρ) : List κ := (rows.map key).dedup

/-- The rows of one group. -/
def group (key : ρ → κ) (rows : List ρ) (k : κ) : List ρ := rows.filter fun r => key r = k

lemma mem_groupKeys {key : ρ → κ} {rows : List ρ} {k : κ} :
    k ∈ groupKeys key rows ↔ ∃ r ∈ rows, key r = k := by
  unfold groupKeys
  rw [List.mem_dedup, List.mem_map]

lemma groupKeys_nodup (key : ρ → κ) (rows : List ρ) : (groupKeys key rows).Nodup :=
  List.nodup_dedup _

lemma mem_group {key : ρ → κ} {rows : List ρ} {k : κ} {r : ρ} :
    r ∈ group key rows k ↔ r ∈ rows ∧ key r = k := by
  simp [group]

/-- Every group that is listed has a row. -/
lemma exists_head_group {key : ρ → κ} {rows : List ρ} {k : κ} (hk : k ∈ groupKeys key rows) :
    ∃ r ∈ rows, key r = k ∧ (group key rows k).head? = some r := by
  obtain ⟨r, hr, hrk⟩ := mem_groupKeys.mp hk
  cases hg : group key rows k with
  | nil =>
      have hmem : r ∈ group key rows k := mem_group.mpr ⟨hr, hrk⟩
      rw [hg] at hmem
      cases hmem
  | cons r' rest =>
      have hmem : r' ∈ group key rows k := by rw [hg]; exact List.mem_cons_self
      obtain ⟨hr', hk'⟩ := mem_group.mp hmem
      exact ⟨r', hr', hk', rfl⟩

/-- The groups of distinct keys, one after the other, are the rows with one of the keys. -/
lemma flatten_groups_perm {key : ρ → κ} {rows : List ρ} {ks : List κ} (hks : ks.Nodup) :
    (ks.map (group key rows)).flatten.Perm (rows.filter fun r => key r ∈ ks) := by
  induction ks with
  | nil => simp
  | cons k ks ih =>
      obtain ⟨hk, hks⟩ := List.nodup_cons.mp hks
      rw [List.map_cons, List.flatten_cons]
      have hsplit := List.filter_append_perm (fun r => decide (key r = k))
        (rows.filter fun r => key r ∈ k :: ks)
      have hfirst : (rows.filter fun r => key r ∈ k :: ks).filter (fun r => decide (key r = k)) =
          group key rows k := by
        unfold group
        rw [List.filter_filter]
        refine List.filter_congr fun r _ => ?_
        by_cases hr : key r = k <;> simp [hr]
      have hrest : (rows.filter fun r => key r ∈ k :: ks).filter (fun r => !decide (key r = k)) =
          rows.filter fun r => key r ∈ ks := by
        rw [List.filter_filter]
        refine List.filter_congr fun r _ => ?_
        by_cases hr : key r = k
        · simp [hr, hk]
        · simp [hr]
      rw [hfirst, hrest] at hsplit
      exact ((ih hks).append_left _).trans hsplit

/-- **Two stages are one**: the combined results of the kept groups are the aggregate of the
rows whose group is kept. -/
theorem combine_partials {agg : List α → γ} {combine : List γ → γ} (h : Decomposes agg combine)
    {key : ρ → κ} {rows : List ρ} {keep : κ → Bool} {value : ρ → Option α}
    (hne : (groupKeys key rows).filter keep ≠ [] ∨ combine [] = agg []) :
    combine (((groupKeys key rows).filter keep).map fun k =>
        agg ((group key rows k).filterMap value)) =
      agg ((rows.filter fun r => keep (key r)).filterMap value) := by
  have hrows : (((groupKeys key rows).filter keep).map (group key rows)).flatten.Perm
      (rows.filter fun r => keep (key r)) := by
    refine (flatten_groups_perm ((groupKeys_nodup key rows).filter _)).trans ?_
    refine List.Perm.of_eq (List.filter_congr fun r hr => ?_)
    have hkey : key r ∈ groupKeys key rows := mem_groupKeys.mpr ⟨r, hr, rfl⟩
    simp [List.mem_filter, hkey]
  have hcombine : combine ((((groupKeys key rows).filter keep).map fun k =>
      (group key rows k).filterMap value).map agg) =
      agg (((groupKeys key rows).filter keep).map fun k =>
        (group key rows k).filterMap value).flatten := by
    by_cases hnil : (groupKeys key rows).filter keep = []
    · rw [hnil]
      exact hne.resolve_left (fun hne => hne hnil)
    · exact h.flatten _ (by simpa using hnil)
  rw [List.map_map] at hcombine
  refine hcombine.trans (h.perm ?_)
  have hflat : (((groupKeys key rows).filter keep).map fun k =>
      (group key rows k).filterMap value).flatten =
      ((((groupKeys key rows).filter keep).map (group key rows)).flatten).filterMap value := by
    rw [List.filterMap_flatten, List.map_map]
    rfl
  rw [hflat]
  exact hrows.filterMap value

/-- Rows without a value may be selected differently. -/
lemma filterMap_filter_congr {value : ρ → Option α} {p p' : ρ → Bool} {rows : List ρ}
    (h : ∀ r ∈ rows, p r = p' r ∨ value r = none) :
    (rows.filter p).filterMap value = (rows.filter p').filterMap value := by
  rw [List.filterMap_filter, List.filterMap_filter]
  refine List.filterMap_congr fun r hr => ?_
  rcases h r hr with hp | hv
  · rw [hp]
  · rw [hv, ite_self, ite_self]

/-! ## Reductions -/

section

variable {op : α → α → α}

/-- Combine the values of a list by an operation; nothing when there are none. -/
def reduce (op : α → α → α) : List α → Option α
  | [] => none
  | a :: l => some (l.foldl op a)

variable [ha : Std.Associative op]

lemma reduce_cons (a : α) (l : List α) :
    reduce op (a :: l) = Option.merge op (some a) (reduce op l) := by
  cases l with
  | nil => rfl
  | cons b l =>
      simp only [reduce, List.foldl_cons, Option.merge_some_some]
      rw [List.foldl_assoc]

lemma reduce_append (l l' : List α) :
    reduce op (l ++ l') = Option.merge op (reduce op l) (reduce op l') := by
  induction l with
  | nil =>
      rw [List.nil_append, show reduce op [] = none from rfl, Option.merge_none_left]
  | cons a l ih =>
      have hassoc : ∀ x y z : Option α, Option.merge op (Option.merge op x y) z =
          Option.merge op x (Option.merge op y z) := Std.Associative.assoc
      rw [List.cons_append, reduce_cons, ih, reduce_cons, hassoc]

/-- Combining what each list reduces to reduces their concatenation. -/
lemma reduce_flatten (ls : List (List α)) :
    reduce op ((ls.map (reduce op)).filterMap id) = reduce op ls.flatten := by
  induction ls with
  | nil => rfl
  | cons l ls ih =>
      rw [List.flatten_cons, reduce_append, ← ih, List.map_cons]
      cases h : reduce op l with
      | none => simp
      | some a =>
          rw [List.filterMap_cons_some (by rfl), reduce_cons]

variable [hc : Std.Commutative op]

lemma reduce_perm {l l' : List α} (h : l.Perm l') : reduce op l = reduce op l' := by
  induction h with
  | nil => rfl
  | cons a _ ih => rw [reduce_cons, reduce_cons, ih]
  | swap a b l =>
      have hassoc : ∀ x y z : Option α, Option.merge op (Option.merge op x y) z =
          Option.merge op x (Option.merge op y z) := Std.Associative.assoc
      rw [reduce_cons, reduce_cons, reduce_cons, reduce_cons, ← hassoc, ← hassoc]
      simp only [Option.merge_some_some, hc.comm a b]
  | trans _ _ ih₁ ih₂ => exact ih₁.trans ih₂

theorem decomposes_reduce :
    Decomposes (reduce op) fun vs => reduce op (vs.filterMap id) where
  perm := reduce_perm
  flatten := fun ls _ => reduce_flatten ls

end

end PartialAggregate
