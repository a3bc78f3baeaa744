import Mathlib.Tactic.Common
import Mathlib.Data.List.Nodup
import Mathlib.Logic.Function.Basic

/-!
# Chains of full outer joins

Named sources are joined one after the other.  A joined row says for every source whether it
contributed a row; a source that did not is padded.  `fullOuter` is the nested-loop full outer
join of the rows joined so far with a further source, `cross` the cross join.

`aligned T key scope ks` is the intended result over keyed sources: one joined row for each
key, holding for every source in scope the row with that key.  `fullOuter_aligned` and
`cross_aligned` say that a join whose condition compares keys extends it by one source.
-/

namespace OuterJoin

/-! ## Joins -/

section

variable {ι α : Type*} [DecidableEq ι]

/-- The rows the sources contribute to one joined row. -/
abbrev Joined (ι α : Type*) := ι → Option α

/-- Add the row of a source to a joined row. -/
def extend (e : Joined ι α) (i : ι) (r : α) : Joined ι α := Function.update e i (some r)

/-- No source has contributed. -/
def padding : Joined ι α := fun _ => none

/-- Left outer join with the rows `rs` of source `i`: each joined row with its matches, or as it
is. -/
def left (on : Joined ι α → α → Bool) (i : ι) (es : List (Joined ι α)) (rs : List α) :
    List (Joined ι α) :=
  es.flatMap fun e => match rs.filter (on e) with
    | [] => [e]
    | matched => matched.map (extend e i)

/-- Full outer join: the left outer join, then the rows of `i` without a match. -/
def fullOuter (on : Joined ι α → α → Bool) (i : ι) (es : List (Joined ι α)) (rs : List α) :
    List (Joined ι α) :=
  left on i es rs ++ (rs.filter fun r => es.all fun e => !on e r).map (extend padding i)

/-- Cross join with the rows `rs` of source `i`. -/
def cross (i : ι) (es : List (Joined ι α)) (rs : List α) : List (Joined ι α) :=
  es.flatMap fun e => rs.map (extend e i)

end

/-! ## Keyed rows -/

section

variable {α κ : Type*} [DecidableEq κ] {key : α → κ} {rows : List α}

/-- The row with a given key. -/
def rowAt (key : α → κ) (rows : List α) (k : κ) : Option α := rows.find? fun r => key r = k

/-- The keys of the rows that are not listed yet. -/
def freshKeys (key : α → κ) (rows : List α) (ks : List κ) : List κ :=
  (rows.map key).filter fun k => k ∉ ks

lemma mem_freshKeys {ks : List κ} {k : κ} :
    k ∈ freshKeys key rows ks ↔ k ∈ rows.map key ∧ k ∉ ks := by
  simp [freshKeys, List.mem_filter]

lemma rowAt_spec {k : κ} {r : α} (h : rowAt key rows k = some r) : r ∈ rows ∧ key r = k := by
  have hk := List.find?_some h
  exact ⟨List.mem_of_find?_eq_some h, by simpa using hk⟩

/-- With distinct keys a row is the row at its key. -/
lemma rowAt_of_mem (hrows : (rows.map key).Nodup) {r : α} (hr : r ∈ rows) :
    rowAt key rows (key r) = some r := by
  unfold rowAt
  induction rows with
  | nil => cases hr
  | cons a rows ih =>
      rw [List.map_cons, List.nodup_cons] at hrows
      rcases List.mem_cons.mp hr with rfl | hr
      · simp
      · have hne : key a ≠ key r := by
          intro heq
          exact hrows.1 (heq ▸ List.mem_map_of_mem hr)
        rw [List.find?_cons_of_neg (by simpa using hne)]
        exact ih hrows.2 hr

lemma rowAt_eq_none {k : κ} : rowAt key rows k = none ↔ k ∉ rows.map key := by
  unfold rowAt
  rw [List.find?_eq_none]
  simp [List.mem_map]

/-- The rows that match a key: the row at that key, if any. -/
lemma filter_key (hrows : (rows.map key).Nodup) (k : κ) :
    rows.filter (fun r => key r = k) = (rowAt key rows k).toList := by
  unfold rowAt
  induction rows with
  | nil => rfl
  | cons a rows ih =>
      rw [List.map_cons, List.nodup_cons] at hrows
      by_cases ha : key a = k
      · have hrest : rows.filter (fun r => key r = k) = [] := by
          rw [List.filter_eq_nil_iff]
          intro r hr hk
          have hkr : key r = k := by simpa using hk
          exact hrows.1 (by rw [ha, ← hkr]; exact List.mem_map_of_mem hr)
        rw [List.filter_cons_of_pos (by simpa using ha), hrest,
          List.find?_cons_of_pos (by simpa using ha)]
        rfl
      · rw [List.filter_cons_of_neg (by simpa using ha),
          List.find?_cons_of_neg (by simpa using ha)]
        exact ih hrows.2

/-- The rows at different keys are rows once each; they are all rows when every key is there. -/
lemma filterMap_rowAt_perm_iff (hrows : (rows.map key).Nodup) {ks : List κ} (hks : ks.Nodup) :
    (ks.filterMap (rowAt key rows)).Perm rows ↔ ∀ r ∈ rows, key r ∈ ks := by
  have hnodup : (ks.filterMap (rowAt key rows)).Nodup := by
    refine hks.filterMap fun k k' r hr hr' => ?_
    exact (rowAt_spec hr).2.symm.trans (rowAt_spec hr').2
  rw [List.perm_ext_iff_of_nodup hnodup (List.Nodup.of_map _ hrows)]
  simp only [List.mem_filterMap]
  constructor
  · intro h r hr
    obtain ⟨k, hk, hkr⟩ := (h r).mpr hr
    rw [(rowAt_spec hkr).2]
    exact hk
  · intro h r
    constructor
    · rintro ⟨k, _, hkr⟩
      exact (rowAt_spec hkr).1
    · exact fun hr => ⟨key r, h r hr, rowAt_of_mem hrows hr⟩

end

/-! ## Left joins on a key -/

section

variable {ι α κ : Type*} [DecidableEq ι] [DecidableEq κ] {key : α → κ} {rows : List α}

/-- A joined row with the row of its key, if there is one. -/
def withRow (key : α → κ) (rows : List α) (i : ι) (k : κ) (e : Joined ι α) : Joined ι α :=
  match rowAt key rows k with
  | none => e
  | some r => extend e i r

/-- A left join that compares keys gives every row on the left once. -/
lemma left_keyed (hrows : (rows.map key).Nodup) {on : Joined ι α → α → Bool} {i : ι}
    {f : Joined ι α → κ} {es : List (Joined ι α)}
    (hon : ∀ e ∈ es, ∀ r ∈ rows, on e r = true ↔ key r = f e) :
    left on i es rows = es.map fun e => withRow key rows i (f e) e := by
  unfold left
  rw [List.map_eq_flatMap]
  refine List.flatMap_congr fun e he => ?_
  have hmatched : rows.filter (on e) = (rowAt key rows (f e)).toList := by
    rw [← filter_key hrows]
    refine List.filter_congr fun r hr => ?_
    rw [Bool.eq_iff_iff, hon e he r hr, decide_eq_true_iff]
  rw [hmatched, withRow]
  cases rowAt key rows (f e) with
  | none => rfl
  | some r => rfl

lemma withRow_self {i : ι} {k : κ} {e : Joined ι α} (he : e i = none) :
    withRow key rows i k e i = rowAt key rows k := by
  unfold withRow
  cases rowAt key rows k with
  | none => exact he
  | some r => simp [extend]

lemma withRow_of_ne {i j : ι} (hij : j ≠ i) (k : κ) (e : Joined ι α) :
    withRow key rows i k e j = e j := by
  unfold withRow
  cases rowAt key rows k with
  | none => rfl
  | some r => simp [extend, hij]

end

/-! ## Joined rows by key -/

variable {ι α κ : Type*} [DecidableEq ι] [DecidableEq κ]

section

variable (T : ι → List α) (key : α → κ)

/-- The rows with key `k` of the sources in scope. -/
def joinedAt (scope : List ι) (k : κ) : Joined ι α :=
  fun i => if i ∈ scope then rowAt key (T i) k else none

/-- One joined row for each key. -/
def aligned (scope : List ι) (ks : List κ) : List (Joined ι α) := ks.map (joinedAt T key scope)

end

variable {T : ι → List α} {key : α → κ}

/-- Extending a joined row by the row of a new source. -/
lemma extend_joinedAt {scope : List ι} {i : ι} (hi : i ∉ scope) {k : κ} {r : α}
    (hr : rowAt key (T i) k = some r) :
    extend (joinedAt T key scope k) i r = joinedAt T key (scope ++ [i]) k := by
  funext j
  unfold extend joinedAt
  by_cases hj : j = i
  · subst hj
    simp [hr]
  · simp [hj]

lemma joinedAt_append_none {scope : List ι} {i : ι} (hi : i ∉ scope) {k : κ}
    (hr : rowAt key (T i) k = none) : joinedAt T key scope k = joinedAt T key (scope ++ [i]) k := by
  funext j
  unfold joinedAt
  by_cases hj : j = i
  · subst hj
    simp [hi, hr]
  · simp [hj]

/-- The rows of the first source. -/
lemma first_aligned {i : ι} (hT : ((T i).map key).Nodup) :
    (T i).map (extend padding i) = aligned T key [i] ((T i).map key) := by
  unfold aligned
  rw [List.map_map]
  refine List.map_congr_left fun r hr => ?_
  have hpad : (padding : Joined ι α) = joinedAt T key [] (key r) := by
    funext j
    simp [padding, joinedAt]
  rw [hpad, extend_joinedAt (by simp) (rowAt_of_mem hT hr)]
  rfl

/-- **One full outer join.**  A join condition that compares the key of a joined row with the
key of the new row adds the keys of the new source that are not there yet. -/
theorem fullOuter_aligned {scope : List ι} {ks : List κ} {i : ι} (hi : i ∉ scope)
    (hT : ((T i).map key).Nodup) (hcover : ∀ j ∈ scope, ∀ r ∈ T j, key r ∈ ks)
    {on : Joined ι α → α → Bool}
    (hon : ∀ k ∈ ks, ∀ r ∈ T i, on (joinedAt T key scope k) r = true ↔ key r = k) :
    fullOuter on i (aligned T key scope ks) (T i) =
      aligned T key (scope ++ [i]) (ks ++ freshKeys key (T i) ks) := by
  have hmatched : ∀ k ∈ ks, (match (T i).filter (on (joinedAt T key scope k)) with
      | [] => [joinedAt T key scope k]
      | matched => matched.map (extend (joinedAt T key scope k) i)) =
        [joinedAt T key (scope ++ [i]) k] := by
    intro k hk
    have hfilter : (T i).filter (on (joinedAt T key scope k)) = (rowAt key (T i) k).toList := by
      rw [← filter_key hT k]
      refine List.filter_congr fun r hr => ?_
      rw [Bool.eq_iff_iff, hon k hk r hr, decide_eq_true_iff]
    cases hrow : rowAt key (T i) k with
    | none =>
        rw [hfilter, hrow, Option.toList_none, joinedAt_append_none hi hrow]
    | some r =>
        rw [hfilter, hrow, Option.toList_some]
        simp only [List.map_singleton, extend_joinedAt hi hrow]
  have hleft : left on i (aligned T key scope ks) (T i) = aligned T key (scope ++ [i]) ks := by
    unfold left aligned
    rw [List.flatMap_map, List.map_eq_flatMap]
    exact List.flatMap_congr hmatched
  have hright : ((T i).filter fun r => (aligned T key scope ks).all fun e => !on e r).map
      (extend padding i) =
        aligned T key (scope ++ [i]) (freshKeys key (T i) ks) := by
    unfold aligned freshKeys
    rw [List.filter_map, List.map_map]
    have hfilter : (T i).filter (fun r => (ks.map (joinedAt T key scope)).all fun e => !on e r) =
        (T i).filter ((fun k => decide (k ∉ ks)) ∘ key) := by
      refine List.filter_congr fun r hr => ?_
      rw [Bool.eq_iff_iff, List.all_eq_true]
      simp only [List.mem_map, forall_exists_index, and_imp, forall_apply_eq_imp_iff₂,
        Bool.not_eq_true', Function.comp_apply, decide_eq_true_eq]
      constructor
      · intro hall hmem
        have := hall (key r) hmem
        rw [(hon _ hmem r hr).mpr rfl] at this
        cases this
      · intro hnot k hk
        by_contra hne
        rw [Bool.not_eq_false, hon k hk r hr] at hne
        exact hnot (hne ▸ hk)
    rw [hfilter]
    refine List.map_congr_left fun r hr => ?_
    obtain ⟨hrT, hnew⟩ := List.mem_filter.mp hr
    simp only [Function.comp_apply, decide_eq_true_eq] at hnew
    -- no source in scope has a row with a key that is not listed
    have hpad : (padding : Joined ι α) = joinedAt T key scope (key r) := by
      funext j
      unfold padding joinedAt
      split_ifs with hj
      · rw [eq_comm, rowAt_eq_none]
        rintro hmem
        obtain ⟨r', hr', heq⟩ := List.mem_map.mp hmem
        exact hnew (heq ▸ hcover j hj r' hr')
      · rfl
    rw [hpad, extend_joinedAt hi (rowAt_of_mem hT hrT)]
    rfl
  unfold fullOuter
  rw [hleft, hright]
  unfold aligned
  rw [List.map_append]

/-- One cross join of sources that have a single row under a common key. -/
theorem cross_aligned {scope : List ι} {k : κ} {i : ι} (hi : i ∉ scope)
    (hlen : (T i).length = 1) (hkey : ∀ r ∈ T i, key r = k) :
    cross i (aligned T key scope [k]) (T i) = aligned T key (scope ++ [i]) [k] := by
  obtain ⟨r, hr⟩ := List.length_eq_one_iff.mp hlen
  have hk : key r = k := hkey r (by rw [hr]; exact List.mem_cons_self)
  have hrow : rowAt key (T i) k = some r := by
    unfold rowAt
    rw [hr, List.find?_cons_of_pos (by simpa using hk)]
  unfold cross aligned
  rw [hr, List.map_singleton, List.map_singleton, List.flatMap_singleton, List.map_singleton,
    extend_joinedAt hi hrow]

end OuterJoin
