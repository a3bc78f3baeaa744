import Pawrly.Http.TypedPushdown

/-!
# Filters that the typed table represents together

`bindings_exact_iff`: the requests of a scan are exact when filters that are sent as one request
parameter ask for the same values, and no value of a fanned-out list is repeated.
-/

namespace Pawrly
namespace Http

open Sql

/-- The request shape of the scan, which the names of the bound parameters decide. -/
def HttpTableSpec.boundShape (spec : HttpTableSpec) (filters : List Expr) (nowEpoch : ℤ) :
    RequestShape :=
  spec.selectRequest ((spec.baseParams filters nowEpoch).extend
    ((spec.fanout filters).map fun f => (f.1, "")))

/-- The filters that are sent as one request parameter ask for the same values of it, no value of
a fanned-out list is repeated, and no exploded list is empty. -/
structure Compatible (spec : HttpTableSpec) (filters : List Expr) (nowEpoch : ℤ) : Prop where
  comparisons : ∀ f ∈ filters, ∀ g ∈ filters, ∀ q v v', spec.boundBy f = some (q, v) →
    spec.boundBy g = some (q, v') → v = v'
  comparisonFanned : ∀ f ∈ filters, ∀ g ∈ filters, ∀ q v vals, spec.boundBy f = some (q, v) →
    spec.fannedBy g = some (q, vals) → vals = [v]
  fanned : ∀ e ∈ spec.fanout filters, e.2.Nodup
  fannedTwice : (spec.fanout filters).Pairwise fun e e' =>
    e.1 = e'.1 → e.2 = e'.2 ∧ e.2.length = 1
  exploded : ∀ f ∈ filters, ∀ q vals, spec.explodedBy f = some (q, vals) → vals ≠ []
  explodedTwice : ∀ f ∈ filters, ∀ g ∈ filters, ∀ q vals vals',
    spec.explodedBy f = some (q, vals) → spec.explodedBy g = some (q, vals') →
      ∀ v ∈ vals, v ∈ vals'
  comparisonExploded : ∀ f ∈ filters, ∀ g ∈ filters, ∀ q v vals, spec.boundBy f = some (q, v) →
    spec.explodedBy g = some (q, vals) →
      (spec.boundShape filters nowEpoch).fills q = false → ∀ u ∈ vals, u = v
  unsent : ∀ f ∈ filters, ∀ q vals, extractInList f = some (q, vals) →
    spec.explodedBy f = none → spec.fannedBy f = none →
      vals ≠ [] ∧ ∀ v ∈ vals, (spec.baseParams filters nowEpoch).get? q = some v

/-! ## The passes over the filters -/

namespace HttpTableSpec

variable {spec : HttpTableSpec} {filters : List Expr} {nowEpoch : ℤ}

lemma explodedBy_spec {f : Expr} {q : String} {vals : List String}
    (h : spec.explodedBy f = some (q, vals)) : extractInList f = some (q, vals) ∧
      ∃ p, spec.param? q = some p ∧ (p.explode && !spec.isPathParam q) = true := by
  obtain ⟨⟨c, vs⟩, hlist, h⟩ := Option.bind_eq_some_iff.mp h
  obtain ⟨p, hp, h⟩ := Option.bind_eq_some_iff.mp h
  split_ifs at h with hexplode
  cases h
  exact ⟨hlist, p, hp, hexplode⟩

lemma fannedBy_spec {f : Expr} {q : String} {vals : List String}
    (h : spec.fannedBy f = some (q, vals)) : extractInList f = some (q, vals) ∧
      ∃ p, spec.param? q = some p ∧ (p.explode && !spec.isPathParam q) = false := by
  obtain ⟨⟨c, vs⟩, hlist, h⟩ := Option.bind_eq_some_iff.mp h
  obtain ⟨p, hp, h⟩ := Option.bind_eq_some_iff.mp h
  split_ifs at h with hexplode hfan
  cases h
  exact ⟨hlist, p, hp, Bool.not_eq_true _ ▸ hexplode⟩

/-- The lists on one parameter are all sent the same way. -/
lemma explodedBy_fannedBy {f g : Expr} {q : String} {vals vals' : List String}
    (hf : spec.explodedBy f = some (q, vals)) (hg : spec.fannedBy g = some (q, vals')) : False := by
  obtain ⟨_, p, hp, hexplode⟩ := explodedBy_spec hf
  obtain ⟨_, p', hp', hfan⟩ := fannedBy_spec hg
  rw [hp] at hp'
  cases hp'
  rw [hexplode] at hfan
  cases hfan

lemma extractCmp_of_list {f : Expr} {ask : String × List String}
    (h : extractInList f = some ask) : extractCmp f = none := by
  unfold extractInList at h
  split at h
  · rfl
  · next left op right =>
      obtain ⟨st, hst, h⟩ := Option.bind_eq_some_iff.mp h
      split_ifs at h with hlen
      unfold collectOrEqualities at hst
      split at hst
      · next heq =>
          cases heq
          cases left <;> cases right <;> rfl
      · next heq =>
          cases heq
          obtain ⟨side, _, hst⟩ := Option.bind_eq_some_iff.mp hst
          split_ifs at hst with hother
          obtain ⟨v, _, rfl⟩ := Option.map_eq_some_iff.mp hst
          exact absurd (show ([] ++ [v]).length < 2 by simp) hlen
      · cases hst
  · cases h

lemma boundBy_of_list {f : Expr} {ask : String × List String} (h : extractInList f = some ask) :
    spec.boundBy f = none := by
  unfold boundBy
  rw [extractCmp_of_list h]
  rfl

lemma asks_of_list {f : Expr} {ask : String × List String} (h : extractInList f = some ask) :
    spec.asks f = some ask := by
  unfold asks
  rw [h]

lemma asks_of_boundBy {f : Expr} {q v : String} (h : spec.boundBy f = some (q, v)) :
    extractInList f = none ∧ spec.asks f = some (q, [v]) := by
  cases hlist : extractInList f with
  | some ask =>
      rw [boundBy_of_list hlist] at h
      cases h
  | none =>
      refine ⟨rfl, ?_⟩
      unfold asks
      rw [hlist, h]
      rfl

/-- A reported filter is a list of values or a comparison that binds a parameter. -/
lemma canPushDown_spec {f : Expr} (h : spec.canPushDown f = true) :
    (∃ q vals, extractInList f = some (q, vals)) ∨ ∃ q v, spec.boundBy f = some (q, v) := by
  unfold canPushDown at h
  cases hlist : extractInList f with
  | some ask => exact .inl ⟨ask.1, ask.2, rfl⟩
  | none =>
      rw [hlist] at h
      dsimp only at h
      cases hcmp : extractCmp f with
      | none =>
          rw [hcmp] at h
          cases h
      | some cmp =>
          obtain ⟨col, op, v⟩ := cmp
          rw [hcmp] at h
          dsimp only at h
          cases hp : spec.param? col with
          | none =>
              rw [hp] at h
              cases h
          | some p =>
              rw [hp] at h
              dsimp only at h
              right
              unfold boundBy
              rw [hcmp, Option.bind_some]
              dsimp only
              rw [hp, Option.bind_some]
              by_cases hop : op = "="
              · exact ⟨col, v, if_pos hop⟩
              · rw [if_neg hop]
                rw [Bool.or_eq_true, Bool.and_eq_true, decide_eq_true_eq] at h
                obtain ⟨q, hq⟩ := OrderedMap.contains_iff.mp (h.resolve_left hop).2
                exact ⟨q, v, by rw [hq, Option.map_some]⟩

lemma boundElsewhere_of_exploded {f : Expr} (hf : f ∈ filters) {q : String} {vals : List String}
    (h : spec.explodedBy f = some (q, vals)) : spec.boundElsewhere filters q = true := by
  unfold boundElsewhere explodeParams
  rw [Bool.or_eq_true]
  left
  rw [OrderedMap.contains_iff]
  rcases OrderedMap.get?_extend .empty (filters.filterMap spec.explodedBy) q with
    ⟨hmem, _⟩ | ⟨v, _, hget⟩
  · exact absurd (List.mem_map_of_mem (List.mem_filterMap.mpr ⟨f, hf, h⟩)) hmem
  · exact ⟨v, hget⟩

/-- What a query parameter is exploded into is the list of a filter on it. -/
lemma explodeParams_get? (spec : HttpTableSpec) (filters : List Expr) (q : String) :
    ((∀ f ∈ filters, ∀ vals, spec.explodedBy f ≠ some (q, vals)) ∧
      (spec.explodeParams filters).get? q = none) ∨
      ∃ f ∈ filters, ∃ vals, spec.explodedBy f = some (q, vals) ∧
        (spec.explodeParams filters).get? q = some vals := by
  rcases OrderedMap.get?_extend .empty (filters.filterMap spec.explodedBy) q with
    ⟨hmem, hget⟩ | ⟨v, hv, hget⟩
  · refine .inl ⟨fun f hf vals h => ?_, hget⟩
    exact hmem (List.mem_map_of_mem (List.mem_filterMap.mpr ⟨f, hf, h⟩))
  · obtain ⟨f, hf, h⟩ := List.mem_filterMap.mp hv
    exact .inr ⟨f, hf, v, h, hget⟩

/-- A default does not reach a parameter that is bound, here or elsewhere. -/
lemma withDefaults_get? {params : Params} {q : String}
    (h : params.contains q = true ∨ spec.boundElsewhere filters q = true) :
    (spec.withDefaults filters params).get? q = params.get? q := by
  unfold withDefaults
  induction spec.params generalizing params with
  | nil => rfl
  | cons p ps ih =>
      rw [List.foldl_cons]
      cases p.default with
      | none => exact ih h
      | some d =>
          dsimp only
          split_ifs with hbound
          · exact ih h
          · have hq : q ≠ p.name := by
              rintro rfl
              rw [Bool.or_eq_true] at hbound
              exact hbound h
            have hget := OrderedMap.get?_insert_of_ne params hq d
            rw [ih, hget]
            unfold OrderedMap.contains at h ⊢
            rwa [hget]

lemma bindCmp_get? (spec : HttpTableSpec) (filters : List Expr) (q : String) :
    ((∀ f ∈ filters, ∀ v, spec.boundBy f ≠ some (q, v)) ∧
      (spec.bindCmp filters).get? q = none) ∨
      ∃ f ∈ filters, ∃ v, spec.boundBy f = some (q, v) ∧
        (spec.bindCmp filters).get? q = some v := by
  rcases OrderedMap.get?_extend .empty (filters.filterMap spec.boundBy) q with
    ⟨hmem, hget⟩ | ⟨v, hv, hget⟩
  · refine .inl ⟨fun f hf v h => ?_, hget⟩
    exact hmem (List.mem_map_of_mem (List.mem_filterMap.mpr ⟨f, hf, h⟩))
  · obtain ⟨f, hf, h⟩ := List.mem_filterMap.mp hv
    exact .inr ⟨f, hf, v, h, hget⟩

/-- Before the fan-out a parameter has the value of a comparison on it, and one that is bound
elsewhere has no other. -/
lemma baseParams_get? (spec : HttpTableSpec) (filters : List Expr) (nowEpoch : ℤ) (q : String) :
    (∃ f ∈ filters, ∃ v, spec.boundBy f = some (q, v) ∧
      (spec.baseParams filters nowEpoch).get? q = some v) ∨
      ((∀ f ∈ filters, ∀ v, spec.boundBy f ≠ some (q, v)) ∧
        (spec.boundElsewhere filters q = true →
          (spec.baseParams filters nowEpoch).get? q = none)) := by
  have hderived : ∀ params : Params, params.contains q = true ∨
      spec.boundElsewhere filters q = true →
      (params.extend (spec.derived filters nowEpoch params)).get? q = params.get? q := by
    intro params hbound
    rcases OrderedMap.get?_extend params (spec.derived filters nowEpoch params) q with
      ⟨_, hget⟩ | ⟨v, hv, _⟩
    · exact hget
    · obtain ⟨p, _, hp⟩ := List.mem_filterMap.mp hv
      split_ifs at hp with hnot
      obtain ⟨_, _, heq⟩ := Option.map_eq_some_iff.mp hp
      cases heq
      rw [Bool.or_eq_true] at hnot
      exact absurd hbound hnot
  have hbase : (spec.bindCmp filters).contains q = true ∨ spec.boundElsewhere filters q = true →
      (spec.baseParams filters nowEpoch).get? q = (spec.bindCmp filters).get? q := by
    intro hbound
    have hdefaults := withDefaults_get? hbound
    unfold baseParams
    rw [hderived, hdefaults]
    unfold OrderedMap.contains at hbound ⊢
    rwa [hdefaults]
  rcases spec.bindCmp_get? filters q with ⟨hno, hget⟩ | ⟨f, hf, v, hv, hget⟩
  · exact .inr ⟨hno, fun helse => (hbase (.inr helse)).trans hget⟩
  · refine .inl ⟨f, hf, v, hv, (hbase (.inl ?_)).trans hget⟩
    exact OrderedMap.contains_iff.mpr ⟨v, hget⟩

lemma mem_fanout {e : String × List String} :
    e ∈ spec.fanout filters ↔ ∃ f ∈ filters, spec.fannedBy f = some e :=
  List.mem_filterMap

/-- The shape of a request depends on the names of its parameters only. -/
lemma selectRequest_congr {m m' : Params} (h : ∀ k, m.contains k = m'.contains k) :
    spec.selectRequest m = spec.selectRequest m' := by
  have heq : m.contains = m'.contains := funext h
  unfold selectRequest
  rw [heq]

lemma placed_eq {set : Params}
    (h : set ∈ (spec.bindings filters nowEpoch).sets) (k : String) : spec.placed set k = (spec.boundShape filters nowEpoch).fills k := by
  unfold placed boundShape
  rw [selectRequest_congr]
  intro k
  have hkeys : ((spec.fanout filters).map fun f => (f.1, "")).map Prod.fst =
      (spec.fanout filters).map Prod.fst := by
    rw [List.map_map]
    rfl
  unfold OrderedMap.contains
  rcases get?_of_mem_expandFanout h k with ⟨hmem, hget⟩ | ⟨e, he, rfl, v, _, hget⟩
  · rcases OrderedMap.get?_extend (spec.baseParams filters nowEpoch)
      ((spec.fanout filters).map fun f => (f.1, "")) k with ⟨_, hext⟩ | ⟨v, hv, _⟩
    · rw [hget, hext]
    · exact absurd (hkeys ▸ List.mem_map_of_mem hv) hmem
  · rcases OrderedMap.get?_extend (spec.baseParams filters nowEpoch)
      ((spec.fanout filters).map fun f => (f.1, "")) e.1 with ⟨hmem, _⟩ | ⟨v', _, hext⟩
    · exact absurd (hkeys.symm ▸ List.mem_map_of_mem he) hmem
    · rw [hget, hext]
      rfl

lemma fannedBy_of_list {f g : Expr} {q : String} {vals vals' : List String}
    (hg : spec.fannedBy g = some (q, vals')) (hf : extractInList f = some (q, vals)) :
    spec.fannedBy f = some (q, vals) := by
  unfold fannedBy at hg ⊢
  obtain ⟨ask, hlist, hg⟩ := Option.bind_eq_some_iff.mp hg
  obtain ⟨p, hp, hg⟩ := Option.bind_eq_some_iff.mp hg
  split_ifs at hg with hexplode hfan
  cases hg
  rw [hf, Option.bind_some]
  dsimp only
  rw [hp, Option.bind_some, if_neg hexplode, if_pos hfan]

lemma explodedBy_of_list {f g : Expr} {q : String} {vals vals' : List String}
    (hg : spec.explodedBy g = some (q, vals')) (hf : extractInList f = some (q, vals)) :
    spec.explodedBy f = some (q, vals) := by
  unfold explodedBy at hg ⊢
  obtain ⟨ask, hlist, hg⟩ := Option.bind_eq_some_iff.mp hg
  obtain ⟨p, hp, hg⟩ := Option.bind_eq_some_iff.mp hg
  split_ifs at hg with hexplode
  cases hg
  rw [hf, Option.bind_some]
  dsimp only
  rw [hp, Option.bind_some, if_pos hexplode]

lemma explodedBy_of_boundBy {f : Expr} {q v : String} (h : spec.boundBy f = some (q, v)) :
    spec.explodedBy f = none := by
  unfold explodedBy
  rw [(asks_of_boundBy h).1]
  rfl

lemma explodedBy_of_fannedBy {f : Expr} {ask : String × List String}
    (h : spec.fannedBy f = some ask) : spec.explodedBy f = none := by
  cases hexplode : spec.explodedBy f with
  | none => rfl
  | some ask' =>
      obtain ⟨q, vals⟩ := ask
      obtain ⟨q', vals'⟩ := ask'
      have heq := (explodedBy_spec hexplode).1.symm.trans (fannedBy_spec h).1
      cases heq
      exact (explodedBy_fannedBy hexplode h).elim

/-! ## What a request carries -/

variable {set : Params} {f : Expr} {q : String} {vals : List String}

/-- A parameter without exploded lists is carried with its one value. -/
lemma carried_of_explode_none (hf : spec.explodedBy f = none)
    (hq : (spec.explodeParams filters).get? q = none) :
    spec.carried (spec.explodeParams filters) set f q = (set.get? q).toList := by
  unfold carried queryValues
  split_ifs with hplaced hplaced'
  · rfl
  · exact absurd ⟨hplaced', hf⟩ hplaced
  · rw [hq, Option.getD_none, List.append_nil]

/-- Two filters that are not exploded are carried at the same place. -/
lemma carried_congr {g : Expr} (hf : spec.explodedBy f = none) (hg : spec.explodedBy g = none) :
    spec.carried (spec.explodeParams filters) set f q =
      spec.carried (spec.explodeParams filters) set g q := by
  unfold carried
  rw [hf, hg]

lemma carried_exploded (h : spec.explodedBy f = some (q, vals)) :
    spec.carried (spec.explodeParams filters) set f q =
      spec.queryValues (spec.explodeParams filters) set q := by
  unfold carried
  rw [if_neg fun hplaced => by rw [hplaced.2] at h; cases h]

lemma explodeParams_fanned (hf : spec.fannedBy f = some (q, vals)) :
    (spec.explodeParams filters).get? q = none := by
  rcases spec.explodeParams_get? filters q with ⟨_, hget⟩ | ⟨g, _, vals', hg, _⟩
  · exact hget
  · exact (explodedBy_fannedBy hg hf).elim

lemma notMem_fanout (h : ∀ g ∈ filters, ∀ vals', spec.fannedBy g ≠ some (q, vals')) :
    q ∉ (spec.fanout filters).map Prod.fst := by
  intro hmem
  obtain ⟨e, he, heq⟩ := List.mem_map.mp hmem
  obtain ⟨g, hg, hfan⟩ := mem_fanout.mp he
  exact h g hg e.2 (by rw [hfan, ← heq])

lemma get?_of_not_fanned (hset : set ∈ (spec.bindings filters nowEpoch).sets)
    (h : ∀ g ∈ filters, ∀ vals', spec.fannedBy g ≠ some (q, vals')) :
    set.get? q = (spec.baseParams filters nowEpoch).get? q := by
  rcases get?_of_mem_expandFanout hset q with ⟨_, hget⟩ | ⟨e, he, rfl, _⟩
  · exact hget
  · exact absurd (List.mem_map_of_mem he) (notMem_fanout h)

end HttpTableSpec

/-! ## Compatible filters are represented -/

section

open HttpTableSpec

variable {spec : HttpTableSpec} {filters : List Expr} {nowEpoch : ℤ} {set : Params} {f : Expr}
  {q : String} {vals : List String}

namespace Compatible

lemma lists_eq (h : Compatible spec filters nowEpoch) {e e' : String × List String}
    (he : e ∈ spec.fanout filters) (he' : e' ∈ spec.fanout filters) (heq : e.1 = e'.1) :
    e.2 = e'.2 :=
  List.Pairwise.forall_of_forall_of_flip
    (R := fun a b : String × List String => a.1 = b.1 → a.2 = b.2) (fun _ _ _ => rfl)
    (h.fannedTwice.imp fun hab heq => (hab heq).1)
    (h.fannedTwice.imp fun hab heq => (hab heq.symm).1.symm) he he' heq

/-- A compared parameter has the value of its comparisons in every request. -/
lemma get?_compared (h : Compatible spec filters nowEpoch)
    (hset : set ∈ (spec.bindings filters nowEpoch).sets) (hf : f ∈ filters) {v : String}
    (hv : spec.boundBy f = some (q, v)) : set.get? q = some v := by
  rcases get?_of_mem_expandFanout hset q with ⟨_, hget⟩ | ⟨e, he, rfl, u, hu, hget⟩
  · rcases spec.baseParams_get? filters nowEpoch q with ⟨g, hg, v', hv', hbase⟩ | ⟨hno, _⟩
    · rw [hget, hbase, h.comparisons g hg f hf q v' v hv' hv]
    · exact absurd hv (hno f hf v)
  · obtain ⟨g, hg, hfan⟩ := mem_fanout.mp he
    rw [h.comparisonFanned f hf g hg e.1 v e.2 hv hfan, List.mem_singleton] at hu
    rw [hget, hu]

lemma get?_fanned (h : Compatible spec filters nowEpoch)
    (hset : set ∈ (spec.bindings filters nowEpoch).sets) {e : String × List String}
    (he : e ∈ spec.fanout filters) : ∃ v ∈ e.2, set.get? e.1 = some v := by
  rcases get?_of_mem_expandFanout hset e.1 with ⟨hmem, _⟩ | ⟨e', he', heq, v, hv, hget⟩
  · exact absurd (List.mem_map_of_mem he) hmem
  · exact ⟨v, h.lists_eq he' he heq ▸ hv, hget⟩

/-- A parameter with exploded lists has no value of its own, or that of its comparisons. -/
lemma get?_exploded (hset : set ∈ (spec.bindings filters nowEpoch).sets)
    (hf : f ∈ filters) (hq : spec.explodedBy f = some (q, vals)) {v : String}
    (hget : set.get? q = some v) : ∃ g ∈ filters, spec.boundBy g = some (q, v) := by
  rw [get?_of_not_fanned hset fun g _ vals' hg => explodedBy_fannedBy hq hg] at hget
  rcases spec.baseParams_get? filters nowEpoch q with ⟨g, hg, v', hv', hbase⟩ | ⟨_, hnone⟩
  · rw [hbase] at hget
    cases hget
    exact ⟨g, hg, hv'⟩
  · rw [hnone (boundElsewhere_of_exploded hf hq)] at hget
    cases hget

lemma carried_compared (h : Compatible spec filters nowEpoch)
    (hset : set ∈ (spec.bindings filters nowEpoch).sets) (hf : f ∈ filters) {v : String}
    (hv : spec.boundBy f = some (q, v)) :
    v ∈ spec.carried (spec.explodeParams filters) set f q ∧
      ∀ u ∈ spec.carried (spec.explodeParams filters) set f q, u = v := by
  have hget := h.get?_compared hset hf hv
  unfold carried
  split_ifs with hplaced
  · rw [hget]
    simp
  · have hfills : spec.placed set q = false :=
      Bool.eq_false_iff.mpr fun hp => hplaced ⟨hp, explodedBy_of_boundBy hv⟩
    unfold queryValues
    rw [if_neg (by rw [hfills]; decide), hget]
    refine ⟨List.mem_append_left _ (by simp), fun u hu => ?_⟩
    rcases List.mem_append.mp hu with hu | hu
    · simpa using hu
    · rcases spec.explodeParams_get? filters q with ⟨_, hnone⟩ | ⟨g, hg, vals, hq, hsome⟩
      · rw [hnone] at hu
        cases hu
      · rw [hsome] at hu
        exact h.comparisonExploded f hf g hg q v vals hv hq (placed_eq hset q ▸ hfills) u hu

/-- The query values of an exploded parameter are those of each list on it. -/
lemma queryValues_exploded (h : Compatible spec filters nowEpoch)
    (hset : set ∈ (spec.bindings filters nowEpoch).sets) (hf : f ∈ filters)
    (hq : spec.explodedBy f = some (q, vals)) (u : String) :
    u ∈ spec.queryValues (spec.explodeParams filters) set q ↔ u ∈ vals := by
  rcases spec.explodeParams_get? filters q with ⟨hno, _⟩ | ⟨g, hg, vals', hq', hsome⟩
  · exact absurd hq (hno f hf vals)
  · have hlast : u ∈ vals' ↔ u ∈ vals :=
      ⟨h.explodedTwice g hg f hf q vals' vals hq' hq u,
        h.explodedTwice f hf g hg q vals vals' hq hq' u⟩
    unfold queryValues
    rw [hsome, Option.getD_some, List.mem_append, hlast]
    refine or_iff_right_of_imp fun hu => ?_
    split_ifs at hu with hplaced
    · cases hu
    · rw [Option.mem_toList] at hu
      obtain ⟨k, hk, hv⟩ := get?_exploded hset hf hq hu
      obtain ⟨w, hw⟩ := List.exists_mem_of_ne_nil _ (h.exploded f hf q vals hq)
      have hfills := placed_eq hset q ▸ Bool.eq_false_iff.mpr hplaced
      exact h.comparisonExploded k hk f hf q u vals hv hq hfills w hw ▸ hw

lemma carried_fanned (h : Compatible spec filters nowEpoch)
    (hset : set ∈ (spec.bindings filters nowEpoch).sets) (hf : f ∈ filters)
    (hq : spec.fannedBy f = some (q, vals)) : ∃ v ∈ vals, set.get? q = some v ∧
      spec.carried (spec.explodeParams filters) set f q = [v] := by
  obtain ⟨v, hv, hget⟩ := h.get?_fanned hset (mem_fanout.mpr ⟨f, hf, hq⟩)
  refine ⟨v, hv, hget, ?_⟩
  rw [carried_of_explode_none (explodedBy_of_fannedBy hq) (explodeParams_fanned hq), hget]
  rfl

lemma carried_unsent (h : Compatible spec filters nowEpoch)
    (hset : set ∈ (spec.bindings filters nowEpoch).sets) (hf : f ∈ filters)
    (hlist : extractInList f = some (q, vals)) (hexplode : spec.explodedBy f = none)
    (hfan : spec.fannedBy f = none) : ∃ v ∈ vals, (∀ u ∈ vals, u = v) ∧
      spec.carried (spec.explodeParams filters) set f q = [v] := by
  obtain ⟨hne, hbase⟩ := h.unsent f hf q vals hlist hexplode hfan
  obtain ⟨v, hv⟩ := List.exists_mem_of_ne_nil _ hne
  refine ⟨v, hv, fun u hu => Option.some.inj ((hbase u hu).symm.trans (hbase v hv)), ?_⟩
  have hnone : (spec.explodeParams filters).get? q = none := by
    rcases spec.explodeParams_get? filters q with ⟨_, hget⟩ | ⟨g, _, vals', hg, _⟩
    · exact hget
    · rw [explodedBy_of_list hg hlist] at hexplode
      cases hexplode
  rw [carried_of_explode_none hexplode hnone, get?_of_not_fanned hset, hbase v hv]
  · rfl
  · intro g _ vals' hg
    rw [fannedBy_of_list hg hlist] at hfan
    cases hfan

/-- Some request has a given value of a fanned-out list. -/
lemma exists_fanned (h : Compatible spec filters nowEpoch)
    (hne : ∀ e ∈ spec.fanout filters, e.2 ≠ []) {e : String × List String}
    (he : e ∈ spec.fanout filters) {v : String} (hv : v ∈ e.2) :
    ∃ set ∈ (spec.bindings filters nowEpoch).sets, set.get? e.1 = some v := by
  have hchoice : ∀ e' ∈ spec.fanout filters,
      (if e'.1 = e.1 then v else
        (((spec.fanout filters).lookup e'.1).getD []).headD "") ∈ e'.2 := by
    intro e' he'
    split_ifs with heq
    · exact h.lists_eq he he' heq.symm ▸ hv
    · obtain ⟨l, hl⟩ : ∃ l, (spec.fanout filters).lookup e'.1 = some l := by
        rw [← Option.isSome_iff_exists, List.lookup_isSome_iff]
        exact ⟨e', he', by simp⟩
      obtain ⟨e'', he'', hkey, rfl⟩ : ∃ e'' ∈ spec.fanout filters, e''.1 = e'.1 ∧ e''.2 = l := by
        obtain ⟨l₁, l₂, happend, _⟩ := List.lookup_eq_some_iff.mp hl
        exact ⟨(e'.1, l), by rw [happend]; simp, rfl, rfl⟩
      rw [hl, Option.getD_some, h.lists_eq he'' he' hkey]
      obtain ⟨w, ws, hlist⟩ := List.exists_cons_of_ne_nil (hne e' he')
      rw [hlist]
      exact List.mem_cons_self
  obtain ⟨set, hset, hget⟩ := exists_mem_expandFanout
    (fun k => if k = e.1 then v else (((spec.fanout filters).lookup k).getD []).headD "") hchoice
    (spec.baseParams filters nowEpoch)
  refine ⟨set, hset, ?_⟩
  rw [hget, if_pos (List.mem_map_of_mem he), if_pos rfl]

lemma represented (h : Compatible spec filters nowEpoch)
    (hne : ∀ e ∈ spec.fanout filters, e.2 ≠ []) (hf : f ∈ filters)
    (hexact : spec.canPushDown f = true) : ∃ ask ∈ spec.asks f,
      spec.Represented (spec.bindings filters nowEpoch) f ask.1 ask.2 := by
  obtain ⟨set₀, hset₀⟩ := List.exists_mem_of_ne_nil _
    (expandFanout_ne_nil hne (spec.baseParams filters nowEpoch))
  rcases canPushDown_spec hexact with ⟨q, vals, hlist⟩ | ⟨q, v, hv⟩
  · refine ⟨_, asks_of_list hlist, ?_⟩
    cases hexplode : spec.explodedBy f with
    | some ask =>
        have heq := (explodedBy_spec hexplode).1.symm.trans hlist
        have hq : spec.explodedBy f = some (q, vals) := hexplode.trans heq
        refine ⟨fun set hset => ?_, fun _ u hu => ⟨set₀, hset₀, ?_⟩⟩
        · obtain ⟨w, hw⟩ := List.exists_mem_of_ne_nil _ (h.exploded f hf q vals hq)
          have hmem := h.queryValues_exploded hset hf hq
          change spec.carried (spec.explodeParams filters) set f q ≠ [] ∧
                ∀ u ∈ spec.carried (spec.explodeParams filters) set f q, u ∈ vals
          rw [carried_exploded hq]
          exact ⟨List.ne_nil_of_mem ((hmem w).mpr hw), fun u hu => (hmem u).mp hu⟩
        · change u ∈ spec.carried (spec.explodeParams filters) set₀ f q
          rw [carried_exploded hq]
          exact (h.queryValues_exploded hset₀ hf hq u).mpr hu
    | none =>
        cases hfan : spec.fannedBy f with
        | some ask =>
            have heq := (fannedBy_spec hfan).1.symm.trans hlist
            have hq : spec.fannedBy f = some (q, vals) := hfan.trans heq
            refine ⟨fun set hset => ?_, fun _ u hu => ?_⟩
            · obtain ⟨v, hv, _, hcarried⟩ := h.carried_fanned hset hf hq
              change spec.carried (spec.explodeParams filters) set f q ≠ [] ∧
                ∀ u ∈ spec.carried (spec.explodeParams filters) set f q, u ∈ vals
              rw [hcarried]
              exact ⟨by simp, fun u hu => List.mem_singleton.mp hu ▸ hv⟩
            · obtain ⟨set, hset, hget⟩ := h.exists_fanned hne (mem_fanout.mpr ⟨f, hf, hq⟩) hu
              refine ⟨set, hset, ?_⟩
              change u ∈ spec.carried (spec.explodeParams filters) set f q
              rw [carried_of_explode_none hexplode (explodeParams_fanned hq), hget]
              simp
        | none =>
            refine ⟨fun set hset => ?_, fun _ u hu => ⟨set₀, hset₀, ?_⟩⟩
            · obtain ⟨v, hv, _, hcarried⟩ := h.carried_unsent hset hf hlist hexplode hfan
              change spec.carried (spec.explodeParams filters) set f q ≠ [] ∧
                ∀ u ∈ spec.carried (spec.explodeParams filters) set f q, u ∈ vals
              rw [hcarried]
              exact ⟨by simp, fun u hu => List.mem_singleton.mp hu ▸ hv⟩
            · obtain ⟨v, _, hall, hcarried⟩ := h.carried_unsent hset₀ hf hlist hexplode hfan
              change u ∈ spec.carried (spec.explodeParams filters) set₀ f q
              rw [hcarried, hall u hu]
              exact List.mem_singleton_self _
  · refine ⟨_, (asks_of_boundBy hv).2, fun set hset => ?_, fun _ u hu => ⟨set₀, hset₀, ?_⟩⟩
    · obtain ⟨hmem, hall⟩ := h.carried_compared hset hf hv
      exact ⟨List.ne_nil_of_mem hmem, fun u hu => List.mem_singleton.mpr (hall u hu)⟩
    · rw [List.mem_singleton.mp hu]
      exact (h.carried_compared hset₀ hf hv).1

lemma distinct (h : Compatible spec filters nowEpoch)
    (hne : ∀ e ∈ spec.fanout filters, e.2 ≠ []) :
    (spec.bindings filters nowEpoch).sets.Nodup :=
  (expandFanout_nodup_iff hne _).mpr ⟨h.fanned, h.fannedTwice.imp fun hab heq => (hab heq).2⟩

end Compatible

/-! ## The rows of compatible filters -/

variable {like : String → String → Bool} {ρ : Type} {s : Server ρ} {x : ρ}

/-- A request that admits a row carries a value that admits it. -/
lemma exists_carried_admits
    (h : s.accepts spec (spec.explodeParams filters) set x = true)
    (hne : spec.carried (spec.explodeParams filters) set f q ≠ []) :
    ∃ v ∈ spec.carried (spec.explodeParams filters) set f q, s.admits q v x = true := by
  obtain ⟨hplaced, hquery⟩ := s.accepts_iff.mp h
  unfold carried at hne ⊢
  split_ifs at hne ⊢ with hplace
  · cases hget : set.get? q with
    | none => exact absurd (by rw [hget]; rfl) hne
    | some v => exact ⟨v, by simp, hplaced q v hget hplace.1⟩
  · exact hquery q hne

/-- A value of a parameter without exploded lists admits the row of its request. -/
lemma admits_of_get? (h : s.accepts spec (spec.explodeParams filters) set x = true)
    (hnone : (spec.explodeParams filters).get? q = none) {v : String}
    (hget : set.get? q = some v) : s.admits q v x = true := by
  obtain ⟨hplaced, hquery⟩ := s.accepts_iff.mp h
  cases hplace : spec.placed set q with
  | true => exact hplaced q v hget hplace
  | false =>
      have hvalues : spec.queryValues (spec.explodeParams filters) set q = [v] := by
        unfold queryValues
        rw [if_neg (by rw [hplace]; decide), hget, hnone]
        rfl
      obtain ⟨u, hu, hadmits⟩ := hquery q (by rw [hvalues]; simp)
      rw [hvalues, List.mem_singleton] at hu
      exact hu ▸ hadmits

/-- The filter holds on a row that its value admits. -/
lemma Server.Honours.holds (h : s.Honours like spec filters) (hx : x ∈ s.rows) (hf : f ∈ filters)
    {ask : String × List String} (hask : spec.asks f = some ask) {v : String} (hv : v ∈ ask.2)
    (hadmits : s.admits ask.1 v x = true) : f.Holds like (s.column x) := by
  cases hlist : extractInList f with
  | some ask' =>
      obtain ⟨c, vals⟩ := ask'
      have heq := hask.symm.trans (asks_of_list hlist)
      cases heq
      exact (extractInList_holds hlist).mpr ⟨v, hv, (h.list f hf c vals hlist v hv x hx).mp hadmits⟩
  | none =>
      cases hbound : spec.boundBy f with
      | none =>
          unfold asks at hask
          rw [hlist, hbound] at hask
          cases hask
      | some bound =>
          have heq := hask.symm.trans (asks_of_boundBy hbound).2
          cases heq
          rw [List.mem_singleton.mp hv] at hadmits
          exact (h.cmp f hf hlist _ _ hbound x hx).mp hadmits

/-- A filter that holds has an allowed value that admits the row. -/
lemma Server.Honours.admits (h : s.Honours like spec filters) (hx : x ∈ s.rows) (hf : f ∈ filters)
    (hlist : extractInList f = some (q, vals)) (hholds : f.Holds like (s.column x)) :
    ∃ v ∈ vals, (s.column x q).text = some v ∧ s.admits q v x = true := by
  obtain ⟨v, hv, htext⟩ := (extractInList_holds hlist).mp hholds
  exact ⟨v, hv, htext, (h.list f hf q vals hlist v hv x hx).mpr htext⟩

/-- A row that a request admits is selected. -/
lemma selected_of_accepts (hs : s.Honours like spec filters) (hx : x ∈ s.rows)
    (hrep : ∀ f ∈ filters, ∃ ask ∈ spec.asks f,
      spec.Represented (spec.bindings filters nowEpoch) f ask.1 ask.2)
    (hset : set ∈ (spec.bindings filters nowEpoch).sets)
    (h : s.accepts spec (spec.explodeParams filters) set x = true) :
    s.Selected like spec filters nowEpoch x := by
  refine ⟨fun f hf => ?_, fun k v hget hno => ?_⟩
  · obtain ⟨ask, hask, hrepf⟩ := hrep f hf
    obtain ⟨hne, hall⟩ := hrepf.only set hset
    obtain ⟨v, hv, hadmits⟩ := exists_carried_admits h hne
    exact hs.holds hx hf hask (hall v hv) hadmits
  · have hnone : (spec.explodeParams filters).get? k = none := by
      rcases spec.explodeParams_get? filters k with ⟨_, hget⟩ | ⟨g, hg, vals, hq, _⟩
      · exact hget
      · exact absurd rfl (hno g hg _ (asks_of_list (explodedBy_spec hq).1))
    refine admits_of_get? h hnone ?_
    rw [get?_of_not_fanned hset, hget]
    intro g hg vals hq
    exact hno g hg _ (asks_of_list (fannedBy_spec hq).1) rfl

/-- The value of a parameter in the request of a selected row admits it. -/
lemma Compatible.value_admits (h : Compatible spec filters nowEpoch)
    (hs : s.Honours like spec filters) (hx : x ∈ s.rows)
    (hsel : s.Selected like spec filters nowEpoch x)
    (hset : set ∈ (spec.bindings filters nowEpoch).sets)
    (hchoice : ∀ e ∈ spec.fanout filters, ∀ v, set.get? e.1 = some v →
      (s.column x e.1).text = some v)
    {v : String} (hget : set.get? q = some v) : s.admits q v x = true := by
  by_cases hfan : ∃ g ∈ filters, ∃ vals, spec.fannedBy g = some (q, vals)
  · obtain ⟨g, hg, vals, hq⟩ := hfan
    obtain ⟨w, _, htext, hadmits⟩ := hs.admits hx hg (fannedBy_spec hq).1 (hsel.1 g hg)
    rw [hchoice (q, vals) (mem_fanout.mpr ⟨g, hg, hq⟩) v hget] at htext
    cases htext
    exact hadmits
  · have hnofan : ∀ g ∈ filters, ∀ vals, spec.fannedBy g ≠ some (q, vals) :=
      fun g hg vals hq => hfan ⟨g, hg, vals, hq⟩
    rw [get?_of_not_fanned hset hnofan] at hget
    rcases spec.baseParams_get? filters nowEpoch q with ⟨g, hg, w, hw, hbase⟩ | ⟨hno, hnone⟩
    · rw [hbase] at hget
      cases hget
      exact (hs.cmp g hg (asks_of_boundBy hw).1 q v hw x hx).mpr (hsel.1 g hg)
    · have hnoexplode : ∀ g ∈ filters, ∀ vals, spec.explodedBy g ≠ some (q, vals) := by
        intro g hg vals hq
        rw [hnone (boundElsewhere_of_exploded hg hq)] at hget
        cases hget
      by_cases hlist : ∃ g ∈ filters, ∃ vals, extractInList g = some (q, vals)
      · -- a list that is not sent: the parameter is bound to its only value
        obtain ⟨g, hg, vals, hq⟩ := hlist
        obtain ⟨w, hw, _, hadmits⟩ := hs.admits hx hg hq (hsel.1 g hg)
        have hexplode : spec.explodedBy g = none := by
          cases hask : spec.explodedBy g with
          | none => rfl
          | some ask =>
              have heq := (explodedBy_spec hask).1.symm.trans hq
              cases heq
              exact absurd hask (hnoexplode g hg _)
        have hfanned : spec.fannedBy g = none := by
          cases hask : spec.fannedBy g with
          | none => rfl
          | some ask =>
              have heq := (fannedBy_spec hask).1.symm.trans hq
              cases heq
              exact absurd hask (hnofan g hg _)
        have hbase := (h.unsent g hg q vals hq hexplode hfanned).2 w hw
        rw [hbase] at hget
        cases hget
        exact hadmits
      · refine hsel.2 q v hget fun g hg ask hask heq => ?_
        cases hg' : extractInList g with
        | some ask' =>
            have hask' := hask.symm.trans (asks_of_list hg')
            cases hask'
            exact hlist ⟨g, hg, ask.2, by rw [hg', ← heq]⟩
        | none =>
            cases hbound : spec.boundBy g with
            | none =>
                unfold asks at hask
                rw [hg', hbound] at hask
                cases hask
            | some bound =>
                have hask' := hask.symm.trans (asks_of_boundBy hbound).2
                cases hask'
                exact hno g hg bound.2 (by rw [hbound, ← heq])

/-- A selected row is admitted by a request. -/
lemma Compatible.exists_accepts (h : Compatible spec filters nowEpoch)
    (hs : s.Honours like spec filters) (hx : x ∈ s.rows)
    (hsel : s.Selected like spec filters nowEpoch x) :
    ∃ set ∈ (spec.bindings filters nowEpoch).sets,
      s.accepts spec (spec.explodeParams filters) set x = true := by
  have htext : ∀ e ∈ spec.fanout filters,
      ∃ v ∈ e.2, (s.column x e.1).text = some v := by
    intro e he
    obtain ⟨g, hg, hq⟩ := mem_fanout.mp he
    obtain ⟨v, hv, htext, _⟩ := hs.admits hx hg (fannedBy_spec hq).1 (hsel.1 g hg)
    exact ⟨v, hv, htext⟩
  obtain ⟨set, hset, hget⟩ := exists_mem_expandFanout
    (fun k => ((s.column x k).text).getD "")
    (fun e (he : e ∈ spec.fanout filters) => by
      obtain ⟨v, hv, hv'⟩ := htext e he
      rw [hv']
      exact hv) (spec.baseParams filters nowEpoch)
  have hchoice : ∀ e ∈ spec.fanout filters, ∀ v, set.get? e.1 = some v →
      (s.column x e.1).text = some v := by
    intro e he v hv
    obtain ⟨w, _, hw⟩ := htext e he
    rw [hget, if_pos (List.mem_map_of_mem he), hw, Option.getD_some] at hv
    rw [hw, hv]
  refine ⟨set, hset, s.accepts_iff.mpr ⟨fun k v hk _ => ?_, fun k hne => ?_⟩⟩
  · exact h.value_admits hs hx hsel hset hchoice hk
  · by_cases hexplode : ∃ g ∈ filters, ∃ vals, spec.explodedBy g = some (k, vals)
    · obtain ⟨g, hg, vals, hq⟩ := hexplode
      obtain ⟨v, hv, _, hadmits⟩ := hs.admits hx hg (explodedBy_spec hq).1 (hsel.1 g hg)
      exact ⟨v, (h.queryValues_exploded hset hg hq v).mpr hv, hadmits⟩
    · have hnone : (spec.explodeParams filters).get? k = none := by
        rcases spec.explodeParams_get? filters k with ⟨_, hget⟩ | ⟨g, hg, vals, hq, _⟩
        · exact hget
        · exact absurd ⟨g, hg, vals, hq⟩ hexplode
      unfold queryValues at hne ⊢
      rw [hnone, Option.getD_none, List.append_nil] at hne ⊢
      split_ifs at hne ⊢ with hplaced
      · exact absurd rfl hne
      · cases hk : set.get? k with
        | none => exact absurd (by rw [hk]; rfl) hne
        | some v => exact ⟨v, by simp, h.value_admits hs hx hsel hset hchoice hk⟩

/-- No row is admitted by two requests. -/
lemma accepts_unique (hs : s.Honours like spec filters) (hx : x ∈ s.rows)
    {set' : Params} (hset : set ∈ (spec.bindings filters nowEpoch).sets)
    (hset' : set' ∈ (spec.bindings filters nowEpoch).sets)
    (h : s.accepts spec (spec.explodeParams filters) set x = true)
    (h' : s.accepts spec (spec.explodeParams filters) set' x = true) : set = set' := by
  have htext : ∀ {m : Params}, m ∈ (spec.bindings filters nowEpoch).sets →
      s.accepts spec (spec.explodeParams filters) m x = true → ∀ k,
      k ∈ (spec.fanout filters).map Prod.fst → m.get? k = (s.column x k).text := by
    intro m hm hacc k hk
    rcases get?_of_mem_expandFanout hm k with ⟨hmem, _⟩ | ⟨e, he, rfl, v, hv, hget⟩
    · exact absurd hk hmem
    · obtain ⟨g, hg, hq⟩ := mem_fanout.mp he
      have hadmits := admits_of_get? hacc (explodeParams_fanned hq) hget
      rw [hget, (hs.list g hg e.1 e.2 (fannedBy_spec hq).1 v hv x hx).mp hadmits]
  ext k : 1
  by_cases hk : k ∈ (spec.fanout filters).map Prod.fst
  · rw [htext hset h k hk, htext hset' h' k hk]
  · have hbase : ∀ {m : Params}, m ∈ (spec.bindings filters nowEpoch).sets →
        m.get? k = (spec.baseParams filters nowEpoch).get? k := by
      intro m hm
      rcases get?_of_mem_expandFanout hm k with ⟨_, hget⟩ | ⟨e, he, rfl, _⟩
      · exact hget
      · exact absurd (List.mem_map_of_mem he) hk
    rw [hbase hset, hbase hset']

/-- The rows of a scan without a limit are those of its requests, one after the other. -/
lemma scanLoop_answer {maxRows : Option ℕ} {explode : OrderedMap String (List String)}
    {sets : List Params} {total : ℕ} {rows : List ρ}
    (h : scanLoop spec maxRows none (fun bind rest => s.answer spec bind explode rest) sets total =
      .ok rows) : rows = sets.flatMap fun set => s.rows.filter (s.accepts spec explode set) := by
  induction sets generalizing total rows with
  | nil =>
      cases h
      rfl
  | cons set sets ih =>
      unfold scanLoop at h
      rw [Option.any_none, if_neg (by decide)] at h
      obtain ⟨page, hpage, h⟩ := Fallible.bind_eq_ok.mp h
      cases hpage
      split at h
      · cases h
      · obtain ⟨more, hmore, heq⟩ := Fallible.bind_eq_ok.mp h
        cases heq
        rw [List.flatMap_cons, ← ih hmore]
        rfl

lemma scanBound_answer {maxRows : Option ℕ} {allowDefer : Bool} {rows : List ρ}
    (h : scanBound spec maxRows none (s.answer spec) filters nowEpoch allowDefer =
      .ok (.rows rows)) : rows = (spec.bindings filters nowEpoch).sets.flatMap fun set =>
        s.rows.filter (s.accepts spec (spec.explodeParams filters) set) := by
  obtain ⟨scan, hscan, h⟩ := Fallible.bind_eq_ok.mp h
  unfold bindScan at hscan
  split at hscan
  · cases hscan
    obtain ⟨rows', hrows, heq⟩ := Fallible.bind_eq_ok.mp h
    cases heq
    exact scanLoop_answer hrows
  · split_ifs at hscan
    cases hscan
    cases h

/-- Represented filters whose requests differ give each selected row once. -/
lemma rows_exact (hs : s.Honours like spec filters)
    (hrep : ∀ f ∈ filters, ∃ ask ∈ spec.asks f,
      spec.Represented (spec.bindings filters nowEpoch) f ask.1 ask.2)
    (hdistinct : (spec.bindings filters nowEpoch).sets.Nodup)
    (hall : ∀ x ∈ s.rows, s.Selected like spec filters nowEpoch x →
      ∃ set ∈ (spec.bindings filters nowEpoch).sets,
        s.accepts spec (spec.explodeParams filters) set x = true)
    {maxRows : Option ℕ} {allowDefer : Bool} {rows : List ρ}
    (h : scanBound spec maxRows none (s.answer spec) filters nowEpoch allowDefer =
      .ok (.rows rows)) :
    rows.Nodup ∧ ∀ x, x ∈ rows ↔ x ∈ s.rows ∧ s.Selected like spec filters nowEpoch x := by
  rw [scanBound_answer h]
  refine ⟨List.nodup_flatMap.mpr ⟨fun set _ => s.nodup.filter _, ?_⟩, fun x => ?_⟩
  · refine List.Pairwise.imp_of_mem (fun {set set'} hset hset' hne x hx hx' => ?_) hdistinct
    obtain ⟨hmem, hacc⟩ := List.mem_filter.mp hx
    exact hne (accepts_unique hs hmem hset hset' hacc (List.mem_filter.mp hx').2)
  · rw [List.mem_flatMap]
    constructor
    · rintro ⟨set, hset, hx⟩
      obtain ⟨hmem, hacc⟩ := List.mem_filter.mp hx
      exact ⟨hmem, selected_of_accepts hs hmem hrep hset hacc⟩
    · rintro ⟨hmem, hsel⟩
      obtain ⟨set, hset, hacc⟩ := hall x hmem hsel
      exact ⟨set, hset, List.mem_filter.mpr ⟨hmem, hacc⟩⟩

/-! ## Represented filters are compatible -/

lemma bindScan_bound {allowDefer : Bool} {b : Bindings}
    (h : spec.bindScan filters nowEpoch allowDefer = .ok (.bound b)) :
    b = spec.bindings filters nowEpoch := by
  unfold bindScan at h
  split at h
  · cases h
    rfl
  · split_ifs at h
    cases h

lemma represented_compared
    (hrep : ∀ f ∈ filters, ∃ ask ∈ spec.asks f,
      spec.Represented (spec.bindings filters nowEpoch) f ask.1 ask.2)
    (hf : f ∈ filters) {v : String} (hv : spec.boundBy f = some (q, v)) :
    spec.Represented (spec.bindings filters nowEpoch) f q [v] := by
  obtain ⟨ask, hask, hrepf⟩ := hrep f hf
  have heq := hask.symm.trans (asks_of_boundBy hv).2
  cases heq
  exact hrepf

lemma represented_list
    (hrep : ∀ f ∈ filters, ∃ ask ∈ spec.asks f,
      spec.Represented (spec.bindings filters nowEpoch) f ask.1 ask.2)
    (hf : f ∈ filters) (hlist : extractInList f = some (q, vals)) :
    spec.Represented (spec.bindings filters nowEpoch) f q vals := by
  obtain ⟨ask, hask, hrepf⟩ := hrep f hf
  have heq := hask.symm.trans (asks_of_list hlist)
  cases heq
  exact hrepf

/-- A list without repetitions whose elements are all one value. -/
lemma eq_singleton_of_forall {α : Type*} {l : List α} {a : α} (hne : l ≠ []) (hnodup : l.Nodup)
    (h : ∀ b ∈ l, b = a) : l = [a] := by
  match l with
  | [] => exact absurd rfl hne
  | [b] => rw [h b List.mem_cons_self]
  | b :: c :: l =>
      have hb := h b List.mem_cons_self
      have hc := h c (List.mem_cons_of_mem _ List.mem_cons_self)
      exact absurd (hb.trans hc.symm)
        fun heq => (List.nodup_cons.mp hnodup).1 (heq ▸ List.mem_cons_self)

/-- Filters that distinct requests represent are compatible. -/
lemma compatible_of_represented
    (hrep : ∀ f ∈ filters, ∃ ask ∈ spec.asks f,
      spec.Represented (spec.bindings filters nowEpoch) f ask.1 ask.2)
    (hdistinct : (spec.bindings filters nowEpoch).sets.Nodup)
    (hne : ∀ e ∈ spec.fanout filters, e.2 ≠ []) : Compatible spec filters nowEpoch := by
  have hsets : (spec.bindings filters nowEpoch).sets ≠ [] := expandFanout_ne_nil hne _
  obtain ⟨set₀, hset₀⟩ := List.exists_mem_of_ne_nil _ hsets
  obtain ⟨hnodups, hpairs⟩ := (expandFanout_nodup_iff hne _).mp hdistinct
  -- what two filters carry at one place is allowed by both
  have hcommon : ∀ f ∈ filters, ∀ g ∈ filters, ∀ q vals vals',
      spec.Represented (spec.bindings filters nowEpoch) f q vals →
      spec.Represented (spec.bindings filters nowEpoch) g q vals' →
      (∀ set ∈ (spec.bindings filters nowEpoch).sets,
        spec.carried (spec.explodeParams filters) set f q =
          spec.carried (spec.explodeParams filters) set g q) →
      ∀ v ∈ vals, v ∈ vals' := by
    intro f _ g _ q vals vals' hf hg hplace v hv
    obtain ⟨set, hset, hcarried⟩ := hf.all hsets v hv
    refine (hg.only set hset).2 v ?_
    exact (hplace set hset ▸ hcarried :)
  have hcompared : ∀ f ∈ filters, ∀ g ∈ filters, ∀ q v vals, spec.boundBy f = some (q, v) →
      spec.fannedBy g = some (q, vals) → ∀ u ∈ vals, u = v := by
    intro f hf g hg q v vals hv hq u hu
    have hmem := hcommon g hg f hf q vals [v] (represented_list hrep hg (fannedBy_spec hq).1)
      (represented_compared hrep hf hv)
      (fun set _ => carried_congr (explodedBy_of_fannedBy hq) (explodedBy_of_boundBy hv)) u hu
    exact List.mem_singleton.mp hmem
  refine ⟨?_, ?_, hnodups, ?_, ?_, ?_, ?_, ?_⟩
  · intro f hf g hg q v v' hv hv'
    have hmem := hcommon f hf g hg q [v] [v'] (represented_compared hrep hf hv)
      (represented_compared hrep hg hv')
      (fun set _ => carried_congr (explodedBy_of_boundBy hv) (explodedBy_of_boundBy hv')) v
      List.mem_cons_self
    exact List.mem_singleton.mp hmem
  · intro f hf g hg q v vals hv hq
    have he : (q, vals) ∈ spec.fanout filters := mem_fanout.mpr ⟨g, hg, hq⟩
    exact eq_singleton_of_forall (hne _ he) (hnodups _ he) (hcompared f hf g hg q v vals hv hq)
  · refine List.Pairwise.imp_of_mem (fun {e e'} he he' hone heq => ⟨?_, hone heq⟩) hpairs
    obtain ⟨f, hf, hq⟩ := mem_fanout.mp he
    obtain ⟨g, hg, hq'⟩ := mem_fanout.mp he'
    obtain ⟨a, ha⟩ := List.length_eq_one_iff.mp (hone heq)
    have hrepf := represented_list hrep hf (fannedBy_spec hq).1
    have hrepg := represented_list hrep hg (fannedBy_spec hq').1
    rw [ha]
    refine (eq_singleton_of_forall (hne e' he') (hnodups e' he') fun b hb => ?_).symm
    have hmem := hcommon g hg f hf e'.1 e'.2 e.2 hrepg (heq ▸ hrepf)
      (fun set _ => carried_congr (explodedBy_of_fannedBy hq') (explodedBy_of_fannedBy hq)) b hb
    rw [ha] at hmem
    exact List.mem_singleton.mp hmem
  · intro f hf q vals hq hnil
    obtain ⟨hcarried, hall⟩ :=
      (represented_list hrep hf (explodedBy_spec hq).1).only set₀ hset₀
    obtain ⟨v, hv⟩ := List.exists_mem_of_ne_nil _ hcarried
    have hmem := hall v hv
    rw [hnil] at hmem
    cases hmem
  · intro f hf g hg q vals vals' hq hq'
    exact hcommon f hf g hg q vals vals' (represented_list hrep hf (explodedBy_spec hq).1)
      (represented_list hrep hg (explodedBy_spec hq').1)
      fun set _ => (carried_exploded hq).trans (carried_exploded hq').symm
  · intro f hf g hg q v vals hv hq hfills u hu
    have hmem := hcommon g hg f hf q vals [v] (represented_list hrep hg (explodedBy_spec hq).1)
      (represented_compared hrep hf hv) (fun set hset => ?_) u hu
    · exact List.mem_singleton.mp hmem
    · rw [carried_exploded hq, carried, if_neg]
      rw [placed_eq hset, hfills]
      simp
  · intro f hf q vals hlist hexplode hfan
    have hrepf := represented_list hrep hf hlist
    have hnone : (spec.explodeParams filters).get? q = none := by
      rcases spec.explodeParams_get? filters q with ⟨_, hget⟩ | ⟨g, _, vals', hg, _⟩
      · exact hget
      · rw [explodedBy_of_list hg hlist] at hexplode
        cases hexplode
    have hcarried : ∀ set ∈ (spec.bindings filters nowEpoch).sets,
        spec.carried (spec.explodeParams filters) set f q =
          ((spec.baseParams filters nowEpoch).get? q).toList := by
      intro set hset
      rw [carried_of_explode_none hexplode hnone, get?_of_not_fanned hset]
      intro g _ vals' hg
      rw [fannedBy_of_list hg hlist] at hfan
      cases hfan
    obtain ⟨hcne, hall⟩ := hrepf.only set₀ hset₀
    obtain ⟨v, hv⟩ := List.exists_mem_of_ne_nil _ hcne
    refine ⟨List.ne_nil_of_mem (hall v hv), fun u hu => ?_⟩
    obtain ⟨set, hset, hmem⟩ := hrepf.all hsets u hu
    have hbase : u ∈ ((spec.baseParams filters nowEpoch).get? q).toList :=
      (hcarried set hset ▸ hmem :)
    exact Option.mem_toList.mp hbase

end

/-! ## Two dates sent as one parameter -/

/-- Events with two dates; a lower bound on either is sent as `since`. -/
def eventsSpec : HttpTableSpec where
  name := "events"
  endpoint := "/events"
  params :=
    [{ name := "created", accepts := [">="], emit := OrderedMap.empty.insert ">=" "since" },
      { name := "updated", accepts := [">="], emit := OrderedMap.empty.insert ">=" "since" }]

def createdSince : Expr :=
  .binary (.column "created") .gtEq (.literal (.utf8 "2024-01-01"))

def updatedSince : Expr :=
  .binary (.column "updated") .gtEq (.literal (.utf8 "2024-06-01"))

/-- The bindings of the two filters: the later one only. -/
def sinceBindings : Bindings where
  sets := [OrderedMap.empty.insert "since" "2024-06-01"]
  explode := .empty

lemma since_reported :
    ∀ f ∈ [createdSince, updatedSince], eventsSpec.canPushDown f = true := by
  decide

lemma since_bound :
    eventsSpec.bindScan [createdSince, updatedSince] 0 true = .ok (.bound sinceBindings) := by
  rfl

/-- The filter on the creation date is overwritten. -/
lemma since_overwritten (like : String → String → Bool) :
    ¬ BindingsExact like eventsSpec [createdSince, updatedSince] 0 true sinceBindings := by
  intro h
  have hcreated : eventsSpec.boundBy createdSince = some ("since", "2024-01-01") := by rfl
  obtain ⟨ask, hask, hrep⟩ := h.represented createdSince List.mem_cons_self
  have heq := hask.symm.trans (HttpTableSpec.asks_of_boundBy hcreated).2
  cases heq
  have hmem := (hrep.only (OrderedMap.empty.insert "since" "2024-06-01") List.mem_cons_self).2
    "2024-06-01" (by decide)
  revert hmem
  decide

end Http
end Pawrly
