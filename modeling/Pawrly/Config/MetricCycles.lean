import Pawrly.Config.Accepted

/-!
# Reference cycles of metrics

`find_metric_cycles` (`pawrly-config/src/validator.rs`) walks the references between metrics by name,
over a map whose iteration order is not fixed.  A reference stands for the metric that the map keeps
under the name, the last one given.  The walk ends, and it reports a cycle exactly when there is one
(`findMetricCycles_iff`).
-/

namespace Pawrly
namespace Config

open Semantic CycleSearch

variable {cfg : SemanticConfig} {m m' : Metric}

/-- A metric references another one: by a member without dot, whose metric the other one is. -/
def RefersTo (cfg : SemanticConfig) (m m' : Metric) : Prop :=
  ∃ refs, m.references = .ok refs ∧ ∃ r ∈ refs, isMetric r.1 ∧ cfg.catalog.metric r.1 = some m'

/-- A metric lies on a cycle of references. -/
def SelfReferring (cfg : SemanticConfig) (m : Metric) : Prop := Relation.TransGen (RefersTo cfg) m m

/-- The keys of the map. -/
def metricNames (cfg : SemanticConfig) : List String := cfg.catalog.metrics.map Metric.name

/-! ## References by name -/

lemma RefersTo.target (h : RefersTo cfg m m') : cfg.catalog.metric m'.name = some m' := by
  obtain ⟨_, _, r, _, _, hr⟩ := h
  rwa [(mem_of_catalog_metric hr).2]

/-- The edges that the walk follows are the references. -/
lemma leads_iff {a b : String} : Leads (metricRefs cfg) a b ↔
    ∃ m m', cfg.catalog.metric a = some m ∧ cfg.catalog.metric b = some m' ∧
      RefersTo cfg m m' := by
  unfold Leads successors
  rw [List.mem_filter]
  constructor
  · rintro ⟨hb, hsome⟩
    have ha : (metricRefs cfg a).isSome := by
      by_contra hnone
      rw [Option.not_isSome_iff_eq_none.mp hnone, Option.getD_none] at hb
      exact absurd hb List.not_mem_nil
    unfold metricRefs at ha hsome hb
    rw [Option.isSome_map] at ha hsome
    obtain ⟨m, hm⟩ := Option.isSome_iff_exists.mp ha
    obtain ⟨m', hm'⟩ := Option.isSome_iff_exists.mp hsome
    refine ⟨m, m', hm, hm', ?_⟩
    rw [hm, Option.map_some, Option.getD_some] at hb
    cases hrefs : m.references with
    | error e => simp [hrefs] at hb
    | ok refs =>
        rw [hrefs] at hb
        obtain ⟨hmem, hmetric⟩ := List.mem_filter.mp hb
        obtain ⟨r, hr, rfl⟩ := List.mem_map.mp hmem
        exact ⟨refs, hrefs, r, hr, hmetric, hm'⟩
  · rintro ⟨m, m', hm, hm', refs, hrefs, r, hr, hmetric, hr'⟩
    have hb : r.1 = b := by
      rw [← (mem_of_catalog_metric hr').2, (mem_of_catalog_metric hm').2]
    subst hb
    unfold metricRefs
    rw [hm, hm']
    refine ⟨?_, rfl⟩
    rw [Option.map_some, Option.getD_some, hrefs]
    exact List.mem_filter.mpr ⟨List.mem_map_of_mem hr, hmetric⟩

lemma refersTo_of_edges {a b : String} (h : Relation.TransGen (Leads (metricRefs cfg)) a b)
    (hm : cfg.catalog.metric a = some m) :
    ∃ m', cfg.catalog.metric b = some m' ∧ Relation.TransGen (RefersTo cfg) m m' := by
  induction h with
  | single hab =>
      obtain ⟨m₁, m', hm₁, hm', hrefers⟩ := leads_iff.mp hab
      obtain rfl : m₁ = m := Option.some.inj (hm₁.symm.trans hm)
      exact ⟨m', hm', .single hrefers⟩
  | tail _ hbc ih =>
      obtain ⟨m₁, hm₁, hpath⟩ := ih
      obtain ⟨m₂, m', hm₂, hm', hrefers⟩ := leads_iff.mp hbc
      obtain rfl : m₂ = m₁ := Option.some.inj (hm₂.symm.trans hm₁)
      exact ⟨m', hm', .tail hpath hrefers⟩

lemma edges_of_refersTo (h : Relation.TransGen (RefersTo cfg) m m')
    (hm : cfg.catalog.metric m.name = some m) :
    Relation.TransGen (Leads (metricRefs cfg)) m.name m'.name ∧
      cfg.catalog.metric m'.name = some m' := by
  induction h with
  | single hrefers =>
      exact ⟨.single (leads_iff.mpr ⟨m, _, hm, hrefers.target, hrefers⟩), hrefers.target⟩
  | tail _ hrefers ih =>
      obtain ⟨hpath, hfrom⟩ := ih
      exact ⟨.tail hpath (leads_iff.mpr ⟨_, _, hfrom, hrefers.target, hrefers⟩), hrefers.target⟩

lemma exists_cyclic {name : String} (h : OnCycle (metricRefs cfg) name) :
    ∃ m ∈ cfg.metrics, m.name = name ∧ SelfReferring cfg m := by
  obtain ⟨b, hedge, -⟩ := Relation.TransGen.head'_iff.mp h
  obtain ⟨m, -, hm, -⟩ := leads_iff.mp hedge
  obtain ⟨m', hm', hpath⟩ := refersTo_of_edges h hm
  obtain rfl : m' = m := Option.some.inj (hm'.symm.trans hm)
  obtain ⟨hmem, hname⟩ := mem_of_catalog_metric hm
  exact ⟨m', hmem, hname, hpath⟩

lemma onCycle_of_selfReferring (h : SelfReferring cfg m) : OnCycle (metricRefs cfg) m.name := by
  obtain ⟨_, -, hlast⟩ := Relation.TransGen.tail'_iff.mp h
  exact (edges_of_refersTo h hlast.target).1

/-! ## The names reported -/

lemma mem_findMetricCycles {ord : SetOrder} {name : String} :
    name ∈ findMetricCycles ord cfg ↔
      name ∈ (search (metricRefs cfg) (metricNames cfg) (ord.order (metricNames cfg))).cyclic :=
  (List.perm_insertionSort _ _).mem_iff.trans List.mem_dedup

lemma findMetricCycles_ne_nil_iff (ord : SetOrder) (cfg : SemanticConfig) :
    findMetricCycles ord cfg ≠ [] ↔ ∃ m ∈ cfg.metrics, SelfReferring cfg m := by
  have hcyclic : findMetricCycles ord cfg ≠ [] ↔ ∃ name, OnCycle (metricRefs cfg) name := by
    have hkeys : ∀ n, (metricRefs cfg n).isSome → n ∈ metricNames cfg :=
      fun _ => metricRefs_isSome
    rw [← search_cyclic_iff hkeys fun _ => (ord.perm (metricNames cfg)).mem_iff]
    simp only [ne_eq, List.eq_nil_iff_forall_not_mem, mem_findMetricCycles]
  rw [hcyclic]
  constructor
  · rintro ⟨name, hname⟩
    obtain ⟨m, hm, -, hcycle⟩ := exists_cyclic hname
    exact ⟨m, hm, hcycle⟩
  · rintro ⟨m, -, hcycle⟩
    exact ⟨m.name, onCycle_of_selfReferring hcycle⟩

/-- **The cycle finder**: the walk ends, the names reported are those it collects, there are some
exactly when some metric lies on a cycle, each is the name of such a metric, and whether there are
some is the same for every iteration order of the map. -/
theorem findMetricCycles_iff (ord : SetOrder) (cfg : SemanticConfig) :
    (∃ s, VisitsAll (metricRefs cfg) [] {} (ord.order (metricNames cfg)) s ∧
      ∀ name, name ∈ findMetricCycles ord cfg ↔ name ∈ s.cyclic) ∧
    (findMetricCycles ord cfg ≠ [] ↔ ∃ m ∈ cfg.metrics, SelfReferring cfg m) ∧
    (∀ name ∈ findMetricCycles ord cfg, ∃ m ∈ cfg.metrics, m.name = name ∧ SelfReferring cfg m) ∧
    ∀ ord', findMetricCycles ord' cfg = [] ↔ findMetricCycles ord cfg = [] := by
  refine ⟨⟨_, @search_ends _ _ (metricRefs cfg) (metricNames cfg) _ (fun _ => metricRefs_isSome) fun _ hn =>
      (ord.perm _).mem_iff.mp hn, fun _ => mem_findMetricCycles⟩,
    findMetricCycles_ne_nil_iff ord cfg, fun name hname => ?_, fun ord' => ?_⟩
  · exact exists_cyclic (search_sound (mem_findMetricCycles.mp hname))
  · have h := (findMetricCycles_ne_nil_iff ord' cfg).trans
      (findMetricCycles_ne_nil_iff ord cfg).symm
    exact not_iff_not.mp h

end Config
end Pawrly
