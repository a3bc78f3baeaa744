import Pawrly.Config.Validator
import Pawrly.Semantic.Search
import Pawrly.Lib.Fallible

/-!
# What an accepted configuration satisfies

The validation as a list of facts: names are unique and identifiers, references are known, the
metric graph has no cycle.
-/

namespace Pawrly
namespace Config

open Semantic Sql CycleSearch

/-! ## Loops over named entries -/

lemma eachNamed_eq_nil {α β : Type*} {name : α → String} {check : Bool → α → List β}
    (hdup : ∀ a, check true a ≠ []) {seen : List String} {l : List α} :
    eachNamed name check seen l = [] ↔
      (∀ a ∈ l, name a ∉ seen ∧ check false a = []) ∧ (l.map name).Nodup := by
  induction l generalizing seen with
  | nil => simp [eachNamed]
  | cons a l ih =>
      rw [eachNamed, List.append_eq_nil_iff, ih, List.map_cons, List.nodup_cons]
      constructor
      · rintro ⟨ha, hl, hnodup⟩
        have hfresh : seen.contains (name a) = false :=
          Bool.eq_false_iff.mpr fun h => hdup a (h ▸ ha)
        rw [hfresh] at ha
        refine ⟨fun b hb => ?_, fun hmem => ?_, hnodup⟩
        · rcases List.mem_cons.mp hb with rfl | hb
          · exact ⟨by simpa using hfresh, ha⟩
          · exact ⟨fun h => (hl b hb).1 (List.mem_cons_of_mem _ h), (hl b hb).2⟩
        · obtain ⟨b, hb, hba⟩ := List.mem_map.mp hmem
          exact (hl b hb).1 (hba ▸ List.mem_cons_self)
      · rintro ⟨hall, hfresh, hnodup⟩
        obtain ⟨ha, hchk⟩ := hall a List.mem_cons_self
        refine ⟨by rwa [show seen.contains (name a) = false by simpa using ha],
          fun b hb => ⟨fun h => ?_, (hall b (List.mem_cons_of_mem _ hb)).2⟩, hnodup⟩
        rcases List.mem_cons.mp h with h | h
        · exact hfresh (h ▸ List.mem_map_of_mem hb)
        · exact (hall b (List.mem_cons_of_mem _ hb)).1 h

/-! ## Metrics -/

variable {ord : SetOrder} {cfg : SemanticConfig} {sourceNames : List String}

lemma Accepted.metric_ok (h : Accepted ord cfg sourceNames) {metric : Metric}
    (hm : metric ∈ cfg.metrics) : metricErrors cfg false metric = [] := by
  have hmetrics := h.2
  unfold validateMetrics at hmetrics
  rw [List.append_eq_nil_iff, List.append_eq_nil_iff, eachNamed_eq_nil] at hmetrics
  · exact List.map_eq_nil_iff.mp (hmetrics.1.2.1 metric hm).2
  · intro metric
    simp [metricErrors, errorIf]

lemma Accepted.no_cycles (h : Accepted ord cfg sourceNames) :
    (search (metricRefs cfg) (cfg.catalog.metrics.map Metric.name)
      (ord.order (cfg.catalog.metrics.map Metric.name))).cyclic = [] := by
  have hmetrics := h.2
  unfold validateMetrics findMetricCycles at hmetrics
  rw [List.append_eq_nil_iff, List.map_eq_nil_iff] at hmetrics
  have hperm := List.perm_insertionSort (fun a b : String => a ≤ b) ((search (metricRefs cfg)
    (cfg.catalog.metrics.map Metric.name)
    (ord.order (cfg.catalog.metrics.map Metric.name))).cyclic.dedup)
  rw [hmetrics.2] at hperm
  exact (List.dedup_eq_nil _).mp hperm.symm.eq_nil

/-- Collecting by name keeps every name. -/
lemma exists_collectByName {α : Type*} {key : α → String} {as : List α} {name : String}
    (h : name ∈ as.map key) : name ∈ (collectByName key as).map key := by
  induction as with
  | nil => cases h
  | cons a as ih =>
      unfold collectByName
      split_ifs with hin
      · rcases List.mem_cons.mp h with rfl | h
        · exact ih hin
        · exact ih h
      · rcases List.mem_cons.mp h with rfl | h
        · exact List.mem_cons_self
        · exact List.mem_cons_of_mem _ (ih h)

lemma mem_of_catalog_metric {name : String} {metric : Metric}
    (h : cfg.catalog.metric name = some metric) : metric ∈ cfg.metrics ∧ metric.name = name :=
  ⟨(collectByName_sublist Metric.name cfg.metrics).subset (List.mem_of_find?_eq_some h),
    by simpa using List.find?_some h⟩

lemma metricRefs_isSome {name : String} (h : (metricRefs cfg name).isSome) :
    name ∈ cfg.catalog.metrics.map Metric.name := by
  unfold metricRefs at h
  rw [Option.isSome_map] at h
  obtain ⟨metric, hmetric⟩ := Option.isSome_iff_exists.mp h
  obtain ⟨-, rfl⟩ := mem_of_catalog_metric hmetric
  exact List.mem_map_of_mem (List.mem_of_find?_eq_some hmetric)

lemma catalog_metric_of_mem {name : String} (h : name ∈ cfg.metrics.map Metric.name) :
    ∃ metric, cfg.catalog.metric name = some metric := by
  obtain ⟨metric, hm, rfl⟩ := List.mem_map.mp (exists_collectByName h)
  exact Option.isSome_iff_exists.mp (List.find?_isSome.mpr ⟨metric, hm, by simp⟩)

/-- The references of an accepted metric are a known metric each, or a measure of a known
model. -/
lemma Accepted.references (h : Accepted ord cfg sourceNames) {metric : Metric}
    (hm : metric ∈ cfg.metrics) : ∃ refs, metric.references = .ok refs ∧
      ∀ r ∈ refs, memberErrors cfg r.1 = [] := by
  have hok := h.metric_ok hm
  unfold metricErrors at hok
  simp only [List.append_eq_nil_iff] at hok
  cases hrefs : metric.references with
  | error msg =>
      rw [hrefs] at hok
      cases hok.1.1.2
  | ok refs =>
      rw [hrefs] at hok
      exact ⟨refs, rfl, fun r hr => List.flatMap_eq_nil_iff.mp hok.1.1.2 r hr⟩

/-! ## Models -/

lemma findDimension_of_mem {m : SemanticModel} {name : String}
    (h : name ∈ m.dimensions.map Dimension.name) : ∃ dim, findDimension m name = some dim := by
  obtain ⟨d, hd, rfl⟩ := List.mem_map.mp h
  exact Option.isSome_iff_exists.mp (List.find?_isSome.mpr ⟨d, hd, by simp⟩)

lemma findMeasure_of_mem {m : SemanticModel} {name : String}
    (h : name ∈ m.measures.map Measure.name) : ∃ measure, findMeasure m name = some measure := by
  obtain ⟨measure, hmeasure, rfl⟩ := List.mem_map.mp h
  exact Option.isSome_iff_exists.mp (List.find?_isSome.mpr ⟨measure, hmeasure, by simp⟩)

lemma not_dot_of_isValidIdentifier {name : String} (h : isValidIdentifier name = true) :
    '.' ∉ name.toList := by
  unfold isValidIdentifier at h
  cases hl : name.toList with
  | nil => simp
  | cons c cs =>
      rw [hl] at h
      obtain ⟨hc, hcs⟩ := Bool.and_eq_true_iff.mp h
      intro hmem
      rcases List.mem_cons.mp hmem with rfl | hmem
      · revert hc
        decide
      · have hdot := List.all_eq_true.mp hcs '.' hmem
        revert hdot
        decide

/-- What is checked of one model. -/
structure ModelAccepted (models : List SemanticModel) (sourceNames : List String)
    (model : SemanticModel) : Prop where
  name : isValidIdentifier model.name = true
  source : (TableName.parse model.source).isSome
  dimensions : (∀ d ∈ model.dimensions, dimensionErrors false d = []) ∧
    (model.dimensions.map Dimension.name).Nodup
  measures : (∀ m ∈ model.measures,
      measureErrors (model.dimensions.map Dimension.name) false m = []) ∧
    (model.measures.map Measure.name).Nodup
  preAggregations : (∀ p ∈ model.preAggregations,
      preaggErrors model.dimensions (model.measures.map Measure.name) false p = []) ∧
    (model.preAggregations.map PreAggregation.name).Nodup

lemma sourceErrors_eq_nil {source : String} (h : sourceErrors sourceNames source = []) :
    (TableName.parse source).isSome := by
  unfold sourceErrors at h
  split at h
  · cases h
  · next table ht => rw [ht]; rfl

variable {models : List SemanticModel}

lemma validateSemantic_models (h : validateSemantic models sourceNames = []) :
    (∀ m ∈ models, ModelAccepted models sourceNames m) ∧
      (models.map SemanticModel.name).Nodup := by
  unfold validateSemantic at h
  rw [eachNamed_eq_nil (by intro m; simp [modelErrors, errorIf])] at h
  refine ⟨fun m hm => ?_, h.2⟩
  have hok := List.map_eq_nil_iff.mp (h.1 m hm).2
  unfold modelErrors at hok
  simp only [List.append_eq_nil_iff, errorIf_eq_nil] at hok
  obtain ⟨⟨⟨⟨⟨⟨⟨⟨hname, _⟩, hsource⟩, hdims⟩, hmeas⟩, _⟩, hpre⟩, _⟩, _⟩ := hok
  refine ⟨?_, sourceErrors_eq_nil hsource, ?_, ?_, ?_⟩
  · simp only [Bool.or_eq_false_iff, Bool.not_eq_false'] at hname
    exact hname.2
  · rw [eachNamed_eq_nil (by intro d; simp [dimensionErrors, errorIf])] at hdims
    exact ⟨fun d hd => (hdims.1 d hd).2, hdims.2⟩
  · rw [eachNamed_eq_nil (by intro d; simp [measureErrors, errorIf])] at hmeas
    exact ⟨fun d hd => (hmeas.1 d hd).2, hmeas.2⟩
  · rw [eachNamed_eq_nil (by intro d; simp [preaggErrors, errorIf])] at hpre
    exact ⟨fun d hd => (hpre.1 d hd).2, hpre.2⟩

end Config
end Pawrly
