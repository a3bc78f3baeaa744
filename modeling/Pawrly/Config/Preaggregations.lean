import Pawrly.Config.Accepted
import Pawrly.Semantic.RollupPlan

/-!
# Validated pre-aggregations

The validation compares the grain of a pre-aggregation's entry with the finest declared one; the
compiler asks for a time dimension and for a declared grain.  Nothing asks for entries with
different columns.  `preagg_compiles_iff` says exactly which accepted pre-aggregations compile
into columns of different names.
-/

namespace Pawrly
namespace Config

open Semantic Sql

/-! ## Declared grains -/

/-- The grain, if there is one, is a declared grain of a time dimension. -/
def DeclaredGrain (m : SemanticModel) (d : GrainedName) : Prop :=
  ∀ g, d.grain = some g → ∀ dim, findDimension m d.name = some dim →
    dim.dataType = .time ∧ (dim.timeGrains = [] ∨ g ∈ dim.timeGrains)

/-- A known dimension with a grain that can be read resolves when the grain is declared. -/
lemma resolveDimensionExpr_ok_iff {m : SemanticModel} {member name : String}
    {grain? : Option String} {dim : Dimension} (alias? tz : Option String)
    (hparts : dimensionParts member = .ok (name, grain?)) (hdim : findDimension m name = some dim)
    (hgrain : ∀ s, grain? = some s → (TimeGrain.parse s).isSome) :
    (∃ e, resolveDimensionExpr m member alias? tz = .ok e) ↔
      DeclaredGrain m ⟨name, grain?.bind TimeGrain.parse⟩ := by
  unfold resolveDimensionExpr DeclaredGrain
  simp only [hparts, bind, Except.bind, hdim]
  cases grain? with
  | none => simp
  | some s =>
      obtain ⟨g, hg⟩ := Option.isSome_iff_exists.mp (hgrain s rfl)
      simp only [hg, Option.bind_some, Option.some.injEq]
      constructor
      · rintro ⟨e, he⟩ _ rfl _ rfl
        obtain ⟨htime, he⟩ := Fallible.ite_error_eq_ok.mp he
        obtain ⟨hdeclared, _⟩ := Fallible.ite_error_eq_ok.mp he
        refine ⟨by simpa using htime, ?_⟩
        by_contra hnot
        rw [not_or] at hnot
        exact hdeclared (by simpa using hnot)
      · intro h
        obtain ⟨htime, hdeclared⟩ := h g rfl dim rfl
        rw [if_neg (by simpa using htime), if_neg]
        · exact ⟨_, rfl⟩
        · rcases hdeclared with hnil | hmem
          · simp [hnil]
          · simp [hmem]

/-! ## Entries -/

lemma not_dot_asStr (g : TimeGrain) : '.' ∉ g.asStr.toList := by
  cases g <;> decide

/-- An accepted entry names a dimension of the model, alone or at a grain that can be read. -/
lemma entry_of_accepted {m : SemanticModel} {pre entry root : String} (hroot : '.' ∉ root.toList)
    (h : preaggDimErrors m.dimensions pre entry = []) :
    ∃ dim grain?, findDimension m (bareName entry) = some dim ∧
      dimensionParts (root ++ "." ++ entry) = .ok (bareName entry, grain?) ∧
      (∀ s, grain? = some s → (TimeGrain.parse s).isSome) ∧
      parseBareDim entry = ⟨bareName entry, grain?.bind TimeGrain.parse⟩ := by
  have hmember := (Text.split_of_splitOnce_some (Text.splitOnce_append (b := entry) hroot)).1
  unfold preaggDimErrors splitMemberGrain at h
  cases hsplit : Text.splitOnce '.' entry with
  | none =>
      rw [hsplit] at h
      have hone := (Text.split_of_splitOnce_none hsplit).1
      have hbare : bareName entry = entry := by
        rw [bareName, hone]
        rfl
      dsimp only at h
      split_ifs at h with hmem
      obtain ⟨dim, hdim⟩ := findDimension_of_mem
        (by simpa using hmem : entry ∈ m.dimensions.map Dimension.name)
      refine ⟨dim, none, by rw [hbare]; exact hdim, ?_, (fun s hs => by cases hs), ?_⟩
      · rw [dimensionParts, hmember, hone, hbare]
      · rw [parseBareDim, hsplit, hbare]
        rfl
  | some p =>
      obtain ⟨name, grainStr⟩ := p
      rw [hsplit] at h
      dsimp only at h
      split_ifs at h with hmem
      obtain ⟨dim, hdim⟩ := findDimension_of_mem
        (by simpa using hmem : name ∈ m.dimensions.map Dimension.name)
      cases hparse : TimeGrain.parse grainStr with
      | none =>
          rw [hparse] at h
          cases h
      | some g =>
          have hgrain := (TimeGrain.parse_eq_some_iff _ _).mp hparse
          have hone : Text.split '.' entry = [name, grainStr] := by
            rw [(Text.split_of_splitOnce_some hsplit).1, hgrain,
              (Text.split_of_splitOnce_none (Text.splitOnce_eq_none_iff.mpr (not_dot_asStr g))).1]
          have hbare : bareName entry = name := by
            rw [bareName, hone]
            rfl
          refine ⟨dim, some grainStr, by rw [hbare]; exact hdim, ?_, fun s hs => ?_, ?_⟩
          · rw [dimensionParts, hmember, hone, hbare]
          · cases hs
            rw [hparse]
            rfl
          · rw [parseBareDim, hsplit, hbare]
            rfl

/-- An accepted entry has an item, under its bare name, when its grain is declared. -/
lemma preaggDimItem_ok_iff {m : SemanticModel} {pre entry root : String}
    (hroot : '.' ∉ root.toList) (h : preaggDimErrors m.dimensions pre entry = []) :
    (∃ item, preaggDimItem m root entry = .ok item) ↔ DeclaredGrain m (parseBareDim entry) := by
  obtain ⟨dim, grain?, hdim, hparts, hgrain, hparse⟩ := entry_of_accepted hroot h
  rw [hparse, ← resolveDimensionExpr_ok_iff none none hparts hdim hgrain]
  constructor
  · rintro ⟨item, hitem⟩
    obtain ⟨e, he, _⟩ := Fallible.bind_eq_ok.mp hitem
    exact ⟨e, he⟩
  · rintro ⟨e, he⟩
    exact ⟨_, Fallible.bind_eq_ok.mpr ⟨e, he, rfl⟩⟩

/-! ## Whole pre-aggregations -/

variable {models : List SemanticModel} {sourceNames : List String}

lemma collectByName_of_nodup {α : Type*} {key : α → String} {as : List α}
    (h : (as.map key).Nodup) : collectByName key as = as := by
  induction as with
  | nil => rfl
  | cons a as ih =>
      rw [List.map_cons, List.nodup_cons] at h
      rw [collectByName, if_neg h.1, ih h.2]

/-- An accepted model is the catalog's model of its name. -/
lemma catalog_model_of_mem (h : validateSemantic models sourceNames = []) {m : SemanticModel}
    (hm : m ∈ models) (metrics : List Metric) (spine : Option TimeSpine) :
    (SemanticCatalog.new models metrics spine).model m.name = some m := by
  refine SemanticCatalog.model_of_mem ?_
  change m ∈ collectByName SemanticModel.name models
  rw [collectByName_of_nodup (validateSemantic_models h).2]
  exact hm

lemma find?_name_of_mem {m : SemanticModel} {p : PreAggregation}
    (hnodup : (m.preAggregations.map PreAggregation.name).Nodup) (hp : p ∈ m.preAggregations) :
    (m.preAggregations.find? fun x => x.name = p.name) = some p := by
  obtain ⟨x, hx⟩ := Option.isSome_iff_exists.mp
    (List.find?_isSome.mpr ⟨p, hp, by simp⟩ :
      (m.preAggregations.find? fun x => x.name = p.name).isSome)
  have hname : x.name = p.name := by simpa using List.find?_some hx
  rw [hx, List.inj_on_of_nodup_map hnodup (List.mem_of_find?_eq_some hx) hp hname]

/-- The accepted measures of a pre-aggregation have their items. -/
lemma preaggMeasureItem_ok {m : SemanticModel} {name : String}
    (h : name ∈ m.measures.map Measure.name) (root : String) :
    ∃ item, preaggMeasureItem m root name = .ok item := by
  obtain ⟨measure, hmeasure⟩ := findMeasure_of_mem h
  exact ⟨(aggSql measure none, name), by rw [preaggMeasureItem, hmeasure]⟩

lemma preaggMeasureItem_name {m : SemanticModel} {root name : String} {item : SqlExpr × String}
    (h : preaggMeasureItem m root name = .ok item) : item.2 = name := by
  unfold preaggMeasureItem at h
  split at h
  · cases h
  · cases h
    rfl

/-- What the validation of a pre-aggregation says of its entries. -/
lemma preaggErrors_eq_nil {dims : List Dimension} {measureNames : List String}
    {p : PreAggregation} (h : preaggErrors dims measureNames false p = []) :
    (∀ d ∈ p.dimensions, preaggDimErrors dims p.name d = []) ∧
      ∀ name ∈ p.measures, name ∈ measureNames := by
  unfold preaggErrors at h
  simp only [List.append_eq_nil_iff, List.flatMap_eq_nil_iff, errorIf_eq_nil] at h
  refine ⟨h.1.1.2, fun name hname => ?_⟩
  simpa using h.1.2 name hname

/-- No dimension of an accepted model has the name of a measure. -/
lemma ModelAccepted.disjoint {m : SemanticModel} (h : ModelAccepted models sourceNames m)
    {name : String} (hdim : name ∈ m.dimensions.map Dimension.name) :
    name ∉ m.measures.map Measure.name := by
  intro hmem
  obtain ⟨measure, hmeasure, rfl⟩ := List.mem_map.mp hmem
  have hok := h.measures.1 measure hmeasure
  unfold measureErrors at hok
  simp only [List.append_eq_nil_iff, errorIf_eq_nil] at hok
  have hnot : (m.dimensions.map Dimension.name).contains measure.name = false := hok.1.2
  simp [hdim] at hnot

/-- The compile of an accepted pre-aggregation: the items of its entries, then its measures. -/
lemma compilePreagg_eq (h : validateSemantic models sourceNames = []) {m : SemanticModel}
    (hm : m ∈ models) {p : PreAggregation} (hp : p ∈ m.preAggregations) (metrics : List Metric)
    (spine : Option TimeSpine) :
    ∃ table, compilePreagg (SemanticCatalog.new models metrics spine) m.name p.name = (do
      let dimItems ← p.dimensions.mapM (preaggDimItem m m.name)
      let measureItems ← p.measures.mapM (preaggMeasureItem m m.name)
      .ok { items := dimItems ++ measureItems
            source := { root := m.name, table := table, aliased := false }
            wheres := []
            groupBy := dimItems.map Prod.fst }) := by
  have hmodel := (validateSemantic_models h).1 m hm
  have hfound := catalog_model_of_mem h hm metrics spine
  obtain ⟨table, htable⟩ := Option.isSome_iff_exists.mp hmodel.source
  have hqualified : qualifiedTable (SemanticCatalog.new models metrics spine) m.name =
      .ok table := by
    unfold qualifiedTable
    rw [hfound]
    dsimp only
    rw [htable]
  refine ⟨table, ?_⟩
  unfold compilePreagg
  rw [hfound]
  dsimp only
  rw [find?_name_of_mem hmodel.preAggregations.2 hp]
  dsimp only
  rw [hqualified]
  rfl

/-- **Accepted pre-aggregations compile** into columns of different names exactly when the grain
of every entry is declared on a time dimension and no dimension or measure is listed twice. -/
theorem preagg_compiles_iff (h : validateSemantic models sourceNames = []) {m : SemanticModel}
    (hm : m ∈ models) {p : PreAggregation} (hp : p ∈ m.preAggregations) (metrics : List Metric)
    (spine : Option TimeSpine) :
    (∃ s, compilePreagg (SemanticCatalog.new models metrics spine) m.name p.name = .ok s ∧
        (s.items.map Prod.snd).Nodup) ↔
      (∀ d ∈ p.dimensions, DeclaredGrain m (parseBareDim d)) ∧
        (p.dimensions.map bareName).Nodup ∧ p.measures.Nodup := by
  have hmodel := (validateSemantic_models h).1 m hm
  have hdot := not_dot_of_isValidIdentifier hmodel.name
  obtain ⟨hdims, hmeasures⟩ := preaggErrors_eq_nil (hmodel.preAggregations.1 p hp)
  obtain ⟨table, hcompile⟩ := compilePreagg_eq h hm hp metrics spine
  have hnames : ∀ {dimItems measureItems}, p.dimensions.mapM (preaggDimItem m m.name) =
      .ok dimItems → p.measures.mapM (preaggMeasureItem m m.name) = .ok measureItems →
      (dimItems ++ measureItems).map Prod.snd = p.dimensions.map bareName ++ p.measures := by
    intro dimItems measureItems hd hme
    rw [List.map_append, Fallible.map_of_mapM hd fun d item hitem =>
        (preaggDimItem_spec hdot hitem).1, Fallible.map_of_mapM (k := id) hme
        fun name item hitem => preaggMeasureItem_name hitem, List.map_id]
  constructor
  · rintro ⟨s, hs, hnodup⟩
    rw [hcompile] at hs
    obtain ⟨dimItems, hd, hs⟩ := Fallible.bind_eq_ok.mp hs
    obtain ⟨measureItems, hme, hs⟩ := Fallible.bind_eq_ok.mp hs
    cases hs
    rw [hnames hd hme, List.nodup_append] at hnodup
    refine ⟨fun d hmem => ?_, hnodup.1, hnodup.2.1⟩
    exact (preaggDimItem_ok_iff hdot (hdims d hmem)).mp (Fallible.mapM_ok_iff.mp ⟨_, hd⟩ d hmem)
  · rintro ⟨hgrains, hnodup, hnodupMeasures⟩
    obtain ⟨dimItems, hd⟩ := Fallible.mapM_ok_iff.mpr fun d hmem =>
      (preaggDimItem_ok_iff hdot (hdims d hmem)).mpr (hgrains d hmem)
    obtain ⟨measureItems, hme⟩ := Fallible.mapM_ok_iff.mpr fun name hmem =>
      preaggMeasureItem_ok (hmeasures name hmem) m.name
    refine ⟨_, by rw [hcompile, hd, hme]; rfl, ?_⟩
    rw [hnames hd hme, List.nodup_append]
    refine ⟨hnodup, hnodupMeasures, fun a ha b hb hab => ?_⟩
    obtain ⟨d, hmem, rfl⟩ := List.mem_map.mp ha
    obtain ⟨dim, _, hdim, _⟩ := entry_of_accepted hdot (hdims d hmem)
    have hname : bareName d ∈ m.dimensions.map Dimension.name := by
      have hdname : dim.name = bareName d := by simpa using List.find?_some hdim
      rw [← hdname]
      exact List.mem_map_of_mem (List.mem_of_find?_eq_some hdim)
    exact hmodel.disjoint hname (hab ▸ hmeasures b hb)

/-! ## A grain that is not declared -/

/-- Order dates can be grouped by day and by month; the pre-aggregations by week and by two
grains at once are accepted. -/
def weeklyOrders : SemanticModel where
  name := "orders"
  source := "shop.orders"
  dimensions := [{ name := "order_date", expr := "order_date", dataType := .time
                   timeGrains := [.day, .month] }]
  measures := [{ name := "revenue", agg := .sum, expr := "amount" }]
  preAggregations :=
    [{ name := "weekly", dimensions := ["order_date.week"], measures := ["revenue"] },
     { name := "monthly", dimensions := ["order_date.month"], measures := ["revenue"] }]

lemma weeklyOrders_accepted : validateSemantic [weeklyOrders] ["shop"] = [] := by
  decide

theorem preagg_compiles_fails : ¬ ∀ (models : List SemanticModel) (sourceNames : List String)
    (metrics : List Metric) (spine : Option TimeSpine),
    validateSemantic models sourceNames = [] → ∀ m ∈ models, ∀ p ∈ m.preAggregations,
      ∃ s, compilePreagg (SemanticCatalog.new models metrics spine) m.name p.name = .ok s ∧
        (s.items.map Prod.snd).Nodup := by
  intro h
  obtain ⟨s, hs, _⟩ := h _ _ [] none weeklyOrders_accepted _ List.mem_cons_self _
    List.mem_cons_self
  have herror : compilePreagg (SemanticCatalog.new [weeklyOrders] [] none) "orders" "weekly" =
      .error (.invalidGrain "order_date" "week") := by decide
  rw [show weeklyOrders.name = "orders" from rfl] at hs
  exact absurd (herror.symm.trans hs) (by simp)

/-- The monthly one compiles. -/
theorem monthlyPreagg_compiles :
    ∃ s, compilePreagg (SemanticCatalog.new [weeklyOrders] [] none) "orders" "monthly" = .ok s ∧
      (s.items.map Prod.snd).Nodup :=
  (preagg_compiles_iff weeklyOrders_accepted (m := weeklyOrders)
    (p := { name := "monthly", dimensions := ["order_date.month"], measures := ["revenue"] })
    List.mem_cons_self (List.mem_cons_of_mem _ List.mem_cons_self) [] none).mpr
    ⟨fun d hd g hg dim hdim => by
      rw [List.mem_singleton] at hd
      subst hd
      have hmonth : g = .month := by
        have : (parseBareDim "order_date.month").grain = some .month := by decide
        rw [this] at hg
        cases hg
        rfl
      have hdate : dim ∈ weeklyOrders.dimensions := List.mem_of_find?_eq_some hdim
      rw [weeklyOrders, List.mem_singleton] at hdate
      subst hdate hmonth
      exact ⟨rfl, .inr (by decide)⟩, by decide, by decide⟩

end Config
end Pawrly
