import Pawrly.Semantic.RollupReads

/-!
# The relations of a rollup plan

The rollup statement groups the stored buckets again and combines their partial aggregates.
Over every content of the base table its relation is that of the base statement exactly when the
filters read the same off a stored bucket as off the rows in it, and no count of a query without
dimensions depends on the rollup having a group (`relation_perm`, `countsGrouped_of_perm`,
`filtersAgree_of_perm`).
-/

namespace Pawrly
namespace Semantic

open Sql PartialAggregate

section

variable {ρ : Type*} {F : Functions} {S : Reader ρ} {root : String} {m : SemanticModel}
  {pre : PreAggregation} {q : SemanticQuery} {s sR sP : Select}

/-! ## Rows -/

/-- A group of base rows and a group of stored rows give the same row when their members have
the same values. -/
lemma RollupPlan.outputRow_congr (p : RollupPlan root m pre q s sR sP) {rows : List ρ}
    {stored : List (Row Datum)}
    (hdims : ∀ member ∈ q.dimensions, ∀ e e', baseDimItem m member = .ok (e, member) →
      rollupDimItem root member = .ok (e', member) →
      e.groupValue F S rows = e'.groupValue F rowReader stored)
    (hmeasures : ∀ member ∈ q.measures, ∀ name measure,
      rollupMeasure m member = .ok (name, measure) →
      (aggSql measure none).groupValue F S rows =
        (combineSql measure.agg (rollupCol root name)).groupValue F rowReader stored) :
    s.outputRow F S rows = sR.outputRow F rowReader stored := by
  funext name
  have hd := find?_mapM id p.baseDims_eq (fun _ _ => baseDimItem_name) name
  have hd' := find?_mapM id p.rollupDims_eq
    (fun member item h => (rollupDimItem_spec h).1) name
  have hm := find?_mapM id p.baseMeasures_eq (fun _ _ => baseMeasureItem_name) name
  have hm' := find?_mapM id p.rollupMeasures_eq (fun _ _ => rollupMeasureItem_name) name
  unfold Select.outputRow
  rw [p.items, p.rollupItems, List.find?_append, List.find?_append, hd, hd', hm, hm']
  cases hfirst : q.dimensions.find? fun member => id member = name with
  | some member =>
      have hmember := List.mem_of_find?_eq_some hfirst
      obtain ⟨item, _, hitem⟩ := Fallible.exists_of_mapM p.baseDims_eq hmember
      obtain ⟨item', _, hitem'⟩ := Fallible.exists_of_mapM p.rollupDims_eq hmember
      obtain ⟨e, member₁⟩ := item
      obtain ⟨e', member₂⟩ := item'
      cases baseDimItem_name hitem
      cases (rollupDimItem_spec hitem').1
      rw [Option.bind_some, Option.bind_some, hitem, hitem']
      exact hdims _ hmember e e' hitem hitem'
  | none =>
      cases hsecond : q.measures.find? fun member => id member = name with
      | none => rfl
      | some member =>
          have hmember := List.mem_of_find?_eq_some hsecond
          obtain ⟨item, _, hitem⟩ := Fallible.exists_of_mapM p.baseMeasures_eq hmember
          obtain ⟨item', _, hitem'⟩ := Fallible.exists_of_mapM p.rollupMeasures_eq hmember
          rw [Option.bind_some, Option.bind_some, hitem, hitem']
          obtain ⟨name₁, measure, hres, rfl⟩ := baseMeasureItem_spec hitem
          obtain ⟨name₂, measure', hres', rfl⟩ := rollupMeasureItem_spec hitem'
          rw [hres] at hres'
          cases hres'
          exact hmeasures member hmember name₁ measure hres

lemma find?_self {l : List String} {a : String} (h : a ∈ l) :
    (l.find? fun a' => id a' = a) = some a := by
  cases hn : l.find? fun a' => id a' = a with
  | none =>
      rw [List.find?_eq_none] at hn
      exact absurd (decide_eq_true rfl) (hn a h)
  | some a' =>
      have := List.find?_some hn
      rw [decide_eq_true_iff] at this
      exact congrArg some this

/-- The column of a measure of the base statement, in a query without dimensions. -/
lemma RollupPlan.baseRow_measure (p : RollupPlan root m pre q s sR sP)
    (hnil : q.dimensions = []) {member name : String} (hmember : member ∈ q.measures)
    {measure : Measure} (hmeasure : rollupMeasure m member = .ok (name, measure))
    (rows : List ρ) :
    s.outputRow F S rows member = (aggSql measure none).groupValue F S rows := by
  have hdims := (Fallible.mapM_eq_nil_iff p.baseDims_eq).mpr hnil
  have hturn : baseMeasureItem m member = .ok (aggSql measure none, member) := by
    unfold baseMeasureItem
    rw [hmeasure]
    rfl
  have hm := find?_mapM id p.baseMeasures_eq (fun _ _ => baseMeasureItem_name) member
  rw [find?_self hmember, Option.bind_some, hturn] at hm
  unfold Select.outputRow
  rw [p.items, hdims, List.nil_append, hm]
  rfl

/-- The column of a measure of the rollup statement, in a query without dimensions. -/
lemma RollupPlan.rollupRow_measure (p : RollupPlan root m pre q s sR sP)
    (hnil : q.dimensions = []) {member name : String} (hmember : member ∈ q.measures)
    {measure : Measure} (hmeasure : rollupMeasure m member = .ok (name, measure))
    (stored : List (Row Datum)) :
    sR.outputRow F rowReader stored member =
      (combineSql measure.agg (rollupCol root name)).groupValue F rowReader stored := by
  have hdims := (Fallible.mapM_eq_nil_iff p.rollupDims_eq).mpr hnil
  have hturn : rollupMeasureItem m root member =
      .ok (combineSql measure.agg (rollupCol root name), member) := by
    unfold rollupMeasureItem
    rw [hmeasure]
    rfl
  have hm := find?_mapM id p.rollupMeasures_eq (fun _ _ => rollupMeasureItem_name) member
  rw [find?_self hmember, Option.bind_some, hturn] at hm
  unfold Select.outputRow
  rw [p.rollupItems, hdims, List.nil_append, hm]
  rfl

/-! ## Measures -/

lemma safe_cases {agg : MeasureAgg} (h : isRollupSafe agg = true) :
    agg = .sum ∨ agg = .count ∨ agg = .min ∨ agg = .max := by
  cases agg <;> simp_all [isRollupSafe]

/-- What a stored partial is combined with. -/
lemma combineSql_groupValue {agg : MeasureAgg} (hagg : isRollupSafe agg = true) (name : String)
    (stored : List (Row Datum)) :
    (combineSql agg (rollupCol root name)).groupValue F rowReader stored =
      aggregateOf rowReader stored (combineAgg agg)
        ((stored.map fun row => row name).filterMap id) := by
  rw [List.filterMap_map]
  rcases safe_cases hagg with rfl | rfl | rfl | rfl <;> rfl

lemma aggSql_groupValue {measure : Measure} (hagg : isRollupSafe measure.agg = true)
    (rows rows' : List ρ) :
    (aggSql measure none).groupValue F S rows = aggregateOf S rows' measure.agg
      (rows.filterMap (contribution F S (qualify measure.expr none) measure.filters)) := by
  unfold aggSql
  rw [SqlExpr.groupValue]
  rcases safe_cases hagg with h | h | h | h <;> rw [h] <;> rfl

/-- The combined partials of the kept buckets are the measure over the rows in them. -/
lemma RollupPlan.measure_combined (p : RollupPlan root m pre q s sR sP)
    (hnodup : sP.outputs.Nodup) {name : String} (hname : name ∈ pre.measures)
    {measure : Measure} (hmeasure : findMeasure m name = some measure)
    (hagg : isRollupSafe measure.agg = true) {T : List ρ} {keep : List Value → Bool}
    (hkeep : (groupKeys (sP.keyAt F S) T).filter keep ≠ [] ∨ measure.agg ≠ .count) :
    (combineSql measure.agg (rollupCol root name)).groupValue F rowReader
        (((groupKeys (sP.keyAt F S) T).filter keep).map (bucketRow F S sP T)) =
      (aggSql measure none).groupValue F S (T.filter fun b => keep (sP.keyAt F S b)) := by
  have hcolumn : ∀ k, bucketRow F S sP T k name =
      aggregateOf S T measure.agg ((group (sP.keyAt F S) T k).filterMap
        (contribution F S (qualify measure.expr none) measure.filters)) := fun k => by
    unfold bucketRow
    rw [p.preRow_measure hnodup hname hmeasure, aggSql_groupValue hagg _ T]
  rw [combineSql_groupValue hagg, List.map_map, aggSql_groupValue hagg _ T]
  simp only [Function.comp_def, hcolumn]
  refine combine_partials (decomposes_aggregateOf S rowReader T _ (safe_cases hagg)) ?_
  refine hkeep.imp_right fun hcount => ?_
  rcases safe_cases hagg with h | h | h | h <;> rw [h]
  · rfl
  · exact absurd h hcount
  · rfl
  · rfl

/-- The same for the one bucket of a rollup without dimensions. -/
lemma RollupPlan.measure_single (p : RollupPlan root m pre q s sR sP)
    (hnodup : sP.outputs.Nodup) {name : String} (hname : name ∈ pre.measures)
    {measure : Measure} (hmeasure : findMeasure m name = some measure)
    (hagg : isRollupSafe measure.agg = true) (T : List ρ) :
    (combineSql measure.agg (rollupCol root name)).groupValue F rowReader [sP.outputRow F S T] =
      (aggSql measure none).groupValue F S T := by
  rw [combineSql_groupValue hagg, aggSql_groupValue hagg T T]
  rw [List.map_singleton, p.preRow_measure hnodup hname hmeasure, aggSql_groupValue hagg T T]
  have h := (decomposes_aggregateOf S rowReader T [sP.outputRow F S T]
    (safe_cases hagg)).flatten
    [T.filterMap (contribution F S (qualify measure.expr none) measure.filters)]
    (List.cons_ne_nil _ _)
  rw [List.flatten_singleton] at h
  exact h

/-- A measure that is `NULL` on a row alone does not see the row. -/
lemma contribution_of_measureAlone {member name : String} {measure : Measure}
    (hmeasure : rollupMeasure m member = .ok (name, measure))
    (hagg : isRollupSafe measure.agg = true) {b : ρ}
    (h : measureAlone F S m member b = none) :
    contribution F S (qualify measure.expr none) measure.filters b = none := by
  unfold measureAlone at h
  rw [hmeasure] at h
  dsimp only at h
  rw [aggSql_groupValue hagg [b] [b]] at h
  cases hc : contribution F S (qualify measure.expr none) measure.filters b with
  | none => rfl
  | some d =>
      rw [List.filterMap_cons_some hc, List.filterMap_nil] at h
      rcases safe_cases hagg with ha | ha | ha | ha <;> rw [ha] at h <;> cases h

/-! ## Groups -/

/-- The filters of a rollup row are those of the bucket of its rows. -/
lemma RollupPlan.bucket_passes (p : RollupPlan root m pre q s sR sP) (hcov : covers pre q = true)
    {T : List ρ} {b : ρ} (hb : b ∈ T) :
    bucketPasses F S sR sP T (sP.keyAt F S b) = passesRollup F S root m pre q b := by
  unfold bucketPasses passesRollup
  rw [p.rollupWheres_all, Bool.eq_iff_iff, List.all_eq_true, List.all_eq_true]
  refine forall₂_congr fun f hf => ?_
  have hread : rollupValue F S root m pre f.member b = _ :=
    rollup_read_congr fun name grain? hparts => by
      obtain ⟨d, hd, rfl⟩ := covers_filter hcov hf hparts
      exact (p.preRow_dim hb hd).symm
  rw [hread]

/-- A rollup row is grouped as the rows of its bucket are. -/
lemma RollupPlan.bucket_key (p : RollupPlan root m pre q s sR sP) (hroot : '.' ∉ root.toList)
    (hnodup : sP.outputs.Nodup) (hcov : covers pre q = true) {T : List ρ} {b : ρ} (hb : b ∈ T) :
    sR.keyAt F rowReader (bucketRow F S sP T (sP.keyAt F S b)) = s.keyAt F S b := by
  rw [p.keyAt_rollup, p.keyAt_base]
  refine List.map_congr_left fun member hmember => ?_
  rw [← p.rollupValue_eq hroot hnodup hcov hmember b]
  refine rollup_read_congr fun name grain? hparts => ?_
  obtain ⟨d, hd, rfl, _⟩ := covers_dimension hcov hmember hparts
  exact p.preRow_dim hb hd

lemma RollupPlan.groupBy_eq_nil (p : RollupPlan root m pre q s sR sP) :
    (s.groupBy = [] ↔ q.dimensions = []) ∧ (sR.groupBy = [] ↔ q.dimensions = []) ∧
      (sP.groupBy = [] ↔ pre.dimensions = []) := by
  rw [p.groupBy, p.rollupGroupBy, p.preGroupBy, List.map_eq_nil_iff, List.map_eq_nil_iff,
    List.map_eq_nil_iff]
  exact ⟨Fallible.mapM_eq_nil_iff p.baseDims_eq, Fallible.mapM_eq_nil_iff p.rollupDims_eq,
    Fallible.mapM_eq_nil_iff p.preDims_eq⟩

/-- Only a query without dimensions and filters is covered by a rollup without dimensions. -/
lemma covers_nil (hcov : covers pre q = true) (hnil : pre.dimensions = []) :
    q.dimensions = [] ∧ q.filters = [] := by
  unfold covers at hcov
  simp only [hnil, List.map_nil, List.any_nil, Bool.and_eq_true, List.all_eq_true] at hcov
  constructor
  · exact List.eq_nil_iff_forall_not_mem.mpr fun d hd => Bool.false_ne_true (hcov.1.1 d hd)
  · exact List.eq_nil_iff_forall_not_mem.mpr fun f hf => Bool.false_ne_true (hcov.1.2 f hf)

/-- The rows of a statement without aggregate-level conditions. -/
lemma relation_of_no_havings {σ : Type*} {R : Reader σ} {s : Select} (h : s.havings = [])
    (T : List σ) : s.relation F R T = (s.groups F R T).map (s.outputRow F R) := by
  unfold Select.relation
  rw [h]
  simp

/-- The rows of the rollup. -/
lemma RollupPlan.stored (p : RollupPlan root m pre q s sR sP) (T : List ρ) :
    sP.relation F S T =
      if pre.dimensions = [] then [sP.outputRow F S T]
      else (groupKeys (sP.keyAt F S) T).map (bucketRow F S sP T) := by
  have hpassing : sP.passing F S T = T := by
    unfold Select.passing
    rw [p.preWheres]
    simp
  rw [relation_of_no_havings p.preHavings]
  unfold Select.groups
  rw [hpassing]
  by_cases hnil : pre.dimensions = []
  · rw [if_pos hnil, if_pos (p.groupBy_eq_nil.2.2.mpr hnil)]
    rfl
  · rw [if_neg hnil, if_neg (fun h => hnil (p.groupBy_eq_nil.2.2.mp h)), List.map_map]
    rfl

/-- The rows the base statement aggregates. -/
lemma RollupPlan.passing_base (p : RollupPlan root m pre q s sR sP) (T : List ρ) :
    s.passing F S T = T.filter fun b => passesBase F S m q b :=
  List.filter_congr fun b _ => p.wheres_all b

/-- The buckets the rollup statement aggregates. -/
lemma RollupPlan.passing_rollup (p : RollupPlan root m pre q s sR sP)
    (hne : pre.dimensions ≠ []) (T : List ρ) :
    sR.passing F rowReader (sP.relation F S T) =
      ((groupKeys (sP.keyAt F S) T).filter (bucketPasses F S sR sP T)).map
        (bucketRow F S sP T) := by
  rw [p.stored, if_neg hne]
  unfold Select.passing
  rw [List.filter_map]
  rfl

/-- Without dimensions each side is one row. -/
lemma RollupPlan.relations_single (p : RollupPlan root m pre q s sR sP)
    (hdims : q.dimensions = []) (T : List ρ) :
    s.relation F S T = [s.outputRow F S (T.filter fun b => passesBase F S m q b)] ∧
      sR.relation F rowReader (sP.relation F S T) =
        [sR.outputRow F rowReader (sR.passing F rowReader (sP.relation F S T))] := by
  rw [relation_of_no_havings p.havings, relation_of_no_havings p.rollupHavings]
  unfold Select.groups
  rw [if_pos (p.groupBy_eq_nil.1.mpr hdims), if_pos (p.groupBy_eq_nil.2.1.mpr hdims),
    p.passing_base]
  exact ⟨rfl, rfl⟩

/-- With dimensions each side has one row for each of its groups. -/
lemma RollupPlan.relations_grouped (p : RollupPlan root m pre q s sR sP)
    (hdims : q.dimensions ≠ []) (T : List ρ) :
    s.relation F S T =
      (groupKeys (s.keyAt F S) (T.filter fun b => passesBase F S m q b)).map (fun k =>
        s.outputRow F S (group (s.keyAt F S) (T.filter fun b => passesBase F S m q b) k)) ∧
    sR.relation F rowReader (sP.relation F S T) =
      (groupKeys (sR.keyAt F rowReader) (sR.passing F rowReader (sP.relation F S T))).map
        (fun k => sR.outputRow F rowReader
          (group (sR.keyAt F rowReader) (sR.passing F rowReader (sP.relation F S T)) k)) := by
  rw [relation_of_no_havings p.havings, relation_of_no_havings p.rollupHavings]
  unfold Select.groups
  rw [if_neg (fun h => hdims (p.groupBy_eq_nil.1.mp h)),
    if_neg (fun h => hdims (p.groupBy_eq_nil.2.1.mp h)), List.map_map, List.map_map,
    p.passing_base]
  exact ⟨rfl, rfl⟩

/-! ## The condition is enough -/

/-- Every measure of the query can be computed from stored partial values. -/
def MeasuresSafe (m : SemanticModel) (q : SemanticQuery) : Prop :=
  ∀ member ∈ q.measures, ∃ name measure, measureMemberName member = some name ∧
    findMeasure m name = some measure ∧ isRollupSafe measure.agg = true

lemma MeasuresSafe.stored (hsafe : MeasuresSafe m q) (hcov : covers pre q = true)
    {member name : String} (hmember : member ∈ q.measures) {measure : Measure}
    (h : rollupMeasure m member = .ok (name, measure)) :
    name ∈ pre.measures ∧ findMeasure m name = some measure ∧
      isRollupSafe measure.agg = true := by
  obtain ⟨hname, hfind⟩ := rollupMeasure_spec h
  obtain ⟨name', measure', hname', hfind', hagg⟩ := hsafe member hmember
  rw [hname] at hname'
  cases hname'
  rw [hfind] at hfind'
  cases hfind'
  exact ⟨covers_measure hcov hmember hname, hfind, hagg⟩

/-- A measure over the kept buckets, when a bucket is kept as its rows are. -/
lemma RollupPlan.measure_kept (p : RollupPlan root m pre q s sR sP)
    (hnodup : sP.outputs.Nodup) (hcov : covers pre q = true) (hsafe : MeasuresSafe m q)
    {member name : String} (hmember : member ∈ q.measures) {measure : Measure}
    (hmeasure : rollupMeasure m member = .ok (name, measure)) {T : List ρ}
    {keep : List Value → Bool} {passes : ρ → Bool}
    (hkeep : (groupKeys (sP.keyAt F S) T).filter keep ≠ [] ∨ measure.agg ≠ .count)
    (hpasses : ∀ b ∈ T, passes b = keep (sP.keyAt F S b) ∨
      measureAlone F S m member b = none) :
    (aggSql measure none).groupValue F S (T.filter passes) =
      (combineSql measure.agg (rollupCol root name)).groupValue F rowReader
        (((groupKeys (sP.keyAt F S) T).filter keep).map (bucketRow F S sP T)) := by
  obtain ⟨hname, hfind, hagg⟩ := hsafe.stored hcov hmember hmeasure
  rw [p.measure_combined hnodup hname hfind hagg hkeep, aggSql_groupValue hagg _ T,
    aggSql_groupValue hagg _ T]
  refine congrArg _ (filterMap_filter_congr fun b hb => ?_)
  exact (hpasses b hb).imp_right (contribution_of_measureAlone hmeasure hagg)

/-- A rollup without dimensions: its one row answers a query without dimensions and filters. -/
lemma RollupPlan.relation_eq_undivided (p : RollupPlan root m pre q s sR sP)
    (hnodup : sP.outputs.Nodup) (hcov : covers pre q = true) (hsafe : MeasuresSafe m q)
    (hpre : pre.dimensions = []) (T : List ρ) :
    s.relation F S T = sR.relation F rowReader (sP.relation F S T) := by
  obtain ⟨hdims, hfilters⟩ := covers_nil hcov hpre
  have hall : (T.filter fun b => passesBase F S m q b) = T := by
    refine List.filter_eq_self.mpr fun b _ => ?_
    unfold passesBase
    rw [hfilters]
    rfl
  have hstored : sR.passing F rowReader (sP.relation F S T) = [sP.outputRow F S T] := by
    have hwheres := p.rollupWheres
    rw [hfilters] at hwheres
    unfold Select.passing
    rw [← Except.ok.inj hwheres, p.stored, if_pos hpre]
    rfl
  obtain ⟨hbase, hrollup⟩ := p.relations_single (F := F) (S := S) hdims T
  rw [hbase, hrollup, hall, hstored]
  refine congrArg (fun r => [r]) (p.outputRow_congr ?_ ?_)
  · rw [hdims]
    exact fun member hmember => absurd hmember List.not_mem_nil
  · intro member hmember name measure hmeasure
    obtain ⟨hname, hfind, hagg⟩ := hsafe.stored hcov hmember hmeasure
    exact (p.measure_single hnodup hname hfind hagg T).symm

/-- A query without dimensions over a rollup with some: one group on each side. -/
lemma RollupPlan.relation_eq_total (p : RollupPlan root m pre q s sR sP)
    (hnodup : sP.outputs.Nodup) (hcov : covers pre q = true) (hsafe : MeasuresSafe m q)
    (hpre : pre.dimensions ≠ []) (hdims : q.dimensions = [])
    (hagree : FiltersAgree F S root m pre q) (hcounts : CountsGrouped m pre q) (T : List ρ) :
    s.relation F S T = sR.relation F rowReader (sP.relation F S T) := by
  obtain ⟨hbase, hrollup⟩ := p.relations_single (F := F) (S := S) hdims T
  rw [hbase, hrollup, p.passing_rollup hpre]
  refine congrArg (fun r => [r]) (p.outputRow_congr ?_ ?_)
  · rw [hdims]
    exact fun member hmember => absurd hmember List.not_mem_nil
  · intro member hmember name measure hmeasure
    refine p.measure_kept hnodup hcov hsafe hmember hmeasure
      (.inr (hcounts hdims hpre member hmember name measure hmeasure)) fun b hb => ?_
    rw [p.bucket_passes hcov hb]
    exact (hagree b).imp_right fun h => h.2 member hmember

section Grouped

variable (p : RollupPlan root m pre q s sR sP) (hroot : '.' ∉ root.toList)
  (hnodup : sP.outputs.Nodup) (hcov : covers pre q = true)
  (hsame : ∀ b : ρ, passesBase F S m q b = passesRollup F S root m pre q b) (T : List ρ)
include p hroot hnodup hcov hsame

/-- The groups of the rollup statement are those of the base statement. -/
lemma RollupPlan.mem_groupKeys_iff (k : List Value) :
    k ∈ groupKeys (s.keyAt F S) (T.filter fun b => passesBase F S m q b) ↔
      k ∈ groupKeys (sR.keyAt F rowReader)
        (((groupKeys (sP.keyAt F S) T).filter (bucketPasses F S sR sP T)).map
          (bucketRow F S sP T)) := by
  rw [mem_groupKeys, mem_groupKeys]
  constructor
  · rintro ⟨b, hb, rfl⟩
    obtain ⟨hb, hpass⟩ := List.mem_filter.mp hb
    rw [hsame, ← p.bucket_passes hcov hb] at hpass
    refine ⟨_, List.mem_map_of_mem (List.mem_filter.mpr
      ⟨mem_groupKeys.mpr ⟨b, hb, rfl⟩, hpass⟩), p.bucket_key hroot hnodup hcov hb⟩
  · rintro ⟨row, hrow, rfl⟩
    obtain ⟨kP, hkP, rfl⟩ := List.mem_map.mp hrow
    obtain ⟨hkP, hpass⟩ := List.mem_filter.mp hkP
    obtain ⟨b, hb, rfl⟩ := mem_groupKeys.mp hkP
    rw [p.bucket_passes hcov hb, ← hsame] at hpass
    exact ⟨b, List.mem_filter.mpr ⟨hb, hpass⟩, (p.bucket_key hroot hnodup hcov hb).symm⟩

/-- A group has the same row on both sides. -/
lemma RollupPlan.outputRow_group (hsafe : MeasuresSafe m q) {k : List Value}
    (hk : k ∈ groupKeys (s.keyAt F S) (T.filter fun b => passesBase F S m q b)) :
    s.outputRow F S (group (s.keyAt F S) (T.filter fun b => passesBase F S m q b) k) =
      sR.outputRow F rowReader (group (sR.keyAt F rowReader)
        (((groupKeys (sP.keyAt F S) T).filter (bucketPasses F S sR sP T)).map
          (bucketRow F S sP T)) k) := by
  obtain ⟨b, hb, hbk, hbhead⟩ := exists_head_group hk
  obtain ⟨row, hrow, hrowk, hrowhead⟩ := exists_head_group
    ((p.mem_groupKeys_iff hroot hnodup hcov hsame T k).mp hk)
  refine p.outputRow_congr ?_ ?_
  · -- a dimension has the same value on every row of the group
    intro member hmember e e' hitem hitem'
    obtain ⟨_, hres, hvalue⟩ := baseDimItem_spec (ρ := ρ) (F := F) (S := S) hitem
    have hres' := (rollupDimItem_spec hitem').2
    rw [groupValue_head F S _ fun agg arg filters heq =>
        resolveDimensionExpr_not_aggregate (heq ▸ hres),
      groupValue_head F rowReader _ fun agg arg filters heq =>
        rollupDimExpr_not_aggregate (heq ▸ hres'), hbhead, hrowhead, Option.bind_some,
      Option.bind_some, hvalue]
    rw [← hrowk, p.keyAt_base, p.keyAt_rollup] at hbk
    have hread := List.map_inj_left.mp hbk member hmember
    rw [hres'] at hread
    exact hread
  · intro member hmember name measure hmeasure
    have hgroup : group (sR.keyAt F rowReader)
        (((groupKeys (sP.keyAt F S) T).filter (bucketPasses F S sR sP T)).map
          (bucketRow F S sP T)) k =
        ((groupKeys (sP.keyAt F S) T).filter fun kP =>
          decide (sR.keyAt F rowReader (bucketRow F S sP T kP) = k) &&
            bucketPasses F S sR sP T kP).map (bucketRow F S sP T) := by
      unfold group
      rw [List.filter_map, List.filter_filter]
      rfl
    have hbase : group (s.keyAt F S) (T.filter fun b => passesBase F S m q b) k =
        T.filter fun b => decide (s.keyAt F S b = k) && passesBase F S m q b := by
      unfold group
      rw [List.filter_filter]
    rw [hgroup, hbase]
    refine p.measure_kept hnodup hcov hsafe hmember hmeasure (.inl ?_) fun b hb => .inl ?_
    · intro hnil
      have hmem : row ∈ group (sR.keyAt F rowReader) _ k := mem_group.mpr ⟨hrow, hrowk⟩
      rw [hgroup, hnil] at hmem
      cases hmem
    · rw [p.bucket_key hroot hnodup hcov hb, p.bucket_passes hcov hb, hsame]

/-- A query with dimensions: the same groups with the same rows. -/
lemma RollupPlan.relation_perm_grouped (hsafe : MeasuresSafe m q) (hdims : q.dimensions ≠ []) :
    (s.relation F S T).Perm (sR.relation F rowReader (sP.relation F S T)) := by
  have hpre : pre.dimensions ≠ [] := fun h => hdims (covers_nil hcov h).1
  obtain ⟨hbase, hrollup⟩ := p.relations_grouped (F := F) (S := S) hdims T
  rw [hbase, hrollup, p.passing_rollup hpre]
  have hkeys := (List.perm_ext_iff_of_nodup (groupKeys_nodup _ _) (groupKeys_nodup _ _)).mpr
    (p.mem_groupKeys_iff hroot hnodup hcov hsame T)
  refine List.Perm.trans (List.Perm.of_eq (List.map_congr_left fun k hk => ?_)) (hkeys.map _)
  exact p.outputRow_group hroot hnodup hcov hsame T hsafe hk

end Grouped

/-- **The statements agree** when the filters do and counts are grouped. -/
theorem RollupPlan.relation_perm (p : RollupPlan root m pre q s sR sP)
    (hroot : '.' ∉ root.toList) (hnodup : sP.outputs.Nodup) (hcov : covers pre q = true)
    (hsafe : MeasuresSafe m q) (hagree : FiltersAgree F S root m pre q)
    (hcounts : CountsGrouped m pre q) (T : List ρ) :
    (s.relation F S T).Perm (sR.relation F rowReader (sP.relation F S T)) := by
  by_cases hdims : q.dimensions = []
  · by_cases hpre : pre.dimensions = []
    · exact .of_eq (p.relation_eq_undivided hnodup hcov hsafe hpre T)
    · exact .of_eq (p.relation_eq_total hnodup hcov hsafe hpre hdims hagree hcounts T)
  · exact p.relation_perm_grouped hroot hnodup hcov
      (fun b => (hagree b).resolve_right fun h => hdims h.1) T hsafe hdims

/-! ## The condition is necessary -/

/-- Over the empty table a count is zero, over its rollup `NULL`. -/
lemma RollupPlan.countsGrouped_of_perm (p : RollupPlan root m pre q s sR sP)
    (hperm : (s.relation F S ([] : List ρ)).Perm
      (sR.relation F rowReader (sP.relation F S []))) : CountsGrouped m pre q := by
  intro hdims hpre member hmember name measure hmeasure hcount
  obtain ⟨hbase, hrollup⟩ := p.relations_single (F := F) (S := S) hdims []
  rw [hbase, hrollup, p.passing_rollup hpre] at hperm
  have hrow := congrFun (List.singleton_perm_singleton.mp hperm) member
  rw [p.baseRow_measure hdims hmember hmeasure, p.rollupRow_measure hdims hmember hmeasure,
    hcount] at hrow
  unfold aggSql at hrow
  rw [hcount] at hrow
  cases hrow

/-- A row the two statements filter differently. -/
lemma RollupPlan.filtersAgree_of_perm (p : RollupPlan root m pre q s sR sP)
    (hnodup : sP.outputs.Nodup) (hcov : covers pre q = true) (hsafe : MeasuresSafe m q)
    (hcounts : CountsGrouped m pre q)
    (hperm : ∀ b : ρ, (s.relation F S [b]).Perm
      (sR.relation F rowReader (sP.relation F S [b]))) : FiltersAgree F S root m pre q := by
  intro b
  by_contra hnot
  obtain ⟨hpasses, hseen⟩ := not_or.mp hnot
  have hpre : pre.dimensions ≠ [] := fun h => hpasses (by
    unfold passesBase passesRollup
    rw [(covers_nil hcov h).2]
    rfl)
  have hfilter : ∀ f : ρ → Bool, [b].filter f = bif f b then [b] else [] := fun f =>
    List.filter_singleton
  have hkept : (groupKeys (sP.keyAt F S) [b]).filter (bucketPasses F S sR sP [b]) =
      bif passesRollup F S root m pre q b then [sP.keyAt F S b] else [] := by
    rw [← p.bucket_passes hcov List.mem_cons_self]
    exact List.filter_singleton
  by_cases hdims : q.dimensions = []
  · -- a measure that sees the row tells the two apart
    obtain ⟨member, hmember, halone⟩ : ∃ member ∈ q.measures,
        measureAlone F S m member b ≠ none := by
      by_contra hnone
      exact hseen ⟨hdims, fun member hmember => by_contra fun h => hnone ⟨member, hmember, h⟩⟩
    obtain ⟨item, _, hitem⟩ := Fallible.exists_of_mapM p.baseMeasures_eq hmember
    obtain ⟨name, measure, hmeasure, _⟩ := baseMeasureItem_spec hitem
    have hcount := hcounts hdims hpre member hmember name measure hmeasure
    obtain ⟨_, _, hagg⟩ := hsafe.stored hcov hmember hmeasure
    obtain ⟨hbase, hrollup⟩ := p.relations_single (F := F) (S := S) hdims [b]
    have hrows := hperm b
    rw [hbase, hrollup, p.passing_rollup hpre] at hrows
    have hrow := congrFun (List.singleton_perm_singleton.mp hrows) member
    have hkeep : ∀ b' ∈ [b], passesRollup F S root m pre q b' =
        bucketPasses F S sR sP [b] (sP.keyAt F S b') ∨ measureAlone F S m member b' = none :=
      fun b' hb' => .inl (p.bucket_passes hcov hb').symm
    rw [p.baseRow_measure hdims hmember hmeasure, p.rollupRow_measure hdims hmember hmeasure,
      ← p.measure_kept hnodup hcov hsafe hmember hmeasure (.inr hcount) hkeep, hfilter,
      hfilter] at hrow
    have hempty : (aggSql measure none).groupValue F S ([] : List ρ) = none := by
      rw [aggSql_groupValue hagg [] []]
      rcases safe_cases hagg with h | h | h | h
      · rw [h]; rfl
      · exact absurd h hcount
      · rw [h]; rfl
      · rw [h]; rfl
    have hone : (aggSql measure none).groupValue F S [b] ≠ none := by
      unfold measureAlone at halone
      rw [hmeasure] at halone
      exact halone
    revert hrow
    cases hB : passesBase F S m q b <;> cases hR : passesRollup F S root m pre q b
    · exact fun _ => hpasses (hB.trans hR.symm)
    · exact fun hrow => hone (hrow.symm.trans hempty)
    · exact fun hrow => hone (hrow.trans hempty)
    · exact fun _ => hpasses (hB.trans hR.symm)
  · -- the row is there on one side only
    obtain ⟨hbase, hrollup⟩ := p.relations_grouped (F := F) (S := S) hdims [b]
    have hlen := (hperm b).length_eq
    rw [hbase, hrollup, p.passing_rollup hpre, hkept, List.length_map, List.length_map, hfilter]
      at hlen
    revert hlen
    cases hB : passesBase F S m q b <;> cases hR : passesRollup F S root m pre q b
    · exact fun _ => hpasses (hB.trans hR.symm)
    · exact fun hlen => by cases hlen
    · exact fun hlen => by cases hlen
    · exact fun _ => hpasses (hB.trans hR.symm)

end

end Semantic
end Pawrly
