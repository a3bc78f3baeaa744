import Pawrly.Semantic.RollupPlan
import Pawrly.Semantic.Scoping
import Pawrly.Semantic.FanOut
import Pawrly.Sql.Aggregate

/-!
# Reading a rollup

A rollup holds the groups of its pre-aggregation with partial aggregates.  Which stored column
a member of a covered query is read from, and what it has on the bucket of a row of the base
table: a grouped member has the value it has on the row itself (`rollupValue_eq`), a filtered
member need not.
-/

namespace Pawrly
namespace Semantic

open Sql PartialAggregate

section

variable {ρ : Type*} (F : Functions) (S : Reader ρ)

/-! ## Values of members -/

/-- A dimension member on a row of the base table. -/
def memberValue (m : SemanticModel) (member : String) (b : ρ) : Value :=
  match resolveDimensionExpr m member none none with
  | .ok e => e.value F S b
  | .error _ => none

/-- The dimension columns of the bucket a row of the base table falls into. -/
def storedRow (root : String) (m : SemanticModel) (pre : PreAggregation) (b : ρ) : Row Datum :=
  fun name => (pre.dimensions.find? fun d => bareName d = name).bind fun d =>
    memberValue F S m (root ++ "." ++ d) b

/-- A dimension member read off the bucket of a row of the base table. -/
def rollupValue (root : String) (m : SemanticModel) (pre : PreAggregation) (member : String)
    (b : ρ) : Value :=
  match rollupDimExpr root member with
  | .ok e => e.value F rowReader (storedRow F S root m pre b)
  | .error _ => none

/-- The row of the rollup for a bucket of the base table. -/
def bucketRow (sP : Select) (T : List ρ) (k : List Value) : Row Datum :=
  sP.outputRow F S (group (sP.keyAt F S) T k)

/-- The conditions of the rollup statement on the row of a bucket. -/
def bucketPasses (sR sP : Select) (T : List ρ) (k : List Value) : Bool :=
  sR.wheres.all fun c => c.holds F rowReader (bucketRow F S sP T k)

/-- The test a dimension filter makes of a value. -/
def filterTest (f : SemanticFilter) (v : Value) : Bool :=
  match applyOp (.raw "") f false with
  | .ok c => c.test F v
  | .error _ => false

/-- The filters of the query on a row of the base table. -/
def passesBase (m : SemanticModel) (q : SemanticQuery) (b : ρ) : Bool :=
  q.filters.all fun f => filterTest F f (memberValue F S m f.member b)

/-- The filters of the query on the bucket of a row of the base table. -/
def passesRollup (root : String) (m : SemanticModel) (pre : PreAggregation) (q : SemanticQuery)
    (b : ρ) : Bool :=
  q.filters.all fun f => filterTest F f (rollupValue F S root m pre f.member b)

/-- A measure over one row of the base table. -/
def measureAlone (m : SemanticModel) (member : String) (b : ρ) : Value :=
  match rollupMeasure m member with
  | .ok (_, measure) => (aggSql measure none).groupValue F S [b]
  | .error _ => none

/-- The filters let the same rows through on the base table and on the buckets, except for
rows that no measure of a query without dimensions sees. -/
def FiltersAgree (root : String) (m : SemanticModel) (pre : PreAggregation)
    (q : SemanticQuery) : Prop :=
  ∀ b : ρ, passesBase F S m q b = passesRollup F S root m pre q b ∨
    (q.dimensions = [] ∧ ∀ member ∈ q.measures, measureAlone F S m member b = none)

/-- A query without dimensions counts only over a rollup without dimensions. -/
def CountsGrouped (m : SemanticModel) (pre : PreAggregation) (q : SemanticQuery) : Prop :=
  q.dimensions = [] → pre.dimensions ≠ [] → ∀ member ∈ q.measures, ∀ name measure,
    rollupMeasure m member = .ok (name, measure) → measure.agg ≠ .count

end

/-! ## Conditions and keys of the statements -/

/-- Replace the expression a condition tests. -/
def setExpr (e : SqlExpr) : SqlCond → SqlCond
  | .cmp _ op v => .cmp e op v
  | .inList _ negated vs => .inList e negated vs
  | .between _ lo hi => .between e lo hi
  | .like _ pattern => .like e pattern
  | .isNull _ negated => .isNull e negated
  | .raw text => .raw text

lemma applyOp_setExpr (e e' : SqlExpr) (f : SemanticFilter) (numeric : Bool) :
    applyOp e' f numeric = (applyOp e f numeric).map (setExpr e') := by
  have hone : ∀ g : SqlExpr → String → SqlCond, (∀ v, g e' v = setExpr e' (g e v)) →
      (do let v ← oneValue f; (.ok (g e' v) : Except SemanticError SqlCond)) =
        (do let v ← oneValue f; (.ok (g e v) : Except SemanticError SqlCond)).map
          (setExpr e') := by
    intro g hg
    cases oneValue f with
    | error err => rfl
    | ok v => exact congrArg Except.ok (hg v)
  unfold applyOp
  cases f.op with
  | equals => exact hone (fun e v => .cmp e .eq (scalarLit v numeric)) fun _ => rfl
  | notEquals => exact hone (fun e v => .cmp e .ne (scalarLit v numeric)) fun _ => rfl
  | gt => exact hone (fun e v => .cmp e .gt (scalarLit v numeric)) fun _ => rfl
  | gte => exact hone (fun e v => .cmp e .ge (scalarLit v numeric)) fun _ => rfl
  | lt => exact hone (fun e v => .cmp e .lt (scalarLit v numeric)) fun _ => rfl
  | lte => exact hone (fun e v => .cmp e .le (scalarLit v numeric)) fun _ => rfl
  | inList => dsimp only; split_ifs <;> rfl
  | notIn => dsimp only; split_ifs <;> rfl
  | inRange => dsimp only; split <;> rfl
  | contains => exact hone (fun e v => .like e ("%" ++ v ++ "%")) fun _ => rfl
  | startsWith => exact hone (fun e v => .like e (v ++ "%")) fun _ => rfl
  | endsWith => exact hone (fun e v => .like e ("%" ++ v)) fun _ => rfl
  | isNull => rfl
  | isNotNull => rfl

/-- A filter's condition tests the value of its expression as the filter does. -/
lemma holds_applyOp {ρ : Type*} (F : Functions) (S : Reader ρ) {e : SqlExpr}
    {f : SemanticFilter} {c : SqlCond} (h : applyOp e f false = .ok c) (b : ρ) :
    c.holds F S b = filterTest F f (e.value F S b) := by
  have hexpr := applyOp_expr h
  rw [applyOp_setExpr (.raw "") e] at h
  unfold filterTest
  cases hc : applyOp (.raw "") f false with
  | error err =>
      rw [hc] at h
      cases h
  | ok c₀ =>
      rw [hc] at h
      cases h
      cases c₀ with
      | raw text => cases hexpr
      | cmp e₀ op v => rfl
      | inList e₀ negated vs => cases negated <;> rfl
      | between e₀ lo hi => rfl
      | like e₀ pattern => rfl
      | isNull e₀ negated => rfl

/-- The first item of a name comes from the first input of that name. -/
lemma find?_mapM {α : Type} {f : α → Except SemanticError (SqlExpr × String)} (key : α → String)
    {l : List α} {items : List (SqlExpr × String)} (h : l.mapM f = .ok items)
    (hkey : ∀ a item, f a = .ok item → item.2 = key a) (name : String) :
    (items.find? fun item => item.2 = name) =
      (l.find? fun a => key a = name).bind fun a => (f a).toOption := by
  have h₂ := Fallible.mapM_eq_ok_iff.mp h
  clear h
  induction h₂ with
  | nil => rfl
  | @cons a item l items hturn _ ih =>
      have hname := hkey a item hturn
      by_cases hn : key a = name
      · rw [List.find?_cons_of_pos (by simpa [hname] using hn),
          List.find?_cons_of_pos (by simpa using hn), Option.bind_some, hturn]
        rfl
      · rw [List.find?_cons_of_neg (by simpa [hname] using hn),
          List.find?_cons_of_neg (by simpa using hn), ih]

/-- An expression without an aggregate has on a group the value of its first row. -/
lemma groupValue_head {ρ : Type*} (F : Functions) (S : Reader ρ) (rows : List ρ) {e : SqlExpr}
    (h : ∀ agg arg filters, e ≠ .aggregate agg arg filters) :
    e.groupValue F S rows = rows.head?.bind fun r => e.value F S r := by
  cases e with
  | aggregate agg arg filters => exact absurd rfl (h agg arg filters)
  | raw text => rfl
  | field model name => rfl
  | column c => rfl
  | dateTrunc grain arg => rfl
  | atTimeZone arg zone => rfl
  | coalesce args => rfl

lemma rollupDimExpr_not_aggregate {root member : String} {agg : MeasureAgg} {arg : SqlExpr}
    {filters : List String} : rollupDimExpr root member ≠ .ok (.aggregate agg arg filters) := by
  intro h
  obtain ⟨⟨dim, grain?⟩, _, h⟩ := Fallible.bind_eq_ok.mp h
  dsimp only at h
  split at h
  · cases h
  · split at h
    · cases h
    · cases h

lemma baseDimItem_name {m : SemanticModel} {member : String} {item : SqlExpr × String}
    (h : baseDimItem m member = .ok item) : item.2 = member := by
  obtain ⟨e, _, heq⟩ := Fallible.bind_eq_ok.mp h
  cases heq
  rfl

section

variable {ρ : Type*} {F : Functions} {S : Reader ρ} {root : String} {m : SemanticModel}
  {pre : PreAggregation} {q : SemanticQuery} {s sR sP : Select}

lemma baseDimItem_spec {member : String} {item : SqlExpr × String}
    (h : baseDimItem m member = .ok item) : item.2 = member ∧
      resolveDimensionExpr m member none none = .ok item.1 ∧
      ∀ b : ρ, item.1.value F S b = memberValue F S m member b := by
  obtain ⟨e, he, heq⟩ := Fallible.bind_eq_ok.mp h
  cases heq
  refine ⟨rfl, he, fun b => ?_⟩
  unfold memberValue
  rw [he]

lemma rollupDimItem_spec {member : String} {item : SqlExpr × String}
    (h : rollupDimItem root member = .ok item) :
    item.2 = member ∧ rollupDimExpr root member = .ok item.1 := by
  obtain ⟨e, he, heq⟩ := Fallible.bind_eq_ok.mp h
  cases heq
  exact ⟨rfl, he⟩

lemma baseMeasureItem_spec {member : String} {item : SqlExpr × String}
    (h : baseMeasureItem m member = .ok item) : ∃ name measure,
      rollupMeasure m member = .ok (name, measure) ∧ item = (aggSql measure none, member) := by
  obtain ⟨⟨name, measure⟩, hm, heq⟩ := Fallible.bind_eq_ok.mp h
  cases heq
  exact ⟨name, measure, hm, rfl⟩

lemma baseMeasureItem_name {member : String} {item : SqlExpr × String}
    (h : baseMeasureItem m member = .ok item) : item.2 = member := by
  obtain ⟨_, _, _, rfl⟩ := baseMeasureItem_spec h
  rfl

lemma rollupMeasureItem_spec {member : String} {item : SqlExpr × String}
    (h : rollupMeasureItem m root member = .ok item) : ∃ name measure,
      rollupMeasure m member = .ok (name, measure) ∧
        item = (combineSql measure.agg (rollupCol root name), member) := by
  obtain ⟨⟨name, measure⟩, hm, heq⟩ := Fallible.bind_eq_ok.mp h
  cases heq
  exact ⟨name, measure, hm, rfl⟩

lemma rollupMeasureItem_name {member : String} {item : SqlExpr × String}
    (h : rollupMeasureItem m root member = .ok item) : item.2 = member := by
  obtain ⟨_, _, _, rfl⟩ := rollupMeasureItem_spec h
  rfl

/-- The `WHERE` of the base statement. -/
lemma RollupPlan.wheres_all (p : RollupPlan root m pre q s sR sP) (b : ρ) :
    (s.wheres.all fun c => c.holds F S b) = passesBase F S m q b := by
  have hmap := Fallible.map_of_mapM p.wheres (g := fun c => c.holds F S b)
    (k := fun f => filterTest F f (memberValue F S m f.member b)) fun f c hc => by
      obtain ⟨e, he, happly⟩ := Fallible.bind_eq_ok.mp hc
      rw [holds_applyOp F S happly b]
      unfold memberValue
      rw [he]
  have hall := congrArg (List.all · id) hmap
  unfold passesBase
  simpa only [List.all_map, Function.id_comp] using hall

/-- The `WHERE` of the rollup statement. -/
lemma RollupPlan.rollupWheres_all (p : RollupPlan root m pre q s sR sP) (row : Row Datum) :
    (sR.wheres.all fun c => c.holds F rowReader row) = q.filters.all fun f =>
      filterTest F f (match rollupDimExpr root f.member with
        | .ok e => e.value F rowReader row
        | .error _ => none) := by
  have hmap := Fallible.map_of_mapM p.rollupWheres (g := fun c => c.holds F rowReader row)
    (k := fun f => filterTest F f (match rollupDimExpr root f.member with
        | .ok e => e.value F rowReader row
        | .error _ => none)) fun f c hc => by
      obtain ⟨e, he, happly⟩ := Fallible.bind_eq_ok.mp hc
      rw [holds_applyOp F rowReader happly row, he]
  have hall := congrArg (List.all · id) hmap
  simpa only [List.all_map, Function.id_comp] using hall

/-- The grouping of the base statement. -/
lemma RollupPlan.keyAt_base (p : RollupPlan root m pre q s sR sP) (b : ρ) :
    s.keyAt F S b = q.dimensions.map fun member => memberValue F S m member b := by
  unfold Select.keyAt
  rw [p.groupBy, List.map_map]
  exact Fallible.map_of_mapM p.baseDims_eq fun member item hitem =>
    (baseDimItem_spec hitem).2.2 b

/-- The grouping of the rollup statement. -/
lemma RollupPlan.keyAt_rollup (p : RollupPlan root m pre q s sR sP) (row : Row Datum) :
    sR.keyAt F rowReader row = q.dimensions.map fun member =>
      match rollupDimExpr root member with
      | .ok e => e.value F rowReader row
      | .error _ => none := by
  unfold Select.keyAt
  rw [p.rollupGroupBy, List.map_map]
  refine Fallible.map_of_mapM p.rollupDims_eq fun member item hitem => ?_
  rw [(rollupDimItem_spec hitem).2]
  rfl

/-! ## The rows of the rollup -/

/-- A resolved dimension is a column, truncated when a grain is asked for. -/
lemma resolveDimensionExpr_spec {member : String} {e : SqlExpr}
    (h : resolveDimensionExpr m member none none = .ok e) :
    ∃ name grain? dim, dimensionParts member = .ok (name, grain?) ∧
      findDimension m name = some dim ∧
      ((grain? = none ∧ e = .raw dim.expr) ∨ ∃ g grain, grain? = some g ∧
        TimeGrain.parse g = some grain ∧ e = .dateTrunc grain (.raw dim.expr)) := by
  obtain ⟨⟨name, grain?⟩, hparts, h⟩ := Fallible.bind_eq_ok.mp h
  dsimp only at h
  split at h
  · cases h
  · next dim hdim =>
      refine ⟨name, grain?, dim, hparts, hdim, ?_⟩
      cases grain? with
      | none =>
          cases h
          exact .inl ⟨rfl, rfl⟩
      | some g =>
          dsimp only at h
          split at h
          · cases h
          · next grain hgrain =>
              split_ifs at h
              cases h
              exact .inr ⟨g, grain, rfl, hgrain, rfl⟩

/-- Reading a member off a row depends on its dimension's column only. -/
lemma rollup_read_congr {member : String} {row row' : Row Datum}
    (h : ∀ name grain?, dimensionParts member = .ok (name, grain?) → row name = row' name) :
    (match rollupDimExpr root member with
      | .ok e => e.value F rowReader row
      | .error _ => none) =
    (match rollupDimExpr root member with
      | .ok e => e.value F rowReader row'
      | .error _ => none) := by
  unfold rollupDimExpr
  cases hparts : dimensionParts member with
  | error err => rfl
  | ok parts =>
      obtain ⟨name, grain?⟩ := parts
      have hcol := h name grain? hparts
      cases grain? with
      | none => exact hcol
      | some g =>
          simp only [bind, Except.bind]
          cases TimeGrain.parse g with
          | none => rfl
          | some grain => exact congrArg (F.trunc grain) hcol

/-- A filtered member names a stored dimension. -/
lemma covers_filter (hcov : covers pre q = true) {f : SemanticFilter} (hf : f ∈ q.filters)
    {name : String} {grain? : Option String} (hparts : dimensionParts f.member = .ok (name, grain?)) :
    ∃ d ∈ pre.dimensions, bareName d = name := by
  unfold covers at hcov
  simp only [Bool.and_eq_true, List.all_eq_true] at hcov
  have hone := hcov.1.2 f hf
  rw [parseQueryDim_of_parts hparts] at hone
  obtain ⟨g, hg, hname⟩ := List.any_eq_true.mp hone
  obtain ⟨d, hd, rfl⟩ := List.mem_map.mp hg
  rw [decide_eq_true_iff, parseBareDim_name] at hname
  exact ⟨d, hd, hname⟩

/-- A grouped member names a stored dimension of a grain that covers it. -/
lemma covers_dimension (hcov : covers pre q = true) {member : String}
    (hmember : member ∈ q.dimensions) {name : String} {grain? : Option String}
    (hparts : dimensionParts member = .ok (name, grain?)) :
    ∃ d ∈ pre.dimensions, bareName d = name ∧
      grainCovers (parseBareDim d).grain (grain?.bind TimeGrain.parse) = true := by
  unfold covers at hcov
  simp only [Bool.and_eq_true, List.all_eq_true] at hcov
  have hone := hcov.1.1 member hmember
  rw [parseQueryDim_of_parts hparts] at hone
  obtain ⟨g, hg, hboth⟩ := List.any_eq_true.mp hone
  obtain ⟨d, hd, rfl⟩ := List.mem_map.mp hg
  rw [Bool.and_eq_true, decide_eq_true_iff, parseBareDim_name] at hboth
  exact ⟨d, hd, hboth⟩

lemma covers_measure (hcov : covers pre q = true) {member name : String}
    (hmember : member ∈ q.measures) (hname : measureMemberName member = some name) :
    name ∈ pre.measures := by
  unfold covers at hcov
  simp only [Bool.and_eq_true, List.all_eq_true] at hcov
  have hone := hcov.2 member hmember
  rw [measureName_of_member hname] at hone
  simpa using hone

/-- A dimension column of the rollup's row for the bucket of `b`. -/
lemma RollupPlan.preRow_dim (p : RollupPlan root m pre q s sR sP) {T : List ρ} {b : ρ}
    (hb : b ∈ T) {d : String} (hd : d ∈ pre.dimensions) :
    bucketRow F S sP T (sP.keyAt F S b) (bareName d) =
      storedRow F S root m pre b (bareName d) := by
  have hspec : ∀ d item, preaggDimItem m root d = .ok item → item.2 = bareName d ∧
      resolveDimensionExpr m (root ++ "." ++ d) none none = .ok item.1 := by
    intro d item hitem
    obtain ⟨e, he, heq⟩ := Fallible.bind_eq_ok.mp hitem
    cases heq
    exact ⟨rfl, he⟩
  have hfind := find?_mapM bareName p.preDims_eq (fun d item hitem => (hspec d item hitem).1) (bareName d)
  unfold bucketRow Select.outputRow storedRow
  rw [p.preItems, List.find?_append, hfind]
  cases hentry : pre.dimensions.find? fun d' => bareName d' = bareName d with
  | none =>
      rw [List.find?_eq_none] at hentry
      exact absurd (decide_eq_true rfl) (hentry d hd)
  | some d' =>
      have hd' := List.mem_of_find?_eq_some hentry
      obtain ⟨item, hitem, hturn⟩ := Fallible.exists_of_mapM p.preDims_eq hd'
      have hres := (hspec d' item hturn).2
      rw [Option.bind_some, hturn, Except.toOption, Option.some_or, Option.bind_some,
        Option.bind_some]
      -- all rows of the bucket have the same stored values
      have hlisted : sP.keyAt F S b ∈ groupKeys (sP.keyAt F S) T := mem_groupKeys.mpr ⟨b, hb, rfl⟩
      obtain ⟨h, _, hkey, hhead⟩ := exists_head_group hlisted
      rw [groupValue_head F S _ fun agg arg filters heq =>
        resolveDimensionExpr_not_aggregate (heq ▸ hres), hhead, Option.bind_some]
      unfold Select.keyAt at hkey
      have hvalue := List.map_inj_left.mp hkey item.1
        (by rw [p.preGroupBy]; exact List.mem_map_of_mem hitem)
      rw [hvalue]
      unfold memberValue
      rw [hres]

/-- A measure column of a row of the rollup. -/
lemma RollupPlan.preRow_measure (p : RollupPlan root m pre q s sR sP)
    (hnodup : sP.outputs.Nodup) {name : String} (hname : name ∈ pre.measures)
    {measure : Measure} (hmeasure : findMeasure m name = some measure) (rows : List ρ) :
    sP.outputRow F S rows name = (aggSql measure none).groupValue F S rows := by
  have hspec : ∀ n item, preaggMeasureItem m root n = .ok item → item.2 = n ∧
      ∀ measure, findMeasure m n = some measure → item.1 = aggSql measure none := by
    intro n item hitem
    unfold preaggMeasureItem at hitem
    split at hitem
    · cases hitem
    · next measure' hm' =>
        cases hitem
        refine ⟨rfl, fun measure hm => ?_⟩
        rw [hm'] at hm
        cases hm
        rfl
  have hfind := find?_mapM id p.preMeasures_eq
    (fun n item hitem => (hspec n item hitem).1) name
  obtain ⟨item, hitem, hturn⟩ := Fallible.exists_of_mapM p.preMeasures_eq hname
  obtain ⟨hitem2, hexpr⟩ := hspec name item hturn
  have hfirst : p.preDims.find? (fun item => item.2 = name) = none := by
    rw [List.find?_eq_none]
    intro item' hitem' heq
    unfold Select.outputs at hnodup
    rw [p.preItems, List.map_append, List.nodup_append] at hnodup
    rw [decide_eq_true_iff] at heq
    exact hnodup.2.2 item'.2 (List.mem_map_of_mem hitem') item.2 (List.mem_map_of_mem hitem)
      (heq.trans hitem2.symm)
  have hself : (pre.measures.find? fun n => id n = name) = some name := by
    cases hn : pre.measures.find? fun n => id n = name with
    | none =>
        rw [List.find?_eq_none] at hn
        exact absurd (decide_eq_true rfl) (hn name hname)
    | some n =>
        have := List.find?_some hn
        rw [decide_eq_true_iff] at this
        exact congrArg some this
  unfold Select.outputRow
  rw [p.preItems, List.find?_append, hfirst, Option.none_or, hfind, hself, Option.bind_some,
    hturn, Except.toOption, Option.bind_some, hexpr measure hmeasure]

/-- **A grouped member is read correctly off the bucket.** -/
lemma RollupPlan.rollupValue_eq (p : RollupPlan root m pre q s sR sP)
    (hroot : '.' ∉ root.toList) (hnodup : sP.outputs.Nodup) (hcov : covers pre q = true)
    {member : String} (hmember : member ∈ q.dimensions) (b : ρ) :
    rollupValue F S root m pre member b = memberValue F S m member b := by
  obtain ⟨item, _, hitem⟩ := Fallible.exists_of_mapM p.baseDims_eq hmember
  obtain ⟨_, hres, _⟩ := baseDimItem_spec (ρ := ρ) (F := F) (S := S) hitem
  obtain ⟨name, grain?, dim, hparts, hdim, hexpr⟩ := resolveDimensionExpr_spec hres
  obtain ⟨d, hd, rfl, hgrain⟩ := covers_dimension hcov hmember hparts
  -- the stored column is the entry `d`
  have hentry : (pre.dimensions.find? fun d' => bareName d' = bareName d) = some d := by
    cases hf : pre.dimensions.find? fun d' => bareName d' = bareName d with
    | none =>
        rw [List.find?_eq_none] at hf
        exact absurd (decide_eq_true rfl) (hf d hd)
    | some d' =>
        have hname := List.find?_some hf
        rw [decide_eq_true_iff] at hname
        have hnames : (pre.dimensions.map bareName).Nodup := by
          unfold Select.outputs at hnodup
          rw [p.preItems, List.map_append, List.nodup_append] at hnodup
          have hmap := Fallible.map_of_mapM p.preDims_eq (g := Prod.snd) (k := bareName)
            fun d item hitem => (preaggDimItem_spec hroot hitem).1
          rw [← hmap]
          exact hnodup.1
        exact congrArg some (List.inj_on_of_nodup_map hnames (List.mem_of_find?_eq_some hf) hd
          hname)
  obtain ⟨item', _, hitem'⟩ := Fallible.exists_of_mapM p.preDims_eq hd
  obtain ⟨_, hres', _⟩ := preaggDimItem_spec hroot hitem'
  have hstored : storedRow F S root m pre b (bareName d) = item'.1.value F S b := by
    unfold storedRow memberValue
    rw [hentry, Option.bind_some, hres']
  obtain ⟨name', grain?', dim', hparts', hdim', hexpr'⟩ := resolveDimensionExpr_spec hres'
  obtain ⟨rfl, hgrain'⟩ := dimensionParts_entry hroot hparts'
  rw [hdim] at hdim'
  cases hdim'
  have hbase : memberValue F S m member b = item.1.value F S b := by
    unfold memberValue
    rw [hres]
  rw [hgrain'] at hgrain
  rw [hbase]
  unfold rollupValue rollupDimExpr
  rw [hparts]
  rcases hexpr with ⟨rfl, hexpr⟩ | ⟨g, grain, rfl, hparse, hexpr⟩ <;>
    rcases hexpr' with ⟨rfl, hexpr'⟩ | ⟨g', grain', rfl, hparse', hexpr'⟩
  · rw [hexpr]
    refine hstored.trans ?_
    rw [hexpr']
  · simp [hparse', grainCovers] at hgrain
  · simp only [bind, Except.bind, hparse, hexpr]
    refine congrArg (F.trunc grain) (hstored.trans ?_)
    rw [hexpr']
  · simp only [Option.bind_some, hparse, hparse', grainCovers] at hgrain
    simp only [bind, Except.bind, hparse, hexpr]
    refine (congrArg (F.trunc grain) hstored).trans ?_
    rw [hexpr']
    exact F.trunc_trunc grain' grain _ hgrain

end

end Semantic
end Pawrly
