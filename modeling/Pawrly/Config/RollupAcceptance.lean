import Pawrly.Config.Preaggregations
import Pawrly.Config.MetricExpansion
import Pawrly.Semantic.RollupEquivalence

/-!
# When a rollup changes what is rejected

The compiler over the base table and the one over a rollup make the same checks of a covered
query but one: whether the grain of a member is declared on a time dimension.
`rollup_acceptance_iff` says for which queries the two accept or reject together.
-/

namespace Pawrly
namespace Config

open Semantic Sql

/-! ## The checks -/

/-- The query that a rollup is matched with: the leaves stand in place of the metrics. -/
def servedQuery (cat : SemanticCatalog) (q : SemanticQuery) : Option SemanticQuery :=
  if q.measures.any isMetric then rollupLeafQuery cat q else some q

/-- The dimensions and filtered members of a query. -/
def dimensionMembers (q : SemanticQuery) : List String :=
  q.dimensions ++ q.filters.map SemanticFilter.member

/-- A member `model.dimension` or `model.dimension.grain` with a grain that can be read. -/
def ReadableMember (member : String) : Prop :=
  ∃ name grain?, dimensionParts member = .ok (name, grain?) ∧
    ∀ s, grain? = some s → (TimeGrain.parse s).isSome

/-- What both compilers ask of a query on the model `root`. -/
structure SharedChecks (cat : SemanticCatalog) (root : String) (q : SemanticQuery) : Prop where
  members : ∀ member ∈ dimensionMembers q, ReadableMember member
  safety : enforceFilterSafety cat root q = .ok ()
  values : ∀ f ∈ q.filters, ∃ c, applyOp (.raw "") f false = .ok c

/-- Every `ORDER BY` term names a selected member. -/
def OrdersSelected (q : SemanticQuery) : Prop := ∃ orders, resolveOrders q = .ok orders

/-- What the base compiler asks for alone. -/
def GrainsDeclared (m : SemanticModel) (q : SemanticQuery) : Prop :=
  ∀ member ∈ dimensionMembers q, DeclaredGrain m (parseQueryDim member)

/-- A query that passes the shared checks asks for declared grains. -/
def GrainsChecked (cat : SemanticCatalog) (q : SemanticQuery) (r : RollupMatch) : Prop :=
  ∀ q₁ q' m, expandSegments cat q = .ok q₁ → servedQuery cat q₁ = some q' →
    cat.model r.model = some m → SharedChecks cat r.model q' → OrdersSelected q₁ →
    GrainsDeclared m q'

/-! ## Single members and filters -/

lemma rollupDimExpr_ok_iff (root : String) {member : String} :
    (∃ e, rollupDimExpr root member = .ok e) ↔ ReadableMember member := by
  unfold ReadableMember
  constructor
  · rintro ⟨e, he⟩
    obtain ⟨⟨name, grain?⟩, hparts, he⟩ := Fallible.bind_eq_ok.mp he
    refine ⟨name, grain?, hparts, fun s hs => ?_⟩
    subst hs
    dsimp only at he
    split at he
    · cases he
    · next g hg => rw [hg]; rfl
  · rintro ⟨name, grain?, hparts, hgrain⟩
    unfold rollupDimExpr
    simp only [hparts, bind, Except.bind]
    cases grain? with
    | none => exact ⟨_, rfl⟩
    | some s =>
        obtain ⟨g, hg⟩ := Option.isSome_iff_exists.mp (hgrain s rfl)
        dsimp only
        rw [hg]
        exact ⟨_, rfl⟩

/-- A member on a known dimension resolves on the base table when its grain is declared. -/
lemma resolve_ok_iff {m : SemanticModel} {member : String}
    (hdim : ∃ dim, findDimension m (parseQueryDim member).name = some dim) :
    (∃ e, resolveDimensionExpr m member none none = .ok e) ↔
      ReadableMember member ∧ DeclaredGrain m (parseQueryDim member) := by
  constructor
  · rintro ⟨e, he⟩
    obtain ⟨⟨name, grain?⟩, hparts, hrest⟩ := Fallible.bind_eq_ok.mp he
    have hquery := parseQueryDim_of_parts hparts
    rw [hquery] at hdim ⊢
    obtain ⟨dim, hdim⟩ := hdim
    have hgrain : ∀ s, grain? = some s → (TimeGrain.parse s).isSome := by
      rintro s rfl
      dsimp only at hrest hdim
      rw [hdim] at hrest
      dsimp only at hrest
      split at hrest
      · cases hrest
      · next g hg => rw [hg]; rfl
    exact ⟨⟨name, grain?, hparts, hgrain⟩,
      (resolveDimensionExpr_ok_iff none none hparts hdim hgrain).mp ⟨e, he⟩⟩
  · rintro ⟨⟨name, grain?, hparts, hgrain⟩, hdeclared⟩
    have hquery := parseQueryDim_of_parts hparts
    rw [hquery] at hdim hdeclared
    obtain ⟨dim, hdim⟩ := hdim
    exact (resolveDimensionExpr_ok_iff none none hparts hdim hgrain).mpr hdeclared

/-- Whether a filter has the values of its operator does not depend on its expression. -/
lemma applyOp_ok_congr {e : SqlExpr} (e' : SqlExpr) {f : SemanticFilter} {numeric : Bool} {c : SqlCond}
    (h : applyOp e f numeric = .ok c) : ∃ c', applyOp e' f numeric = .ok c' := by
  unfold applyOp at h ⊢
  cases hop : f.op with
  | inList | notIn =>
      simp only [hop] at h ⊢
      split_ifs at h ⊢
      exact ⟨_, rfl⟩
  | inRange =>
      simp only [hop] at h ⊢
      split at h
      · exact ⟨_, rfl⟩
      · cases h
  | isNull | isNotNull => exact ⟨_, rfl⟩
  | equals | notEquals | gt | gte | lt | lte | contains | startsWith | endsWith =>
      simp only [hop] at h ⊢
      obtain ⟨v, hv, _⟩ := Fallible.bind_eq_ok.mp h
      exact ⟨_, Fallible.bind_eq_ok.mpr ⟨v, hv, rfl⟩⟩

/-! ## Queries on one model -/

section

variable {models : List SemanticModel} {sourceNames : List String} {ord : SetOrder}
  {cat : SemanticCatalog} {q : SemanticQuery} {r : RollupMatch} {m : SemanticModel}
  {pre : PreAggregation}

/-- The members of a covered query are on known dimensions. -/
lemma covered_dimension (hc : Candidate cat q r m pre)
    (hmodel : ModelAccepted models sourceNames m) {member : String}
    (hmember : member ∈ dimensionMembers q) :
    ∃ dim, findDimension m (parseQueryDim member).name = some dim := by
  have hcovers := hc.covers
  unfold covers at hcovers
  simp only [Bool.and_eq_true, List.all_eq_true, List.any_eq_true, List.mem_map,
    decide_eq_true_eq] at hcovers
  obtain ⟨⟨hdims, hfilters⟩, _⟩ := hcovers
  have hentry : ∃ entry ∈ pre.dimensions, (parseBareDim entry).name =
      (parseQueryDim member).name := by
    rcases List.mem_append.mp hmember with hmem | hmem
    · obtain ⟨_, ⟨entry, hentry, rfl⟩, hname, _⟩ := hdims member hmem
      exact ⟨entry, hentry, hname⟩
    · obtain ⟨f, hf, rfl⟩ := List.mem_map.mp hmem
      obtain ⟨_, ⟨entry, hentry, rfl⟩, hname⟩ := hfilters f hf
      exact ⟨entry, hentry, hname⟩
  obtain ⟨entry, hentry, hname⟩ := hentry
  have haccepted := (preaggErrors_eq_nil (hmodel.preAggregations.1 pre hc.mem)).1 entry hentry
  obtain ⟨dim, _, hdim, _⟩ := entry_of_accepted hc.root_no_dot haccepted
  exact ⟨dim, by rw [← hname, parseBareDim_name]; exact hdim⟩

/-- A covered query filters on dimensions. -/
lemma covered_filter (hc : Candidate cat q r m pre)
    (hmodel : ModelAccepted models sourceNames m) {f : SemanticFilter} (hf : f ∈ q.filters) :
    memberIsMeasure m f.member = false := by
  by_contra hmeasure
  rw [Bool.not_eq_false] at hmeasure
  unfold memberIsMeasure at hmeasure
  split at hmeasure
  · next name hname =>
      have hparts : dimensionParts f.member = .ok (name, none) := by
        unfold measureMemberName at hname
        split at hname
        · next hsplit =>
            cases hname
            rw [dimensionParts, hsplit]
        · cases hname
      obtain ⟨dim, hdim⟩ := covered_dimension hc hmodel
        (List.mem_append_right _ (List.mem_map_of_mem hf))
      rw [parseQueryDim_of_parts hparts] at hdim
      obtain ⟨measure, hmeasure⟩ := Option.isSome_iff_exists.mp hmeasure
      have hdim' : name ∈ m.dimensions.map Dimension.name := by
        have hdname : dim.name = name := by simpa using List.find?_some hdim
        rw [← hdname]
        exact List.mem_map_of_mem (List.mem_of_find?_eq_some hdim)
      have hmeasure' : name ∈ m.measures.map Measure.name := by
        have hmname : measure.name = name := by simpa using List.find?_some hmeasure
        rw [← hmname]
        exact List.mem_map_of_mem (List.mem_of_find?_eq_some hmeasure)
      exact hmodel.disjoint hdim' hmeasure'
  · cases hmeasure

/-- A filter on a dimension becomes a condition over the rollup. -/
lemma rollupFilterCond_ok_iff {f : SemanticFilter} (root : String)
    (hf : memberIsMeasure m f.member = false) :
    (∃ c, rollupFilterCond m root f = .ok c) ↔
      ReadableMember f.member ∧ ∃ c, applyOp (.raw "") f false = .ok c := by
  unfold rollupFilterCond
  rw [if_neg (by rw [hf]; exact Bool.false_ne_true), ← rollupDimExpr_ok_iff root]
  constructor
  · rintro ⟨c, hc⟩
    obtain ⟨e, he, hc⟩ := Fallible.bind_eq_ok.mp hc
    obtain ⟨cond, hcond, _⟩ := Fallible.bind_eq_ok.mp hc
    exact ⟨⟨e, he⟩, applyOp_ok_congr _ hcond⟩
  · rintro ⟨⟨e, he⟩, c, hc⟩
    obtain ⟨cond, hcond⟩ := applyOp_ok_congr e hc
    exact ⟨_, Fallible.bind_eq_ok.mpr ⟨e, he, Fallible.bind_eq_ok.mpr ⟨cond, hcond, rfl⟩⟩⟩

/-- The compiler over the rollup makes the shared checks, and no other. -/
lemma rollupMeasureSql_ok_iff (hc : Candidate cat q r m pre)
    (hmodel : ModelAccepted models sourceNames m) :
    (∃ s, rollupMeasureSql cat q r = .ok s) ↔ SharedChecks cat r.model q ∧ OrdersSelected q := by
  have hmeasures : ∃ items, q.measures.mapM (rollupMeasureItem m r.model) = .ok items := by
    refine Fallible.mapM_ok_iff.mpr fun member hmember => ?_
    obtain ⟨name, measure, hname, hfind, _⟩ := hc.safe member hmember
    have hmeasure : rollupMeasure m member = .ok (name, measure) := by
      rw [rollupMeasure, hname]
      dsimp only
      rw [hfind]
    exact ⟨_, Fallible.bind_eq_ok.mpr ⟨(name, measure), hmeasure, rfl⟩⟩
  unfold rollupMeasureSql
  rw [hc.model]
  dsimp only
  constructor
  · rintro ⟨s, hs⟩
    obtain ⟨dims, hdims, hs⟩ := Fallible.bind_eq_ok.mp hs
    obtain ⟨_, _, hs⟩ := Fallible.bind_eq_ok.mp hs
    obtain ⟨_, hsafety, hs⟩ := Fallible.bind_eq_ok.mp hs
    obtain ⟨conds, hconds, hs⟩ := Fallible.bind_eq_ok.mp hs
    obtain ⟨orders, horders, _⟩ := Fallible.bind_eq_ok.mp hs
    have hfilters : ∀ f ∈ q.filters, ReadableMember f.member ∧
        ∃ c, applyOp (.raw "") f false = .ok c := fun f hf =>
      (rollupFilterCond_ok_iff r.model (covered_filter hc hmodel hf)).mp
        (Fallible.mapM_ok_iff.mp ⟨conds, hconds⟩ f hf)
    refine ⟨⟨fun member hmember => ?_, hsafety, fun f hf => (hfilters f hf).2⟩, orders, horders⟩
    rcases List.mem_append.mp hmember with hmem | hmem
    · obtain ⟨item, hitem⟩ := Fallible.mapM_ok_iff.mp ⟨dims, hdims⟩ member hmem
      obtain ⟨e, he, _⟩ := Fallible.bind_eq_ok.mp hitem
      exact (rollupDimExpr_ok_iff r.model).mp ⟨e, he⟩
    · obtain ⟨f, hf, rfl⟩ := List.mem_map.mp hmem
      exact (hfilters f hf).1
  · rintro ⟨h, orders, horders⟩
    have hdims : ∃ dims, q.dimensions.mapM (rollupDimItem r.model) = .ok dims := by
      refine Fallible.mapM_ok_iff.mpr fun member hmember => ?_
      obtain ⟨e, he⟩ := (rollupDimExpr_ok_iff r.model).mpr
        (h.members member (List.mem_append_left _ hmember))
      exact ⟨_, Fallible.bind_eq_ok.mpr ⟨e, he, rfl⟩⟩
    have hconds : ∃ conds, q.filters.mapM (rollupFilterCond m r.model) = .ok conds :=
      Fallible.mapM_ok_iff.mpr fun f hf =>
        (rollupFilterCond_ok_iff r.model (covered_filter hc hmodel hf)).mpr
          ⟨h.members f.member (List.mem_append_right _ (List.mem_map_of_mem hf)), h.values f hf⟩
    obtain ⟨dims, hdims⟩ := hdims
    obtain ⟨measures, hmeasures⟩ := hmeasures
    obtain ⟨conds, hconds⟩ := hconds
    exact ⟨_, Fallible.bind_eq_ok.mpr ⟨dims, hdims, Fallible.bind_eq_ok.mpr ⟨measures, hmeasures,
      Fallible.bind_eq_ok.mpr ⟨(), h.safety, Fallible.bind_eq_ok.mpr ⟨conds, hconds,
        Fallible.bind_eq_ok.mpr ⟨orders, horders, rfl⟩⟩⟩⟩⟩⟩

/-- A member of a covered query is on the rollup's model. -/
lemma covered_model (hc : Candidate cat q r m pre) {member : String}
    (hmember : member ∈ queryMembers q) : modelForMember cat member = .ok m := by
  obtain ⟨referenced, href, _⟩ := hc.single
  have hknown : ∃ m', modelForMember cat member = .ok m' := by
    refine Fallible.foldlM_exists (Q := fun member _ =>
      ∃ m', modelForMember cat member = .ok m') href (fun s a s' hturn => ?_)
      (fun _ _ _ _ _ h => h) member hmember
    obtain ⟨m', hm', _⟩ := Fallible.bind_eq_ok.mp hturn
    exact ⟨m', hm'⟩
  obtain ⟨m', hm'⟩ := hknown
  rw [hm', hc.owner hmember hm']

/-- A filter on a dimension becomes a condition over the base table. -/
lemma filterCond_ok_iff (hc : Candidate cat q r m pre)
    (hmodel : ModelAccepted models sourceNames m) {f : SemanticFilter} (hf : f ∈ q.filters) :
    (∃ c, filterCond cat q.timeZone false f = .ok c) ↔
      (ReadableMember f.member ∧ DeclaredGrain m (parseQueryDim f.member)) ∧
        ∃ c, applyOp (.raw "") f false = .ok c := by
  have hmember : f.member ∈ queryMembers q := List.mem_append_right _ (List.mem_map_of_mem hf)
  rw [← resolve_ok_iff (covered_dimension hc hmodel
    (List.mem_append_right _ (List.mem_map_of_mem hf)))]
  constructor
  · rintro ⟨c, hturn⟩
    cases c with
    | inl c =>
        obtain ⟨m', hm', _, hres⟩ := filterCond_inl.mp hturn
        rw [hc.owner hmember hm', hc.timeZone] at hres
        obtain ⟨e, he, hcond⟩ := Fallible.bind_eq_ok.mp hres
        exact ⟨⟨e, he⟩, applyOp_ok_congr _ hcond⟩
    | inr c =>
        obtain ⟨m', hm', hyes, _⟩ := filterCond_inr hturn
        rw [hc.owner hmember hm', covered_filter hc hmodel hf] at hyes
        cases hyes
  · rintro ⟨⟨e, he⟩, c, hcond⟩
    obtain ⟨c', hc'⟩ := applyOp_ok_congr e hcond
    refine ⟨.inl c', filterCond_inl.mpr ⟨m, covered_model hc hmember,
      covered_filter hc hmodel hf, ?_⟩⟩
    rw [hc.timeZone]
    exact Fallible.bind_eq_ok.mpr ⟨e, he, hc'⟩

/-- A dimension has its item over the base table. -/
lemma dimensionItem_ok_iff (hc : Candidate cat q r m pre)
    (hmodel : ModelAccepted models sourceNames m) {member : String}
    (hmember : member ∈ q.dimensions) :
    (∃ item, dimensionItem cat q.timeZone false member = .ok item) ↔
      ReadableMember member ∧ DeclaredGrain m (parseQueryDim member) := by
  have hquery : member ∈ queryMembers q := by simp [queryMembers, hmember]
  rw [← resolve_ok_iff (covered_dimension hc hmodel (List.mem_append_left _ hmember))]
  constructor
  · rintro ⟨item, hitem⟩
    obtain ⟨e, he, _⟩ := Fallible.bind_eq_ok.mp (dimensionItem_base hc hquery hitem)
    exact ⟨e, he⟩
  · rintro ⟨e, he⟩
    refine ⟨_, Fallible.bind_eq_ok.mpr ⟨m, covered_model hc hquery,
      Fallible.bind_eq_ok.mpr ⟨e, ?_, rfl⟩⟩⟩
    rw [hc.timeZone]
    exact he

/-- The measures of a covered query have their items over the base table. -/
lemma measureItem_ok (hc : Candidate cat q r m pre) {member : String}
    (hmember : member ∈ q.measures) : ∃ item, measureItem cat false member = .ok item := by
  obtain ⟨name, measure, hname, hfind, _⟩ := hc.safe member hmember
  have hexpr : resolveMeasureExpr m member none = .ok (aggSql measure none) := by
    rw [resolveMeasureExpr, hname]
    dsimp only
    rw [hfind]
  exact ⟨_, Fallible.bind_eq_ok.mpr ⟨m, covered_model hc (by simp [queryMembers, hmember]),
    Fallible.bind_eq_ok.mpr ⟨_, hexpr, rfl⟩⟩⟩

/-- What does not depend on the members: the lookups, the joins and the predicates of a covered
query are there. -/
lemma covered_parts (hc : Candidate cat q r m pre)
    (hmodel : ModelAccepted models sourceNames m) {referenced : List String} (href : referencedModels cat q = .ok referenced)
    (ord : SetOrder) :
    (∃ us, (referenced.mapM fun m => checkLookup (reachability cat r.model) r.model
        (firstMemberForModel q m) (firstMeasureMember q r.model) true m) = .ok us) ∧
      (∃ needed, neededModels ord (reachability cat r.model) referenced r.model = .ok needed) ∧
      (∀ needed, ∃ source, renderFrom cat r.model (reachability cat r.model) needed false =
        .ok source) ∧
      boundPredicates cat q.params referenced = .ok [] := by
  have hall : ∀ x ∈ referenced, x = r.model := by
    obtain ⟨referenced', href', hall⟩ := hc.single
    rw [href] at href'
    cases href'
    exact hall
  refine ⟨Fallible.mapM_ok_iff.mpr fun x hx => ⟨(), ?_⟩, ?_, fun needed => ?_, ?_⟩
  · rw [checkLookup, if_pos (hall x hx)]
  · have hnone : (referenced.filter fun x => x ≠ r.model) = [] := by
      rw [List.filter_eq_nil_iff]
      intro x hx
      simp [hall x hx]
    unfold neededModels
    rw [hnone]
    exact ⟨_, rfl⟩
  · obtain ⟨table, htable⟩ := Option.isSome_iff_exists.mp hmodel.source
    have hqualified : qualifiedTable cat r.model = .ok table := by
      rw [qualifiedTable, hc.model]
      dsimp only
      rw [htable]
    unfold renderFrom
    rw [hqualified]
    exact ⟨_, rfl⟩
  · have hnone : (referenced.flatMap fun n =>
        (requiredPredicates cat n).map fun p => (n, p)) = [] := by
      rw [List.flatMap_eq_nil_iff]
      intro n hn
      rw [hall n hn, hc.unrestricted, List.map_nil]
    unfold boundPredicates
    rw [hnone]
    rfl

/-- The compiler over the base table makes the shared checks and asks for declared grains. -/
lemma compileMeasures_ok_iff (ord : SetOrder) (hc : Candidate cat q r m pre)
    (hmodel : ModelAccepted models sourceNames m) :
    (∃ s, compileMeasures ord cat q = .ok s) ↔
      (SharedChecks cat r.model q ∧ OrdersSelected q) ∧ GrainsDeclared m q := by
  obtain ⟨referenced, href, _⟩ := hc.single
  have hjoined := hc.not_joined href
  obtain ⟨⟨us, hus⟩, ⟨needed, hneeded⟩, hsource, hpreds⟩ := covered_parts hc hmodel href ord
  obtain ⟨source, hsource⟩ := hsource needed
  constructor
  · rintro ⟨s, hs⟩
    obtain ⟨roots, hroots, hs⟩ := Fallible.bind_eq_ok.mp hs
    rw [hc.roots] at hroots
    cases hroots
    rw [if_neg (by simp)] at hs
    obtain ⟨_, hroot, hs⟩ := Fallible.bind_eq_ok.mp hs
    cases hroot
    obtain ⟨s, hs, _⟩ := Fallible.bind_eq_ok.mp hs
    obtain ⟨_, href', hs⟩ := Fallible.bind_eq_ok.mp hs
    rw [href] at href'
    cases href'
    obtain ⟨_, _, hs⟩ := Fallible.bind_eq_ok.mp hs
    rw [hjoined] at hs
    obtain ⟨dims, hdims, hs⟩ := Fallible.bind_eq_ok.mp hs
    obtain ⟨_, _, hs⟩ := Fallible.bind_eq_ok.mp hs
    obtain ⟨_, _, hs⟩ := Fallible.bind_eq_ok.mp hs
    obtain ⟨_, _, hs⟩ := Fallible.bind_eq_ok.mp hs
    obtain ⟨_, hsafety, hs⟩ := Fallible.bind_eq_ok.mp hs
    obtain ⟨conds, hconds, hs⟩ := Fallible.bind_eq_ok.mp hs
    obtain ⟨_, _, hs⟩ := Fallible.bind_eq_ok.mp hs
    obtain ⟨orders, horders, _⟩ := Fallible.bind_eq_ok.mp hs
    have hmembers : ∀ member ∈ dimensionMembers q,
        ReadableMember member ∧ DeclaredGrain m (parseQueryDim member) := by
      intro member hmember
      rcases List.mem_append.mp hmember with hmem | hmem
      · exact (dimensionItem_ok_iff hc hmodel hmem).mp (Fallible.mapM_ok_iff.mp ⟨dims, hdims⟩ member hmem)
      · obtain ⟨f, hf, rfl⟩ := List.mem_map.mp hmem
        exact ((filterCond_ok_iff hc hmodel hf).mp (Fallible.mapM_ok_iff.mp ⟨conds, hconds⟩ f hf)).1
    exact ⟨⟨⟨fun member hmember => (hmembers member hmember).1, hsafety, fun f hf =>
      ((filterCond_ok_iff hc hmodel hf).mp (Fallible.mapM_ok_iff.mp ⟨conds, hconds⟩ f hf)).2⟩, orders,
      horders⟩, fun member hmember => (hmembers member hmember).2⟩
  · rintro ⟨⟨h, orders, horders⟩, hgrains⟩
    have hdims : ∃ dims, q.dimensions.mapM (dimensionItem cat q.timeZone false) = .ok dims :=
      Fallible.mapM_ok_iff.mpr fun member hmember => (dimensionItem_ok_iff hc hmodel hmember).mpr
        ⟨h.members member (List.mem_append_left _ hmember),
          hgrains member (List.mem_append_left _ hmember)⟩
    have hmeasures : ∃ items, q.measures.mapM (measureItem cat false) = .ok items :=
      Fallible.mapM_ok_iff.mpr fun member hmember => measureItem_ok hc hmember
    have hconds : ∃ conds, q.filters.mapM (filterCond cat q.timeZone false) = .ok conds := by
      refine Fallible.mapM_ok_iff.mpr fun f hf => (filterCond_ok_iff hc hmodel hf).mpr ?_
      have hmember : f.member ∈ dimensionMembers q :=
        List.mem_append_right _ (List.mem_map_of_mem hf)
      exact ⟨⟨h.members _ hmember, hgrains _ hmember⟩, h.values f hf⟩
    obtain ⟨dims, hdims⟩ := hdims
    obtain ⟨items, hitems⟩ := hmeasures
    obtain ⟨conds, hconds⟩ := hconds
    rw [← hjoined] at hdims hitems hconds hsource
    have hsingle : ∃ s, compileSingle ord cat q r.model true = .ok s :=
      ⟨_, Fallible.bind_eq_ok.mpr ⟨referenced, href, Fallible.bind_eq_ok.mpr ⟨us, hus,
        Fallible.bind_eq_ok.mpr ⟨dims, hdims, Fallible.bind_eq_ok.mpr ⟨items, hitems,
        Fallible.bind_eq_ok.mpr ⟨needed, hneeded, Fallible.bind_eq_ok.mpr ⟨source, hsource,
        Fallible.bind_eq_ok.mpr ⟨(), h.safety, Fallible.bind_eq_ok.mpr ⟨conds, hconds,
        Fallible.bind_eq_ok.mpr ⟨[], hpreds, Fallible.bind_eq_ok.mpr ⟨orders, horders,
          rfl⟩⟩⟩⟩⟩⟩⟩⟩⟩⟩⟩
    obtain ⟨s, hs⟩ := hsingle
    refine ⟨.select s, Fallible.bind_eq_ok.mpr ⟨[r.model], hc.roots, ?_⟩⟩
    rw [if_neg (by simp)]
    exact Fallible.bind_eq_ok.mpr ⟨r.model, rfl, Fallible.bind_eq_ok.mpr ⟨s, hs, rfl⟩⟩

/-! ## Whole queries -/

lemma covered_measures_ne_nil (hc : Candidate cat q r m pre) : q.measures ≠ [] := by
  intro hnil
  have hroots := hc.roots
  unfold measureRoots at hroots
  rw [hnil] at hroots
  cases hroots

/-- A covered query without segments is compiled as a measure query. -/
lemma compileStmtWith_of_candidate (ord : SetOrder) (hc : Candidate cat q r m pre)
    (hseg : q.segments = []) (fuel : ℕ) :
    compileStmtWith ord (fuel + 1) cat q = compileMeasures ord cat q := by
  have hmeasures := covered_measures_ne_nil hc
  have hleaf : q.measures.any isMetric = false := by
    rw [List.any_eq_false]
    intro member hmember hmetric
    obtain ⟨name, _, hname, _⟩ := hc.safe member hmember
    have hone := Text.split_of_splitOnce_none (isMetric_iff.mp hmetric)
    rw [measureMemberName, hone.1] at hname
    cases hname
  unfold compileStmtWith
  rw [expandSegments_nil hseg]
  simp only [bind, Except.bind, hleaf]
  rw [if_neg (by simp [hmeasures])]
  rfl

/-- Around a leaf query without windows, a metric statement adds the check of its order. -/
lemma compileWithMetricsVia_ok_iff {items : List (MetricExpr × String)} {st : Expansion}
    (hspine : spineMode cat q = false)
    (hproj : projectMeasures (expandCtx cat q) q.measures {} = .ok (items, st))
    (f : SemanticCatalog → SemanticQuery → Except SemanticError Stmt) :
    (∃ s, compileWithMetricsVia cat q f = .ok s) ↔
      (∃ inner, f (augmentedCatalog cat st) (leafQuery q st.leaves) = .ok inner) ∧
        OrdersSelected q := by
  constructor
  · rintro ⟨s, hs⟩
    obtain ⟨items', st', _, orders, inner, hproj', hinner, _, horders, _⟩ :=
      compileWithMetricsVia_cases hs
    rw [hproj] at hproj'
    cases hproj'
    exact ⟨⟨inner, hinner⟩, orders, horders⟩
  · rintro ⟨⟨inner, hinner⟩, orders, horders⟩
    unfold compileWithMetricsVia
    simp only [hproj, hinner, hspine, horders, bind, Except.bind, Bool.false_eq_true, if_false]
    exact ⟨_, rfl⟩

lemma ordersSelected_leafQuery (q : SemanticQuery) (leaves : List String) :
    OrdersSelected (leafQuery q leaves) := ⟨[], rfl⟩

end

lemma mem_of_catalog_model {cfg : SemanticConfig} {name : String} {m : SemanticModel}
    (h : cfg.catalog.model name = some m) : m ∈ cfg.models :=
  (collectByName_sublist SemanticModel.name cfg.models).subset (List.mem_of_find?_eq_some h)

/-- The compile over a rollup of a measure query, as a statement. -/
def rollupInner (cat : SemanticCatalog) (r : RollupMatch) (q : SemanticQuery) :
    Except SemanticError Stmt := do
  let s ← rollupMeasureSql cat q r
  .ok (.select s)

lemma rollupInner_ok_iff {cat : SemanticCatalog} {r : RollupMatch} {q : SemanticQuery} :
    (∃ s, rollupInner cat r q = .ok s) ↔ ∃ s, rollupMeasureSql cat q r = .ok s := by
  constructor
  · rintro ⟨s, hs⟩
    obtain ⟨s, hs, _⟩ := Fallible.bind_eq_ok.mp hs
    exact ⟨s, hs⟩
  · rintro ⟨s, hs⟩
    exact ⟨.select s, Fallible.bind_eq_ok.mpr ⟨s, hs, rfl⟩⟩

lemma compileRollup_eq {cat : SemanticCatalog} {q q₁ : SemanticQuery} (r : RollupMatch)
    (hseg : expandSegments cat q = .ok q₁) :
    compileRollup cat q r = if q₁.measures.any isMetric then
        compileWithMetricsVia cat q₁ fun _ inner => rollupInner cat r inner
      else rollupInner cat r q₁ := by
  unfold compileRollup
  rw [hseg]
  rfl

lemma compileStmt_eq {ord : SetOrder} {cat : SemanticCatalog} {q q₁ : SemanticQuery}
    (hseg : expandSegments cat q = .ok q₁) (hmeasures : q₁.measures ≠ []) :
    compileStmt ord cat q = if q₁.measures.any isMetric then
        compileWithMetricsVia cat q₁ (compileStmtWith ord 1)
      else compileMeasures ord cat q₁ := by
  unfold compileStmt compileStmtWith
  rw [hseg]
  simp only [bind, Except.bind]
  rw [if_neg (by simp [hmeasures])]

/-- The two compilers of a query that a rollup serves. -/
lemma compile_ok_iff {ord' : SetOrder} {cfg : SemanticConfig} {sourceNames : List String}
    {q : SemanticQuery} {r : RollupMatch} (h : Accepted ord' cfg sourceNames)
    (hr : candidateRollup cfg.catalog q = some r) (ord : SetOrder) :
    ∃ q₁ q' m, expandSegments cfg.catalog q = .ok q₁ ∧ servedQuery cfg.catalog q₁ = some q' ∧
      cfg.catalog.model r.model = some m ∧
      ((∃ s, compileRollup cfg.catalog q r = .ok s) ↔
        SharedChecks cfg.catalog r.model q' ∧ OrdersSelected q₁) ∧
      ((∃ s, compileStmt ord cfg.catalog q = .ok s) ↔
        (SharedChecks cfg.catalog r.model q' ∧ OrdersSelected q₁) ∧ GrainsDeclared m q') := by
  unfold candidateRollup at hr
  cases hseg : expandSegments cfg.catalog q with
  | error e =>
      rw [hseg] at hr
      cases hr
  | ok q₁ =>
      rw [hseg] at hr
      dsimp only at hr
      obtain ⟨extra, hq₁⟩ := expandSegments_spec hseg
      have hnil : q₁.segments = [] := by rw [hq₁]
      by_cases hmetric : q₁.measures.any isMetric = true
      · rw [if_pos hmetric] at hr
        obtain ⟨leafq, hleaf, hr⟩ := Option.bind_eq_some_iff.mp hr
        obtain ⟨m, pre, hc⟩ := candidateMeasures_candidate hr
        have hmodel := (validateSemantic_models h.1).1 m (mem_of_catalog_model hc.model)
        have hserved : servedQuery cfg.catalog q₁ = some leafq := by
          rw [servedQuery, if_pos hmetric, hleaf]
        obtain ⟨hspine, items, st, hproj, hsynthetic, rfl⟩ := rollupLeafQuery_spec hleaf
        have hmeasures : q₁.measures ≠ [] := by
          rintro hno
          rw [hno] at hmetric
          cases hmetric
        have hleafOrders := ordersSelected_leafQuery q₁ st.leaves
        have hmodels : cfg.catalog.models = (augmentedCatalog cfg.catalog st).models :=
          (augmentedCatalog_models hsynthetic).symm
        have hchecks : SharedChecks (augmentedCatalog cfg.catalog st) r.model
            (leafQuery q₁ st.leaves) ↔ SharedChecks cfg.catalog r.model
              (leafQuery q₁ st.leaves) := by
          have hover := rollupMeasureSql_ok_iff (hc.congr hmodels) hmodel
          rw [← rollupMeasureSql_congr hmodels, rollupMeasureSql_ok_iff hc hmodel,
            and_iff_left hleafOrders, and_iff_left hleafOrders] at hover
          exact hover.symm
        refine ⟨q₁, _, m, rfl, hserved, hc.model, ?_, ?_⟩
        · rw [compileRollup_eq r hseg, if_pos hmetric, compileWithMetricsVia_ok_iff hspine hproj,
            rollupInner_ok_iff, rollupMeasureSql_ok_iff hc hmodel, and_iff_left hleafOrders]
        · rw [compileStmt_eq hseg hmeasures, if_pos hmetric,
            compileWithMetricsVia_ok_iff hspine hproj,
            compileStmtWith_of_candidate ord (hc.congr hmodels) hnil,
            compileMeasures_ok_iff ord (hc.congr hmodels) hmodel, hchecks, and_iff_left hleafOrders]
          exact and_right_comm
      · rw [if_neg hmetric] at hr
        obtain ⟨m, pre, hc⟩ := candidateMeasures_candidate hr
        have hmodel := (validateSemantic_models h.1).1 m (mem_of_catalog_model hc.model)
        have hserved : servedQuery cfg.catalog q₁ = some q₁ := by
          rw [servedQuery, if_neg hmetric]
        refine ⟨q₁, q₁, m, rfl, hserved, hc.model, ?_, ?_⟩
        · rw [compileRollup_eq r hseg, if_neg hmetric, rollupInner_ok_iff,
            rollupMeasureSql_ok_iff hc hmodel]
        · rw [compileStmt_eq hseg (covered_measures_ne_nil hc), if_neg hmetric,
            compileMeasures_ok_iff ord hc hmodel]

/-- **When a rollup changes what is rejected.**  The compiler over the rollup accepts what the
one over the base table accepts exactly when the query, where nothing else is wrong with it, asks
for declared grains. -/
theorem rollup_acceptance_iff {ord' : SetOrder} {cfg : SemanticConfig} {sourceNames : List String}
    {q : SemanticQuery} {r : RollupMatch} (h : Accepted ord' cfg sourceNames)
    (hr : candidateRollup cfg.catalog q = some r) (ord : SetOrder) :
    ((∃ s, compileRollup cfg.catalog q r = .ok s) ↔ ∃ s, compileStmt ord cfg.catalog q = .ok s) ↔
      GrainsChecked cfg.catalog q r := by
  obtain ⟨q₁, q', m, hseg, hserved, hm, hrollup, hbase⟩ := compile_ok_iff h hr ord
  rw [hrollup, hbase, iff_self_and]
  unfold GrainsChecked
  constructor
  · intro hgrains q₂ q'' m' hseg' hserved' hm' hchecks horders
    rw [hseg] at hseg'
    cases hseg'
    rw [hserved] at hserved'
    cases hserved'
    rw [hm] at hm'
    cases hm'
    exact hgrains ⟨hchecks, horders⟩
  · rintro hgrains ⟨hchecks, horders⟩
    exact hgrains q₁ q' m hseg hserved hm hchecks horders

/-! ## A grain that is not declared -/

/-- Orders dated by day, with their revenue by day stored. -/
def dailyOrders : SemanticModel where
  name := "orders"
  source := "shop.orders"
  dimensions := [{ name := "order_date", expr := "order_date", dataType := .time
                   timeGrains := [.day] }]
  measures := [{ name := "revenue", agg := .sum, expr := "amount" }]
  preAggregations :=
    [{ name := "daily", dimensions := ["order_date.day"], measures := ["revenue"] }]

def dailyConfig : SemanticConfig where
  models := [dailyOrders]

def dailyMatch : RollupMatch := ⟨"orders", "daily"⟩

/-- Revenue by month, which only the rollup computes. -/
def revenueByMonth : SemanticQuery where
  measures := ["orders.revenue"]
  dimensions := ["orders.order_date.month"]

/-- Revenue by day, which both compute. -/
def revenueByDay : SemanticQuery where
  measures := ["orders.revenue"]
  dimensions := ["orders.order_date.day"]

lemma dailyConfig_accepted : Accepted .insertion dailyConfig ["shop"] := by
  decide

lemma revenueByMonth_candidate :
    candidateRollup dailyConfig.catalog revenueByMonth = some dailyMatch := by
  decide

lemma revenueByDay_candidate :
    candidateRollup dailyConfig.catalog revenueByDay = some dailyMatch := by
  decide

/-- Whether a query is rejected may depend on a rollup. -/
theorem rollup_acceptance_fails : ¬ ∀ (ord ord' : SetOrder) (cfg : SemanticConfig)
    (sourceNames : List String) (q : SemanticQuery) (r : RollupMatch),
    Accepted ord' cfg sourceNames → candidateRollup cfg.catalog q = some r →
    ((∃ s, compileRollup cfg.catalog q r = .ok s) ↔
      ∃ s, compileStmt ord cfg.catalog q = .ok s) := by
  intro h
  have hbase : compileStmt .insertion dailyConfig.catalog revenueByMonth =
      .error (.invalidGrain "order_date" "month") := by decide
  have hrollup : (compileRollup dailyConfig.catalog revenueByMonth dailyMatch).toOption.isSome :=
    by decide
  cases hcompiled : compileRollup dailyConfig.catalog revenueByMonth dailyMatch with
  | error e =>
      rw [hcompiled] at hrollup
      cases hrollup
  | ok s =>
      obtain ⟨s', hs'⟩ := (h .insertion .insertion dailyConfig ["shop"] revenueByMonth dailyMatch
        dailyConfig_accepted revenueByMonth_candidate).mp ⟨s, hcompiled⟩
      exact absurd (hbase.symm.trans hs') (by simp)

/-- By day, the query is rejected by both or by none. -/
theorem revenueByDay_acceptance :
    (∃ s, compileRollup dailyConfig.catalog revenueByDay dailyMatch = .ok s) ↔
      ∃ s, compileStmt .insertion dailyConfig.catalog revenueByDay = .ok s :=
  (rollup_acceptance_iff dailyConfig_accepted revenueByDay_candidate .insertion).mpr
    fun q₁ q' m hseg hserved hm _ _ member hmember g hg dim hdim => by
      have hexpanded : expandSegments dailyConfig.catalog revenueByDay = .ok revenueByDay := by
        decide
      have hquery : servedQuery dailyConfig.catalog revenueByDay = some revenueByDay := by
        decide
      have hmodel : dailyConfig.catalog.model "orders" = some dailyOrders := by decide
      rw [hexpanded] at hseg
      cases hseg
      rw [hquery] at hserved
      cases hserved
      cases hmodel.symm.trans hm
      have hmembers : dimensionMembers revenueByDay = ["orders.order_date.day"] := rfl
      rw [hmembers, List.mem_singleton] at hmember
      subst hmember
      have hday : g = .day := by
        have : (parseQueryDim "orders.order_date.day").grain = some .day := by decide
        rw [this] at hg
        cases hg
        rfl
      have hdate : dim ∈ dailyOrders.dimensions := List.mem_of_find?_eq_some hdim
      rw [dailyOrders, List.mem_singleton] at hdate
      subst hdate hday
      exact ⟨rfl, .inr (by decide)⟩

end Config
end Pawrly
