import Pawrly.Semantic.Rollup
import Pawrly.Semantic.TimeAxis
import Pawrly.Semantic.Scans

/-!
# What the three statements of a rollup compute

A query served by a rollup involves three statements: the one over the base table, the one
that materializes the rollup, and the one over the rollup.  `RollupPlan` holds their items,
conditions and groupings next to each other; `rollup_plan` extracts it from successful
compiles of a covered query.
-/

namespace Pawrly
namespace Semantic

open Sql

/-! ## Member names -/

/-- The two ways the source takes a query member apart agree. -/
lemma parseQueryDim_of_parts {member name : String} {grain? : Option String}
    (h : dimensionParts member = .ok (name, grain?)) :
    parseQueryDim member = ⟨name, grain?.bind TimeGrain.parse⟩ := by
  have hbare : ∀ rest, Text.split '.' rest = name :: grain?.toList →
      parseBareDim rest = ⟨name, grain?.bind TimeGrain.parse⟩ := by
    intro rest hrest
    unfold parseBareDim
    cases hsplit : Text.splitOnce '.' rest with
    | none =>
        have hs := (Text.split_of_splitOnce_none hsplit).1
        rw [hs] at hrest
        cases grain? with
        | none =>
            cases hrest
            rfl
        | some g => cases hrest
    | some p =>
        obtain ⟨a, b⟩ := p
        have hs := (Text.split_of_splitOnce_some hsplit).1
        rw [hs, List.cons.injEq] at hrest
        obtain ⟨rfl, hb⟩ := hrest
        cases grain? with
        | none => exact absurd hb (Text.split_ne_nil '.' b)
        | some g =>
            cases hsplit' : Text.splitOnce '.' b with
            | none =>
                rw [(Text.split_of_splitOnce_none hsplit').1] at hb
                cases hb
                rfl
            | some p' =>
                obtain ⟨a', b'⟩ := p'
                rw [(Text.split_of_splitOnce_some hsplit').1, Option.toList_some,
                  List.cons.injEq] at hb
                exact absurd hb.2 (Text.split_ne_nil '.' b')
  have hparts : ∃ model, Text.split '.' member = model :: name :: grain?.toList := by
    unfold dimensionParts at h
    split at h
    · next model dim hsplit =>
        cases h
        exact ⟨model, hsplit⟩
    · next model dim grain hsplit =>
        cases h
        exact ⟨model, hsplit⟩
    · cases h
  obtain ⟨model, hmember⟩ := hparts
  unfold parseQueryDim
  cases hsplit : Text.splitOnce '.' member with
  | none =>
      rw [(Text.split_of_splitOnce_none hsplit).1] at hmember
      cases hmember
  | some p =>
      obtain ⟨a, rest⟩ := p
      rw [(Text.split_of_splitOnce_some hsplit).1, List.cons.injEq] at hmember
      exact hbare rest hmember.2

lemma parseBareDim_name (d : String) : (parseBareDim d).name = bareName d := by
  unfold parseBareDim bareName
  cases hsplit : Text.splitOnce '.' d with
  | none => rw [(Text.split_of_splitOnce_none hsplit).1]; rfl
  | some p => rw [(Text.split_of_splitOnce_some hsplit).1]; rfl

/-- A dimension entry of a model without a dot in its name. -/
lemma dimensionParts_entry {root d name : String} {grain? : Option String}
    (hroot : '.' ∉ root.toList) (h : dimensionParts (root ++ "." ++ d) = .ok (name, grain?)) :
    name = bareName d ∧ (parseBareDim d).grain = grain?.bind TimeGrain.parse := by
  have hquery := parseQueryDim_of_parts h
  have hsplit : parseQueryDim (root ++ "." ++ d) = parseBareDim d := by
    unfold parseQueryDim
    rw [Text.splitOnce_append hroot]
  rw [hsplit] at hquery
  rw [hquery, ← parseBareDim_name, hquery]
  exact ⟨rfl, rfl⟩

/-- The model prefix of a member has no dot. -/
lemma memberModel_no_dot {member root : String} (h : memberModel member = .ok root) :
    '.' ∉ root.toList := by
  unfold memberModel at h
  cases hsplit : Text.splitOnce '.' member with
  | none =>
      obtain ⟨hs, hdot⟩ := Text.split_of_splitOnce_none hsplit
      rw [hs] at h
      obtain ⟨_, h⟩ := Fallible.ite_error_eq_ok.mp h
      cases h
      exact hdot
  | some p =>
      obtain ⟨a, b⟩ := p
      obtain ⟨hs, hdot⟩ := Text.split_of_splitOnce_some hsplit
      rw [hs] at h
      obtain ⟨_, h⟩ := Fallible.ite_error_eq_ok.mp h
      cases h
      exact hdot

lemma measureName_of_member {member name : String} (h : measureMemberName member = some name) :
    measureName member = name := by
  unfold measureMemberName at h
  unfold measureName
  split at h
  · next model name' hsplit =>
      cases h
      rw [hsplit]
      rfl
  · cases h

/-! ## The candidate -/

lemma mem_of_matchRollup {model : SemanticModel} {q : SemanticQuery} {pre : PreAggregation}
    (h : matchRollup model q = some pre) : pre ∈ model.preAggregations ∧ covers pre q = true := by
  -- each turn keeps what it has or takes the pre-aggregation of the turn
  have hfold : ∀ (choose : Option PreAggregation → PreAggregation → Option PreAggregation),
      (∀ best p, choose best p = best ∨ choose best p = some p) →
      ∀ (pres : List PreAggregation) best,
        pres.foldl choose best = some pre → pre ∈ pres ∨ best = some pre := by
    intro choose hchoose pres
    induction pres with
    | nil => exact fun best hb => .inr hb
    | cons p pres ih =>
        intro best hb
        rw [List.foldl_cons] at hb
        rcases ih _ hb with hmem | hbest
        · exact .inl (List.mem_cons_of_mem _ hmem)
        · rcases hchoose best p with hkept | htaken
          · exact .inr (hkept.symm.trans hbest)
          · obtain rfl := Option.some.inj (htaken.symm.trans hbest)
            exact .inl List.mem_cons_self
  refine (hfold _ (fun best p => ?_) _ _ h).elim List.mem_filter.mp fun hnone => ?_
  · cases best with
    | none => exact .inr rfl
    | some b =>
        dsimp only
        split_ifs
        · exact .inr rfl
        · exact .inl rfl
  · cases hnone

/-- What choosing a rollup has checked. -/
structure Candidate (cat : SemanticCatalog) (q : SemanticQuery) (r : RollupMatch)
    (m : SemanticModel) (pre : PreAggregation) : Prop where
  roots : measureRoots cat q = .ok [r.model]
  model : cat.model r.model = some m
  single : ∃ referenced, referencedModels cat q = .ok referenced ∧ ∀ x ∈ referenced, x = r.model
  timeZone : q.timeZone = none
  unrestricted : requiredPredicates cat r.model = []
  safe : ∀ member ∈ q.measures, ∃ name measure, measureMemberName member = some name ∧
    findMeasure m name = some measure ∧ isRollupSafe measure.agg = true
  mem : pre ∈ m.preAggregations
  name : pre.name = r.preagg
  covers : covers pre q = true

lemma candidateMeasures_candidate {cat : SemanticCatalog} {q : SemanticQuery} {r : RollupMatch}
    (h : candidateMeasures cat q = some r) : ∃ m pre, Candidate cat q r m pre := by
  unfold candidateMeasures at h
  split_ifs at h with hzone
  split at h
  · next root referenced hroots href =>
      split at h
      · cases h
      · next m hm =>
          split_ifs at h with hsingle hpreds hsafe
          obtain ⟨pre, hpre, heq⟩ := Option.map_eq_some_iff.mp h
          cases heq
          obtain ⟨hmem, hcovers⟩ := mem_of_matchRollup hpre
          refine ⟨m, pre, hroots, hm, ⟨referenced, href, ?_⟩, by simpa using hzone, ?_, ?_, hmem,
            rfl, hcovers⟩
          · simpa using hsingle
          · simpa using hpreds
          · intro member hmember
            have hone := List.all_eq_true.mp hsafe member hmember
            split at hone
            · next measure hmeasure =>
                obtain ⟨name, hname, hfind⟩ := Option.bind_eq_some_iff.mp hmeasure
                exact ⟨name, measure, hname, hfind, hone⟩
            · cases hone
  · cases h

/-! ## The plan -/

/-- A dimension as an item over the base table. -/
def baseDimItem (m : SemanticModel) (member : String) : Except SemanticError (SqlExpr × String) := do
  let e ← resolveDimensionExpr m member none none
  .ok (e, member)

/-- A measure as an item over the base table. -/
def baseMeasureItem (m : SemanticModel) (member : String) :
    Except SemanticError (SqlExpr × String) := do
  let (_, measure) ← rollupMeasure m member
  .ok (aggSql measure none, member)

/-- A dimension filter over the base table. -/
def baseCond (m : SemanticModel) (f : SemanticFilter) : Except SemanticError SqlCond := do
  let e ← resolveDimensionExpr m f.member none none
  applyOp e f false

/-- A dimension filter over the rollup. -/
def rollupCond (root : String) (f : SemanticFilter) : Except SemanticError SqlCond := do
  let e ← rollupDimExpr root f.member
  applyOp e f false

/-- The base statement `s`, the rollup statement `sR` and the materializing statement `sP` of a
query on one model. -/
structure RollupPlan (root : String) (m : SemanticModel) (pre : PreAggregation)
    (q : SemanticQuery) (s sR sP : Select) where
  baseDims : List (SqlExpr × String)
  baseMeasures : List (SqlExpr × String)
  rollupDims : List (SqlExpr × String)
  rollupMeasures : List (SqlExpr × String)
  preDims : List (SqlExpr × String)
  preMeasures : List (SqlExpr × String)
  baseDims_eq : q.dimensions.mapM (baseDimItem m) = .ok baseDims
  baseMeasures_eq : q.measures.mapM (baseMeasureItem m) = .ok baseMeasures
  rollupDims_eq : q.dimensions.mapM (rollupDimItem root) = .ok rollupDims
  rollupMeasures_eq : q.measures.mapM (rollupMeasureItem m root) = .ok rollupMeasures
  preDims_eq : pre.dimensions.mapM (preaggDimItem m root) = .ok preDims
  preMeasures_eq : pre.measures.mapM (preaggMeasureItem m root) = .ok preMeasures
  items : s.items = baseDims ++ baseMeasures
  rollupItems : sR.items = rollupDims ++ rollupMeasures
  preItems : sP.items = preDims ++ preMeasures
  groupBy : s.groupBy = baseDims.map Prod.fst
  rollupGroupBy : sR.groupBy = rollupDims.map Prod.fst
  preGroupBy : sP.groupBy = preDims.map Prod.fst
  wheres : q.filters.mapM (baseCond m) = .ok s.wheres
  rollupWheres : q.filters.mapM (rollupCond root) = .ok sR.wheres
  preWheres : sP.wheres = []
  havings : s.havings = []
  rollupHavings : sR.havings = []
  preHavings : sP.havings = []
  orders : s.orders = sR.orders
  limit : s.limit = sR.limit

lemma rollupMeasure_spec {m : SemanticModel} {member name : String} {measure : Measure}
    (h : rollupMeasure m member = .ok (name, measure)) :
    measureMemberName member = some name ∧ findMeasure m name = some measure := by
  unfold rollupMeasure at h
  split at h
  · cases h
  · next name' hname =>
      split at h
      · cases h
      · next measure' hmeasure =>
          cases h
          exact ⟨hname, hmeasure⟩

/-- The checks of the configuration on the member and rollup names of a model. -/
structure NamesChecked (m : SemanticModel) : Prop where
  disjoint : ∀ d ∈ m.dimensions, ∀ measure ∈ m.measures, d.name ≠ measure.name
  preAggregations : (m.preAggregations.map PreAggregation.name).Nodup

/-- The entry of a pre-aggregation names a dimension of the model. -/
lemma preaggDimItem_spec {m : SemanticModel} {root d : String} {item : SqlExpr × String}
    (hroot : '.' ∉ root.toList) (h : preaggDimItem m root d = .ok item) :
    item.2 = bareName d ∧ resolveDimensionExpr m (root ++ "." ++ d) none none = .ok item.1 ∧
      ∃ dim, findDimension m (bareName d) = some dim := by
  obtain ⟨e, he, heq⟩ := Fallible.bind_eq_ok.mp h
  cases heq
  refine ⟨rfl, he, ?_⟩
  obtain ⟨⟨name, grain?⟩, hparts, he⟩ := Fallible.bind_eq_ok.mp he
  obtain ⟨rfl, _⟩ := dimensionParts_entry hroot hparts
  dsimp only at he
  split at he
  · cases he
  · next dim hdim => exact ⟨dim, hdim⟩

/-- A covered query filters on dimensions only. -/
lemma filters_on_dimensions {cat : SemanticCatalog} {q : SemanticQuery} {r : RollupMatch}
    {m : SemanticModel} {pre : PreAggregation} (hc : Candidate cat q r m pre)
    (hnames : NamesChecked m) {preDims : List (SqlExpr × String)}
    (hdot : '.' ∉ r.model.toList)
    (hpre : pre.dimensions.mapM (preaggDimItem m r.model) = .ok preDims) :
    ∀ f ∈ q.filters, memberIsMeasure m f.member = false := by
  intro f hf
  by_contra hmeasure
  rw [Bool.not_eq_false] at hmeasure
  unfold memberIsMeasure measureMemberName at hmeasure
  split at hmeasure
  · next name hname =>
      split at hname
      · next model name' hsplit =>
          cases hname
          have hparts : dimensionParts f.member = .ok (name, none) := by
            unfold dimensionParts
            rw [hsplit]
          have hcov := hc.covers
          unfold covers at hcov
          simp only [Bool.and_eq_true, List.all_eq_true] at hcov
          have hone := hcov.1.2 f hf
          rw [parseQueryDim_of_parts hparts] at hone
          obtain ⟨g, hg, hgname⟩ := List.any_eq_true.mp hone
          obtain ⟨d, hd, rfl⟩ := List.mem_map.mp hg
          rw [decide_eq_true_iff, parseBareDim_name] at hgname
          obtain ⟨item, _, hitem⟩ := Fallible.exists_of_mapM hpre hd
          obtain ⟨_, _, dim, hdim⟩ := preaggDimItem_spec hdot hitem
          obtain ⟨measure, hfind⟩ := Option.isSome_iff_exists.mp hmeasure
          have hdname := List.find?_some hdim
          have hmname := List.find?_some hfind
          simp only [decide_eq_true_eq] at hdname hmname
          refine hnames.disjoint dim (List.mem_of_find?_eq_some hdim) measure
            (List.mem_of_find?_eq_some hfind) ?_
          rw [hdname, hmname, hgname]
      · cases hname
  · cases hmeasure

section

variable {ord : SetOrder} {cat : SemanticCatalog} {q : SemanticQuery} {r : RollupMatch}
  {m : SemanticModel} {pre : PreAggregation}

/-- Every member of the query belongs to the rollup's model. -/
lemma Candidate.owner (hc : Candidate cat q r m pre) {member : String}
    (hmember : member ∈ queryMembers q) {m' : SemanticModel}
    (h : modelForMember cat member = .ok m') : m' = m := by
  obtain ⟨referenced, href, hall⟩ := hc.single
  obtain ⟨hname, hm'⟩ := modelForMember_name h
  have hroot := hall m'.name ((mem_foldlM_pushModel href).mpr (.inr ⟨member, hmember, hname⟩))
  rw [hroot, hc.model] at hm'
  exact (Option.some.inj hm').symm

lemma Candidate.root_no_dot (hc : Candidate cat q r m pre) : '.' ∉ r.model.toList := by
  obtain hnil | ⟨member, _, hmember⟩ := (mem_foldlM_pushModel hc.roots).mp List.mem_cons_self
  · cases hnil
  · exact memberModel_no_dot hmember

/-- The base statement is over the rollup's model alone. -/
lemma Candidate.not_joined (hc : Candidate cat q r m pre) {referenced : List String}
    (href : referencedModels cat q = .ok referenced) :
    decide (1 < referenced.length) = false := by
  obtain ⟨referenced', href', hall⟩ := hc.single
  rw [href] at href'
  cases href'
  have hnodup := foldlM_pushModel_nodup href List.nodup_nil
  match referenced, hall, hnodup with
  | [], _, _ => rfl
  | [_], _, _ => rfl
  | x :: y :: rest, hall, hnodup =>
      have hxy : x = y := by rw [hall x (by simp), hall y (by simp)]
      simp [hxy] at hnodup

lemma dimensionItem_base (hc : Candidate cat q r m pre) {member : String}
    (hmember : member ∈ queryMembers q) {item : SqlExpr × String}
    (h : dimensionItem cat q.timeZone false member = .ok item) :
    baseDimItem m member = .ok item := by
  obtain ⟨m', hm', h⟩ := Fallible.bind_eq_ok.mp h
  rw [hc.owner hmember hm', hc.timeZone] at h
  exact h

lemma measureItem_base (hc : Candidate cat q r m pre) {member : String}
    (hmember : member ∈ queryMembers q) {item : SqlExpr × String}
    (h : measureItem cat false member = .ok item) : baseMeasureItem m member = .ok item := by
  obtain ⟨m', hm', h⟩ := Fallible.bind_eq_ok.mp h
  rw [hc.owner hmember hm'] at h
  obtain ⟨e, he, heq⟩ := Fallible.bind_eq_ok.mp h
  cases heq
  unfold resolveMeasureExpr at he
  unfold baseMeasureItem rollupMeasure
  split at he
  · cases he
  · next name hname =>
      split at he
      · cases he
      · next measure hmeasure =>
          cases he
          simp only [hname, hmeasure]
          rfl

/-- The base statement of a covered query, its items and conditions. -/
lemma Candidate.base_plan (hc : Candidate cat q r m pre) {stmt : Stmt}
    (h : compileMeasures ord cat q = .ok stmt)
    (hfilters : ∀ f ∈ q.filters, memberIsMeasure m f.member = false) :
    ∃ s dims measures, stmt = .select s ∧ q.dimensions.mapM (baseDimItem m) = .ok dims ∧
      q.measures.mapM (baseMeasureItem m) = .ok measures ∧ s.items = dims ++ measures ∧
      s.groupBy = dims.map Prod.fst ∧ q.filters.mapM (baseCond m) = .ok s.wheres ∧
      s.havings = [] ∧ resolveOrders q = .ok s.orders ∧
      s.limit = effectiveLimit q.limit (maxRows cat r.model) := by
  obtain ⟨roots, hroots, ⟨hlen, l, rfl, _⟩ | ⟨hlen, root, s, hroot, rfl, ⟨p⟩⟩⟩ :=
    compileMeasures_cases h
  · rw [hc.roots] at hroots
    cases hroots
    simp at hlen
  · rw [hc.roots] at hroots
    cases hroots
    cases hroot
    have hjoined := hc.not_joined p.referenced_eq
    have hdims := p.dimItems_eq
    have hmeasures := p.measureItems_eq
    have hconds := p.conds_eq
    rw [hjoined] at hdims hmeasures hconds
    have hpreds : p.preds = [] := by
      have hnone : (p.referenced.flatMap fun n =>
          (requiredPredicates cat n).map fun p => (n, p)) = [] := by
        obtain ⟨referenced, href, hall⟩ := hc.single
        rw [p.referenced_eq] at href
        cases href
        rw [List.flatMap_eq_nil_iff]
        intro n hn
        rw [hall n hn, hc.unrestricted, List.map_nil]
      have hok := p.preds_eq
      unfold boundPredicates at hok
      rw [hnone] at hok
      exact (Except.ok.inj hok).symm
    obtain ⟨hleft, hright⟩ := Fallible.mapM_inl (g := baseCond m) hconds fun f hf c hturn => by
      have hmember : f.member ∈ queryMembers q :=
        List.mem_append_right _ (List.mem_map_of_mem hf)
      cases c with
      | inl c =>
          obtain ⟨m', hm', _, hres⟩ := filterCond_inl.mp hturn
          rw [hc.owner hmember hm', hc.timeZone] at hres
          exact ⟨c, rfl, hres⟩
      | inr c =>
          obtain ⟨m', hm', hyes, _⟩ := filterCond_inr hturn
          rw [hc.owner hmember hm', hfilters f hf] at hyes
          cases hyes
    refine ⟨s, p.dimItems, p.measureItems, rfl, ?_, ?_, p.items, p.groupBy, ?_, ?_, p.orders_eq,
      p.limit⟩
    · exact Fallible.mapM_imp hdims fun d hd item hitem =>
        dimensionItem_base hc (by simp [queryMembers, hd]) hitem
    · exact Fallible.mapM_imp hmeasures fun d hd item hitem =>
        measureItem_base hc (by simp [queryMembers, hd]) hitem
    · rw [p.wheres, hpreds, List.append_nil]
      exact hleft
    · rw [p.havings]
      exact hright

/-- **The three statements of a covered query** side by side. -/
theorem rollup_plan (hc : Candidate cat q r m pre) (hnames : NamesChecked m) {stmt : Stmt}
    (hB : compileMeasures ord cat q = .ok stmt) {sR sP : Select}
    (hR : rollupMeasureSql cat q r = .ok sR) (hP : compilePreagg cat r.model r.preagg = .ok sP) :
    ∃ s, stmt = .select s ∧ Nonempty (RollupPlan r.model m pre q s sR sP) := by
  -- the materializing statement is that of the chosen pre-aggregation
  unfold compilePreagg at hP
  rw [hc.model] at hP
  have hfind : (m.preAggregations.find? fun p => p.name = r.preagg) = some pre := by
    cases hf : m.preAggregations.find? fun p => p.name = r.preagg with
    | none =>
        rw [List.find?_eq_none] at hf
        exact absurd hc.name (by simpa using hf pre hc.mem)
    | some pre' =>
        have hname := List.find?_some hf
        rw [decide_eq_true_iff, ← hc.name] at hname
        exact congrArg some (List.inj_on_of_nodup_map hnames.preAggregations
          (List.mem_of_find?_eq_some hf) hc.mem hname)
  simp only [hfind] at hP
  obtain ⟨preDims, hpreDims, hP⟩ := Fallible.bind_eq_ok.mp hP
  obtain ⟨preMeasures, hpreMeasures, hP⟩ := Fallible.bind_eq_ok.mp hP
  obtain ⟨table, _, heq⟩ := Fallible.bind_eq_ok.mp hP
  cases heq
  have hfilters := filters_on_dimensions hc hnames hc.root_no_dot hpreDims
  obtain ⟨s, dims, measures, rfl, hdims, hmeasures, hitems, hgroup, hwheres, hhavings, horders,
    hlimit⟩ := hc.base_plan hB hfilters
  -- the statement over the rollup
  unfold rollupMeasureSql at hR
  rw [hc.model] at hR
  dsimp only at hR
  obtain ⟨rollupDims, hrollupDims, hR⟩ := Fallible.bind_eq_ok.mp hR
  obtain ⟨rollupMeasures, hrollupMeasures, hR⟩ := Fallible.bind_eq_ok.mp hR
  obtain ⟨_, _, hR⟩ := Fallible.bind_eq_ok.mp hR
  obtain ⟨conds, hconds, hR⟩ := Fallible.bind_eq_ok.mp hR
  obtain ⟨orders, horders', heq⟩ := Fallible.bind_eq_ok.mp hR
  cases heq
  rw [horders] at horders'
  cases horders'
  obtain ⟨hleft, hright⟩ := Fallible.mapM_inl (g := rollupCond r.model) hconds
    fun f hf c hturn => by
      unfold rollupFilterCond at hturn
      rw [if_neg (by rw [hfilters f hf]; exact Bool.false_ne_true)] at hturn
      obtain ⟨e, he, hturn⟩ := Fallible.bind_eq_ok.mp hturn
      obtain ⟨c', hc', heq⟩ := Fallible.bind_eq_ok.mp hturn
      cases heq
      exact ⟨c', rfl, Fallible.bind_eq_ok.mpr ⟨e, he, hc'⟩⟩
  exact ⟨s, rfl, ⟨⟨dims, measures, rollupDims, rollupMeasures, preDims, preMeasures, hdims,
    hmeasures, hrollupDims, hrollupMeasures, hpreDims, hpreMeasures, hitems, rfl, rfl, hgroup,
    rfl, rfl, hwheres, hleft, rfl, hhavings, hright, rfl, rfl, hlimit⟩⟩⟩

end

end Semantic
end Pawrly
