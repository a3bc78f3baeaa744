import Pawrly.Semantic.Scoping
import Pawrly.Sql.Condition

/-!
# The conditions of a compiled statement

A `WHERE` clause of a compiled statement is a list of conditions (dimension filters, then
required predicates), a `FILTER` clause of an aggregate is the filter list of its measure.
Both are written with `AND` between the texts and without parentheses, so a text with an `OR`
at its top level changes what its neighbours mean.

`conjoined_iff` says when every clause of a statement is the conjunction of its parts.
-/

namespace Pawrly
namespace Sql

/-! ## The clauses of a statement -/

/-- The filter lists of the aggregates in an expression. -/
def SqlExpr.filterLists : SqlExpr → List (List String)
  | aggregate _ arg filters => filters :: arg.filterLists
  | dateTrunc _ arg => arg.filterLists
  | atTimeZone arg _ => arg.filterLists
  | raw _ => []
  | field _ _ => []
  | column _ => []
  | coalesce _ => []

/-- The filter lists of the aggregates a `SELECT` computes. -/
def Select.filterLists (s : Select) : List (List String) :=
  s.items.flatMap (fun item => item.1.filterLists) ++
    s.havings.flatMap fun c => (c.expr?.map SqlExpr.filterLists).getD []

/-- The filter lists of a statement; only its `SELECT`s over model tables aggregate. -/
def Stmt.filterLists (stmt : Stmt) : List (List String) :=
  stmt.selects.flatMap Select.filterLists

/-- The condition lists of the `WHERE` clauses of a statement. -/
def Stmt.whereLists : Stmt → List (List SqlCond)
  | select s => [s.wheres]
  | locality l => (l.ctes.map Prod.snd).map Select.wheres ++ [l.wheres]
  | metric _ inner => inner.whereLists

@[simp] lemma Stmt.whereLists_core (stmt : Stmt) : stmt.core.whereLists = stmt.whereLists := by
  induction stmt with
  | select s => rfl
  | locality l => rfl
  | metric m inner ih => exact ih

/-- Every `WHERE` and every `FILTER` of the statement is the conjunction of its parts, and the
parenthesis that ends a `FILTER` is read as such. -/
def Stmt.Conjoined (stmt : Stmt) : Prop :=
  (∀ conds ∈ stmt.whereLists, Conjunctive (conds.map SqlCond.render)) ∧
  ∀ texts ∈ stmt.filterLists, Conjunctive texts ∧
    (texts ≠ [] → Closed (Text.join " AND " texts))

end Sql

namespace Semantic

open Sql

/-! ## The condition lists of a query -/

/-- The measure a member names. -/
def measureOf (cat : SemanticCatalog) (member : String) : Option Measure :=
  match modelForMember cat member with
  | .ok model => (measureMemberName member).bind (findMeasure model)
  | .error _ => none

/-- The members a query aggregates: its measures and, with a single scan, the measures it
filters on. -/
def Aggregated (cat : SemanticCatalog) (q : SemanticQuery) (member : String) : Prop :=
  member ∈ q.measures ∨
    (∃ roots, measureRoots cat q = .ok roots ∧ roots.length < 2) ∧
      member ∈ q.filters.map SemanticFilter.member

/-- The filter list of a measure the query aggregates. -/
def FilterList (cat : SemanticCatalog) (q : SemanticQuery) (texts : List String) : Prop :=
  ∃ member, Aggregated cat q member ∧ ∃ measure, measureOf cat member = some measure ∧
    measure.filters = texts

/-- The condition texts of a scan, or of the measure filters over several roots. -/
inductive WhereList (cat : SemanticCatalog) (q : SemanticQuery) : List String → Prop
  | scan {ss sc conds preds} (scans_eq : scans cat q = .ok ss) (mem : sc ∈ ss)
      (conds_eq : dimensionConds cat q sc.joined = .ok conds)
      (preds_eq : boundPredicates cat q.params sc.mentioned = .ok preds) :
      WhereList cat q ((conds ++ preds).map SqlCond.render)
  | outer {roots dimFilters measureFilters conds} (roots_eq : measureRoots cat q = .ok roots)
      (several : 2 ≤ roots.length)
      (filters_eq : splitFilters cat q = .ok (dimFilters, measureFilters))
      (conds_eq : measureFilters.mapM ownedFilter = .ok conds) :
      WhereList cat q (conds.map SqlCond.render)

/-! ## The `WHERE` clauses -/

lemma Scanned.wheres_eq {ord : SetOrder} {cat : SemanticCatalog} {q : SemanticQuery}
    {sc : Scan} {s : Select} (h : Scanned ord cat q sc s) {conds preds : List SqlCond}
    (hconds : dimensionConds cat q sc.joined = .ok conds)
    (hpreds : boundPredicates cat q.params sc.mentioned = .ok preds) :
    s.wheres = conds ++ preds := by
  obtain ⟨conds', preds', hconds', hpreds', hwheres⟩ := h.wheres
  rw [hconds] at hconds'
  rw [hpreds] at hpreds'
  cases hconds'
  cases hpreds'
  exact hwheres

/-- The `WHERE` lists of the scans are those of the compiled `SELECT`s. -/
lemma whereList_scan_iff {ord : SetOrder} {cat : SemanticCatalog} {q : SemanticQuery}
    {ss : List Scan} {selects : List Select}
    (h : List.Forall₂ (Scanned ord cat q) ss selects) (texts : List String) :
    (∃ s ∈ selects, s.wheres.map SqlCond.render = texts) ↔
      ∃ sc ∈ ss, ∃ conds preds, dimensionConds cat q sc.joined = .ok conds ∧
        boundPredicates cat q.params sc.mentioned = .ok preds ∧
        (conds ++ preds).map SqlCond.render = texts := by
  constructor
  · rintro ⟨s, hs, rfl⟩
    obtain ⟨sc, hsc, hscan⟩ := Fallible.exists_left h hs
    obtain ⟨conds, preds, hconds, hpreds, hwheres⟩ := hscan.wheres
    exact ⟨sc, hsc, conds, preds, hconds, hpreds, by rw [hwheres]⟩
  · rintro ⟨sc, hsc, conds, preds, hconds, hpreds, rfl⟩
    obtain ⟨s, hs, hscan⟩ := Fallible.exists_right h hsc
    exact ⟨s, hs, by rw [hscan.wheres_eq hconds hpreds]⟩

lemma mem_whereLists_iff {ord : SetOrder} {cat : SemanticCatalog} {q : SemanticQuery}
    {stmt : Stmt} (h : compileMeasures ord cat q = .ok stmt) {texts : List String} :
    (∃ conds ∈ stmt.whereLists, conds.map SqlCond.render = texts) ↔ WhereList cat q texts := by
  obtain ⟨ss, hss, hscans⟩ := compileMeasures_scans h
  have hscan := whereList_scan_iff hscans texts
  obtain ⟨roots, hroots, ⟨hlen, l, rfl, ⟨p⟩⟩ | ⟨hlen, root, s, _, rfl, _⟩⟩ :=
    compileMeasures_cases h
  · have hlists : (∃ conds ∈ (Stmt.locality l).whereLists, conds.map SqlCond.render = texts) ↔
        (∃ s ∈ (Stmt.locality l).selects, s.wheres.map SqlCond.render = texts) ∨
          l.wheres.map SqlCond.render = texts := by
      simp only [Stmt.whereLists, Stmt.selects, List.mem_append, List.mem_singleton,
        or_and_right, exists_or, exists_eq_left, List.mem_map (f := Select.wheres),
        exists_exists_and_eq_and]
    rw [hlists, hscan]
    constructor
    · rintro (⟨sc, hsc, conds, preds, hconds, hpreds, rfl⟩ | rfl)
      · exact .scan hss hsc hconds hpreds
      · exact .outer hroots hlen p.filters_eq p.wheres_eq
    · intro hlist
      cases hlist with
      | scan hss' hsc hconds hpreds =>
          rw [hss] at hss'
          cases hss'
          exact .inl ⟨_, hsc, _, _, hconds, hpreds, rfl⟩
      | outer _ _ hfilters hconds =>
          rw [p.filters_eq] at hfilters
          cases hfilters
          rw [p.wheres_eq] at hconds
          cases hconds
          exact .inr rfl
  · have hlists : (∃ conds ∈ (Stmt.select s).whereLists, conds.map SqlCond.render = texts) ↔
        ∃ s' ∈ (Stmt.select s).selects, s'.wheres.map SqlCond.render = texts := by
      simp [Stmt.whereLists, Stmt.selects]
    rw [hlists, hscan]
    constructor
    · rintro ⟨sc, hsc, conds, preds, hconds, hpreds, rfl⟩
      exact .scan hss hsc hconds hpreds
    · intro hlist
      cases hlist with
      | scan hss' hsc hconds hpreds =>
          rw [hss] at hss'
          cases hss'
          exact ⟨_, hsc, _, _, hconds, hpreds, rfl⟩
      | outer hroots' hlen' _ _ =>
          rw [hroots] at hroots'
          cases hroots'
          omega

/-! ## The `FILTER` clauses -/

lemma measureOf_model {cat : SemanticCatalog} {member : String} {measure : Measure}
    (h : measureOf cat member = some measure) :
    ∃ model, modelForMember cat member = .ok model := by
  unfold measureOf at h
  split at h
  · next model hmodel => exact ⟨model, hmodel⟩
  · cases h

lemma qualify_filterLists (expr : String) (alias? : Option String) :
    (qualify expr alias?).filterLists = [] := by
  unfold qualify
  split
  · split_ifs <;> rfl
  · rfl

lemma resolveDimensionExpr_filterLists {model : SemanticModel} {member : String}
    {alias? tz : Option String} {e : SqlExpr}
    (h : resolveDimensionExpr model member alias? tz = .ok e) : e.filterLists = [] := by
  obtain ⟨⟨dimName, grain?⟩, _, h⟩ := Fallible.bind_eq_ok.mp h
  dsimp only at h
  split at h
  · cases h
  · next dim _ =>
      split at h
      · cases h
        exact qualify_filterLists dim.expr alias?
      · split at h
        · cases h
        · split_ifs at h
          cases h
          cases tz <;> exact qualify_filterLists dim.expr alias?

lemma resolveMeasureExpr_filterLists {cat : SemanticCatalog} {model : SemanticModel}
    {member : String} {alias? : Option String} {e : SqlExpr}
    (hmodel : modelForMember cat member = .ok model)
    (h : resolveMeasureExpr model member alias? = .ok e) :
    ∃ measure, measureOf cat member = some measure ∧ e.filterLists = [measure.filters] := by
  unfold resolveMeasureExpr at h
  split at h
  · cases h
  · next name hname =>
      split at h
      · cases h
      · next measure hmeasure =>
          cases h
          refine ⟨measure, ?_, ?_⟩
          · unfold measureOf
            rw [hmodel, hname]
            exact hmeasure
          · unfold aggSql SqlExpr.filterLists
            rw [qualify_filterLists]

/-- The dimension items of a `SELECT` aggregate nothing. -/
lemma dimensionItems_filterLists {cat : SemanticCatalog} {tz : Option String} {joined : Bool}
    {dims : List String} {items : List (SqlExpr × String)}
    (h : dims.mapM (dimensionItem cat tz joined) = .ok items) :
    items.flatMap (fun item => item.1.filterLists) = [] := by
  rw [List.flatMap_eq_nil_iff]
  intro item hitem
  obtain ⟨d, _, hturn⟩ := Fallible.mem_of_mapM h hitem
  obtain ⟨model, _, hturn⟩ := Fallible.bind_eq_ok.mp hturn
  obtain ⟨e, he, heq⟩ := Fallible.bind_eq_ok.mp hturn
  cases heq
  exact resolveDimensionExpr_filterLists he

lemma measureItem_filterLists {cat : SemanticCatalog} {joined : Bool} {member : String}
    {item : SqlExpr × String} (h : measureItem cat joined member = .ok item) :
    ∃ measure, measureOf cat member = some measure ∧ item.1.filterLists = [measure.filters] := by
  obtain ⟨model, hmodel, h⟩ := Fallible.bind_eq_ok.mp h
  obtain ⟨e, he, heq⟩ := Fallible.bind_eq_ok.mp h
  cases heq
  exact resolveMeasureExpr_filterLists hmodel he

/-- The filter lists of measure items are those of their measures. -/
lemma mem_measureItems_filterLists {cat : SemanticCatalog} {joined : Bool}
    {measures : List String} {items : List (SqlExpr × String)}
    (h : measures.mapM (measureItem cat joined) = .ok items) {texts : List String} :
    texts ∈ items.flatMap (fun item => item.1.filterLists) ↔
      ∃ member ∈ measures, ∃ measure, measureOf cat member = some measure ∧
        measure.filters = texts := by
  rw [List.mem_flatMap]
  constructor
  · rintro ⟨item, hitem, htexts⟩
    obtain ⟨member, hmember, hturn⟩ := Fallible.mem_of_mapM h hitem
    obtain ⟨measure, hmeasure, hlists⟩ := measureItem_filterLists hturn
    rw [hlists, List.mem_singleton] at htexts
    exact ⟨member, hmember, measure, hmeasure, htexts.symm⟩
  · rintro ⟨member, hmember, measure, hmeasure, rfl⟩
    obtain ⟨item, hitem, hturn⟩ := Fallible.exists_of_mapM h hmember
    obtain ⟨measure', hmeasure', hlists⟩ := measureItem_filterLists hturn
    rw [hmeasure] at hmeasure'
    cases hmeasure'
    exact ⟨item, hitem, by simp [hlists]⟩

lemma filterCond_inr_filterLists {cat : SemanticCatalog} {tz : Option String} {joined : Bool}
    {f : SemanticFilter} {c : SqlCond} (h : filterCond cat tz joined f = .ok (.inr c)) :
    ∃ measure, measureOf cat f.member = some measure ∧
      (c.expr?.map SqlExpr.filterLists).getD [] = [measure.filters] := by
  obtain ⟨model, hmodel, _, hres⟩ := filterCond_inr h
  obtain ⟨e, he, happly⟩ := Fallible.bind_eq_ok.mp hres
  obtain ⟨measure, hmeasure, hlists⟩ := resolveMeasureExpr_filterLists hmodel he
  refine ⟨measure, hmeasure, ?_⟩
  rw [applyOp_expr happly, Option.map_some, Option.getD_some, hlists]

/-- A filter on a measure becomes an aggregate-level condition. -/
lemma filterCond_of_measureOf {cat : SemanticCatalog} {tz : Option String} {joined : Bool}
    {f : SemanticFilter} {r : SqlCond ⊕ SqlCond} (h : filterCond cat tz joined f = .ok r)
    {measure : Measure} (hmeasure : measureOf cat f.member = some measure) :
    ∃ c, r = .inr c := by
  cases r with
  | inr c => exact ⟨c, rfl⟩
  | inl c =>
      obtain ⟨model, hmodel, hno, _⟩ := filterCond_inl.mp h
      unfold measureOf at hmeasure
      rw [hmodel] at hmeasure
      obtain ⟨name, hname, hfind⟩ := Option.bind_eq_some_iff.mp hmeasure
      unfold memberIsMeasure at hno
      rw [hname] at hno
      simp [hfind] at hno

/-- The filter lists of `HAVING` conditions are those of the measures filtered on. -/
lemma mem_havings_filterLists {cat : SemanticCatalog} {tz : Option String} {joined : Bool}
    {filters : List SemanticFilter} {conds : List (SqlCond ⊕ SqlCond)}
    (h : filters.mapM (filterCond cat tz joined) = .ok conds) {texts : List String} :
    texts ∈ (conds.filterMap Sum.getRight?).flatMap
        (fun c => (c.expr?.map SqlExpr.filterLists).getD []) ↔
      ∃ member ∈ filters.map SemanticFilter.member, ∃ measure,
        measureOf cat member = some measure ∧ measure.filters = texts := by
  rw [List.mem_flatMap]
  constructor
  · rintro ⟨c, hc, htexts⟩
    obtain ⟨r, hr, hright⟩ := List.mem_filterMap.mp hc
    rw [Sum.getRight?_eq_some_iff] at hright
    subst hright
    obtain ⟨f, hf, hturn⟩ := Fallible.mem_of_mapM h hr
    obtain ⟨measure, hmeasure, hlists⟩ := filterCond_inr_filterLists hturn
    rw [hlists, List.mem_singleton] at htexts
    exact ⟨f.member, List.mem_map_of_mem hf, measure, hmeasure, htexts.symm⟩
  · rintro ⟨member, hmember, measure, hmeasure, rfl⟩
    obtain ⟨f, hf, rfl⟩ := List.mem_map.mp hmember
    obtain ⟨r, hr, hturn⟩ := Fallible.exists_of_mapM h hf
    obtain ⟨c, rfl⟩ := filterCond_of_measureOf hturn hmeasure
    obtain ⟨measure', hmeasure', hlists⟩ := filterCond_inr_filterLists hturn
    rw [hmeasure] at hmeasure'
    cases hmeasure'
    exact ⟨c, List.mem_filterMap.mpr ⟨_, hr, rfl⟩, by simp [hlists]⟩

lemma SinglePlan.mem_filterLists {ord : SetOrder} {cat : SemanticCatalog} {q : SemanticQuery}
    {root : String} {hasMeasures : Bool} {s : Select}
    (p : SinglePlan ord cat q root hasMeasures s) {texts : List String} :
    texts ∈ s.filterLists ↔ ∃ member ∈ q.measures ++ q.filters.map SemanticFilter.member,
      ∃ measure, measureOf cat member = some measure ∧ measure.filters = texts := by
  unfold Select.filterLists
  rw [p.items, p.havings, List.flatMap_append, dimensionItems_filterLists p.dimItems_eq,
    List.nil_append, List.mem_append, mem_measureItems_filterLists p.measureItems_eq,
    mem_havings_filterLists p.conds_eq]
  simp only [List.mem_append, or_and_right, exists_or]

lemma CtePlan.mem_filterLists {ord : SetOrder} {cat : SemanticCatalog} {q : SemanticQuery}
    {dimFilters : List SemanticFilter} {root : String} {s : Select}
    (p : CtePlan ord cat q dimFilters root s) {texts : List String} :
    texts ∈ s.filterLists ↔ ∃ member ∈ q.measures.filter (ownedBy root),
      ∃ measure, measureOf cat member = some measure ∧ measure.filters = texts := by
  unfold Select.filterLists
  rw [p.items, p.havings, List.flatMap_append, dimensionItems_filterLists p.dimItems_eq,
    List.nil_append, List.flatMap_nil, List.append_nil,
    mem_measureItems_filterLists p.measureItems_eq]

lemma mem_filterLists_iff {ord : SetOrder} {cat : SemanticCatalog} {q : SemanticQuery}
    {stmt : Stmt} (h : compileMeasures ord cat q = .ok stmt) {texts : List String} :
    texts ∈ stmt.filterLists ↔ FilterList cat q texts := by
  unfold Stmt.filterLists FilterList Aggregated
  obtain ⟨roots, hroots, ⟨hlen, l, rfl, ⟨p⟩⟩ | ⟨hlen, root, s, _, rfl, ⟨p⟩⟩⟩ :=
    compileMeasures_cases h
  · have hseveral : ¬ ∃ roots, measureRoots cat q = .ok roots ∧ roots.length < 2 := by
      rintro ⟨roots', hroots', hlen'⟩
      rw [hroots] at hroots'
      cases hroots'
      omega
    simp only [Stmt.selects, List.mem_flatMap, hseveral, false_and, or_false]
    constructor
    · rintro ⟨s, hs, htexts⟩
      obtain ⟨c, hc, rfl⟩ := List.mem_map.mp hs
      obtain ⟨root, _, _, ⟨cp⟩⟩ := p.cte_plan hc
      obtain ⟨member, hmember, hmeasure⟩ := cp.mem_filterLists.mp htexts
      exact ⟨member, List.mem_of_mem_filter hmember, hmeasure⟩
    · -- a measure is aggregated in the CTE of its own model
      rintro ⟨member, hmember, measure, hmeasure, hfilters⟩
      obtain ⟨model, hmodel⟩ := measureOf_model hmeasure
      have howner := (modelForMember_name hmodel).1
      have hroot : model.name ∈ roots :=
        (mem_foldlM_pushModel hroots).mpr (.inr ⟨member, hmember, howner⟩)
      obtain ⟨s, hs⟩ := p.exists_cte hroot
      obtain ⟨root, _, hname, ⟨cp⟩⟩ := p.cte_plan hs
      have hrr := cteName_injective hname
      subst hrr
      exact ⟨s, List.mem_map_of_mem hs, cp.mem_filterLists.mpr
        ⟨member, List.mem_filter.mpr ⟨hmember, ownedBy_iff.mpr howner⟩, measure, hmeasure,
          hfilters⟩⟩
  · have hsingle : ∃ roots, measureRoots cat q = .ok roots ∧ roots.length < 2 :=
      ⟨roots, hroots, hlen⟩
    simp only [Stmt.selects, List.flatMap_cons, List.flatMap_nil, List.append_nil, hsingle,
      true_and]
    rw [p.mem_filterLists]
    simp only [List.mem_append]

/-! ## Whole statements -/

/-- Orders are restricted to one tenant and to those that are public or European. -/
def regionCatalog : SemanticCatalog := SemanticCatalog.new
  [{ name := "orders"
     source := "shop.orders"
     measures := [{ name := "revenue", agg := .sum, expr := "amount" }]
     safety := some { requiredPredicates :=
       ["public OR region = 'eu'", "tenant = $\x7bparam:tenant\x7d"] } }]

def totalRevenue : SemanticQuery where
  measures := ["orders.revenue"]
  params := [("tenant", "acme")]

def totalRevenueStmt : Stmt := .select
  { items := [(.aggregate .sum (.raw "amount") [], "orders.revenue")]
    source := { root := "orders", table := ⟨"shop", "orders"⟩, aliased := false }
    wheres := [.raw "public OR region = 'eu'", .raw "tenant = 'acme'"]
    groupBy := [] }

lemma totalRevenue_compiles :
    compileStmt .insertion regionCatalog totalRevenue = .ok totalRevenueStmt := by
  decide

lemma totalRevenue_core :
    coreQuery regionCatalog totalRevenue = .ok (regionCatalog, totalRevenue) := by
  rfl

/-- The condition lists of the query. -/
lemma totalRevenue_lists {texts : List String}
    (h : WhereList regionCatalog totalRevenue texts ∨
      FilterList regionCatalog totalRevenue texts) :
    texts = ["public OR region = 'eu'", "tenant = 'acme'"] ∨ texts = [] := by
  have hcompile : compileMeasures .insertion regionCatalog totalRevenue =
      .ok totalRevenueStmt := by
    decide
  rw [← mem_whereLists_iff hcompile, ← mem_filterLists_iff hcompile] at h
  rcases h with ⟨conds, hconds, rfl⟩ | htexts
  · rw [List.mem_singleton.mp hconds]
    exact .inl rfl
  · exact .inr (List.mem_singleton.mp htexts)

/-- A public order of another tenant. -/
def publicOnly (o : Sql.Operand) : Truth := if o = [.word "public".toList] then .yes else .no

/-- The public orders of every tenant pass the `WHERE` of the compiled statement. -/
lemma totalRevenue_widened : ¬ totalRevenueStmt.Conjoined := by
  rintro ⟨hwhere, -⟩
  have hconj := hwhere _ List.mem_cons_self (by simp)
    publicOnly [.yes, .no] (.cons (by decide) (.cons (by decide) .nil))
  have hjoined : denote publicOnly (Text.join " AND "
      ["public OR region = 'eu'", "tenant = 'acme'"]) = some .yes := by
    decide
  have hvalue : denote publicOnly (Text.join " AND "
      ["public OR region = 'eu'", "tenant = 'acme'"]) = some .no := hconj
  rw [hjoined] at hvalue
  cases hvalue

end Semantic
end Pawrly
