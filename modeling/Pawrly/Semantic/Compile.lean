import Pawrly.Semantic.JoinTree

/-!
# Compiling measure queries

`compile_single` compiles a query with at most one measure root into one `SELECT`;
`compile_aggregate_locality` compiles a query with several roots into one CTE for each root,
joined on the shared dimensions.  Both are translated step by step from
`pawrly-semantic/src/lib.rs`, with the checks in the order of the source.

`SinglePlan` and `CtePlan` record what a successful compile computed on the way; they are the
only facts about the two functions that later modules use.
-/

namespace Pawrly
namespace Semantic

open Sql

/-! ## Diagnostics and shared checks -/

/-- The member's model is `root`. -/
def ownedBy (root member : String) : Bool :=
  match memberModel member with
  | .ok m => m = root
  | .error _ => false

lemma ownedBy_iff {root member : String} :
    ownedBy root member = true ↔ memberModel member = .ok root := by
  unfold ownedBy
  split
  · next m h => simp [h]
  · next e h => simp [h]

/-- The first measure member owned by `root`, or the root name. -/
def firstMeasureMember (q : SemanticQuery) (root : String) : String :=
  (q.measures.find? (ownedBy root)).getD root

/-- The first query member whose model is `model`, or the model name. -/
def firstMemberForModel (q : SemanticQuery) (model : String) : String :=
  ((queryMembers q).find? (ownedBy model)).getD model

/-- A model other than the root is connected to it, by a unique shortest path and, when
measures are aggregated, without fan-out. -/
def checkLookup (reach : Reach) (root disconnected measure : String) (hasMeasures : Bool)
    (model : String) : Except SemanticError Unit :=
  if model = root then .ok ()
  else
    match reach.lookup model with
    | none => .error (.disconnectedMember disconnected)
    | some node =>
        if node.ambiguous then .error (.ambiguousJoinPath root model)
        else if hasMeasures && node.fansOut then .error (.fanOut measure model)
        else .ok ()

/-- A dimension as a `SELECT` item under its member name. -/
def dimensionItem (cat : SemanticCatalog) (tz : Option String) (joined : Bool)
    (member : String) : Except SemanticError (SqlExpr × String) := do
  let model ← modelForMember cat member
  let expr ← resolveDimensionExpr model member (if joined then some model.name else none) tz
  .ok (expr, member)

/-- A measure as a `SELECT` item under its member name. -/
def measureItem (cat : SemanticCatalog) (joined : Bool) (member : String) :
    Except SemanticError (SqlExpr × String) := do
  let model ← modelForMember cat member
  let expr ← resolveMeasureExpr model member (if joined then some model.name else none)
  .ok (expr, member)

/-- A filter as a row-level condition (left) or an aggregate-level one (right). -/
def filterCond (cat : SemanticCatalog) (tz : Option String) (joined : Bool)
    (f : SemanticFilter) : Except SemanticError (SqlCond ⊕ SqlCond) := do
  let model ← modelForMember cat f.member
  let alias? := if joined then some model.name else none
  if memberIsMeasure model f.member then do
    let c ← resolveMeasureFilter model f alias?
    .ok (.inr c)
  else do
    let c ← resolveFilter model f alias? tz
    .ok (.inl c)

/-! ## One measure root -/

/-- Compile a query whose measures all belong to `root`, or that has none. -/
def compileSingle (ord : SetOrder) (cat : SemanticCatalog) (q : SemanticQuery) (root : String)
    (hasMeasures : Bool) : Except SemanticError Select := do
  let referenced ← referencedModels cat q
  let reach := reachability cat root
  let _ ← referenced.mapM fun m =>
    checkLookup reach root (firstMemberForModel q m) (firstMeasureMember q root) hasMeasures m
  let joined := decide (1 < referenced.length)
  let dimItems ← q.dimensions.mapM (dimensionItem cat q.timeZone joined)
  let measureItems ← q.measures.mapM (measureItem cat joined)
  let needed ← neededModels ord reach referenced root
  let source ← renderFrom cat root reach needed joined
  let _ ← enforceFilterSafety cat root q
  let conds ← q.filters.mapM (filterCond cat q.timeZone joined)
  -- Row-level security and always-on filters come after the user's own conditions.
  let preds ← boundPredicates cat q.params referenced
  let orders ← resolveOrders q
  .ok { items := dimItems ++ measureItems
        source := source
        wheres := conds.filterMap Sum.getLeft? ++ preds
        groupBy := dimItems.map Prod.fst
        havings := conds.filterMap Sum.getRight?
        orders := orders
        limit := effectiveLimit q.limit (maxRows cat root) }

/-- What a successful `compile_single` computed. -/
structure SinglePlan (ord : SetOrder) (cat : SemanticCatalog) (q : SemanticQuery)
    (root : String) (hasMeasures : Bool) (s : Select) where
  referenced : List String
  needed : List String
  dimItems : List (SqlExpr × String)
  measureItems : List (SqlExpr × String)
  conds : List (SqlCond ⊕ SqlCond)
  preds : List SqlCond
  referenced_eq : referencedModels cat q = .ok referenced
  checked : ∀ m ∈ referenced, m ≠ root → ∃ n, (reachability cat root).lookup m = some n ∧
    n.ambiguous = false ∧ (hasMeasures = true → n.fansOut = false)
  dimItems_eq : q.dimensions.mapM
    (dimensionItem cat q.timeZone (decide (1 < referenced.length))) = .ok dimItems
  measureItems_eq : q.measures.mapM (measureItem cat (decide (1 < referenced.length))) =
    .ok measureItems
  needed_eq : neededModels ord (reachability cat root) referenced root = .ok needed
  source_eq : renderFrom cat root (reachability cat root) needed
    (decide (1 < referenced.length)) = .ok s.source
  conds_eq : q.filters.mapM (filterCond cat q.timeZone (decide (1 < referenced.length))) =
    .ok conds
  preds_eq : boundPredicates cat q.params referenced = .ok preds
  orders_eq : resolveOrders q = .ok s.orders
  items : s.items = dimItems ++ measureItems
  wheres : s.wheres = conds.filterMap Sum.getLeft? ++ preds
  groupBy : s.groupBy = dimItems.map Prod.fst
  havings : s.havings = conds.filterMap Sum.getRight?
  limit : s.limit = effectiveLimit q.limit (maxRows cat root)

lemma checkLookup_spec {reach : Reach} {root disconnected measure model : String}
    {hasMeasures : Bool} {u : Unit}
    (h : checkLookup reach root disconnected measure hasMeasures model = .ok u)
    (hne : model ≠ root) : ∃ n, reach.lookup model = some n ∧ n.ambiguous = false ∧
      (hasMeasures = true → n.fansOut = false) := by
  unfold checkLookup at h
  rw [if_neg hne] at h
  split at h
  · cases h
  · next n hn =>
      obtain ⟨hamb, h⟩ := Fallible.ite_error_eq_ok.mp h
      obtain ⟨hfan, _⟩ := Fallible.ite_error_eq_ok.mp h
      refine ⟨n, hn, by simpa using hamb, fun hm => ?_⟩
      simpa [hm] using hfan

lemma compileSingle_plan {ord : SetOrder} {cat : SemanticCatalog} {q : SemanticQuery}
    {root : String} {hasMeasures : Bool} {s : Select}
    (h : compileSingle ord cat q root hasMeasures = .ok s) :
    Nonempty (SinglePlan ord cat q root hasMeasures s) := by
  unfold compileSingle at h
  obtain ⟨referenced, href, h⟩ := Fallible.bind_eq_ok.mp h
  obtain ⟨us, hcheck, h⟩ := Fallible.bind_eq_ok.mp h
  obtain ⟨dimItems, hdims, h⟩ := Fallible.bind_eq_ok.mp h
  obtain ⟨measureItems, hmeas, h⟩ := Fallible.bind_eq_ok.mp h
  obtain ⟨needed, hneed, h⟩ := Fallible.bind_eq_ok.mp h
  obtain ⟨source, hsource, h⟩ := Fallible.bind_eq_ok.mp h
  obtain ⟨_, _, h⟩ := Fallible.bind_eq_ok.mp h
  obtain ⟨conds, hconds, h⟩ := Fallible.bind_eq_ok.mp h
  obtain ⟨preds, hpreds, h⟩ := Fallible.bind_eq_ok.mp h
  obtain ⟨orders, horders, h⟩ := Fallible.bind_eq_ok.mp h
  cases h
  refine ⟨⟨referenced, needed, dimItems, measureItems, conds, preds, href, ?_, hdims, hmeas,
    hneed, hsource, hconds, hpreds, horders, rfl, rfl, rfl, rfl, rfl⟩⟩
  intro m hm hne
  obtain ⟨u, _, hu⟩ := Fallible.exists_of_mapM hcheck hm
  exact checkLookup_spec hu hne

/-! ## Several measure roots -/

/-- The name of a root's CTE. -/
def cteName (root : String) : String := "_" ++ root

/-- A column of a root's CTE. -/
def cteColumn (root col : String) : Column := ⟨.quoted (cteName root), col⟩

/-- The query's filters, dimension filters first. -/
def splitFilters (cat : SemanticCatalog) (q : SemanticQuery) :
    Except SemanticError (List SemanticFilter × List SemanticFilter) := do
  let tagged ← q.filters.mapM fun f => do
    let model ← modelForMember cat f.member
    .ok (f, memberIsMeasure model f.member)
  .ok ((tagged.filter fun t => !t.2).map Prod.fst, (tagged.filter fun t => t.2).map Prod.fst)

/-- One member of a CTE: its model must be a safe lookup from the root. -/
def consider (cat : SemanticCatalog) (reach : Reach) (q : SemanticQuery) (root : String)
    (referenced : List String) (member : String) : Except SemanticError (List String) := do
  let m ← modelForMember cat member
  let _ ← checkLookup reach root member (firstMeasureMember q root) true m.name
  .ok (if m.name ∈ referenced then referenced else referenced ++ [m.name])

/-- The body of the CTE of one measure root. -/
def compileCte (ord : SetOrder) (cat : SemanticCatalog) (q : SemanticQuery)
    (dimFilters : List SemanticFilter) (root : String) : Except SemanticError Select := do
  let reach := reachability cat root
  let referenced ← (q.dimensions ++ dimFilters.map SemanticFilter.member).foldlM
    (consider cat reach q root) [root]
  let needed ← neededModels ord reach referenced root
  let source ← renderFrom cat root reach needed true
  let dimItems ← q.dimensions.mapM (dimensionItem cat q.timeZone true)
  let measureItems ← (q.measures.filter (ownedBy root)).mapM (measureItem cat true)
  let conds ← dimFilters.mapM fun f => do
    let model ← modelForMember cat f.member
    resolveFilter model f (some model.name) q.timeZone
  let preds ← boundPredicates cat q.params referenced
  .ok { items := dimItems ++ measureItems
        source := source
        wheres := conds ++ preds
        groupBy := dimItems.map Prod.fst }

/-- The outer `FROM`: every further CTE is joined on the shared dimensions coalesced over the
CTEs before it, or crossed in when there are none. -/
def cteLinks (dims : List String) : List String → List String → List CteLink
  | _, [] => []
  | prev, r :: rest =>
      (if dims.isEmpty then .cross (cteName r)
        else .fullOuter (cteName r)
          (dims.map fun d => (prev.map fun p => cteColumn p d, cteColumn r d))) ::
        cteLinks dims (prev ++ [r]) rest

/-- The tightest row cap of the roots. -/
def tightestCap (cat : SemanticCatalog) (roots : List String) : Option ℕ :=
  roots.foldl (fun cap root =>
    match maxRows cat root with
    | some c =>
        some (match cap with
          | some x => min x c
          | none => c)
    | none => cap) none

/-- A measure of the outer `SELECT`, read from the CTE of its model. -/
def ownedItem (member : String) : Except SemanticError (SqlExpr × String) := do
  let root ← memberModel member
  .ok (.column (cteColumn root member), member)

/-- A measure filter of the outer statement, on the column of the owning CTE. -/
def ownedFilter (f : SemanticFilter) : Except SemanticError SqlCond := do
  let root ← memberModel f.member
  applyOp (.column (cteColumn root f.member)) f true

/-- Compile a query over several measure roots in aggregate-locality form. -/
def compileAggregateLocality (ord : SetOrder) (cat : SemanticCatalog) (q : SemanticQuery)
    (roots : List String) : Except SemanticError LocalityStmt := do
  let (dimFilters, measureFilters) ← splitFilters cat q
  let _ ← roots.mapM fun root => enforceFilterSafety cat root q
  let ctes ← roots.mapM fun root => do
    let body ← compileCte ord cat q dimFilters root
    .ok (cteName root, body)
  let measureItems ← q.measures.mapM ownedItem
  let wheres ← measureFilters.mapM ownedFilter
  let orders ← resolveOrders q
  .ok { ctes := ctes
        items := (q.dimensions.map fun d =>
          (.coalesce (roots.map fun r => cteColumn r d), d)) ++ measureItems
        first := cteName (roots.headD "")
        links := cteLinks q.dimensions (roots.take 1) (roots.drop 1)
        wheres := wheres
        orders := orders
        limit := effectiveLimit q.limit (tightestCap cat roots) }

/-- What a successful compile of one CTE computed. -/
structure CtePlan (ord : SetOrder) (cat : SemanticCatalog) (q : SemanticQuery)
    (dimFilters : List SemanticFilter) (root : String) (s : Select) where
  referenced : List String
  needed : List String
  dimItems : List (SqlExpr × String)
  measureItems : List (SqlExpr × String)
  conds : List SqlCond
  preds : List SqlCond
  referenced_eq : (q.dimensions ++ dimFilters.map SemanticFilter.member).foldlM
    (consider cat (reachability cat root) q root) [root] = .ok referenced
  needed_eq : neededModels ord (reachability cat root) referenced root = .ok needed
  source_eq : renderFrom cat root (reachability cat root) needed true = .ok s.source
  dimItems_eq : q.dimensions.mapM (dimensionItem cat q.timeZone true) = .ok dimItems
  measureItems_eq : (q.measures.filter (ownedBy root)).mapM (measureItem cat true) =
    .ok measureItems
  conds_eq : (dimFilters.mapM fun f => do
    let model ← modelForMember cat f.member
    resolveFilter model f (some model.name) q.timeZone) = .ok conds
  preds_eq : boundPredicates cat q.params referenced = .ok preds
  items : s.items = dimItems ++ measureItems
  wheres : s.wheres = conds ++ preds
  groupBy : s.groupBy = dimItems.map Prod.fst
  havings : s.havings = []
  orders : s.orders = []
  limit : s.limit = none

lemma compileCte_plan {ord : SetOrder} {cat : SemanticCatalog} {q : SemanticQuery}
    {dimFilters : List SemanticFilter} {root : String} {s : Select}
    (h : compileCte ord cat q dimFilters root = .ok s) :
    Nonempty (CtePlan ord cat q dimFilters root s) := by
  unfold compileCte at h
  obtain ⟨referenced, href, h⟩ := Fallible.bind_eq_ok.mp h
  obtain ⟨needed, hneed, h⟩ := Fallible.bind_eq_ok.mp h
  obtain ⟨source, hsource, h⟩ := Fallible.bind_eq_ok.mp h
  obtain ⟨dimItems, hdims, h⟩ := Fallible.bind_eq_ok.mp h
  obtain ⟨measureItems, hmeas, h⟩ := Fallible.bind_eq_ok.mp h
  obtain ⟨conds, hconds, h⟩ := Fallible.bind_eq_ok.mp h
  obtain ⟨preds, hpreds, h⟩ := Fallible.bind_eq_ok.mp h
  cases h
  exact ⟨⟨referenced, needed, dimItems, measureItems, conds, preds, href, hneed, hsource,
    hdims, hmeas, hconds, hpreds, rfl, rfl, rfl, rfl, rfl, rfl⟩⟩

/-- What a successful `compile_aggregate_locality` computed. -/
structure LocalityPlan (ord : SetOrder) (cat : SemanticCatalog) (q : SemanticQuery)
    (roots : List String) (l : LocalityStmt) where
  dimFilters : List SemanticFilter
  measureFilters : List SemanticFilter
  measureItems : List (SqlExpr × String)
  filters_eq : splitFilters cat q = .ok (dimFilters, measureFilters)
  ctes_eq : (roots.mapM fun root => do
    let body ← compileCte ord cat q dimFilters root
    .ok (cteName root, body)) = .ok l.ctes
  measureItems_eq : q.measures.mapM ownedItem = .ok measureItems
  wheres_eq : measureFilters.mapM ownedFilter = .ok l.wheres
  orders_eq : resolveOrders q = .ok l.orders
  items : l.items = (q.dimensions.map fun d =>
    (.coalesce (roots.map fun r => cteColumn r d), d)) ++ measureItems
  first : l.first = cteName (roots.headD "")
  links : l.links = cteLinks q.dimensions (roots.take 1) (roots.drop 1)
  limit : l.limit = effectiveLimit q.limit (tightestCap cat roots)

lemma compileAggregateLocality_plan {ord : SetOrder} {cat : SemanticCatalog}
    {q : SemanticQuery} {roots : List String} {l : LocalityStmt}
    (h : compileAggregateLocality ord cat q roots = .ok l) :
    Nonempty (LocalityPlan ord cat q roots l) := by
  unfold compileAggregateLocality at h
  obtain ⟨⟨dimFilters, measureFilters⟩, hfilters, h⟩ := Fallible.bind_eq_ok.mp h
  obtain ⟨_, _, h⟩ := Fallible.bind_eq_ok.mp h
  obtain ⟨ctes, hctes, h⟩ := Fallible.bind_eq_ok.mp h
  obtain ⟨measureItems, hmeas, h⟩ := Fallible.bind_eq_ok.mp h
  obtain ⟨wheres, hwheres, h⟩ := Fallible.bind_eq_ok.mp h
  obtain ⟨orders, horders, h⟩ := Fallible.bind_eq_ok.mp h
  cases h
  exact ⟨⟨dimFilters, measureFilters, measureItems, hfilters, hctes, hmeas, hwheres, horders,
    rfl, rfl, rfl, rfl⟩⟩

/-- The CTEs of a locality statement are those of its roots, in order. -/
lemma LocalityPlan.cte_names {ord : SetOrder} {cat : SemanticCatalog} {q : SemanticQuery}
    {roots : List String} {l : LocalityStmt} (p : LocalityPlan ord cat q roots l) :
    l.ctes.map Prod.fst = roots.map cteName := by
  refine Fallible.map_of_mapM p.ctes_eq (k := cteName) fun root c hc => ?_
  obtain ⟨body, _, heq⟩ := Fallible.bind_eq_ok.mp hc
  cases heq
  rfl

lemma LocalityPlan.cte_plan {ord : SetOrder} {cat : SemanticCatalog} {q : SemanticQuery}
    {roots : List String} {l : LocalityStmt} (p : LocalityPlan ord cat q roots l)
    {c : String × Select} (hc : c ∈ l.ctes) :
    ∃ root ∈ roots, c.1 = cteName root ∧ Nonempty (CtePlan ord cat q p.dimFilters root c.2) := by
  obtain ⟨root, hroot, h⟩ := Fallible.mem_of_mapM p.ctes_eq hc
  obtain ⟨body, hbody, heq⟩ := Fallible.bind_eq_ok.mp h
  cases heq
  exact ⟨root, hroot, rfl, compileCte_plan hbody⟩

/-! ## Measure queries -/

/-- The root of a query with at most one measure root: the owner of its measures, or of its
first dimension. -/
def singleRoot (q : SemanticQuery) (roots : List String) : Except SemanticError String :=
  match roots with
  | r :: _ => .ok r
  | [] =>
      match q.dimensions with
      | d :: _ => memberModel d
      | [] => .error .emptyQuery

/-- Compile a query without segments and metrics. -/
def compileMeasures (ord : SetOrder) (cat : SemanticCatalog) (q : SemanticQuery) :
    Except SemanticError Stmt := do
  let roots ← measureRoots cat q
  if 2 ≤ roots.length then do
    let l ← compileAggregateLocality ord cat q roots
    .ok (.locality l)
  else do
    let root ← singleRoot q roots
    let s ← compileSingle ord cat q root (!roots.isEmpty)
    .ok (.select s)

/-- The two shapes of a compiled measure query. -/
lemma compileMeasures_cases {ord : SetOrder} {cat : SemanticCatalog} {q : SemanticQuery}
    {stmt : Stmt} (h : compileMeasures ord cat q = .ok stmt) :
    ∃ roots, measureRoots cat q = .ok roots ∧
      ((2 ≤ roots.length ∧ ∃ l, stmt = .locality l ∧
          Nonempty (LocalityPlan ord cat q roots l)) ∨
        (roots.length < 2 ∧ ∃ root s, singleRoot q roots = .ok root ∧ stmt = .select s ∧
          Nonempty (SinglePlan ord cat q root (!roots.isEmpty) s))) := by
  unfold compileMeasures at h
  obtain ⟨roots, hroots, h⟩ := Fallible.bind_eq_ok.mp h
  refine ⟨roots, hroots, ?_⟩
  split_ifs at h with hlen
  · obtain ⟨l, hl, heq⟩ := Fallible.bind_eq_ok.mp h
    cases heq
    exact .inl ⟨hlen, l, rfl, compileAggregateLocality_plan hl⟩
  · obtain ⟨root, hroot, h⟩ := Fallible.bind_eq_ok.mp h
    obtain ⟨s, hs, heq⟩ := Fallible.bind_eq_ok.mp h
    cases heq
    exact .inr ⟨by omega, root, s, hroot, rfl, compileSingle_plan hs⟩

end Semantic
end Pawrly
