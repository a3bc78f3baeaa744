import Pawrly.Semantic.Metric

/-!
# The measure query behind a statement

A metric query is compiled around an inner measure query: the leaves of its metrics over the
augmented catalog.  `coreQuery` is that catalog and query, for a query without metrics its own
after segment expansion; `Stmt.core` is the statement the measure compilers emit for it.

Facts about joins, predicates and aggregates are proved once for `compileMeasures` and reach
every compiled statement through `compileStmt_core`.
-/

namespace Pawrly

/-- The statement of the measure compilers inside a statement. -/
def Sql.Stmt.core : Sql.Stmt → Sql.Stmt
  | .metric _ inner => inner.core
  | stmt => stmt

@[simp] lemma Sql.Stmt.selects_core (stmt : Sql.Stmt) : stmt.core.selects = stmt.selects := by
  induction stmt with
  | select s => rfl
  | locality l => rfl
  | metric m inner ih => exact ih

namespace Semantic

open Sql

/-- The catalog and the query that reach the measure compilers. -/
def coreQuery (cat : SemanticCatalog) (q : SemanticQuery) :
    Except SemanticError (SemanticCatalog × SemanticQuery) := do
  let q ← expandSegments cat q
  if q.measures.any isMetric then do
    let (_, st) ← projectMeasures (expandCtx cat q) q.measures {}
    .ok (augmentedCatalog cat st, leafQuery q st.leaves)
  else .ok (cat, q)

/-! ## Segments -/

lemma expandSegments_nil {cat : SemanticCatalog} {q : SemanticQuery} (h : q.segments = []) :
    expandSegments cat q = .ok q := by
  obtain ⟨measures, dimensions, filters, segments, orderBy, limit, timeZone, params⟩ := q
  cases h
  simp [expandSegments, bind, Except.bind, pure, Except.pure]

/-- Segment expansion changes the filters only, which it extends. -/
lemma expandSegments_spec {cat : SemanticCatalog} {q q' : SemanticQuery}
    (h : expandSegments cat q = .ok q') :
    ∃ extra, q' = { q with filters := q.filters ++ extra, segments := [] } := by
  obtain ⟨extra, _, heq⟩ := Fallible.bind_eq_ok.mp h
  cases heq
  exact ⟨extra.flatten, rfl⟩

/-! ## The recursion through metric queries stops -/

lemma metricExpr_of_metrics_nil {ctx : ExpandCtx} (hctx : ctx.cat.metrics = [])
    (fuel : ℕ) (st : Expansion) (name : String) (inherited visiting : List String) :
    ∃ e, metricExpr ctx fuel st name inherited visiting = .error e := by
  cases fuel with
  | zero => exact ⟨_, rfl⟩
  | succ fuel =>
      refine ⟨.unknownMetric name, ?_⟩
      have hnone : ctx.cat.metric name = none := by
        simp [SemanticCatalog.metric, hctx]
      unfold metricExpr
      rw [hnone]

/-- Without metrics in the catalog no metric can be projected. -/
lemma projectMeasures_of_metrics_nil (ctx : ExpandCtx) (hctx : ctx.cat.metrics = [])
    {ms : List String} (hms : ms.any isMetric = true) (st : Expansion) :
    ∃ e, projectMeasures ctx ms st = .error e := by
  induction ms generalizing st with
  | nil => cases hms
  | cons m ms ih =>
      unfold projectMeasures
      by_cases hm : isMetric m = true
      · obtain ⟨e, he⟩ := metricExpr_of_metrics_nil hctx (ctx.cat.metrics.length + 1) st m [] []
        refine ⟨e, ?_⟩
        unfold projectMeasure
        rw [if_pos hm, he]
        rfl
      · have hrest : ms.any isMetric = true := by
          simpa [hm] using hms
        cases hproj : projectMeasure ctx st m with
        | error e => exact ⟨e, rfl⟩
        | ok r =>
            obtain ⟨e, he⟩ := ih hrest r.2
            refine ⟨e, ?_⟩
            simp only [bind, Except.bind, he]

lemma compileWithMetricsVia_of_metrics_nil {cat : SemanticCatalog} (hcat : cat.metrics = [])
    {q : SemanticQuery} (hq : q.measures.any isMetric = true)
    (f g : SemanticCatalog → SemanticQuery → Except SemanticError Stmt) :
    compileWithMetricsVia cat q f = compileWithMetricsVia cat q g := by
  obtain ⟨e, he⟩ := projectMeasures_of_metrics_nil (expandCtx cat q) hcat hq {}
  unfold compileWithMetricsVia
  simp only [he, bind, Except.bind]

/-- A catalog without metrics is compiled in one turn. -/
lemma compileStmtWith_of_metrics_nil (ord : SetOrder) {cat : SemanticCatalog}
    (hcat : cat.metrics = []) (q : SemanticQuery) (fuel : ℕ) :
    compileStmtWith ord (fuel + 1) cat q = compileStmtWith ord 1 cat q := by
  unfold compileStmtWith
  refine bind_congr fun q' => ?_
  split_ifs with h1 h2
  · rfl
  · exact compileWithMetricsVia_of_metrics_nil hcat h2 _ _
  · rfl

/-- Two turns suffice for every query. -/
theorem compileStmtWith_succ (ord : SetOrder) (cat : SemanticCatalog) (q : SemanticQuery)
    (fuel : ℕ) : compileStmtWith ord (fuel + 2) cat q = compileStmt ord cat q := by
  unfold compileStmt
  unfold compileStmtWith
  refine bind_congr fun q' => ?_
  split_ifs with h1 h2
  · rfl
  · unfold compileWithMetricsVia
    refine bind_congr fun r => ?_
    have hnil : (augmentedCatalog cat r.2).metrics = [] := rfl
    simp only [compileStmtWith_of_metrics_nil ord hnil (leafQuery q' r.2.leaves) fuel]
  · rfl

/-! ## Inversion -/

/-- The shapes of a successful compile: a measure query, or a metric statement around one. -/
inductive Compiled (ord : SetOrder) (cat : SemanticCatalog) (q : SemanticQuery) : Stmt → Prop
  | measures {q' stmt} (segments : expandSegments cat q = .ok q')
      (noMetric : q'.measures.any isMetric = false)
      (measures : compileMeasures ord cat q' = .ok stmt) : Compiled ord cat q stmt
  | metrics {q' items st axis orders inner} (segments : expandSegments cat q = .ok q')
      (metric : q'.measures.any isMetric = true)
      (projected : projectMeasures (expandCtx cat q') q'.measures {} = .ok (items, st))
      (inner_eq : compileMeasures ord (augmentedCatalog cat st) (leafQuery q' st.leaves) =
        .ok inner)
      (axis_eq : (spineMode cat q' = false ∧ axis = none) ∨
        (spineMode cat q' = true ∧ ∃ a, axisSql (expandCtx cat q') = .ok a ∧ axis = some a))
      (orders_eq : resolveOrders q' = .ok orders) :
      Compiled ord cat q (.metric
        { items := (q'.dimensions.map fun d =>
            (MetricExpr.column ⟨(expandCtx cat q').dimsAlias, d⟩, d)) ++ items
          axis := axis
          dimensions := q'.dimensions
          orders := orders
          limit := q'.limit } inner)

/-- The inner compile of a metric query runs the measure compilers on the leaf query. -/
lemma compileStmtWith_leafQuery {ord : SetOrder} {cat : SemanticCatalog} {q : SemanticQuery}
    {st : Expansion} (hseg : q.segments = []) {inner : Stmt}
    (h : compileStmtWith ord 1 (augmentedCatalog cat st) (leafQuery q st.leaves) = .ok inner) :
    compileMeasures ord (augmentedCatalog cat st) (leafQuery q st.leaves) = .ok inner := by
  unfold compileStmtWith at h
  have hq : expandSegments (augmentedCatalog cat st) (leafQuery q st.leaves) =
      .ok (leafQuery q st.leaves) := expandSegments_nil hseg
  rw [hq] at h
  obtain ⟨_, h⟩ := Fallible.ite_error_eq_ok.mp h
  split_ifs at h with hmetric
  · obtain ⟨e, he⟩ := projectMeasures_of_metrics_nil
      (expandCtx (augmentedCatalog cat st) (leafQuery q st.leaves)) rfl hmetric {}
    unfold compileWithMetricsVia at h
    simp only [he, bind, Except.bind] at h
    cases h
  · exact h

/-- A metric statement, around whatever compiles its leaf query. -/
lemma compileWithMetricsVia_cases {cat : SemanticCatalog} {q : SemanticQuery}
    {f : SemanticCatalog → SemanticQuery → Except SemanticError Stmt} {stmt : Stmt}
    (h : compileWithMetricsVia cat q f = .ok stmt) :
    ∃ items st axis orders inner, projectMeasures (expandCtx cat q) q.measures {} = .ok (items, st) ∧
      f (augmentedCatalog cat st) (leafQuery q st.leaves) = .ok inner ∧
      ((spineMode cat q = false ∧ axis = none) ∨
        (spineMode cat q = true ∧ ∃ a, axisSql (expandCtx cat q) = .ok a ∧ axis = some a)) ∧
      resolveOrders q = .ok orders ∧
      stmt = .metric
        { items := (q.dimensions.map fun d =>
            (MetricExpr.column ⟨(expandCtx cat q).dimsAlias, d⟩, d)) ++ items
          axis := axis
          dimensions := q.dimensions
          orders := orders
          limit := q.limit } inner := by
  obtain ⟨⟨items, st⟩, hproj, h⟩ := Fallible.bind_eq_ok.mp h
  obtain ⟨inner, hinner, h⟩ := Fallible.bind_eq_ok.mp h
  split_ifs at h with hspine
  · obtain ⟨a, ha, h⟩ := Fallible.bind_eq_ok.mp h
    obtain ⟨axis, haxis, h⟩ := Fallible.bind_eq_ok.mp h
    obtain ⟨orders, horders, h⟩ := Fallible.bind_eq_ok.mp h
    cases haxis
    cases h
    exact ⟨items, st, some a, orders, inner, hproj, hinner, .inr ⟨hspine, a, ha, rfl⟩, horders,
      rfl⟩
  · obtain ⟨axis, haxis, h⟩ := Fallible.bind_eq_ok.mp h
    obtain ⟨orders, horders, h⟩ := Fallible.bind_eq_ok.mp h
    cases haxis
    cases h
    exact ⟨items, st, none, orders, inner, hproj, hinner, .inl ⟨by simpa using hspine, rfl⟩,
      horders, rfl⟩

theorem compileStmt_compiled {ord : SetOrder} {cat : SemanticCatalog} {q : SemanticQuery}
    {stmt : Stmt} (h : compileStmt ord cat q = .ok stmt) : Compiled ord cat q stmt := by
  unfold compileStmt compileStmtWith at h
  obtain ⟨q', hseg, h⟩ := Fallible.bind_eq_ok.mp h
  obtain ⟨_, h⟩ := Fallible.ite_error_eq_ok.mp h
  obtain ⟨extra, hq'⟩ := expandSegments_spec hseg
  have hnil : q'.segments = [] := by rw [hq']
  split_ifs at h with hmetric
  · obtain ⟨items, st, axis, orders, inner, hproj, hinner, haxis, horders, rfl⟩ :=
      compileWithMetricsVia_cases h
    exact .metrics hseg hmetric hproj (compileStmtWith_leafQuery hnil hinner) haxis horders
  · exact .measures hseg (by simpa using hmetric) h

/-- A statement of the measure compilers is its own core. -/
lemma core_of_compileMeasures {ord : SetOrder} {cat : SemanticCatalog} {q : SemanticQuery}
    {stmt : Stmt} (h : compileMeasures ord cat q = .ok stmt) : stmt.core = stmt := by
  obtain ⟨_, _, ⟨_, l, rfl, _⟩ | ⟨_, _, s, _, rfl, _⟩⟩ := compileMeasures_cases h
  · rfl
  · rfl

/-- Every compiled statement runs the measure compilers on the core query. -/
theorem compileStmt_core {ord : SetOrder} {cat : SemanticCatalog} {q : SemanticQuery}
    {stmt : Stmt} (h : compileStmt ord cat q = .ok stmt) :
    ∃ cat' q', coreQuery cat q = .ok (cat', q') ∧
      compileMeasures ord cat' q' = .ok stmt.core := by
  cases compileStmt_compiled h with
  | @measures q' stmt hseg hno hm =>
      refine ⟨cat, q', ?_, ?_⟩
      · unfold coreQuery
        rw [hseg]
        simp only [bind, Except.bind, hno]
        rfl
      · rw [core_of_compileMeasures hm]
        exact hm
  | @metrics q' items st axis orders inner hseg hyes hproj hinner _ _ =>
      refine ⟨augmentedCatalog cat st, leafQuery q' st.leaves, ?_, ?_⟩
      · unfold coreQuery
        rw [hseg]
        simp only [bind, Except.bind, hyes, hproj]
        rfl
      · rw [Stmt.core, core_of_compileMeasures hinner]
        exact hinner

/-! ## The augmented catalog -/

/-- Grafting synthetic measures changes nothing but the measures of a model. -/
lemma augmentedCatalog_model (cat : SemanticCatalog) (st : Expansion) (name : String) :
    (augmentedCatalog cat st).model name = (cat.model name).map fun m =>
      { m with measures := m.measures ++
          (st.synthetic.filter fun s => s.1 = m.name).map Prod.snd } := by
  unfold SemanticCatalog.model augmentedCatalog
  rw [List.find?_map]
  rfl

/-- The core query keeps the parameters and the guard rails of every model. -/
lemma coreQuery_keeps {cat cat' : SemanticCatalog} {q q' : SemanticQuery}
    (h : coreQuery cat q = .ok (cat', q')) :
    q'.params = q.params ∧
      ∀ name, (cat'.model name).bind SemanticModel.safety =
        (cat.model name).bind SemanticModel.safety := by
  obtain ⟨q₁, hseg, h⟩ := Fallible.bind_eq_ok.mp h
  obtain ⟨extra, rfl⟩ := expandSegments_spec hseg
  split_ifs at h with hmetric
  · obtain ⟨⟨_, st⟩, _, heq⟩ := Fallible.bind_eq_ok.mp h
    cases heq
    refine ⟨rfl, fun name => ?_⟩
    rw [augmentedCatalog_model]
    cases cat.model name with
    | none => rfl
    | some m => rfl
  · cases h
    exact ⟨rfl, fun _ => rfl⟩

end Semantic
end Pawrly
