import Pawrly.Semantic.Compile

/-!
# The metric pass

`pawrly-semantic/src/metric.rs`: dot-free members are expanded into leaf measures, the
expanded query is compiled by the measure pipeline, and every metric becomes a projection over
the aggregated columns.  A filtered reference to a measure becomes a synthetic measure on a
clone of its model.

The recursion through metric references is bounded by the cycle check, which the model makes
explicit as fuel: each level adds a new metric of the catalog to the stack.
-/

namespace Pawrly
namespace Semantic

open Sql

/-! ## Derived expressions -/

/-- How the scan of a derived expression ends: past its last token, or inside an open one. -/
inductive TokenEnd
  | closed (tail : List Char)
  | unclosed
  deriving DecidableEq

/-- The spans of a derived expression: for each token the text before it and its body.
`before` and `body` are read in reverse. -/
def scanTokens (before : List Char) (body : Option (List Char)) :
    List Char → List (List Char × List Char) × TokenEnd
  | [] =>
      match body with
      | none => ([], .closed before.reverse)
      | some _ => ([], .unclosed)
  | c :: cs =>
      match body with
      | none =>
          if c = '\x7b' then scanTokens before (some []) cs
          else scanTokens (c :: before) none cs
      | some b =>
          if c = '\x7d' then
            let rest := scanTokens [] none cs
            ((before.reverse, b.reverse) :: rest.1, rest.2)
          else scanTokens before (some (c :: b)) cs

/-- One reference inside a derived expression. -/
structure DerivedToken where
  member : String
  filter : Option String
  deriving DecidableEq

/-- Split a token's body on the first bar into member and optional filter. -/
def tokenOfBody (body : List Char) : DerivedToken :=
  match Text.splitOnce '|' (String.ofList body) with
  | some (m, f) =>
      { member := Text.trim m, filter := if Text.trim f = "" then none else some (Text.trim f) }
  | none => { member := Text.trim (String.ofList body), filter := none }

/-- The tokens of a derived expression; unbalanced braces, empty tokens and an expression
without a token are rejected. -/
def derivedTokens (expr : String) : Except String (List DerivedToken) := do
  let spans := scanTokens [] none expr.toList
  let tokens ← spans.1.mapM fun sp =>
    let t := tokenOfBody sp.2
    if t.member = "" then
      .error ("empty `\x7b\x7d` reference in derived expr `" ++ expr ++ "`")
    else .ok t
  match spans.2 with
  | .unclosed => .error ("unbalanced `\x7b` in derived expr `" ++ expr ++ "`")
  | .closed tail =>
      if tail.contains '\x7d' then
        .error ("unbalanced `\x7d` in derived expr `" ++ expr ++ "`")
      else if tokens.isEmpty then
        .error ("derived expr `" ++ expr ++ "` references no `\x7bmember\x7d` token")
      else .ok tokens

/-- Every member a metric references, with any per-operand or per-token filter. -/
def Metric.references (m : Metric) : Except String (List (String × Option String)) :=
  match m.kind with
  | .ratio num den => .ok [(num.member, num.filter), (den.member, den.filter)]
  | .derived expr => do
      let tokens ← derivedTokens expr
      .ok (tokens.map fun t => (t.member, t.filter))
  | .cumulative measure _ _ => .ok [(measure, none)]
  | .offset measure _ _ => .ok [(measure, none)]
  | .share measure _ _ => .ok [(measure, none)]

/-- A dot-free member names a metric. -/
def isMetric (member : String) : Bool := !Text.hasChar '.' member

/-! ## The time axis -/

/-- True when a metric, or one it references, is a cumulative or offset metric; `visited` is
shared by the whole walk. -/
def hasWindow (cat : SemanticCatalog) : ℕ → List String → String → Bool × List String
  | 0, visited, _ => (false, visited)
  | fuel + 1, visited, name =>
      match cat.metric name with
      | none => (false, visited)
      | some metric =>
          if name ∈ visited then (false, visited)
          else
            match metric.kind with
            | .cumulative _ _ _ => (true, visited ++ [name])
            | .offset _ _ _ => (true, visited ++ [name])
            | .share _ _ _ => (false, visited ++ [name])
            | _ =>
                let refs := match Metric.references metric with
                  | .ok refs => refs
                  | .error _ => []
                refs.foldl (fun acc r =>
                  if acc.1 || !isMetric r.1 then acc else hasWindow cat fuel acc.2 r.1)
                  (false, visited ++ [name])

/-- The query needs the dense time axis. -/
def spineMode (cat : SemanticCatalog) (q : SemanticQuery) : Bool :=
  (q.measures.filter isMetric).any fun m => (hasWindow cat (cat.metrics.length + 1) [] m).1

/-- The time-grained dimensions of a query. -/
def timeDims (q : SemanticQuery) : List (String × TimeGrain) :=
  q.dimensions.filterMap fun d =>
    match Text.split '.' d with
    | [_, _, grain] => (TimeGrain.parse grain).map fun g => (d, g)
    | _ => none

/-- What the expansion reads: the catalog, the query, its time dimensions and where dimension
columns live in the outer statement. -/
structure ExpandCtx where
  cat : SemanticCatalog
  q : SemanticQuery
  timeDims : List (String × TimeGrain)
  dimsAlias : RelName

/-- The ordering column of a window and the partition by the other dimensions. -/
def windowAxis (ctx : ExpandCtx) (metric : String) :
    Except SemanticError (Column × List PartTerm) :=
  match ctx.timeDims with
  | [(member, _)] =>
      .ok (⟨axisAlias, member⟩,
        (ctx.q.dimensions.filter fun d => d ≠ member).map fun d => { col := ⟨axisAlias, d⟩ })
  | [] => .error (.metricNeedsTimeGrain metric)
  | _ =>
      .error (.compile ("metric `" ++ metric ++
        "`: group by exactly one time-grained dimension (found several)"))

/-- The dense time axis (`axis_sql`). -/
def axisSql (ctx : ExpandCtx) : Except SemanticError Axis :=
  match ctx.timeDims with
  | [(member, grain)] =>
      let keys := ctx.q.dimensions.filter fun d => d ≠ member
      match ctx.cat.timeSpine with
      | none => .ok { timeMember := member, grain := grain, spine := none, keys := keys }
      | some ts =>
          match TableName.parse ts.source with
          | none =>
              .error (.compile ("time_spine source `" ++ ts.source ++ "` must be `source.table`"))
          | some table =>
              .ok { timeMember := member, grain := grain, spine := some (table, ts.column),
                    keys := keys }
  | _ => .error (.compile "window metrics need exactly one time-grained dimension")

/-! ## Leaves -/

/-- The leaf measures found so far, the index of filtered references and the synthetic
measures to graft onto their models. -/
structure Expansion where
  leaves : List String := []
  leafIndex : List ((String × List String) × String) := []
  synthetic : List (String × Measure) := []

/-- The sorted, duplicate-free filters that identify a leaf. -/
def leafKey (filters : List String) : List String :=
  (filters.insertionSort fun a b => a ≤ b).dedup

/-- The synthetic measure of a filtered reference. -/
def syntheticMeasure (measure : Measure) (n : ℕ) (filters : List String) : Measure :=
  { measure with
    name := "__mf" ++ toString n ++ "_" ++ measure.name
    filters := measure.filters ++ filters }

/-- The inner-query member of a reference, and the synthetic measure it stands for. -/
def leafMember (cat : SemanticCatalog) (n : ℕ) (member : String) (filters : List String) :
    Except SemanticError (String × Option (String × Measure)) :=
  if filters.isEmpty then .ok (member, none)
  else
    match Text.splitOnce '.' member with
    | none => .error (.unknownMember member)
    | some (modelName, measureName) =>
        match cat.model modelName with
        | none => .error (.unknownModel modelName)
        | some model =>
            match findMeasure model measureName with
            | none => .error (.unknownMember member)
            | some measure =>
                let m := syntheticMeasure measure n (leafKey filters)
                .ok (modelName ++ "." ++ m.name, some (modelName, m))

/-- Register the leaf of a member under its filters; the result is the inner-query member
(the output column) that carries it. -/
def leaf (cat : SemanticCatalog) (st : Expansion) (member : String) (filters : List String) :
    Except SemanticError (String × Expansion) :=
  let key := (member, leafKey filters)
  match st.leafIndex.lookup key with
  | some col => .ok (col, st)
  | none => do
      let (inner, synth) ← leafMember cat st.leafIndex.length member filters
      .ok (inner,
        { leaves := st.leaves ++ [inner]
          leafIndex := st.leafIndex ++ [(key, inner)]
          synthetic := st.synthetic ++ synth.toList })

/-- The models with the synthetic measures grafted on, and no metrics. -/
def augmentedCatalog (cat : SemanticCatalog) (st : Expansion) : SemanticCatalog where
  models := cat.models.map fun m =>
    { m with measures := m.measures ++
        (st.synthetic.filter fun s => s.1 = m.name).map Prod.snd }
  metrics := []
  timeSpine := none
  models_nodup := by
    rw [List.map_map]
    exact cat.models_nodup
  metrics_nodup := List.nodup_nil

/-! ## Metric expressions -/

/-- The filters of an operand on top of the inherited ones. -/
def andFilter (base : List String) (extra : Option String) : List String :=
  base ++ extra.toList

/-- A column of the aggregated relation. -/
def aggColumn (col : String) : Column := ⟨aggAlias, col⟩

/-- The chain of tokens of a derived expression, each substituted by what `member` renders. -/
def derivedChain (member : Expansion → String → List String →
      Except SemanticError (MetricExpr × Expansion)) (base : List String) (tail : List Char) :
    List (List Char × List Char) → Expansion → Except SemanticError (MetricExpr × Expansion)
  | [], st => .ok (.derivedEnd (String.ofList tail), st)
  | sp :: spans, st => do
      let t := tokenOfBody sp.2
      let (sub, st) ← member st t.member (andFilter base t.filter)
      let (rest, st) ← derivedChain member base tail spans st
      .ok (.derivedToken (String.ofList sp.1) sub rest, st)

/-- Render a metric as a scalar expression over the aggregated columns.  `inherited` carries
the filters of enclosing metrics and operands, `visiting` the reference stack. -/
def metricExpr (ctx : ExpandCtx) : ℕ → Expansion → String → List String → List String →
    Except SemanticError (MetricExpr × Expansion)
  | 0, _, name, _, _ => .error (.metricCycle name)
  | fuel + 1, st, name, inherited, visiting =>
      match ctx.cat.metric name with
      | none => .error (.unknownMetric name)
      | some metric =>
          if name ∈ visiting then .error (.metricCycle name)
          else
            let base := andFilter inherited metric.filter
            -- A reference inside the metric: a leaf column, or another metric inlined.
            let memberExpr (st : Expansion) (member : String) (filters : List String) :
                Except SemanticError (MetricExpr × Expansion) :=
              if isMetric member then
                metricExpr ctx fuel st member filters (visiting ++ [name])
              else do
                let (col, st) ← leaf ctx.cat st member filters
                .ok (.column (aggColumn col), st)
            match metric.kind with
            | .ratio num den => do
                let (n, st) ← memberExpr st num.member (andFilter base num.filter)
                let (d, st) ← memberExpr st den.member (andFilter base den.filter)
                .ok (.ratio n d, st)
            | .derived expr =>
                match derivedTokens expr with
                | .error msg => .error (.compile msg)
                | .ok _ =>
                    let spans := scanTokens [] none expr.toList
                    let tail := match spans.2 with
                      | .closed tail => tail
                      | .unclosed => []
                    derivedChain memberExpr base tail spans.1 st
            | .cumulative measure window agg => do
                let (col, st) ← leaf ctx.cat st measure base
                let (timeCol, partition) ← windowAxis ctx name
                let partition := match window with
                  | .grainToDate grain => partition ++ [{ trunc := some grain, col := timeCol }]
                  | _ => partition
                let frame := match window with
                  | .trailing periods => Frame.trailing periods
                  | _ => Frame.unbounded
                let zeroFill := agg = .sum || agg = .avg
                .ok (.cumulative agg ⟨aggColumn col, zeroFill⟩ partition timeCol frame, st)
            | .offset measure periods output => do
                let (col, st) ← leaf ctx.cat st measure base
                let (timeCol, partition) ← windowAxis ctx name
                .ok (.offset ⟨aggColumn col, true⟩ periods partition timeCol output, st)
            | .share measure overDims agg => do
                let _ ← overDims.mapM fun dim =>
                  if dim ∈ ctx.q.dimensions then .ok ()
                  else .error (.shareDimNotGrouped name dim)
                let (col, st) ← leaf ctx.cat st measure base
                .ok (.share agg (aggColumn col)
                  (overDims.map fun d => { col := ⟨ctx.dimsAlias, d⟩ }), st)

/-- One measure of the query: a leaf projected as it is, or a metric. -/
def projectMeasure (ctx : ExpandCtx) (st : Expansion) (m : String) :
    Except SemanticError ((MetricExpr × String) × Expansion) :=
  if isMetric m then do
    let (e, st) ← metricExpr ctx (ctx.cat.metrics.length + 1) st m [] []
    .ok ((e, m), st)
  else do
    let (_, st) ← leaf ctx.cat st m []
    .ok ((.column (aggColumn m), m), st)

/-- The measures of the query, in order. -/
def projectMeasures (ctx : ExpandCtx) :
    List String → Expansion → Except SemanticError (List (MetricExpr × String) × Expansion)
  | [], st => .ok ([], st)
  | m :: ms, st => do
      let (item, st) ← projectMeasure ctx st m
      let (items, st) ← projectMeasures ctx ms st
      .ok (item :: items, st)

/-- The context of a query's expansion. -/
def expandCtx (cat : SemanticCatalog) (q : SemanticQuery) : ExpandCtx where
  cat := cat
  q := q
  timeDims := timeDims q
  dimsAlias := if spineMode cat q then axisAlias else aggAlias

/-- The inner query: the leaves in place of the measures, without ordering and limit, which
move to the outer statement. -/
def leafQuery (q : SemanticQuery) (leaves : List String) : SemanticQuery :=
  { q with measures := leaves, orderBy := [], limit := none }

/-- Compile a metric query around a pluggable compilation of the leaf query. -/
def compileWithMetricsVia (cat : SemanticCatalog) (q : SemanticQuery)
    (compileInner : SemanticCatalog → SemanticQuery → Except SemanticError Stmt) :
    Except SemanticError Stmt := do
  let ctx := expandCtx cat q
  let (measureItems, st) ← projectMeasures ctx q.measures {}
  let dimItems := q.dimensions.map fun d => (MetricExpr.column ⟨ctx.dimsAlias, d⟩, d)
  let inner ← compileInner (augmentedCatalog cat st) (leafQuery q st.leaves)
  let axis ← if spineMode cat q then do
      let a ← axisSql ctx
      .ok (some a)
    else .ok none
  let orders ← resolveOrders q
  .ok (.metric { items := dimItems ++ measureItems
                 axis := axis
                 dimensions := q.dimensions
                 orders := orders
                 limit := q.limit } inner)

/-! ## The compiler -/

/-- `compile_sql`; the fuel bounds its recursion through metric queries. -/
def compileStmtWith (ord : SetOrder) : ℕ → SemanticCatalog → SemanticQuery →
    Except SemanticError Stmt
  | 0, _, _ => .error .emptyQuery
  | fuel + 1, cat, q => do
      let q ← expandSegments cat q
      if q.measures.isEmpty && q.dimensions.isEmpty then .error .emptyQuery
      else if q.measures.any isMetric then
        compileWithMetricsVia cat q (compileStmtWith ord fuel)
      else compileMeasures ord cat q

/-- Compile a query into a statement.  The inner catalog of a metric query has no metrics, so
two turns suffice (`compileStmtWith_succ`). -/
def compileStmt (ord : SetOrder) (cat : SemanticCatalog) (q : SemanticQuery) :
    Except SemanticError Stmt :=
  compileStmtWith ord 2 cat q

/-- Compile a query into the SQL text the engine executes. -/
def compileSql (ord : SetOrder) (cat : SemanticCatalog) (q : SemanticQuery) :
    Except SemanticError String := do
  let stmt ← compileStmt ord cat q
  .ok stmt.render

end Semantic
end Pawrly
