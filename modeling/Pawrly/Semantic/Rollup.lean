import Pawrly.Semantic.Core

/-!
# Pre-aggregations

`pawrly-semantic/src/rollup.rs` and the rollup half of `pawrly-semantic/src/lib.rs`: which
pre-aggregation of a model covers a query, the statement that materializes it, and the rewrite
of the query onto the materialized table.
-/

namespace Pawrly
namespace Semantic

open Sql

/-! ## Coverage -/

/-- The schema materialized rollups are registered under. -/
def rollupSchema : String := "semantic"

/-- The name of a materialized rollup's table. -/
def rollupTableName (model preagg : String) : String := model ++ "__" ++ preagg

/-- The aggregate can be computed from stored partial values. -/
def isRollupSafe : MeasureAgg → Bool
  | .sum => true
  | .count => true
  | .min => true
  | .max => true
  | _ => false

/-- A dimension name with an optional time grain (`Member`). -/
structure GrainedName where
  name : String
  grain : Option TimeGrain
  deriving DecidableEq

/-- A dimension entry of a pre-aggregation. -/
def parseBareDim (s : String) : GrainedName :=
  match Text.splitOnce '.' s with
  | some (name, grain) => ⟨name, TimeGrain.parse grain⟩
  | none => ⟨s, none⟩

/-- A query member, its model prefix dropped. -/
def parseQueryDim (member : String) : GrainedName :=
  match Text.splitOnce '.' member with
  | some (_, rest) => parseBareDim rest
  | none => parseBareDim member

/-- The last segment of a member. -/
def measureName (member : String) : String := (Text.split '.' member).getLastD member

/-- A dimension stored at the first grain can serve one asked for at the second. -/
def grainCovers : Option TimeGrain → Option TimeGrain → Bool
  | none, none => true
  | some _, none => false
  | none, some _ => true
  | some p, some g => p.canRollUpTo g

/-- The pre-aggregation carries every dimension, filtered member (by name) and measure of the
query. -/
def covers (pre : PreAggregation) (q : SemanticQuery) : Bool :=
  let preDims := pre.dimensions.map parseBareDim
  (q.dimensions.all fun member =>
    preDims.any fun have_ => have_.name = (parseQueryDim member).name &&
      grainCovers have_.grain (parseQueryDim member).grain) &&
  (q.filters.all fun f => preDims.any fun d => d.name = (parseQueryDim f.member).name) &&
  q.measures.all fun member => pre.measures.contains (measureName member)

/-- The covering pre-aggregation with the fewest dimensions, the first of several. -/
def matchRollup (model : SemanticModel) (q : SemanticQuery) : Option PreAggregation :=
  (model.preAggregations.filter fun pre => covers pre q).foldl (fun best pre =>
    match best with
    | none => some pre
    | some b => if pre.dimensions.length < b.dimensions.length then some pre else some b) none

/-- A pre-aggregation chosen to serve a query. -/
structure RollupMatch where
  model : String
  preagg : String
  deriving DecidableEq

/-! ## Materialization -/

/-- The name a pre-aggregation's dimension entry is stored under. -/
def bareName (d : String) : String := (Text.split '.' d).headD d

/-- The items of the dimension entries of a pre-aggregation. -/
def preaggDimItem (m : SemanticModel) (model d : String) :
    Except SemanticError (SqlExpr × String) := do
  let expr ← resolveDimensionExpr m (model ++ "." ++ d) none none
  .ok (expr, bareName d)

/-- The items of its measures. -/
def preaggMeasureItem (m : SemanticModel) (model name : String) :
    Except SemanticError (SqlExpr × String) :=
  match findMeasure m name with
  | none => .error (.unknownMember (model ++ "." ++ name))
  | some measure => .ok (aggSql measure none, name)

/-- The statement that materializes a pre-aggregation. -/
def compilePreagg (cat : SemanticCatalog) (model preagg : String) :
    Except SemanticError Select := do
  match cat.model model with
  | none => .error (.unknownModel model)
  | some m =>
      match m.preAggregations.find? fun p => p.name = preagg with
      | none =>
          .error (.compile ("unknown pre-aggregation `" ++ model ++ "." ++ preagg ++ "`"))
      | some pre => do
          let dimItems ← pre.dimensions.mapM (preaggDimItem m model)
          let measureItems ← pre.measures.mapM (preaggMeasureItem m model)
          let table ← qualifiedTable cat model
          .ok { items := dimItems ++ measureItems
                source := { root := model, table := table, aliased := false }
                wheres := []
                groupBy := dimItems.map Prod.fst }

/-! ## Choosing a rollup -/

/-- The leaf query of a metric query that a rollup could serve: no window metric and no
filtered leaf. -/
def rollupLeafQuery (cat : SemanticCatalog) (q : SemanticQuery) : Option SemanticQuery :=
  if spineMode cat q then none
  else
    match projectMeasures { cat := cat, q := q, timeDims := [], dimsAlias := aggAlias }
        q.measures {} with
    | .error _ => none
    | .ok (_, st) => if st.synthetic.isEmpty then some (leafQuery q st.leaves) else none

/-- The rollup that serves a query without segments and metrics. -/
def candidateMeasures (cat : SemanticCatalog) (q : SemanticQuery) : Option RollupMatch :=
  if q.timeZone.isSome then none
  else
    match measureRoots cat q, referencedModels cat q with
    | .ok [root], .ok referenced =>
        match cat.model root with
        | none => none
        | some model =>
            if referenced.any fun m => m ≠ root then none
            else if !(requiredPredicates cat root).isEmpty then none
            else if q.measures.all fun member =>
                match (measureMemberName member).bind (findMeasure model) with
                | some measure => isRollupSafe measure.agg
                | none => false
            then (matchRollup model q).map fun pre => ⟨root, pre.name⟩
            else none
    | _, _ => none

/-- The rollup that serves a query, if any. -/
def candidateRollup (cat : SemanticCatalog) (q : SemanticQuery) : Option RollupMatch :=
  match expandSegments cat q with
  | .error _ => none
  | .ok q =>
      if q.measures.any isMetric then (rollupLeafQuery cat q).bind (candidateMeasures cat)
      else candidateMeasures cat q

/-! ## Reading a rollup -/

/-- A column of the rollup. -/
def rollupCol (alias_ col : String) : SqlExpr := .column ⟨.bare alias_, col⟩

/-- A dimension member on the rollup, truncated again to the requested grain. -/
def rollupDimExpr (alias_ member : String) : Except SemanticError SqlExpr := do
  let (dim, grain?) ← dimensionParts member
  match grain? with
  | none => .ok (rollupCol alias_ dim)
  | some g =>
      match TimeGrain.parse g with
      | none => .error (.invalidGrain dim g)
      | some grain => .ok (.dateTrunc grain (rollupCol alias_ dim))

/-- The re-aggregation of a stored partial (`combine_sql`). -/
def combineSql (agg : MeasureAgg) (col : SqlExpr) : SqlExpr :=
  match agg with
  | .min => .aggregate .min col []
  | .max => .aggregate .max col []
  | _ => .aggregate .sum col []

/-- The measure a member names on a model. -/
def rollupMeasure (model : SemanticModel) (member : String) :
    Except SemanticError (String × Measure) :=
  match measureMemberName member with
  | none => .error (.unknownMember member)
  | some name =>
      match findMeasure model name with
      | none => .error (.unknownMember member)
      | some measure => .ok (name, measure)

def rollupDimItem (alias_ member : String) : Except SemanticError (SqlExpr × String) := do
  let expr ← rollupDimExpr alias_ member
  .ok (expr, member)

def rollupMeasureItem (model : SemanticModel) (alias_ member : String) :
    Except SemanticError (SqlExpr × String) := do
  let (name, measure) ← rollupMeasure model member
  .ok (combineSql measure.agg (rollupCol alias_ name), member)

/-- A filter as a row-level condition (left) or an aggregate-level one (right). -/
def rollupFilterCond (model : SemanticModel) (alias_ : String) (f : SemanticFilter) :
    Except SemanticError (SqlCond ⊕ SqlCond) :=
  if memberIsMeasure model f.member then do
    let (name, measure) ← rollupMeasure model f.member
    let c ← applyOp (combineSql measure.agg (rollupCol alias_ name)) f true
    .ok (.inr c)
  else do
    let expr ← rollupDimExpr alias_ f.member
    let c ← applyOp expr f false
    .ok (.inl c)

/-- Compile a query without metrics against a matched rollup (`rollup_measure_sql`). -/
def rollupMeasureSql (cat : SemanticCatalog) (q : SemanticQuery) (r : RollupMatch) :
    Except SemanticError Select :=
  match cat.model r.model with
  | none => .error (.unknownModel r.model)
  | some model => do
      let dimItems ← q.dimensions.mapM (rollupDimItem r.model)
      let measureItems ← q.measures.mapM (rollupMeasureItem model r.model)
      let _ ← enforceFilterSafety cat r.model q
      let conds ← q.filters.mapM (rollupFilterCond model r.model)
      let orders ← resolveOrders q
      .ok { items := dimItems ++ measureItems
            source :=
              { root := r.model
                table := ⟨rollupSchema, rollupTableName r.model r.preagg⟩
                aliased := true }
            wheres := conds.filterMap Sum.getLeft?
            groupBy := dimItems.map Prod.fst
            havings := conds.filterMap Sum.getRight?
            orders := orders
            limit := effectiveLimit q.limit (maxRows cat r.model) }

/-- Compile a query to read the materialized rollup (`compile_rollup_sql`). -/
def compileRollup (cat : SemanticCatalog) (q : SemanticQuery) (r : RollupMatch) :
    Except SemanticError Stmt := do
  let q ← expandSegments cat q
  let compileInner (q : SemanticQuery) : Except SemanticError Stmt := do
    let s ← rollupMeasureSql cat q r
    .ok (.select s)
  if q.measures.any isMetric then compileWithMetricsVia cat q fun _ inner => compileInner inner
  else compileInner q

end Semantic
end Pawrly
