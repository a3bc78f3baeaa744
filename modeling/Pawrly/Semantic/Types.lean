import Mathlib.Tactic.Common
import Mathlib.Data.Nat.Notation
import Pawrly.Text

/-!
# Semantic-layer types

The data model of `pawrly-core/src/semantic.rs` and the guard rails of
`pawrly-core/src/safety.rs`: models with their dimensions, measures, relationships,
pre-aggregations, segments and safety policy, the workspace metrics, and the structured query
a client submits.  Fields that no modelled function reads (descriptions, display formats,
primary keys, refresh cadences, timeouts) are left out.

`SemanticError` is the error type of the compiler in `pawrly-semantic/src/lib.rs`, with the
payload of every variant.
-/

namespace Pawrly
namespace Semantic

/-! ## Time grains -/

/-- A time-bucketing grain applied through `DATE_TRUNC`. -/
inductive TimeGrain
  | hour | day | week | month | quarter | year
  deriving DecidableEq

namespace TimeGrain

/-- Canonical lowercase token, also the `DATE_TRUNC` field argument. -/
def asStr : TimeGrain → String
  | hour => "hour"
  | day => "day"
  | week => "week"
  | month => "month"
  | quarter => "quarter"
  | year => "year"

/-- Parse from the canonical lowercase token. -/
def parse (s : String) : Option TimeGrain :=
  if s = "hour" then some hour
  else if s = "day" then some day
  else if s = "week" then some week
  else if s = "month" then some month
  else if s = "quarter" then some quarter
  else if s = "year" then some year
  else none

/-- Rank from finest (`hour`) to coarsest (`year`). -/
def rank : TimeGrain → ℕ
  | hour => 0
  | day => 1
  | week => 2
  | month => 3
  | quarter => 4
  | year => 5

/-- True when a value bucketed at the first grain can be re-bucketed to `coarser` by
`DATE_TRUNC` alone; weeks do not nest into months, quarters or years. -/
def canRollUpTo (self coarser : TimeGrain) : Bool :=
  if self = coarser then true
  else
    match self with
    | hour => true
    | day =>
        match coarser with
        | week | month | quarter | year => true
        | _ => false
    | week => false
    | month =>
        match coarser with
        | quarter | year => true
        | _ => false
    | quarter =>
        match coarser with
        | year => true
        | _ => false
    | year => false

@[simp] lemma parse_asStr (g : TimeGrain) : parse g.asStr = some g := by
  cases g <;> rfl

lemma parse_eq_some_iff (s : String) (g : TimeGrain) : parse s = some g ↔ s = g.asStr := by
  constructor
  · intro h
    unfold parse at h
    split_ifs at h with h1 h2 h3 h4 h5 h6 <;> cases h <;> assumption
  · rintro rfl
    exact parse_asStr g

end TimeGrain

/-! ## Models -/

/-- The kind of a dimension. -/
inductive DimensionType
  | string | number | time | bool
  deriving DecidableEq

/-- A groupable attribute; `expr` is a raw SQL fragment over the base table. -/
structure Dimension where
  name : String
  expr : String
  dataType : DimensionType
  timeGrains : List TimeGrain := []
  deriving DecidableEq

/-- The aggregation kind of a measure. -/
inductive MeasureAgg
  | sum | count | countDistinct | avg | min | max
  | custom (sql : String)
  deriving DecidableEq

/-- An aggregation formula; `filters` become a `FILTER (WHERE …)` clause. -/
structure Measure where
  name : String
  agg : MeasureAgg
  expr : String
  filters : List String := []
  deriving DecidableEq

/-- Cardinality of a relationship. -/
inductive RelationshipKind
  | manyToOne | oneToMany | oneToOne
  deriving DecidableEq

namespace RelationshipKind

/-- SQL join keyword for this cardinality. -/
def joinKind : RelationshipKind → String
  | oneToMany => "LEFT"
  | manyToOne => "INNER"
  | oneToOne => "INNER"

/-- The cardinality of the reverse traversal (`invert_kind`). -/
def invert : RelationshipKind → RelationshipKind
  | oneToMany => manyToOne
  | manyToOne => oneToMany
  | oneToOne => oneToOne

@[simp] lemma invert_invert (k : RelationshipKind) : k.invert.invert = k := by
  cases k <;> rfl

lemma invert_eq_oneToMany_iff (k : RelationshipKind) :
    k.invert = oneToMany ↔ k = manyToOne := by
  cases k <;> simp [invert]

end RelationshipKind

/-- A join from one model to another; in `joinPredicate`, `this` is the declaring model. -/
structure Relationship where
  name : String
  kind : RelationshipKind
  targetModel : String
  joinPredicate : String
  deriving DecidableEq

/-- A declared rollup: dimensions (possibly grained) and measure names of its model. -/
structure PreAggregation where
  name : String
  dimensions : List String
  measures : List String
  partitionBy : Option String := none
  deriving DecidableEq

/-- Comparison operators usable in a filter. -/
inductive FilterOp
  | equals | notEquals | inList | notIn | gt | gte | lt | lte | inRange
  | contains | startsWith | endsWith | isNull | isNotNull
  deriving DecidableEq

/-- A predicate over one member. -/
structure SemanticFilter where
  member : String
  op : FilterOp
  values : List String := []
  deriving DecidableEq

/-- A named, reusable set of filters defined on a model. -/
structure Segment where
  name : String
  filters : List SemanticFilter
  deriving DecidableEq

/-- Per-model guard rails. -/
structure SafetyPolicy where
  requireFiltersOn : List String := []
  requireAtLeastOneFilter : Bool := false
  maxRows : Option ℕ := none
  requiredPredicates : List String := []
  deriving DecidableEq

/-- A logical entity anchored on one physical table. -/
structure SemanticModel where
  name : String
  source : String
  dimensions : List Dimension := []
  measures : List Measure := []
  relationships : List Relationship := []
  preAggregations : List PreAggregation := []
  segments : List Segment := []
  safety : Option SafetyPolicy := none
  deriving DecidableEq

/-! ## Metrics -/

/-- A ratio operand: a measure or metric member with an optional governed filter. -/
structure Operand where
  member : String
  filter : Option String := none
  deriving DecidableEq

/-- The window function used by `cumulative` and `share`. -/
inductive WindowAgg
  | sum | avg | min | max
  deriving DecidableEq

/-- The frame of a cumulative metric. -/
inductive CumulativeWindow
  | runningTotal
  | grainToDate (grain : TimeGrain)
  | trailing (periods : ℕ)
  deriving DecidableEq

/-- What an offset metric projects. -/
inductive OffsetOutput
  | value | delta | growth
  deriving DecidableEq

/-- How a metric is computed from its measures. -/
inductive MetricKind
  | ratio (numerator denominator : Operand)
  | derived (expr : String)
  | cumulative (measure : String) (window : CumulativeWindow) (agg : WindowAgg)
  | offset (measure : String) (periods : ℕ) (output : OffsetOutput)
  | share (measure : String) (overDims : List String) (agg : WindowAgg)
  deriving DecidableEq

/-- A queryable business metric, evaluated after aggregation. -/
structure Metric where
  name : String
  kind : MetricKind
  filter : Option String := none
  deriving DecidableEq

/-- A declared calendar table for window metrics. -/
structure TimeSpine where
  source : String
  column : String
  deriving DecidableEq

/-! ## Queries -/

/-- Sort direction. -/
inductive OrderDir
  | asc | desc
  deriving DecidableEq

/-- An ordering term. -/
structure SemanticOrder where
  member : String
  direction : OrderDir := .asc
  deriving DecidableEq

/-- A structured question against the semantic layer.  `params` are the values bound to the
`${param:NAME}` placeholders of required predicates. -/
structure SemanticQuery where
  measures : List String := []
  dimensions : List String := []
  filters : List SemanticFilter := []
  segments : List String := []
  orderBy : List SemanticOrder := []
  limit : Option ℕ := none
  timeZone : Option String := none
  params : List (String × String) := []
  deriving DecidableEq

/-! ## Errors -/

/-- The safety errors a compile can raise (`SafetyError`). -/
inductive SafetyError
  | noFilters (table : String)
  | missingRequiredFilter (table column : String)
  | predicateUnsatisfied (table predicate reason : String)
  | unboundParam (table name : String)
  deriving DecidableEq

/-- Errors raised while compiling a query. -/
inductive SemanticError
  | unknownModel (model : String)
  | unknownMember (member : String)
  | emptyQuery
  | fanOut (measure via : String)
  | disconnectedMember (member : String)
  | ambiguousJoinPath (src dst : String)
  | unknownSegment (segment : String)
  | relationshipCycle (model : String)
  | invalidGrain (dim grain : String)
  | invalidSource (model sourceTable : String)
  | safety (err : SafetyError)
  | unknownMetric (metric : String)
  | metricCycle (metric : String)
  | metricNeedsTimeGrain (metric : String)
  | shareDimNotGrouped (metric dim : String)
  | compile (msg : String)
  deriving DecidableEq

/-! ## Table names -/

/-- A fully-qualified table name. -/
structure TableName where
  schema : String
  table : String
  deriving DecidableEq

/-- Parse the `schema.table` form; `none` when the form is wrong. -/
def TableName.parse (s : String) : Option TableName :=
  match Text.splitOnce '.' s with
  | none => none
  | some (schema, table) =>
      if schema = "" || table = "" then none else some ⟨schema, table⟩

end Semantic
end Pawrly
