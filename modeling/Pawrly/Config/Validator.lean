import Pawrly.Semantic.Metric
import Pawrly.Lib.CycleSearch

/-!
# Validating the semantic block of a configuration

`validate_semantic` and `validate_metrics` of `pawrly-config/src/validator.rs`: all errors of
the `semantic:` block, in the order they are found.  The names of the configured sources are a
parameter, as is the order in which the metric graph is walked.
-/

namespace Pawrly
namespace Config

open Semantic

/-! ## Errors -/

/-- A `ConfigError::SemanticInvalid`. -/
structure SemanticInvalid where
  model : String
  msg : String
  deriving DecidableEq

/-- A message when a check fails. -/
def errorIf (failed : Bool) (msg : String) : List String := if failed then [msg] else []

@[simp] lemma errorIf_eq_nil {failed : Bool} {msg : String} :
    errorIf failed msg = [] ↔ failed = false := by
  cases failed <;> simp [errorIf]

/-- A loop over named entries with the set of names seen before: what `check` reports of each
entry, told whether its name has been seen. -/
def eachNamed {α β : Type*} (name : α → String) (check : Bool → α → List β) :
    List String → List α → List β
  | _, [] => []
  | seen, a :: as =>
      check (seen.contains (name a)) a ++ eachNamed name check (name a :: seen) as

/-! ## Names and sources -/

def isValidIdentifier (name : String) : Bool :=
  match name.toList with
  | [] => false
  | c :: cs => (c.isAlpha || c = '_') && cs.all fun d => d.isAlphanum || d = '_'

/-- The `source:` of a model or of the time spine. -/
def sourceErrors (sourceNames : List String) (source : String) : List String :=
  match TableName.parse source with
  | none => ["`source: " ++ source ++ "` must be in `source.table` form"]
  | some table =>
      errorIf (!sourceNames.contains table.schema)
        ("`source: " ++ source ++ "` references unknown source `" ++ table.schema ++ "`")

/-- Split a possibly-grained member into name and grain. -/
def splitMemberGrain (s : String) : String × Option String :=
  match Text.splitOnce '.' s with
  | some (name, grain) => (name, some grain)
  | none => (s, none)

/-! ## Members of a model -/

def dimensionErrors (duplicate : Bool) (dim : Dimension) : List String :=
  errorIf (dim.name = "" || !isValidIdentifier dim.name)
      ("dimension `" ++ dim.name ++ "` name must be a valid SQL identifier") ++
    errorIf duplicate ("duplicate dimension `" ++ dim.name ++ "`") ++
    errorIf (!dim.timeGrains.isEmpty && dim.dataType ≠ .time)
      ("dimension `" ++ dim.name ++ "` declares `grains:` but is not `type: time`")

/-- The first grain of the lowest rank. -/
def minGrain : List TimeGrain → Option TimeGrain
  | [] => none
  | g :: gs =>
      match minGrain gs with
      | none => some g
      | some best => if best.rank < g.rank then some best else some g

/-- The finest declared grain of a dimension. -/
def finestGrain (dims : List Dimension) (name : String) : Option TimeGrain :=
  (dims.reverse.find? fun d => d.name = name && !d.timeGrains.isEmpty).bind fun d =>
    minGrain d.timeGrains

def measureErrors (dimNames : List String) (duplicate : Bool) (measure : Measure) :
    List String :=
  errorIf (measure.name = "" || !isValidIdentifier measure.name)
      ("measure `" ++ measure.name ++ "` name must be a valid SQL identifier") ++
    errorIf duplicate ("duplicate measure `" ++ measure.name ++ "`") ++
    errorIf (dimNames.contains measure.name)
      ("`" ++ measure.name ++ "` is used by both a dimension and a measure") ++
    match measure.agg with
    | .custom sql =>
        errorIf (Text.trim sql = "")
          ("measure `" ++ measure.name ++ "` has a `custom` aggregate with empty `sql`")
    | _ => []

def relationshipErrors (modelNames : List String) (duplicate : Bool) (rel : Relationship) :
    List String :=
  errorIf duplicate ("duplicate relationship `" ++ rel.name ++ "`") ++
    errorIf (!modelNames.contains rel.targetModel)
      ("relationship `" ++ rel.name ++ "` targets unknown model `" ++ rel.targetModel ++ "`") ++
    errorIf (Text.trim rel.joinPredicate = "")
      ("relationship `" ++ rel.name ++ "` has an empty `on` join predicate")

/-! ## Pre-aggregations -/

/-- A dimension entry of a pre-aggregation: a known dimension, at a grain no finer than its
finest declared one. -/
def preaggDimErrors (dims : List Dimension) (pre dimRef : String) : List String :=
  let (name, grain?) := splitMemberGrain dimRef
  if !(dims.map Dimension.name).contains name then
    ["pre-aggregation `" ++ pre ++ "` references unknown dimension `" ++ name ++ "`"]
  else
    match grain? with
    | none => []
    | some grainStr =>
        match TimeGrain.parse grainStr with
        | none =>
            ["pre-aggregation `" ++ pre ++ "` uses invalid grain `" ++ grainStr ++ "` on `" ++
              name ++ "`"]
        | some g =>
            match finestGrain dims name with
            | none => []
            | some finest =>
                errorIf (decide (g.rank < finest.rank))
                  ("pre-aggregation `" ++ pre ++ "` grain `" ++ grainStr ++ "` on `" ++ name ++
                    "` is finer than the dimension's finest declared grain `" ++ finest.asStr ++
                    "`")

def preaggErrors (dims : List Dimension) (measureNames : List String) (duplicate : Bool)
    (pre : PreAggregation) : List String :=
  errorIf duplicate ("duplicate pre-aggregation `" ++ pre.name ++ "`") ++
    pre.dimensions.flatMap (preaggDimErrors dims pre.name) ++
    (pre.measures.flatMap fun m => errorIf (!measureNames.contains m)
      ("pre-aggregation `" ++ pre.name ++ "` references unknown measure `" ++ m ++ "`")) ++
    match pre.partitionBy with
    | none => []
    | some part =>
        errorIf (!(dims.map Dimension.name).contains (splitMemberGrain part).1)
          ("pre-aggregation `" ++ pre.name ++ "` partitions by unknown dimension `" ++
            (splitMemberGrain part).1 ++ "`")

/-! ## Guard rails and segments -/

/-- The first defect among the placeholders of a required predicate. -/
def placeholderError : List PredPiece → Option String
  | [] => none
  | .unterminated :: _ => some "unterminated `$\x7bparam:...\x7d` placeholder"
  | .param name :: rest =>
      if name = "" || !isValidIdentifier name then
        some ("`$\x7bparam:" ++ name ++ "\x7d` is not a valid identifier")
      else placeholderError rest
  | .chr _ :: rest => placeholderError rest

def checkPredicateParams (pred : String) : Option String :=
  if Text.trim pred = "" then some "predicate is empty"
  else placeholderError (predPieces 0 none pred.toList)

def safetyErrors (dimNames : List String) (safety : SafetyPolicy) : List String :=
  (safety.requireFiltersOn.flatMap fun col => errorIf (!dimNames.contains col)
      ("`safety.require_filters_on` references unknown dimension `" ++ col ++ "`")) ++
    safety.requiredPredicates.flatMap fun pred =>
      match checkPredicateParams pred with
      | none => []
      | some msg => ["`safety.required_predicates` entry `" ++ pred ++ "`: " ++ msg]

/-- A filter of a segment; only members of the model itself are looked up. -/
def segmentFilterErrors (model : String) (memberNames : List String) (segment : String)
    (f : SemanticFilter) : List String :=
  match Text.splitOnce '.' f.member with
  | none =>
      ["segment `" ++ segment ++ "` filter member `" ++ f.member ++ "` must be `model.field`"]
  | some (memberModel, rest) =>
      errorIf (memberModel = model && !memberNames.contains ((Text.split '.' rest).headD rest))
        ("segment `" ++ segment ++ "` references unknown member `" ++ f.member ++ "`")

def segmentErrors (model : String) (memberNames : List String) (duplicate : Bool)
    (seg : Segment) : List String :=
  errorIf (seg.name = "" || !isValidIdentifier seg.name)
      ("segment `" ++ seg.name ++ "` name must be a valid SQL identifier") ++
    errorIf duplicate ("duplicate segment `" ++ seg.name ++ "`") ++
    errorIf seg.filters.isEmpty ("segment `" ++ seg.name ++ "` has no filters") ++
    seg.filters.flatMap (segmentFilterErrors model memberNames seg.name)

/-! ## Models -/

def modelErrors (modelNames sourceNames : List String) (duplicate : Bool)
    (model : SemanticModel) : List String :=
  let dimNames := model.dimensions.map Dimension.name
  let measureNames := model.measures.map Measure.name
  errorIf (model.name = "" || !isValidIdentifier model.name)
      "model `name:` must be a valid SQL identifier" ++
    errorIf duplicate "duplicate model name" ++
    sourceErrors sourceNames model.source ++
    eachNamed Dimension.name dimensionErrors [] model.dimensions ++
    eachNamed Measure.name (measureErrors dimNames) [] model.measures ++
    eachNamed Relationship.name (relationshipErrors modelNames) [] model.relationships ++
    eachNamed PreAggregation.name (preaggErrors model.dimensions measureNames) []
      model.preAggregations ++
    (match model.safety with
      | none => []
      | some safety => safetyErrors dimNames safety) ++
    eachNamed Segment.name (segmentErrors model.name (dimNames ++ measureNames)) [] model.segments

/-- The errors of all models (`validate_semantic`). -/
def validateSemantic (models : List SemanticModel) (sourceNames : List String) :
    List SemanticInvalid :=
  eachNamed SemanticModel.name (fun duplicate model =>
    (modelErrors (models.map SemanticModel.name) sourceNames duplicate model).map fun msg =>
      ⟨model.name, msg⟩) [] models

/-! ## Metrics -/

/-- The `semantic:` block of a loaded configuration. -/
structure SemanticConfig where
  models : List SemanticModel
  metrics : List Metric := []
  timeSpine : Option TimeSpine := none

/-- The catalog the engine builds from the block. -/
def SemanticConfig.catalog (cfg : SemanticConfig) : SemanticCatalog :=
  SemanticCatalog.new cfg.models cfg.metrics cfg.timeSpine

def timeSpineErrors (sourceNames : List String) (spine : TimeSpine) : List String :=
  sourceErrors sourceNames spine.source ++
    errorIf (spine.column = "" || !isValidIdentifier spine.column)
      "`column:` must be a valid SQL identifier"

/-- A member that a metric references: a measure of a model, or another metric. -/
def memberErrors (cfg : SemanticConfig) (member : String) : List String :=
  match Text.splitOnce '.' member with
  | some (modelName, measure) =>
      match cfg.catalog.model modelName with
      | none => ["references unknown model `" ++ modelName ++ "` (in `" ++ member ++ "`)"]
      | some model =>
          errorIf (!(model.measures.map Measure.name).contains measure)
            ("references unknown measure `" ++ member ++ "` on model `" ++ modelName ++ "`")
  | none =>
      errorIf (!(cfg.metrics.map Metric.name).contains member)
        ("references unknown metric `" ++ member ++ "`")

/-- The base of a window metric is a measure whose model has a time dimension with grains. -/
def checkWindowBase (cfg : SemanticConfig) (measure : String) : List String :=
  match Text.splitOnce '.' measure with
  | none => ["window metric must reference a `model.measure`, got `" ++ measure ++ "`"]
  | some (modelName, _) =>
      match cfg.catalog.model modelName with
      | none => []
      | some model =>
          errorIf (!model.dimensions.any fun d => d.dataType = .time && !d.timeGrains.isEmpty)
            ("model `" ++ modelName ++ "` declares no `type: time` dimension with grains (a " ++
              "window metric needs an ordering key)")

/-- An `over` entry of a share metric. -/
def overErrors (cfg : SemanticConfig) (dim : String) : List String :=
  match Text.splitOnce '.' dim with
  | none => ["`over` entry `" ++ dim ++ "` must be `model.dimension`"]
  | some (modelName, dimName) =>
      match cfg.catalog.model modelName with
      | none => ["`over` entry `" ++ dim ++ "` references unknown model `" ++ modelName ++ "`"]
      | some model =>
          errorIf (!(model.dimensions.map Dimension.name).contains dimName)
            ("`over` entry `" ++ dim ++ "` references unknown dimension")

/-- What the kind of a metric asks for. -/
def kindErrors (cfg : SemanticConfig) : MetricKind → List String
  | .cumulative measure window _ =>
      errorIf (window = .trailing 0) "`trailing.periods` must be at least 1" ++
        checkWindowBase cfg measure
  | .offset measure periods _ =>
      errorIf (periods = 0) "`offset.periods` must be at least 1" ++ checkWindowBase cfg measure
  | .share measure overDims _ =>
      errorIf (!Text.hasChar '.' measure)
          ("share metric must reference a `model.measure`, got `" ++ measure ++ "`") ++
        overDims.flatMap (overErrors cfg)
  | .ratio _ _ => []
  | .derived _ => []

def metricErrors (cfg : SemanticConfig) (duplicate : Bool) (metric : Metric) : List String :=
  errorIf (metric.name = "" || !isValidIdentifier metric.name)
      "metric `name:` must be a valid, dot-free SQL identifier" ++
    errorIf ((cfg.models.map SemanticModel.name).contains metric.name)
      "metric name collides with a model name" ++
    errorIf duplicate "duplicate metric name" ++
    (match metric.references with
      | .error msg => [msg]
      | .ok refs => refs.flatMap fun r => memberErrors cfg r.1) ++
    (match metric.filter with
      | some f => errorIf (Text.trim f = "") "`filter:` must not be empty"
      | none => []) ++
    kindErrors cfg metric.kind

/-- The metrics that a metric references. -/
def metricRefs (cfg : SemanticConfig) (name : String) : Option (List String) :=
  (cfg.catalog.metric name).map fun metric =>
    match metric.references with
    | .ok refs => (refs.map Prod.fst).filter isMetric
    | .error _ => []

/-- The metrics at which a reference cycle was met (`find_metric_cycles`). -/
def findMetricCycles (ord : SetOrder) (cfg : SemanticConfig) : List String :=
  let keys := cfg.catalog.metrics.map Metric.name
  ((CycleSearch.search (metricRefs cfg) keys (ord.order keys)).cyclic.dedup).insertionSort
    fun a b => a ≤ b

/-- The errors of the time spine and of all metrics (`validate_metrics`). -/
def validateMetrics (ord : SetOrder) (cfg : SemanticConfig) (sourceNames : List String) :
    List SemanticInvalid :=
  (match cfg.timeSpine with
    | none => []
    | some spine => (timeSpineErrors sourceNames spine).map fun msg => ⟨"time_spine", msg⟩) ++
    eachNamed Metric.name (fun duplicate metric =>
      (metricErrors cfg duplicate metric).map fun msg => ⟨metric.name, msg⟩) [] cfg.metrics ++
    (findMetricCycles ord cfg).map fun name =>
      ⟨name, "metric reference cycle through `" ++ name ++ "`"⟩

/-- Neither validation reports an error. -/
def Accepted (ord : SetOrder) (cfg : SemanticConfig) (sourceNames : List String) : Prop :=
  validateSemantic cfg.models sourceNames = [] ∧ validateMetrics ord cfg sourceNames = []

instance (ord : SetOrder) (cfg : SemanticConfig) (sourceNames : List String) :
    Decidable (Accepted ord cfg sourceNames) :=
  inferInstanceAs (Decidable (_ ∧ _))

end Config
end Pawrly
