import Pawrly.Sql.Syntax
import Mathlib.Data.List.Nodup

/-!
# The semantic catalog and its members

`SemanticCatalog` holds the models and metrics of a workspace under unique names.  This module
embeds the functions of `pawrly-semantic/src/lib.rs` that read it: the resolution of a member
`model.name[.grain]` to an expression, the construction of filter conditions, the binding of
required-predicate parameters, and the guard rails of a model.
-/

namespace Pawrly
namespace Semantic

open Sql

/-! ## The catalog -/

/-- Collecting `(key, value)` pairs into a map keeps the last value of each key. -/
def collectByName (key : α → String) : List α → List α
  | [] => []
  | a :: as =>
      if key a ∈ as.map key then collectByName key as else a :: collectByName key as

lemma collectByName_sublist (key : α → String) (as : List α) :
    (collectByName key as).Sublist as := by
  induction as with
  | nil => exact List.Sublist.refl _
  | cons a as ih =>
      unfold collectByName
      split_ifs with h
      · exact ih.trans (List.sublist_cons_self a as)
      · exact ih.cons_cons a

lemma collectByName_nodup (key : α → String) (as : List α) :
    ((collectByName key as).map key).Nodup := by
  induction as with
  | nil => exact List.nodup_nil
  | cons a as ih =>
      unfold collectByName
      split_ifs with h
      · exact ih
      · have hsub : ((collectByName key as).map key).Sublist (as.map key) :=
          (collectByName_sublist key as).map key
        rw [List.map_cons, List.nodup_cons]
        exact ⟨fun hmem => h (hsub.subset hmem), ih⟩

/-- The semantic models and workspace metrics of a workspace, each under a unique name. -/
structure SemanticCatalog where
  models : List SemanticModel
  metrics : List Metric
  timeSpine : Option TimeSpine
  models_nodup : (models.map SemanticModel.name).Nodup
  metrics_nodup : (metrics.map Metric.name).Nodup

namespace SemanticCatalog

/-- `new_with_metrics` followed by `with_time_spine`. -/
def new (models : List SemanticModel) (metrics : List Metric := [])
    (timeSpine : Option TimeSpine := none) : SemanticCatalog where
  models := collectByName SemanticModel.name models
  metrics := collectByName Metric.name metrics
  timeSpine := timeSpine
  models_nodup := collectByName_nodup _ _
  metrics_nodup := collectByName_nodup _ _

/-- `self.models.get(name)`. -/
def model (cat : SemanticCatalog) (name : String) : Option SemanticModel :=
  cat.models.find? fun m => m.name = name

/-- `self.metrics.get(name)`. -/
def metric (cat : SemanticCatalog) (name : String) : Option Metric :=
  cat.metrics.find? fun m => m.name = name

lemma name_of_model {cat : SemanticCatalog} {name : String} {m : SemanticModel}
    (h : cat.model name = some m) : m.name = name := by
  have := List.find?_some h
  simpa using this

end SemanticCatalog

/-! ## Members -/

/-- Extract the model prefix (`orders` from `orders.revenue`). -/
def memberModel (member : String) : Except SemanticError String :=
  match (Text.split '.' member).head? with
  | some s => if s = "" then .error (.unknownMember member) else .ok s
  | none => .error (.unknownMember member)

/-- The dimension segment of a member (`status` from `orders.status`). -/
def dimensionOfMember (member : String) : Option String := (Text.split '.' member)[1]?

def findDimension (model : SemanticModel) (name : String) : Option Dimension :=
  model.dimensions.find? fun d => d.name = name

def findMeasure (model : SemanticModel) (name : String) : Option Measure :=
  model.measures.find? fun m => m.name = name

/-- The measure name from a two-part `model.measure` member. -/
def measureMemberName (member : String) : Option String :=
  match Text.split '.' member with
  | [_, name] => some name
  | _ => none

/-- True when `member` (a two-part `model.name`) names a measure on `model`. -/
def memberIsMeasure (model : SemanticModel) (member : String) : Bool :=
  match measureMemberName member with
  | some name => (findMeasure model name).isSome
  | none => false

/-- The model that owns a member, resolved by its `model.` prefix. -/
def modelForMember (cat : SemanticCatalog) (member : String) :
    Except SemanticError SemanticModel := do
  let name ← memberModel member
  match cat.model name with
  | some m => .ok m
  | none => .error (.unknownModel name)

/-- One turn of the loops of `measure_roots` and `referenced_models`: the member's model is
known, and joins the list unless it is already there. -/
def pushModel (cat : SemanticCatalog) (out : List String) (member : String) :
    Except SemanticError (List String) := do
  let m ← modelForMember cat member
  .ok (if m.name ∈ out then out else out ++ [m.name])

/-- Distinct models owning the query's measures, in first-appearance order. -/
def measureRoots (cat : SemanticCatalog) (q : SemanticQuery) :
    Except SemanticError (List String) :=
  q.measures.foldlM (pushModel cat) []

/-- The members a query mentions: measures, then dimensions, then filters. -/
def queryMembers (q : SemanticQuery) : List String :=
  q.measures ++ q.dimensions ++ q.filters.map SemanticFilter.member

/-- Distinct models referenced anywhere in the query, in first-appearance order. -/
def referencedModels (cat : SemanticCatalog) (q : SemanticQuery) :
    Except SemanticError (List String) :=
  (queryMembers q).foldlM (pushModel cat) []

/-! ## Expressions -/

/-- True for a single unquoted SQL identifier. -/
def isBareIdent (s : String) : Bool :=
  match s.toList with
  | [] => false
  | c :: cs => (c.isAlpha || c = '_') && cs.all fun d => d.isAlphanum || d = '_'

/-- Qualify a bare-column expression with a table alias when one is in play. -/
def qualify (expr : String) (alias? : Option String) : SqlExpr :=
  match alias? with
  | some a => if isBareIdent expr then .field a expr else .raw expr
  | none => .raw expr

/-- The split of a dimension member into its name and grain. -/
def dimensionParts (member : String) : Except SemanticError (String × Option String) :=
  match Text.split '.' member with
  | [_, dim] => .ok (dim, none)
  | [_, dim, grain] => .ok (dim, some grain)
  | _ => .error (.unknownMember member)

/-- Resolve a dimension member to its SQL expression: qualified by the alias when joining,
truncated (in the requested zone) for a grain. -/
def resolveDimensionExpr (model : SemanticModel) (member : String) (alias? tz : Option String) :
    Except SemanticError SqlExpr := do
  let (dimName, grain?) ← dimensionParts member
  match findDimension model dimName with
  | none => .error (.unknownMember member)
  | some dim =>
      let base := qualify dim.expr alias?
      match grain? with
      | none => .ok base
      | some grainStr =>
          match TimeGrain.parse grainStr with
          | none => .error (.invalidGrain dimName grainStr)
          | some grain =>
              if dim.dataType ≠ .time then .error (.invalidGrain dimName grainStr)
              else if !dim.timeGrains.isEmpty && !dim.timeGrains.contains grain then
                .error (.invalidGrain dimName grainStr)
              else
                .ok (.dateTrunc grain (match tz with
                  | some zone => .atTimeZone base zone
                  | none => base))

/-- The aggregate expression of a measure (`agg_sql`). -/
def aggSql (m : Measure) (alias? : Option String) : SqlExpr :=
  .aggregate m.agg (qualify m.expr alias?) m.filters

/-- Resolve a measure member to its aggregate expression. -/
def resolveMeasureExpr (model : SemanticModel) (member : String) (alias? : Option String) :
    Except SemanticError SqlExpr :=
  match measureMemberName member with
  | none => .error (.unknownMember member)
  | some name =>
      match findMeasure model name with
      | none => .error (.unknownMember member)
      | some measure => .ok (aggSql measure alias?)

/-! ## Filter conditions -/

/-- A bare numeral when `numeric` is set and the value parses as a number, otherwise a quoted
string. -/
def scalarLit (s : String) (numeric : Bool) : Literal :=
  if numeric && (Text.parsesI64 s || Text.parsesF64 s) then .bare s else .quoted s

/-- The first value of a filter. -/
def oneValue (f : SemanticFilter) : Except SemanticError String :=
  match f.values with
  | v :: _ => .ok v
  | [] => .error (.compile ("filter on `" ++ f.member ++ "` requires a value"))

/-- Apply a filter's operator to an already-resolved expression, its values as literals. -/
def applyOp (expr : SqlExpr) (f : SemanticFilter) (numeric : Bool) :
    Except SemanticError SqlCond :=
  let cmp (op : CmpOp) : Except SemanticError SqlCond := do
    let v ← oneValue f
    .ok (.cmp expr op (scalarLit v numeric))
  let list (negated : Bool) : Except SemanticError SqlCond :=
    if f.values.isEmpty then
      .error (.compile ("filter on `" ++ f.member ++ "` requires at least one value"))
    else .ok (.inList expr negated (f.values.map fun v => scalarLit v numeric))
  match f.op with
  | .equals => cmp .eq
  | .notEquals => cmp .ne
  | .gt => cmp .gt
  | .gte => cmp .ge
  | .lt => cmp .lt
  | .lte => cmp .le
  | .inList => list false
  | .notIn => list true
  | .inRange =>
      match f.values with
      | lo :: hi :: _ => .ok (.between expr (scalarLit lo numeric) (scalarLit hi numeric))
      | _ => .error (.compile ("in_range filter on `" ++ f.member ++ "` requires two values"))
  | .contains => do
      let v ← oneValue f
      .ok (.like expr ("%" ++ v ++ "%"))
  | .startsWith => do
      let v ← oneValue f
      .ok (.like expr (v ++ "%"))
  | .endsWith => do
      let v ← oneValue f
      .ok (.like expr ("%" ++ v))
  | .isNull => .ok (.isNull expr false)
  | .isNotNull => .ok (.isNull expr true)

/-- A row-level (dimension) filter, resolved to a `WHERE` condition. -/
def resolveFilter (model : SemanticModel) (f : SemanticFilter) (alias? tz : Option String) :
    Except SemanticError SqlCond := do
  let expr ← resolveDimensionExpr model f.member alias? tz
  applyOp expr f false

/-- An aggregate-level (measure) filter, resolved to a `HAVING` condition. -/
def resolveMeasureFilter (model : SemanticModel) (f : SemanticFilter) (alias? : Option String) :
    Except SemanticError SqlCond := do
  let expr ← resolveMeasureExpr model f.member alias?
  applyOp expr f true

/-! ## Required predicates -/

/-- A predicate template, scanned left to right: its characters, its closed placeholders, and
a placeholder that is never closed. -/
inductive PredPiece
  | chr (c : Char)
  | param (name : String)
  | unterminated
  deriving DecidableEq

/-- The opening of a `param` placeholder. -/
def paramOpen : List Char := "$\x7bparam:".toList

/-- The scan of `bind_params`: `skip` characters of an opening are still to be passed, and
`name` holds the characters of the placeholder being read (in reverse). -/
def predPieces : ℕ → Option (List Char) → List Char → List PredPiece
  | _, none, [] => []
  | _, some _, [] => [.unterminated]
  | skip + 1, name, _ :: cs => predPieces skip name cs
  | 0, some acc, c :: cs =>
      if c = '\x7d' then .param (String.ofList acc.reverse) :: predPieces 0 none cs
      else predPieces 0 (some (c :: acc)) cs
  | 0, none, c :: cs =>
      if paramOpen.isPrefixOf (c :: cs) then predPieces (paramOpen.length - 1) (some []) cs
      else .chr c :: predPieces 0 none cs

/-- The text a piece contributes once its parameter is bound. -/
def bindPiece (pred : String) (params : List (String × String)) (model : String) :
    PredPiece → Except SemanticError (List Char)
  | .chr c => .ok [c]
  | .param name =>
      match params.lookup name with
      | some v => .ok (lit v).toList
      | none => .error (.safety (.unboundParam model name))
  | .unterminated =>
      .error (.safety (.predicateUnsatisfied model pred
        "unterminated $\x7bparam:...\x7d placeholder"))

/-- Substitute the placeholders of a required predicate by the bound values as escaped
literals. -/
def bindParams (pred : String) (params : List (String × String)) (model : String) :
    Except SemanticError String := do
  let parts ← (predPieces 0 none pred.toList).mapM (bindPiece pred params model)
  .ok (String.ofList parts.flatten)

/-- The required predicates of a model; none when it has no safety policy. -/
def requiredPredicates (cat : SemanticCatalog) (name : String) : List String :=
  match (cat.model name).bind SemanticModel.safety with
  | some safety => safety.requiredPredicates
  | none => []

/-- The bound required predicates of the listed models, in order. -/
def boundPredicates (cat : SemanticCatalog) (params : List (String × String))
    (names : List String) : Except SemanticError (List SqlCond) :=
  (names.flatMap fun n => (requiredPredicates cat n).map fun p => (n, p)).mapM fun np => do
    let text ← bindParams np.2 params np.1
    .ok (SqlCond.raw text)

/-! ## Guard rails and limits -/

/-- Enforce the root model's filter-presence guard rails against the user's filters. -/
def enforceFilterSafety (cat : SemanticCatalog) (root : String) (q : SemanticQuery) :
    Except SemanticError Unit :=
  match (cat.model root).bind SemanticModel.safety with
  | none => .ok ()
  | some safety =>
      if safety.requireAtLeastOneFilter && q.filters.isEmpty then
        .error (.safety (.noFilters root))
      else
        safety.requireFiltersOn.forM fun col =>
          if q.filters.any fun f =>
              (match memberModel f.member with
                | .ok m => m = root
                | .error _ => false) && dimensionOfMember f.member = some col
          then .ok ()
          else .error (.safety (.missingRequiredFilter root col))

/-- The root model's row cap, if any. -/
def maxRows (cat : SemanticCatalog) (root : String) : Option ℕ :=
  ((cat.model root).bind SemanticModel.safety).bind SafetyPolicy.maxRows

/-- Clamp a requested limit to a cap; the cap is also the default limit. -/
def effectiveLimit : Option ℕ → Option ℕ → Option ℕ
  | some l, some c => some (min l c)
  | some l, none => some l
  | none, cap => cap

/-- Validate the `ORDER BY` terms: every term names a selected member. -/
def resolveOrders (q : SemanticQuery) : Except SemanticError (List SemanticOrder) :=
  q.orderBy.mapM fun o =>
    if o.member ∈ q.dimensions ++ q.measures then .ok o else .error (.unknownMember o.member)

/-- The table of a model's source. -/
def qualifiedTable (cat : SemanticCatalog) (name : String) : Except SemanticError TableName :=
  match cat.model name with
  | none => .error (.unknownModel name)
  | some m =>
      match TableName.parse m.source with
      | none => .error (.invalidSource m.name m.source)
      | some t => .ok t

/-! ## Segments -/

/-- The filters of one `model.segment` reference. -/
def segmentFilters (cat : SemanticCatalog) (segRef : String) :
    Except SemanticError (List SemanticFilter) :=
  match Text.splitOnce '.' segRef with
  | none => .error (.unknownSegment segRef)
  | some (modelName, segName) =>
      match cat.model modelName with
      | none => .error (.unknownModel modelName)
      | some m =>
          match m.segments.find? fun s => s.name = segName with
          | none => .error (.unknownSegment segRef)
          | some seg => .ok seg.filters

/-- Expand the query's segments into their predicates, after its own filters. -/
def expandSegments (cat : SemanticCatalog) (q : SemanticQuery) :
    Except SemanticError SemanticQuery := do
  let extra ← q.segments.mapM (segmentFilters cat)
  .ok { q with filters := q.filters ++ extra.flatten, segments := [] }

end Semantic
end Pawrly
