import Pawrly.Http.Typed
import Pawrly.Lib.InnerJoin

/-!
# Dependent joins

`pawrly-sources/http/src/dependent_join.rs` and `deferred.rs`: a physical plan with an inner hash
join over a scan that waits for a required parameter is rewritten to run the other side once, to
fetch the scan for the keys found there, and to replay the join.  An enclosing limit caps the keys.
-/

namespace Pawrly
namespace Http

open InnerJoin

/-! ## Rows and scans -/

section

variable (ν : Type*)

/-- A row by column; `none` is `NULL`. -/
abbrev PlanRow := List (Option ν)

/-- The value of a column of a row. -/
def cell {ν : Type*} (i : ℕ) (row : PlanRow ν) : Option ν := row[i]?.join

/-- `DeferredHttpScanExec`: a scan of a table whose required parameters `keyColumns` are unbound.
`call` gives the rows for some values of a parameter. -/
structure DeferredScan where
  name : String
  /-- The columns of the scan. -/
  fields : List String
  keyColumns : List String
  /-- The parameter takes its values in one request. -/
  explode : String → Bool
  maxRows : Option ℕ
  /-- The text of a value in a request. -/
  keyText : ν → Option String
  call : String → List ν → Except DataFusionError (List (PlanRow ν))

end

section

variable {ν : Type*}

namespace DeferredScan

variable (d : DeferredScan ν) (col : String)

/-- The error of a scan whose parameter is still unbound. -/
def requiresFilter (col : String) : DataFusionError :=
  .plan ("table `" ++ d.name ++ "` requires filter `" ++ col ++
    " = ...` (PAWRLY_SAFETY_REQUIRED_FILTER)")

/-- The requests of a list of values: one for each, or one for all. -/
def requests (keys : List ν) : List (List ν) :=
  if d.explode col then [keys] else keys.map fun k => [k]

/-- The rows of some requests, below the ceiling of the table; `total` rows came before. -/
def collect : List (List ν) → ℕ → Except DataFusionError (List (PlanRow ν))
  | [], _ => .ok []
  | ks :: rest, total => do
      let rows ← d.call col ks
      match d.maxRows.filter fun max => max < total + rows.length with
      | some max => .error (tooManyRows d.name max)
      | none => do
          let more ← collect rest (total + rows.length)
          .ok (rows ++ more)

/-- `scan_with_filters` with the list of keys: a value without a text leaves the parameter unbound,
and so does a join on one of several. -/
def scanWithFilters (keys : List ν) : Except DataFusionError (List (PlanRow ν)) :=
  match keys.mapM d.keyText with
  | none => .error (d.requiresFilter (d.keyColumns.headD ""))
  | some _ =>
      match d.keyColumns.filter fun c => c ≠ col with
      | first :: _ => .error (d.requiresFilter first)
      | [] => d.collect col (d.requests col keys) 0

end DeferredScan

end

/-! ## Physical plans -/

inductive JoinType
  | inner
  | left
  | right
  | full
  | semi
  | anti
  deriving DecidableEq

section

variable (ν : Type*)

/-- A side of a join condition: a plain column or another expression. -/
inductive KeyExpr
  | column (i : ℕ)
  | other (value : PlanRow ν → Option ν)

/-- `HashJoinExec` without its children. -/
structure HashJoin where
  joinType : JoinType
  on : List (KeyExpr ν × KeyExpr ν)
  /-- `NULL` keys match each other (`NullEquality`). -/
  nullEqualsNull : Bool := false
  /-- The residual filter. -/
  filter : PlanRow ν → PlanRow ν → Bool := fun _ _ => true
  output : PlanRow ν → PlanRow ν → PlanRow ν := fun l r => l ++ r

/-- The operators that pass on a prefix of their rows. -/
inductive PrefixOp
  | localLimit (fetch : ℕ)
  | coalesceBatches (fetch : Option ℕ)
  | coalescePartitions (fetch : Option ℕ)
  | repartition
  | projection (f : PlanRow ν → PlanRow ν)

/-- Physical plans; `δ` is the type of the dependent joins in them. -/
inductive Plan (δ : Type*)
  /-- A part without joins, by its rows. -/
  | relation (rows : List (PlanRow ν))
  | deferred (d : DeferredScan ν)
  | hashJoin (join : HashJoin ν) (left right : Plan δ)
  | globalLimit (skip : ℕ) (fetch : Option ℕ) (input : Plan δ)
  | prefixOp (op : PrefixOp ν) (input : Plan δ)
  /-- A sort, a filter, an aggregate and so on. -/
  | unary (name : String) (input : Plan δ)
  | binary (name : String) (left right : Plan δ)
  | dependent (join : δ)

/-- A plan that the rule has not seen. -/
abbrev SourcePlan := Plan ν Empty

/-- `DependentJoinExec`. -/
structure DependentJoin where
  join : HashJoin ν
  left : SourcePlan ν
  right : SourcePlan ν
  probeIsRight : Bool
  deferred : DeferredScan ν
  /-- The column of the key in the rows of the scan. -/
  probeKeyIdx : ℕ
  driverKeyIdx : ℕ
  probeKeyCol : String
  cap : Option ℕ

end

section

variable {ν : Type*}

/-- `plan.fetch()`. -/
def PrefixOp.fetch : PrefixOp ν → Option ℕ
  | .localLimit n => some n
  | .coalesceBatches n => n
  | .coalescePartitions n => n
  | .repartition => none
  | .projection _ => none

/-- `limit_for_children`. -/
def limitForChildren {δ : Type*} : Plan ν δ → Option ℕ → Option ℕ
  | .globalLimit skip fetch _, _ => fetch.map (· + skip)
  | .prefixOp op _, current => op.fetch.or current
  | _, _ => none

/-- `find_deferred`: the scan below operators that keep the columns. -/
def findDeferred : SourcePlan ν → Option (DeferredScan ν)
  | .deferred d => some d
  | .prefixOp (.coalesceBatches _) input => findDeferred input
  | .prefixOp (.coalescePartitions _) input => findDeferred input
  | .prefixOp .repartition input => findDeferred input
  | _ => none

/-- `try_build_dependent_join`. -/
def tryBuildDependentJoin (join : HashJoin ν) (left right : SourcePlan ν) (limit : Option ℕ) :
    Option (DependentJoin ν) :=
  if join.joinType ≠ .inner then none
  else
    match join.on with
    | [(leftKey, rightKey)] =>
        let sides := match findDeferred left, findDeferred right with
          | some d, none => some (false, d, leftKey, rightKey)
          | none, some d => some (true, d, rightKey, leftKey)
          | _, _ => none
        sides.bind fun (probeIsRight, d, probeKey, driverKey) =>
          match probeKey, driverKey with
          | .column i, .column j =>
              match d.fields[i]? with
              | some probeName =>
                  if probeName ∈ d.keyColumns then
                    some { join := join, left := left, right := right, probeIsRight := probeIsRight
                           deferred := d, probeKeyIdx := i, driverKeyIdx := j
                           probeKeyCol := probeName, cap := limit }
                  else none
              | none => none
          | _, _ => none
    | _ => none

/-- `rewrite`. -/
def rewrite : SourcePlan ν → Option ℕ → Plan ν (DependentJoin ν)
  | .hashJoin join left right, limit =>
      match tryBuildDependentJoin join left right limit with
      | some dep => .dependent dep
      | none => .hashJoin join (rewrite left none) (rewrite right none)
  | .relation rows, _ => .relation rows
  | .deferred d, _ => .deferred d
  | .globalLimit skip fetch input, limit => .globalLimit skip fetch
      (rewrite input (limitForChildren (.globalLimit skip fetch input) limit))
  | .prefixOp op input, limit =>
      .prefixOp op (rewrite input (limitForChildren (.prefixOp op input) limit))
  | .unary name input, _ => .unary name (rewrite input none)
  | .binary name left right, _ => .binary name (rewrite left none) (rewrite right none)

/-- The dependent joins of a plan. -/
def Plan.dependents {δ : Type*} : Plan ν δ → List δ
  | .relation _ => []
  | .deferred _ => []
  | .hashJoin _ left right => left.dependents ++ right.dependents
  | .globalLimit _ _ input => input.dependents
  | .prefixOp _ input => input.dependents
  | .unary _ input => input.dependents
  | .binary _ left right => left.dependents ++ right.dependents
  | .dependent join => [join]

end

/-! ## Execution -/

section

variable {ν : Type*} [DecidableEq ν]

/-- Equality of join keys. -/
def keyEq (nullEqualsNull : Bool) : Option ν → Option ν → Bool
  | some a, some b => decide (a = b)
  | none, none => nullEqualsNull
  | _, _ => false

def KeyExpr.eval : KeyExpr ν → PlanRow ν → Option ν
  | .column i => cell i
  | .other value => value

/-- Two rows join. -/
def HashJoin.joins (join : HashJoin ν) (l r : PlanRow ν) : Bool :=
  (join.on.all fun k => keyEq join.nullEqualsNull (k.1.eval l) (k.2.eval r)) && join.filter l r

/-- The rows of an inner hash join. -/
def HashJoin.rows (join : HashJoin ν) (left right : List (PlanRow ν)) : List (PlanRow ν) :=
  innerJoin join.joins join.output left right

/-- The loop of `distinct_keys` over the rows that are left. -/
def distinctKeysLoop (idx : ℕ) (cap : Option ℕ) : List (PlanRow ν) → List ν → List ν
  | [], out => out
  | row :: rows, out =>
      if cap.any fun c => c ≤ out.length then out
      else
        match cell idx row with
        | none => distinctKeysLoop idx cap rows out
        | some k =>
            if k ∈ out then distinctKeysLoop idx cap rows out
            else distinctKeysLoop idx cap rows (out ++ [k])

/-- `distinct_keys`: the values of a column that are not `NULL`, in the order of their first rows,
up to the cap. -/
def distinctKeys (rows : List (PlanRow ν)) (idx : ℕ) (cap : Option ℕ) : List ν :=
  distinctKeysLoop idx cap rows []

namespace DependentJoin

variable (dep : DependentJoin ν)

/-- The original join over the two sides. -/
def replay (driver probe : List (PlanRow ν)) : List (PlanRow ν) :=
  if dep.probeIsRight then dep.join.rows driver probe else dep.join.rows probe driver

/-- `execute`, over the rows of the driver. -/
def execute (driver : List (PlanRow ν)) : Except DataFusionError (List (PlanRow ν)) :=
  match distinctKeys driver dep.driverKeyIdx dep.cap with
  | [] => .ok []
  | k :: keys => do
      let probe ← dep.deferred.scanWithFilters dep.probeKeyCol (k :: keys)
      .ok (dep.replay driver probe)

end DependentJoin

end

end Http
end Pawrly
