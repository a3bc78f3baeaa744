import Pawrly.Http.Spec
import Pawrly.Lib.Fallible

/-!
# The typed table of an HTTP source

A typed table reports the filters that it can send with a request, and binds the parameters of its
requests from them: equalities and comparisons bind one value, a list of values is sent as repeated
query pairs or as one request for each value.
-/

namespace Pawrly
namespace Http

/-! ## Reading a filter -/

/-- `scalar_to_string` of the typed table. -/
def scalarToString : Scalar → Option String
  | .utf8 s => some s
  | .largeUtf8 s => some s
  | .int32 n => some (toString n)
  | .int64 n => some (toString n)
  | .uint64 n => some (toString n)
  | .boolean b => some (toString b)
  | _ => none

/-- The operator token of a comparison, read from the column's side. -/
def opToken : Operator → Bool → Option String
  | .eq, _ => some "="
  | .gt, false => some ">"
  | .lt, true => some ">"
  | .lt, false => some "<"
  | .gt, true => some "<"
  | .gtEq, false => some ">="
  | .ltEq, true => some ">="
  | .ltEq, false => some "<="
  | .gtEq, true => some "<="
  | _, _ => none

/-- `extract_cmp`: the column, operator and value of a comparison with a literal. -/
def extractCmp : Expr → Option (String × String × String)
  | .binary (.column c) op (.literal s) => do
      let token ← opToken op false
      let value ← scalarToString s
      some (c, token, value)
  | .binary (.literal s) op (.column c) => do
      let token ← opToken op true
      let value ← scalarToString s
      some (c, token, value)
  | _ => none

/-- The column and literal of an equality. -/
def equalitySides : Expr → Expr → Option (String × Scalar)
  | .column c, .literal s => some (c, s)
  | .literal s, .column c => some (c, s)
  | _, _ => none

/-- `collect_or_equalities`: the state is the column found so far and its values. -/
def collectOrEqualities : Expr → Option String × List String →
    Option (Option String × List String)
  | .binary left .or right, st =>
      (collectOrEqualities left st).bind fun st => collectOrEqualities right st
  | .binary left .eq right, st =>
      (equalitySides left right).bind fun side =>
        if st.1.any (· ≠ side.1) then none
        else (scalarToString side.2).map fun v => (some side.1, st.2 ++ [v])
  | _, _ => none

/-- The text of a literal in a list. -/
def literalText : Expr → Option String
  | .literal s => scalarToString s
  | _ => none

/-- `extract_in_list`: the column and values of a list, or of a disjunction of equalities. -/
def extractInList : Expr → Option (String × List String)
  | .inList (.column c) list false => (list.mapM literalText).map fun vals => (c, vals)
  | .binary left op right =>
      (collectOrEqualities (.binary left op right) (none, [])).bind fun st =>
        if st.2.length < 2 then none else st.1.map fun c => (c, st.2)
  | _ => none

namespace HttpTableSpec

variable (spec : HttpTableSpec)

/-- `can_push_down`. -/
def canPushDown (f : Expr) : Bool :=
  match extractInList f with
  | some (col, _) => spec.params.any fun p =>
      p.name = col && (p.explode || p.required || spec.isPathParam col)
  | none =>
      match extractCmp f with
      | some (col, op, _) =>
          match spec.param? col with
          | some p => op = "=" || (p.accepts.contains op && p.emit.contains op)
          | none => false
      | none => false

/-! ## Binding the parameters -/

/-- The parameter that a comparison binds, and its value. -/
def boundBy (f : Expr) : Option (String × String) :=
  (extractCmp f).bind fun (col, op, val) =>
    (spec.param? col).bind fun p =>
      if op = "=" then some (col, val) else (p.emit.get? op).map fun q => (q, val)

/-- The values bound by the comparisons, the later ones over the earlier. -/
def bindCmp (filters : List Expr) : Params :=
  OrderedMap.empty.extend (filters.filterMap spec.boundBy)

/-- The list of values of a filter on a parameter that is sent as repeated query pairs. -/
def explodedBy (f : Expr) : Option (String × List String) :=
  (extractInList f).bind fun (col, vals) =>
    (spec.param? col).bind fun p =>
      if p.explode && !spec.isPathParam col then some (col, vals) else none

/-- The list of values of a filter on a parameter that is sent one value to a request. -/
def fannedBy (f : Expr) : Option (String × List String) :=
  (extractInList f).bind fun (col, vals) =>
    (spec.param? col).bind fun p =>
      if p.explode && !spec.isPathParam col then none
      else if p.required || spec.isPathParam col then some (col, vals)
      else none

/-- The parameters sent as repeated query pairs, a later list over an earlier one. -/
def explodeParams (filters : List Expr) : OrderedMap String (List String) :=
  OrderedMap.empty.extend (filters.filterMap spec.explodedBy)

/-- The parameters sent one value to a request. -/
def fanout (filters : List Expr) : List (String × List String) :=
  filters.filterMap spec.fannedBy

/-- `bound_elsewhere`. -/
def boundElsewhere (filters : List Expr) (name : String) : Bool :=
  (spec.explodeParams filters).contains name || (spec.fanout filters).any fun f => f.1 = name

/-- Defaults for the parameters that the query left unbound. -/
def withDefaults (filters : List Expr) (params : Params) : Params :=
  spec.params.foldl (fun params p =>
    match p.default with
    | some d =>
        if params.contains p.name || spec.boundElsewhere filters p.name then params
        else params.insert p.name d
    | none => params) params

/-- The derived values of the parameters that are still unbound. -/
def derived (filters : List Expr) (nowEpoch : ℤ) (params : Params) : List (String × String) :=
  spec.params.filterMap fun p =>
    if params.contains p.name || spec.boundElsewhere filters p.name then none
    else (p.derive?.bind (Derive.resolve params nowEpoch)).map fun v => (p.name, v)

/-- The values of the parameters before the fan-out. -/
def baseParams (filters : List Expr) (nowEpoch : ℤ) : Params :=
  let params := spec.withDefaults filters (spec.bindCmp filters)
  params.extend (spec.derived filters nowEpoch params)

/-- The required parameters that are not bound. -/
def unbound (filters : List Expr) (nowEpoch : ℤ) : List String :=
  (spec.params.filter fun p => p.required &&
    !(spec.baseParams filters nowEpoch).contains p.name &&
    !spec.boundElsewhere filters p.name).map ParamSpec.name

end HttpTableSpec

/-- `expand_fanout`: one set of values for each combination. -/
def expandFanout (base : Params) (fanout : List (String × List String)) : List Params :=
  fanout.foldl (fun sets f => sets.flatMap fun s => f.2.map fun v => s.insert f.1 v) [base]

/-- The requests of a scan: one for each set of values, all with the same repeated pairs. -/
structure Bindings where
  sets : List Params
  explode : OrderedMap String (List String)

/-- The requests that the filters bind. -/
def HttpTableSpec.bindings (spec : HttpTableSpec) (filters : List Expr) (nowEpoch : ℤ) :
    Bindings :=
  ⟨expandFanout (spec.baseParams filters nowEpoch) (spec.fanout filters),
    spec.explodeParams filters⟩

/-! ## The scan -/

/-- A scan binds its parameters, or is put off until a join supplies the unbound ones. -/
inductive BoundScan
  | bound (b : Bindings)
  | deferred (unbound : List String)

/-- The part of `scan_bound` before the first request. -/
def HttpTableSpec.bindScan (spec : HttpTableSpec) (filters : List Expr) (nowEpoch : ℤ)
    (allowDefer : Bool) : Except DataFusionError BoundScan :=
  match spec.unbound filters nowEpoch with
  | [] => .ok (.bound (spec.bindings filters nowEpoch))
  | first :: rest =>
      if allowDefer then .ok (.deferred (first :: rest))
      else .error (.plan ("table `" ++ spec.name ++ "` requires filter `" ++ first ++
        " = ...` (PAWRLY_SAFETY_REQUIRED_FILTER)"))

/-- The loop of `scan_bound` over the sets of values; `total` rows are collected so far. -/
def scanLoop {ρ : Type} (spec : HttpTableSpec) (maxRows limit : Option ℕ)
    (fetch : Params → Option ℕ → Except DataFusionError (List ρ)) :
    List Params → ℕ → Except DataFusionError (List ρ)
  | [], _ => .ok []
  | bind :: rest, total =>
      if limit.any (· ≤ total) then .ok []
      else do
        let rows ← fetch bind (limit.map (· - total))
        match maxRows.filter (· < total + rows.length) with
        | some max => .error (tooManyRows spec.name max)
        | none => do
            let kept := limit.elim rows fun l => rows.take (l - total)
            let more ← scanLoop spec maxRows limit fetch rest (total + kept.length)
            .ok (kept ++ more)

/-- What a scan returns: rows, or a placeholder that names the unbound parameters. -/
inductive ScanResult (ρ : Type)
  | rows (rows : List ρ)
  | deferred (unbound : List String)

/-- `scan_bound`, up to the building of the record batches.  `fetch` is `fetch_rows`. -/
def scanBound {ρ : Type} (spec : HttpTableSpec) (maxRows limit : Option ℕ)
    (fetch : Params → OrderedMap String (List String) → Option ℕ →
      Except DataFusionError (List ρ))
    (filters : List Expr) (nowEpoch : ℤ) (allowDefer : Bool) :
    Except DataFusionError (ScanResult ρ) := do
  match ← spec.bindScan filters nowEpoch allowDefer with
  | .deferred names => .ok (.deferred names)
  | .bound b => do
      let rows ← scanLoop spec maxRows limit (fun bind rest => fetch bind b.explode rest) b.sets 0
      .ok (.rows rows)

end Http
end Pawrly
