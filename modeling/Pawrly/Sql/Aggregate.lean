import Pawrly.Sql.Relation
import Pawrly.Lib.PartialAggregate

/-!
# The result of a `SELECT`

A compiled `SELECT` is evaluated over the rows of its `FROM`: the `WHERE` conditions select
rows, `GROUP BY` groups them (one group of all rows without it), `HAVING` selects groups, and
every group gives one row.  How the texts of the configuration read a row is left to a
`Reader`, what the functions on dates and the comparisons compute to `Functions`.
-/

namespace Pawrly
namespace Sql

open Semantic PartialAggregate

/-! ## What the engine contributes -/

/-- The scalar functions of the engine. -/
structure Functions where
  trunc : TimeGrain → Value → Value
  atTimeZone : String → Value → Value
  cmp : CmpOp → Value → Literal → Bool
  like : Value → String → Bool
  /-- Truncating to a grain and then to one it nests into is truncating to the latter. -/
  trunc_trunc : ∀ g g' v, g.canRollUpTo g' = true → trunc g' (trunc g v) = trunc g' v

/-- How texts and columns are read on the rows of a `FROM`. -/
structure Reader (ρ : Type*) where
  raw : String → ρ → Value
  column : Column → ρ → Value
  holds : String → ρ → Bool
  custom : String → List ρ → Value

/-- Rows of a relation are read by column name. -/
def rowReader : Reader (Row Datum) where
  raw := fun _ _ => none
  column := fun c r => r c.name
  holds := fun _ _ => false
  custom := fun _ _ => none

section

variable {ρ : Type*} (F : Functions) (S : Reader ρ)

/-! ## Expressions -/

/-- The value of an expression on a row. -/
def SqlExpr.value (r : ρ) : SqlExpr → Value
  | raw text => S.raw text r
  | field model name => S.raw (model ++ "." ++ name) r
  | column c => S.column c r
  | dateTrunc grain arg => F.trunc grain (arg.value r)
  | atTimeZone arg zone => F.atTimeZone zone (arg.value r)
  | aggregate _ _ _ => none
  | coalesce args => Sql.coalesce (args.map fun c => S.column c r)

/-- An aggregate of the values that are not `NULL`. -/
def aggregateOf (rows : List ρ) : MeasureAgg → List Datum → Value
  | .sum => Value.sumOf
  | .count => Value.countOf
  | .countDistinct => Value.countDistinctOf
  | .avg => Value.avgOf
  | .min => Value.minOf
  | .max => Value.maxOf
  | .custom sql => fun _ => S.custom sql rows

/-- What a row contributes to a filtered aggregate. -/
def contribution (arg : SqlExpr) (filters : List String) (r : ρ) : Value :=
  if filters.all (fun f => S.holds f r) then arg.value F S r else none

/-- The value of an expression on a group; what is grouped by is the same on all its rows. -/
def SqlExpr.groupValue (rows : List ρ) : SqlExpr → Value
  | aggregate agg arg filters =>
      aggregateOf S rows agg (rows.filterMap (contribution F S arg filters))
  | e => rows.head?.bind fun r => e.value F S r

/-! ## Conditions -/

/-- The test a condition makes of the value of its expression. -/
def SqlCond.test (v : Value) : SqlCond → Bool
  | cmp _ op l => F.cmp op v l
  | inList _ false ls => ls.any fun l => F.cmp .eq v l
  | inList _ true ls => ls.all fun l => F.cmp .ne v l
  | between _ lo hi => F.cmp .ge v lo && F.cmp .le v hi
  | like _ pattern => F.like v pattern
  | isNull _ negated => v.isNone != negated
  | raw _ => false

/-- A condition is true of a row. -/
def SqlCond.holds (r : ρ) (c : SqlCond) : Bool :=
  match c with
  | raw text => S.holds text r
  | c => (c.expr?.map fun e => c.test F (e.value F S r)).getD false

/-- A condition is true of a group. -/
def SqlCond.holdsOn (rows : List ρ) (c : SqlCond) : Bool :=
  (c.expr?.map fun e => c.test F (e.groupValue F S rows)).getD false

/-! ## Statements -/

/-- The rows that satisfy the `WHERE`. -/
def Select.passing (s : Select) (rows : List ρ) : List ρ :=
  rows.filter fun r => s.wheres.all fun c => c.holds F S r

/-- The values a row is grouped by. -/
def Select.keyAt (s : Select) (r : ρ) : List Value := s.groupBy.map fun e => e.value F S r

/-- The groups of the rows that satisfy the `WHERE`. -/
def Select.groups (s : Select) (rows : List ρ) : List (List ρ) :=
  if s.groupBy = [] then [s.passing F S rows]
  else
    (groupKeys (s.keyAt F S) (s.passing F S rows)).map
      (group (s.keyAt F S) (s.passing F S rows))

/-- The row a group gives. -/
def Select.outputRow (s : Select) (rows : List ρ) : Row Datum := fun name =>
  (s.items.find? fun item => item.2 = name).bind fun item => item.1.groupValue F S rows

/-- The rows of a `SELECT`, before it is ordered and limited. -/
def Select.relation (s : Select) (rows : List ρ) : List (Row Datum) :=
  ((s.groups F S rows).filter fun g => s.havings.all fun c => c.holdsOn F S g).map
    (s.outputRow F S)

end

/-! ## Aggregates in two stages -/

/-- The aggregate that combines stored partial results. -/
def combineAgg : MeasureAgg → MeasureAgg
  | .min => .min
  | .max => .max
  | _ => .sum

/-- The sum as a reduction. -/
lemma sumOf_eq (ds : List Datum) :
    Value.sumOf ds = (reduce (· + ·) (ds.map Datum.toNum)).map Datum.num := by
  cases ds with
  | nil => rfl
  | cons d ds =>
      have hfold : ∀ (l : List ℚ) (a : ℚ), l.foldl (· + ·) a = a + l.sum := by
        intro l
        induction l with
        | nil => simp
        | cons b l ih =>
            intro a
            rw [List.foldl_cons, ih, List.sum_cons, add_assoc]
      simp [Value.sumOf, reduce, hfold]

lemma minOf_eq (ds : List Datum) : Value.minOf ds = reduce min ds := by
  cases ds <;> rfl

lemma maxOf_eq (ds : List Datum) : Value.maxOf ds = reduce max ds := by
  cases ds <;> rfl

lemma decomposes_sum : Decomposes Value.sumOf fun vs => Value.sumOf (vs.filterMap id) where
  perm := fun h => by rw [sumOf_eq, sumOf_eq, reduce_perm (h.map _)]
  flatten := by
    intro ls _
    have hnums : ((ls.map Value.sumOf).filterMap id).map Datum.toNum =
        ((ls.map (List.map Datum.toNum)).map (reduce (· + ·))).filterMap id := by
      rw [List.map_map, List.filterMap_map, List.filterMap_map, List.map_filterMap]
      refine List.filterMap_congr fun l _ => ?_
      simp only [Function.comp_apply, id_eq, sumOf_eq]
      cases reduce (· + ·) (l.map Datum.toNum) <;> rfl
    rw [sumOf_eq, hnums, reduce_flatten, sumOf_eq, List.map_flatten]

lemma decomposes_count : Decomposes Value.countOf fun vs => Value.sumOf (vs.filterMap id) where
  perm := fun h => by rw [Value.countOf, Value.countOf, h.length_eq]
  flatten := by
    intro ls hne
    have hcounts : (ls.map Value.countOf).filterMap id =
        ls.map fun l => Datum.num l.length := by
      rw [List.filterMap_map]
      exact congrFun (List.filterMap_eq_map' (f := fun l : List Datum => Datum.num l.length)) ls
    have hsum : ((ls.map fun l => Datum.num l.length).map Datum.toNum).sum =
        ls.flatten.length := by
      clear hne hcounts
      induction ls with
      | nil => rfl
      | cons l ls ih =>
          rw [List.map_cons, List.map_cons, List.sum_cons, ih, List.flatten_cons,
            List.length_append, Nat.cast_add]
          rfl
    rw [hcounts, Value.sumOf, if_neg (by simpa using hne), hsum]
    rfl

lemma decomposes_min : Decomposes Value.minOf fun vs => Value.minOf (vs.filterMap id) := by
  rw [show Value.minOf = reduce min from funext minOf_eq]
  exact decomposes_reduce

lemma decomposes_max : Decomposes Value.maxOf fun vs => Value.maxOf (vs.filterMap id) := by
  rw [show Value.maxOf = reduce max from funext maxOf_eq]
  exact decomposes_reduce

/-- A sum, a count, a minimum and a maximum can be computed from stored partial results. -/
theorem decomposes_aggregateOf {ρ σ : Type*} (S : Reader ρ) (S' : Reader σ) (rows : List ρ)
    (rows' : List σ) {agg : MeasureAgg}
    (h : agg = .sum ∨ agg = .count ∨ agg = .min ∨ agg = .max) :
    Decomposes (aggregateOf S rows agg)
      fun vs => aggregateOf S' rows' (combineAgg agg) (vs.filterMap id) := by
  rcases h with rfl | rfl | rfl | rfl
  · exact decomposes_sum
  · exact decomposes_count
  · exact decomposes_min
  · exact decomposes_max

end Sql
end Pawrly
