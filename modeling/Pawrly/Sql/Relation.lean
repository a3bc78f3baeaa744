import Pawrly.Sql.Syntax
import Pawrly.Lib.OuterJoin
import Mathlib.Data.List.Sort
import Mathlib.Data.List.TakeDrop
import Mathlib.Data.Rat.Defs
import Mathlib.Data.String.Basic
import Mathlib.Data.Sum.Order
import Mathlib.Data.List.Dedup
import Mathlib.Algebra.Order.Ring.Rat

/-!
# Values, rows and relations

The values SQL computes with, as far as compiled statements depend on them: possibly-`NULL`
values, exact arithmetic, the aggregate functions over a group, the order of `ORDER BY` (`NULL`
counts as larger than every value) and `LIMIT`.
-/

namespace Pawrly
namespace Sql

open OuterJoin Semantic

/-! ## Rows -/

section

variable {V : Type*}

/-- A row of a relation: its value in each column, `none` for `NULL`. -/
abbrev Row (V : Type*) := String → Option V

/-- The first value that is not `NULL`. -/
def coalesce (vs : List (Option V)) : Option V := vs.findSome? id

/-- The name of the relation a column reference names. -/
def RelName.name : RelName → String
  | bare name => name
  | quoted name => name

/-- A column of a joined row; `NULL` when its relation is padded. -/
def Column.eval (e : Joined String (Row V)) (c : Column) : Option V :=
  (e c.rel.name).bind fun r => r c.name

/-- The tuple of a row's dimension columns. -/
def keyOf (dims : List String) (r : Row V) : List (Option V) := dims.map r

/-- The first rows of a relation, all of them without a limit. -/
def takeRows {α : Type*} (limit : Option ℕ) (rows : List α) : List α :=
  match limit with
  | some n => rows.take n
  | none => rows

end

/-! ## Values -/

/-- A value: an exact number (timestamps are numbers too) or a text. -/
inductive Datum
  | num (q : ℚ)
  | text (s : String)
  deriving DecidableEq

/-- A value or `NULL`. -/
abbrev Value := Option Datum

namespace Datum

/-- Numbers come before texts. -/
def toSum : Datum → Lex (ℚ ⊕ String)
  | num q => toLex (.inl q)
  | text s => toLex (.inr s)

lemma toSum_injective : Function.Injective toSum := by
  intro a b h
  cases a <;> cases b <;> simp_all [toSum]

instance : LinearOrder Datum := LinearOrder.lift' toSum toSum_injective

/-- The number of a value; texts are not added up. -/
def toNum : Datum → ℚ
  | num q => q
  | text _ => 0

end Datum

namespace Value

/-- The order of `ORDER BY … ASC`: `NULL` comes last. -/
def le : Value → Value → Bool
  | _, none => true
  | none, some _ => false
  | some a, some b => a ≤ b

/-- `SUM` of the values that are not `NULL`: `NULL` when there are none. -/
def sumOf (ds : List Datum) : Value :=
  if ds = [] then none else some (.num (ds.map Datum.toNum).sum)

/-- `COUNT` of the values that are not `NULL`. -/
def countOf (ds : List Datum) : Value := some (.num ds.length)

/-- `COUNT(DISTINCT …)`. -/
def countDistinctOf (ds : List Datum) : Value := some (.num ds.dedup.length)

/-- `AVG`. -/
def avgOf (ds : List Datum) : Value :=
  if ds = [] then none else some (.num ((ds.map Datum.toNum).sum / ds.length))

/-- `MIN`. -/
def minOf (ds : List Datum) : Value := ds.min?

/-- `MAX`. -/
def maxOf (ds : List Datum) : Value := ds.max?

/-- Subtraction; `NULL` unless both sides are numbers. -/
def sub : Value → Value → Value
  | some (.num a), some (.num b) => some (.num (a - b))
  | _, _ => none

/-- `CAST(a AS DOUBLE) / NULLIF(b, 0)`. -/
def ratio : Value → Value → Value
  | some (.num a), some (.num b) => if b = 0 then none else some (.num (a / b))
  | _, _ => none

/-- The function of a window, over the values that are not `NULL`. -/
def window : WindowAgg → List Datum → Value
  | .sum => sumOf
  | .avg => avgOf
  | .min => minOf
  | .max => maxOf

end Value

/-! ## Ordering -/

/-- The row order of an `ORDER BY` list. -/
def orderLe : List SemanticOrder → Row Datum → Row Datum → Bool
  | [], _, _ => true
  | o :: os, r, r' =>
      if r o.member = r' o.member then orderLe os r r'
      else
        match o.direction with
        | .asc => Value.le (r o.member) (r' o.member)
        | .desc => Value.le (r' o.member) (r o.member)

/-- `ORDER BY`. -/
def sortRows (orders : List SemanticOrder) (rows : List (Row Datum)) : List (Row Datum) :=
  rows.insertionSort fun r r' => orderLe orders r r' = true

@[simp] lemma sortRows_nil (rows : List (Row Datum)) : sortRows [] rows = rows := by
  refine List.Pairwise.insertionSort_eq ?_
  exact List.pairwise_of_forall fun _ _ => rfl

@[simp] lemma length_sortRows (orders : List SemanticOrder) (rows : List (Row Datum)) :
    (sortRows orders rows).length = rows.length := List.length_insertionSort _ _

/-! ## Limits -/

section

variable {α : Type*}

@[simp] lemma takeRows_none (rows : List α) : takeRows none rows = rows := rfl

lemma takeRows_eq_self_iff {limit : Option ℕ} {rows : List α} :
    takeRows limit rows = rows ↔ ∀ n ∈ limit, rows.length ≤ n := by
  cases limit with
  | none => simp
  | some n => simp [takeRows, List.take_eq_self_iff]

end

end Sql
end Pawrly
