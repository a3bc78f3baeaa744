import Pawrly.Sql.Condition
import Mathlib.Data.String.Basic

/-!
# Filters

The filter expressions that the query engine offers to a table, and their truth on a row.  A table
that reports a filter as exact promises that its rows satisfy it: the engine does not test them
again.
-/

namespace Pawrly

namespace Sql

/-- `NOT`. -/
def Truth.not : Truth → Truth
  | no => yes
  | unknown => unknown
  | yes => no

def Truth.ofBool (b : Bool) : Truth := if b then .yes else .no

def Truth.negateIf (negated : Bool) (t : Truth) : Truth := if negated then t.not else t

lemma Truth.ofBool_eq_yes {b : Bool} : Truth.ofBool b = .yes ↔ b = true := by
  cases b <;> decide

lemma Truth.or_eq_yes {a b : Truth} : a.or b = .yes ↔ a = .yes ∨ b = .yes := by
  cases a <;> cases b <;> decide

lemma Truth.and_eq_yes {a b : Truth} : a.and b = .yes ↔ a = .yes ∧ b = .yes := by
  cases a <;> cases b <;> decide

lemma Truth.anyOf_eq_yes {ts : List Truth} : Truth.anyOf ts = .yes ↔ .yes ∈ ts := by
  induction ts with
  | nil => decide
  | cons t ts ih =>
      rw [Truth.anyOf, List.foldr_cons, ← Truth.anyOf, Truth.or_eq_yes, ih, List.mem_cons, eq_comm]

end Sql

namespace Http

open Sql

/-- What a scan fails with (`DataFusionError`): the plan is refused, or a request went wrong. -/
inductive DataFusionError
  | plan (msg : String)
  | external (msg : String)
  deriving DecidableEq

/-- A literal of a filter or the value of a column (`ScalarValue`); the types that no table turns
into a text are `other`. -/
inductive Scalar
  | null
  | utf8 (s : String)
  | largeUtf8 (s : String)
  | int32 (n : ℤ)
  | int64 (n : ℤ)
  | uint64 (n : ℕ)
  | boolean (b : Bool)
  | other (text : String)
  deriving DecidableEq

namespace Scalar

/-- The text of a value, which stands for the value in a comparison with a text. -/
def text : Scalar → Option String
  | null => none
  | utf8 s => some s
  | largeUtf8 s => some s
  | int32 n => some (toString n)
  | int64 n => some (toString n)
  | uint64 n => some (toString n)
  | boolean b => some (toString b)
  | other s => some s

def number : Scalar → Option ℤ
  | int32 n => some n
  | int64 n => some n
  | uint64 n => some n
  | _ => none

/-- The order of two values that are not `NULL`: numbers by size, others by their text. -/
def less (a b : Scalar) : Bool :=
  match a.number, b.number with
  | some m, some n => m < n
  | _, _ => a.text.getD "" < b.text.getD ""

/-- A value as a condition. -/
def truth : Scalar → Truth
  | boolean true => .yes
  | boolean false => .no
  | _ => .unknown

/-- The value of a condition. -/
def ofTruth : Truth → Scalar
  | .yes => boolean true
  | .no => boolean false
  | .unknown => null

end Scalar

inductive Operator
  | eq
  | notEq
  | lt
  | ltEq
  | gt
  | gtEq
  | and
  | or
  deriving DecidableEq

/-- A filter (`Expr`). -/
inductive Expr
  | column (name : String)
  | literal (s : Scalar)
  | binary (left : Expr) (op : Operator) (right : Expr)
  | not (e : Expr)
  | like (negated : Bool) (e pattern : Expr)
  | inList (e : Expr) (list : List Expr) (negated : Bool)

/-! ## The truth of a filter -/

/-- The truth of a comparison of two values that are not `NULL`. -/
def Operator.compare (a b : Scalar) : Operator → Bool
  | eq => a.text = b.text
  | notEq => a.text ≠ b.text
  | lt => a.less b
  | ltEq => a.text = b.text || a.less b
  | gt => b.less a
  | gtEq => a.text = b.text || b.less a
  | _ => false

/-- The truth of an operator on two values. -/
def Operator.truth (op : Operator) (a b : Scalar) : Truth :=
  match op with
  | and => a.truth.and b.truth
  | or => a.truth.or b.truth
  | _ => if a = .null ∨ b = .null then .unknown else Truth.ofBool (op.compare a b)

/-- The truth of a `LIKE`, where `like` says which texts match a pattern. -/
def likeTruth (like : String → String → Bool) (a pattern : Scalar) : Truth :=
  match a.text, pattern.text with
  | some s, some p => Truth.ofBool (like s p)
  | _, _ => .unknown

mutual

/-- The value of an expression on a row. -/
def Expr.value (like : String → String → Bool) (row : String → Scalar) : Expr → Scalar
  | .column name => row name
  | .literal s => s
  | .binary left op right =>
      .ofTruth (op.truth (left.value like row) (right.value like row))
  | .not e => .ofTruth (e.value like row).truth.not
  | .like negated e pattern =>
      .ofTruth (Truth.negateIf negated
        (likeTruth like (e.value like row) (pattern.value like row)))
  | .inList e list negated =>
      .ofTruth (Truth.negateIf negated
        (.anyOf ((Expr.values like row list).map (Operator.eq.truth (e.value like row)))))

def Expr.values (like : String → String → Bool) (row : String → Scalar) : List Expr → List Scalar
  | [] => []
  | e :: es => e.value like row :: Expr.values like row es

end

/-- The row passes the filter. -/
def Expr.Holds (like : String → String → Bool) (row : String → Scalar) (f : Expr) : Prop :=
  (f.value like row).truth = .yes

instance (like : String → String → Bool) (row : String → Scalar) (f : Expr) :
    Decidable (f.Holds like row) :=
  inferInstanceAs (Decidable ((f.value like row).truth = .yes))

/-! ## Tests that hold -/

section

variable {like : String → String → Bool} {row : String → Scalar}

@[simp] lemma Scalar.truth_ofTruth (t : Truth) : (Scalar.ofTruth t).truth = t := by
  cases t <;> rfl

/-- An equality that holds compares two equal texts. -/
lemma Operator.eq_truth_yes {a b : Scalar} :
    Operator.eq.truth a b = .yes ↔ ∃ s, a.text = some s ∧ b.text = some s := by
  unfold Operator.truth
  constructor
  · intro h
    dsimp only at h
    split_ifs at h with hnull
    rw [Truth.ofBool_eq_yes, Operator.compare, decide_eq_true_eq] at h
    cases hb : b.text with
    | none =>
        cases b with
        | null => exact absurd (Or.inr rfl) hnull
        | _ => cases hb
    | some s => exact ⟨s, h.trans hb, rfl⟩
  · rintro ⟨s, ha, hb⟩
    have hnull : ¬ (a = .null ∨ b = .null) := by
      rintro (rfl | rfl)
      · cases ha
      · cases hb
    dsimp only
    rw [if_neg hnull, Truth.ofBool_eq_yes, Operator.compare, decide_eq_true_eq, ha, hb]

lemma Expr.values_eq (es : List Expr) :
    Expr.values like row es = es.map (Expr.value like row) := by
  induction es with
  | nil => rfl
  | cons e es ih => rw [Expr.values, List.map_cons, ih]

/-- A membership test holds when the value equals one of the elements. -/
lemma Expr.inList_holds {e : Expr} {list : List Expr} :
    (Expr.inList e list false).Holds like row ↔ ∃ item ∈ list,
      Operator.eq.truth (e.value like row) (item.value like row) = .yes := by
  unfold Expr.Holds
  rw [Expr.value, Scalar.truth_ofTruth, Truth.negateIf, if_neg (by decide), Truth.anyOf_eq_yes,
    Expr.values_eq, List.map_map, List.mem_map]
  rfl

lemma Expr.or_holds {a b : Expr} :
    (Expr.binary a .or b).Holds like row ↔ a.Holds like row ∨ b.Holds like row := by
  unfold Expr.Holds
  rw [Expr.value, Scalar.truth_ofTruth, Operator.truth]
  exact Truth.or_eq_yes

lemma Expr.binary_holds {a b : Expr} {op : Operator} :
    (Expr.binary a op b).Holds like row ↔
      op.truth (a.value like row) (b.value like row) = .yes := by
  unfold Expr.Holds
  rw [Expr.value, Scalar.truth_ofTruth]

end

end Http
end Pawrly
