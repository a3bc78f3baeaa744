import Pawrly.Sql.Relation

/-!
# The result of a metric statement

The outer part of a metric statement projects its expressions over the aggregated relation
`__agg`, in spine mode over `__axis` left-joined with it, then orders and limits.  Windows are
evaluated over all rows of that `FROM`: a partition is the rows with the same partition key, a
cumulative frame the rows of the partition up to the current one in the order of the time
column.

What the texts of the configuration and the dates mean is left to an `Engine`.
-/

namespace Pawrly
namespace Sql

open OuterJoin Semantic

/-- A derived expression with its members evaluated. -/
inductive Fragment
  | text (s : String)
  | value (v : Value)
  deriving DecidableEq

/-- What the engine contributes: the rows of a measure statement without its row limit, the
value of a derived expression, and dates. -/
structure Engine where
  rel : Stmt → List (Row Datum)
  scalar : List Fragment → Value
  trunc : TimeGrain → Value → Value
  /-- The buckets between two bounds. -/
  series : TimeGrain → Value → Value → List Value
  /-- The column of a declared calendar table. -/
  calendar : TableName → String → List Value

/-! ## The dense time axis -/

/-- The buckets between the first and the last of the aggregate (`renderSpine`). -/
def Axis.buckets (E : Engine) (a : Axis) (rel : List (Row Datum)) : List Value :=
  let lo := Value.minOf (rel.filterMap fun r => r a.timeMember)
  let hi := Value.maxOf (rel.filterMap fun r => r a.timeMember)
  match a.spine with
  | none => E.series a.grain lo hi
  | some (table, column) =>
      (((E.calendar table column).map (E.trunc a.grain)).filter fun v =>
        lo.isSome && v.isSome && Value.le lo v && Value.le v hi).dedup

/-- A row of the axis. -/
def Axis.row (a : Axis) (bucket : Value) (keys : List Value) : Row Datum := fun name =>
  if name = a.timeMember then bucket else ((a.keys.zip keys).lookup name).getD none

/-- The rows of `__axis`: every bucket with every combination of the other dimensions. -/
def Axis.rows (E : Engine) (a : Axis) (rel : List (Row Datum)) : List (Row Datum) :=
  (a.buckets E rel).flatMap fun b => ((rel.map (keyOf a.keys)).dedup).map (a.row b)

/-- A row of the outer `FROM`: what `__agg` and `__axis` contribute. -/
abbrev OuterRow := Joined String (Row Datum)

/-- The axis left-joined with the aggregate on the query's dimensions. -/
def Axis.joined (E : Engine) (a : Axis) (dims : List String) (rel : List (Row Datum)) :
    List OuterRow :=
  left (fun e r => dims.all fun d => (Column.mk axisAlias d).eval e = r d) "__agg"
    ((a.rows E rel).map (extend padding "__axis")) rel

/-- The rows of the outer `FROM` over the aggregate `rel`. -/
def MetricOuter.source (E : Engine) (m : MetricOuter) (rel : List (Row Datum)) : List OuterRow :=
  match m.axis with
  | none => rel.map (extend padding "__agg")
  | some a => a.joined E m.dimensions rel

/-! ## Projections -/

/-- A row of the outer `FROM` and its position in it. -/
abbrev Placed := OuterRow × ℕ

def GapFilled.eval (e : OuterRow) (g : GapFilled) : Value :=
  if g.zeroFill then coalesce [g.col.eval e, some (.num 0)] else g.col.eval e

def PartTerm.eval (E : Engine) (e : OuterRow) (t : PartTerm) : Value :=
  match t.trunc with
  | none => t.col.eval e
  | some g => E.trunc g (t.col.eval e)

/-- The rows that share the partition key of the current one. -/
def partitionOf (E : Engine) (terms : List PartTerm) (rows : List Placed) (cur : Placed) :
    List Placed :=
  rows.filter fun p => terms.map (PartTerm.eval E p.1) = terms.map (PartTerm.eval E cur.1)

/-- The rows of the partition up to the current one, in the order of a column. -/
def rowsUpTo (E : Engine) (terms : List PartTerm) (order : Column) (rows : List Placed)
    (cur : Placed) : List Placed :=
  let sorted := (partitionOf E terms rows cur).insertionSort fun p p' =>
    Value.le (order.eval p.1) (order.eval p'.1) = true
  sorted.takeWhile (fun p => p.2 ≠ cur.2) ++ [cur]

/-- The rows of a frame among those up to the current one. -/
def Frame.select (f : Frame) (upTo : List Placed) : List Placed :=
  match f with
  | unbounded => upTo
  | trailing periods => upTo.drop (upTo.length - periods)

/-- `LAG(arg, periods)`. -/
def lag (arg : GapFilled) (periods : ℕ) (upTo : List Placed) : Value :=
  (upTo.reverse[periods]?).bind fun p => arg.eval p.1

/-- The value of an evaluated expression. -/
def Engine.value (E : Engine) : List Fragment → Value
  | [.value v] => v
  | fs => E.scalar fs

/-- A projection at a row: a value, or the fragments of a derived expression. -/
def MetricExpr.eval (E : Engine) (rows : List Placed) (cur : Placed) :
    MetricExpr → List Fragment
  | column c => [.value (c.eval cur.1)]
  | ratio num den =>
      [.value (Value.ratio (E.value (num.eval E rows cur)) (E.value (den.eval E rows cur)))]
  | derivedEnd tail => [.text tail]
  | derivedToken before sub rest =>
      .text before :: .value (E.value (sub.eval E rows cur)) :: rest.eval E rows cur
  | cumulative fn arg partition order frame =>
      [.value (Value.window fn
        ((frame.select (rowsUpTo E partition order rows cur)).filterMap fun p => arg.eval p.1))]
  | offset arg periods partition order output =>
      let lagged := lag arg periods (rowsUpTo E partition order rows cur)
      [.value (match output with
        | .value => lagged
        | .delta => Value.sub (arg.eval cur.1) lagged
        | .growth => Value.ratio (Value.sub (arg.eval cur.1) lagged) lagged)]
  | share fn col partition =>
      [.value (Value.ratio (col.eval cur.1)
        (Value.window fn ((partitionOf E partition rows cur).filterMap fun p => col.eval p.1)))]

/-- The projection reads other rows than the current one. -/
def MetricExpr.windowed : MetricExpr → Bool
  | column _ => false
  | ratio num den => num.windowed || den.windowed
  | derivedEnd _ => false
  | derivedToken _ sub rest => sub.windowed || rest.windowed
  | cumulative _ _ _ _ _ => true
  | offset _ _ _ _ _ => true
  | share _ _ _ => true

/-- A projection without a window depends on the current row only. -/
lemma MetricExpr.eval_of_not_windowed (E : Engine) {e : MetricExpr} (h : e.windowed = false)
    (rows rows' : List Placed) (cur : Placed) : e.eval E rows cur = e.eval E rows' cur := by
  induction e with
  | column c => rfl
  | ratio num den ihn ihd =>
      simp only [windowed, Bool.or_eq_false_iff] at h
      rw [eval, eval, ihn h.1, ihd h.2]
  | derivedEnd tail => rfl
  | derivedToken before sub rest ihs ihr =>
      simp only [windowed, Bool.or_eq_false_iff] at h
      rw [eval, eval, ihs h.1, ihr h.2]
  | cumulative fn arg partition order frame => cases h
  | offset arg periods partition order output => cases h
  | share fn col partition => cases h

/-- The output row of a row of the outer `FROM`. -/
def MetricOuter.outputRow (E : Engine) (m : MetricOuter) (rows : List Placed) (cur : Placed) :
    Row Datum := fun name =>
  (m.items.find? fun item => item.2 = name).bind fun item => E.value (item.1.eval E rows cur)

/-- The rows of the metric projections over the aggregate `rel`. -/
def MetricOuter.project (E : Engine) (m : MetricOuter) (rel : List (Row Datum)) :
    List (Row Datum) :=
  let rows := (m.source E rel).zipIdx
  rows.map (m.outputRow E rows)

@[simp] lemma MetricOuter.length_project (E : Engine) (m : MetricOuter)
    (rel : List (Row Datum)) : (m.project E rel).length = (m.source E rel).length := by
  simp [MetricOuter.project]

/-! ## Statements -/

/-- The limit of a statement. -/
def Stmt.limit : Stmt → Option ℕ
  | select s => s.limit
  | locality l => l.limit
  | metric m _ => m.limit

/-- A measure statement without its row limit. -/
def Stmt.unlimited : Stmt → Stmt
  | select s => select { s with limit := none }
  | locality l => locality { l with limit := none }
  | metric m inner => metric { m with limit := none } inner

/-- The rows of a statement, in order. -/
def Stmt.rows (E : Engine) : Stmt → List (Row Datum)
  | select s => takeRows s.limit (E.rel (select { s with limit := none }))
  | locality l => takeRows l.limit (E.rel (locality { l with limit := none }))
  | metric m inner => takeRows m.limit (sortRows m.orders (m.project E (inner.rows E)))

/-- The complete leaf aggregate under a metric statement. -/
def Stmt.leafRows (E : Engine) : Stmt → List (Row Datum)
  | metric _ inner => E.rel inner.unlimited
  | stmt => E.rel stmt.unlimited

end Sql
end Pawrly
