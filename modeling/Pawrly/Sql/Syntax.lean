import Pawrly.Semantic.Types

/-!
# The SQL the compiler emits

The semantic compiler writes SQL text with `format!`.  Here the text is the rendering of a
small syntax tree: expressions, conditions, `SELECT` statements with their join trees, the
aggregate-locality statement (one CTE for each measure root) and the metric statement (a
projection over an inner statement).  Each `render` writes the text the source writes, so a
compiled tree determines the compiled string.

Fragments that the configuration supplies (`raw`, the filters of an aggregate, the `ON` text
of a relationship) stay text.
-/

namespace Pawrly
namespace Sql

open Semantic

/-! ## Identifiers and literals -/

/-- Quote a SQL identifier, escaping embedded double quotes. -/
def quoteIdent (s : String) : String := "\"" ++ Text.replaceChar '"' "\"\"" s ++ "\""

/-- Quote a SQL string literal, escaping embedded single quotes. -/
def lit (s : String) : String := "'" ++ Text.replaceChar '\'' "''" s ++ "'"

/-- A literal of a filter: a quoted string, or a numeral emitted bare. -/
inductive Literal
  | quoted (s : String)
  | bare (s : String)
  deriving DecidableEq

def Literal.render : Literal → String
  | quoted s => lit s
  | bare s => s

/-- How a relation is named in a column reference: a bare alias or a quoted CTE name. -/
inductive RelName
  | bare (name : String)
  | quoted (name : String)
  deriving DecidableEq

def RelName.render : RelName → String
  | bare name => name
  | quoted name => quoteIdent name

/-- A qualified column reference `rel."name"`. -/
structure Column where
  rel : RelName
  name : String
  deriving DecidableEq

def Column.render (c : Column) : String := c.rel.render ++ "." ++ quoteIdent c.name

/-- `"schema"."table"`. -/
def renderTable (t : TableName) : String := quoteIdent t.schema ++ "." ++ quoteIdent t.table

/-! ## Expressions and conditions -/

/-- The expressions of a compiled `SELECT`. -/
inductive SqlExpr
  | raw (text : String)
  /-- `model.name`, a bare column qualified by `qualify`. -/
  | field (model name : String)
  | column (c : Column)
  | dateTrunc (grain : TimeGrain) (arg : SqlExpr)
  | atTimeZone (arg : SqlExpr) (zone : String)
  | aggregate (agg : MeasureAgg) (arg : SqlExpr) (filters : List String)
  | coalesce (args : List Column)
  deriving DecidableEq

/-- The aggregate call without its `FILTER` clause. -/
def renderAgg (col : String) : MeasureAgg → String
  | .sum => "SUM(" ++ col ++ ")"
  | .count => "COUNT(" ++ col ++ ")"
  | .countDistinct => "COUNT(DISTINCT " ++ col ++ ")"
  | .avg => "AVG(" ++ col ++ ")"
  | .min => "MIN(" ++ col ++ ")"
  | .max => "MAX(" ++ col ++ ")"
  | .custom sql => sql

def SqlExpr.render : SqlExpr → String
  | raw text => text
  | field model name => model ++ "." ++ name
  | column c => c.render
  | dateTrunc grain arg => "DATE_TRUNC('" ++ grain.asStr ++ "', " ++ arg.render ++ ")"
  | atTimeZone arg zone => arg.render ++ " AT TIME ZONE " ++ lit zone
  | aggregate agg arg filters =>
      let base := renderAgg arg.render agg
      if filters.isEmpty then base
      else base ++ " FILTER (WHERE " ++ Text.join " AND " filters ++ ")"
  | coalesce args => "COALESCE(" ++ Text.join ", " (args.map Column.render) ++ ")"

/-- The binary comparison operators of a filter. -/
inductive CmpOp
  | eq | ne | gt | ge | lt | le
  deriving DecidableEq

def CmpOp.render : CmpOp → String
  | eq => "="
  | ne => "<>"
  | gt => ">"
  | ge => ">="
  | lt => "<"
  | le => "<="

/-- The conditions of a `WHERE` or `HAVING` list. -/
inductive SqlCond
  | cmp (e : SqlExpr) (op : CmpOp) (v : Literal)
  | inList (e : SqlExpr) (negated : Bool) (vs : List Literal)
  | between (e : SqlExpr) (lo hi : Literal)
  | like (e : SqlExpr) (pattern : String)
  | isNull (e : SqlExpr) (negated : Bool)
  /-- A required predicate with its parameters bound. -/
  | raw (text : String)
  deriving DecidableEq

def SqlCond.render : SqlCond → String
  | cmp e op v => e.render ++ " " ++ op.render ++ " " ++ v.render
  | inList e negated vs =>
      e.render ++ (if negated then " NOT IN (" else " IN (") ++
        Text.join ", " (vs.map Literal.render) ++ ")"
  | between e lo hi => e.render ++ " BETWEEN " ++ lo.render ++ " AND " ++ hi.render
  | like e pattern => e.render ++ " LIKE " ++ lit pattern
  | isNull e negated => e.render ++ (if negated then " IS NOT NULL" else " IS NULL")
  | raw text => text

/-- The expression a filter condition tests; a required predicate has none. -/
def SqlCond.expr? : SqlCond → Option SqlExpr
  | cmp e _ _ => some e
  | inList e _ _ => some e
  | between e _ _ => some e
  | like e _ => some e
  | isNull e _ => some e
  | raw _ => none

/-! ## Join trees and `SELECT` statements -/

/-- The `ON` text of a relationship, with the model that declares it.  The text names that
model `this`; rendering replaces `this.` by the model's alias. -/
structure OnClause where
  owner : String
  predicate : String
  deriving DecidableEq

def OnClause.render (on : OnClause) : String :=
  Text.replace "this." (on.owner ++ ".") on.predicate

/-- One `JOIN` of a `FROM` clause; the alias is the name of the joined model, `parent` the model
whose edge it was reached along. -/
structure Join where
  kind : RelationshipKind
  table : TableName
  model : String
  parent : String
  on : OnClause
  deriving DecidableEq

def Join.render (j : Join) : String :=
  "\n" ++ j.kind.joinKind ++ " JOIN " ++ renderTable j.table ++ " AS " ++ j.model ++
    "\n  ON " ++ j.on.render

/-- A `FROM` clause: the root model's table and the joins in order.  A single-model query is
rendered without an alias. -/
structure FromClause where
  root : String
  table : TableName
  aliased : Bool
  joins : List Join := []
  deriving DecidableEq

/-- The models whose tables the clause reads. -/
def FromClause.models (f : FromClause) : List String := f.root :: f.joins.map Join.model

def FromClause.render (f : FromClause) : String :=
  if f.aliased then
    renderTable f.table ++ " AS " ++ f.root ++ String.join (f.joins.map Join.render)
  else renderTable f.table

/-- `expr AS "name"`. -/
def renderItem (render : α → String) (item : α × String) : String :=
  render item.1 ++ " AS " ++ quoteIdent item.2

/-- A clause that is left out when its list is empty. -/
def renderClause (keyword sep : String) (parts : List String) : String :=
  if parts.isEmpty then "" else keyword ++ Text.join sep parts

/-- `"member" DIR` (`resolve_order`). -/
def renderOrder (o : SemanticOrder) : String :=
  quoteIdent o.member ++ " " ++
    match o.direction with
    | .asc => "ASC"
    | .desc => "DESC"

def renderLimit : Option ℕ → String
  | none => ""
  | some n => "\nLIMIT " ++ toString n

/-- A compiled `SELECT` over model tables. -/
structure Select where
  items : List (SqlExpr × String)
  source : FromClause
  wheres : List SqlCond
  groupBy : List SqlExpr
  havings : List SqlCond := []
  orders : List SemanticOrder := []
  limit : Option ℕ := none
  deriving DecidableEq

def Select.render (s : Select) : String :=
  "SELECT " ++ Text.join ", " (s.items.map (renderItem SqlExpr.render)) ++
    "\nFROM " ++ s.source.render ++
    renderClause "\nWHERE " " AND " (s.wheres.map SqlCond.render) ++
    renderClause "\nGROUP BY " ", " (s.groupBy.map SqlExpr.render) ++
    renderClause "\nHAVING " " AND " (s.havings.map SqlCond.render) ++
    renderClause "\nORDER BY " ", " (s.orders.map renderOrder) ++
    renderLimit s.limit

/-- The names of the columns a `SELECT` returns. -/
def Select.outputs (s : Select) : List String := s.items.map Prod.snd

/-! ## The aggregate-locality statement -/

/-- One further CTE in the outer `FROM` of an aggregate-locality statement: crossed in, or
`FULL OUTER JOIN`ed with, for each shared dimension, the columns coalesced on the left and
the column on the right. -/
inductive CteLink
  | cross (cte : String)
  | fullOuter (cte : String) (conds : List (List Column × Column))
  deriving DecidableEq

def CteLink.cte : CteLink → String
  | cross cte => cte
  | fullOuter cte _ => cte

/-- `COALESCE(prev) IS NOT DISTINCT FROM new`. -/
def renderNotDistinct (cond : List Column × Column) : String :=
  "COALESCE(" ++ Text.join ", " (cond.1.map Column.render) ++ ") IS NOT DISTINCT FROM " ++
    cond.2.render

def CteLink.render : CteLink → String
  | cross cte => "\nCROSS JOIN " ++ quoteIdent cte
  | fullOuter cte conds =>
      "\nFULL OUTER JOIN " ++ quoteIdent cte ++ " ON " ++
        Text.join " AND " (conds.map renderNotDistinct)

/-- One CTE for each measure root, joined on the shared dimensions. -/
structure LocalityStmt where
  ctes : List (String × Select)
  items : List (SqlExpr × String)
  first : String
  links : List CteLink
  wheres : List SqlCond
  orders : List SemanticOrder
  limit : Option ℕ
  deriving DecidableEq

def LocalityStmt.render (l : LocalityStmt) : String :=
  "WITH " ++
    Text.join ",\n" (l.ctes.map fun c => quoteIdent c.1 ++ " AS (\n" ++ c.2.render ++ "\n)") ++
    "\nSELECT " ++ Text.join ", " (l.items.map (renderItem SqlExpr.render)) ++
    "\nFROM " ++ quoteIdent l.first ++ String.join (l.links.map CteLink.render) ++
    renderClause "\nWHERE " " AND " (l.wheres.map SqlCond.render) ++
    renderClause "\nORDER BY " ", " (l.orders.map renderOrder) ++
    renderLimit l.limit

/-! ## The metric statement -/

/-- Alias of the aggregated relation the metric projection selects from (`AGG_ALIAS`). -/
def aggAlias : RelName := .bare "__agg"

/-- Alias of the dense time axis window metrics join against (`AXIS_ALIAS`). -/
def axisAlias : RelName := .bare "__axis"

/-- A measure read on the dense axis, zero-filled or not (`gap_filled`). -/
structure GapFilled where
  col : Column
  zeroFill : Bool
  deriving DecidableEq

def GapFilled.render (g : GapFilled) : String :=
  if g.zeroFill then "COALESCE(" ++ g.col.render ++ ", 0)" else g.col.render

/-- A term of a window's `PARTITION BY`: a column, possibly truncated to a grain. -/
structure PartTerm where
  trunc : Option TimeGrain := none
  col : Column
  deriving DecidableEq

def PartTerm.render (t : PartTerm) : String :=
  match t.trunc with
  | none => t.col.render
  | some g => "DATE_TRUNC('" ++ g.asStr ++ "', " ++ t.col.render ++ ")"

/-- `partition_by`: empty, or `PARTITION BY …` with a trailing blank. -/
def renderPartition (terms : List PartTerm) : String :=
  if terms.isEmpty then "" else "PARTITION BY " ++ Text.join ", " (terms.map PartTerm.render) ++ " "

/-- The frame of a cumulative window. -/
inductive Frame
  | unbounded
  | trailing (periods : ℕ)
  deriving DecidableEq

def Frame.render : Frame → String
  | unbounded => "ROWS UNBOUNDED PRECEDING"
  | trailing periods =>
      "ROWS BETWEEN " ++ toString (periods - 1) ++ " PRECEDING AND CURRENT ROW"

/-- `window_fn`. -/
def windowFn : WindowAgg → String
  | .sum => "SUM"
  | .avg => "AVG"
  | .min => "MIN"
  | .max => "MAX"

/-- The scalar expressions of a metric projection.  A derived metric is the chain of its
tokens: the text before a token, the substituted member and what follows. -/
inductive MetricExpr
  | column (c : Column)
  | ratio (num den : MetricExpr)
  | derivedEnd (tail : String)
  | derivedToken (before : String) (sub rest : MetricExpr)
  | cumulative (fn : WindowAgg) (arg : GapFilled) (partition : List PartTerm)
      (order : Column) (frame : Frame)
  | offset (cur : GapFilled) (periods : ℕ) (partition : List PartTerm) (order : Column)
      (output : OffsetOutput)
  | share (fn : WindowAgg) (col : Column) (partition : List PartTerm)
  deriving DecidableEq

/-- `LAG(cur, periods) OVER (…)`. -/
def renderLag (cur : GapFilled) (periods : ℕ) (partition : List PartTerm) (order : Column) :
    String :=
  "LAG(" ++ cur.render ++ ", " ++ toString periods ++ ") OVER (" ++ renderPartition partition ++
    "ORDER BY " ++ order.render ++ ")"

def MetricExpr.render : MetricExpr → String
  | column c => c.render
  | ratio num den => "CAST(" ++ num.render ++ " AS DOUBLE) / NULLIF(" ++ den.render ++ ", 0)"
  | derivedEnd tail => tail
  | derivedToken before sub rest => before ++ "(" ++ sub.render ++ ")" ++ rest.render
  | cumulative fn arg partition order frame =>
      windowFn fn ++ "(" ++ arg.render ++ ") OVER (" ++ renderPartition partition ++
        "ORDER BY " ++ order.render ++ " " ++ frame.render ++ ")"
  | offset cur periods partition order output =>
      let lag := renderLag cur periods partition order
      match output with
      | .value => lag
      | .delta => "(" ++ cur.render ++ " - " ++ lag ++ ")"
      | .growth =>
          "CAST((" ++ cur.render ++ " - " ++ lag ++ ") AS DOUBLE) / NULLIF(" ++ lag ++ ", 0)"
  | share fn col partition =>
      "CAST(" ++ col.render ++ " AS DOUBLE) / NULLIF(" ++ windowFn fn ++ "(" ++ col.render ++
        ") OVER (" ++
        (if partition.isEmpty then ""
          else "PARTITION BY " ++ Text.join ", " (partition.map PartTerm.render)) ++ "), 0)"

/-- The step of the generated axis (`grain_step`). -/
def grainStep : TimeGrain → String
  | .hour => "1 hour"
  | .day => "1 day"
  | .week => "1 week"
  | .month => "1 month"
  | .quarter => "3 months"
  | .year => "1 year"

/-- The dense time axis: the time member and its grain, the declared calendar table (table
and column) or none for a generated series, and the other dimensions. -/
structure Axis where
  timeMember : String
  grain : TimeGrain
  spine : Option (TableName × String)
  keys : List String
  deriving DecidableEq

/-- The series of buckets between the bounds of the aggregate. -/
def Axis.renderSpine (a : Axis) : String :=
  let tc := quoteIdent a.timeMember
  let bounds := ("(SELECT MIN(" ++ tc ++ ") FROM __agg)", "(SELECT MAX(" ++ tc ++ ") FROM __agg)")
  match a.spine with
  | none =>
      "SELECT unnest(generate_series(" ++ bounds.1 ++ ", " ++ bounds.2 ++ ", INTERVAL '" ++
        grainStep a.grain ++ "')) AS " ++ tc
  | some (table, column) =>
      let trunc := "DATE_TRUNC('" ++ a.grain.asStr ++ "', " ++ quoteIdent column ++ ")"
      "SELECT DISTINCT " ++ trunc ++ " AS " ++ tc ++ " FROM " ++ renderTable table ++
        " WHERE " ++ trunc ++ " BETWEEN " ++ bounds.1 ++ " AND " ++ bounds.2

def Axis.render (a : Axis) : String :=
  let keys := a.keys.map quoteIdent
  if keys.isEmpty then a.renderSpine
  else
    "SELECT " ++
      Text.join ", " (("__t." ++ quoteIdent a.timeMember) :: keys.map fun k => "__k." ++ k) ++
      "\nFROM (" ++ a.renderSpine ++ ") AS __t\nCROSS JOIN (SELECT DISTINCT " ++
      Text.join ", " keys ++ " FROM __agg) AS __k"

/-- The outer statement of a metric query: the projections over `__agg` (joined onto the axis
in spine mode, on the query's dimensions), the ordering and the caller's limit. -/
structure MetricOuter where
  items : List (MetricExpr × String)
  axis : Option Axis
  dimensions : List String
  orders : List SemanticOrder
  limit : Option ℕ
  deriving DecidableEq

/-- The metric statement around the text of the inner statement. -/
def MetricOuter.render (m : MetricOuter) (inner : String) : String :=
  let items := Text.join ", " (m.items.map (renderItem MetricExpr.render))
  let body :=
    match m.axis with
    | none => "SELECT " ++ items ++ "\nFROM (\n" ++ inner ++ "\n) AS __agg"
    | some axis =>
        let conds := m.dimensions.map fun d =>
          (Column.mk axisAlias d).render ++ " IS NOT DISTINCT FROM " ++
            (Column.mk aggAlias d).render
        "WITH __agg AS (\n" ++ inner ++ "\n),\n__axis AS (\n" ++ axis.render ++ "\n)\nSELECT " ++
          items ++ "\nFROM __axis\nLEFT JOIN __agg ON " ++ Text.join " AND " conds
  body ++ renderClause "\nORDER BY " ", " (m.orders.map renderOrder) ++ renderLimit m.limit

/-! ## Statements -/

/-- A compiled statement. -/
inductive Stmt
  | select (s : Select)
  | locality (l : LocalityStmt)
  | metric (m : MetricOuter) (inner : Stmt)
  deriving DecidableEq

/-- The SQL text of a compiled statement. -/
def Stmt.render : Stmt → String
  | select s => s.render
  | locality l => l.render
  | metric m inner => m.render inner.render

/-- The `SELECT`s and CTEs of a statement that read model tables. -/
def Stmt.selects : Stmt → List Select
  | select s => [s]
  | locality l => l.ctes.map Prod.snd
  | metric _ inner => inner.selects

/-- The names of the columns a statement returns. -/
def Stmt.outputs : Stmt → List String
  | select s => s.outputs
  | locality l => l.items.map Prod.snd
  | metric m _ => m.items.map Prod.snd

end Sql
end Pawrly
