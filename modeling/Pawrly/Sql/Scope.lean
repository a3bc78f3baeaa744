import Pawrly.Sql.Syntax

/-!
# Scopes of a statement

Which names a statement defines and which it refers to.  A `SELECT` over model tables refers
to the aliases of its `FROM` clause; the outer part of an aggregate-locality statement to its
CTEs and their columns; the outer part of a metric statement to the columns of the aggregate
and of the time axis.  `ORDER BY` terms refer to output columns.

Text that the configuration supplies is opaque here: the names checked are those the compiler
writes.
-/

namespace Pawrly
namespace Sql

/-! ## References -/

/-- The table aliases an expression qualifies columns with. -/
def SqlExpr.aliases : SqlExpr → List String
  | raw _ => []
  | field model _ => [model]
  | column _ => []
  | dateTrunc _ arg => arg.aliases
  | atTimeZone arg _ => arg.aliases
  | aggregate _ arg _ => arg.aliases
  | coalesce _ => []

/-- The CTE columns an expression reads. -/
def SqlExpr.columns : SqlExpr → List Column
  | raw _ => []
  | field _ _ => []
  | column c => [c]
  | dateTrunc _ arg => arg.columns
  | atTimeZone arg _ => arg.columns
  | aggregate _ arg _ => arg.columns
  | coalesce args => args

/-- The columns a metric projection reads. -/
def MetricExpr.columns : MetricExpr → List Column
  | column c => [c]
  | ratio num den => num.columns ++ den.columns
  | derivedEnd _ => []
  | derivedToken _ sub rest => sub.columns ++ rest.columns
  | cumulative _ arg partition order _ => arg.col :: order :: partition.map PartTerm.col
  | offset cur _ partition order _ => cur.col :: order :: partition.map PartTerm.col
  | share _ col partition => col :: partition.map PartTerm.col

/-! ## `SELECT` statements -/

/-- The table aliases a `FROM` clause introduces. -/
def FromClause.aliases (f : FromClause) : List String := if f.aliased then f.models else []

/-- Every join's `ON` text is declared by a model joined so far. -/
def JoinsScoped : List String → List Join → Prop
  | _, [] => True
  | scope, j :: js => j.on.owner ∈ j.model :: scope ∧ JoinsScoped (j.model :: scope) js

/-- An expression over the tables of a `FROM` clause. -/
def FromClause.Scopes (f : FromClause) (e : SqlExpr) : Prop :=
  (∀ a ∈ e.aliases, a ∈ f.aliases) ∧ e.columns = []

structure Select.WellScoped (s : Select) : Prop where
  joins : JoinsScoped [s.source.root] s.source.joins
  items : ∀ item ∈ s.items, s.source.Scopes item.1
  wheres : ∀ c ∈ s.wheres, ∀ e, c.expr? = some e → s.source.Scopes e
  groupBy : ∀ e ∈ s.groupBy, s.source.Scopes e
  havings : ∀ c ∈ s.havings, ∀ e, c.expr? = some e → s.source.Scopes e
  orders : ∀ o ∈ s.orders, o.member ∈ s.outputs

/-! ## Aggregate-locality statements -/

/-- The column is selected by a CTE of the statement that `scope` names. -/
def LocalityStmt.Defines (l : LocalityStmt) (scope : List String) (c : Column) : Prop :=
  ∃ name ∈ scope, c.rel = .quoted name ∧ ∃ s, (name, s) ∈ l.ctes ∧ c.name ∈ s.outputs

/-- An outer expression over the CTEs in scope. -/
def LocalityStmt.Scopes (l : LocalityStmt) (scope : List String) (e : SqlExpr) : Prop :=
  e.aliases = [] ∧ ∀ c ∈ e.columns, l.Defines scope c

/-- Every link joins a CTE of the statement, on columns of that CTE and of those before it. -/
def LocalityStmt.LinksScoped (l : LocalityStmt) : List String → List CteLink → Prop
  | _, [] => True
  | scope, link :: links =>
      (∃ s, (link.cte, s) ∈ l.ctes) ∧
        (match link with
          | .cross _ => True
          | .fullOuter cte conds => ∀ cond ∈ conds,
              (∀ c ∈ cond.1, l.Defines scope c) ∧ l.Defines [cte] cond.2) ∧
        l.LinksScoped (scope ++ [link.cte]) links

/-- The CTEs the outer `FROM` names. -/
def LocalityStmt.scope (l : LocalityStmt) : List String := l.first :: l.links.map CteLink.cte

structure LocalityStmt.WellScoped (l : LocalityStmt) : Prop where
  ctes : ∀ c ∈ l.ctes, c.2.WellScoped
  first : ∃ s, (l.first, s) ∈ l.ctes
  links : l.LinksScoped [l.first] l.links
  items : ∀ item ∈ l.items, l.Scopes l.scope item.1
  wheres : ∀ c ∈ l.wheres, ∀ e, c.expr? = some e → l.Scopes l.scope e
  orders : ∀ o ∈ l.orders, o.member ∈ l.items.map Prod.snd

/-! ## Metric statements -/

/-- The columns of the time axis. -/
def Axis.outputs (a : Axis) : List String := a.timeMember :: a.keys

/-- A column of the aggregate, or of the time axis when the statement has one. -/
def MetricOuter.Defines (m : MetricOuter) (aggregate : List String) (c : Column) : Prop :=
  (c.rel = aggAlias ∧ c.name ∈ aggregate) ∨
    (c.rel = axisAlias ∧ ∃ a, m.axis = some a ∧ c.name ∈ a.outputs)

structure MetricOuter.WellScoped (m : MetricOuter) (aggregate : List String) : Prop where
  items : ∀ item ∈ m.items, ∀ c ∈ item.1.columns, m.Defines aggregate c
  axis : ∀ a, m.axis = some a → (∀ d ∈ a.outputs, d ∈ aggregate) ∧
    ∀ d ∈ m.dimensions, d ∈ a.outputs ∧ d ∈ aggregate
  orders : ∀ o ∈ m.orders, o.member ∈ m.items.map Prod.snd

/-- Every name the compiler writes is defined where it is used. -/
def Stmt.WellScoped : Stmt → Prop
  | select s => s.WellScoped
  | locality l => l.WellScoped
  | metric m inner => m.WellScoped inner.outputs ∧ inner.WellScoped

end Sql
end Pawrly
