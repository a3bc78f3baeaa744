import Pawrly.Text
import Pawrly.Lib.OrderedMap
import Mathlib.Data.String.Basic

/-!
# Redaction of logged SQL

`pawrly-engine/src/redact.rs`: the text that the activity log keeps of a statement.  The parser and
its printer are outside code.  A parsed statement is a tree: a literal is an expression of its own
(`Expr::Value`) or a field of something else, as the text of a typed string or the escape character
of a `LIKE` is, and the visitor of expressions comes to the former only.
-/

namespace Pawrly
namespace Engine
namespace Redact

/-! ## Statements -/

/-- A literal (`Value`). -/
inductive Value
  | number (text : String)
  | string (text : String)
  | boolean (b : Bool)
  | null
  deriving DecidableEq

/-- A part of a statement. -/
inductive Ast
  /-- `Expr::Value`. -/
  | value (v : Value)
  /-- Any other expression. -/
  | expr (variant : String) (parts : List Ast)
  /-- A part that is no expression. -/
  | node (variant : String) (parts : List Ast)
  /-- A literal that is a field of an expression or a node. -/
  | literal (v : Value)
  /-- The name of a relation. -/
  | relation (name : String)
  /-- An identifier or a keyword. -/
  | text (s : String)

inductive StatementKind
  | query
  | explain
  | insert
  | other (variant : String)
  deriving DecidableEq

structure Statement where
  kind : StatementKind
  parts : List Ast

namespace Ast

mutual

/-- `visit_expressions_mut`: each expression, after its parts. -/
def visitExpressions (f : Ast → Ast) : Ast → Ast
  | value v => f (value v)
  | expr variant parts => f (expr variant (visitExpressionsAll f parts))
  | node variant parts => node variant (visitExpressionsAll f parts)
  | literal v => literal v
  | relation name => relation name
  | text s => text s

def visitExpressionsAll (f : Ast → Ast) : List Ast → List Ast
  | [] => []
  | a :: parts => visitExpressions f a :: visitExpressionsAll f parts

end

mutual

/-- The relations that `visit_relations_mut` comes to. -/
def relations : Ast → List String
  | expr _ parts => relationsAll parts
  | node _ parts => relationsAll parts
  | relation name => [name]
  | value _ | literal _ | text _ => []

def relationsAll : List Ast → List String
  | [] => []
  | a :: parts => relations a ++ relationsAll parts

end

end Ast

/-! ## Redaction -/

inductive RedactMode
  | off
  | literals
  | tablesOnly
  deriving DecidableEq

structure Redacted where
  sql : Option String
  degraded : Bool
  deriving DecidableEq

/-- `SENTINEL`. -/
def sentinel : String := "$REDACTED"

/-- `STMT_KEYWORDS`. -/
def stmtKeywords : List String :=
  ["SELECT", "WITH", "INSERT", "UPDATE", "DELETE", "CREATE", "DROP", "ALTER", "EXPLAIN", "SHOW",
    "COPY", "MERGE", "CALL", "SET", "PRAGMA", "DESCRIBE"]

/-- The leading word of a text, where it is a keyword of a statement. -/
def leadingKeyword (sql : String) : Option String :=
  let word := String.ofList
    (((sql.toList.dropWhile Text.isWhitespace).takeWhile Char.isAlpha).map Char.toUpper)
  if word ∈ stmtKeywords then some word else none

/-- The closure of the visitor. -/
def redactExpr : Ast → Ast
  | .value _ => .expr "Identifier" [.text sentinel]
  | a => a

def redactStatement (s : Statement) : Statement :=
  { s with parts := Ast.visitExpressionsAll redactExpr s.parts }

def stmtKind : Statement → String
  | { kind := .query, .. } => "SELECT"
  | { kind := .explain, .. } => "EXPLAIN"
  | { kind := .insert, .. } => "INSERT"
  | { kind := .other _, .. } => "STATEMENT"

/-- `"<KIND> on <tables>"`. -/
def tablesText (stmts : List Statement) : String :=
  let kind := Text.join "," (stmts.map stmtKind)
  let tables := OrderedMap.empty.extend
    ((stmts.flatMap fun s => Ast.relationsAll s.parts).map fun name => (name, ()))
  if tables.entries.isEmpty then kind
  else kind ++ " on " ++ Text.join ", " (tables.entries.map Prod.fst)

section

variable (parse : String → Option (List Statement)) (display : Statement → String)

def redactLiterals (stmts : List Statement) : String :=
  Text.join "; " ((stmts.map redactStatement).map display)

def tablesOnly (sql : String) : Option String := (parse sql).map tablesText

def redact (sql : String) (mode : RedactMode) : Redacted :=
  match mode with
  | .off => { sql := some sql, degraded := false }
  | .literals =>
      match parse sql with
      | some stmts => { sql := some (redactLiterals display stmts), degraded := false }
      | none => { sql := (tablesOnly parse sql).or (leadingKeyword sql), degraded := true }
  | .tablesOnly =>
      match tablesOnly parse sql with
      | some text => { sql := some text, degraded := false }
      | none => { sql := leadingKeyword sql, degraded := true }

end

end Redact
end Engine
end Pawrly
