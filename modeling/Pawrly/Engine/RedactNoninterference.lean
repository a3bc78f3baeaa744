import Pawrly.Engine.Redact

/-!
# What redaction hides

Two texts that differ in their literals only are redacted to the same text exactly when they agree
on the literals that are fields (`noninterfering_iff`): the visitor replaces the literals that are
expressions of their own.  A text that does not parse leaves its leading keyword.
-/

namespace Pawrly
namespace Engine
namespace Redact

/-! ## Statements that differ in their literals -/

namespace Ast

mutual

/-- The part without its literals. -/
def erase : Ast → Ast
  | value _ => value .null
  | expr variant parts => expr variant (eraseAll parts)
  | node variant parts => node variant (eraseAll parts)
  | literal _ => literal .null
  | relation name => relation name
  | text s => text s

def eraseAll : List Ast → List Ast
  | [] => []
  | a :: parts => erase a :: eraseAll parts

end

mutual

/-- The literals that are fields, in their order. -/
def fields : Ast → List Value
  | expr _ parts => fieldsAll parts
  | node _ parts => fieldsAll parts
  | literal v => [v]
  | value _ | relation _ | text _ => []

def fieldsAll : List Ast → List Value
  | [] => []
  | a :: parts => fields a ++ fieldsAll parts

end

/-- The part with its literals redacted. -/
abbrev redacted (a : Ast) : Ast := visitExpressions redactExpr a

abbrev redactedAll (parts : List Ast) : List Ast := visitExpressionsAll redactExpr parts

mutual

lemma fields_length : ∀ a b : Ast, erase a = erase b → (fields a).length = (fields b).length
  | value _, b, h => by cases b <;> simp_all [erase, fields]
  | expr variant parts, b, h => by
      cases b with
      | expr variant' parts' =>
          simp only [erase, expr.injEq] at h
          exact fieldsAll_length parts parts' h.2
      | _ => simp [erase] at h
  | node variant parts, b, h => by
      cases b with
      | node variant' parts' =>
          simp only [erase, node.injEq] at h
          exact fieldsAll_length parts parts' h.2
      | _ => simp [erase] at h
  | literal _, b, h => by cases b <;> simp_all [erase, fields]
  | relation _, b, h => by cases b <;> simp_all [erase, fields]
  | text _, b, h => by cases b <;> simp_all [erase, fields]

lemma fieldsAll_length : ∀ l l' : List Ast, eraseAll l = eraseAll l' →
    (fieldsAll l).length = (fieldsAll l').length
  | [], [], _ => rfl
  | [], _ :: _, h => by simp [eraseAll] at h
  | _ :: _, [], h => by simp [eraseAll] at h
  | a :: l, b :: l', h => by
      simp only [eraseAll, List.cons.injEq] at h
      simp only [fieldsAll, List.length_append, fields_length a b h.1, fieldsAll_length l l' h.2]

end

mutual

/-- What the visitor leaves of two parts tells the literals apart that are fields. -/
lemma redacted_eq_iff : ∀ a b : Ast, erase a = erase b →
    (redacted a = redacted b ↔ fields a = fields b)
  | value v, b, h => by
      cases b with
      | value w => simp [redacted, visitExpressions, redactExpr, fields]
      | _ => simp [erase] at h
  | expr variant parts, b, h => by
      cases b with
      | expr variant' parts' =>
          simp only [erase, expr.injEq] at h
          obtain ⟨rfl, h⟩ := h
          simp only [redacted, visitExpressions, redactExpr, expr.injEq, true_and, fields]
          exact redactedAll_eq_iff parts parts' h
      | _ => simp [erase] at h
  | node variant parts, b, h => by
      cases b with
      | node variant' parts' =>
          simp only [erase, node.injEq] at h
          obtain ⟨rfl, h⟩ := h
          simp only [redacted, visitExpressions, node.injEq, true_and, fields]
          exact redactedAll_eq_iff parts parts' h
      | _ => simp [erase] at h
  | literal v, b, h => by
      cases b with
      | literal w => simp [redacted, visitExpressions, fields]
      | _ => simp [erase] at h
  | relation name, b, h => by
      cases b with
      | relation name' =>
          simp only [erase, relation.injEq] at h
          simp [redacted, visitExpressions, fields, h]
      | _ => simp [erase] at h
  | text s, b, h => by
      cases b with
      | text s' =>
          simp only [erase, text.injEq] at h
          simp [redacted, visitExpressions, fields, h]
      | _ => simp [erase] at h

lemma redactedAll_eq_iff : ∀ l l' : List Ast, eraseAll l = eraseAll l' →
    (redactedAll l = redactedAll l' ↔ fieldsAll l = fieldsAll l')
  | [], [], _ => by simp
  | [], _ :: _, h => by simp [eraseAll] at h
  | _ :: _, [], h => by simp [eraseAll] at h
  | a :: l, b :: l', h => by
      simp only [eraseAll, List.cons.injEq] at h
      have hlength := fields_length a b h.1
      have happend : fieldsAll (a :: l) = fieldsAll (b :: l') ↔
          fields a = fields b ∧ fieldsAll l = fieldsAll l' :=
        ⟨fun hfields => List.append_inj hfields hlength,
          fun hfields => by rw [fieldsAll, hfields.1, hfields.2]; rfl⟩
      rw [happend]
      simp only [redactedAll, visitExpressionsAll, List.cons.injEq]
      exact and_congr (redacted_eq_iff a b h.1) (redactedAll_eq_iff l l' h.2)

end

mutual

lemma relations_erase : ∀ a : Ast, relations (erase a) = relations a
  | expr _ parts => relationsAll_erase parts
  | node _ parts => relationsAll_erase parts
  | value _ | literal _ | relation _ | text _ => rfl

lemma relationsAll_erase : ∀ l : List Ast, relationsAll (eraseAll l) = relationsAll l
  | [] => rfl
  | a :: l => by simp only [eraseAll, relationsAll, relations_erase a, relationsAll_erase l]

end

end Ast

def Statement.erase (s : Statement) : Statement := { s with parts := Ast.eraseAll s.parts }

/-- The statements differ in their literals only. -/
def SameButLiterals (stmts stmts' : List Statement) : Prop :=
  stmts.map Statement.erase = stmts'.map Statement.erase

/-- The literals of each statement that are fields. -/
def literalFields (stmts : List Statement) : List (List Value) :=
  stmts.map fun s => Ast.fieldsAll s.parts

section

variable {stmts stmts' : List Statement}

lemma redactStatement_eq_iff {s s' : Statement} (h : s.erase = s'.erase) :
    redactStatement s = redactStatement s' ↔
      Ast.fieldsAll s.parts = Ast.fieldsAll s'.parts := by
  obtain ⟨kind, parts⟩ := s
  obtain ⟨kind', parts'⟩ := s'
  simp only [Statement.erase, Statement.mk.injEq] at h
  simp only [redactStatement, Statement.mk.injEq, h.1, true_and]
  exact Ast.redactedAll_eq_iff parts parts' h.2

lemma redactStatements_eq_iff (h : SameButLiterals stmts stmts') :
    stmts.map redactStatement = stmts'.map redactStatement ↔
      literalFields stmts = literalFields stmts' := by
  induction stmts generalizing stmts' with
  | nil =>
      cases stmts' with
      | nil => simp [literalFields]
      | cons s' stmts' => simp [SameButLiterals] at h
  | cons s stmts ih =>
      cases stmts' with
      | nil => simp [SameButLiterals] at h
      | cons s' stmts' =>
          simp only [SameButLiterals, List.map_cons, List.cons.injEq] at h
          simp only [literalFields, List.map_cons, List.cons.injEq]
          exact and_congr (redactStatement_eq_iff h.1) (ih h.2)

/-- The kinds and the relations are those of the statements without their literals. -/
lemma tablesText_erase (stmts : List Statement) :
    tablesText (stmts.map Statement.erase) = tablesText stmts := by
  have hkind : (stmts.map Statement.erase).map stmtKind = stmts.map stmtKind := by
    rw [List.map_map]
    refine List.map_congr_left fun s _ => ?_
    obtain ⟨kind, parts⟩ := s
    cases kind <;> rfl
  have hrelations : ((stmts.map Statement.erase).flatMap fun s => Ast.relationsAll s.parts) =
      stmts.flatMap fun s => Ast.relationsAll s.parts := by
    rw [List.flatMap_map]
    exact congrArg (fun f => stmts.flatMap f) (funext fun s => Ast.relationsAll_erase s.parts)
  simp only [tablesText, hkind, hrelations]

lemma tablesText_eq (h : SameButLiterals stmts stmts') : tablesText stmts = tablesText stmts' := by
  rw [← tablesText_erase stmts, ← tablesText_erase stmts', h]

end

/-! ## Noninterference -/

section

variable (parse : String → Option (List Statement)) (display : Statement → String)

/-- In the redacting modes, texts that differ in their literals only are redacted alike, and a text
that does not parse leaves its leading keyword. -/
structure Noninterfering (sql sql' : String) : Prop where
  parsed : ∀ stmts stmts', parse sql = some stmts → parse sql' = some stmts' →
    SameButLiterals stmts stmts' → ∀ mode, mode ≠ .off →
      redact parse display sql mode = redact parse display sql' mode
  unparsed : parse sql = none → ∀ mode, mode ≠ .off →
    redact parse display sql mode = { sql := leadingKeyword sql, degraded := true }

lemma redact_unparsed {sql : String} (h : parse sql = none) {mode : RedactMode}
    (hmode : mode ≠ .off) :
    redact parse display sql mode = { sql := leadingKeyword sql, degraded := true } := by
  cases mode with
  | off => exact absurd rfl hmode
  | literals => simp [redact, tablesOnly, h]
  | tablesOnly => simp [redact, tablesOnly, h]

/-- **Noninterference of redaction.**  Given that printing tells the redacted statements of the two
texts apart, the texts are redacted alike exactly when they agree on the literals that are fields. -/
theorem noninterfering_iff {sql sql' : String}
    (hdisplay : ∀ stmts stmts', parse sql = some stmts → parse sql' = some stmts' →
      SameButLiterals stmts stmts' →
      redactLiterals display stmts = redactLiterals display stmts' →
        stmts.map redactStatement = stmts'.map redactStatement) :
    Noninterfering parse display sql sql' ↔
      ∀ stmts stmts', parse sql = some stmts → parse sql' = some stmts' →
        SameButLiterals stmts stmts' → literalFields stmts = literalFields stmts' := by
  constructor
  · intro h stmts stmts' hsql hsql' hsame
    have hredact := h.parsed stmts stmts' hsql hsql' hsame .literals (by simp)
    simp only [redact, hsql, hsql', Redacted.mk.injEq, Option.some.injEq, and_true] at hredact
    exact (redactStatements_eq_iff hsame).mp (hdisplay stmts stmts' hsql hsql' hsame hredact)
  · intro h
    refine ⟨fun stmts stmts' hsql hsql' hsame mode hmode => ?_, fun hsql mode hmode =>
      redact_unparsed parse display hsql hmode⟩
    cases mode with
    | off => exact absurd rfl hmode
    | literals =>
        have hfields := h stmts stmts' hsql hsql' hsame
        have hstatements := (redactStatements_eq_iff hsame).mpr hfields
        simp only [redact, hsql, hsql', redactLiterals, hstatements]
    | tablesOnly =>
        simp only [redact, tablesOnly, hsql, hsql', Option.map_some, tablesText_eq hsame]

end

/-! ## Fixed texts -/

def printValue : Value → String
  | .number text => text
  | .string text => "'" ++ Text.replaceChar '\'' "''" text ++ "'"
  | .boolean b => if b then "true" else "false"
  | .null => "NULL"

mutual

/-- The parts of a part, between blanks. -/
def printPart : Ast → String
  | .value v | .literal v => printValue v
  | .expr _ parts | .node _ parts => Text.join " " (printParts parts)
  | .relation name => name
  | .text s => s

def printParts : List Ast → List String
  | [] => []
  | a :: parts => printPart a :: printParts parts

end

def printStatement (s : Statement) : String := Text.join " " (printParts s.parts)

def ordersAbove (total : String) : Statement where
  kind := .query
  parts := [.text "SELECT", .text "*", .text "FROM", .relation "orders", .text "WHERE",
    .expr "BinaryOp" [.expr "Identifier" [.text "total"], .text ">", .value (.number total)]]

def typedDate (date : String) : Statement where
  kind := .query
  parts := [.text "SELECT", .expr "TypedString" [.text "DATE", .literal (.string date)]]

/-- A parser of four texts. -/
def parseSample (sql : String) : Option (List Statement) :=
  if sql = "SELECT * FROM orders WHERE total > 500" then some [ordersAbove "500"]
  else if sql = "SELECT * FROM orders WHERE total > 7" then some [ordersAbove "7"]
  else if sql = "SELECT DATE '2024-01-01'" then some [typedDate "2024-01-01"]
  else if sql = "SELECT DATE '1999-12-31'" then some [typedDate "1999-12-31"]
  else none

example : printStatement (redactStatement (ordersAbove "500")) =
    "SELECT * FROM orders WHERE total > $REDACTED" := by decide

/-- The number of a predicate is hidden. -/
theorem ordersAbove_hidden :
    Noninterfering parseSample printStatement "SELECT * FROM orders WHERE total > 500"
      "SELECT * FROM orders WHERE total > 7" := by
  refine (noninterfering_iff parseSample printStatement ?_).mpr ?_
  · intro stmts stmts' h h' _ _
    simp only [parseSample, if_true, Option.some.injEq] at h
    simp only [parseSample, String.reduceEq, if_true, if_false, Option.some.injEq] at h'
    subst h h'
    rfl
  · intro stmts stmts' h h' _
    simp only [parseSample, if_true, Option.some.injEq] at h
    simp only [parseSample, String.reduceEq, if_true, if_false, Option.some.injEq] at h'
    subst h h'
    rfl

/-- A typed date is kept. -/
theorem typedDate_leaks :
    ¬ Noninterfering parseSample printStatement "SELECT DATE '2024-01-01'"
      "SELECT DATE '1999-12-31'" := by
  intro h
  have hsame : SameButLiterals [typedDate "2024-01-01"] [typedDate "1999-12-31"] := rfl
  have hredact := h.parsed [typedDate "2024-01-01"] [typedDate "1999-12-31"]
    (by simp [parseSample]) (by simp [parseSample]) hsame .literals (by simp)
  revert hredact
  decide

end Redact
end Engine
end Pawrly
