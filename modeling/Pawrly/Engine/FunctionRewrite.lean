import Pawrly.Engine.FunctionRegistry

/-!
# Rewriting of function calls

`rewrite_function_calls`: a call `ns.fn(args)` in the place of a table gets the mangled name of the
function.  The parser and its printer are outside code; a call after `LATERAL` is a node of its own in
the parsed statement (`TableFactor::Function`), which the visitor does not look at.  `rewrites_iff` says
for which texts every call is renamed, and an error is returned for a wrong one only.
-/

namespace Pawrly
namespace Functions

open Config

/-! ## Statements -/

structure Ident where
  value : String
  quoted : Bool
  deriving DecidableEq

inductive NamePart
  | ident (id : Ident)
  | function (text : String)
  deriving DecidableEq

/-- The name of an object, of at least one part. -/
structure ObjectName where
  first : NamePart
  rest : List NamePart
  deriving DecidableEq

/-- A table with arguments (`TableFactor::Table`), or a function after `LATERAL`
(`TableFactor::Function`). -/
inductive CallKind
  | table
  | lateral
  deriving DecidableEq

/-- A part of a statement.  The parts of a call are its arguments and what follows them. -/
inductive Ast
  | call (kind : CallKind) (name : ObjectName) (parts : List Ast)
  | node (variant : String) (parts : List Ast)
  | text (s : String)

/-- `normalize_ident`: an identifier that is not quoted is in lower case. -/
def normalizeIdent (id : Ident) : String := if id.quoted then id.value else id.value.toLower

/-- The identifiers of a name, if all its parts are some. -/
def ObjectName.idents (name : ObjectName) : Option (List String) :=
  (name.first :: name.rest).mapM fun
    | .ident id => some (normalizeIdent id)
    | .function _ => none

def ObjectName.plain (s : String) : ObjectName := ⟨.ident ⟨s, false⟩, []⟩

namespace Ast

mutual

/-- The calls in the place of a table, at any depth. -/
def calls : Ast → List (CallKind × ObjectName)
  | call kind name parts => (kind, name) :: callsAll parts
  | node _ parts => callsAll parts
  | text _ => []

def callsAll : List Ast → List (CallKind × ObjectName)
  | [] => []
  | a :: as => calls a ++ callsAll as

end

mutual

/-- The statement with the names of its calls changed. -/
def mapNames (ρ : CallKind → ObjectName → ObjectName) : Ast → Ast
  | call kind name parts => call kind (ρ kind name) (mapNamesAll ρ parts)
  | node variant parts => node variant (mapNamesAll ρ parts)
  | text s => text s

def mapNamesAll (ρ : CallKind → ObjectName → ObjectName) : List Ast → List Ast
  | [] => []
  | a :: as => mapNames ρ a :: mapNamesAll ρ as

end

end Ast

/-! ## The rewrite -/

variable {ω : Type}

/-- The errors of a rewrite. -/
inductive EngineError
  | unknownFunction (message : String)
  | invalidSql (message : String)
  deriving DecidableEq

/-- `pre_visit_table_factor`, of the name of a table with arguments: the new name, if it changes. -/
def preVisit (registry : FunctionRegistry ω) (name : ObjectName) :
    Except EngineError (Option ObjectName) :=
  match name.idents with
  | none => .ok none
  | some [_] => .ok none
  | some [ns, func] =>
      if registry.contains ns func then .ok (some (.plain (mangle ns func)))
      else
        .error (.unknownFunction (ns ++ "." ++ func ++ "; declared functions: [" ++
          Text.join ", " registry.declaredNames ++ "]"))
  | some _ => .error (.invalidSql "function calls support `namespace.function(...)`")

mutual

/-- `VisitMut::visit`, with whether a name was changed. -/
def visit (registry : FunctionRegistry ω) : Ast → Except EngineError (Ast × Bool)
  | .call .table name parts => do
      let renamed ← preVisit registry name
      let (parts, changed) ← visitAll registry parts
      .ok (.call .table (renamed.getD name) parts, renamed.isSome || changed)
  | .call .lateral name parts => do
      let (parts, changed) ← visitAll registry parts
      .ok (.call .lateral name parts, changed)
  | .node variant parts => do
      let (parts, changed) ← visitAll registry parts
      .ok (.node variant parts, changed)
  | .text s => .ok (.text s, false)

def visitAll (registry : FunctionRegistry ω) : List Ast → Except EngineError (List Ast × Bool)
  | [] => .ok ([], false)
  | a :: as => do
      let (a, changed) ← visit registry a
      let (as, changed') ← visitAll registry as
      .ok (a :: as, changed || changed')

end

/-- The parser and the printer of statements. -/
structure SqlParser where
  parse : String → Option (List Ast)
  print : Ast → String

/-- The text of statements. -/
def SqlParser.printAll (sp : SqlParser) (stmts : List Ast) : String :=
  Text.join "; " (stmts.map sp.print)

/-- `rewrite_function_calls`. -/
def rewriteFunctionCalls (sp : SqlParser) (registry : FunctionRegistry ω) (sql : String) :
    Except EngineError String :=
  if registry.isEmpty || !Text.contains "(" sql then .ok sql
  else
    match sp.parse sql with
    | none => .ok sql
    | some stmts => do
        let (stmts, changed) ← visitAll registry stmts
        if changed then .ok (sp.printAll stmts) else .ok sql

/-! ## Renamed calls -/

/-- The name of a call with two or more parts. -/
def Qualified (name : ObjectName) : Prop := ∃ ns func rest, name.idents = some (ns :: func :: rest)

/-- The call cannot be resolved: its function is not registered, or its name has more parts. -/
def Unresolved (registry : FunctionRegistry ω) (name : ObjectName) : Prop :=
  ∃ ns func rest, name.idents = some (ns :: func :: rest) ∧
    (rest = [] → registry.contains ns func = false)

/-- The mangled name of a registered function; any other name stays. -/
def rename (registry : FunctionRegistry ω) (name : ObjectName) : ObjectName :=
  match name.idents with
  | some [ns, func] => if registry.contains ns func then .plain (mangle ns func) else name
  | _ => name

/-- Only the tables with arguments. -/
def renameTables (registry : FunctionRegistry ω) : CallKind → ObjectName → ObjectName
  | .table => rename registry
  | .lateral => id

/-- The call is one that the visitor renames. -/
def renames (registry : FunctionRegistry ω) (c : CallKind × ObjectName) : Bool :=
  match c.1, c.2.idents with
  | .table, some [ns, func] => registry.contains ns func
  | _, _ => false

/-- An identifier that cannot be a keyword, as the mangled names are. -/
def Mangled (s : String) : Prop :=
  isValidIdentifier s = true ∧ ∃ rest, s = "pawrly_fn__" ++ rest

/-- What the parser and the printer are relied on for: a call is written with a parenthesis, and the
printed text of parsed statements is parsed to the same statements, also with names of tables with
arguments that were changed to such identifiers. -/
structure SqlParser.Faithful (sp : SqlParser) : Prop where
  paren : ∀ sql stmts, sp.parse sql = some stmts → Ast.callsAll stmts ≠ [] →
    Text.contains "(" sql = true
  reparse : ∀ sql stmts, sp.parse sql = some stmts → ∀ ρ : CallKind → ObjectName → ObjectName,
    (∀ name, ρ .lateral name = name) →
      (∀ name, ρ .table name = name ∨ ∃ s, Mangled s ∧ ρ .table name = .plain s) →
        sp.parse (sp.printAll (Ast.mapNamesAll ρ stmts)) = some (Ast.mapNamesAll ρ stmts)

/-- The registry has the names that a validated configuration gives it. -/
def FunctionRegistry.Valid (registry : FunctionRegistry ω) : Prop :=
  ∀ f ∈ registry.byName, isValidFunctionIdent f.definition.ns = true ∧
    isValidFunctionIdent f.definition.name = true

/-- The rewritten text has the statements with every call of two parts renamed and nothing else
changed, and is not changed by another rewrite; there is an error only for an unresolved call. -/
structure Rewrites (sp : SqlParser) (registry : FunctionRegistry ω) (sql : String)
    (stmts : List Ast) : Prop where
  renamed : ∀ out, rewriteFunctionCalls sp registry sql = .ok out →
    sp.parse out = some (Ast.mapNamesAll (fun _ => rename registry) stmts) ∧
      (∀ c ∈ Ast.callsAll (Ast.mapNamesAll (fun _ => rename registry) stmts),
        ∀ ns func, c.2.idents ≠ some [ns, func]) ∧
      rewriteFunctionCalls sp registry out = .ok out
  failed : (∃ e, rewriteFunctionCalls sp registry sql = .error e) ↔
    ∃ c ∈ Ast.callsAll stmts, Unresolved registry c.2

/-! ## The visitor -/

variable {registry : FunctionRegistry ω}

lemma idents_ne_nil (name : ObjectName) : name.idents ≠ some [] := by
  intro h
  rw [ObjectName.idents, List.mapM_cons] at h
  simp [Option.bind_eq_some_iff] at h

lemma preVisit_ok {name : ObjectName} (h : ¬ Unresolved registry name) :
    ∃ renamed, preVisit registry name = .ok renamed ∧ renamed.getD name = rename registry name ∧
      renamed.isSome = renames registry (.table, name) := by
  unfold preVisit rename renames
  match hidents : name.idents with
  | none => exact ⟨none, rfl, rfl, rfl⟩
  | some [] => exact absurd hidents (idents_ne_nil name)
  | some [_] => exact ⟨none, rfl, rfl, rfl⟩
  | some [ns, func] =>
      dsimp only
      have hcontains : registry.contains ns func = true := by
        by_contra hnot
        exact h ⟨ns, func, [], hidents, fun _ => Bool.eq_false_iff.mpr hnot⟩
      rw [if_pos hcontains, if_pos hcontains, hcontains]
      exact ⟨_, rfl, rfl, rfl⟩
  | some (ns :: func :: third :: rest) =>
      exact absurd ⟨ns, func, third :: rest, hidents, nofun⟩ h

lemma preVisit_error {name : ObjectName} (h : Unresolved registry name) :
    ∃ e, preVisit registry name = .error e := by
  obtain ⟨ns, func, rest, hidents, hcontains⟩ := h
  unfold preVisit
  rw [hidents]
  cases rest with
  | nil =>
      dsimp only
      rw [if_neg (by rw [hcontains rfl]; exact Bool.false_ne_true)]
      exact ⟨_, rfl⟩
  | cons third rest => exact ⟨_, rfl⟩

/-- A table with arguments that cannot be resolved. -/
def BadTable (registry : FunctionRegistry ω) (c : CallKind × ObjectName) : Prop :=
  c.1 = .table ∧ Unresolved registry c.2

mutual

/-- Without a bad table the visitor renames the tables. -/
lemma visit_ok (a : Ast) (h : ∀ c ∈ a.calls, ¬ BadTable registry c) :
    visit registry a =
      .ok (a.mapNames (renameTables registry), a.calls.any (renames registry)) := by
  cases a with
  | call kind name parts =>
      obtain ⟨hname, hparts⟩ := List.forall_mem_cons.mp h
      have hall := visitAll_ok parts hparts
      cases kind with
      | table =>
          obtain ⟨renamed, hrenamed, hname, hsome⟩ := preVisit_ok fun hbad => hname ⟨rfl, hbad⟩
          simp only [visit, hrenamed, hall, bind, Except.bind, Ast.mapNames, renameTables,
            Ast.calls, List.any_cons, hname, hsome]
      | lateral =>
          simp only [visit, hall, bind, Except.bind, Ast.mapNames, renameTables, id, Ast.calls,
            List.any_cons, renames, Bool.false_or]
  | node variant parts =>
      simp only [visit, visitAll_ok parts h, bind, Except.bind, Ast.mapNames, Ast.calls]
  | text s => rfl

lemma visitAll_ok (as : List Ast) (h : ∀ c ∈ Ast.callsAll as, ¬ BadTable registry c) :
    visitAll registry as =
      .ok (Ast.mapNamesAll (renameTables registry) as,
        (Ast.callsAll as).any (renames registry)) := by
  cases as with
  | nil => rfl
  | cons a as =>
      obtain ⟨ha, has⟩ := List.forall_mem_append.mp h
      simp only [visitAll, visit_ok a ha, visitAll_ok as has, bind, Except.bind, Ast.mapNamesAll,
        Ast.callsAll, List.any_append]

end

mutual

/-- A bad table ends the visit. -/
lemma visit_error (a : Ast) (h : ∃ c ∈ a.calls, BadTable registry c) :
    ∃ e, visit registry a = .error e := by
  cases a with
  | call kind name parts =>
      by_cases hparts : ∃ c ∈ Ast.callsAll parts, BadTable registry c
      · obtain ⟨e, he⟩ := visitAll_error parts hparts
        cases kind with
        | table =>
            cases hpre : preVisit registry name with
            | error e' => exact ⟨e', by simp only [visit, hpre, bind, Except.bind]⟩
            | ok renamed => exact ⟨e, by simp only [visit, hpre, he, bind, Except.bind]⟩
        | lateral => exact ⟨e, by simp only [visit, he, bind, Except.bind]⟩
      · obtain ⟨c, hc, hbad⟩ := h
        rcases List.mem_cons.mp hc with rfl | hc
        · obtain ⟨rfl, hunresolved⟩ := hbad
          obtain ⟨e, he⟩ := preVisit_error hunresolved
          exact ⟨e, by simp only [visit, he, bind, Except.bind]⟩
        · exact absurd ⟨c, hc, hbad⟩ hparts
  | node variant parts =>
      obtain ⟨e, he⟩ := visitAll_error parts h
      exact ⟨e, by simp only [visit, he, bind, Except.bind]⟩
  | text s =>
      obtain ⟨c, hc, -⟩ := h
      cases hc

lemma visitAll_error (as : List Ast) (h : ∃ c ∈ Ast.callsAll as, BadTable registry c) :
    ∃ e, visitAll registry as = .error e := by
  cases as with
  | nil =>
      obtain ⟨c, hc, -⟩ := h
      cases hc
  | cons a as =>
      by_cases ha : ∃ c ∈ a.calls, BadTable registry c
      · obtain ⟨e, he⟩ := visit_error a ha
        exact ⟨e, by simp only [visitAll, he, bind, Except.bind]⟩
      · have hvisit := visit_ok a fun c hc hbad => ha ⟨c, hc, hbad⟩
        obtain ⟨c, hc, hbad⟩ := h
        rcases List.mem_append.mp hc with hc | hc
        · exact absurd ⟨c, hc, hbad⟩ ha
        · obtain ⟨e, he⟩ := visitAll_error as ⟨c, hc, hbad⟩
          exact ⟨e, by simp only [visitAll, hvisit, he, bind, Except.bind]⟩

end

/-! ## Names of a renamed statement -/

mutual

lemma calls_mapNames (ρ : CallKind → ObjectName → ObjectName) (a : Ast) :
    (a.mapNames ρ).calls = a.calls.map fun c => (c.1, ρ c.1 c.2) := by
  cases a with
  | call kind name parts =>
      simp only [Ast.mapNames, Ast.calls, callsAll_mapNames ρ parts, List.map_cons]
  | node variant parts => simp only [Ast.mapNames, Ast.calls, callsAll_mapNames ρ parts]
  | text s => rfl

lemma callsAll_mapNames (ρ : CallKind → ObjectName → ObjectName) (as : List Ast) :
    Ast.callsAll (Ast.mapNamesAll ρ as) = (Ast.callsAll as).map fun c => (c.1, ρ c.1 c.2) := by
  cases as with
  | nil => rfl
  | cons a as =>
      simp only [Ast.mapNamesAll, Ast.callsAll, calls_mapNames ρ a, callsAll_mapNames ρ as,
        List.map_append]

end

mutual

/-- The changes that agree on the calls of a statement make the same one of it. -/
lemma mapNames_congr {ρ ρ' : CallKind → ObjectName → ObjectName} (a : Ast)
    (h : ∀ c ∈ a.calls, ρ c.1 c.2 = ρ' c.1 c.2) : a.mapNames ρ = a.mapNames ρ' := by
  cases a with
  | call kind name parts =>
      obtain ⟨hname, hparts⟩ := List.forall_mem_cons.mp h
      dsimp only at hname
      simp only [Ast.mapNames, hname, mapNamesAll_congr parts hparts]
  | node variant parts => simp only [Ast.mapNames, mapNamesAll_congr parts h]
  | text s => rfl

lemma mapNamesAll_congr {ρ ρ' : CallKind → ObjectName → ObjectName} (as : List Ast)
    (h : ∀ c ∈ Ast.callsAll as, ρ c.1 c.2 = ρ' c.1 c.2) :
    Ast.mapNamesAll ρ as = Ast.mapNamesAll ρ' as := by
  cases as with
  | nil => rfl
  | cons a as =>
      obtain ⟨ha, has⟩ := List.forall_mem_append.mp h
      simp only [Ast.mapNamesAll, mapNames_congr a ha, mapNamesAll_congr as has]

end

mutual

lemma mapNames_id (a : Ast) : a.mapNames (fun _ name => name) = a := by
  cases a with
  | call kind name parts => simp only [Ast.mapNames, mapNamesAll_id parts]
  | node variant parts => simp only [Ast.mapNames, mapNamesAll_id parts]
  | text s => rfl

lemma mapNamesAll_id (as : List Ast) : Ast.mapNamesAll (fun _ name => name) as = as := by
  cases as with
  | nil => rfl
  | cons a as => simp only [Ast.mapNamesAll, mapNames_id a, mapNamesAll_id as]

end

@[simp] lemma idents_plain (s : String) : (ObjectName.plain s).idents = some [s.toLower] := rfl

lemma rename_of_not_qualified {name : ObjectName} (h : ¬ Qualified name) :
    rename registry name = name := by
  unfold rename
  split
  · rename_i ns func hidents
    exact absurd ⟨ns, func, [], hidents⟩ h
  · rfl

lemma Unresolved.qualified {name : ObjectName} (h : Unresolved registry name) : Qualified name := by
  obtain ⟨ns, func, rest, hidents, -⟩ := h
  exact ⟨ns, func, rest, hidents⟩

/-- A call that can be resolved names a registered function. -/
lemma registered_of_resolved {name : ObjectName} (hqualified : Qualified name)
    (h : ¬ Unresolved registry name) :
    ∃ ns func, name.idents = some [ns, func] ∧ registry.contains ns func = true := by
  obtain ⟨ns, func, rest, hidents⟩ := hqualified
  cases rest with
  | nil =>
      refine ⟨ns, func, hidents, ?_⟩
      by_contra hnot
      exact h ⟨ns, func, [], hidents, fun _ => Bool.eq_false_iff.mpr hnot⟩
  | cons third rest => exact absurd ⟨ns, func, third :: rest, hidents, nofun⟩ h

lemma rename_registered {name : ObjectName} {ns func : String} (hidents : name.idents = some [ns, func])
    (hcontains : registry.contains ns func = true) :
    rename registry name = .plain (mangle ns func) := by
  rw [rename, hidents]
  exact if_pos hcontains

/-- A new name is no qualified one, unless the call could not be resolved. -/
lemma qualified_rename {name : ObjectName} (h : Qualified (rename registry name)) :
    Unresolved registry name ∧ rename registry name = name := by
  by_cases hqualified : Qualified name
  · by_cases hunresolved : Unresolved registry name
    · refine ⟨hunresolved, ?_⟩
      obtain ⟨ns, func, rest, hidents, hcontains⟩ := hunresolved
      rw [rename, hidents]
      cases rest with
      | nil => exact if_neg (by rw [hcontains rfl]; exact Bool.false_ne_true)
      | cons third rest => rfl
    · obtain ⟨ns, func, hidents, hcontains⟩ := registered_of_resolved hqualified hunresolved
      rw [rename_registered hidents hcontains] at h
      obtain ⟨_, _, _, hidents⟩ := h
      cases hidents
  · rw [rename_of_not_qualified hqualified] at h
    exact absurd h hqualified

/-! ## Mangled identifiers -/

lemma identifier_alphanum {name : String} (h : isValidIdentifier name = true) :
    ∀ c ∈ name.toList, (c.isAlphanum || c = '_') = true := by
  unfold isValidIdentifier at h
  cases hl : name.toList with
  | nil => exact List.forall_mem_nil _
  | cons c cs =>
      rw [hl, Bool.and_eq_true, List.all_eq_true] at h
      refine List.forall_mem_cons.mpr ⟨?_, h.2⟩
      rcases Bool.or_eq_true_iff.mp h.1 with halpha | hline
      · simp [Char.isAlphanum, halpha]
      · simp [hline]

lemma mangled_mangle {ns name : String} (hns : isValidIdentifier ns = true)
    (hname : isValidIdentifier name = true) : Mangled (mangle ns name) := by
  refine ⟨?_, ns ++ "__" ++ name, by rw [mangle, String.append_assoc, String.append_assoc,
    String.append_assoc]⟩
  have hlist : (mangle ns name).toList =
      'p' :: ("awrly_fn__".toList ++ ns.toList ++ "__".toList ++ name.toList) := by
    simp [mangle]
  rw [isValidIdentifier, hlist]
  simp only [List.all_append, Bool.and_eq_true, List.all_eq_true]
  exact ⟨by decide, ⟨⟨⟨List.all_eq_true.mp (by decide), identifier_alphanum hns⟩,
    List.all_eq_true.mp (by decide)⟩, identifier_alphanum hname⟩⟩

/-- The tables keep their names or get mangled ones. -/
lemma renameTables_mangled (hvalid : registry.Valid) (name : ObjectName) :
    renameTables registry .table name = name ∨
      ∃ s, Mangled s ∧ renameTables registry .table name = .plain s := by
  show rename registry name = name ∨ ∃ s, Mangled s ∧ rename registry name = .plain s
  unfold rename
  split
  · rename_i ns func hidents
    split_ifs with hcontains
    · obtain ⟨f, hf⟩ := Option.isSome_iff_exists.mp hcontains
      obtain ⟨hmem, hkey⟩ := FunctionRegistry.get_eq_some.mp hf
      obtain ⟨hns, hname⟩ := hvalid f hmem
      cases hkey
      rw [isValidFunctionIdent, Bool.and_eq_true] at hns hname
      exact .inr ⟨_, mangled_mangle hns.1 hname.1, rfl⟩
    · exact .inl rfl
  · exact .inl rfl

/-! ## Results -/

variable {sp : SqlParser} {sql : String} {stmts : List Ast}

lemma rewrite_eq (hsp : sp.Faithful) (hparse : sp.parse sql = some stmts)
    (hregistry : registry.isEmpty = false) :
    rewriteFunctionCalls sp registry sql =
      (visitAll registry stmts).bind fun r => if r.2 then .ok (sp.printAll r.1) else .ok sql := by
  unfold rewriteFunctionCalls
  rw [hregistry, Bool.false_or]
  cases hparen : Text.contains "(" sql with
  | true =>
      rw [hparse]
      rfl
  | false =>
      have hnone : Ast.callsAll stmts = [] := by
        by_contra hne
        rw [hsp.paren sql stmts hparse hne] at hparen
        cases hparen
      rw [visitAll_ok stmts (by rw [hnone]; exact List.forall_mem_nil _), hnone]
      rfl

/-- Without a bad table the text has the statements with their tables renamed. -/
lemma rewrite_ok (hsp : sp.Faithful) (hvalid : registry.Valid) (hparse : sp.parse sql = some stmts)
    (hregistry : registry.isEmpty = false)
    (h : ∀ c ∈ Ast.callsAll stmts, ¬ BadTable registry c) :
    ∃ out, rewriteFunctionCalls sp registry sql = .ok out ∧
      sp.parse out = some (Ast.mapNamesAll (renameTables registry) stmts) ∧
        ((Ast.callsAll stmts).any (renames registry) = false → out = sql) := by
  rw [rewrite_eq hsp hparse hregistry, visitAll_ok stmts h]
  cases hchanged : (Ast.callsAll stmts).any (renames registry) with
  | true =>
      exact ⟨_, rfl, hsp.reparse sql stmts hparse _ (fun _ => rfl) (renameTables_mangled hvalid),
        fun hfalse => by cases hfalse⟩
  | false =>
      refine ⟨sql, rfl, ?_, fun _ => rfl⟩
      rw [hparse, @mapNamesAll_congr _ (fun _ name => name) stmts, mapNamesAll_id]
      intro c hc
      have hnot := List.any_eq_false.mp hchanged c hc
      obtain ⟨kind, name⟩ := c
      cases kind with
      | lateral => rfl
      | table =>
          refine rename_of_not_qualified fun hqualified => ?_
          obtain ⟨ns, func, hidents, hcontains⟩ :=
            registered_of_resolved hqualified fun hbad => h _ hc ⟨rfl, hbad⟩
          exact hnot (by rw [renames, hidents]; exact hcontains)

lemma rewrite_error (hsp : sp.Faithful) (hparse : sp.parse sql = some stmts)
    (hregistry : registry.isEmpty = false) (h : ∃ c ∈ Ast.callsAll stmts, BadTable registry c) :
    ∃ e, rewriteFunctionCalls sp registry sql = .error e := by
  rw [rewrite_eq hsp hparse hregistry]
  obtain ⟨e, he⟩ := visitAll_error stmts h
  exact ⟨e, by rw [he]; rfl⟩

/-- A text without a qualified call is not changed. -/
lemma rewrite_fixed (hsp : sp.Faithful) (hvalid : registry.Valid) (hparse : sp.parse sql = some stmts)
    (h : ∀ c ∈ Ast.callsAll stmts, ¬ Qualified c.2) :
    rewriteFunctionCalls sp registry sql = .ok sql := by
  cases hregistry : registry.isEmpty with
  | true => rw [rewriteFunctionCalls, hregistry]; rfl
  | false =>
      obtain ⟨out, hout, -, hsame⟩ := rewrite_ok hsp hvalid hparse hregistry
        fun c hc hbad => h c hc hbad.2.qualified
      rw [hout, hsame]
      rw [List.any_eq_false]
      rintro ⟨kind, name⟩ hc hrenames
      unfold renames at hrenames
      split at hrenames
      · rename_i ns func hkind hidents
        exact h _ hc ⟨ns, func, [], hidents⟩
      · cases hrenames

/-- Where every call is resolved and the text comes back with every call renamed, the rewrite is right. -/
lemma rewrites_of_resolved (hsp : sp.Faithful) (hvalid : registry.Valid) {out : String}
    (hresolved : ∀ c ∈ Ast.callsAll stmts, ¬ Unresolved registry c.2)
    (hout : rewriteFunctionCalls sp registry sql = .ok out)
    (hparse : sp.parse out = some (Ast.mapNamesAll (fun _ => rename registry) stmts)) :
    Rewrites sp registry sql stmts := by
  have hnone : ∀ c ∈ Ast.callsAll (Ast.mapNamesAll (fun _ => rename registry) stmts),
      ¬ Qualified c.2 := by
    rw [callsAll_mapNames]
    intro c hc hqualified
    obtain ⟨c₀, hc₀, rfl⟩ := List.mem_map.mp hc
    exact hresolved c₀ hc₀ (qualified_rename hqualified).1
  refine ⟨?_, ?_⟩
  · intro out' hout'
    rw [hout] at hout'
    cases hout'
    refine ⟨hparse, ?_, rewrite_fixed hsp hvalid hparse hnone⟩
    exact fun c hc ns func hidents => hnone c hc ⟨ns, func, [], hidents⟩
  · constructor
    · rintro ⟨e, he⟩
      rw [hout] at he
      cases he
    · rintro ⟨c, hc, hunresolved⟩
      exact absurd hunresolved (hresolved c hc)

/-- The rewrite is right for a text when it is refused for a table that cannot be resolved, or when all
its qualified calls are tables with arguments and some function is registered. -/
theorem rewrites_iff (hsp : sp.Faithful) (hvalid : registry.Valid)
    (hparse : sp.parse sql = some stmts) :
    Rewrites sp registry sql stmts ↔
      (registry.isEmpty = false ∧ ∃ c ∈ Ast.callsAll stmts, BadTable registry c) ∨
        ∀ c ∈ Ast.callsAll stmts, Qualified c.2 → c.1 = .table ∧ registry.isEmpty = false := by
  cases hregistry : registry.isEmpty with
  | true =>
      have hout : rewriteFunctionCalls sp registry sql = .ok sql := by
        rw [rewriteFunctionCalls, hregistry]
        rfl
      have hcontains : ∀ ns func, registry.contains ns func = false := by
        intro ns func
        rw [FunctionRegistry.contains, FunctionRegistry.get, List.isEmpty_iff.mp hregistry]
        rfl
      simp only [Bool.true_eq_false, false_and, and_false, false_or, imp_false]
      constructor
      · intro h c hc hqualified
        obtain ⟨ns, func, rest, hidents⟩ := hqualified
        obtain ⟨e, he⟩ := h.failed.mpr ⟨c, hc, ns, func, rest, hidents, fun _ => hcontains ns func⟩
        rw [hout] at he
        cases he
      · intro h
        refine rewrites_of_resolved hsp hvalid (fun c hc hbad => h c hc hbad.qualified) hout ?_
        rw [hparse, @mapNamesAll_congr _ (fun _ name => name) stmts, mapNamesAll_id]
        exact fun c hc => rename_of_not_qualified (h c hc)
  | false =>
      by_cases hbad : ∃ c ∈ Ast.callsAll stmts, BadTable registry c
      · obtain ⟨e, he⟩ := rewrite_error hsp hparse hregistry hbad
        refine iff_of_true ⟨fun out hout => ?_, ?_⟩ (.inl ⟨rfl, hbad⟩)
        · rw [he] at hout
          cases hout
        · obtain ⟨c, hc, -, hunresolved⟩ := hbad
          exact iff_of_true ⟨e, he⟩ ⟨c, hc, hunresolved⟩
      · have hgood : ∀ c ∈ Ast.callsAll stmts, ¬ BadTable registry c :=
          fun c hc h => hbad ⟨c, hc, h⟩
        obtain ⟨out, hout, hparsed, -⟩ := rewrite_ok hsp hvalid hparse hregistry hgood
        simp only [hbad, and_false, false_or, and_true]
        constructor
        · rintro ⟨hrenamed, hfailed⟩ ⟨kind, name⟩ hc hqualified
          cases kind with
          | table => rfl
          | lateral =>
              have hresolved : ¬ Unresolved registry name := fun hunresolved => by
                obtain ⟨e, he⟩ := hfailed.mpr ⟨_, hc, hunresolved⟩
                rw [hout] at he
                cases he
              -- the visitor leaves the call, whose name should have changed
              obtain ⟨ns, func, hidents, hcontains⟩ := registered_of_resolved hqualified hresolved
              have hsame := congrArg Ast.callsAll
                (Option.some.inj (hparsed.symm.trans (hrenamed out hout).1))
              rw [callsAll_mapNames, callsAll_mapNames, List.map_inj_left] at hsame
              have hname : name = rename registry name := (Prod.mk.inj (hsame _ hc)).2
              rw [rename_registered hidents hcontains] at hname
              rw [hname, idents_plain] at hidents
              simp at hidents
        · intro h
          refine rewrites_of_resolved hsp hvalid (fun c hc hunresolved => ?_) hout ?_
          · exact hgood c hc ⟨h c hc hunresolved.qualified, hunresolved⟩
          · rw [hparsed, mapNamesAll_congr stmts]
            rintro ⟨kind, name⟩ hc
            cases kind with
            | table => rfl
            | lateral =>
                have hplain : ¬ Qualified name := fun hqualified => by cases h _ hc hqualified
                exact (rename_of_not_qualified hplain).symm

/-! ## One call -/

/-- A name of one identifier or two. -/
def sampleName (s : String) : Option ObjectName :=
  match Text.splitOnce '.' s with
  | none => if isValidIdentifier s then some (.plain s) else none
  | some (a, b) =>
      if isValidIdentifier a && isValidIdentifier b then
        some ⟨.ident ⟨a, false⟩, [.ident ⟨b, false⟩]⟩
      else none

def printName (name : ObjectName) : String :=
  Text.join "." ((name.first :: name.rest).map fun
    | .ident id => id.value
    | .function text => text)

def sampleQuery (kind : CallKind) (name : ObjectName) : Ast :=
  .node "Query" [.call kind name [.text "'x'"]]

/-- The part of the SQL grammar that the examples use: a query of one call, after `LATERAL` or not. -/
def samplePrefix : CallKind → String
  | .table => "SELECT * FROM "
  | .lateral => "SELECT * FROM LATERAL "

def sampleSql : SqlParser where
  parse sql :=
    match Text.splitOnce '(' sql with
    | some (head, "'x')") =>
        match Text.stripPrefix (samplePrefix .lateral) head with
        | some name => (sampleName name).map fun name => [sampleQuery .lateral name]
        | none =>
            match Text.stripPrefix (samplePrefix .table) head with
            | some name => (sampleName name).map fun name => [sampleQuery .table name]
            | none => none
    | _ => none
  print
    | .node _ [.call kind name _] => samplePrefix kind ++ printName name ++ "('x')"
    | _ => ""

/-- The name is read back from its text, which has neither a blank nor a parenthesis. -/
structure Simple (name : ObjectName) : Prop where
  read : sampleName (printName name) = some name
  blank : ' ' ∉ (printName name).toList
  paren : '(' ∉ (printName name).toList

lemma not_mem_identifier {name : String} (h : isValidIdentifier name = true) {c : Char}
    (hc : (c.isAlphanum || c = '_') = false) : c ∉ name.toList := by
  intro hmem
  rw [identifier_alphanum h c hmem] at hc
  cases hc

lemma simple_plain {s : String} (h : isValidIdentifier s = true) : Simple (.plain s) := by
  have hprint : printName (.plain s) = s := rfl
  refine ⟨?_, ?_, ?_⟩ <;> rw [hprint]
  · rw [sampleName, Text.splitOnce_eq_none_iff.mpr (not_mem_identifier h (by decide))]
    exact if_pos h
  · exact not_mem_identifier h (by decide)
  · exact not_mem_identifier h (by decide)

lemma simple_pair {a b : String} (ha : isValidIdentifier a = true) (hb : isValidIdentifier b = true) :
    Simple ⟨.ident ⟨a, false⟩, [.ident ⟨b, false⟩]⟩ := by
  have hprint : printName ⟨.ident ⟨a, false⟩, [.ident ⟨b, false⟩]⟩ = a ++ "." ++ b := by
    simp [printName, Text.join, String.intercalate_cons_cons]
  refine ⟨?_, ?_, ?_⟩ <;> rw [hprint]
  · rw [sampleName, Text.splitOnce_append (not_mem_identifier ha (by decide))]
    exact if_pos (by rw [ha, hb]; rfl)
  · simp [not_mem_identifier ha (c := ' ') (by decide), not_mem_identifier hb (c := ' ') (by decide)]
  · simp [not_mem_identifier ha (c := '(') (by decide), not_mem_identifier hb (c := '(') (by decide)]

lemma simple_of_sampleName {s : String} {name : ObjectName} (h : sampleName s = some name) :
    Simple name := by
  unfold sampleName at h
  split at h
  · split_ifs at h with hs
    cases h
    exact simple_plain hs
  · split_ifs at h with hab
    cases h
    rw [Bool.and_eq_true] at hab
    exact simple_pair hab.1 hab.2

lemma sampleSql_parse_eq_some {sql : String} {stmts : List Ast} (h : sampleSql.parse sql = some stmts) :
    Text.contains "(" sql = true ∧ ∃ kind name, stmts = [sampleQuery kind name] ∧ Simple name := by
  simp only [sampleSql] at h
  split at h
  · rename_i head hsplit
    have hparen : '(' ∈ sql.toList := by
      by_contra hnot
      rw [Text.splitOnce_eq_none_iff.mpr hnot] at hsplit
      cases hsplit
    obtain ⟨before, after, hsql⟩ := List.append_of_mem hparen
    refine ⟨Text.occursIn_iff.mpr ⟨before, after, by simp [hsql]⟩, ?_⟩
    split at h
    · obtain ⟨name, hname, rfl⟩ := Option.map_eq_some_iff.mp h
      exact ⟨.lateral, name, rfl, simple_of_sampleName hname⟩
    · split at h
      · obtain ⟨name, hname, rfl⟩ := Option.map_eq_some_iff.mp h
        exact ⟨.table, name, rfl, simple_of_sampleName hname⟩
      · cases h
  · cases h

lemma sampleSql_printAll (kind : CallKind) (name : ObjectName) :
    sampleSql.printAll [sampleQuery kind name] = samplePrefix kind ++ printName name ++ "('x')" := by
  simp [SqlParser.printAll, Text.join, sampleSql, sampleQuery]

lemma sampleSql_parse_print {kind : CallKind} {name : ObjectName} (h : Simple name) :
    sampleSql.parse (sampleSql.printAll [sampleQuery kind name]) = some [sampleQuery kind name] := by
  have hprefix : '(' ∉ (samplePrefix kind ++ printName name).toList := by
    rw [String.toList_append, List.mem_append, not_or]
    refine ⟨?_, h.paren⟩
    cases kind <;> decide
  have hsplit : Text.splitOnce '(' (samplePrefix kind ++ printName name ++ "('x')") =
      some (samplePrefix kind ++ printName name, "'x')") := by
    have hlist : (samplePrefix kind ++ printName name ++ "('x')").toList =
        (samplePrefix kind ++ printName name).toList ++ '(' :: "'x')".toList := by
      rw [String.toList_append]
      rfl
    rw [Text.splitOnce, hlist, Text.splitOnceChars_append hprefix, Option.map_some,
      String.ofList_toList, String.ofList_toList]
  have hstrip : Text.stripPrefix (samplePrefix kind) (samplePrefix kind ++ printName name) =
      some (printName name) := Text.stripPrefix_eq_some.mpr (String.toList_append)
  rw [sampleSql_printAll]
  simp only [sampleSql, hsplit]
  cases kind with
  | lateral =>
      rw [hstrip]
      simp only [h.read, Option.map_some]
  | table =>
      have hnone : Text.stripPrefix (samplePrefix .lateral) (samplePrefix .table ++ printName name) =
          none := by
        rw [Option.eq_none_iff_forall_ne_some]
        intro rest hrest
        have hlist := Text.stripPrefix_eq_some.mp hrest
        have hsame : "SELECT * FROM LATERAL ".toList =
          "SELECT * FROM ".toList ++ "LATERAL ".toList := by decide
        rw [samplePrefix, samplePrefix, String.toList_append, hsame, List.append_assoc,
          List.append_right_inj] at hlist
        exact h.blank (hlist ▸ List.mem_append_left _ (by decide))
      rw [hnone, hstrip]
      simp only [h.read, Option.map_some]

lemma sampleSql_faithful : sampleSql.Faithful := by
  refine ⟨fun sql stmts h _ => (sampleSql_parse_eq_some h).1, ?_⟩
  intro sql stmts h ρ hlateral htable
  obtain ⟨-, kind, name, rfl, hname⟩ := sampleSql_parse_eq_some h
  have hρ : Simple (ρ kind name) := by
    cases kind with
    | lateral => rwa [hlateral]
    | table =>
        rcases htable name with hsame | ⟨s, hs, hmangled⟩
        · rwa [hsame]
        · rw [hmangled]
          exact simple_plain hs.1
  exact sampleSql_parse_print hρ

/-- The functions of the examples. -/
def sampleRegistry : FunctionRegistry Unit :=
  FunctionRegistry.empty.insert
    (build { ns := "github", name := "search_issues", kind := .http } ())

lemma sampleRegistry_valid : sampleRegistry.Valid := by
  intro f hf
  cases List.mem_singleton.mp hf
  exact ⟨by decide, by decide⟩

/-- A table with arguments, whose name is in lower case after the rewrite. -/
theorem rewrites_table :
    Rewrites sampleSql sampleRegistry "SELECT * FROM GitHub.search_issues('x')"
      [sampleQuery .table ⟨.ident ⟨"GitHub", false⟩, [.ident ⟨"search_issues", false⟩]⟩] := by
  have hparse := @sampleSql_parse_print .table _
    (simple_pair (a := "GitHub") (b := "search_issues") (by decide) (by decide))
  rw [show sampleSql.printAll [sampleQuery .table _] = "SELECT * FROM GitHub.search_issues('x')"
    by decide] at hparse
  refine (rewrites_iff sampleSql_faithful sampleRegistry_valid hparse).mpr (.inr ?_)
  intro c hc _
  cases List.mem_singleton.mp hc
  exact ⟨rfl, rfl⟩

/-- After `LATERAL` the call stays as it is. -/
theorem rewrites_fails :
    let sql := "SELECT * FROM LATERAL github.search_issues('x')"
    let stmts :=
      [sampleQuery .lateral ⟨.ident ⟨"github", false⟩, [.ident ⟨"search_issues", false⟩]⟩]
    sampleSql.Faithful ∧ sampleSql.parse sql = some stmts ∧
      ¬ Rewrites sampleSql sampleRegistry sql stmts := by
  intro sql stmts
  have hparse := @sampleSql_parse_print .lateral _
    (simple_pair (a := "github") (b := "search_issues") (by decide) (by decide))
  rw [show sampleSql.printAll [sampleQuery .lateral _] = sql by decide] at hparse
  refine ⟨sampleSql_faithful, hparse, fun h => ?_⟩
  have hout : rewriteFunctionCalls sampleSql sampleRegistry sql = .ok sql := by
    rw [rewrite_eq sampleSql_faithful hparse rfl]
    rfl
  have hrenamed := (h.renamed sql hout).1
  rw [hparse] at hrenamed
  have hcalls := congrArg Ast.callsAll (Option.some.inj hrenamed)
  revert hcalls
  decide +kernel

end Functions
end Pawrly
