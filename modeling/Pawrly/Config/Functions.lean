import Pawrly.Config.Accepted
import Pawrly.Config.Workspace
import Pawrly.Http.Columns

/-!
# Validation of functions

`validate_functions`: the functions attached to the sources, then the standalone ones.  An accepted
configuration has functions whose names are identifiers without the separator of mangled names, each
of them once, and whose required arguments come first.
-/

namespace Pawrly
namespace Config

open Http (Json)

/-- A `ConfigError::FunctionInvalid`. -/
structure FunctionInvalid where
  ns : String
  name : String
  msg : String
  deriving DecidableEq

/-! ## Names, types and placeholders -/

/-- `is_valid_function_ident`: `__` separates the parts of a mangled name. -/
def isValidFunctionIdent (name : String) : Bool :=
  isValidIdentifier name && !Text.contains "__" name

/-- `is_known_column_type`. -/
def isKnownColumnType (t : String) : Bool :=
  ["varchar", "string", "text", "char", "int", "integer", "int32", "int64", "bigint", "long",
    "smallint", "double", "float", "float32", "float64", "real", "decimal", "numeric", "bool",
    "boolean", "timestamp", "datetime", "date"].contains (Text.trim t).toLower

/-- The scan behind `placeholders`: the characters since an opening brace, in reverse. -/
def placeholderScan : Option (List Char) → List Char → List String
  | _, [] => []
  | none, c :: cs => placeholderScan (if c = '{' then some [] else none) cs
  | some name, c :: cs =>
      if c = '}' then
        (if !name.isEmpty && name.all fun d => d.isAlphanum || d = '_' then
          [String.ofList name.reverse] else []) ++ placeholderScan none cs
      else placeholderScan (some (c :: name)) cs

/-- `placeholders`: the names between braces. -/
def placeholders (template : String) : List String := placeholderScan none template.toList

def SourceKind.asStr : SourceKind → String
  | .file => "file"
  | .http => "http"
  | .mcp => "mcp"
  | .sqlite => "sqlite"
  | .postgres => "postgres"
  | .mysql => "mysql"
  | .duckdb => "duckdb"
  | .snowflake => "snowflake"
  | .iceberg => "iceberg"
  | .ducklake => "ducklake"
  | .delta => "delta"

def FunctionKind.asStr : FunctionKind → String
  | .http => "http"
  | .mcp => "mcp"
  | .file => "file"

/-- A text field that is not blank. -/
def filledField (v : Json) (key : String) : Option String :=
  ((v.get? key).bind Json.asStr?).filter fun s => Text.trim s ≠ ""

/-! ## Bodies -/

/-- The placeholders that name no argument. -/
def unknownPlaceholders (argNames : List String) (where_ : String) (names : List String) :
    List String :=
  names.flatMap fun name => errorIf (!argNames.contains name)
    ("`\x7b" ++ name ++ "\x7d` in the " ++ where_ ++ " names no declared argument")

/-- `validate_http_function`. -/
def httpFunctionErrors (standalone : Bool) (f : FunctionDecl) (argNames : List String) :
    List String :=
  match filledField f.body "endpoint" with
  | none => ["http function requires a non-empty `endpoint`"]
  | some endpoint =>
      let bodyTemplate := match f.body.get? "body" with
        | some (.str s) => some s
        | some (.obj fields) => (fields.lookup "template").bind Json.asStr?
        | _ => none
      unknownPlaceholders argNames "http function body"
          (placeholders endpoint ++ (bodyTemplate.map placeholders).getD []) ++
        errorIf (standalone && !((Text.stripPrefix "http://" endpoint).isSome ||
            (Text.stripPrefix "https://" endpoint).isSome) &&
            (filledField f.config "base_url").isNone)
          "standalone http function needs `config.base_url` unless `endpoint` is absolute"

/-- `validate_mcp_function`. -/
def mcpFunctionErrors (standalone : Bool) (f : FunctionDecl) : List String :=
  errorIf (filledField f.body "tool").isNone "mcp function requires a non-empty `tool`" ++
    if standalone then
      match (f.config.get? "transport").bind Json.asStr? with
      | some "stdio" =>
          let hasCommand := match f.config.get? "command" with
            | some (.str s) => Text.trim s ≠ ""
            | some (.arr items) => ((items.head?).bind Json.asStr?).any fun s => Text.trim s ≠ ""
            | _ => false
          errorIf (!hasCommand)
            "standalone mcp function with `transport: stdio` requires `config.command`"
      | some "streamable_http" =>
          errorIf ((f.config.get? "url").bind Json.asStr?).isNone
            "standalone mcp function with `transport: streamable_http` requires `config.url`"
      | some other => ["standalone mcp function transport `" ++ other ++ "` is not supported"]
      | none => ["standalone mcp function requires `config.transport`"]
    else []

/-- `validate_file_function`. -/
def fileFunctionErrors (f : FunctionDecl) (argNames : List String) : List String :=
  match filledField f.body "path" with
  | none => ["file function requires a non-empty `path`"]
  | some path =>
      unknownPlaceholders argNames "file function path" (placeholders path) ++
        match (f.body.get? "format").bind Json.asStr? with
        | none => []
        | some format =>
            errorIf (! ["csv", "tsv", "json", "jsonl", "ndjson", "parquet"].contains
                (Text.trim format).toLower)
              ("file function `format: " ++ format ++ "` is not a known format")

/-! ## One function -/

/-- The checks of an argument, told whether its name was seen before and whether an optional one
precedes it. -/
def argErrors (optionalSeen duplicate : Bool) (a : FunctionArg) : List String :=
  errorIf (!isValidFunctionIdent a.name)
      ("argument `" ++ a.name ++ "` must be a valid SQL identifier without `__`") ++
    errorIf duplicate ("duplicate argument `" ++ a.name ++ "`") ++
    errorIf (!isKnownColumnType a.type)
      ("argument `" ++ a.name ++ "` has unknown type `" ++ a.type ++ "`") ++
    errorIf (a.required && a.default.isSome)
      ("argument `" ++ a.name ++ "` cannot be both `required` and have a `default`") ++
    errorIf (a.required && optionalSeen)
      ("required argument `" ++ a.name ++ "` must precede all optional/defaulted arguments")

/-- The loop over the arguments. -/
def argsErrors : List String → Bool → List FunctionArg → List String
  | _, _, [] => []
  | seen, optionalSeen, a :: args =>
      argErrors optionalSeen (seen.contains a.name) a ++
        argsErrors (a.name :: seen) (optionalSeen || !a.required) args

def returnErrors (argNames : List String) (duplicate : Bool) (c : FunctionColumn) : List String :=
  errorIf (!isValidFunctionIdent c.name)
      ("return column `" ++ c.name ++ "` must be a valid SQL identifier without `__`") ++
    errorIf duplicate ("duplicate return column `" ++ c.name ++ "`") ++
    errorIf (!isKnownColumnType c.type)
      ("return column `" ++ c.name ++ "` has unknown type `" ++ c.type ++ "`") ++
    errorIf (c.source = some "arg" && !argNames.contains c.name)
      ("return column `" ++ c.name ++ "` uses `source: arg` but no argument named `" ++ c.name ++
        "` is declared")

/-- `validate_one_function`. -/
def oneFunctionErrors (ns : String) (kind : FunctionKind) (standalone : Bool) (f : FunctionDecl) :
    List String :=
  let argNames := f.args.map FunctionArg.name
  errorIf (!isValidFunctionIdent f.name)
      "function name must be a valid SQL identifier without `__`" ++
    errorIf (!isValidFunctionIdent ns) "namespace must be a valid SQL identifier without `__`" ++
    argsErrors [] false f.args ++
    errorIf f.returns.isEmpty "`returns:` must declare at least one column" ++
    eachNamed FunctionColumn.name (returnErrors argNames) [] f.returns ++
    match kind with
    | .http => httpFunctionErrors standalone f argNames
    | .mcp => mcpFunctionErrors standalone f
    | .file => fileFunctionErrors f argNames

/-! ## All functions -/

/-- The namespaces of the builtins. -/
def reservedFunctionNamespaces : List String := ["http", "file", "mcp", "materialized"]

def duplicateFunction : String :=
  "duplicate function `namespace.name` (also matches a builtin or another declaration)"

/-- A declared function with the source that it is attached to. -/
structure DeclaredFunction where
  source : Option DeclaredSource
  decl : FunctionDecl

/-- The namespace and the kind, if they are known: those of the source, or the declared ones. -/
def DeclaredFunction.place (d : DeclaredFunction) : Option (String × FunctionKind) :=
  match d.source with
  | some src => (FunctionKind.forSource src.kind).map fun kind => (src.name, kind)
  | none => d.decl.ns.bind fun ns => d.decl.kind.map fun kind => (ns, kind)

/-- The checks of an attached function. -/
def attachedErrors (src : DeclaredSource) (duplicate : Bool) (f : FunctionDecl) : List String :=
  errorIf f.ns.isSome
      "attached function must not set `namespace`; it is inherited from the source" ++
    errorIf (f.config ≠ .null)
      "attached function must not set `config`; it is inherited from the source" ++
    match FunctionKind.forSource src.kind with
    | none =>
        ["functions can only be attached to http, mcp, or file sources; source `" ++ src.name ++
          "` is `" ++ src.kind.asStr ++ "`"]
    | some kind =>
        (match f.kind with
          | none => []
          | some declared =>
              errorIf (declared ≠ kind)
                ("attached function `kind: " ++ declared.asStr ++ "` does not match source kind `" ++
                  src.kind.asStr ++ "`")) ++
          errorIf ((src.tables.map TableDef.name).contains f.name)
            "function name collides with a table of the same name in this source" ++
          oneFunctionErrors src.name kind false f ++
          errorIf duplicate duplicateFunction

/-- The checks of a standalone function. -/
def standaloneErrors (sourceNames : List String) (duplicate : Bool) (f : FunctionDecl) :
    List String :=
  match f.ns with
  | none => ["standalone function requires an explicit `namespace`"]
  | some ns =>
      match f.kind with
      | none => ["standalone function requires an explicit `kind`"]
      | some kind =>
          errorIf (reservedFunctionNamespaces.contains ns) ("namespace `" ++ ns ++ "` is reserved") ++
            errorIf (sourceNames.contains ns)
              ("namespace `" ++ ns ++
                "` collides with a source name; attach the function to that source instead") ++
            oneFunctionErrors ns kind true f ++
            errorIf duplicate duplicateFunction

/-- The errors of a declared function. -/
def DeclaredFunction.errors (sourceNames : List String) (duplicate : Bool) (d : DeclaredFunction) :
    List FunctionInvalid :=
  match d.source with
  | some src =>
      (attachedErrors src duplicate d.decl).map fun msg => ⟨src.name, d.decl.name, msg⟩
  | none =>
      (standaloneErrors sourceNames duplicate d.decl).map fun msg =>
        ⟨d.decl.ns.getD "?", d.decl.name, msg⟩

/-- The functions in the order of the validation. -/
def WorkspaceConfig.declaredFunctions (cfg : WorkspaceConfig) : List DeclaredFunction :=
  (cfg.sources.flatMap fun src => src.functions.map fun f => ⟨some src, f⟩) ++
    cfg.functions.map fun f => ⟨none, f⟩

/-- The loop over the functions with the pairs of namespace and name seen before. -/
def functionsErrors (sourceNames : List String) :
    List (String × String) → List DeclaredFunction → List FunctionInvalid
  | _, [] => []
  | seen, d :: ds =>
      match d.place with
      | some (ns, _) =>
          d.errors sourceNames (seen.contains (ns, d.decl.name)) ++
            functionsErrors sourceNames ((ns, d.decl.name) :: seen) ds
      | none => d.errors sourceNames false ++ functionsErrors sourceNames seen ds

/-- `validate_functions`. -/
def validateFunctions (cfg : WorkspaceConfig) : List FunctionInvalid :=
  functionsErrors (cfg.sources.map fun s => s.name) (builtins.map fun b => (b.ns, b.name))
    cfg.declaredFunctions

/-! ## Accepted functions -/

/-- What an accepted argument list has: names that differ, no default of a required argument, and the
required ones first. -/
structure ArgsAccepted (args : List FunctionArg) : Prop where
  names : (args.map FunctionArg.name).Nodup
  idents : ∀ a ∈ args, isValidFunctionIdent a.name = true
  defaults : ∀ a ∈ args, a.required = true → a.default = none
  order : args.Pairwise fun a b => b.required = true → a.required = true

/-- The loop is quiet on an accepted list whose names are new, and which has no required argument
after an optional one was seen. -/
lemma argsErrors_eq_nil {seen : List String} {optionalSeen : Bool} {args : List FunctionArg}
    (h : argsErrors seen optionalSeen args = []) :
    ArgsAccepted args ∧ (∀ a ∈ args, a.name ∉ seen) ∧
      (optionalSeen = true → ∀ a ∈ args, a.required = false) := by
  induction args generalizing seen optionalSeen with
  | nil =>
      exact ⟨⟨List.nodup_nil, List.forall_mem_nil _, List.forall_mem_nil _, .nil⟩,
        List.forall_mem_nil _, fun _ => List.forall_mem_nil _⟩
  | cons a args ih =>
      rw [argsErrors, List.append_eq_nil_iff] at h
      obtain ⟨ha, hargs⟩ := h
      obtain ⟨haccepted, hfresh, hoptional⟩ := ih hargs
      simp only [argErrors, List.append_eq_nil_iff, errorIf_eq_nil] at ha
      obtain ⟨⟨⟨⟨hident, hseen⟩, -⟩, hdefault⟩, horder⟩ := ha
      have hnew : a.name ∉ seen := by simpa using hseen
      refine ⟨⟨?_, ?_, ?_, ?_⟩, ?_, ?_⟩
      · rw [List.map_cons, List.nodup_cons]
        refine ⟨fun hmem => ?_, haccepted.names⟩
        obtain ⟨b, hb, hname⟩ := List.mem_map.mp hmem
        exact hfresh b hb (hname ▸ List.mem_cons_self)
      · exact List.forall_mem_cons.mpr ⟨by simpa using hident, haccepted.idents⟩
      · refine List.forall_mem_cons.mpr ⟨fun hrequired => ?_, haccepted.defaults⟩
        simpa [hrequired] using hdefault
      · refine List.pairwise_cons.mpr ⟨fun b hb hrequired => ?_, haccepted.order⟩
        by_contra hnot
        have hopt : (optionalSeen || !a.required) = true := by simp [Bool.eq_false_iff.mpr hnot]
        rw [hoptional hopt b hb] at hrequired
        cases hrequired
      · exact List.forall_mem_cons.mpr ⟨hnew, fun b hb hmem =>
          hfresh b hb (List.mem_cons_of_mem _ hmem)⟩
      · intro hopt
        refine List.forall_mem_cons.mpr ⟨by simpa [hopt] using horder, hoptional (by simp [hopt])⟩

/-- What an accepted function has. -/
structure FunctionAccepted (ns : String) (f : FunctionDecl) : Prop where
  ns : isValidFunctionIdent ns = true
  name : isValidFunctionIdent f.name = true
  args : ArgsAccepted f.args

lemma oneFunctionErrors_eq_nil {ns : String} {kind : FunctionKind} {standalone : Bool}
    {f : FunctionDecl} (h : oneFunctionErrors ns kind standalone f = []) : FunctionAccepted ns f := by
  simp only [oneFunctionErrors, List.append_eq_nil_iff, errorIf_eq_nil] at h
  obtain ⟨⟨⟨⟨⟨hname, hns⟩, hargs⟩, -⟩, -⟩, -⟩ := h
  exact ⟨by simpa using hns, by simpa using hname, (argsErrors_eq_nil hargs).1⟩

/-- A function without errors has a place, where it is new and accepted. -/
lemma errors_eq_nil {sourceNames : List String} {duplicate : Bool} {d : DeclaredFunction}
    (h : d.errors sourceNames duplicate = []) :
    duplicate = false ∧ ∃ ns kind, d.place = some (ns, kind) ∧ FunctionAccepted ns d.decl := by
  obtain ⟨source, f⟩ := d
  cases source with
  | some src =>
      have h : attachedErrors src duplicate f = [] := List.map_eq_nil_iff.mp h
      unfold attachedErrors at h
      unfold DeclaredFunction.place
      dsimp only
      cases hkind : FunctionKind.forSource src.kind with
      | none => simp [hkind] at h
      | some kind =>
          rw [hkind] at h
          simp only [List.append_eq_nil_iff, errorIf_eq_nil] at h
          obtain ⟨-, ⟨-, hone⟩, hdup⟩ := h
          exact ⟨hdup, src.name, kind, rfl, oneFunctionErrors_eq_nil hone⟩
  | none =>
      have h : standaloneErrors sourceNames duplicate f = [] := List.map_eq_nil_iff.mp h
      unfold standaloneErrors at h
      unfold DeclaredFunction.place
      dsimp only
      cases hns : f.ns with
      | none => simp [hns] at h
      | some ns =>
          cases hkind : f.kind with
          | none => simp [hns, hkind] at h
          | some kind =>
              rw [hns, hkind] at h
              simp only [List.append_eq_nil_iff, errorIf_eq_nil] at h
              obtain ⟨⟨-, hone⟩, hdup⟩ := h
              exact ⟨hdup, ns, kind, rfl, oneFunctionErrors_eq_nil hone⟩

/-- The pair that a function is registered under. -/
def DeclaredFunction.key (d : DeclaredFunction) : Option (String × String) :=
  d.place.map fun place => (place.1, d.decl.name)

lemma functionsErrors_eq_nil {sourceNames : List String} {seen : List (String × String)}
    {ds : List DeclaredFunction} (h : functionsErrors sourceNames seen ds = []) :
    (∀ d ∈ ds, ∃ ns kind, d.place = some (ns, kind) ∧ FunctionAccepted ns d.decl) ∧
      (ds.filterMap DeclaredFunction.key).Nodup ∧
        ∀ key ∈ ds.filterMap DeclaredFunction.key, key ∉ seen := by
  induction ds generalizing seen with
  | nil => exact ⟨List.forall_mem_nil _, List.nodup_nil, List.forall_mem_nil _⟩
  | cons d ds ih =>
      cases hplace : d.place with
      | none =>
          rw [functionsErrors, hplace, List.append_eq_nil_iff] at h
          obtain ⟨-, ns, kind, hsome, -⟩ := errors_eq_nil h.1
          rw [hplace] at hsome
          cases hsome
      | some place =>
          obtain ⟨ns, kind⟩ := place
          rw [functionsErrors, hplace, List.append_eq_nil_iff] at h
          obtain ⟨hnew, ns', kind', hsome, haccepted⟩ := errors_eq_nil h.1
          obtain ⟨hall, hnodup, hfresh⟩ := ih h.2
          rw [hplace] at hsome
          cases hsome
          have hkey : d.key = some (ns, d.decl.name) := by rw [DeclaredFunction.key, hplace]; rfl
          rw [List.filterMap_cons_some hkey]
          refine ⟨List.forall_mem_cons.mpr ⟨⟨ns, kind, hplace, haccepted⟩, hall⟩, ?_, ?_⟩
          · exact List.nodup_cons.mpr ⟨fun hmem => hfresh _ hmem List.mem_cons_self, hnodup⟩
          · refine List.forall_mem_cons.mpr ⟨by simpa using hnew, fun key hmem hseen => ?_⟩
            exact hfresh key hmem (List.mem_cons_of_mem _ hseen)

/-- A function of the engine is a declared one, under its place. -/
lemma mem_engineFunctions {cfg : WorkspaceConfig} {f : FunctionDef} (hf : f ∈ cfg.engineFunctions) :
    ∃ d ∈ cfg.declaredFunctions, d.place = some (f.ns, f.kind) ∧ d.decl.name = f.name ∧
      d.decl.args = f.args := by
  rw [WorkspaceConfig.engineFunctions] at hf
  rcases List.mem_append.mp hf with hf | hf
  · obtain ⟨src, hsrc, hf⟩ := List.mem_flatMap.mp hf
    cases hkind : FunctionKind.forSource src.kind with
    | none => simp [hkind] at hf
    | some kind =>
        rw [hkind] at hf
        obtain ⟨decl, hdecl, rfl⟩ := List.mem_map.mp hf
        refine ⟨⟨some src, decl⟩, ?_, ?_, rfl, rfl⟩
        · exact List.mem_append_left _
            (List.mem_flatMap.mpr ⟨src, hsrc, List.mem_map.mpr ⟨decl, hdecl, rfl⟩⟩)
        · rw [DeclaredFunction.place]
          dsimp only
          rw [hkind]
          rfl
  · obtain ⟨decl, hdecl, hf⟩ := List.mem_filterMap.mp hf
    cases hns : decl.ns with
    | none => simp [hns] at hf
    | some ns =>
        cases hkind : decl.kind with
        | none => simp [hns, hkind] at hf
        | some kind =>
            rw [hns, hkind] at hf
            cases hf
            refine ⟨⟨none, decl⟩, ?_, ?_, rfl, rfl⟩
            · exact List.mem_append_right _ (List.mem_map.mpr ⟨decl, hdecl, rfl⟩)
            · rw [DeclaredFunction.place]
              dsimp only
              rw [hns, hkind]
              rfl

/-- The functions that an engine registers: the builtins and the declared ones. -/
def WorkspaceConfig.functionDefs (cfg : WorkspaceConfig) : List FunctionDef :=
  builtins ++ cfg.engineFunctions

lemma builtins_idents : ∀ f ∈ builtins,
    isValidFunctionIdent f.ns = true ∧ isValidFunctionIdent f.name = true := by
  decide

/-- The names of the functions of an accepted configuration are identifiers. -/
lemma functionDefs_idents {cfg : WorkspaceConfig} (h : validateFunctions cfg = []) {f : FunctionDef}
    (hf : f ∈ cfg.functionDefs) :
    isValidFunctionIdent f.ns = true ∧ isValidFunctionIdent f.name = true := by
  rcases List.mem_append.mp hf with hf | hf
  · exact builtins_idents f hf
  · obtain ⟨d, hd, hplace, hname, -⟩ := mem_engineFunctions hf
    obtain ⟨ns, kind, hsome, haccepted⟩ := (functionsErrors_eq_nil h).1 d hd
    rw [hplace] at hsome
    cases hsome
    exact ⟨haccepted.ns, hname ▸ haccepted.name⟩

/-- The pair that an engine's function is registered under. -/
def FunctionDef.key (f : FunctionDef) : String × String := (f.ns, f.name)

lemma engineFunctions_keys (cfg : WorkspaceConfig) :
    cfg.engineFunctions.map FunctionDef.key = cfg.declaredFunctions.filterMap DeclaredFunction.key := by
  rw [WorkspaceConfig.engineFunctions, WorkspaceConfig.declaredFunctions, List.map_append,
    List.filterMap_append, List.map_flatMap, List.filterMap_flatMap, List.map_filterMap,
    List.filterMap_map]
  congr 1
  · congr 1
    funext src
    simp only [List.filterMap_map]
    cases hkind : FunctionKind.forSource src.kind with
    | none =>
        symm
        refine List.filterMap_eq_nil_iff.mpr fun f _ => ?_
        simp [DeclaredFunction.key, DeclaredFunction.place, hkind]
    | some kind =>
        rw [List.map_map, ← List.filterMap_eq_map]
        refine List.filterMap_congr fun f _ => ?_
        simp [DeclaredFunction.key, DeclaredFunction.place, hkind, FunctionDef.key,
          FunctionDecl.toEngine]
  · refine List.filterMap_congr fun f _ => ?_
    cases hns : f.ns <;> cases hkind : f.kind <;>
      simp [DeclaredFunction.key, DeclaredFunction.place, hns, hkind, FunctionDef.key,
        FunctionDecl.toEngine]

/-- Each function of an accepted configuration, and each builtin, has a name of its own. -/
lemma functionDefs_nodup {cfg : WorkspaceConfig} (h : validateFunctions cfg = []) :
    (cfg.functionDefs.map FunctionDef.key).Nodup := by
  obtain ⟨-, hnodup, hfresh⟩ := functionsErrors_eq_nil h
  rw [WorkspaceConfig.functionDefs, List.map_append, engineFunctions_keys]
  refine List.nodup_append.mpr ⟨by decide, hnodup, ?_⟩
  rintro key hbuiltin _ hkey rfl
  exact hfresh key hkey hbuiltin

end Config
end Pawrly
