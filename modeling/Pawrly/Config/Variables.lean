import Pawrly.Config.Workspace
import Pawrly.Http.JsonWalk

/-!
# Declared variables

`pawrly-config/src/variables.rs`: the `variables:` blocks, the values of declared variables, and the
two walks over the references `${var:NAME}` of a source, the one that resolves them and the one that
only reports them.
-/

namespace Pawrly
namespace Config

open Http (Json)

/-- The errors of assembling a configuration and of the passes over its references. -/
inductive ConfigError
  | schema (path msg : String)
  | source (name msg : String)
  | variableInvalid (name msg : String)
  | unresolvedSecret (name : String)
  | unresolvedEnv (name : String)
  | readFile (path msg : String)
  | includeCycle (path : String)
  | io (msg : String)
  | yaml (msg : String)
  deriving DecidableEq

/-! ## Reading definitions -/

namespace Serde

/-- An `Option` field: it may be absent, and null is none. -/
def optional {α : Type} (read : Json → Option α) : Option Json → Option (Option α)
  | none => some none
  | some .null => some none
  | some v => (read v).map some

/-- A field with a default. -/
def defaulted {α : Type} (read : Json → Option α) (default : α) : Option Json → Option α
  | none => some default
  | some v => read v

def string : Json → Option String
  | .str s => some s
  | _ => none

/-- A variant without contents: its name, or an object of its name and null. -/
def unitVariant {α : Type} (variants : List (String × α)) : Json → Option α
  | .str s => variants.lookup s
  | .obj [(k, .null)] => variants.lookup k
  | _ => none

/-- The fields of a structure, by their names or in order. -/
def structFields (names : List String) (denyUnknown : Bool) : Json → Option (List (String × Json))
  | .obj fields =>
      if denyUnknown && !(fields.all fun f => names.contains f.1) then none else some fields
  | .arr items => if items.length ≤ names.length then some (names.zip items) else none
  | _ => none

end Serde

inductive VarKind
  | var
  | secret
  deriving DecidableEq

inductive VarType
  | string
  | integer
  | number
  | boolean
  | enum
  deriving DecidableEq

structure InputMethod where
  input : Option String
  prompt : Option Bool
  persist : Option String
  label : Option String

inductive CredentialMethod
  | input (method : InputMethod)
  | oauth (body : Json)

structure VariableDef where
  kind : VarKind
  type : Option VarType := none
  default : Option Json := none
  choices : List Json := []
  required : Bool := true
  description : Option String := none
  methods : List CredentialMethod := []
  oauth : Option Json := none
  input : Option String := none

namespace Serde

def varKind : Json → Option VarKind := unitVariant [("variable", .var), ("secret", .secret)]

def varType : Json → Option VarType :=
  unitVariant [("string", .string), ("integer", .integer), ("number", .number),
    ("boolean", .boolean), ("enum", .enum)]

def inputMethod (v : Json) : Option InputMethod := do
  let fields ← structFields ["input", "prompt", "persist", "label"] false v
  pure
    { input := ← optional string (fields.lookup "input")
      prompt := ← optional Json.asBool? (fields.lookup "prompt")
      persist := ← optional string (fields.lookup "persist")
      label := ← optional string (fields.lookup "label") }

/-- An entry of `methods:`, told by its `type`. -/
def credentialMethod : Json → Option CredentialMethod
  | .obj fields =>
      let body := Json.obj (fields.filter fun f => f.1 ≠ "type")
      match fields.lookup "type" with
      | some (.str "input") => (inputMethod body).map .input
      | some (.str "oauth") => some (.oauth body)
      | _ => none
  | .arr (.str "input" :: rest) => (inputMethod (.arr rest)).map .input
  | .arr (.str "oauth" :: rest) => some (.oauth (.arr rest))
  | _ => none

/-- `from_value` for a `VariableDef`. -/
def variableDef (raw : Json) : Option VariableDef := do
  let fields ← structFields ["kind", "type", "default", "choices", "required", "description",
    "methods", "oauth", "input"] true raw
  pure
    { kind := ← (fields.lookup "kind").bind varKind
      type := ← optional varType (fields.lookup "type")
      default := ← optional some (fields.lookup "default")
      choices := ← defaulted Json.asArray? [] (fields.lookup "choices")
      required := ← defaulted Json.asBool? true (fields.lookup "required")
      description := ← optional string (fields.lookup "description")
      methods := ← defaulted (fun v => v.asArray?.bind fun items => items.mapM credentialMethod) []
        (fields.lookup "methods")
      oauth := ← optional some (fields.lookup "oauth")
      input := ← optional string (fields.lookup "input") }

end Serde

/-! ## Definitions -/

def VarType.asStr : VarType → String
  | .string => "string"
  | .integer => "integer"
  | .number => "number"
  | .boolean => "boolean"
  | .enum => "enum"

/-- `is_i64() || is_u64()` of a number. -/
def isInteger (text : String) : Bool :=
  Text.parsesI64 text || (Text.parseUnsigned 18446744073709551615 text).isSome

def VarType.accepts : VarType → Json → Bool
  | .string, .str _ => true
  | .integer, .num text => isInteger text
  | .number, .num _ => true
  | .boolean, .bool _ => true
  | .enum, _ => true
  | _, _ => false

namespace VariableDef

def isDynamic (d : VariableDef) : Bool :=
  d.oauth.isSome || d.methods.any fun
    | .oauth _ => true
    | .input _ => false

def varType (d : VariableDef) : VarType := d.type.getD .string

def hasShorthand (d : VariableDef) : Bool := d.oauth.isSome || d.input.isSome

def inputKey (d : VariableDef) : Option String :=
  match d.input with
  | some key => some key
  | none => d.methods.findSome? fun
      | .input method => method.input
      | .oauth _ => none

end VariableDef

structure ScopedVar where
  declared : VariableDef
  scopeId : String

/-- The variables that a source sees. -/
abbrev VariableScope := OrderedMap String ScopedVar

def valueToString : Json → String
  | .str s => s
  | other => other.print

def credentialTerms : List String :=
  ["token", "secret", "password", "passwd", "pwd", "apikey", "accesskey", "privatekey", "bearer",
    "credential", "clientsecret"]

def isCredentialLike (name : String) : Bool :=
  let normalized := String.ofList ((name.toList.filter Char.isAlphanum).map Char.toLower)
  credentialTerms.any fun term => Text.contains term normalized

def validateVarType (name : String) (d : VariableDef) : Except ConfigError Unit :=
  match d.varType with
  | .enum =>
      if d.choices.isEmpty then
        .error (.variableInvalid name "`type: enum` requires a non-empty `choices` list")
      else
        match d.default with
        | some v =>
            if v ∈ d.choices then .ok ()
            else .error (.variableInvalid name
              ("`default` `" ++ valueToString v ++ "` is not one of the declared `choices`"))
        | none => .ok ()
  | other =>
      if !d.choices.isEmpty then
        .error (.variableInvalid name "`choices` is only valid with `type: enum`")
      else
        match d.default with
        | some v =>
            if other.accepts v then .ok ()
            else .error (.variableInvalid name
              ("`default` `" ++ valueToString v ++ "` does not match `type: " ++ other.asStr ++ "`"))
        | none => .ok ()

def validateDef (name : String) (d : VariableDef) : Except ConfigError Unit :=
  if (Text.stripPrefix "__pawrly" name).isSome then
    .error (.variableInvalid name "name may not start with `__pawrly`")
  else if !d.methods.isEmpty && d.hasShorthand then
    .error (.variableInvalid name
      "use either `methods:` or the `oauth`/`input` shorthand, not both")
  else
    match d.kind with
    | .secret =>
        if d.default.isSome then
          .error (.variableInvalid name "`default` is not allowed on a `kind: secret`")
        else if d.type.isSome then
          .error (.variableInvalid name
            "`type` is only valid on a `kind: variable`; secrets are always opaque strings")
        else if !d.choices.isEmpty then
          .error (.variableInvalid name
            "`choices` is only valid on a `kind: variable` with `type: enum`")
        else .ok ()
    | .var =>
        if isCredentialLike name then
          .error (.variableInvalid name "name looks like a credential; declare it as `kind: secret`")
        else if d.isDynamic then
          .error (.variableInvalid name ("a `kind: variable` may not use an `oauth` credential " ++
            "method (only `kind: secret` can)"))
        else validateVarType name d

/-- The entries of a block, in order.  `serdeError` is the library's text for a value that is not a
definition. -/
def parseEntries (serdeError : Json → String) (scopeId : String) :
    VariableScope → List (String × Json) → Except ConfigError VariableScope
  | out, [] => .ok out
  | out, (name, raw) :: rest =>
      match Serde.variableDef raw with
      | none => .error (.variableInvalid name (serdeError raw))
      | some d =>
          match validateDef name d with
          | .error e => .error e
          | .ok () => parseEntries serdeError scopeId (out.insert name ⟨d, scopeId⟩) rest

def parseBlock (serdeError : Json → String) (block : Json) (scopeId : String) :
    Except ConfigError VariableScope :=
  match block with
  | .obj fields => parseEntries serdeError scopeId .empty fields
  | _ => .error (.variableInvalid "<block>"
      "`variables:` must be a mapping of NAME to a definition")

def mergeInto (base overlay : VariableScope) : VariableScope := base.extend overlay.entries

/-! ## Values -/

/-- What resolving reads: the secret store, the persisted values, the environment, the files, the
library's reader of floats (the text of a finite number) and `build_dynamic_spec`. -/
structure Host where
  secrets : String → Except String (Option String)
  vars : Option (String → Except String (Option String))
  env : String → Option String
  file : String → Except String String
  parseF64 : String → Option String
  dynamicSpec : String → VariableDef → Except ConfigError Json

section Values

variable (host : Host)

def choiceMatches (choice : Json) (raw : String) : Bool :=
  match choice with
  | .str s => s == raw
  | other => valueToString other == raw

/-- A raw string as a value of the declared type. -/
def coerceStr (name : String) (ty : VarType) (choices : List Json) (raw : String) :
    Except ConfigError Json :=
  let t := Text.trim raw
  match ty with
  | .string => .ok (.str raw)
  | .integer =>
      match Text.parseSigned 64 t with
      | some n => .ok (.num (toString n))
      | none => .error (.variableInvalid name ("`" ++ raw ++ "` is not a valid integer"))
  | .number =>
      match Text.parseSigned 64 t with
      | some n => .ok (.num (toString n))
      | none =>
          match host.parseF64 t with
          | some text => .ok (.num text)
          | none => .error (.variableInvalid name ("`" ++ raw ++ "` is not a valid number"))
  | .boolean =>
      let word := String.ofList (t.toList.map Char.toLower)
      if ["true", "1", "yes", "on"].contains word then .ok (.bool true)
      else if ["false", "0", "no", "off"].contains word then .ok (.bool false)
      else .error (.variableInvalid name ("`" ++ raw ++ "` is not a valid boolean"))
  | .enum =>
      match choices.find? fun c => choiceMatches c raw with
      | some c => .ok c
      | none => .error (.variableInvalid name ("`" ++ raw ++
          "` is not one of the allowed choices: " ++ Text.join ", " (choices.map valueToString)))

def valueKey (varId : String) : String := "value::" ++ varId

/-- A persisted value, if any. -/
def storedLiteral (varId : String) : Except ConfigError (Option String) :=
  match host.vars with
  | none => .ok none
  | some get => (get (valueKey varId)).mapError .io

/-- The value of a static variable. -/
def resolveValue (name : String) (d : VariableDef) (scopeId : String) : Except ConfigError Json :=
  let input := d.inputKey.getD name
  match d.kind with
  | .secret =>
      match storedLiteral host (scopeId ++ "::" ++ name) with
      | .error e => .error e
      | .ok (some lit) => .ok (.str lit)
      | .ok none =>
          match host.secrets input with
          | .error e => .error (.io e)
          | .ok (some v) => .ok (.str v)
          | .ok none =>
              if !d.required then .ok .null
              else .error (.variableInvalid name ("no value for secret input `" ++ input ++
                "` (run `pawrly source connect`, set the env var, or add a secret-store entry)"))
  | .var =>
      match storedLiteral host (scopeId ++ "::" ++ name) with
      | .error e => .error e
      | .ok (some lit) => coerceStr host name d.varType d.choices lit
      | .ok none =>
          match host.env input with
          | some raw => coerceStr host name d.varType d.choices raw
          | none =>
              match d.default with
              | some v => .ok v
              | none =>
                  if !d.required then .ok .null
                  else .error (.variableInvalid name
                    ("no value: env `" ++ input ++ "` is unset and no `default` is declared"))

/-! ## References -/

/-- The name in a string that is exactly `${var:NAME}`. -/
def parseRef (s : String) : Option String := do
  let rest ← Text.stripPrefix "$\x7b" (Text.trim s)
  let body ← Text.stripSuffix "\x7d" rest
  let (head, target) ← Text.splitOnce ':' body
  if head = "var" then some target else none

/-- What the resolving pass collects: the bindings and the ids behind them, and in `resolved` the
calls of `resolve_value`, the name with the id of the value. -/
structure Pass where
  bindings : List DynamicVarBinding := []
  seen : List String := []
  resolved : List (String × String) := []

def varId (entry : ScopedVar) (name : String) : String := entry.scopeId ++ "::" ++ name

/-- A string that the resolving pass visits. -/
def visitRef (scope : VariableScope) (s : String) (st : Pass) :
    Pass × Except ConfigError Json :=
  match parseRef s with
  | none => (st, .ok (.str s))
  | some name =>
      match scope.get? name with
      | none => (st, .error (.variableInvalid name
          "referenced via `$\x7bvar:…\x7d` but not declared in this source's scope"))
      | some entry =>
          if entry.declared.isDynamic then
            let id := varId entry name
            match storedLiteral host id with
            | .error e => (st, .error e)
            | .ok (some lit) => (st, .ok (.str lit))
            | .ok none =>
                if id ∈ st.seen then (st, .ok (.str s))
                else
                  let st := { st with seen := id :: st.seen }
                  match host.dynamicSpec name entry.declared with
                  | .error e => (st, .error e)
                  | .ok spec =>
                      ({ st with bindings := st.bindings ++ [⟨name, id, spec⟩] }, .ok (.str s))
          else
            ({ st with resolved := st.resolved ++ [(name, varId entry name)] },
              resolveValue host name entry.declared entry.scopeId)

/-- The fields of a source but for its `variables:`. -/
def walkRootFields {σ : Type} (visit : String → σ → σ × Except ConfigError Json) :
    List (String × Json) → σ → σ × Except ConfigError (List (String × Json))
  | [], st => (st, .ok [])
  | (key, child) :: rest, st =>
      if key = "variables" then
        let r := walkRootFields visit rest st
        (r.1, r.2.map ((key, child) :: ·))
      else
        match child.walk visit st with
        | (st, .error e) => (st, .error e)
        | (st, .ok child) =>
            let r := walkRootFields visit rest st
            (r.1, r.2.map ((key, child) :: ·))

def resolveRefs (source : Json) (scope : VariableScope) : Pass × Except ConfigError Json :=
  match source with
  | .obj fields =>
      let r := walkRootFields (visitRef host scope) fields {}
      (r.1, r.2.map .obj)
  | source => source.walk (visitRef host scope) {}

/-- A static reference, the id of its value, and whether it resolves now. -/
structure StaticVarRef where
  name : String
  varId : String
  kind : VarKind
  inputKey : String
  resolves : Bool

/-- What the reporting walk collects. -/
structure Report where
  out : List StaticVarRef := []
  seen : List String := []

/-- A string that the reporting walk visits. -/
def collectRef (scope : VariableScope) (s : String) (st : Report) : Report :=
  match parseRef s with
  | none => st
  | some name =>
      match scope.get? name with
      | none => st
      | some entry =>
          if !entry.declared.isDynamic && !st.seen.contains name then
            { out := st.out ++
                [{ name := name
                   varId := varId entry name
                   kind := entry.declared.kind
                   inputKey := entry.declared.inputKey.getD name
                   resolves := (resolveValue host name entry.declared entry.scopeId).isOk }]
              seen := name :: st.seen }
          else st

def collectRootFields (f : String → Report → Report) : List (String × Json) → Report → Report
  | [], st => st
  | (key, child) :: rest, st =>
      if key = "variables" then collectRootFields f rest st
      else collectRootFields f rest (child.foldStrings f st)

def collectStaticRefs (source : Json) (scope : VariableScope) : List StaticVarRef :=
  match source with
  | .obj fields => (collectRootFields (collectRef host scope) fields {}).out
  | source => (source.foldStrings (collectRef host scope) {}).out

end Values

/-- A host whose environment sets a port. -/
def portHost : Host where
  secrets := fun _ => .ok none
  vars := none
  env := fun name => if name = "PORT" then some " 8080 " else none
  file := fun _ => .error "not found"
  parseF64 := fun _ => none
  dynamicSpec := fun name _ => .error (.variableInvalid name "`oauth` method requires `grant.type`")

def portVariable : VariableDef := { kind := .var, type := some .integer }

end Config
end Pawrly
