import Pawrly.Config.Variables

/-!
# Loading

`interpolate.rs` and the passes of `finish` (`pawrly-config/src/loader.rs`): the first pass resolves
the references `${secret:}`, `${env:}` and `${file:}` of the whole tree, the second one the references
`${var:}` of each source against the variables that it sees.
-/

namespace Pawrly
namespace Config

open Http (Json)

section Interpolation

variable (host : Host)

/-- `Path::join`. -/
def joinPath (base rest : String) : String :=
  if rest.toList.head? = some '/' then rest
  else if base = "" || base.toList.getLast? = some '/' then base ++ rest
  else base ++ "/" ++ rest

/-- A leading `~` stands for the home directory, when there is one. -/
def expandTilde (input : String) : String :=
  match Text.stripPrefix "~/" input, host.env "HOME" with
  | some rest, some home => joinPath home rest
  | _, home => if input = "~" then home.getD input else input

/-- The two sides of the colon in a string that is exactly `${…:…}`. -/
def splitRef (s : String) : Option (String × String) := do
  let rest ← Text.stripPrefix "$\x7b" (Text.trim s)
  let body ← Text.stripSuffix "\x7d" rest
  Text.splitOnce ':' body

/-- A single string; none where it is not a reference. -/
def resolveOne (s : String) : Except ConfigError (Option String) :=
  match splitRef s with
  | none => .ok none
  | some (head, target) =>
      if head = "secret" then
        match host.secrets target with
        | .error e => .error (.io e)
        | .ok (some v) => .ok (some v)
        | .ok none => .error (.unresolvedSecret target)
      else if head = "env" then
        match host.env target with
        | some v => .ok (some v)
        | none => .error (.unresolvedEnv target)
      else if head = "file" then
        let path := expandTilde host target
        match host.file path with
        | .ok content => .ok (some (Text.trim content))
        | .error msg => .error (.readFile path msg)
      else .ok none

/-- A string that the first pass visits. -/
def visitText (s : String) (u : Unit) : Unit × Except ConfigError Json :=
  (u, (resolveOne host s).map fun replaced => .str (replaced.getD s))

/-- `interpolate::resolve`. -/
def interpolate (value : Json) : Except ConfigError Json := (value.walk (visitText host) ()).2

end Interpolation

/-! ## The passes -/

/-- What `assemble` leaves: the tree, the blocks of variables of the included files, and the files
through which each source was included. -/
structure Assembled where
  tree : Json
  fragVars : OrderedMap String Json := .empty
  sourceChains : List (List String) := []

/-- What the second pass starts from: the sources after the first pass, and the variables that are
declared outside of them. -/
structure Declared where
  sources : List Json
  globals : VariableScope
  fragments : List (String × VariableScope)
  chains : List (List String)

section Passes

variable (host : Host) (serdeError : Json → String)

/-- The variables that the root declares. -/
def rootScope (tree : Json) : Except ConfigError VariableScope :=
  match tree.get? "variables" with
  | some block => parseBlock serdeError block "root"
  | none => .ok .empty

/-- The variables of an included file; its references are resolved here. -/
def fragmentScope (fragment : String × Json) : Except ConfigError (String × VariableScope) := do
  let block ← interpolate host fragment.2
  let entries ← parseBlock serdeError block fragment.1
  .ok (fragment.1, entries)

/-- The sources of a tree. -/
def sourcesOf (tree : Json) : List Json := ((tree.get? "sources").bind Json.asArray?).getD []

/-- The passes up to the walks over the sources. -/
def declare (asm : Assembled) : Except ConfigError Declared := do
  let tree ← interpolate host asm.tree
  let globals ← rootScope serdeError tree
  let fragments ← asm.fragVars.entries.mapM (fragmentScope host serdeError)
  .ok ⟨sourcesOf tree, globals, fragments, asm.sourceChains⟩

variable (d : Declared)

/-- The variables that a source inherits. -/
def Declared.inherited (chain : Option (List String)) : VariableScope :=
  (chain.getD []).foldl
    (fun scope file => (d.fragments.lookup file).elim scope (mergeInto scope)) d.globals

/-- The name of a source, for the ids of its variables. -/
def sourceName (source : Json) : String := ((source.get? "name").bind Serde.string).getD "?"

/-- `source_scope`. -/
def Declared.sourceScope (source : Json) (chain : Option (List String)) :
    Except ConfigError VariableScope :=
  match source.get? "variables" with
  | some block => do
      let own ← parseBlock serdeError block ("source:" ++ sourceName source)
      .ok (mergeInto (d.inherited chain) own)
  | none => .ok (d.inherited chain)

/-- The second pass over a source: the source with its bindings. -/
def Declared.loadSource (entry : Json × ℕ) : Except ConfigError (Json × List DynamicVarBinding) := do
  let scope ← d.sourceScope serdeError entry.1 d.chains[entry.2]?
  let pass := resolveRefs host entry.1 scope
  pass.2.map fun source => (source, pass.1.bindings)

/-- `finish` up to the check of the types: the sources with their bindings. -/
def load (asm : Assembled) : Except ConfigError (List (Json × List DynamicVarBinding)) := do
  let d ← declare host serdeError asm
  d.sources.zipIdx.mapM (d.loadSource host serdeError)

end Passes

end Config
end Pawrly
