import Pawrly.Config.Variables
import Pawrly.Lib.GuardedWalk

/-!
# Includes

`collect` and `include_tree` (`pawrly-config/src/assemble.rs`): both follow the `include:` patterns of a
configuration depth first, and report a cycle where a file comes up that they have visited.  What was
visited is never forgotten, so that a file that two others include is reported as well.
`detects_iff` says when the report is right.
-/

namespace Pawrly
namespace Config

open Http (Json)
open GuardedWalk

/-! ## Files -/

/-- The file system: reading, YAML, the matches of a pattern below a directory, and the paths, of
which there are finitely many canonical ones. -/
structure FileSystem where
  readToString : String → Except String String
  parseYaml : String → Except String Json
  glob : String → String → Except String (List (Except String String))
  pathLe : String → String → Bool
  parent : String → String
  canonical : String → String
  files : Finset String
  canonical_mem : ∀ dir pattern entries file, glob dir pattern = .ok entries →
    .ok file ∈ entries → canonical file ∈ files

/-- Why a walk ends without a result; running out of fuel is no error of the code. -/
inductive Stop
  | config (e : ConfigError)
  | fuel
  deriving DecidableEq

/-- `parse_include_patterns`. -/
def parseIncludePatterns (v : Option Json) (path : String) : Except ConfigError (List String) :=
  match v with
  | some (.arr items) => items.mapM fun
      | .str s => .ok s
      | _ => .error (.yaml (path ++ ": `include` entries must be strings"))
  | some .null | none => .ok []
  | some _ => .error (.yaml (path ++ ": `include` must be a list of paths"))

namespace FileSystem

variable (fs : FileSystem)

/-- Read a file and parse it. -/
def readYaml (path : String) : Except ConfigError Json :=
  match fs.readToString path with
  | .error msg => .error (.readFile path msg)
  | .ok raw => (fs.parseYaml raw).mapError fun e => .yaml (path ++ ": " ++ e)

/-- `glob_paths`, below the directory of a file. -/
def globPaths (path pattern : String) : Except ConfigError (List String) := do
  let entries ← (fs.glob (fs.parent path) pattern).mapError fun msg => .readFile pattern msg
  let out ← entries.mapM fun entry => entry.mapError fun msg => .readFile pattern msg
  if out = [] then .error (.readFile pattern "no files matched")
  else .ok (out.mergeSort fs.pathLe)

/-- The loop over the patterns of a file and their matches. -/
def includeLoop {σ : Type} (step : σ → String → Except Stop σ) (path : String)
    (patterns : List String) (st : σ) : Except Stop σ :=
  patterns.foldlM (fun st pattern => do
    let matched ← (fs.globPaths path pattern).mapError .config
    matched.foldlM step st) st

end FileSystem

/-- The text of a cycle: the files from the root to the one that came up again. -/
def cycleText (chain : List String) (file : String) : String := Text.join " → " (chain ++ [file])

/-! ## The include tree -/

inductive IncludeNode
  | mk (path : String) (children : List IncludeNode)

/-- The visited files and the chain from the root to the one at hand. -/
structure Walk where
  visited : List String
  chain : List String

/-- One match of `build_include_node`. -/
def includeNode (fs : FileSystem) (recurse : String → Walk → Except Stop (IncludeNode × Walk))
    (st : List IncludeNode × Walk) (file : String) : Except Stop (List IncludeNode × Walk) :=
  let (children, walk) := st
  let canon := fs.canonical file
  if canon ∈ walk.visited then .error (.config (.includeCycle (cycleText walk.chain file)))
  else do
    let (node, walk') ← recurse file ⟨canon :: walk.visited, walk.chain ++ [file]⟩
    .ok (children ++ [node], { walk' with chain := walk'.chain.dropLast })

/-- `build_include_node`. -/
def buildIncludeNode (fs : FileSystem) : ℕ → String → Walk → Except Stop (IncludeNode × Walk)
  | 0, _, _ => .error .fuel
  | fuel + 1, path, walk => do
      let tree ← (fs.readYaml path).mapError .config
      let patterns ← (parseIncludePatterns (tree.get? "include") path).mapError .config
      let (children, walk') ←
        fs.includeLoop (includeNode fs (buildIncludeNode fs fuel)) path patterns ([], walk)
      .ok (.mk path children, walk')

/-- `include_tree`; a walk visits no more files than there are. -/
def includeTree (fs : FileSystem) (root : String) : Except Stop IncludeNode :=
  (buildIncludeNode fs (fs.files.card + 1) root ⟨[fs.canonical root], [root]⟩).map Prod.fst

/-! ## Collecting -/

/-- What a file brings: its sources, `variables:`, secrets, models and functions, and its patterns. -/
structure Contribution where
  sources : List Json := []
  vars : Option Json := none
  secrets : List Json := []
  models : List Json := []
  functions : List Json := []
  patterns : List String

/-- A list that may be absent or null. -/
def listAt (path key : String) (v : Option Json) : Except ConfigError (List Json) :=
  match v with
  | some (.arr items) => .ok items
  | some .null | none => .ok []
  | some _ => .error (.yaml (path ++ ": `" ++ key ++ "` must be a list"))

/-- The keys that a file may not have: a bare source has a name of its own. -/
def rootOnlyKeys (isRoot isSingleSource : Bool) : List String :=
  if isRoot then []
  else if isSingleSource then ["version", "defaults"]
  else ["version", "name", "defaults"]

/-- The `variables:` of a fragment; those of the root stay where they are. -/
def fragmentVars (isRoot : Bool) : Option Json → Option Json
  | some .null | none => none
  | some vars => if isRoot then none else some vars

/-- The first key that only the root may have. -/
def checkRootOnly (path : String) (fields : List (String × Json)) (rootOnly : List String) :
    Except ConfigError Unit :=
  match rootOnly.find? fun key => (fields.lookup key).isSome with
  | some key => .error (.source path ("key `" ++ key ++ "` is only allowed in the root config"))
  | none => .ok ()

/-- The part of `collect` before the loop. -/
def contentsOf (tree : Json) (path : String) (isRoot : Bool) : Except ConfigError Contribution :=
  match tree with
  | .obj fields =>
      let isSingleSource := !isRoot && (fields.lookup "kind").isSome
      do
        checkRootOnly path fields (rootOnlyKeys isRoot isSingleSource)
        let models ← listAt path "models" (if isRoot then none else fields.lookup "models")
        if isSingleSource then
          let patterns ← parseIncludePatterns (fields.lookup "include") path
          let body := fields.filter fun f => f.1 ≠ "models" && f.1 ≠ "include"
          return { sources := [.obj body], models := models, patterns := patterns }
        else
          let sources ← listAt path "sources" (fields.lookup "sources")
          let secrets ← listAt path "secrets" (fields.lookup "secrets")
          let functions ← listAt path "functions" (fields.lookup "functions")
          let patterns ← parseIncludePatterns (fields.lookup "include") path
          return {
            sources, secrets, models, functions, patterns
            vars := fragmentVars isRoot (fields.lookup "variables") }
  | _ => .error (.yaml (path ++ ": top-level config must be a mapping"))

/-- The accumulators of `collect`. -/
structure Collected where
  sources : List Json := []
  origins : List String := []
  sourceChains : List (List String) := []
  fragVars : OrderedMap String Json := .empty
  secrets : List Json := []
  models : List Json := []
  modelOrigins : List String := []
  functions : List Json := []
  functionOrigins : List String := []
  visited : List String
  chain : List String

/-- Take what a file brings. -/
def Collected.add (st : Collected) (path : String) (c : Contribution) : Collected :=
  { st with
    sources := st.sources ++ c.sources
    origins := st.origins ++ c.sources.map fun _ => path
    sourceChains := st.sourceChains ++ c.sources.map fun _ => st.chain
    fragVars := match c.vars with
      | some vars => st.fragVars.insert path vars
      | none => st.fragVars
    secrets := st.secrets ++ c.secrets
    models := st.models ++ c.models
    modelOrigins := st.modelOrigins ++ c.models.map fun _ => path
    functions := st.functions ++ c.functions
    functionOrigins := st.functionOrigins ++ c.functions.map fun _ => path }

/-- One match of `collect`. -/
def includeFile (fs : FileSystem) (recurse : String → Collected → Except Stop Collected)
    (st : Collected) (file : String) : Except Stop Collected :=
  let canon := fs.canonical file
  if canon ∈ st.visited then .error (.config (.includeCycle (cycleText st.chain file)))
  else do
    let st' ← recurse file { st with visited := canon :: st.visited, chain := st.chain ++ [file] }
    .ok { st' with chain := st'.chain.dropLast }

/-- `collect`, with the collecting of an included file. -/
def collect (fs : FileSystem) (recurse : String → Collected → Except Stop Collected) (tree : Json)
    (path : String) (isRoot : Bool) (st : Collected) : Except Stop Collected := do
  let contents ← (contentsOf tree path isRoot).mapError .config
  fs.includeLoop (includeFile fs recurse) path contents.patterns (st.add path contents)

/-- Read an included file, and collect it. -/
def collectFile (fs : FileSystem) : ℕ → String → Collected → Except Stop Collected
  | 0, _, _ => .error .fuel
  | fuel + 1, file, st => do
      let sub ← (fs.readYaml file).mapError .config
      collect fs (collectFile fs fuel) sub file false st

/-- The tree of the root, as the loader reads it. -/
def loadRoot (fs : FileSystem) (root : String) : Except ConfigError Json :=
  match fs.readToString root with
  | .error msg => .error (.io msg)
  | .ok raw => (fs.parseYaml raw).mapError .yaml

/-- `assemble` of a root file, up to the end of `collect`. -/
def assembleFiles (fs : FileSystem) (root : String) : Except Stop Collected := do
  let tree ← (loadRoot fs root).mapError .config
  collect fs (collectFile fs fs.files.card) tree root true
    { visited := [fs.canonical root], chain := [root] }

/-! ## The include graph -/

/-- A file includes those that its patterns match. -/
def Includes (fs : FileSystem) (path file : String) : Prop :=
  ∃ tree patterns pattern matched, fs.readYaml path = .ok tree ∧
    parseIncludePatterns (tree.get? "include") path = .ok patterns ∧ pattern ∈ patterns ∧
      fs.globPaths path pattern = .ok matched ∧ file ∈ matched

/-- A chain of includes from the root comes back to a file that it has passed. -/
def Cyclic (fs : FileSystem) (root : String) : Prop :=
  ∃ chain, List.IsChain (Includes fs) (root :: chain) ∧
    ¬ ((root :: chain).map fs.canonical).Nodup

/-- Both walks come to an end, and report a cycle exactly when there is one. -/
structure Detects (fs : FileSystem) (root : String) : Prop where
  terminates : assembleFiles fs root ≠ .error .fuel ∧ includeTree fs root ≠ .error .fuel
  collect : (∃ text, (assembleFiles fs root).map (fun _ => ()) =
    .error (.config (.includeCycle text))) ↔ Cyclic fs root
  tree : (∃ text, (includeTree fs root).map (fun _ => ()) =
    .error (.config (.includeCycle text))) ↔ Cyclic fs root

/-! ## Walks -/

/-- A file at the place where a walk meets it; the root is collected in a way of its own. -/
abbrev Node := String × Bool

section

variable (fs : FileSystem)

def nodeKey (node : Node) : String := fs.canonical node.1

/-- The matches of some patterns, up to what fails. -/
def entriesOf (path : String) (patterns : List String) : List (Option Node) :=
  patterns.flatMap fun pattern =>
    match fs.globPaths path pattern with
    | .error _ => [none]
    | .ok matched => matched.map fun file => some (file, false)

/-- The entries that the include tree has below a file, unless it refuses the file. -/
def treeEntries (node : Node) : Option (List (Option Node)) :=
  match fs.readYaml node.1 with
  | .error _ => none
  | .ok tree =>
      match parseIncludePatterns (tree.get? "include") node.1 with
      | .error _ => none
      | .ok patterns => some (entriesOf fs node.1 patterns)

/-- The entries that are collected below a file, unless it is refused. -/
def collectEntries (node : Node) : Option (List (Option Node)) :=
  match fs.readYaml node.1 with
  | .error _ => none
  | .ok tree =>
      match contentsOf tree node.1 node.2 with
      | .error _ => none
      | .ok contents => some (entriesOf fs node.1 contents.patterns)

end

/-- The end of a walk, by its result. -/
def outcomeOf {σ : Type} (visited : σ → List String) : Except Stop σ → Outcome String
  | .ok st => .done (visited st)
  | .error .fuel => .cut
  | .error (.config (.includeCycle _)) => .repeated
  | .error (.config _) => .refused

/-- An error that reports no cycle. -/
def NoCycle (e : ConfigError) : Prop := ∀ text, e ≠ .includeCycle text

section

variable {fs : FileSystem} {σ τ : Type} {visited : σ → List String}

lemma outcomeOf_config {e : ConfigError} (h : NoCycle e) :
    outcomeOf visited (.error (.config e)) = .refused := by
  cases e with
  | includeCycle text => exact absurd rfl (h text)
  | _ => rfl

lemma outcomeOf_error_andThen (e : Stop) (steps : List (Step String)) :
    (outcomeOf visited (.error e)).andThen steps = outcomeOf visited (.error e) := by
  cases e with
  | fuel => rfl
  | config e => cases e <;> rfl

/-- A result that is gone on with. -/
lemma outcomeOf_bind {x : Except Stop σ} {f : σ → Except Stop σ} {steps : List (Step String)}
    (h : ∀ st, outcomeOf visited (f st) = scan (visited st) steps) :
    outcomeOf visited (x >>= f) = (outcomeOf visited x).andThen steps := by
  cases x with
  | error e => exact (outcomeOf_error_andThen e steps).symm
  | ok st => exact h st

/-! ### Errors that report no cycle -/

open Fallible (FailsWith)

lemma readYaml_noCycle (path : String) : FailsWith NoCycle (fs.readYaml path) := by
  unfold FileSystem.readYaml
  split
  · exact .error nofun
  · exact .mapError fun e => nofun

lemma parseIncludePatterns_noCycle (v : Option Json) (path : String) :
    FailsWith NoCycle (parseIncludePatterns v path) := by
  unfold parseIncludePatterns
  split
  · refine .mapM (fun item => ?_) _
    split
    · exact .ok _
    · exact .error nofun
  · exact .ok _
  · exact .ok _
  · exact .error nofun

lemma globPaths_noCycle (path pattern : String) : FailsWith NoCycle (fs.globPaths path pattern) := by
  unfold FileSystem.globPaths
  refine .bind (.mapError fun e => nofun) fun entries => ?_
  refine .bind (.mapM (fun entry => .mapError fun e => nofun) entries) fun out => ?_
  split_ifs
  · exact .error nofun
  · exact .ok _

lemma listAt_noCycle (path key : String) (v : Option Json) : FailsWith NoCycle (listAt path key v) := by
  unfold listAt
  split
  · exact .ok _
  · exact .ok _
  · exact .ok _
  · exact .error nofun

lemma checkRootOnly_noCycle (path : String) (fields : List (String × Json))
    (rootOnly : List String) : FailsWith NoCycle (checkRootOnly path fields rootOnly) := by
  unfold checkRootOnly
  split
  · exact .error nofun
  · exact .ok _

lemma contentsOf_noCycle (tree : Json) (path : String) (isRoot : Bool) :
    FailsWith NoCycle (contentsOf tree path isRoot) := by
  unfold contentsOf
  split
  · refine .bind (checkRootOnly_noCycle _ _ _) fun _ => ?_
    refine .bind (listAt_noCycle _ _ _) fun models => ?_
    split
    · exact .bind (parseIncludePatterns_noCycle _ _) fun patterns => .ok _
    · refine .bind (listAt_noCycle _ _ _) fun sources => ?_
      refine .bind (listAt_noCycle _ _ _) fun secrets => ?_
      refine .bind (listAt_noCycle _ _ _) fun functions => ?_
      exact .bind (parseIncludePatterns_noCycle _ _) fun patterns => .ok _
  · exact .error nofun

/-- What a file brings has the patterns of its `include:`. -/
lemma contentsOf_patterns {tree : Json} {path : String} {isRoot : Bool} {contents : Contribution}
    (h : contentsOf tree path isRoot = .ok contents) :
    parseIncludePatterns (tree.get? "include") path = .ok contents.patterns := by
  unfold contentsOf at h
  split at h
  · dsimp only at h
    obtain ⟨_, _, h⟩ := Fallible.bind_eq_ok.mp h
    obtain ⟨models, _, h⟩ := Fallible.bind_eq_ok.mp h
    split at h
    · obtain ⟨patterns, hpatterns, h⟩ := Fallible.bind_eq_ok.mp h
      cases h
      exact hpatterns
    · obtain ⟨sources, _, h⟩ := Fallible.bind_eq_ok.mp h
      obtain ⟨secrets, _, h⟩ := Fallible.bind_eq_ok.mp h
      obtain ⟨functions, _, h⟩ := Fallible.bind_eq_ok.mp h
      obtain ⟨patterns, hpatterns, h⟩ := Fallible.bind_eq_ok.mp h
      cases h
      exact hpatterns
  · cases h

/-! ### Walks as scans -/

/-- The loop over the matches takes the steps of the entries. -/
lemma outcomeOf_includeLoop {step : σ → String → Except Stop σ}
    {expand : Node → Option (List (Option Node))} {depth : ℕ}
    (hstep : ∀ st file, outcomeOf visited (step st file) =
      scan (visited st) (entrySteps expand (nodeKey fs) depth (some (file, false))))
    (path : String) (patterns : List String) (st : σ) :
    outcomeOf visited (fs.includeLoop step path patterns st) =
      scan (visited st)
        ((entriesOf fs path patterns).flatMap (entrySteps expand (nodeKey fs) depth)) := by
  have hfiles : ∀ (files : List String) (st : σ), outcomeOf visited (files.foldlM step st) =
      scan (visited st) ((files.map fun file => some (file, false)).flatMap
        (entrySteps expand (nodeKey fs) depth)) := by
    intro files
    induction files with
    | nil => exact fun st => rfl
    | cons file files ih =>
        intro st
        rw [List.foldlM_cons, outcomeOf_bind ih, hstep, List.map_cons, List.flatMap_cons,
          scan_append]
  induction patterns generalizing st with
  | nil => rfl
  | cons pattern patterns ih =>
      rw [FileSystem.includeLoop, List.foldlM_cons]
      refine (outcomeOf_bind ih).trans ?_
      have hcons : entriesOf fs path (pattern :: patterns) =
          entriesOf fs path [pattern] ++ entriesOf fs path patterns := by
        rw [entriesOf, entriesOf, entriesOf, ← List.flatMap_append, List.singleton_append]
      rw [hcons, List.flatMap_append, scan_append]
      congr 1
      rw [entriesOf, List.flatMap_singleton]
      cases hmatched : fs.globPaths path pattern with
      | error e =>
          have he : outcomeOf visited ((Except.error e : Except ConfigError (List String)).mapError
              Stop.config >>= fun matched => matched.foldlM step st) = .refused :=
            outcomeOf_config (globPaths_noCycle path pattern e hmatched)
          rw [he]
          rfl
      | ok matched => exact hfiles matched st

lemma outcomeOf_includeNode {expand : Node → Option (List (Option Node))} {depth : ℕ}
    {recurse : String → Walk → Except Stop (IncludeNode × Walk)}
    (hrec : ∀ file walk, outcomeOf (fun st => st.2.visited) (recurse file walk) =
      scan walk.visited (itinerary expand (nodeKey fs) depth (file, false)))
    (st : List IncludeNode × Walk) (file : String) :
    outcomeOf (fun st => st.2.visited) (includeNode fs recurse st file) =
      scan st.2.visited (entrySteps expand (nodeKey fs) depth (some (file, false))) := by
  obtain ⟨children, walk⟩ := st
  rw [entrySteps, scan]
  unfold includeNode
  by_cases hmem : fs.canonical file ∈ walk.visited
  · simp only [nodeKey, hmem, if_true]
    rfl
  · simp only [nodeKey, hmem, if_false]
    rw [← hrec file ⟨fs.canonical file :: walk.visited, walk.chain ++ [file]⟩]
    rcases recurse file _ with e | ⟨node, walk'⟩
    · cases e with
      | fuel => rfl
      | config e => cases e <;> rfl
    · rfl

lemma outcomeOf_includeFile {expand : Node → Option (List (Option Node))} {depth : ℕ}
    {recurse : String → Collected → Except Stop Collected}
    (hrec : ∀ file st, outcomeOf Collected.visited (recurse file st) =
      scan st.visited (itinerary expand (nodeKey fs) depth (file, false)))
    (st : Collected) (file : String) :
    outcomeOf Collected.visited (includeFile fs recurse st file) =
      scan st.visited (entrySteps expand (nodeKey fs) depth (some (file, false))) := by
  rw [entrySteps, scan]
  unfold includeFile
  by_cases hmem : fs.canonical file ∈ st.visited
  · simp only [nodeKey, hmem, if_true]
    rfl
  · simp only [nodeKey, hmem, if_false]
    rw [← hrec file
      { st with visited := fs.canonical file :: st.visited, chain := st.chain ++ [file] }]
    rcases recurse file _ with e | st'
    · cases e with
      | fuel => rfl
      | config e => cases e <;> rfl
    · rfl

/-- `build_include_node` walks along its entries. -/
lemma outcomeOf_buildIncludeNode (fuel : ℕ) (node : Node) (walk : Walk) :
    outcomeOf (fun st => st.2.visited) (buildIncludeNode fs fuel node.1 walk) =
      scan walk.visited (itinerary (treeEntries fs) (nodeKey fs) fuel node) := by
  induction fuel generalizing node walk with
  | zero => rfl
  | succ fuel ih =>
      unfold buildIncludeNode
      cases htree : fs.readYaml node.1 with
      | error e =>
          have hnone : treeEntries fs node = none := by rw [treeEntries, htree]
          rw [itinerary_of_none hnone]
          exact outcomeOf_config (readYaml_noCycle node.1 e htree)
      | ok tree =>
          show outcomeOf _ ((parseIncludePatterns (tree.get? "include") node.1).mapError Stop.config
            >>= fun patterns => fs.includeLoop (includeNode fs (buildIncludeNode fs fuel)) node.1
              patterns ([], walk) >>= fun st => .ok (IncludeNode.mk node.1 st.1, st.2)) = _
          cases hpatterns : parseIncludePatterns (tree.get? "include") node.1 with
          | error e =>
              have hnone : treeEntries fs node = none := by
                simp only [treeEntries, htree, hpatterns]
              rw [itinerary_of_none hnone]
              exact outcomeOf_config (parseIncludePatterns_noCycle _ _ e hpatterns)
          | ok patterns =>
              have hsome : treeEntries fs node = some (entriesOf fs node.1 patterns) := by
                simp only [treeEntries, htree, hpatterns]
              rw [itinerary_of_some hsome]
              have hloop := outcomeOf_includeLoop
                (outcomeOf_includeNode fun file walk => ih (file, false) walk) node.1 patterns
                ([], walk)
              rw [← hloop]
              show outcomeOf _ (fs.includeLoop _ node.1 patterns ([], walk) >>= _) = _
              rcases fs.includeLoop (includeNode fs (buildIncludeNode fs fuel)) node.1 patterns
                ([], walk) with e | ⟨children, walk'⟩
              · cases e with
                | fuel => rfl
                | config e => cases e <;> rfl
              · rfl

/-- `collect` walks along its entries. -/
lemma outcomeOf_collect {node : Node} {tree : Json} {fuel : ℕ} (htree : fs.readYaml node.1 = .ok tree)
    (hrec : ∀ file st, outcomeOf Collected.visited (collectFile fs fuel file st) =
      scan st.visited (itinerary (collectEntries fs) (nodeKey fs) fuel (file, false)))
    (st : Collected) :
    outcomeOf Collected.visited (collect fs (collectFile fs fuel) tree node.1 node.2 st) =
      scan st.visited (itinerary (collectEntries fs) (nodeKey fs) (fuel + 1) node) := by
  unfold collect
  cases hcontents : contentsOf tree node.1 node.2 with
  | error e =>
      have hnone : collectEntries fs node = none := by
        simp only [collectEntries, htree, hcontents]
      rw [itinerary_of_none hnone]
      exact outcomeOf_config (contentsOf_noCycle _ _ _ e hcontents)
  | ok contents =>
      have hsome : collectEntries fs node = some (entriesOf fs node.1 contents.patterns) := by
        simp only [collectEntries, htree, hcontents]
      rw [itinerary_of_some hsome]
      exact outcomeOf_includeLoop (outcomeOf_includeFile hrec) node.1 contents.patterns
        (st.add node.1 contents)

lemma outcomeOf_collectFile (fuel : ℕ) (file : String) (st : Collected) :
    outcomeOf Collected.visited (collectFile fs fuel file st) =
      scan st.visited (itinerary (collectEntries fs) (nodeKey fs) fuel (file, false)) := by
  induction fuel generalizing file st with
  | zero => rfl
  | succ fuel ih =>
      unfold collectFile
      cases htree : fs.readYaml file with
      | error e =>
          have hnone : collectEntries fs (file, false) = none := by rw [collectEntries, htree]
          rw [itinerary_of_none hnone]
          exact outcomeOf_config (readYaml_noCycle file e htree)
      | ok tree => exact @outcomeOf_collect fs (file, false) tree fuel htree ih st

/-! ## When the report is right -/

lemma outcomeOf_eq_cut {x : Except Stop σ} : outcomeOf visited x = .cut ↔ x = .error .fuel := by
  rcases x with (e | _) | st
  · cases e <;> simp [outcomeOf]
  · simp [outcomeOf]
  · simp [outcomeOf]

lemma outcomeOf_eq_repeated {x : Except Stop σ} {f : σ → τ} : outcomeOf visited x = .repeated ↔
    ∃ text, x.map f = .error (.config (.includeCycle text)) := by
  rcases x with (e | _) | st
  · cases e <;> simp [outcomeOf, Except.map]
  · simp [outcomeOf, Except.map]
  · simp [outcomeOf, Except.map]

lemma globPaths_mem {path pattern file : String} {matched : List String}
    (h : fs.globPaths path pattern = .ok matched) (hfile : file ∈ matched) :
    fs.canonical file ∈ fs.files := by
  obtain ⟨entries, hentries, h⟩ := Fallible.bind_eq_ok.mp h
  obtain ⟨out, hout, h⟩ := Fallible.bind_eq_ok.mp h
  split_ifs at h with hnil
  cases h
  rw [List.mem_mergeSort] at hfile
  obtain ⟨entry, hentry, hok⟩ := Fallible.mem_of_mapM hout hfile
  refine fs.canonical_mem _ pattern entries file (Fallible.mapError_eq_ok.mp hentries) ?_
  rwa [← Fallible.mapError_eq_ok.mp hok]

/-- Entries that follow the include graph. -/
structure Follows (fs : FileSystem) (entries : Node → Option (List (Option Node))) : Prop where
  keys : ∀ node es file, entries node = some es → some file ∈ es → nodeKey fs file ∈ fs.files
  edges : ∀ node es file, entries node = some es → Includes fs node.1 file → some (file, false) ∈ es

lemma mem_entriesOf {path : String} {patterns : List String} {node : Node} :
    some node ∈ entriesOf fs path patterns ↔ ∃ pattern matched, pattern ∈ patterns ∧
      fs.globPaths path pattern = .ok matched ∧ node.1 ∈ matched ∧ node.2 = false := by
  rw [entriesOf, List.mem_flatMap]
  refine exists_congr fun pattern => ?_
  cases hmatched : fs.globPaths path pattern with
  | error e => simp
  | ok matched =>
      obtain ⟨file, isRoot⟩ := node
      simp [eq_comm]

lemma entriesOf_keys {path : String} {patterns : List String} {node : Node}
    (h : some node ∈ entriesOf fs path patterns) : nodeKey fs node ∈ fs.files := by
  obtain ⟨pattern, matched, _, hmatched, hfile, _⟩ := mem_entriesOf.mp h
  exact globPaths_mem hmatched hfile

/-- Entries that are the matches of the patterns of a file follow the graph. -/
lemma follows_of_patterns {entries : Node → Option (List (Option Node))}
    (h : ∀ node es, entries node = some es → ∃ tree patterns, fs.readYaml node.1 = .ok tree ∧
      parseIncludePatterns (tree.get? "include") node.1 = .ok patterns ∧
        es = entriesOf fs node.1 patterns) : Follows fs entries := by
  constructor
  · intro node es file hes hfile
    obtain ⟨_, _, _, _, rfl⟩ := h node es hes
    exact entriesOf_keys hfile
  · rintro node es file hes ⟨tree, patterns, pattern, matched, htree, hpatterns, hpattern, hmatched,
      hfile⟩
    obtain ⟨tree', patterns', htree', hpatterns', rfl⟩ := h node es hes
    rw [htree] at htree'
    cases htree'
    rw [hpatterns] at hpatterns'
    cases hpatterns'
    exact mem_entriesOf.mpr ⟨pattern, matched, hpattern, hmatched, hfile, rfl⟩

lemma treeEntries_follows (fs : FileSystem) : Follows fs (treeEntries fs) := by
  refine follows_of_patterns fun node es h => ?_
  unfold treeEntries at h
  split at h
  · cases h
  · split at h
    · cases h
    · cases h
      exact ⟨_, _, ‹_›, ‹_›, rfl⟩

lemma collectEntries_follows (fs : FileSystem) : Follows fs (collectEntries fs) := by
  refine follows_of_patterns fun node es h => ?_
  unfold collectEntries at h
  split at h
  · cases h
  · split at h
    · cases h
    · cases h
      exact ⟨_, _, ‹_›, contentsOf_patterns ‹_›, rfl⟩

end

/-- The walk from a root along some entries, with depth for all files. -/
def walkFrom (fs : FileSystem) (entries : Node → Option (List (Option Node))) (root : String) :
    Outcome String :=
  scan [fs.canonical root] (itinerary entries (nodeKey fs) (fs.files.card + 1) (root, true))

/-- Without a cycle, no file comes up a second time before the walk is refused; with one, nothing is
refused before a file does. -/
def Orderly (fs : FileSystem) (entries : Node → Option (List (Option Node))) (root : String) : Prop :=
  (walkFrom fs entries root = .repeated → Cyclic fs root) ∧
    (Cyclic fs root → walkFrom fs entries root ≠ .refused)

section

variable {fs : FileSystem} {entries : Node → Option (List (Option Node))}

lemma walkFrom_ne_cut (h : Follows fs entries) (root : String) : walkFrom fs entries root ≠ .cut := by
  refine @scan_ne_cut Node String _ entries (nodeKey fs) fs.files h.keys _ _ _ ?_
  exact Nat.lt_succ_of_le (Finset.card_le_card Finset.sdiff_subset)

/-- A cycle does not let the walk come to its end. -/
lemma walkFrom_of_cyclic (h : Follows fs entries) {root : String} (hcyclic : Cyclic fs root)
    (seen : List String) : walkFrom fs entries root ≠ .done seen := by
  intro hdone
  obtain ⟨chain, hchain, hrepeat⟩ := hcyclic
  have hnodes : ∀ (file : String) (isRoot : Bool) (chain : List String),
      List.IsChain (Includes fs) (file :: chain) →
        List.IsChain (fun p q : Node => q.2 = false ∧ Includes fs p.1 q.1)
          ((file, isRoot) :: chain.map fun f => (f, false)) := by
    intro file isRoot chain
    induction chain generalizing file isRoot with
    | nil => exact fun _ => .singleton _
    | cons file' chain ih =>
        intro hchain
        obtain ⟨hedge, hrest⟩ := List.isChain_cons_cons.mp hchain
        exact .cons_cons ⟨rfl, hedge⟩ (ih file' false hrest)
  have hedges : ∀ p es (q : Node), entries p = some es → none ∉ es →
      q.2 = false ∧ Includes fs p.1 q.1 → some q ∈ es := by
    rintro p es ⟨file, isRoot⟩ hes _ ⟨rfl, hedge⟩
    exact h.edges p es file hes hedge
  have hdone' : scan [nodeKey fs (root, true)]
      (itinerary entries (nodeKey fs) (fs.files.card + 1) (root, true)) = .done seen := hdone
  have hnodup := nodup_of_done hedges hdone' (hnodes root true chain hchain)
  refine hrepeat ?_
  simpa [nodeKey, Function.comp_def] using hnodup

/-- A walk reports a cycle exactly when there is one, if what comes first on it is in order. -/
lemma repeated_iff_cyclic (h : Follows fs entries) (root : String) :
    (walkFrom fs entries root = .repeated ↔ Cyclic fs root) ↔ Orderly fs entries root := by
  constructor
  · intro hiff
    refine ⟨hiff.mp, fun hcyclic => ?_⟩
    rw [hiff.mpr hcyclic]
    simp
  · rintro ⟨hsound, hfirst⟩
    refine ⟨hsound, fun hcyclic => ?_⟩
    cases hwalk : walkFrom fs entries root with
    | done seen => exact absurd hwalk (walkFrom_of_cyclic h hcyclic seen)
    | repeated => rfl
    | refused => exact absurd hwalk (hfirst hcyclic)
    | cut => exact absurd hwalk (walkFrom_ne_cut h root)

end

lemma loadRoot_eq_ok {fs : FileSystem} {root : String} {tree : Json} :
    loadRoot fs root = .ok tree ↔ fs.readYaml root = .ok tree := by
  unfold loadRoot FileSystem.readYaml
  cases fs.readToString root with
  | error msg => simp
  | ok raw => simp only [Fallible.mapError_eq_ok]

lemma loadRoot_noCycle (fs : FileSystem) (root : String) :
    Fallible.FailsWith NoCycle (loadRoot fs root) := by
  unfold loadRoot
  split
  · exact .error nofun
  · exact .mapError fun e => nofun

/-- The files that are collected are walked along. -/
lemma outcomeOf_assembleFiles (fs : FileSystem) (root : String) :
    outcomeOf Collected.visited (assembleFiles fs root) = walkFrom fs (collectEntries fs) root := by
  unfold assembleFiles walkFrom
  cases hload : loadRoot fs root with
  | error e =>
      have hnone : collectEntries fs (root, true) = none := by
        cases htree : fs.readYaml root with
        | error e' => simp only [collectEntries, htree]
        | ok tree =>
            rw [loadRoot_eq_ok.mpr htree] at hload
            cases hload
      rw [itinerary_of_none hnone]
      exact outcomeOf_config (loadRoot_noCycle fs root e hload)
  | ok tree =>
      exact @outcomeOf_collect fs (root, true) tree fs.files.card (loadRoot_eq_ok.mp hload)
        (outcomeOf_collectFile fs.files.card)
        { visited := [fs.canonical root], chain := [root] }

/-- The include tree walks along its entries. -/
lemma includeTree_repeated_iff (fs : FileSystem) (root : String) :
    (∃ text, (includeTree fs root).map (fun _ => ()) = .error (.config (.includeCycle text))) ↔
      walkFrom fs (treeEntries fs) root = .repeated := by
  have hwalk := @outcomeOf_buildIncludeNode fs (fs.files.card + 1) (root, true)
    ⟨[fs.canonical root], [root]⟩
  have hnode : (includeTree fs root).map (fun _ => ()) =
      (buildIncludeNode fs (fs.files.card + 1) root ⟨[fs.canonical root], [root]⟩).map
        fun _ => () := by
    unfold includeTree
    cases buildIncludeNode fs (fs.files.card + 1) root ⟨[fs.canonical root], [root]⟩ <;> rfl
  rw [hnode, ← outcomeOf_eq_repeated, walkFrom, ← hwalk]

lemma includeTree_ne_fuel (fs : FileSystem) (root : String) : includeTree fs root ≠ .error .fuel := by
  intro hfuel
  have hwalk := @outcomeOf_buildIncludeNode fs (fs.files.card + 1) (root, true)
    ⟨[fs.canonical root], [root]⟩
  refine walkFrom_ne_cut (treeEntries_follows fs) root (hwalk.symm.trans ?_)
  rw [outcomeOf_eq_cut]
  unfold includeTree at hfuel
  cases hbuild : buildIncludeNode fs (fs.files.card + 1) root ⟨[fs.canonical root], [root]⟩ with
  | error e =>
      rw [hbuild] at hfuel
      cases hfuel
      rfl
  | ok st =>
      rw [hbuild] at hfuel
      cases hfuel

/-- **Cycles are detected exactly** when both walks are orderly. -/
theorem detects_iff (fs : FileSystem) (root : String) :
    Detects fs root ↔ Orderly fs (collectEntries fs) root ∧ Orderly fs (treeEntries fs) root := by
  have hcollect := outcomeOf_assembleFiles fs root
  have hcollects := repeated_iff_cyclic (collectEntries_follows fs) root
  have htrees := repeated_iff_cyclic (treeEntries_follows fs) root
  rw [← hcollect, outcomeOf_eq_repeated] at hcollects
  rw [← includeTree_repeated_iff] at htrees
  constructor
  · rintro ⟨_, hc, ht⟩
    exact ⟨hcollects.mp hc, htrees.mp ht⟩
  · rintro ⟨hc, ht⟩
    refine ⟨⟨fun hfuel => ?_, includeTree_ne_fuel fs root⟩, hcollects.mpr hc, htrees.mpr ht⟩
    exact walkFrom_ne_cut (collectEntries_follows fs) root
      (hcollect.symm.trans (outcomeOf_eq_cut.mpr hfuel))

/-- A root whose two patterns match one file: a cycle is reported, and there is none. -/
theorem overlappingPatterns_reported :
    let tree : Json := .obj [("include", .arr [.str "sources/a.yaml", .str "sources/*.yaml"])]
    let fs : FileSystem :=
      { readToString := .ok
        parseYaml := fun raw => .ok (if raw = "pawrly.yaml" then tree else .obj [])
        glob := fun _ _ => .ok [.ok "sources/a.yaml"]
        pathLe := fun _ _ => true
        parent := fun _ => "."
        canonical := id
        files := {"sources/a.yaml"}
        canonical_mem := by
          intro _ _ entries file h hfile
          cases h
          rw [List.mem_singleton] at hfile
          cases hfile
          exact Finset.mem_singleton_self _ }
    ¬ Detects fs "pawrly.yaml" := by
  intro tree fs hdetects
  have hglob : ∀ path pattern, fs.globPaths path pattern = .ok ["sources/a.yaml"] := by
    intro path pattern
    show (if ["sources/a.yaml"] = [] then
      (.error (.readFile pattern "no files matched") : Except ConfigError (List String))
      else .ok (["sources/a.yaml"].mergeSort fs.pathLe)) = _
    simp
  have hedges : ∀ path file, Includes fs path file → path = "pawrly.yaml" ∧ file = "sources/a.yaml" := by
    rintro path file ⟨tree', patterns, pattern, matched, htree, hpatterns, hpattern, hmatched, hfile⟩
    rw [hglob] at hmatched
    cases hmatched
    refine ⟨?_, List.mem_singleton.mp hfile⟩
    by_contra hpath
    have hleaf : fs.readYaml path = .ok (.obj []) := by
      simp [FileSystem.readYaml, fs, hpath, Except.mapError]
    rw [hleaf] at htree
    cases htree
    cases hpatterns
    cases hpattern
  have hreported : ∃ text, (includeTree fs "pawrly.yaml").map (fun _ => ()) =
      .error (.config (.includeCycle text)) := by
    have hroot : treeEntries fs ("pawrly.yaml", true) =
        some [some ("sources/a.yaml", false), some ("sources/a.yaml", false)] := by
      have hread : fs.readYaml "pawrly.yaml" = .ok tree := by
        simp [FileSystem.readYaml, fs, Except.mapError]
      have hpatterns : parseIncludePatterns (tree.get? "include") "pawrly.yaml" =
          .ok ["sources/a.yaml", "sources/*.yaml"] := rfl
      simp [treeEntries, hread, hpatterns, entriesOf, hglob]
    have hleaf : treeEntries fs ("sources/a.yaml", false) = some [] := by
      have hread : fs.readYaml "sources/a.yaml" = .ok (.obj []) := by
        simp [FileSystem.readYaml, fs, Except.mapError]
      have hpatterns : parseIncludePatterns ((Json.obj []).get? "include") "sources/a.yaml" =
          .ok [] := rfl
      simp [treeEntries, hread, hpatterns, entriesOf]
    rw [includeTree_repeated_iff, walkFrom, itinerary_of_some hroot]
    have hcard : fs.files.card = 0 + 1 := rfl
    simp only [hcard, List.flatMap_cons, entrySteps, itinerary_of_some hleaf, List.flatMap_nil,
      List.append_nil, List.cons_append, List.nil_append, nodeKey]
    have hcanonical : ∀ file, fs.canonical file = file := fun _ => rfl
    simp [hcanonical, scan]
  obtain ⟨chain, hchain, hrepeat⟩ := hdetects.tree.mp hreported
  refine hrepeat ?_
  cases chain with
  | nil => exact List.nodup_singleton _
  | cons file chain =>
      obtain ⟨hedge, hrest⟩ := List.isChain_cons_cons.mp hchain
      obtain ⟨_, rfl⟩ := hedges _ _ hedge
      cases chain with
      | nil => decide
      | cons file' chain =>
          obtain ⟨hedge', _⟩ := List.isChain_cons_cons.mp hrest
          exact absurd (hedges _ _ hedge').1 (by decide)

end Config
end Pawrly
