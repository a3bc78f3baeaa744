import Pawrly.Config.Loader
import Pawrly.Config.VariableRefs
import Pawrly.Http.SourceAuth

/-!
# Resolved values as data

A string that was obtained by resolving a reference, from the store of persisted values or from the
environment is data: the second pass and the requests use it as it is.  The code knows a reference by
its text alone, so this holds as long as no resolved value has the text of a reference where it is read
as one (`data_iff`).
-/

namespace Pawrly
namespace Config

open Http (Json parseAuth resolveDynamic)
open EffectfulLoop Fallible

/-! ## Places -/

/-- A step into a value: a field of an object or an item of an array. -/
inductive Part
  | field (name : String)
  | item (position : ℕ)

/-- The value at a place. -/
def at? : List Part → Json → Option Json
  | [], v => some v
  | .field name :: place, .obj fields => (fields.lookup name).bind (at? place)
  | .item i :: place, .arr items => items[i]?.bind (at? place)
  | _ :: _, _ => none

/-- The value with another text at a place. -/
def putText (text : String) : List Part → Json → Json
  | [], _ => .str text
  | .field name :: place, .obj fields =>
      .obj (fields.map fun f => if f.1 = name then (f.1, putText text place f.2) else f)
  | .item i :: place, .arr items => .arr (items.modify i (putText text place))
  | _ :: _, v => v

/-- The text at a place of a config is the credential of that number: whatever text stands there
becomes the credential. -/
def Supplies (config : Json) (place : List Part) (k : ℕ) : Prop :=
  ∀ text, (parseAuth (putText text place config)).credentials[k]? = some text

/-! ## Where values come from -/

/-- The `default` in a definition as written. -/
def writtenDefault (definition : Json) : Option Json := do
  let fields ← Serde.structFields ["kind", "type", "default", "choices", "required", "description",
    "methods", "oauth", "input"] true definition
  fields.lookup "default"

/-- The default of the variable of a name, as the innermost block that declares it for a source has
it. -/
def Assembled.defaultOf (asm : Assembled) (source : Json) (chain : Option (List String))
    (name : String) : Option Json :=
  let blocks := (source.get? "variables").toList ++
    (chain.getD []).reverse.filterMap asm.fragVars.get? ++ (asm.tree.get? "variables").toList
  (blocks.findSome? (Json.get? name)).bind writtenDefault

section Provenance

variable (host : Host) (serdeError : Json → String) (asm : Assembled)

/-- A static variable has the value of its default. -/
def TakesDefault (name : String) (entry : ScopedVar) : Prop :=
  entry.declared.isDynamic = false ∧ entry.declared.kind = .var ∧
    storedLiteral host (varId entry name) = .ok none ∧
    host.env (entry.declared.inputKey.getD name) = none

/-- The reference to a dynamic variable stays for the requests. -/
def StaysReference (name : String) (entry : ScopedVar) : Prop :=
  entry.declared.isDynamic = true ∧ storedLiteral host (varId entry name) = .ok none

/-- The place of a source whose text, once loaded, was obtained by resolving: a reference of the first
pass, the value of a variable that comes from a store or the environment, or a default whose text was
itself a reference of the first pass. -/
inductive ObtainedAt (written : Json) (scope : VariableScope) (defaultOf : String → Option Json) :
    List Part → Prop
  | reference {place : List Part} {s v : String} :
      at? place written = some (.str s) → resolveOne host s = .ok (some v) →
      ObtainedAt written scope defaultOf place
  | variable {place within : List Part} {s name : String} {entry : ScopedVar} :
      at? place written = some (.str s) → parseRef s = some name → scope.get? name = some entry →
      ¬ TakesDefault host name entry → ¬ StaysReference host name entry →
      ObtainedAt written scope defaultOf (place ++ within)
  | default {place within : List Part} {s name t v : String} {entry : ScopedVar} {d : Json} :
      at? place written = some (.str s) → parseRef s = some name → scope.get? name = some entry →
      TakesDefault host name entry → defaultOf name = some d → at? within d = some (.str t) →
      resolveOne host t = .ok (some v) → ObtainedAt written scope defaultOf (place ++ within)

/-! ## Runs -/

/-- A string after the first pass. -/
def textOf (s : String) : String :=
  match resolveOne host s with
  | .ok (some v) => v
  | _ => s

/-- The second pass gets to a source, the earlier ones being loaded. -/
structure Reaches (d : Declared) (i : ℕ) (scope : VariableScope) : Prop where
  scope : ∃ source, d.sources[i]? = some source ∧
    d.sourceScope serdeError source d.chains[i]? = .ok scope
  earlier : ∀ j < i, ∀ source, d.sources[j]? = some source →
    ∃ loaded, d.loadSource host serdeError (source, j) = .ok loaded

/-- The second pass gets to what stands for a string that is written in a source. -/
def Visits (s : String) : Prop :=
  ∃ d i scope written before after st, declare host serdeError asm = .ok d ∧
    (sourcesOf asm.tree)[i]? = some written ∧ Reaches host serdeError d i scope ∧
    rootLeaves written = before ++ s :: after ∧
    runAll (fun st s => Json.effect (visitRef host scope s st)) {} (before.map (textOf host)) =
      (st, .ok ())

/-- A load that succeeds makes this of a source that is written. -/
structure Loads (i : ℕ) (written : Json) (scope : VariableScope) (source : Json)
    (bindings : List DynamicVarBinding) : Prop where
  written : (sourcesOf asm.tree)[i]? = some written
  scope : ∃ d, declare host serdeError asm = .ok d ∧ ∃ resolved, d.sources[i]? = some resolved ∧
    d.sourceScope serdeError resolved d.chains[i]? = .ok scope
  loaded : ∃ out, load host serdeError asm = .ok out ∧ out[i]? = some (source, bindings)

/-- A credential of a loaded source that was obtained by resolving. -/
structure ObtainedCredential (text : String) (bindings : List DynamicVarBinding) : Prop where
  obtained : ∃ i written scope source config place k, Loads host serdeError asm i written scope source
      bindings ∧
    ObtainedAt host written scope (asm.defaultOf written asm.sourceChains[i]?)
      (.field "config" :: place) ∧
    source.get? "config" = some config ∧ at? place config = some (.str text) ∧
    Supplies config place k

/-! ## The property -/

/-- What the reference in a string is replaced with, in one pass. -/
def refValue (scope : VariableScope) (s : String) : Json :=
  match parseRef s with
  | none => .str s
  | some name =>
      match scope.get? name with
      | none => .str s
      | some entry =>
          if entry.declared.isDynamic then
            match storedLiteral host (varId entry name) with
            | .ok (some lit) => .str lit
            | _ => .str s
          else
            match resolveValue host name entry.declared entry.scopeId with
            | .ok v => v
            | .error _ => .str s

/-- A source with its strings replaced outside its `variables:`. -/
def mapRoot (f : String → Json) : Json → Json
  | .obj fields =>
      .obj (fields.map fun p => (p.1, if p.1 = "variables" then p.2 else p.2.mapStrings f))
  | source => source.mapStrings f

/-- A string that is written in a source, resolved once. -/
def settle (scope : VariableScope) (s : String) : Json :=
  match resolveOne host s with
  | .ok (some v) => .str v
  | _ => refValue host scope s

/-- A source with each of its strings resolved once; its `variables:` are no place for `${var:}`. -/
def settleSource (scope : VariableScope) : Json → Json
  | .obj fields => .obj (fields.map fun f => (f.1,
      f.2.mapStrings (if f.1 = "variables" then fun s => .str (textOf host s) else settle host scope)))
  | written => written.mapStrings (settle host scope)

/-- What is resolved is used as it is: by the second pass, whatever variables there are; in the loaded
sources, which are the written ones with each string resolved once; and by the requests, whatever the
variable store holds. -/
structure ResolvedIsData : Prop where
  verbatim : ∀ s v, Visits host serdeError asm s → resolveOne host s = .ok (some v) →
    ∀ scope st, visitRef host scope v st = (st, .ok (.str v))
  loaded : ∀ {i written scope source bindings}, Loads host serdeError asm i written scope source
    bindings → source = settleSource host scope written
  requested : ∀ text bindings, ObtainedCredential host serdeError asm text bindings →
    ∀ resolve, resolveDynamic (WorkspaceConfig.bindingsOf bindings) resolve text = .ok text

/-- No resolved value has the text of a reference, where the second pass gets to it or where a request
finds the variable bound. -/
structure NoResolvedReference : Prop where
  visited : ∀ s v, Visits host serdeError asm s → resolveOne host s = .ok (some v) →
    parseRef v = none
  requested : ∀ text bindings, ObtainedCredential host serdeError asm text bindings →
    ∀ name, parseRef text = some name → WorkspaceConfig.bindingsOf bindings name = none

end Provenance

/-! ## The first pass -/

section Proofs

variable {host : Host} {serdeError : Json → String} {asm : Assembled}

/-- The first pass replaces each string by a string. -/
lemma interpolate_eq {value out : Json} (h : interpolate host value = .ok out) :
    out = value.mapStrings fun s => .str (textOf host s) := by
  unfold interpolate at h
  rcases hwalk : value.walk (visitText host) () with ⟨u, e | v⟩
  · rw [hwalk] at h
    cases h
  · rw [hwalk] at h
    cases h
    refine Json.walk_ok (fun s _ st st' v hv => ?_) hwalk
    unfold visitText at hv
    unfold textOf
    rcases hs : resolveOne host s with e | _ | w
    · rw [hs] at hv
      cases hv
    · rw [hs] at hv
      cases hv
      rfl
    · rw [hs] at hv
      cases hv
      rfl

lemma mapItems_eq_map (f : String → Json) (items : List Json) :
    Json.mapItems f items = items.map (Json.mapStrings f) := by
  induction items with
  | nil => rw [Json.mapItems, List.map_nil]
  | cons v items ih => rw [Json.mapItems, List.map_cons, ih]

lemma mapFields_eq_map (f : String → Json) (fields : List (String × Json)) :
    Json.mapFields f fields = fields.map fun p => (p.1, p.2.mapStrings f) := by
  induction fields with
  | nil => rw [Json.mapFields, List.map_nil]
  | cons p fields ih => rw [Json.mapFields, List.map_cons, ih]

lemma get?_mapStrings (f : String → String) (key : String) (v : Json) :
    (v.mapStrings fun s => .str (f s)).get? key =
      (v.get? key).map (Json.mapStrings fun s => .str (f s)) := by
  cases v with
  | obj fields =>
      rw [Json.mapStrings, mapFields_eq_map, Json.get?, Json.get?]
      induction fields with
      | nil => rfl
      | cons p fields ih =>
          rw [List.map_cons, List.lookup_cons, List.lookup_cons]
          cases key == p.1 <;> simp [ih]
  | _ => rw [Json.mapStrings]; rfl

/-- The first pass works on each source by itself. -/
lemma sourcesOf_mapStrings (f : String → String) (tree : Json) :
    sourcesOf (tree.mapStrings fun s => .str (f s)) =
      (sourcesOf tree).map (Json.mapStrings fun s => .str (f s)) := by
  rw [sourcesOf, sourcesOf, get?_mapStrings]
  cases tree.get? "sources" with
  | none => rfl
  | some v =>
      cases v with
      | arr items =>
          simp only [Option.map_some, Option.bind_some, Json.mapStrings, Json.asArray?,
            Option.getD_some, mapItems_eq_map]
      | _ => rw [Option.map_some, Json.mapStrings]; rfl

lemma rootLeaves_mapStrings (f : String → String) (source : Json) :
    rootLeaves (source.mapStrings fun s => .str (f s)) = (rootLeaves source).map f := by
  cases source with
  | obj fields =>
      rw [Json.mapStrings, rootLeaves, rootLeaves]
      induction fields with
      | nil => rw [Json.mapFields, rootLeavesOfFields, List.map_nil]
      | cons p fields ih =>
          obtain ⟨key, child⟩ := p
          rw [Json.mapFields, rootLeavesOfFields, rootLeavesOfFields, ih]
          split_ifs
          · rfl
          · rw [List.map_append, Json.leaves_mapStrings]
  | _ => exact Json.leaves_mapStrings f _

/-! ## The second pass -/

/-- A string that the second pass visits is replaced with the value of its reference. -/
lemma visitRef_ok {scope : VariableScope} {s : String} {st st' : Pass} {out : Json}
    (h : visitRef host scope s st = (st', .ok out)) : out = refValue host scope s := by
  unfold visitRef at h
  unfold refValue
  cases hname : parseRef s with
  | none =>
      rw [hname] at h
      cases h
      rfl
  | some name =>
      simp only [hname] at h
      cases hentry : scope.get? name with
      | none =>
          simp only [hentry] at h
          cases h
      | some entry =>
          simp only [hentry] at h ⊢
          by_cases hdynamic : entry.declared.isDynamic = true
          · rw [if_pos hdynamic] at h ⊢
            rcases hlit : storedLiteral host (varId entry name) with e | _ | lit
            · simp only [hlit] at h
              cases h
            · simp only [hlit] at h
              split_ifs at h with hseen
              · cases h
                rfl
              · cases hspec : host.dynamicSpec name entry.declared with
                | error e =>
                    simp only [hspec] at h
                    cases h
                | ok spec =>
                    simp only [hspec] at h
                    cases h
                    rfl
            · simp only [hlit] at h
              cases h
              rfl
          · rw [if_neg hdynamic] at h ⊢
            rw [Prod.mk.injEq] at h
            rw [h.2]

lemma walk_refValue {scope : VariableScope} {v out : Json} {st st' : Pass}
    (h : v.walk (visitRef host scope) st = (st', .ok out)) :
    out = v.mapStrings (refValue host scope) :=
  Json.walk_ok (fun _ _ _ _ _ hs => visitRef_ok hs) h

lemma walkRootFields_refValue {scope : VariableScope} {fields out : List (String × Json)}
    {st st' : Pass} (h : walkRootFields (visitRef host scope) fields st = (st', .ok out)) :
    out = fields.map fun p => (p.1,
      if p.1 = "variables" then p.2 else p.2.mapStrings (refValue host scope)) := by
  induction fields generalizing out st with
  | nil =>
      cases h
      rfl
  | cons p fields ih =>
      obtain ⟨key, child⟩ := p
      rw [walkRootFields] at h
      split_ifs at h with hkey
      · rcases hrest : walkRootFields (visitRef host scope) fields st with ⟨st₁, e | rest⟩
        · rw [hrest] at h
          cases h
        · rw [hrest] at h
          cases h
          rw [List.map_cons, if_pos hkey, ih hrest]
      · rcases hchild : child.walk (visitRef host scope) st with ⟨st₁, e | child'⟩
        · rw [hchild] at h
          cases h
        · rw [hchild] at h
          rcases hrest : walkRootFields (visitRef host scope) fields st₁ with ⟨st₂, e | rest⟩
          · simp only [hrest] at h
            cases h
          · simp only [hrest] at h
            cases h
            rw [List.map_cons, if_neg hkey, ih hrest, walk_refValue hchild]

/-- A source that the second pass has come through. -/
lemma resolveRefs_ok {scope : VariableScope} {source out : Json} {st : Pass}
    (h : resolveRefs host source scope = (st, .ok out)) :
    out = mapRoot (refValue host scope) source := by
  cases source with
  | obj fields =>
      rw [resolveRefs] at h
      rcases hrun : walkRootFields (visitRef host scope) fields {} with ⟨st₁, e | fields'⟩
      · rw [hrun] at h
        cases h
      · rw [hrun] at h
        cases h
        rw [mapRoot, walkRootFields_refValue hrun]
  | _ => exact walk_refValue h

/-! ## Both passes -/

/-- The two passes resolve each string of a source once, when the second one finds no reference in what
the first one has put there. -/
lemma mapRoot_mapStrings {scope : VariableScope} {written : Json}
    (h : ∀ s ∈ rootLeaves written, refValue host scope (textOf host s) = settle host scope s) :
    mapRoot (refValue host scope) (written.mapStrings fun s => .str (textOf host s)) =
      settleSource host scope written := by
  cases written with
  | obj fields =>
      rw [Json.mapStrings, mapRoot, settleSource, mapFields_eq_map, List.map_map]
      rw [rootLeaves] at h
      refine congrArg Json.obj ?_
      induction fields with
      | nil => rfl
      | cons p fields ih =>
          obtain ⟨key, child⟩ := p
          rw [rootLeavesOfFields] at h
          rw [List.map_cons, List.map_cons, Function.comp_apply]
          by_cases hkey : key = "variables"
          · rw [if_pos hkey] at h
            rw [ih h, if_pos hkey, if_pos hkey]
          · rw [if_neg hkey] at h
            rw [ih fun s hs => h s (List.mem_append_right _ hs), if_neg hkey, if_neg hkey,
              Json.mapStrings_mapStrings fun s hs => h s (List.mem_append_left _ hs)]
  | _ => exact Json.mapStrings_mapStrings h

/-- The second pass starts from the sources as the first one leaves them. -/
lemma declare_sources {d : Declared} (h : declare host serdeError asm = .ok d) :
    d.sources = (sourcesOf asm.tree).map (Json.mapStrings fun s => .str (textOf host s)) := by
  unfold declare at h
  obtain ⟨tree, htree, h⟩ := Iff.mp bind_eq_ok h
  obtain ⟨globals, -, h⟩ := Iff.mp bind_eq_ok h
  obtain ⟨fragments, -, h⟩ := Iff.mp bind_eq_ok h
  cases h
  rw [interpolate_eq htree, sourcesOf_mapStrings]

/-- What a load has done with a source. -/
lemma Loads.passes {i : ℕ} {written source : Json} {scope : VariableScope}
    {bindings : List DynamicVarBinding}
    (h : Loads host serdeError asm i written scope source bindings) :
    ∃ d st, declare host serdeError asm = .ok d ∧ Reaches host serdeError d i scope ∧
      resolveRefs host (written.mapStrings fun s => .str (textOf host s)) scope = (st, .ok source) := by
  obtain ⟨d, hd, resolved, hresolved, hscope⟩ := h.scope
  obtain ⟨out, hload, hout⟩ := h.loaded
  unfold load at hload
  rw [hd] at hload
  have hturn : ∀ {j : ℕ} {s : Json}, d.sources[j]? = some s →
      ∃ loaded, out[j]? = some loaded ∧ d.loadSource host serdeError (s, j) = .ok loaded := by
    intro j s hs
    refine getElem?_of_mapM hload ?_
    rw [List.getElem?_zipIdx, hs, Option.map_some, Nat.zero_add]
  obtain ⟨loaded, hloaded, hsource⟩ := hturn hresolved
  rw [hout, Option.some.injEq] at hloaded
  subst hloaded
  have hwritten : resolved = written.mapStrings fun s => .str (textOf host s) := by
    rw [declare_sources hd, List.getElem?_map, h.written] at hresolved
    exact (Option.some.inj hresolved).symm
  subst hwritten
  unfold Declared.loadSource at hsource
  rw [hscope] at hsource
  rcases hpass : resolveRefs host (written.mapStrings fun s => .str (textOf host s)) scope with
    ⟨st, e | v⟩
  · simp only [bind, Except.bind, hpass] at hsource
    cases hsource
  · simp only [bind, Except.bind, hpass] at hsource
    cases hsource
    refine ⟨d, st, hd, ⟨⟨_, hresolved, hscope⟩, fun j _ s hs => ?_⟩, rfl⟩
    obtain ⟨loaded, -, hj⟩ := hturn hs
    exact ⟨loaded, hj⟩

/-- The second pass visits every string of a source that was loaded. -/
lemma Loads.visits {i : ℕ} {written source : Json} {scope : VariableScope}
    {bindings : List DynamicVarBinding}
    (h : Loads host serdeError asm i written scope source bindings) {s : String}
    (hs : s ∈ rootLeaves written) : Visits host serdeError asm s := by
  obtain ⟨d, st, hd, hreaches, hpass⟩ := h.passes
  obtain ⟨before, after, hsplit⟩ := List.append_of_mem hs
  have hrun := @run_resolveRefs host scope (written.mapStrings fun s => .str (textOf host s))
  rw [hpass, rootLeaves_mapStrings, hsplit, List.map_append] at hrun
  obtain ⟨st', hbefore⟩ := ok_of_runAll_append hrun.symm
  exact ⟨d, i, scope, written, before, after, st', hd, h.written, hreaches, hsplit, hbefore⟩

/-! ## The condition -/

/-- A string is left as it is, whatever variables there are, when it is not a reference. -/
lemma visitRef_verbatim {v : String} :
    (∀ scope st, visitRef host scope v st = (st, .ok (.str v))) ↔ parseRef v = none := by
  constructor
  · intro h
    by_contra hname
    obtain ⟨name, hname⟩ := Option.ne_none_iff_exists'.mp hname
    have hempty := h .empty {}
    rw [visitRef, hname] at hempty
    cases hempty
  · intro h scope st
    rw [visitRef, h]

/-- **Resolved values are data** exactly when none of them has the text of a reference to a variable,
where the second pass gets to it or where a request finds the variable bound. -/
theorem data_iff (host : Host) (serdeError : Json → String) (asm : Assembled) :
    ResolvedIsData host serdeError asm ↔ NoResolvedReference host serdeError asm := by
  constructor
  · intro h
    exact ⟨fun s v hs hv => visitRef_verbatim.mp (h.verbatim s v hs hv), fun text bindings hob =>
      Http.resolveDynamic_verbatim.mp (h.requested text bindings hob)⟩
  · intro h
    refine ⟨fun s v hs hv => visitRef_verbatim.mpr (h.visited s v hs hv), fun {i written scope source
      bindings} hloads => ?_, fun text bindings hob =>
      Http.resolveDynamic_verbatim.mpr (h.requested text bindings hob)⟩
    obtain ⟨d, st, hd, hreaches, hpass⟩ := hloads.passes
    rw [resolveRefs_ok hpass]
    refine mapRoot_mapStrings fun s hs => ?_
    unfold settle textOf
    rcases hv : resolveOne host s with e | _ | v
    · rfl
    · rfl
    · show refValue host scope v = .str v
      rw [refValue, h.visited s v (hloads.visits hs) hv]

/-- A load that succeeds makes something of each source. -/
lemma exists_loads {out : List (Json × List DynamicVarBinding)} (h : load host serdeError asm = .ok out)
    {i : ℕ} {written : Json} (hi : (sourcesOf asm.tree)[i]? = some written) :
    ∃ scope source bindings, Loads host serdeError asm i written scope source bindings := by
  have hload := h
  unfold load at hload
  obtain ⟨d, hd, hload⟩ := Iff.mp bind_eq_ok hload
  have hsource : d.sources[i]? = some (written.mapStrings fun s => .str (textOf host s)) := by
    rw [declare_sources hd, List.getElem?_map, hi, Option.map_some]
  have hentry : d.sources.zipIdx[i]? =
      some (written.mapStrings fun s => .str (textOf host s), i) := by
    rw [List.getElem?_zipIdx, hsource, Option.map_some, Nat.zero_add]
  obtain ⟨⟨source, bindings⟩, hout, hturn⟩ := getElem?_of_mapM hload hentry
  unfold Declared.loadSource at hturn
  obtain ⟨scope, hscope, -⟩ := Iff.mp bind_eq_ok hturn
  exact ⟨scope, source, bindings, hi, ⟨d, hd, _, hsource, hscope⟩, out, h, hout⟩

end Proofs

/-! ## A secret that looks like a reference -/

/-- A host whose secret has the text of a reference. -/
def lookalikeHost : Host where
  secrets := fun name => .ok (if name = "TOKEN" then some "$\x7bvar:REGION\x7d" else none)
  vars := none
  env := fun name => if name = "REGION" then some "eu" else none
  file := fun _ => .error "not found"
  parseF64 := fun _ => none
  dynamicSpec := fun name _ => .error (.variableInvalid name "`oauth` method requires `grant.type`")

def tokenSource (token : Json) : Json :=
  .obj [("name", .str "api"), ("config", .obj [("token", token)])]

def lookalikeConfig : Assembled where
  tree := .obj [("variables", .obj [("REGION", .obj [("kind", .str "variable")])]),
    ("sources", .arr [tokenSource (.str "$\x7bsecret:TOKEN\x7d")])]

example : (load lookalikeHost (fun _ => "") lookalikeConfig).map (List.map Prod.fst) =
    .ok [tokenSource (.str "eu")] := by decide

/-- The second pass takes the secret for a reference. -/
theorem lookalike_interpreted : ¬ ResolvedIsData lookalikeHost (fun _ => "") lookalikeConfig := by
  intro h
  have hok : (load lookalikeHost (fun _ => "") lookalikeConfig).isOk = true := by decide
  cases hload : load lookalikeHost (fun _ => "") lookalikeConfig with
  | error e =>
      rw [hload] at hok
      cases hok
  | ok out =>
      obtain ⟨scope, source, bindings, hloads⟩ := @exists_loads _ _ _ out hload 0
        (tokenSource (.str "$\x7bsecret:TOKEN\x7d")) rfl
      have hvisits : Visits lookalikeHost (fun _ => "") lookalikeConfig "$\x7bsecret:TOKEN\x7d" :=
        hloads.visits (by decide)
      have hverbatim := h.verbatim _ "$\x7bvar:REGION\x7d" hvisits (by decide)
      have hname := visitRef_verbatim.mp hverbatim
      revert hname
      decide


end Config
end Pawrly
