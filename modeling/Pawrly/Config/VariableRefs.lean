import Pawrly.Config.Variables

/-!
# The reported references are the resolved ones

Both walks over a source are loops over the same strings (`run_resolveRefs`,
`collectStaticRefs_eq`).  The report names each static variable among them once; the resolving pass
resolves them in order, as far as it gets (`report_agrees`).
-/

namespace Pawrly
namespace Config

open Http (Json)
open EffectfulLoop

/-! ## The strings of a source -/

def rootLeavesOfFields : List (String × Json) → List String
  | [] => []
  | (key, child) :: rest =>
      if key = "variables" then rootLeavesOfFields rest else child.leaves ++ rootLeavesOfFields rest

/-- The strings of a source outside its `variables:`. -/
def rootLeaves : Json → List String
  | .obj fields => rootLeavesOfFields fields
  | source => source.leaves

/-- The static variable that a string refers to. -/
def staticRef (scope : VariableScope) (s : String) : Option (String × ScopedVar) := do
  let name ← parseRef s
  let entry ← scope.get? name
  if entry.declared.isDynamic then none else some (name, entry)

/-- The references of a source to static variables, in order, with the ids of their values. -/
def staticRefs (scope : VariableScope) (source : Json) : List (String × String) :=
  ((rootLeaves source).filterMap (staticRef scope)).map fun r => (r.1, varId r.2 r.1)

section Walks

variable {host : Host} {scope : VariableScope}

lemma staticRef_eq_some {s name : String} {entry : ScopedVar} :
    staticRef scope s = some (name, entry) ↔
      parseRef s = some name ∧ scope.get? name = some entry ∧ entry.declared.isDynamic = false := by
  simp only [staticRef, Option.bind_eq_bind, Option.bind_eq_some_iff]
  constructor
  · rintro ⟨name', hname, entry', hentry, h⟩
    split_ifs at h with hdynamic
    cases h
    exact ⟨hname, hentry, by simpa using hdynamic⟩
  · rintro ⟨hname, hentry, hdynamic⟩
    exact ⟨name, hname, entry, hentry, by simp [hdynamic]⟩

lemma mem_staticRefs {source : Json} {name id : String} :
    (name, id) ∈ staticRefs scope source ↔
      ∃ s ∈ rootLeaves source, ∃ entry, staticRef scope s = some (name, entry) ∧
        id = varId entry name := by
  simp only [staticRefs, List.mem_map, List.mem_filterMap]
  constructor
  · rintro ⟨⟨name', entry⟩, ⟨s, hs, href⟩, h⟩
    cases h
    exact ⟨s, hs, entry, href, rfl⟩
  · rintro ⟨s, hs, entry, href, rfl⟩
    exact ⟨(name, entry), ⟨s, hs, href⟩, rfl⟩

/-! ## The walks as loops -/

lemma run_walkRootFields {σ : Type} (visit : String → σ → σ × Except ConfigError Json)
    (fields : List (String × Json)) (st : σ) :
    Json.effect (walkRootFields visit fields st) =
      runAll (fun st s => Json.effect (visit s st)) st (rootLeavesOfFields fields) := by
  induction fields generalizing st with
  | nil => rfl
  | cons field rest ih =>
      obtain ⟨key, child⟩ := field
      rw [walkRootFields, rootLeavesOfFields]
      split_ifs with hkey
      · rw [← ih st]
        exact Json.effect_map _ _
      · rw [runAll_append, ← Json.run_walk visit child st]
        rcases child.walk visit st with ⟨st', e | v⟩
        · rfl
        · rw [Json.effect_map, ih st']
          rfl

/-- The resolving pass is a loop over the strings of the source. -/
theorem run_resolveRefs (source : Json) :
    Json.effect (resolveRefs host source scope) =
      runAll (fun st s => Json.effect (visitRef host scope s st)) {} (rootLeaves source) := by
  cases source with
  | obj fields =>
      rw [resolveRefs, rootLeaves, ← run_walkRootFields]
      exact Json.effect_map _ _
  | _ => exact Json.run_walk _ _ _

lemma collectRootFields_eq (f : String → Report → Report) (fields : List (String × Json))
    (st : Report) :
    collectRootFields f fields st = (rootLeavesOfFields fields).foldl (fun st s => f s st) st := by
  induction fields generalizing st with
  | nil => rfl
  | cons field rest ih =>
      obtain ⟨key, child⟩ := field
      rw [collectRootFields, rootLeavesOfFields]
      split_ifs with hkey
      · exact ih st
      · rw [ih, List.foldl_append, Json.foldStrings_eq]

/-- The report is a fold over the strings of the source. -/
theorem collectStaticRefs_eq (source : Json) :
    collectStaticRefs host source scope =
      ((rootLeaves source).foldl (fun st s => collectRef host scope s st) {}).out := by
  cases source with
  | obj fields => rw [collectStaticRefs, rootLeaves, collectRootFields_eq]
  | _ => exact congrArg Report.out (Json.foldStrings_eq _ _ _)

/-! ## The resolving pass -/

/-- The pass resolves the static variable of each string that it visits. -/
lemma visitRef_resolved (s : String) (st : Pass) :
    (visitRef host scope s st).1.resolved =
      st.resolved ++ ((staticRef scope s).map fun r => (r.1, varId r.2 r.1)).toList := by
  unfold visitRef staticRef
  cases hname : parseRef s with
  | none => simp
  | some name =>
      cases hentry : scope.get? name with
      | none => simp [hentry]
      | some entry =>
          cases hdynamic : entry.declared.isDynamic with
          | false => simp [hentry, hdynamic]
          | true =>
              simp only [hentry, hdynamic, if_true, Option.bind_eq_bind, Option.bind_some,
                Option.map_none, Option.toList_none, List.append_nil]
              split
              · rfl
              · rfl
              · split_ifs with hseen
                · rfl
                · split <;> rfl

/-- What becomes of a string without reference to a dynamic variable. -/
def staticOutcome (host : Host) (scope : VariableScope) (s : String) : Except ConfigError Json :=
  match parseRef s with
  | none => .ok (.str s)
  | some name =>
      match scope.get? name with
      | none => .error (.variableInvalid name
          "referenced via `$\x7bvar:…\x7d` but not declared in this source's scope")
      | some entry => resolveValue host name entry.declared entry.scopeId

/-- No string of a source refers to a dynamic variable. -/
def NoDynamicRef (scope : VariableScope) (source : Json) : Prop :=
  ∀ s ∈ rootLeaves source, ∀ name entry, parseRef s = some name → scope.get? name = some entry →
    entry.declared.isDynamic = false

lemma visitRef_static {s : String} (h : ∀ name entry, parseRef s = some name →
    scope.get? name = some entry → entry.declared.isDynamic = false) (st : Pass) :
    (visitRef host scope s st).2 = staticOutcome host scope s := by
  unfold visitRef staticOutcome
  cases hname : parseRef s with
  | none => rfl
  | some name =>
      cases hentry : scope.get? name with
      | none => simp [hentry]
      | some entry => simp [hentry, h name entry hname hentry]

/-- A string without reference to a dynamic variable resolves when its variable, if it names one, is
declared and resolves. -/
lemma staticOutcome_ok_iff {s : String} (h : ∀ name entry, parseRef s = some name →
    scope.get? name = some entry → entry.declared.isDynamic = false) :
    (staticOutcome host scope s).isOk = true ↔
      (∀ name, parseRef s = some name → (scope.get? name).isSome = true) ∧
        ∀ name entry, staticRef scope s = some (name, entry) →
          (resolveValue host name entry.declared entry.scopeId).isOk = true := by
  unfold staticOutcome
  cases hname : parseRef s with
  | none => simp [staticRef, hname, Except.isOk, Except.toBool]
  | some name =>
      cases hentry : scope.get? name with
      | none => simp [hentry, Except.isOk, Except.toBool]
      | some entry => simp [staticRef, hname, hentry, h name entry hname hentry]

/-- Without dynamic references the pass succeeds when every string resolves. -/
lemma resolveRefs_ok_iff {source : Json} (hstatic : NoDynamicRef scope source) :
    (resolveRefs host source scope).2.isOk = true ↔
      ∀ s ∈ rootLeaves source, (staticOutcome host scope s).isOk = true := by
  have hrun := congrArg Prod.snd (@run_resolveRefs host scope source)
  have hiff := @runAll_ok_iff Pass String ConfigError
    (fun st s => Json.effect (visitRef host scope s st))
    (fun s => (staticOutcome host scope s).map fun _ => ()) (rootLeaves source)
    (fun st s hs => by rw [← visitRef_static (hstatic s hs) st]; rfl) {}
  rw [← hrun] at hiff
  have hok : ∀ {α : Type} (x : Except ConfigError α), (x.map fun _ => ()) = .ok () ↔ x.isOk = true := by
    intro α x
    cases x <;> simp [Except.map, Except.isOk, Except.toBool]
  simpa only [Json.effect, hok] using hiff

/-! ## The report -/

/-- The report after some strings: the static variables among them, each once, as they resolve. -/
structure Reports (host : Host) (scope : VariableScope) (done : List String) (st : Report) : Prop where
  seen : st.seen.reverse = st.out.map (·.name)
  nodup : st.seen.Nodup
  sound : ∀ r ∈ st.out, ∃ s ∈ done, ∃ entry, staticRef scope s = some (r.name, entry) ∧
    r.varId = varId entry r.name ∧
    r.resolves = (resolveValue host r.name entry.declared entry.scopeId).isOk
  complete : ∀ s ∈ done, ∀ name entry, staticRef scope s = some (name, entry) → name ∈ st.seen

lemma collectRef_none {s : String} (h : staticRef scope s = none) (st : Report) :
    collectRef host scope s st = st := by
  unfold collectRef
  cases hname : parseRef s with
  | none => rfl
  | some name =>
      cases hentry : scope.get? name with
      | none => simp [hentry]
      | some entry =>
          have hdynamic : entry.declared.isDynamic = true := by
            by_contra hfalse
            rw [Bool.not_eq_true] at hfalse
            rw [staticRef_eq_some.mpr ⟨hname, hentry, hfalse⟩] at h
            cases h
          simp [hentry, hdynamic]

lemma collectRef_some {s name : String} {entry : ScopedVar}
    (h : staticRef scope s = some (name, entry)) (st : Report) :
    collectRef host scope s st =
      if name ∈ st.seen then st
      else
        { out := st.out ++
            [{ name := name
               varId := varId entry name
               kind := entry.declared.kind
               inputKey := entry.declared.inputKey.getD name
               resolves := (resolveValue host name entry.declared entry.scopeId).isOk }]
          seen := name :: st.seen } := by
  obtain ⟨hname, hentry, hdynamic⟩ := staticRef_eq_some.mp h
  unfold collectRef
  simp only [hname, hentry, hdynamic, Bool.not_false, Bool.true_and, Bool.not_eq_true',
    List.contains_iff_mem, ← Bool.not_eq_true]
  split_ifs <;> rfl

/-- One string keeps what the report says. -/
lemma Reports.collect {done : List String} {st : Report} (h : Reports host scope done st)
    (s : String) : Reports host scope (done ++ [s]) (collectRef host scope s st) := by
  have hdone : ∀ {s'}, s' ∈ done → s' ∈ done ++ [s] := fun hs => List.mem_append_left _ hs
  cases href : staticRef scope s with
  | none =>
      rw [collectRef_none href]
      refine ⟨h.seen, h.nodup, fun r hr => ?_, fun s' hs' name entry hs => ?_⟩
      · obtain ⟨s', hs', hrest⟩ := h.sound r hr
        exact ⟨s', hdone hs', hrest⟩
      · rcases List.mem_append.mp hs' with hs' | hs'
        · exact h.complete s' hs' name entry hs
        · rw [List.mem_singleton.mp hs', href] at hs
          cases hs
  | some ref =>
      obtain ⟨name, entry⟩ := ref
      rw [collectRef_some href]
      split_ifs with hseen
      · refine ⟨h.seen, h.nodup, fun r hr => ?_, fun s' hs' name' entry' hs => ?_⟩
        · obtain ⟨s', hs', hrest⟩ := h.sound r hr
          exact ⟨s', hdone hs', hrest⟩
        · rcases List.mem_append.mp hs' with hs' | hs'
          · exact h.complete s' hs' name' entry' hs
          · rw [List.mem_singleton.mp hs', href] at hs
            cases hs
            exact hseen
      · refine ⟨by simp [h.seen], List.nodup_cons.mpr ⟨hseen, h.nodup⟩, fun r hr => ?_,
          fun s' hs' name' entry' hs => ?_⟩
        · rcases List.mem_append.mp hr with hr | hr
          · obtain ⟨s', hs', hrest⟩ := h.sound r hr
            exact ⟨s', hdone hs', hrest⟩
          · rw [List.mem_singleton.mp hr]
            exact ⟨s, List.mem_append_right _ (List.mem_singleton_self s), entry, href, rfl, rfl⟩
        · rcases List.mem_append.mp hs' with hs' | hs'
          · exact List.mem_cons_of_mem _ (h.complete s' hs' name' entry' hs)
          · rw [List.mem_singleton.mp hs', href] at hs
            cases hs
            exact List.mem_cons_self

lemma reports_foldl {done : List String} {st : Report} (h : Reports host scope done st)
    (strings : List String) :
    Reports host scope (done ++ strings)
      (strings.foldl (fun st s => collectRef host scope s st) st) := by
  induction strings generalizing done st with
  | nil => rwa [List.append_nil]
  | cons s strings ih =>
      rw [List.append_cons]
      exact ih (h.collect s)

lemma collectStaticRefs_reports (source : Json) :
    ∃ st, Reports host scope (rootLeaves source) st ∧ collectStaticRefs host source scope = st.out := by
  have hstart : Reports host scope [] {} := ⟨rfl, List.nodup_nil, nofun, nofun⟩
  exact ⟨_, reports_foldl hstart (rootLeaves source), collectStaticRefs_eq source⟩

/-- The pass resolves the static references from the first one on, all of them when it succeeds. -/
lemma resolved_initial (source : Json) :
    (resolveRefs host source scope).1.resolved <+: staticRefs scope source ∧
      ((resolveRefs host source scope).2.isOk = true →
        (resolveRefs host source scope).1.resolved = staticRefs scope source) := by
  have hrun := @run_resolveRefs host scope source
  have hrefs : ∀ l : List String,
      l.flatMap (fun s => ((staticRef scope s).map fun r => (r.1, varId r.2 r.1)).toList) =
        (l.filterMap (staticRef scope)).map fun r => (r.1, varId r.2 r.1) := by
    intro l
    rw [List.map_filterMap, List.filterMap_eq_flatMap_toList]
  have hstep : ∀ (st : Pass) (s : String),
      (Json.effect (visitRef host scope s st)).1.resolved = st.resolved ++
        ((staticRef scope s).map fun r => (r.1, varId r.2 r.1)).toList := fun st s => by
    rw [Json.effect_fst, visitRef_resolved]
  obtain ⟨done, rest, hleaves, hlog, hrest⟩ := runAll_log hstep {} (rootLeaves source)
  have hresolved : (resolveRefs host source scope).1.resolved =
      (done.filterMap (staticRef scope)).map fun r => (r.1, varId r.2 r.1) := by
    rw [← hrefs, ← List.nil_append (List.flatMap _ done)]
    rwa [← hrun, Json.effect_fst] at hlog
  constructor
  · rw [hresolved, staticRefs, hleaves, List.filterMap_append, List.map_append]
    exact List.prefix_append _ _
  · intro hok
    have hend : rest = [] := by
      refine hrest ?_
      rw [← hrun]
      cases hresult : (resolveRefs host source scope).2 with
      | error e =>
          rw [hresult] at hok
          cases hok
      | ok v =>
          rw [Json.effect, hresult]
          rfl
    rw [hresolved, staticRefs, hleaves, hend, List.append_nil]

end Walks

/-! ## Agreement -/

/-- **The report agrees with the resolution**: it names the static variables that the source refers
to, each once, with the id of its value and whether it resolves; the pass resolves these in order, all
of them when it succeeds; and without dynamic references it succeeds exactly when every reported
variable resolves and every name is declared. -/
theorem report_agrees (host : Host) (scope : VariableScope) (source : Json) :
    ((collectStaticRefs host source scope).map (·.name)).Nodup ∧
    (∀ name id, (∃ r ∈ collectStaticRefs host source scope, r.name = name ∧ r.varId = id) ↔
      (name, id) ∈ staticRefs scope source) ∧
    (∀ r ∈ collectStaticRefs host source scope, ∃ entry, scope.get? r.name = some entry ∧
      r.resolves = (resolveValue host r.name entry.declared entry.scopeId).isOk) ∧
    (resolveRefs host source scope).1.resolved <+: staticRefs scope source ∧
    ((resolveRefs host source scope).2.isOk = true →
      (resolveRefs host source scope).1.resolved = staticRefs scope source) ∧
    (NoDynamicRef scope source →
      ((resolveRefs host source scope).2.isOk = true ↔
        (∀ r ∈ collectStaticRefs host source scope, r.resolves = true) ∧
          ∀ s ∈ rootLeaves source, ∀ name, parseRef s = some name →
            (scope.get? name).isSome = true)) := by
  obtain ⟨st, hst, hout⟩ := @collectStaticRefs_reports host scope source
  obtain ⟨hinitial, hwhole⟩ := @resolved_initial host scope source
  rw [hout]
  have hreported : ∀ {s name entry}, s ∈ rootLeaves source → staticRef scope s = some (name, entry) →
      ∃ r ∈ st.out, r.name = name := by
    intro s name entry hs href
    have hseen := List.mem_reverse.mpr (hst.complete s hs name entry href)
    rw [hst.seen] at hseen
    exact List.mem_map.mp hseen
  refine ⟨?_, fun name id => ?_, fun r hr => ?_, hinitial, hwhole, fun hstatic => ?_⟩
  · rw [← hst.seen]
    exact List.nodup_reverse.mpr hst.nodup
  · rw [mem_staticRefs]
    constructor
    · rintro ⟨r, hr, rfl, rfl⟩
      obtain ⟨s, hs, entry, href, hid, -⟩ := hst.sound r hr
      exact ⟨s, hs, entry, href, hid⟩
    · rintro ⟨s, hs, entry, href, rfl⟩
      obtain ⟨r, hr, rfl⟩ := hreported hs href
      obtain ⟨s', -, entry', href', hid, -⟩ := hst.sound r hr
      have hentry := (staticRef_eq_some.mp href).2.1
      rw [(staticRef_eq_some.mp href').2.1, Option.some.injEq] at hentry
      exact ⟨r, hr, rfl, by rw [hid, hentry]⟩
  · obtain ⟨s, -, entry, href, -, hresolves⟩ := hst.sound r hr
    exact ⟨entry, (staticRef_eq_some.mp href).2.1, hresolves⟩
  · rw [resolveRefs_ok_iff hstatic]
    constructor
    · intro hok
      refine ⟨fun r hr => ?_, fun s hs name hname =>
        ((staticOutcome_ok_iff (hstatic s hs)).mp (hok s hs)).1 name hname⟩
      obtain ⟨s, hs, entry, href, -, hresolves⟩ := hst.sound r hr
      rw [hresolves]
      exact ((staticOutcome_ok_iff (hstatic s hs)).mp (hok s hs)).2 r.name entry href
    · rintro ⟨hresolves, hdeclared⟩ s hs
      refine (staticOutcome_ok_iff (hstatic s hs)).mpr ⟨hdeclared s hs, fun name entry href => ?_⟩
      obtain ⟨r, hr, rfl⟩ := hreported hs href
      obtain ⟨s', -, entry', href', -, hr'⟩ := hst.sound r hr
      have hentry := (staticRef_eq_some.mp href).2.1
      rw [(staticRef_eq_some.mp href').2.1, Option.some.injEq] at hentry
      rw [← hentry, ← hr']
      exact hresolves r hr

/-- A reference to the port of the environment resolves, and is reported so. -/
theorem portReport_agrees :
    (resolveRefs portHost (.obj [("url", .str "$\x7bvar:PORT\x7d")])
        (OrderedMap.empty.insert "PORT" ⟨portVariable, "root"⟩)).1.resolved = [("PORT", "root::PORT")] := by
  have h := report_agrees portHost (OrderedMap.empty.insert "PORT" ⟨portVariable, "root"⟩)
    (.obj [("url", .str "$\x7bvar:PORT\x7d")])
  obtain ⟨-, -, -, -, hwhole, hok⟩ := h
  have hstatic : NoDynamicRef (OrderedMap.empty.insert "PORT" ⟨portVariable, "root"⟩)
      (.obj [("url", .str "$\x7bvar:PORT\x7d")]) := by
    intro s _ name entry _ hentry
    rw [OrderedMap.get?_insert] at hentry
    split_ifs at hentry
    · cases hentry
      rfl
    · cases hentry
  have hall : (resolveRefs portHost (.obj [("url", .str "$\x7bvar:PORT\x7d")])
      (OrderedMap.empty.insert "PORT" ⟨portVariable, "root"⟩)).2.isOk = true :=
    (hok hstatic).mpr ⟨by decide, by decide⟩
  exact (hwhole hall).trans (by decide)

end Config
end Pawrly
