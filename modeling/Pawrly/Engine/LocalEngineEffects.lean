import Pawrly.Engine.LocalEngine

/-!
# What source management changes

The view of a source is what the engine shows of it: its definition, its tables with their
providers and its live handle.  Registering a source that has something to install gives it the
view of its installation and leaves every other view (`registerSource_ok`); a failed registration
touches the session only (`registerSource_error`); registering functions touches nothing else.
-/

namespace Pawrly
namespace Engine

open Config EffectfulLoop

variable {ω : Type}

/-! ## Views -/

/-- What the engine shows of a source.  The time of its registration is left out. -/
structure SourceView (ω : Type) where
  definition : SourceDef
  tables : List TableSummary
  functionHandle : SourceHandle ω
  providers : List (Option (Provider ω))

def Installation.view (inst : Installation ω) (d : SourceDef) : SourceView ω where
  definition := d
  tables := inst.report.tables
  functionHandle := inst.report.functionHandle
  providers := inst.providers.map some

namespace LocalEngine

def viewOf (ss : Session ω) (name : String) (r : RegisteredSource ω) : SourceView ω where
  definition := r.definition
  tables := r.tables
  functionHandle := r.functionHandle
  providers := r.tables.map fun t => ss.table name t.name

def sourceView (s : LocalEngine ω) (name : String) : Option (SourceView ω) :=
  (s.sources.get? name).map (viewOf s.session name)

lemma sourceView_congr {s t : LocalEngine ω} {n : String}
    (hsources : t.sources.get? n = s.sources.get? n)
    (hcatalog : t.session.catalog n = s.session.catalog n) : t.sourceView n = s.sourceView n := by
  have htable : t.session.table n = s.session.table n := by
    funext name
    rw [Session.table, Session.table, hcatalog]
  unfold sourceView
  rw [hsources]
  apply congrArg (Option.map · _)
  funext r
  rw [viewOf, viewOf, htable]

lemma current_eq (s : LocalEngine ω) (n : String) :
    s.current n = (s.sourceView n).map SourceView.definition := by
  unfold current sourceView
  rw [Option.map_map]
  rfl

lemma handleFor_eq (s : LocalEngine ω) (f : FunctionDef) :
    s.handleFor f = match f.source with
      | some source => ((s.sourceView source).map SourceView.functionHandle).getD .none
      | none => .none := by
  unfold handleFor
  cases f.source with
  | none => rfl
  | some source =>
      show _ = ((s.sourceView source).map SourceView.functionHandle).getD .none
      rw [sourceView, Option.map_map]
      rfl

/-! ## Sources -/

/-- Everything but the sources and their session. -/
structure SameSettings (s t : LocalEngine ω) : Prop where
  functions : t.functions = s.functions
  vars : t.vars = s.vars
  dynamicBindings : t.dynamicBindings = s.dynamicBindings
  semantic : t.semantic = s.semantic
  configPath : t.configPath = s.configPath

lemma SameSettings.refl (s : LocalEngine ω) : SameSettings s s := ⟨rfl, rfl, rfl, rfl, rfl⟩

lemma SameSettings.trans {s t u : LocalEngine ω} (h : SameSettings s t) (h' : SameSettings t u) :
    SameSettings s u where
  functions := h'.functions.trans h.functions
  vars := h'.vars.trans h.vars
  dynamicBindings := h'.dynamicBindings.trans h.dynamicBindings
  semantic := h'.semantic.trans h.semantic
  configPath := h'.configPath.trans h.configPath

/-- The name is kept for the engine's own schemas. -/
def Reserved (name : String) : Prop := name = Cache.materializedSchema ∨ name = Cache.systemSchema

lemma registerSource_of_reserved (out : Outside ω) (s : LocalEngine ω) {d : SourceDef}
    (h : Reserved d.name) : ∃ e, s.registerSource out d = (s, .error e) := by
  unfold registerSource
  rcases h with h | h
  · exact ⟨_, if_pos h⟩
  · by_cases hm : d.name = Cache.materializedSchema
    · exact ⟨_, if_pos hm⟩
    · rw [if_neg hm, if_pos h]
      exact ⟨_, rfl⟩

lemma registerSource_of_not_reserved {out : Outside ω} {s : LocalEngine ω} {d : SourceDef}
    (h : ¬ Reserved d.name) :
    s.registerSource out d =
      match (s.session.deregisterSchema d.name).registerSource (out.discover d) s.vars
        (s.dynamicOf d.name) d with
      | (ss, .error e) => ({ s with session := ss }, .error (.sourceRegistration d.name d.kind e))
      | (ss, .ok report) => (s.insertSource d report (ss.wrapTables d report.tables), .ok ()) := by
  unfold Reserved at h
  rw [not_or] at h
  rewrite [registerSource, if_neg h.1, if_neg h.2]
  rcases (s.session.deregisterSchema d.name).registerSource (out.discover d) s.vars
    (s.dynamicOf d.name) d with ⟨ss, e | report⟩ <;> rfl

/-- What a registration that succeeds has done. -/
structure Registered (out : Outside ω) (s s' : LocalEngine ω) (d : SourceDef)
    (inst : Installation ω) : Prop where
  not_reserved : ¬ Reserved d.name
  installs : (out.discover d).installation s.vars (s.dynamicOf d.name) d = some inst
  accepts : (s.session.deregisterSchema d.name).Accepts d (out.discover d)
  sources : s'.sources = s.sources.insert d.name
    ⟨⟨d.name, d.kind, inst.report.tables.length, s.clock⟩, inst.report.tables, d,
      inst.report.functionHandle⟩
  clock : s'.clock = s.clock + 1
  beside : (s.session.deregisterSchema d.name).Beside s'.session d
  tables : inst.report.tables.map (fun t => s'.session.table d.name t.name) =
    inst.providers.map some
  settings : SameSettings s s'

theorem registerSource_ok {out : Outside ω} {s s' : LocalEngine ω} {d : SourceDef}
    (h : s.registerSource out d = (s', .ok ())) : ∃ inst, Registered out s s' d inst := by
  have hres : ¬ Reserved d.name := by
    intro hres
    obtain ⟨e, he⟩ := registerSource_of_reserved out s hres
    rw [he] at h
    cases h
  rw [registerSource_of_not_reserved hres] at h
  rcases hreg : (s.session.deregisterSchema d.name).registerSource (out.discover d) s.vars
    (s.dynamicOf d.name) d with ⟨ss, e | report⟩
  · rw [hreg] at h
    cases h
  · rw [hreg] at h
    obtain rfl := (Prod.mk.inj h).1
    obtain ⟨inst, hinst, hreport, haccepts, hbeside, htables⟩ :=
      Session.registerSource_installs (Session.deregisterSchema_catalog d.name) hreg
    subst hreport
    exact ⟨inst, hres, hinst, haccepts, rfl, rfl, hbeside, htables, ⟨rfl, rfl, rfl, rfl, rfl⟩⟩

/-- A registration that fails changes the session at most. -/
theorem registerSource_error {out : Outside ω} {s s' : LocalEngine ω} {d : SourceDef}
    {e : CatalogError} (h : s.registerSource out d = (s', .error e)) :
    s' = { s with session := s'.session } ∧
      ((Reserved d.name ∧ s'.session = s.session) ∨
        ¬ Reserved d.name ∧ ∃ e',
          (s.session.deregisterSchema d.name).registerSource (out.discover d) s.vars
            (s.dynamicOf d.name) d = (s'.session, .error e')) := by
  by_cases hres : Reserved d.name
  · obtain ⟨e', he'⟩ := registerSource_of_reserved out s hres
    rw [he'] at h
    obtain rfl := (Prod.mk.inj h).1
    exact ⟨rfl, .inl ⟨hres, rfl⟩⟩
  · rw [registerSource_of_not_reserved hres] at h
    rcases hreg : (s.session.deregisterSchema d.name).registerSource (out.discover d) s.vars
      (s.dynamicOf d.name) d with ⟨ss, e' | report⟩
    · rw [hreg] at h
      obtain rfl := (Prod.mk.inj h).1
      exact ⟨rfl, .inr ⟨hres, e', rfl⟩⟩
    · rw [hreg] at h
      cases h

/-- A source that has something to install is registered when the session takes it. -/
theorem exists_registerSource {out : Outside ω} {s : LocalEngine ω} {d : SourceDef}
    (hres : ¬ Reserved d.name)
    (hinst : ((out.discover d).installation s.vars (s.dynamicOf d.name) d).isSome = true)
    (haccepts : (s.session.deregisterSchema d.name).Accepts d (out.discover d)) :
    ∃ s', s.registerSource out d = (s', .ok ()) := by
  obtain ⟨ss, report, hreg⟩ := Session.exists_registerSource
    (Session.deregisterSchema_catalog d.name) hinst haccepts
  rw [registerSource_of_not_reserved hres, hreg]
  exact ⟨_, rfl⟩

lemma Registered.view {out : Outside ω} {s s' : LocalEngine ω} {d : SourceDef}
    {inst : Installation ω} (h : Registered out s s' d inst) :
    s'.sourceView d.name = some (inst.view d) := by
  rw [sourceView, h.sources, OrderedMap.get?_insert_self, Option.map_some, viewOf]
  dsimp only
  rw [h.tables]
  rfl

/-- Every table that the engine shows of the source can be queried. -/
def Present (v : SourceView ω) : Prop := ∀ p ∈ v.providers, p ≠ none

lemma present_view (inst : Installation ω) (d : SourceDef) : Present (inst.view d) := by
  intro p hp
  obtain ⟨q, -, rfl⟩ := List.mem_map.mp hp
  exact Option.some_ne_none q

/-- Another source whose tables can be queried keeps its view: a raw table does not take the place
of a table. -/
lemma Registered.view_of_ne {out : Outside ω} {s s' : LocalEngine ω} {d : SourceDef}
    {inst : Installation ω} (h : Registered out s s' d inst) {n : String} (hn : n ≠ d.name)
    {v : SourceView ω} (hv : s.sourceView n = some v) (hpresent : Present v) :
    s'.sourceView n = some v := by
  have hsources : s'.sources.get? n = s.sources.get? n := by
    rw [h.sources, OrderedMap.get?_insert_of_ne _ hn]
  by_cases hdef : n = defaultSchema
  · subst hdef
    rcases h.beside.unqualified hn.symm with hsame | ⟨D, p, -, hD, hfresh, hupd⟩
    · rw [← hv]
      apply sourceView_congr hsources
      rw [hsame, Session.deregisterSchema_catalog_of_ne hn]
    · rw [Session.deregisterSchema_catalog_of_ne hn] at hD
      obtain ⟨r, hr, rfl⟩ := Option.map_eq_some_iff.mp hv
      rw [sourceView, hsources, hr, Option.map_some]
      congr 1
      unfold viewOf
      congr 1
      apply List.map_congr_left
      intro t ht
      have htable : s.session.table defaultSchema t.name = D t.name := by
        rw [Session.table, hD]
        rfl
      have hthere : D t.name ≠ none := by
        rw [← htable]
        exact hpresent _ (List.mem_map_of_mem ht)
      have hne : t.name ≠ d.name := by
        intro heq
        rw [heq] at hthere
        exact hthere hfresh
      rw [htable, Session.table, hupd]
      show Function.update D d.name (some p) t.name = D t.name
      rw [Function.update_of_ne hne]
  · rw [← hv]
    apply sourceView_congr hsources
    rw [h.beside.others n hn hdef, Session.deregisterSchema_catalog_of_ne hn]

/-! ## Functions -/

/-- Everything but the functions. -/
structure SameButFunctions (s t : LocalEngine ω) : Prop where
  session : t.session = s.session
  sources : t.sources = s.sources
  vars : t.vars = s.vars
  dynamicBindings : t.dynamicBindings = s.dynamicBindings
  semantic : t.semantic = s.semantic
  configPath : t.configPath = s.configPath

lemma SameButFunctions.refl (s : LocalEngine ω) : SameButFunctions s s :=
  ⟨rfl, rfl, rfl, rfl, rfl, rfl⟩

lemma SameButFunctions.view {s t : LocalEngine ω} (h : SameButFunctions s t) :
    t.sourceView = s.sourceView := by
  funext n
  apply sourceView_congr
  · rw [h.sources]
  · rw [h.session]

lemma registerOneFunction_same {out : Outside ω} {s t : LocalEngine ω} (h : SameButFunctions s t)
    (f : FunctionDef) (handle : SourceHandle ω) :
    SameButFunctions s (t.registerOneFunction out f handle).1 := by
  unfold registerOneFunction
  cases buildRegisteredFunction out f handle with
  | error e => exact h
  | ok registered => exact ⟨h.session, h.sources, h.vars, h.dynamicBindings, h.semantic, h.configPath⟩

lemma registerFunctions_same (out : Outside ω) (s : LocalEngine ω) (defs : List FunctionDef) :
    SameButFunctions s (s.registerFunctions out defs).1 := by
  have hbuiltins : SameButFunctions s (runAll (registerBuiltin out) s builtins).1 :=
    runAll_invariant (I := SameButFunctions s) (fun t f h => registerOneFunction_same h f .none)
      (SameButFunctions.refl s) builtins
  unfold registerFunctions
  rcases hrun : runAll (registerBuiltin out) s builtins with ⟨t, e | _⟩
  · rw [hrun] at hbuiltins
    exact hbuiltins
  · rw [hrun] at hbuiltins
    exact runAll_invariant (I := SameButFunctions s)
      (fun u f h => registerOneFunction_same h f (u.handleFor f)) hbuiltins defs

/-- Engines with the same functions whose sources have the same handles. -/
def SameFunctions (s t : LocalEngine ω) : Prop :=
  s.functions = t.functions ∧ ∀ f, s.handleFor f = t.handleFor f

lemma registerOneFunction_agree (out : Outside ω) {s t : LocalEngine ω} (h : SameFunctions s t)
    (f : FunctionDef) (handle : SourceHandle ω) :
    SameFunctions (s.registerOneFunction out f handle).1 (t.registerOneFunction out f handle).1 ∧
      (s.registerOneFunction out f handle).2 = (t.registerOneFunction out f handle).2 := by
  unfold registerOneFunction
  cases buildRegisteredFunction out f handle with
  | error e => exact ⟨h, rfl⟩
  | ok registered =>
      refine ⟨⟨?_, h.2⟩, rfl⟩
      show Function.update s.functions _ _ = Function.update t.functions _ _
      rw [h.1]

/-- The functions that are registered depend on the functions before and the live handles only. -/
lemma registerFunctions_agree {out : Outside ω} {s t : LocalEngine ω} (h : SameFunctions s t)
    (defs : List FunctionDef) :
    SameFunctions (s.registerFunctions out defs).1 (t.registerFunctions out defs).1 ∧
      (s.registerFunctions out defs).2 = (t.registerFunctions out defs).2 := by
  have hbuiltins : SameFunctions (runAll (registerBuiltin out) s builtins).1
      (runAll (registerBuiltin out) t builtins).1 ∧
        (runAll (registerBuiltin out) s builtins).2 = (runAll (registerBuiltin out) t builtins).2 :=
    runAll_simulation (R := SameFunctions)
      (fun u v f huv => registerOneFunction_agree out huv f .none) h builtins
  unfold registerFunctions
  rcases hs : runAll (registerBuiltin out) s builtins with ⟨s', e | _⟩ <;>
    rcases ht : runAll (registerBuiltin out) t builtins with ⟨t', e' | _⟩ <;>
    rw [hs, ht] at hbuiltins
  · exact ⟨hbuiltins.1, hbuiltins.2⟩
  · cases hbuiltins.2
  · cases hbuiltins.2
  · refine runAll_simulation (R := SameFunctions) (fun u v f huv => ?_) hbuiltins.1 defs
    unfold registerDeclared
    rw [huv.2 f]
    exact registerOneFunction_agree out huv f _

end LocalEngine
end Engine
end Pawrly
