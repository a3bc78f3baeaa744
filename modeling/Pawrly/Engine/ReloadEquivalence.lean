import Pawrly.Engine.LocalEngineEffects
import Pawrly.Lib.LabelledRun

/-!
# A reloaded engine and a fresh one

`reload_config` registers the sources that are new or changed, removes the others and rebuilds the
functions; a source whose definition is the same keeps what it was registered with, and the
semantic catalog is not visited.  When nothing changes that a reload does not visit (`Visited`),
every run of reloads ends in an engine that equals one built from the last configuration
(`reload_equivalent`).  A reload that changes a variable but not the source that uses it shows that
this is needed (`reload_keeps_old_variables`).
-/

namespace Pawrly
namespace Engine

open Config EffectfulLoop LabelledRun

variable {ω : Type}

namespace LocalEngine

/-! ## Equal engines -/

/-- The engines show the same sources, with the variables and bindings that their connections use,
the same functions, the same variable store and bindings, and the same models and metrics. -/
structure Equivalent (s t : LocalEngine ω) : Prop where
  sources : ∀ n, s.sourceView n = t.sourceView n
  functions : s.functions = t.functions
  vars : s.vars = t.vars
  dynamicBindings : s.dynamicBindings = t.dynamicBindings
  semantic : s.semantic = t.semantic

/-- The source shows the installation of its definition in a configuration. -/
def Live (out : Outside ω) (cfg : WorkspaceConfig) (s : LocalEngine ω) (d : SourceDef) : Prop :=
  ¬ Reserved d.name ∧ ∃ inst,
    (out.discover d).installation ⟨cfg.dynamicSpecs⟩ (cfg.dynamicOf d.name) d = some inst ∧
      s.sourceView d.name = some (inst.view d)

/-- There is one view of a live source. -/
lemma Live.view_eq {out : Outside ω} {cfg : WorkspaceConfig} {s t : LocalEngine ω} {d : SourceDef}
    (hs : Live out cfg s d) (ht : Live out cfg t d) : s.sourceView d.name = t.sourceView d.name := by
  obtain ⟨-, inst, hinst, hview⟩ := hs
  obtain ⟨-, inst', hinst', hview'⟩ := ht
  rw [hinst] at hinst'
  obtain rfl := Option.some.inj hinst'
  rw [hview, hview']

/-- The engine is what a configuration says. -/
structure Reflects (out : Outside ω) (cfg : WorkspaceConfig) (path : String) (s : LocalEngine ω) :
    Prop where
  live : ∀ d ∈ cfg.intoEngineSources, Live out cfg s d
  others : ∀ n, n ∉ cfg.intoEngineSources.map SourceDef.name → s.sources.get? n = none
  functions : ∃ t : LocalEngine ω, t.functions = (fun _ => none) ∧
    t.registerFunctions out cfg.engineFunctions = (s, .ok ())
  vars : s.vars = ⟨cfg.dynamicSpecs⟩
  dynamicBindings : s.dynamicBindings = cfg.dynamicBindingsBySource
  semantic : s.semantic = cfg.semanticCatalog
  configPath : s.configPath = some path

variable {out : Outside ω} {cfg : WorkspaceConfig} {path : String}

lemma sourceView_of_none {s : LocalEngine ω} {n : String} (h : s.sources.get? n = none) :
    s.sourceView n = none := by
  rw [sourceView, h, Option.map_none]

lemma sameFunctions_of_views {s t : LocalEngine ω} (hfunctions : s.functions = t.functions)
    (hviews : ∀ n, s.sourceView n = t.sourceView n) : SameFunctions s t := by
  refine ⟨hfunctions, fun f => ?_⟩
  rw [handleFor_eq, handleFor_eq]
  simp only [hviews]

/-- Registering the functions of a configuration on two engines that show the same sources. -/
lemma registerFunctions_of_views {s t s' : LocalEngine ω} {defs : List FunctionDef}
    (hs : s.functions = fun _ => none) (ht : t.functions = fun _ => none)
    (hviews : ∀ n, s.sourceView n = t.sourceView n)
    (h : s.registerFunctions out defs = (s', .ok ())) :
    ∃ t', t.registerFunctions out defs = (t', .ok ()) ∧ s'.functions = t'.functions ∧
      SameButFunctions t t' := by
  obtain ⟨hsame, hres⟩ : SameFunctions (s.registerFunctions out defs).1
      (t.registerFunctions out defs).1 ∧
        (s.registerFunctions out defs).2 = (t.registerFunctions out defs).2 :=
    registerFunctions_agree (sameFunctions_of_views (hs.trans ht.symm) hviews) defs
  have hframe := registerFunctions_same out t defs
  rw [h] at hsame hres
  refine ⟨(t.registerFunctions out defs).1, Prod.ext rfl hres.symm, hsame.1, hframe⟩

/-- A configuration describes one engine. -/
theorem Reflects.equivalent {s t : LocalEngine ω} (hs : Reflects out cfg path s)
    (ht : Reflects out cfg path t) : Equivalent s t := by
  have hviews : ∀ n, s.sourceView n = t.sourceView n := by
    intro n
    by_cases hn : n ∈ cfg.intoEngineSources.map SourceDef.name
    · obtain ⟨d, hd, rfl⟩ := List.mem_map.mp hn
      exact (hs.live d hd).view_eq (ht.live d hd)
    · rw [sourceView_of_none (hs.others n hn), sourceView_of_none (ht.others n hn)]
  have hfunctions : s.functions = t.functions := by
    obtain ⟨s₀, hs₀, hruns⟩ := hs.functions
    obtain ⟨t₀, ht₀, hrunt⟩ := ht.functions
    have hs₁ := registerFunctions_same out s₀ cfg.engineFunctions
    have ht₁ := registerFunctions_same out t₀ cfg.engineFunctions
    rw [hruns] at hs₁
    rw [hrunt] at ht₁
    have hviews₀ : ∀ n, s₀.sourceView n = t₀.sourceView n := by
      intro n
      rw [← hs₁.view, ← ht₁.view]
      exact hviews n
    obtain ⟨t', hrun, heq, -⟩ := registerFunctions_of_views hs₀ ht₀ hviews₀ hruns
    rw [hrunt] at hrun
    rw [heq, (Prod.mk.inj hrun).1]
  exact ⟨hviews, hfunctions, hs.vars.trans ht.vars.symm,
    hs.dynamicBindings.trans ht.dynamicBindings.symm, hs.semantic.trans ht.semantic.symm⟩

/-! ## Going through the sources -/

/-- The loop over the sources of a configuration, started in `s₀`, has done some of them. -/
structure Progress (out : Outside ω) (cfg : WorkspaceConfig) (s₀ : LocalEngine ω)
    (done : List SourceDef) (s : LocalEngine ω) : Prop where
  live : ∀ d ∈ done, Live out cfg s d
  rest : ∀ n, n ∉ done.map SourceDef.name → s.sources.get? n = s₀.sources.get? n ∧
    ∀ v, s₀.sourceView n = some v → Present v → s.sourceView n = some v
  settings : SameSettings s₀ s
  vars : s.vars = ⟨cfg.dynamicSpecs⟩
  dynamicBindings : s.dynamicBindings = cfg.dynamicBindingsBySource

lemma Progress.start {s₀ : LocalEngine ω} (hvars : s₀.vars = ⟨cfg.dynamicSpecs⟩)
    (hbindings : s₀.dynamicBindings = cfg.dynamicBindingsBySource) :
    Progress out cfg s₀ [] s₀ where
  live := by
    intro d hd
    cases hd
  rest := fun n _ => ⟨rfl, fun _ hv _ => hv⟩
  settings := .refl s₀
  vars := hvars
  dynamicBindings := hbindings

/-- The names before and after an element of the configuration's sources. -/
lemma not_mem_done {done rest : List SourceDef} {d : SourceDef}
    (h : cfg.intoEngineSources = done ++ d :: rest) : d.name ∉ done.map SourceDef.name := by
  have hnodup := cfg.intoEngineSources_nodup
  rw [h, List.map_append, List.map_cons, List.nodup_append] at hnodup
  intro hmem
  exact hnodup.2.2 _ hmem _ List.mem_cons_self rfl

/-- A source that is registered is live, and the others stay as they are. -/
lemma Progress.register {s₀ s s' : LocalEngine ω} {done rest : List SourceDef} {d : SourceDef}
    (hl : cfg.intoEngineSources = done ++ d :: rest) (h : Progress out cfg s₀ done s)
    (hreg : s.registerSource out d = (s', .ok ())) : Progress out cfg s₀ (done ++ [d]) s' := by
  obtain ⟨inst, hd⟩ := registerSource_ok hreg
  have hinstalls := hd.installs
  rw [h.vars, dynamicOf, h.dynamicBindings] at hinstalls
  constructor
  case live =>
    intro d' hd'
    rcases List.mem_append.mp hd' with hd' | hd'
    · obtain ⟨hres, inst', hinst', hview⟩ := h.live d' hd'
      have hne : d'.name ≠ d.name := by
        intro heq
        exact not_mem_done hl (heq ▸ List.mem_map_of_mem hd')
      exact ⟨hres, inst', hinst', hd.view_of_ne hne hview (present_view inst' d')⟩
    · rw [List.mem_singleton] at hd'
      subst hd'
      exact ⟨hd.not_reserved, inst, hinstalls, hd.view⟩
  case rest =>
    intro n hn
    rw [List.map_append, List.mem_append, not_or] at hn
    have hne : n ≠ d.name := by simpa using hn.2
    obtain ⟨hsources, hview⟩ := h.rest n hn.1
    refine ⟨?_, fun v hv hpresent => hd.view_of_ne hne (hview v hv hpresent) hpresent⟩
    rw [hd.sources, OrderedMap.get?_insert_of_ne _ hne, hsources]
  case settings => exact h.settings.trans hd.settings
  case vars => exact hd.settings.vars.trans h.vars
  case dynamicBindings => exact hd.settings.dynamicBindings.trans h.dynamicBindings

/-- A source that is left alone is live when it was and its installation is the one in the
configuration. -/
lemma Progress.keep {s₀ s : LocalEngine ω} {done rest : List SourceDef} {d : SourceDef}
    {inst : Installation ω} (hl : cfg.intoEngineSources = done ++ d :: rest)
    (h : Progress out cfg s₀ done s) (hres : ¬ Reserved d.name)
    (hinst : (out.discover d).installation ⟨cfg.dynamicSpecs⟩ (cfg.dynamicOf d.name) d = some inst)
    (hview : s₀.sourceView d.name = some (inst.view d)) : Progress out cfg s₀ (done ++ [d]) s := by
  obtain ⟨-, hrest⟩ := h.rest d.name (not_mem_done hl)
  constructor
  case live =>
    intro d' hd'
    rcases List.mem_append.mp hd' with hd' | hd'
    · exact h.live d' hd'
    · rw [List.mem_singleton] at hd'
      subst hd'
      exact ⟨hres, inst, hinst, hrest _ hview (present_view inst d')⟩
  case rest =>
    intro n hn
    rw [List.map_append, List.mem_append, not_or] at hn
    exact h.rest n hn.1
  case settings => exact h.settings
  case vars => exact h.vars
  case dynamicBindings => exact h.dynamicBindings

/-! ## A fresh engine -/

theorem build_reflects {s : LocalEngine ω} (h : build out cfg (some path) = .ok s) :
    Reflects out cfg path s := by
  unfold build at h
  rcases hrun : runAll (registerSource out) (LocalEngine.start cfg (some path))
    cfg.intoEngineSources with ⟨t, e | _⟩
  · rw [hrun] at h
    cases h
  · rw [hrun] at h
    dsimp only at h
    rcases hfuns : t.registerFunctions out cfg.engineFunctions with ⟨t', e | _⟩
    · rw [hfuns] at h
      cases h
    · rw [hfuns] at h
      obtain rfl := Except.ok.inj h
      have hprogress : Progress out cfg (LocalEngine.start cfg (some path)) cfg.intoEngineSources t :=
        runAll_ok_induction (fun _ _ _ _ _ hl hI hreg => hI.register hl hreg)
          (Progress.start rfl rfl) hrun
      have hsame := registerFunctions_same out t cfg.engineFunctions
      rw [hfuns] at hsame
      constructor
      case live =>
        intro d hd
        rw [Live, hsame.view]
        exact hprogress.live d hd
      case others =>
        intro n hn
        rw [hsame.sources, (hprogress.rest n hn).1]
        rfl
      case functions => exact ⟨t, hprogress.settings.functions, hfuns⟩
      case vars => exact hsame.vars.trans hprogress.vars
      case dynamicBindings => exact hsame.dynamicBindings.trans hprogress.dynamicBindings
      case semantic => exact hsame.semantic.trans hprogress.settings.semantic
      case configPath => exact hsame.configPath.trans hprogress.settings.configPath

/-- A source called as the default schema takes the place of the raw tables, and they the place of
its tables: a configuration has not both. -/
def RawApart (cfg : WorkspaceConfig) : Prop :=
  (∃ d ∈ cfg.intoEngineSources, d.name = defaultSchema) →
    ∀ d ∈ cfg.intoEngineSources, registersRaw d = false

/-- The default schema has nothing but the raw tables of the sources that are done. -/
def RoomForRaw (done : List SourceDef) (s : LocalEngine ω) : Prop :=
  ∃ D : Tables ω, s.session.catalog defaultSchema = some (.memory D) ∧
    ∀ n, n ∉ done.map SourceDef.name → D n = none

lemma Registered.roomForRaw {s s' : LocalEngine ω} {d : SourceDef} {inst : Installation ω}
    {done : List SourceDef} (h : Registered out s s' d inst) (hname : d.name ≠ defaultSchema)
    (hroom : RoomForRaw done s) : RoomForRaw (done ++ [d]) s' := by
  obtain ⟨D, hD, hfree⟩ := hroom
  have hD' : (s.session.deregisterSchema d.name).catalog defaultSchema = some (.memory D) := by
    rw [Session.deregisterSchema_catalog_of_ne hname.symm, hD]
  rcases h.beside.unqualified hname with hsame | ⟨D₀, p, -, hD₀, -, hupd⟩
  · refine ⟨D, hsame.trans hD', fun n hn => hfree n ?_⟩
    rw [List.map_append, List.mem_append, not_or] at hn
    exact hn.1
  · rw [hD'] at hD₀
    obtain rfl := Schema.memory.inj (Option.some.inj hD₀)
    refine ⟨_, hupd, fun n hn => ?_⟩
    rw [List.map_append, List.mem_append, not_or] at hn
    have hne : n ≠ d.name := by simpa using hn.2
    rw [Function.update_of_ne hne]
    exact hfree n hn.1

/-- The loop that builds an engine has done some of its sources. -/
structure Building (out : Outside ω) (cfg : WorkspaceConfig) (path : String)
    (done : List SourceDef) (t : LocalEngine ω) : Prop where
  progress : Progress out cfg (LocalEngine.start cfg (some path)) done t
  attached : ∀ n, n ∉ done.map SourceDef.name → t.session.attached n = false
  room : (∀ d ∈ cfg.intoEngineSources, d.name ≠ defaultSchema) → RoomForRaw done t

lemma Building.start : Building out cfg path [] (LocalEngine.start cfg (some path)) where
  progress := Progress.start rfl rfl
  attached := fun _ _ => rfl
  room := by
    intro _
    refine ⟨fun _ => none, ?_, fun _ _ => rfl⟩
    simp [LocalEngine.start]

/-- The session of an engine that is being built takes what the next source has. -/
lemma Building.accepts {done rest : List SourceDef} {d : SourceDef} {t : LocalEngine ω}
    (h : Building out cfg path done t) (hl : cfg.intoEngineSources = done ++ d :: rest)
    (hraw : RawApart cfg) (hfound : ∀ message, out.discover d ≠ .refused message) :
    (t.session.deregisterSchema d.name).Accepts d (out.discover d) := by
  have hd : d ∈ cfg.intoEngineSources := by
    rw [hl]
    simp
  have hnew := not_mem_done hl
  cases hdiscover : out.discover d with
  | refused message => exact absurd hdiscover (hfound message)
  | attach database listed => exact h.attached d.name hnew
  | tables connection listed failure =>
      intro hregisters
      have hnames : ∀ d' ∈ cfg.intoEngineSources, d'.name ≠ defaultSchema := by
        intro d' hd' hname
        have := hraw ⟨d', hd', hname⟩ d hd
        rw [hregisters] at this
        cases this
      obtain ⟨D, hD, hfree⟩ := h.room hnames
      refine ⟨hnames d hd, D, ?_, hfree d.name hnew⟩
      rw [Session.deregisterSchema_catalog_of_ne (hnames d hd).symm, hD]

/-- A source that is live in some engine can be registered next. -/
lemma Building.register {s t : LocalEngine ω} {done rest : List SourceDef} {d : SourceDef}
    (h : Building out cfg path done t) (hl : cfg.intoEngineSources = done ++ d :: rest)
    (hraw : RawApart cfg) (hlive : Live out cfg s d) :
    ∃ t', t.registerSource out d = (t', .ok ()) ∧ Building out cfg path (done ++ [d]) t' := by
  obtain ⟨hres, inst, hinst, -⟩ := hlive
  have hinst' : ((out.discover d).installation t.vars (t.dynamicOf d.name) d).isSome = true := by
    rw [h.progress.vars, dynamicOf, h.progress.dynamicBindings]
    exact Option.isSome_iff_exists.mpr ⟨inst, hinst⟩
  have hfound : ∀ message, out.discover d ≠ .refused message := by
    intro message hrefused
    rw [hrefused] at hinst
    cases hinst
  obtain ⟨t', ht'⟩ := exists_registerSource hres hinst' (h.accepts hl hraw hfound)
  obtain ⟨inst', hregistered⟩ := registerSource_ok ht'
  refine ⟨t', ht', ?_⟩
  constructor
  case progress => exact h.progress.register hl ht'
  case attached =>
    intro n hn
    rw [List.map_append, List.mem_append, not_or] at hn
    have hne : n ≠ d.name := by simpa using hn.2
    rw [hregistered.beside.attached n hne]
    exact h.attached n hn.1
  case room =>
    intro hnames
    have hd : d ∈ cfg.intoEngineSources := by
      rw [hl]
      simp
    exact hregistered.roomForRaw (hnames d hd) (h.room hnames)

/-- What an engine shows can be built. -/
theorem Reflects.exists_build {s : LocalEngine ω} (h : Reflects out cfg path s)
    (hraw : RawApart cfg) : ∃ fresh, build out cfg (some path) = .ok fresh := by
  obtain ⟨t, hrun, hbuilding⟩ : ∃ t, runAll (registerSource out)
      (LocalEngine.start cfg (some path)) cfg.intoEngineSources = (t, .ok ()) ∧
        Building out cfg path cfg.intoEngineSources t := by
    refine exists_runAll_ok (fun done d rest hl t ht => ?_) Building.start
    apply ht.register hl hraw
    apply h.live
    rw [hl]
    simp
  obtain ⟨s₀, hs₀, hfuns⟩ := h.functions
  have hsame := registerFunctions_same out s₀ cfg.engineFunctions
  rw [hfuns] at hsame
  have hviews : ∀ n, s₀.sourceView n = t.sourceView n := by
    intro n
    rw [← hsame.view]
    by_cases hn : n ∈ cfg.intoEngineSources.map SourceDef.name
    · obtain ⟨d, hd, rfl⟩ := List.mem_map.mp hn
      exact (h.live d hd).view_eq (hbuilding.progress.live d hd)
    · rw [sourceView_of_none (h.others n hn), sourceView_of_none]
      rw [(hbuilding.progress.rest n hn).1]
      rfl
  obtain ⟨t', ht', -, -⟩ :=
    registerFunctions_of_views hs₀ hbuilding.progress.settings.functions hviews hfuns
  refine ⟨t', ?_⟩
  rw [build, hrun]
  dsimp only
  rw [ht']

/-! ## One reload -/

/-- From one load to the next, nothing changes that a reload does not visit. -/
structure Visited (out : Outside ω) (cfg : WorkspaceConfig) (out' : Outside ω)
    (cfg' : WorkspaceConfig) : Prop where
  /-- The models and metrics are the same. -/
  semantic : cfg'.semanticCatalog = cfg.semanticCatalog
  /-- A source whose definition stays answers as before. -/
  answers : ∀ d ∈ cfg.intoEngineSources, d ∈ cfg'.intoEngineSources →
    out'.discover d = out.discover d
  /-- An HTTP source whose definition stays has the variables and bindings of before. -/
  vars : ∀ d ∈ cfg.intoEngineSources, d ∈ cfg'.intoEngineSources → d.kind = .http →
    cfg'.dynamicSpecs = cfg.dynamicSpecs ∧ cfg'.dynamicOf d.name = cfg.dynamicOf d.name
  raw : RawApart cfg'

/-- Only HTTP sources use the variables. -/
lemma installation_congr {d : SourceDef} (h : d.kind ≠ .http) (found : Discovery ω)
    (vars vars' : VariableStore) (dynamic dynamic' : String → Option String) :
    found.installation vars dynamic d = found.installation vars' dynamic' d := by
  cases found with
  | refused message => rfl
  | attach database listed => rfl
  | tables connection listed failure =>
      have hraw : registersRaw d = false := by
        simp [registersRaw, h]
      have hprovider : ∀ object, providerOf (⟨d, connection, vars, dynamic⟩ : HttpSource ω) object =
          providerOf ⟨d, connection, vars', dynamic'⟩ object := by
        intro object
        unfold providerOf
        dsimp only
        split
        · contradiction
        · rfl
      have hhandle : handleOf (⟨d, connection, vars, dynamic⟩ : HttpSource ω) =
          handleOf ⟨d, connection, vars', dynamic'⟩ := by
        unfold handleOf
        dsimp only
        split
        · contradiction
        · rfl
        · rfl
      simp only [Discovery.installation, entriesOf, hprovider, hhandle, hraw, Bool.false_eq_true,
        if_false]

lemma Visited.installation {out' : Outside ω} {cfg' : WorkspaceConfig} {d : SourceDef}
    (h : Visited out cfg out' cfg') (hd : d ∈ cfg.intoEngineSources)
    (hd' : d ∈ cfg'.intoEngineSources) :
    (out'.discover d).installation ⟨cfg'.dynamicSpecs⟩ (cfg'.dynamicOf d.name) d =
      (out.discover d).installation ⟨cfg.dynamicSpecs⟩ (cfg.dynamicOf d.name) d := by
  rw [h.answers d hd hd']
  by_cases hkind : d.kind = .http
  · obtain ⟨hspecs, hbindings⟩ := h.vars d hd hd' hkind
    rw [hspecs, hbindings]
  · exact installation_congr hkind _ _ _ _ _

/-- A source that is live under its definition is one of the configuration. -/
lemma Reflects.mem_of_current {s : LocalEngine ω} {d : SourceDef} (h : Reflects out cfg path s)
    (hcurrent : s.current d.name = some d) : d ∈ cfg.intoEngineSources := by
  rw [current_eq] at hcurrent
  by_cases hn : d.name ∈ cfg.intoEngineSources.map SourceDef.name
  · obtain ⟨d₀, hd₀, hname⟩ := List.mem_map.mp hn
    obtain ⟨-, inst, -, hview⟩ := h.live d₀ hd₀
    rw [← hname, hview, Option.map_some] at hcurrent
    obtain rfl : d₀ = d := Option.some.inj hcurrent
    exact hd₀
  · rw [sourceView_of_none (h.others _ hn)] at hcurrent
    cases hcurrent

/-- The loop over the new sources. -/
lemma Reflects.reloadSources {s t : LocalEngine ω} {out' : Outside ω} {cfg' : WorkspaceConfig}
    (h : Reflects out cfg path s) (hvisited : Visited out cfg out' cfg')
    (hrun : runAll (reloadSource out' s.current) (s.setVariables cfg') cfg'.intoEngineSources =
      (t, .ok ())) :
    Progress out' cfg' (s.setVariables cfg') cfg'.intoEngineSources t := by
  refine runAll_ok_induction (fun done d rest u u' hl hI hstep => ?_) (Progress.start rfl rfl) hrun
  unfold reloadSource at hstep
  cases hcurrent : s.current d.name with
  | none =>
      rw [hcurrent] at hstep
      exact hI.register hl hstep
  | some old =>
      rw [hcurrent] at hstep
      dsimp only at hstep
      split_ifs at hstep with hne
      · exact hI.register hl hstep
      · obtain rfl : old = d := not_not.mp hne
        obtain rfl := (Prod.mk.inj hstep).1
        have hmem := h.mem_of_current hcurrent
        have hmem' : old ∈ cfg'.intoEngineSources := by
          rw [hl]
          simp
        obtain ⟨hres, inst, hinst, hview⟩ := h.live old hmem
        rw [← hvisited.installation hmem hmem'] at hinst
        exact hI.keep hl hres hinst hview

/-! ## Removing -/

lemma removeSourceInner_get? (s : LocalEngine ω) (name n : String) :
    (s.removeSourceInner name).1.sources.get? n =
      if n = name then none else s.sources.get? n := by
  unfold removeSourceInner
  split_ifs with hcontains hn hn
  · rw [hn]
    exact OrderedMap.get?_erase_self _ _
  · exact OrderedMap.get?_erase_of_ne _ hn
  · rw [hn]
    simpa [OrderedMap.contains] using hcontains
  · rfl

lemma removeSourceInner_catalog (s : LocalEngine ω) {name n : String} (h : n ≠ name) :
    (s.removeSourceInner name).1.session.catalog n = s.session.catalog n := by
  unfold removeSourceInner
  split_ifs
  · exact Session.deregisterSchema_catalog_of_ne h
  · rfl

lemma removeSourceInner_settings (s : LocalEngine ω) (name : String) :
    (s.removeSourceInner name).1.vars = s.vars ∧
      (s.removeSourceInner name).1.dynamicBindings = s.dynamicBindings ∧
      (s.removeSourceInner name).1.semantic = s.semantic ∧
      (s.removeSourceInner name).1.configPath = s.configPath := by
  unfold removeSourceInner
  split_ifs
  · exact ⟨rfl, rfl, rfl, rfl⟩
  · exact ⟨rfl, rfl, rfl, rfl⟩

lemma removeSources_cons (s : LocalEngine ω) (name : String) (names : List String) :
    s.removeSources (name :: names) = (s.removeSourceInner name).1.removeSources names := rfl

/-- Exactly the sources of the list are gone. -/
lemma removeSources_get? (s : LocalEngine ω) (names : List String) (n : String) :
    (s.removeSources names).sources.get? n = if n ∈ names then none else s.sources.get? n := by
  induction names generalizing s with
  | nil => simp [removeSources]
  | cons name names ih =>
      rw [removeSources_cons, ih, removeSourceInner_get?]
      by_cases hn : n = name
      · simp [hn]
      · simp [hn]

lemma removeSources_view (s : LocalEngine ω) {names : List String} {n : String} (h : n ∉ names) :
    (s.removeSources names).sourceView n = s.sourceView n := by
  apply sourceView_congr
  · rw [removeSources_get?, if_neg h]
  · induction names generalizing s with
    | nil => rfl
    | cons name names ih =>
        rw [List.mem_cons, not_or] at h
        rw [removeSources_cons, ih _ h.2, removeSourceInner_catalog _ h.1]

lemma removeSources_settings (s : LocalEngine ω) (names : List String) :
    (s.removeSources names).vars = s.vars ∧
      (s.removeSources names).dynamicBindings = s.dynamicBindings ∧
      (s.removeSources names).semantic = s.semantic ∧
      (s.removeSources names).configPath = s.configPath := by
  induction names generalizing s with
  | nil => exact ⟨rfl, rfl, rfl, rfl⟩
  | cons name names ih =>
      obtain ⟨hvars, hbindings, hsemantic, hpath⟩ := removeSourceInner_settings s name
      obtain ⟨hvars', hbindings', hsemantic', hpath'⟩ := ih (s.removeSourceInner name).1
      exact ⟨hvars'.trans hvars, hbindings'.trans hbindings, hsemantic'.trans hsemantic,
        hpath'.trans hpath⟩

/-- The live sources that the new configuration does not have are the unseen ones. -/
lemma mem_unseen {s : LocalEngine ω} {defs : List SourceDef} {n : String} :
    n ∈ s.unseen defs ↔ s.sources.get? n ≠ none ∧ n ∉ defs.map SourceDef.name := by
  have hkeys : n ∈ s.sources.entries.map Prod.fst ↔ s.sources.get? n ≠ none := by
    rw [Option.ne_none_iff_exists', List.mem_map]
    constructor
    · rintro ⟨⟨k, v⟩, hmem, rfl⟩
      exact ⟨v, OrderedMap.mem_entries.mp hmem⟩
    · rintro ⟨v, hv⟩
      exact ⟨(n, v), OrderedMap.mem_entries.mpr hv, rfl⟩
  rw [unseen, List.mem_filter, hkeys, decide_eq_true_iff]

/-! ## Runs of reloads -/

/-- A reload that goes through, and misses nothing, makes the engine what the new configuration
says. -/
theorem Reflects.reload {s s' : LocalEngine ω} {out' : Outside ω} {cfg' : WorkspaceConfig}
    {report : ReloadReport} (h : Reflects out cfg path s) (hvisited : Visited out cfg out' cfg')
    (hload : out'.load = .ok cfg') (hreload : s.reloadConfig out' = (s', .ok report)) :
    Reflects out' cfg' path s' := by
  unfold reloadConfig at hreload
  rw [h.configPath, hload] at hreload
  dsimp only at hreload
  unfold applyConfig at hreload
  rcases hrun : runAll (reloadSource out' s.current) (s.setVariables cfg') cfg'.intoEngineSources
    with ⟨t, e | _⟩
  · rw [hrun] at hreload
    cases hreload
  · rw [hrun] at hreload
    dsimp only at hreload
    rcases hfuns : (t.removeSources (s.unseen cfg'.intoEngineSources)).drainFunctions.registerFunctions
      out' cfg'.engineFunctions with ⟨u, e | _⟩
    · rw [hfuns] at hreload
      cases hreload
    · rw [hfuns] at hreload
      obtain rfl := (Prod.mk.inj hreload).1
      have hprogress := h.reloadSources hvisited hrun
      have hsame := registerFunctions_same out'
        (t.removeSources (s.unseen cfg'.intoEngineSources)).drainFunctions cfg'.engineFunctions
      rw [hfuns] at hsame
      obtain ⟨hvars, hbindings, hsemantic, hpath⟩ :=
        removeSources_settings t (s.unseen cfg'.intoEngineSources)
      constructor
      case live =>
        intro d hd
        have hkept : d.name ∉ s.unseen cfg'.intoEngineSources := by
          intro hmem
          exact (mem_unseen.mp hmem).2 (List.mem_map_of_mem hd)
        rw [Live, hsame.view]
        show ¬ Reserved d.name ∧ ∃ inst, _ ∧
          (t.removeSources (s.unseen cfg'.intoEngineSources)).sourceView d.name = _
        rw [removeSources_view t hkept]
        exact hprogress.live d hd
      case others =>
        intro n hn
        rw [hsame.sources]
        show (t.removeSources (s.unseen cfg'.intoEngineSources)).sources.get? n = none
        rw [removeSources_get?]
        split_ifs with hmem
        · rfl
        · rw [(hprogress.rest n hn).1]
          by_contra hthere
          exact hmem (mem_unseen.mpr ⟨hthere, hn⟩)
      case functions => exact ⟨_, rfl, hfuns⟩
      case vars => exact hsame.vars.trans (hvars.trans hprogress.vars)
      case dynamicBindings =>
        exact hsame.dynamicBindings.trans (hbindings.trans hprogress.dynamicBindings)
      case semantic =>
        calc u.semantic = s.semantic :=
              hsame.semantic.trans (hsemantic.trans hprogress.settings.semantic)
          _ = cfg.semanticCatalog := h.semantic
          _ = cfg'.semanticCatalog := hvisited.semantic.symm
      case configPath =>
        exact hsame.configPath.trans ((hpath.trans hprogress.settings.configPath).trans h.configPath)

/-- An engine with what it met at the last load and the configuration that it loaded. -/
structure Loaded (ω : Type) where
  engine : LocalEngine ω
  outside : Outside ω
  config : WorkspaceConfig

/-- A reload that returns `Ok`. -/
def reloadStep (l : Loaded ω) (out : Outside ω) : Option (Loaded ω) :=
  match l.engine.reloadConfig out, out.load with
  | (s, .ok _), .ok cfg => some ⟨s, out, cfg⟩
  | _, _ => none

/-- The next load has a configuration, and the reload misses nothing of it. -/
def MissesNothing (l : Loaded ω) (out : Outside ω) : Prop :=
  ∀ cfg, out.load = .ok cfg → Visited l.outside l.config out cfg

lemma reloadStep_eq_some {l l' : Loaded ω} {out : Outside ω} (h : reloadStep l out = some l') :
    ∃ report, l.engine.reloadConfig out = (l'.engine, .ok report) ∧ out.load = .ok l'.config ∧
      l'.outside = out := by
  unfold reloadStep at h
  rcases hreload : l.engine.reloadConfig out with ⟨s, e | report⟩
  · rw [hreload] at h
    cases h
  · rw [hreload] at h
    cases hload : out.load with
    | error message =>
        rw [hload] at h
        cases h
    | ok cfg =>
        rw [hload] at h
        obtain rfl := Option.some.inj h
        exact ⟨report, rfl, rfl, rfl⟩

/-- An HTTP source with a token that is declared with a client. -/
def tokenSource (client : String) : DeclaredSource where
  name := "api"
  kind := .http
  dynamicVars := [⟨"TOKEN", "api/TOKEN", .str client⟩]

def fileSource : DeclaredSource where
  name := "files"
  kind := .file

def tokenConfig (client : String) : WorkspaceConfig where
  sources := [tokenSource client]
  sources_nodup := by simp

def twoSources (client : String) : WorkspaceConfig where
  sources := [tokenSource client, fileSource]
  sources_nodup := by simp [tokenSource, fileSource]

/-- Every source has one table, and every function can be built. -/
def calmOutside (cfg : WorkspaceConfig) : Outside Unit where
  load := .ok cfg
  discover := fun _ => .tables () [({ name := "items" }, ())] none
  connect := fun _ => .ok ()
  execute := fun _ => .ok ()

/-- A fresh engine with what it was built from. -/
def freshLoaded (cfg : WorkspaceConfig) : Option (Loaded Unit) :=
  (build (calmOutside cfg) cfg (some "pawrly.yaml")).toOption.map fun s => ⟨s, calmOutside cfg, cfg⟩

/-- The client that the connection of a source gets its token with. -/
def clientOf (s : LocalEngine Unit) (name id : String) : Option String :=
  match (s.sourceView name).map SourceView.functionHandle with
  | some (.http source) =>
      match source.vars.specs id with
      | some (.str client) => some client
      | _ => none
  | _ => none

lemma Equivalent.clientOf {s t : LocalEngine Unit} (h : Equivalent s t) (name id : String) :
    clientOf s name id = clientOf t name id := by
  rw [LocalEngine.clientOf, LocalEngine.clientOf, h.sources]

lemma build_of_freshLoaded {cfg : WorkspaceConfig} {l : Loaded Unit}
    (h : freshLoaded cfg = some l) :
    build (calmOutside cfg) cfg (some "pawrly.yaml") = .ok l.engine ∧ l.outside = calmOutside cfg ∧
      l.config = cfg := by
  obtain ⟨s, hs, rfl⟩ := Option.map_eq_some_iff.mp h
  refine ⟨?_, rfl, rfl⟩
  cases hbuild : build (calmOutside cfg) cfg (some "pawrly.yaml") with
  | error e =>
      rw [hbuild] at hs
      cases hs
  | ok s' =>
      rw [hbuild] at hs
      rw [Option.some.inj hs]

lemma visited_twoSources (client : String) :
    Visited (calmOutside (tokenConfig client)) (tokenConfig client)
      (calmOutside (twoSources client)) (twoSources client) where
  semantic := rfl
  answers := fun _ _ _ => rfl
  vars := by
    intro d hd _ _
    obtain rfl := List.mem_singleton.mp hd
    exact ⟨rfl, rfl⟩
  raw := by
    rintro ⟨d, hd, hname⟩
    have hnames : ∀ d ∈ (twoSources client).intoEngineSources, d.name ≠ defaultSchema := by
      simp [twoSources, WorkspaceConfig.intoEngineSources, tokenSource, fileSource, defaultSchema]
    exact absurd hname (hnames d hd)

end LocalEngine
end Engine
end Pawrly
