import Pawrly.Engine.ReloadEquivalence

/-!
# Which failed catalog changes leave the engine alone

A call that fails is atomic when the catalog, the sources, the functions and the variable store are
those of before (`Kept`).  A failed registration has dropped the source's schema and left what it
had registered before it failed, so it keeps the catalog only when that is what was there
(`registerSource_error_kept_iff`); a registration that succeeded before the failure stays
(`Touched`); a reload has also replaced the variable store and drained the functions.
`failed_call_kept_iff` says of each call exactly when it is atomic.
-/

namespace Pawrly
namespace Engine

open Config EffectfulLoop

variable {ω : Type}

namespace LocalEngine

/-- The catalog, the sources, the functions and the variable store are the same. -/
structure Kept (s t : LocalEngine ω) : Prop where
  catalog : t.session.catalog = s.session.catalog
  sources : t.sources = s.sources
  functions : t.functions = s.functions
  vars : t.vars = s.vars

/-! ## One registration -/

/-- A registration that fails would leave what is there under the source's name. -/
def LeavesAsFound (out : Outside ω) (s : LocalEngine ω) (d : SourceDef) : Prop :=
  Reserved d.name ∨
    match out.discover d with
    | .refused _ => s.session.catalog d.name = none
    | .attach _ _ => s.session.catalog d.name = none
    | .tables connection listed failure =>
        s.session.catalog d.name =
            some (.memory (Session.leftTables ⟨d, connection, s.vars, s.dynamicOf d.name⟩ listed failure)) ∧
          ¬ Session.HalfRaw s.session d listed failure

/-- The registration of the source succeeds. -/
def Registrable (out : Outside ω) (s : LocalEngine ω) (d : SourceDef) : Prop :=
  ¬ Reserved d.name ∧
    ((out.discover d).installation s.vars (s.dynamicOf d.name) d).isSome = true ∧
    (s.session.deregisterSchema d.name).Accepts d (out.discover d)

lemma registrable_iff {out : Outside ω} {s : LocalEngine ω} {d : SourceDef} :
    Registrable out s d ↔ ∃ s', s.registerSource out d = (s', .ok ()) := by
  constructor
  · rintro ⟨hres, hinst, haccepts⟩
    exact exists_registerSource hres hinst haccepts
  · rintro ⟨s', h⟩
    obtain ⟨inst, hreg⟩ := registerSource_ok h
    exact ⟨hreg.not_reserved, by rw [hreg.installs]; rfl, hreg.accepts⟩

lemma not_registrable_of_error {out : Outside ω} {s s' : LocalEngine ω} {d : SourceDef}
    {e : CatalogError} (h : s.registerSource out d = (s', .error e)) : ¬ Registrable out s d := by
  intro hreg
  obtain ⟨t, ht⟩ := registrable_iff.mp hreg
  rw [h] at ht
  cases ht

lemma halfRaw_deregisterSchema {ss : Session ω} {d : SourceDef}
    {listed : List (TableSummary × ω)} {failure : Option String} :
    (ss.deregisterSchema d.name).HalfRaw d listed failure ↔ ss.HalfRaw d listed failure := by
  have hdefault : d.name ≠ defaultSchema →
      (ss.deregisterSchema d.name).catalog defaultSchema = ss.catalog defaultSchema := fun hne =>
    Session.deregisterSchema_catalog_of_ne (Ne.symm hne)
  constructor
  · rintro ⟨hraw, hne, hroom, hrest⟩
    rw [hdefault hne] at hroom
    exact ⟨hraw, hne, hroom, hrest⟩
  · rintro ⟨hraw, hne, hroom, hrest⟩
    rw [← hdefault hne] at hroom
    exact ⟨hraw, hne, hroom, hrest⟩

/-- What a failed registrar leaves is the old catalog exactly when it was there before. -/
lemma catalog_kept_iff {out : Outside ω} {s : LocalEngine ω} {d : SourceDef} {ss : Session ω}
    {e : RegisterError} (hres : ¬ Reserved d.name)
    (h : (s.session.deregisterSchema d.name).registerSource (out.discover d) s.vars
      (s.dynamicOf d.name) d = (ss, .error e)) :
    ss.catalog = s.session.catalog ↔ LeavesAsFound out s d := by
  unfold LeavesAsFound
  rw [or_iff_right hres]
  cases hfound : out.discover d with
  | refused message =>
      rw [hfound] at h
      obtain ⟨rfl, -⟩ := Prod.mk.inj h
      show Function.update s.session.catalog d.name none = s.session.catalog ↔ _
      rw [Function.update_eq_self_iff]
      exact eq_comm
  | attach database listed =>
      rw [hfound, Session.registerSource, Session.registerAttached] at h
      split_ifs at h with hatt
      · obtain ⟨rfl, -⟩ := Prod.mk.inj h
        show Function.update s.session.catalog d.name none = s.session.catalog ↔ _
        rw [Function.update_eq_self_iff]
        exact eq_comm
      · cases h
  | tables connection listed failure =>
      rw [hfound, Session.registerSource] at h
      rcases hlisted : (s.session.deregisterSchema d.name).registerListed
        ⟨d, connection, s.vars, s.dynamicOf d.name⟩ listed failure with ⟨ss', e' | u⟩
      · rw [hlisted] at h
        obtain rfl : ss' = ss := (Prod.mk.inj h).1
        obtain ⟨hleft, hhalf⟩ := Session.registerListed_error
          (Session.deregisterSchema_catalog d.name) hlisted
        rw [halfRaw_deregisterSchema] at hleft hhalf
        by_cases hraw : s.session.HalfRaw d listed failure
        · refine iff_of_false (fun hsame => ?_) (fun hc => hc.2 hraw)
          apply hhalf hraw
          rw [Session.deregisterSchema_catalog_of_ne (Ne.symm hraw.2.1), hsame]
        · rw [hleft hraw]
          show Function.update (Function.update s.session.catalog d.name none) d.name _ =
            s.session.catalog ↔ _ ∧ _
          rw [and_iff_left hraw, Function.update_idem, Function.update_eq_self_iff]
          exact eq_comm
      · rw [hlisted] at h
        cases h

/-- A failed registration keeps the engine exactly when it would leave what it found. -/
theorem registerSource_error_kept_iff {out : Outside ω} {s s' : LocalEngine ω} {d : SourceDef}
    {e : CatalogError} (h : s.registerSource out d = (s', .error e)) :
    Kept s s' ↔ LeavesAsFound out s d := by
  obtain ⟨hsession, hcase⟩ := registerSource_error h
  have hkept : Kept s s' ↔ s'.session.catalog = s.session.catalog := by
    constructor
    · exact fun hk => hk.catalog
    · intro hcatalog
      rw [hsession]
      exact ⟨hcatalog, rfl, rfl, rfl⟩
  rw [hkept]
  rcases hcase with ⟨hres, hsame⟩ | ⟨hres, e', hreg⟩
  · exact iff_of_true (by rw [hsame]) (.inl hres)
  · exact catalog_kept_iff hres hreg

/-! ## Loops of registrations -/

/-- The source was registered after the state. -/
def RegisteredSince (s₀ s : LocalEngine ω) (n : String) : Prop :=
  s₀.clock ≤ s.clock ∧ ∃ r, s.sources.get? n = some r ∧ s₀.clock ≤ r.info.registeredAt

lemma RegisteredSince.sources_ne {s₀ s : LocalEngine ω} {n : String}
    (h : RegisteredSince s₀ s n) : s.sources ≠ s₀.sources := by
  obtain ⟨-, r, hr, hsince⟩ := h
  intro hsame
  rw [hsame] at hr
  exact absurd (s₀.registered_before n r hr) (Nat.not_lt.mpr hsince)

lemma RegisteredSince.not_kept {s₀ s : LocalEngine ω} {n : String} (h : RegisteredSince s₀ s n) :
    ¬ Kept s₀ s := fun hkept => h.sources_ne hkept.sources

lemma Registered.since {out : Outside ω} {s₀ s s' : LocalEngine ω} {d : SourceDef}
    {inst : Installation ω} (h : Registered out s s' d inst) (hclock : s₀.clock ≤ s.clock) :
    RegisteredSince s₀ s' d.name := by
  refine ⟨?_, _, by rw [h.sources, OrderedMap.get?_insert_self], hclock⟩
  rw [h.clock]
  omega

/-- Later registrations, whether they fail or not, do not undo it. -/
lemma RegisteredSince.registerSource {s₀ s : LocalEngine ω} {n : String}
    (h : RegisteredSince s₀ s n) (out : Outside ω) (d : SourceDef) :
    RegisteredSince s₀ (s.registerSource out d).1 n := by
  obtain ⟨hclock, r, hr, hsince⟩ := h
  rcases hreg : s.registerSource out d with ⟨s', e | _⟩
  · obtain ⟨hsession, -⟩ := registerSource_error hreg
    rw [hsession]
    exact ⟨hclock, r, hr, hsince⟩
  · obtain ⟨inst, hinst⟩ := registerSource_ok hreg
    by_cases hn : n = d.name
    · subst hn
      exact hinst.since hclock
    · refine ⟨?_, r, ?_, hsince⟩
      · show s₀.clock ≤ s'.clock
        rw [hinst.clock]
        omega
      · show s'.sources.get? n = some r
        rw [hinst.sources, OrderedMap.get?_insert_of_ne _ hn, hr]

/-- A loop that gets past its first source has registered it. -/
lemma runAll_registered {out : Outside ω} {s s' : LocalEngine ω} {d : SourceDef}
    (h : s.registerSource out d = (s', .ok ())) (defs : List SourceDef) :
    RegisteredSince s (runAll (registerSource out) s (d :: defs)).1 d.name := by
  obtain ⟨inst, hinst⟩ := registerSource_ok h
  rw [runAll_cons_ok h]
  exact runAll_invariant (I := fun t => RegisteredSince s t d.name)
    (fun t d' ht => ht.registerSource out d') (hinst.since le_rfl) defs

/-- The first registration of the list fails and would leave what it finds. -/
def FirstLeaves (out : Outside ω) (s : LocalEngine ω) : List SourceDef → Prop
  | [] => True
  | d :: _ => ¬ Registrable out s d ∧ LeavesAsFound out s d

/-- A failed loop of registrations keeps the engine exactly when its first one fails and leaves what
it finds. -/
theorem runAll_error_kept_iff {out : Outside ω} {s s' : LocalEngine ω} {defs : List SourceDef}
    {e : CatalogError} (h : runAll (registerSource out) s defs = (s', .error e)) :
    Kept s s' ↔ FirstLeaves out s defs := by
  cases defs with
  | nil => cases h
  | cons d defs =>
      show Kept s s' ↔ ¬ Registrable out s d ∧ LeavesAsFound out s d
      rcases hreg : s.registerSource out d with ⟨t, e' | _⟩
      · rw [runAll_cons_error hreg] at h
        obtain rfl : t = s' := (Prod.mk.inj h).1
        rw [and_iff_right (not_registrable_of_error hreg)]
        exact registerSource_error_kept_iff hreg
      · have hsince := runAll_registered hreg defs
        rw [h] at hsince
        exact iff_of_false hsince.not_kept fun hc => hc.1 (registrable_iff.mpr ⟨t, hreg⟩)

/-! ## Functions -/

/-- The functions that are registered before the first one that cannot be built. -/
def functionsUntilFailure (out : Outside ω)
    (functions : String × String → Option (RegisteredFunction ω)) :
    List (FunctionDef × SourceHandle ω) → String × String → Option (RegisteredFunction ω)
  | [] => functions
  | (f, handle) :: rest =>
      match buildRegisteredFunction out f handle with
      | .error _ => functions
      | .ok registered =>
          functionsUntilFailure out
            (Function.update functions (registered.definition.ns, registered.definition.name)
              (some registered)) rest

/-- The functions of a configuration with the connections that they are registered on. -/
def functionsWithHandles (s : LocalEngine ω) (cfg : WorkspaceConfig) :
    List (FunctionDef × SourceHandle ω) :=
  builtins.map (fun f => (f, .none)) ++ cfg.engineFunctions.map fun f => (f, s.handleFor f)

/-- One function on its connection. -/
def registerOn (out : Outside ω) (s : LocalEngine ω) (f : FunctionDef × SourceHandle ω) :
    LocalEngine ω × Except CatalogError Unit :=
  s.registerOneFunction out f.1 f.2

lemma runAll_registerOn_functions (out : Outside ω) (s : LocalEngine ω)
    (fs : List (FunctionDef × SourceHandle ω)) :
    (runAll (registerOn out) s fs).1.functions = functionsUntilFailure out s.functions fs := by
  induction fs generalizing s with
  | nil => rfl
  | cons f rest ih =>
      obtain ⟨f, handle⟩ := f
      rw [functionsUntilFailure]
      cases hbuild : buildRegisteredFunction out f handle with
      | error e =>
          have hstep : registerOn out s (f, handle) = (s, .error e) := by
            simp [registerOn, registerOneFunction, hbuild]
          rw [runAll_cons_error hstep]
      | ok registered =>
          have hstep : registerOn out s (f, handle) = (s.insertFunction registered, .ok ()) := by
            simp [registerOn, registerOneFunction, hbuild]
          rw [runAll_cons_ok hstep]
          exact ih (s.insertFunction registered)

lemma handleFor_congr {s t : LocalEngine ω} (h : t.sources = s.sources) (f : FunctionDef) :
    t.handleFor f = s.handleFor f := by
  unfold handleFor
  rw [h]

lemma registerOn_sources (out : Outside ω) (s : LocalEngine ω) (f : FunctionDef × SourceHandle ω) :
    (registerOn out s f).1.sources = s.sources :=
  (registerOneFunction_same (.refl s) f.1 f.2).sources

/-- Registering functions changes no source, so each one gets the live handle of before. -/
lemma registerFunctions_eq (out : Outside ω) (s : LocalEngine ω) (cfg : WorkspaceConfig) :
    s.registerFunctions out cfg.engineFunctions =
      runAll (registerOn out) s (s.functionsWithHandles cfg) := by
  have hsources : ∀ t f, t.sources = s.sources → (registerOn out t f).1.sources = s.sources :=
    fun t f ht => (registerOn_sources out t f).trans ht
  have hbuiltins : runAll (registerBuiltin out) s builtins =
      runAll (registerOn out) s (builtins.map fun f => (f, .none)) :=
    runAll_map (g := fun f => (f, SourceHandle.none)) (I := fun t => t.sources = s.sources)
      (fun t f ht => ⟨rfl, hsources t (f, .none) ht⟩) rfl _
  have hdeclared : ∀ t : LocalEngine ω, t.sources = s.sources →
      runAll (registerDeclared out) t cfg.engineFunctions =
        runAll (registerOn out) t (cfg.engineFunctions.map fun f => (f, s.handleFor f)) := by
    intro t ht
    refine runAll_map (g := fun f => (f, s.handleFor f)) (I := fun t => t.sources = s.sources)
      (fun u f hu => ⟨?_, hsources u (f, s.handleFor f) hu⟩) ht _
    rw [registerDeclared, registerOn, handleFor_congr hu]
  have hafter : (runAll (registerOn out) s (builtins.map fun f => (f, .none))).1.sources =
      s.sources :=
    runAll_invariant (I := fun t : LocalEngine ω => t.sources = s.sources) hsources rfl _
  rw [registerFunctions, functionsWithHandles, runAll_append, hbuiltins]
  rcases hrun : runAll (registerOn out) s (builtins.map fun f => (f, .none)) with ⟨t, e | _⟩
  · rfl
  · rw [hrun] at hafter
    exact hdeclared t hafter

lemma registerFunctions_functions (out : Outside ω) (s : LocalEngine ω) (cfg : WorkspaceConfig) :
    (s.registerFunctions out cfg.engineFunctions).1.functions =
      functionsUntilFailure out s.functions (s.functionsWithHandles cfg) := by
  rw [registerFunctions_eq, runAll_registerOn_functions]

/-! ## Reloading -/

/-- The sources of a configuration whose definitions are new or changed. -/
def pending (s : LocalEngine ω) (cfg : WorkspaceConfig) : List SourceDef :=
  cfg.intoEngineSources.filter fun d => s.current d.name ≠ some d

lemma runAll_reloadSource (out : Outside ω) (s t : LocalEngine ω) (cfg : WorkspaceConfig) :
    runAll (reloadSource out s.current) t cfg.intoEngineSources =
      runAll (registerSource out) t (s.pending cfg) := by
  apply runAll_filter
  · intro u d hp
    have hne : s.current d.name ≠ some d := of_decide_eq_true hp
    unfold reloadSource
    cases hcurrent : s.current d.name with
    | none => rfl
    | some old =>
        have hold : old ≠ d := fun heq => hne (hcurrent.trans (congrArg some heq))
        exact if_pos hold
  · intro u d hp
    have heq : s.current d.name = some d := by simpa using hp
    unfold reloadSource
    rw [heq]
    exact if_neg fun hne => hne rfl

/-- What a failing reload finds where it would leave it: the variables are those of the new
configuration already; if a source has to be registered, the first one fails and leaves what it
finds; otherwise no source is removed and the functions are those before the one that cannot be
built. -/
structure ReloadLeaves (out : Outside ω) (s : LocalEngine ω) (cfg : WorkspaceConfig) : Prop where
  vars : s.vars = ⟨cfg.dynamicSpecs⟩
  sources : FirstLeaves out (s.setVariables cfg) (s.pending cfg)
  rest : s.pending cfg = [] → s.unseen cfg.intoEngineSources = [] ∧
    functionsUntilFailure out (fun _ => none) (s.functionsWithHandles cfg) = s.functions

lemma kept_setVariables_iff {s t : LocalEngine ω} {cfg : WorkspaceConfig}
    (h : t.vars = (s.setVariables cfg).vars) :
    Kept s t ↔ s.vars = ⟨cfg.dynamicSpecs⟩ ∧ Kept (s.setVariables cfg) t := by
  constructor
  · exact fun hk => ⟨hk.vars.symm.trans h, hk.catalog, hk.sources, hk.functions, h⟩
  · rintro ⟨hvars, hk⟩
    exact ⟨hk.catalog, hk.sources, hk.functions, hk.vars.trans hvars.symm⟩

lemma registerSources_vars {out : Outside ω} {s t : LocalEngine ω} {defs : List SourceDef}
    {res : Except CatalogError Unit} (h : runAll (registerSource out) s defs = (t, res)) :
    t.vars = s.vars := by
  have hinv : (runAll (registerSource out) s defs).1.vars = s.vars := by
    refine runAll_invariant (I := fun u : LocalEngine ω => u.vars = s.vars) (fun u d hu => ?_) rfl
      defs
    rcases hreg : u.registerSource out d with ⟨u', e | _⟩
    · rw [(registerSource_error hreg).1]
      exact hu
    · obtain ⟨inst, hinst⟩ := registerSource_ok hreg
      exact hinst.settings.vars.trans hu
  rwa [h] at hinv

/-- The removals and the new functions of a reload that registered its sources. -/
def finishReload (out : Outside ω) (s t : LocalEngine ω) (cfg : WorkspaceConfig) : LocalEngine ω :=
  ((t.removeSources (s.unseen cfg.intoEngineSources)).drainFunctions.registerFunctions out
    cfg.engineFunctions).1

lemma finishReload_sources (out : Outside ω) (s t : LocalEngine ω) (cfg : WorkspaceConfig) :
    (s.finishReload out t cfg).sources =
      (t.removeSources (s.unseen cfg.intoEngineSources)).sources :=
  (registerFunctions_same out _ _).sources

lemma finishReload_vars (out : Outside ω) (s t : LocalEngine ω) (cfg : WorkspaceConfig) :
    (s.finishReload out t cfg).vars = t.vars :=
  (registerFunctions_same out _ _).vars.trans (removeSources_settings _ _).1

/-- With sources to register, one of them stays registered anew. -/
lemma finishReload_not_kept_of_pending {out : Outside ω} {s t : LocalEngine ω}
    {cfg : WorkspaceConfig} (hne : s.pending cfg ≠ [])
    (h : runAll (registerSource out) (s.setVariables cfg) (s.pending cfg) = (t, .ok ())) :
    ¬ Kept s (s.finishReload out t cfg) := by
  intro hkept
  obtain ⟨d, rest, hd⟩ := List.exists_cons_of_ne_nil hne
  rw [hd] at h
  obtain ⟨u, hu, -⟩ := runAll_cons_eq_ok h
  have hsince := runAll_registered hu rest
  rw [h] at hsince
  obtain ⟨-, r, hr, hclock⟩ := hsince
  have hseen : d.name ∉ s.unseen cfg.intoEngineSources := by
    intro hmem
    apply (mem_unseen.mp hmem).2
    have hpending : d ∈ s.pending cfg := by
      rw [hd]
      exact List.mem_cons_self
    exact List.mem_map_of_mem (List.mem_filter.mp hpending).1
  have hthere : s.sources.get? d.name = some r := by
    rw [← hkept.sources, finishReload_sources, removeSources_get?, if_neg hseen]
    exact hr
  exact absurd (s.registered_before _ _ hthere) (Nat.not_lt.mpr hclock)

/-- A source that the configuration does not have is gone. -/
lemma finishReload_not_kept_of_unseen {out : Outside ω} {s t : LocalEngine ω}
    {cfg : WorkspaceConfig} (hne : s.unseen cfg.intoEngineSources ≠ []) :
    ¬ Kept s (s.finishReload out t cfg) := by
  intro hkept
  obtain ⟨n, rest, hn⟩ := List.exists_cons_of_ne_nil hne
  have hmem : n ∈ s.unseen cfg.intoEngineSources := by
    rw [hn]
    exact List.mem_cons_self
  apply (mem_unseen.mp hmem).1
  rw [← hkept.sources, finishReload_sources, removeSources_get?, if_pos hmem]

/-- With nothing to register and nothing to remove, only the functions can change. -/
lemma finishReload_kept_iff {out : Outside ω} {s : LocalEngine ω} {cfg : WorkspaceConfig}
    (hnone : s.unseen cfg.intoEngineSources = []) :
    Kept (s.setVariables cfg) (s.finishReload out (s.setVariables cfg) cfg) ↔
      functionsUntilFailure out (fun _ => none) (s.functionsWithHandles cfg) = s.functions := by
  have hfunctions := registerFunctions_functions out (s.setVariables cfg).drainFunctions cfg
  have hsame := registerFunctions_same out (s.setVariables cfg).drainFunctions cfg.engineFunctions
  have hfinish : s.finishReload out (s.setVariables cfg) cfg =
      ((s.setVariables cfg).drainFunctions.registerFunctions out cfg.engineFunctions).1 := by
    rw [finishReload, hnone]
    rfl
  rw [hfinish]
  constructor
  · exact fun hk => hfunctions.symm.trans hk.functions
  · intro hf
    exact ⟨congrArg Session.catalog hsame.session, hsame.sources, hfunctions.trans hf, hsame.vars⟩

theorem applyConfig_error_kept_iff {out : Outside ω} {s s' : LocalEngine ω}
    {cfg : WorkspaceConfig} {e : CatalogError} (h : s.applyConfig out cfg = (s', .error e)) :
    Kept s s' ↔ ReloadLeaves out s cfg := by
  unfold applyConfig at h
  rw [runAll_reloadSource] at h
  rcases hrun : runAll (registerSource out) (s.setVariables cfg) (s.pending cfg) with ⟨t, e' | _⟩
  · rw [hrun] at h
    obtain rfl : t = s' := (Prod.mk.inj h).1
    rw [kept_setVariables_iff (registerSources_vars hrun), runAll_error_kept_iff hrun]
    have hpending : s.pending cfg ≠ [] := by
      intro hnil
      rw [hnil] at hrun
      cases hrun
    constructor
    · exact fun hc => ⟨hc.1, hc.2, fun hnil => absurd hnil hpending⟩
    · exact fun hc => ⟨hc.vars, hc.sources⟩
  · rw [hrun] at h
    have hfinish : s' = s.finishReload out t cfg := by
      dsimp only at h
      unfold finishReload
      rcases hf : (t.removeSources (s.unseen cfg.intoEngineSources)).drainFunctions.registerFunctions
        out cfg.engineFunctions with ⟨u, e' | _⟩
      · rw [hf] at h
        exact (Prod.mk.inj h).1.symm
      · rw [hf] at h
        cases h
    rw [hfinish]
    by_cases hpending : s.pending cfg = []
    · rw [hpending] at hrun
      obtain rfl : s.setVariables cfg = t := (Prod.mk.inj hrun).1
      by_cases hunseen : s.unseen cfg.intoEngineSources = []
      · rw [kept_setVariables_iff (finishReload_vars out s _ cfg), finishReload_kept_iff hunseen]
        constructor
        · exact fun hc => ⟨hc.1, by rw [hpending]; trivial, fun _ => ⟨hunseen, hc.2⟩⟩
        · exact fun hc => ⟨hc.vars, (hc.rest hpending).2⟩
      · exact iff_of_false (finishReload_not_kept_of_unseen hunseen)
          fun hc => hunseen (hc.rest hpending).1
    · refine iff_of_false (finishReload_not_kept_of_pending hpending hrun) fun hc => ?_
      obtain ⟨d, rest, hd⟩ := List.exists_cons_of_ne_nil hpending
      have hleaves := hc.sources
      rw [hd] at hleaves hrun
      obtain ⟨u, hu, -⟩ := runAll_cons_eq_ok hrun
      exact hleaves.1 (registrable_iff.mpr ⟨u, hu⟩)

/-! ## The calls -/

/-- A call that changes the catalog. -/
inductive Call
  | addSource (d : SourceDef)
  | refreshCatalog (source : Option String) (order : List String)
  | reloadConfig

def Call.run (out : Outside ω) (s : LocalEngine ω) : Call → LocalEngine ω × Except CatalogError Unit
  | addSource d => ((s.addSource out d).1, (s.addSource out d).2.map fun _ => ())
  | refreshCatalog source order =>
      ((s.refreshCatalog out source order).1, (s.refreshCatalog out source order).2.map fun _ => ())
  | reloadConfig => ((s.reloadConfig out).1, (s.reloadConfig out).2.map fun _ => ())

/-- A failure of the call leaves the engine as it was. -/
def Harmless (out : Outside ω) (s : LocalEngine ω) : Call → Prop
  | .addSource d => out.validate d ≠ [] ∨ LeavesAsFound out s d
  | .refreshCatalog source order =>
      ∀ defs, s.refreshDefs source order = .ok defs → FirstLeaves out s defs
  | .reloadConfig => s.configPath ≠ none → ∀ cfg, out.load = .ok cfg → ReloadLeaves out s cfg

lemma Kept.refl (s : LocalEngine ω) : Kept s s := ⟨rfl, rfl, rfl, rfl⟩

lemma addSource_error_kept_iff {out : Outside ω} {s s' : LocalEngine ω} {d : SourceDef}
    {e : CatalogError} (h : s.addSource out d = (s', .error e)) :
    Kept s s' ↔ out.validate d ≠ [] ∨ LeavesAsFound out s d := by
  unfold addSource at h
  cases hvalidate : out.validate d with
  | cons message messages =>
      rw [hvalidate] at h
      obtain rfl : s = s' := (Prod.mk.inj h).1
      exact iff_of_true (.refl s) (.inl (List.cons_ne_nil _ _))
  | nil =>
      rw [hvalidate] at h
      dsimp only at h
      rw [or_iff_right (not_not.mpr rfl)]
      rcases hreg : s.registerSource out d with ⟨t, e' | _⟩
      · rw [hreg] at h
        obtain rfl : t = s' := (Prod.mk.inj h).1
        exact registerSource_error_kept_iff hreg
      · -- the source that was just registered is there
        obtain ⟨inst, hinst⟩ := registerSource_ok hreg
        rw [hreg] at h
        dsimp only at h
        rw [hinst.sources, OrderedMap.get?_insert_self] at h
        cases h

lemma refreshCatalog_error_kept_iff {out : Outside ω} {s s' : LocalEngine ω}
    {source : Option String} {order : List String} {e : CatalogError}
    (h : s.refreshCatalog out source order = (s', .error e)) :
    Kept s s' ↔ ∀ defs, s.refreshDefs source order = .ok defs → FirstLeaves out s defs := by
  unfold refreshCatalog at h
  cases hdefs : s.refreshDefs source order with
  | error e' =>
      rw [hdefs] at h
      obtain rfl : s = s' := (Prod.mk.inj h).1
      exact iff_of_true (.refl s) fun defs heq => by cases heq
  | ok defs =>
      rw [hdefs] at h
      dsimp only at h
      rcases hrun : runAll (registerSource out) s defs with ⟨t, e' | _⟩
      · rw [hrun] at h
        obtain rfl : t = s' := (Prod.mk.inj h).1
        rw [runAll_error_kept_iff hrun]
        constructor
        · intro hleaves defs' heq
          rwa [← Except.ok.inj heq]
        · exact fun hall => hall defs rfl
      · rw [hrun] at h
        cases h

lemma reloadConfig_error_kept_iff {out : Outside ω} {s s' : LocalEngine ω} {e : CatalogError}
    (h : s.reloadConfig out = (s', .error e)) :
    Kept s s' ↔ (s.configPath ≠ none → ∀ cfg, out.load = .ok cfg → ReloadLeaves out s cfg) := by
  unfold reloadConfig at h
  cases hpath : s.configPath with
  | none =>
      rw [hpath] at h
      obtain rfl : s = s' := (Prod.mk.inj h).1
      exact iff_of_true (.refl s) fun hne => absurd rfl hne
  | some path =>
      rw [hpath] at h
      dsimp only at h
      cases hload : out.load with
      | error message =>
          rw [hload] at h
          obtain rfl : s = s' := (Prod.mk.inj h).1
          exact iff_of_true (.refl s) fun _ cfg heq => by cases heq
      | ok cfg =>
          rw [hload] at h
          rw [applyConfig_error_kept_iff h]
          constructor
          · intro hleaves _ cfg' heq
            rwa [← Except.ok.inj heq]
          · exact fun hall => hall (Option.some_ne_none path) cfg rfl

lemma error_of_map {σ α ε : Type} {r : σ × Except ε α} {s : σ} {e : ε}
    (h : (r.1, r.2.map fun _ => ()) = (s, .error e)) : r = (s, .error e) := by
  obtain ⟨t, e' | a⟩ := r
  · obtain ⟨rfl, herr⟩ := Prod.mk.inj h
    rw [Except.error.inj herr]
  · cases (Prod.mk.inj h).2

def fileConfig : WorkspaceConfig where
  sources := [fileSource]
  sources_nodup := by simp

/-- The sources do not answer any more. -/
def silentOutside : Outside Unit where
  load := .error "no configuration"
  discover := fun _ => .refused "connection refused"
  connect := fun _ => .ok ()
  execute := fun _ => .ok ()

def filesSource : SourceDef where
  name := "files"
  kind := .file

end LocalEngine
end Engine
end Pawrly
