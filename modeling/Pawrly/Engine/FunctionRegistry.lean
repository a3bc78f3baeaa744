import Pawrly.Config.Functions
import Pawrly.Lib.Separated

/-!
# Registered functions

A function is registered under the pair of its namespace and its name, and its UDTF under the mangled
name.  A call is rewritten to the mangled name, so it reaches the UDTF that was registered last under
it; removing a source takes away the mangled names of its functions.  Identifiers without `__` may
still make one at the junction: `functionsApart_iff` says when no function of a configuration affects
another.
-/

namespace Pawrly
namespace Functions

open Config Separated

/-! ## The registry -/

/-- `mangle`. -/
def mangle (ns name : String) : String := "pawrly_fn__" ++ ns ++ "__" ++ name

/-- A registered function, with its UDTF's name and what runs it. -/
structure RegisteredFunction (ω : Type) where
  definition : FunctionDef
  mangled : String
  executor : ω

/-- `build_registered_function`, of a function whose executor can be built. -/
def build {ω : Type} (f : FunctionDef) (executor : ω) : RegisteredFunction ω where
  definition := f
  mangled := mangle f.ns f.name
  executor := executor

variable {ω : Type}

def RegisteredFunction.key (f : RegisteredFunction ω) : String × String := f.definition.key

/-- The functions by namespace and name. -/
structure FunctionRegistry (ω : Type) where
  byName : List (RegisteredFunction ω)
  keys_nodup : (byName.map RegisteredFunction.key).Nodup

namespace FunctionRegistry

def empty : FunctionRegistry ω := ⟨[], List.nodup_nil⟩

def isEmpty (r : FunctionRegistry ω) : Bool := r.byName.isEmpty

def get (r : FunctionRegistry ω) (ns name : String) : Option (RegisteredFunction ω) :=
  r.byName.find? fun f => f.key = (ns, name)

def contains (r : FunctionRegistry ω) (ns name : String) : Bool := (r.get ns name).isSome

/-- `insert`: a function of the same name is replaced. -/
def insert (r : FunctionRegistry ω) (f : RegisteredFunction ω) : FunctionRegistry ω where
  byName := f :: r.byName.filter fun g => g.key ≠ f.key
  keys_nodup := by
    rw [List.map_cons, List.nodup_cons]
    refine ⟨?_, r.keys_nodup.sublist (List.filter_sublist.map _)⟩
    intro hmem
    obtain ⟨g, hg, hkey⟩ := List.mem_map.mp hmem
    exact of_decide_eq_true (List.mem_filter.mp hg).2 hkey

/-- The functions that are attached to the source. -/
def attachedTo (r : FunctionRegistry ω) (source : String) : List (RegisteredFunction ω) :=
  r.byName.filter fun f => f.definition.source = some source

/-- `remove_by_source`, with the mangled names of the functions that are dropped. -/
def removeBySource (r : FunctionRegistry ω) (source : String) : FunctionRegistry ω × List String :=
  (⟨r.byName.filter fun f => f.definition.source ≠ some source,
    r.keys_nodup.sublist (List.filter_sublist.map _)⟩,
    (r.attachedTo source).map RegisteredFunction.mangled)

/-- `drain_mangled`. -/
def drainMangled (r : FunctionRegistry ω) : FunctionRegistry ω × List String :=
  (empty, r.byName.map RegisteredFunction.mangled)

/-- `declared_names`. -/
def declaredNames (r : FunctionRegistry ω) : List String :=
  (r.byName.map fun f => f.definition.ns ++ "." ++ f.definition.name).mergeSort
    fun a b => decide (a ≤ b)

lemma get_eq_some {r : FunctionRegistry ω} {ns name : String} {f : RegisteredFunction ω} :
    r.get ns name = some f ↔ f ∈ r.byName ∧ f.key = (ns, name) := by
  constructor
  · intro h
    exact ⟨List.mem_of_find?_eq_some h, by simpa using List.find?_some h⟩
  · rintro ⟨hmem, hkey⟩
    have hsome : (r.get ns name).isSome := by
      rw [get, List.find?_isSome]
      exact ⟨f, hmem, decide_eq_true hkey⟩
    obtain ⟨g, hg⟩ := Option.isSome_iff_exists.mp hsome
    have hgkey : g.key = (ns, name) := by simpa using List.find?_some hg
    rw [hg, List.inj_on_of_nodup_map r.keys_nodup (List.mem_of_find?_eq_some hg) hmem
      (hgkey.trans hkey.symm)]

@[simp] lemma get_empty (ns name : String) : (empty : FunctionRegistry ω).get ns name = none := rfl

lemma get_insert (r : FunctionRegistry ω) (f : RegisteredFunction ω) (ns name : String) :
    (r.insert f).get ns name = if f.key = (ns, name) then some f else r.get ns name := by
  rw [get, insert, List.find?_cons]
  by_cases hkey : f.key = (ns, name)
  · simp [hkey]
  · rw [if_neg hkey, decide_eq_false hkey, List.find?_filter]
    dsimp only
    rw [get]
    congr 1
    funext g
    by_cases hg : g.key = (ns, name)
    · simp [hg, Ne.symm hkey]
    · simp [hg]

lemma get_removeBySource (r : FunctionRegistry ω) (source ns name : String) :
    (r.removeBySource source).1.get ns name =
      (r.get ns name).filter fun f => f.definition.source ≠ some source := by
  refine Option.ext fun f => ?_
  rw [get_eq_some, Option.filter_eq_some_iff, get_eq_some, removeBySource, List.mem_filter,
    and_right_comm]

end FunctionRegistry

/-! ## The engine's functions and UDTFs -/

/-- The registry and the UDTFs of the session. -/
structure State (ω : Type) where
  functions : FunctionRegistry ω
  udtfs : String → Option (RegisteredFunction ω)

def State.start : State ω := ⟨.empty, fun _ => none⟩

def deregisterUdtf (udtfs : String → Option (RegisteredFunction ω)) (name : String) :
    String → Option (RegisteredFunction ω) :=
  Function.update udtfs name none

inductive Action (ω : Type)
  | register (f : FunctionDef) (executor : ω)
  | removeSource (source : String)
  | drain

/-- The functions that an action registers. -/
def Action.Among (defs : List FunctionDef) : Action ω → Prop
  | .register f _ => f ∈ defs
  | .removeSource _ | .drain => True

/-- `register_one_function`, the functions of `remove_source_inner`, and those of a reload. -/
def State.act (s : State ω) : Action ω → State ω
  | .register f executor =>
      { functions := s.functions.insert (build f executor)
        udtfs := Function.update s.udtfs (mangle f.ns f.name) (some (build f executor)) }
  | .removeSource source =>
      let (functions, names) := s.functions.removeBySource source
      { functions := functions, udtfs := names.foldl deregisterUdtf s.udtfs }
  | .drain =>
      let (functions, names) := s.functions.drainMangled
      { functions := functions, udtfs := names.foldl deregisterUdtf s.udtfs }

def State.run (s : State ω) (as : List (Action ω)) : State ω := as.foldl State.act s

/-- The function that a call of `ns.name` runs: a registered pair is rewritten to the mangled name,
whose UDTF is looked up. -/
def State.call (s : State ω) (ns name : String) : Option (RegisteredFunction ω) :=
  if s.functions.contains ns name then s.udtfs (mangle ns name) else none

/-- The action is about the function. -/
def Action.Concerns (s : State ω) (ns name : String) : Action ω → Prop
  | .register f _ => f.key = (ns, name)
  | .removeSource source =>
      ∃ f, s.functions.get ns name = some f ∧ f.definition.source = some source
  | .drain => True

/-- The functions have names of their own, and in every run over them a call runs what was registered
for it last, whatever is done with the others. -/
structure KeepsApart (ω : Type) (defs : List FunctionDef) : Prop where
  names : ∀ f ∈ defs, ∀ g ∈ defs, mangle f.ns f.name = mangle g.ns g.name → f.key = g.key
  registered : ∀ as : List (Action ω), (∀ a ∈ as, a.Among defs) → ∀ f ∈ defs, ∀ executor,
    ((State.start.run as).act (.register f executor)).call f.ns f.name = some (build f executor)
  untouched : ∀ as : List (Action ω), (∀ a ∈ as, a.Among defs) → ∀ a : Action ω, a.Among defs →
    ∀ ns name, ¬ a.Concerns (State.start.run as) ns name →
      ((State.start.run as).act a).call ns name = (State.start.run as).call ns name

/-! ## Runs -/

/-- Each function of the registry has its UDTF. -/
def State.Coherent (defs : List FunctionDef) (s : State ω) : Prop :=
  ∀ f ∈ s.functions.byName, f.definition ∈ defs ∧
    f.mangled = mangle f.definition.ns f.definition.name ∧ s.udtfs f.mangled = some f

variable {defs : List FunctionDef} {s : State ω}

lemma foldl_deregisterUdtf (names : List String) (udtfs : String → Option (RegisteredFunction ω))
    (name : String) :
    names.foldl deregisterUdtf udtfs name = if name ∈ names then none else udtfs name := by
  induction names generalizing udtfs with
  | nil => simp
  | cons n names ih =>
      rw [List.foldl_cons, ih, deregisterUdtf]
      by_cases hname : name = n
      · simp [hname]
      · simp [hname, Function.update_of_ne]

/-- In a coherent state a call runs the function of the registry. -/
lemma State.Coherent.call_eq (h : s.Coherent defs) (ns name : String) :
    s.call ns name = s.functions.get ns name := by
  rw [State.call, FunctionRegistry.contains]
  cases hget : s.functions.get ns name with
  | none => rfl
  | some f =>
      obtain ⟨hmem, hkey⟩ := FunctionRegistry.get_eq_some.mp hget
      obtain ⟨-, hmangled, hudtf⟩ := h f hmem
      cases hkey
      rw [hmangled] at hudtf
      exact hudtf

section Run

variable (hnames : ∀ f ∈ defs, ∀ g ∈ defs, mangle f.ns f.name = mangle g.ns g.name → f.key = g.key)

include hnames

/-- Two registered functions with one mangled name are one. -/
lemma State.Coherent.eq_of_mangled (h : s.Coherent defs) {f g : RegisteredFunction ω}
    (hf : f ∈ s.functions.byName) (hg : g ∈ s.functions.byName) (heq : f.mangled = g.mangled) :
    f = g := by
  obtain ⟨hfdef, hfm, -⟩ := h f hf
  obtain ⟨hgdef, hgm, -⟩ := h g hg
  rw [hfm, hgm] at heq
  exact List.inj_on_of_nodup_map s.functions.keys_nodup hf hg (hnames _ hfdef _ hgdef heq)

lemma State.Coherent.act (h : s.Coherent defs) {a : Action ω} (ha : a.Among defs) :
    (s.act a).Coherent defs := by
  cases a with
  | register f executor =>
      intro g hg
      rcases List.mem_cons.mp hg with rfl | hg
      · exact ⟨ha, rfl, Function.update_self _ _ _⟩
      · obtain ⟨hmem, hne⟩ := List.mem_filter.mp hg
        obtain ⟨hdef, hmangled, hudtf⟩ := h g hmem
        refine ⟨hdef, hmangled, ?_⟩
        have hother : g.mangled ≠ mangle f.ns f.name := fun heq =>
          of_decide_eq_true hne (hnames _ hdef f ha (hmangled ▸ heq))
        exact (Function.update_of_ne hother _ _).trans hudtf
  | removeSource source =>
      intro g hg
      obtain ⟨hmem, hne⟩ := List.mem_filter.mp hg
      obtain ⟨hdef, hmangled, hudtf⟩ := h g hmem
      refine ⟨hdef, hmangled, (foldl_deregisterUdtf _ _ _).trans ?_⟩
      rw [if_neg, hudtf]
      intro hremoved
      obtain ⟨f, hf, heq⟩ := List.mem_map.mp hremoved
      obtain ⟨hfmem, hsource⟩ := List.mem_filter.mp hf
      rw [h.eq_of_mangled hnames hfmem hmem heq] at hsource
      exact of_decide_eq_true hne (of_decide_eq_true hsource)
  | drain => exact fun g hg => absurd hg List.not_mem_nil

/-- Every run over the functions is coherent. -/
lemma coherent_run {as : List (Action ω)} (has : ∀ a ∈ as, a.Among defs) :
    (State.start.run as).Coherent defs := by
  have hrun : ∀ (as : List (Action ω)) (s : State ω), (∀ a ∈ as, a.Among defs) → s.Coherent defs →
      (s.run as).Coherent defs := by
    intro as
    induction as with
    | nil => exact fun s _ h => h
    | cons a as ih =>
        intro s has h
        obtain ⟨ha, has⟩ := List.forall_mem_cons.mp has
        exact ih (s.act a) has (h.act hnames ha)
  exact hrun as .start has fun f hf => absurd hf List.not_mem_nil

/-- Names of their own keep the functions apart. -/
lemma keepsApart_of_names : KeepsApart ω defs := by
  refine ⟨hnames, ?_, ?_⟩
  · intro as has f hf executor
    have hcoherent := (coherent_run hnames has).act hnames (a := .register f executor) hf
    rw [hcoherent.call_eq]
    exact (FunctionRegistry.get_insert _ _ _ _).trans (if_pos rfl)
  · intro as has a ha ns name hconcerns
    have hcoherent := coherent_run hnames has
    rw [(hcoherent.act hnames ha).call_eq, hcoherent.call_eq]
    cases a with
    | register f executor =>
        exact (FunctionRegistry.get_insert _ _ _ _).trans (if_neg hconcerns)
    | removeSource source =>
        refine (FunctionRegistry.get_removeBySource _ _ _ _).trans ?_
        cases hget : (State.start.run as).functions.get ns name with
        | none => rfl
        | some f =>
            rw [Option.filter_some_pos]
            exact decide_eq_true fun hsource => hconcerns ⟨f, hget, hsource⟩
    | drain => exact absurd trivial hconcerns

end Run

/-! ## Mangled names -/

lemma toList_mangle (ns name : String) :
    (mangle ns name).toList = "pawrly_fn__".toList ++ joined '_' ns.toList name.toList := by
  simp [mangle, joined]

lemma not_infix_of_ident {name : String} (h : isValidFunctionIdent name = true) :
    ¬ ['_', '_'] <:+: name.toList := by
  rw [isValidFunctionIdent, Bool.and_eq_true, Bool.not_eq_true'] at h
  intro hinfix
  have hcontains : Text.contains "__" name = true := Text.occursIn_iff.mpr hinfix
  rw [h.2] at hcontains
  cases hcontains

/-- The namespace of the second function is that of the first with a lower line after it, and the name
of the first is that of the second with a lower line before it. -/
def MeetAtJunction (f g : FunctionDef) : Prop := g.ns = f.ns ++ "_" ∧ f.name = "_" ++ g.name

instance (f g : FunctionDef) : Decidable (MeetAtJunction f g) :=
  inferInstanceAs (Decidable (_ ∧ _))

lemma meetAtJunction_iff {f g : FunctionDef} (hg : isValidFunctionIdent g.ns = true) :
    MeetAtJunction f g ↔ Shifted '_' f.ns.toList f.name.toList g.ns.toList g.name.toList := by
  simp only [MeetAtJunction, ← String.toList_inj, String.toList_append]
  constructor
  · rintro ⟨hns, hname⟩
    rw [hns, hname]
    exact .one _ _
  · intro h
    exact h.of_free (not_infix_of_ident hg)

/-- Identifiers without the separator have one mangled name only if they meet at the junction. -/
lemma mangle_eq_iff {f g : FunctionDef} (hf : isValidFunctionIdent f.ns = true)
    (hg : isValidFunctionIdent g.ns = true) :
    mangle f.ns f.name = mangle g.ns g.name ↔
      f.key = g.key ∨ MeetAtJunction f g ∨ MeetAtJunction g f := by
  rw [← String.toList_inj, toList_mangle, toList_mangle, List.append_right_inj, joined_eq_iff,
    meetAtJunction_iff hg, meetAtJunction_iff hf, String.toList_inj, String.toList_inj,
    FunctionDef.key, FunctionDef.key, Prod.mk.injEq]

/-- The functions of an accepted configuration are kept apart when no two of them meet at the junction
of the mangled name. -/
theorem functionsApart_iff {cfg : WorkspaceConfig} (h : validateFunctions cfg = []) :
    KeepsApart ω cfg.functionDefs ↔
      ∀ f ∈ cfg.functionDefs, ∀ g ∈ cfg.functionDefs, ¬ MeetAtJunction f g := by
  constructor
  · intro hkeeps f hf g hg hmeet
    have hkey := hkeeps.names f hf g hg ((mangle_eq_iff (functionDefs_idents h hf).1
      (functionDefs_idents h hg).1).mpr (.inr (.inl hmeet)))
    have hlength := congrArg String.length hmeet.1
    rw [← (Prod.mk.inj hkey).1, String.length_append] at hlength
    simp at hlength
  · intro hmeet
    refine keepsApart_of_names fun f hf g hg hmangle => ?_
    rcases (mangle_eq_iff (functionDefs_idents h hf).1 (functionDefs_idents h hg).1).mp hmangle with
      hkey | hfg | hgf
    · exact hkey
    · exact absurd hfg (hmeet f hf g hg)
    · exact absurd hgf (hmeet g hg f hf)

/-! ## A junction -/

/-- A function that reads a file of the name. -/
def fileFunction (ns name : String) : FunctionDecl where
  name := name
  ns := some ns
  kind := some .file
  returns := [{ name := "path", type := "varchar" }]
  body := .obj [("path", .str "a.csv")]

def functionsConfig (functions : List FunctionDecl) : WorkspaceConfig where
  sources := []
  functions := functions
  sources_nodup := List.nodup_nil

/-- The orders and the totals of sales. -/
theorem functionsApart_sales :
    KeepsApart Unit (functionsConfig
      [fileFunction "sales" "orders", fileFunction "sales" "totals"]).functionDefs :=
  (functionsApart_iff (by decide +kernel)).mpr (by decide +kernel)

/-- Both functions are mangled to `pawrly_fn__sales___orders`, and a call of the first runs the
second. -/
theorem functionsApart_fails :
    let cfg := functionsConfig [fileFunction "sales_" "orders", fileFunction "sales" "_orders"]
    validateFunctions cfg = [] ∧ ¬ KeepsApart Unit cfg.functionDefs := by
  refine ⟨by decide +kernel, fun h => ?_⟩
  have hnames := h.names
  revert hnames
  decide

end Functions
end Pawrly
