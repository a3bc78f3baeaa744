import Pawrly.Engine.Registry
import Mathlib.Logic.Function.Basic

/-!
# What a registration does to the catalog

A registration that succeeds puts exactly its installation under the source's name
(`registerListed_ok`, `wrapTables_installs`) and nothing else, except the raw table in the default
schema.  A registration that fails leaves the tables that it had registered before
(`registerListed_error`).
-/

namespace Pawrly
namespace Engine

open Config EffectfulLoop

variable {ω : Type}

/-! ## Tables of one schema -/

lemma insertTable_fresh {schema : String} {ts : Tables ω} {t : String × Provider ω}
    (h : ts t.1 = none) :
    insertTable schema ts t = (Function.update ts t.1 (some t.2), .ok ()) := by
  simp [insertTable, h]

lemma insertTable_taken {schema : String} {ts : Tables ω} {t : String × Provider ω}
    (h : ts t.1 ≠ none) : insertTable schema ts t = (ts, .error (.tableExists schema t.1)) := by
  simp [insertTable, Option.isSome_iff_ne_none.mpr h]

lemma insertTable_eq_ok {schema : String} {ts ts' : Tables ω} {t : String × Provider ω}
    (h : insertTable schema ts t = (ts', .ok ())) :
    ts t.1 = none ∧ ts' = Function.update ts t.1 (some t.2) := by
  by_cases hfresh : ts t.1 = none
  · rw [insertTable_fresh hfresh] at h
    exact ⟨hfresh, (Prod.mk.inj h).1.symm⟩
  · rw [insertTable_taken hfresh] at h
    cases h

lemma insertTable_eq_error {schema : String} {ts ts' : Tables ω} {t : String × Provider ω}
    {e : RegisterError} (h : insertTable schema ts t = (ts', .error e)) :
    ts t.1 ≠ none ∧ ts' = ts := by
  by_cases hfresh : ts t.1 = none
  · rw [insertTable_fresh hfresh] at h
    cases h
  · rw [insertTable_taken hfresh] at h
    exact ⟨hfresh, (Prod.mk.inj h).1.symm⟩

/-- Tables that were all inserted have different new names, and are there. -/
lemma insertTables_eq_ok {schema : String} {ts ts' : Tables ω} {l : List (String × Provider ω)}
    (h : insertTables schema ts l = (ts', .ok ())) :
    (l.map Prod.fst).Nodup ∧ (∀ n ∈ l.map Prod.fst, ts n = none) ∧
      (∀ t ∈ l, ts' t.1 = some t.2) ∧ ∀ n, n ∉ l.map Prod.fst → ts' n = ts n := by
  induction l generalizing ts with
  | nil =>
      cases h
      simp
  | cons t l ih =>
      obtain ⟨u, ht, hl⟩ := runAll_cons_eq_ok h
      obtain ⟨hfresh, rfl⟩ := insertTable_eq_ok ht
      obtain ⟨hnodup, hnone, hthere, hother⟩ := ih hl
      have hmem : t.1 ∉ l.map Prod.fst := by
        intro hmem
        have := hnone t.1 hmem
        simp at this
      refine ⟨?_, ?_, ?_, ?_⟩
      · rw [List.map_cons, List.nodup_cons]
        exact ⟨hmem, hnodup⟩
      · intro n hn
        rcases List.mem_cons.mp (List.map_cons ▸ hn) with rfl | hn
        · exact hfresh
        · have hne : n ≠ t.1 := fun heq => hmem (heq ▸ hn)
          have := hnone n hn
          rwa [Function.update_of_ne hne] at this
      · intro t' ht'
        rcases List.mem_cons.mp ht' with rfl | ht'
        · rw [hother t'.1 hmem, Function.update_self]
        · exact hthere t' ht'
      · intro n hn
        rw [List.map_cons, List.mem_cons, not_or] at hn
        rw [hother n hn.2, Function.update_of_ne hn.1]

/-- Tables with different new names are all inserted. -/
lemma exists_insertTables {schema : String} {ts : Tables ω} {l : List (String × Provider ω)}
    (hnodup : (l.map Prod.fst).Nodup) (hnone : ∀ n ∈ l.map Prod.fst, ts n = none) :
    ∃ ts', insertTables schema ts l = (ts', .ok ()) := by
  induction l generalizing ts with
  | nil => exact ⟨ts, rfl⟩
  | cons t l ih =>
      rw [List.map_cons, List.nodup_cons] at hnodup
      have hfresh := hnone t.1 (by simp)
      have htail : ∀ n ∈ l.map Prod.fst, Function.update ts t.1 (some t.2) n = none := by
        intro n hn
        have hne : n ≠ t.1 := fun heq => hnodup.1 (heq ▸ hn)
        rw [Function.update_of_ne hne]
        apply hnone
        rw [List.map_cons]
        exact List.mem_cons_of_mem _ hn
      obtain ⟨ts', hl⟩ := ih hnodup.2 htail
      exact ⟨ts', (runAll_cons_ok (insertTable_fresh hfresh) l).trans hl⟩

namespace Session

variable {ss ss' : Session ω}

/-! ## Tables of the session -/

@[simp] lemma setTables_attached (schema : String) (ts : Tables ω) :
    (ss.setTables schema ts).attached = ss.attached := rfl

@[simp] lemma setTables_catalog (schema : String) (ts : Tables ω) :
    (ss.setTables schema ts).catalog schema = some (.memory ts) := by
  simp [setTables]

lemma setTables_catalog_of_ne {schema n : String} (h : n ≠ schema) (ts : Tables ω) :
    (ss.setTables schema ts).catalog n = ss.catalog n := by
  simp [setTables, h]

@[simp] lemma setTables_setTables (schema : String) (ts ts' : Tables ω) :
    (ss.setTables schema ts).setTables schema ts' = ss.setTables schema ts' := by
  simp [setTables]

lemma setTables_of_catalog {schema : String} {ts : Tables ω}
    (h : ss.catalog schema = some (.memory ts)) : ss.setTables schema ts = ss := by
  show Session.mk (Function.update ss.catalog schema _) ss.attached = ss
  rw [← h, Function.update_eq_self]

@[simp] lemma deregisterSchema_catalog (name : String) :
    (ss.deregisterSchema name).catalog name = none := by
  simp [deregisterSchema]

lemma deregisterSchema_catalog_of_ne {name n : String} (h : n ≠ name) :
    (ss.deregisterSchema name).catalog n = ss.catalog n := by
  simp [deregisterSchema, h]

@[simp] lemma deregisterSchema_attached (name : String) :
    (ss.deregisterSchema name).attached = ss.attached := rfl

lemma registerTable_of_memory {schema : String} {ts : Tables ω}
    (h : ss.catalog schema = some (.memory ts)) (t : String × Provider ω) :
    ss.registerTable schema t =
      (ss.setTables schema (insertTable schema ts t).1, (insertTable schema ts t).2) := by
  rw [registerTable, h]

/-- Registering in a memory schema is inserting into its tables. -/
lemma registerTables_setTables (schema : String) (ts : Tables ω) (l : List (String × Provider ω)) :
    registerTables schema (ss.setTables schema ts) l =
      (ss.setTables schema (insertTables schema ts l).1, (insertTables schema ts l).2) := by
  have hsim : (registerTables schema (ss.setTables schema ts) l).1 =
      ss.setTables schema (insertTables schema ts l).1 ∧
        (registerTables schema (ss.setTables schema ts) l).2 = (insertTables schema ts l).2 := by
    refine runAll_simulation (R := fun s ts => s = ss.setTables schema ts) ?_ rfl l
    intro s ts t h
    subst h
    rw [registerTable_of_memory (setTables_catalog schema ts)]
    exact ⟨setTables_setTables schema ts _, rfl⟩
  exact Prod.ext hsim.1 hsim.2

lemma ensureSchema_of_none {name : String} (h : ss.catalog name = none) :
    ss.ensureSchema name = ss.setTables name fun _ => none := by
  rw [ensureSchema, h]

/-! ## The raw table -/

/-- The default schema can take the raw table of a source, if the source has one. -/
def TakesRaw (ss : Session ω) (d : SourceDef) : Prop :=
  registersRaw d = true → d.name ≠ defaultSchema ∧
    ∃ D : Tables ω, ss.catalog defaultSchema = some (.memory D) ∧ D d.name = none

/-- The raw table of a source that is called as the default schema is registered there twice. -/
lemma registerRaw_default {source : HttpSource ω} (hname : source.definition.name = defaultSchema)
    (ts : Tables ω) :
    ∃ e, (ss.setTables defaultSchema ts).registerRaw source =
      (ss.setTables defaultSchema (insertTable defaultSchema ts (defaultSchema, .rawHttp source)).1,
        .error e) := by
  unfold registerRaw
  rw [hname]
  rcases h : insertTable defaultSchema ts (defaultSchema, Provider.rawHttp source) with ⟨ts', e | u⟩
  · refine ⟨e, runAll_cons_error ?_ _⟩
    rw [registerRawIn, hname, registerTable_of_memory (setTables_catalog defaultSchema ts), h,
      setTables_setTables]
  · have hstep : registerRawIn source (ss.setTables defaultSchema ts) defaultSchema =
        (ss.setTables defaultSchema ts', .ok ()) := by
      rw [registerRawIn, hname, registerTable_of_memory (setTables_catalog defaultSchema ts), h,
        setTables_setTables]
    obtain ⟨_, rfl⟩ := insertTable_eq_ok h
    rw [runAll_cons_ok hstep]
    refine ⟨.tableExists defaultSchema defaultSchema, runAll_cons_error ?_ _⟩
    rw [registerRawIn, hname, registerTable_of_memory (setTables_catalog defaultSchema _),
      insertTable_taken (by simp), setTables_setTables]

/-- Without room in the default schema the raw table changes nothing. -/
lemma registerRaw_refused {source : HttpSource ω} (hne : source.definition.name ≠ defaultSchema)
    (h : ∀ D : Tables ω, ss.catalog defaultSchema = some (.memory D) →
      D source.definition.name ≠ none) (ts : Tables ω) :
    ∃ e, (ss.setTables source.definition.name ts).registerRaw source =
      (ss.setTables source.definition.name ts, .error e) := by
  have hcat : (ss.setTables source.definition.name ts).catalog defaultSchema =
      ss.catalog defaultSchema := setTables_catalog_of_ne hne.symm ts
  unfold registerRaw
  rcases hdefault : ss.catalog defaultSchema with _ | D | db
  · refine ⟨.noSchema defaultSchema, runAll_cons_error ?_ _⟩
    rw [registerRawIn, registerTable, hcat, hdefault]
  · refine ⟨.tableExists defaultSchema source.definition.name, runAll_cons_error ?_ _⟩
    rw [registerRawIn, registerTable_of_memory (hcat.trans hdefault), insertTable_taken (h D hdefault),
      setTables_of_catalog (hcat.trans hdefault)]
  · refine ⟨.unsupported defaultSchema, runAll_cons_error ?_ _⟩
    rw [registerRawIn, registerTable, hcat, hdefault]

/-- With room in the default schema the raw table is registered there, and the outcome is that of
the source's own schema. -/
lemma registerRaw_taken {source : HttpSource ω} (hne : source.definition.name ≠ defaultSchema)
    {D : Tables ω} (hdefault : ss.catalog defaultSchema = some (.memory D))
    (hfresh : D source.definition.name = none) (ts : Tables ω) :
    (ss.setTables source.definition.name ts).registerRaw source =
      (((ss.setTables source.definition.name ts).setTables defaultSchema
          (Function.update D source.definition.name (some (.rawHttp source)))).setTables
            source.definition.name (insertTable source.definition.name ts
              (source.definition.name, .rawHttp source)).1,
        (insertTable source.definition.name ts (source.definition.name, .rawHttp source)).2) := by
  have hcat : (ss.setTables source.definition.name ts).catalog defaultSchema = some (.memory D) :=
    (setTables_catalog_of_ne hne.symm ts).trans hdefault
  unfold registerRaw
  have hstep : registerRawIn source (ss.setTables source.definition.name ts) defaultSchema =
        ((ss.setTables source.definition.name ts).setTables defaultSchema
          (Function.update D source.definition.name (some (.rawHttp source))), .ok ()) := by
    rw [registerRawIn, registerTable_of_memory hcat, insertTable_fresh hfresh]
  rw [runAll_cons_ok hstep]
  have hown : ((ss.setTables source.definition.name ts).setTables defaultSchema
      (Function.update D source.definition.name (some (.rawHttp source)))).catalog
        source.definition.name = some (.memory ts) := by
    rw [setTables_catalog_of_ne hne, setTables_catalog]
  have hstep' : registerRawIn source _ source.definition.name = _ :=
    registerTable_of_memory hown (source.definition.name, .rawHttp source)
  rcases h : insertTable source.definition.name ts
    (source.definition.name, Provider.rawHttp source) with ⟨ts', e | u⟩
  · rw [h] at hstep'
    exact runAll_cons_error hstep' _
  · rw [h] at hstep'
    exact runAll_cons_ok hstep' _

/-! ## Listed tables -/

variable {source : HttpSource ω} {listed : List (TableSummary × ω)} {failure : Option String}

lemma registerListed_eq (hnone : ss.catalog source.definition.name = none) :
    ss.registerListed source listed failure =
      match insertTables source.definition.name (fun _ => none) (listedProviders source listed) with
      | (ts, .error e) => (ss.setTables source.definition.name ts, .error e)
      | (ts, .ok ()) =>
          match failure with
          | some message => (ss.setTables source.definition.name ts, .error (.source message))
          | none =>
              if registersRaw source.definition then
                (ss.setTables source.definition.name ts).registerRaw source
              else (ss.setTables source.definition.name ts, .ok ()) := by
  rw [registerListed, ensureSchema_of_none hnone, registerTables_setTables]
  rcases insertTables source.definition.name (fun _ => none) (listedProviders source listed) with
    ⟨ts, e | _⟩ <;> rfl

lemma listedProviders_names :
    (listedProviders source listed).map Prod.fst = listed.map fun t => t.1.name := by
  simp [listedProviders]

lemma exists_insertListed (hnodup : (listed.map fun t => t.1.name).Nodup) :
    ∃ ts, insertTables source.definition.name (fun _ => none) (listedProviders source listed) =
      (ts, .ok ()) := by
  apply exists_insertTables
  · rwa [listedProviders_names]
  · intro n _
    rfl

/-- The tables that are there when a registration fails: those before the first repeated name, and
for a source with the name of the default schema the raw table that it registers first. -/
def leftTables (source : HttpSource ω) (listed : List (TableSummary × ω))
    (failure : Option String) : Tables ω :=
  match insertTables source.definition.name (fun _ => none) (listedProviders source listed) with
  | (ts, .error _) => ts
  | (ts, .ok ()) =>
      if source.definition.name = defaultSchema ∧ registersRaw source.definition ∧ failure = none then
        (insertTable defaultSchema ts (defaultSchema, .rawHttp source)).1
      else ts

/-- The raw table gets into the default schema and then meets a listed table of its name. -/
def HalfRaw (ss : Session ω) (d : SourceDef) (listed : List (TableSummary × ω))
    (failure : Option String) : Prop :=
  registersRaw d = true ∧ d.name ≠ defaultSchema ∧
    (∃ D : Tables ω, ss.catalog defaultSchema = some (.memory D) ∧ D d.name = none) ∧
    failure = none ∧ (listed.map fun t => t.1.name).Nodup ∧ d.name ∈ listed.map fun t => t.1.name

/-- What a registration of listed tables that succeeds has done. -/
structure ListedIn (ss ss' : Session ω) (source : HttpSource ω) (listed : List (TableSummary × ω)) :
    Prop where
  nodup : ((entriesOf source listed).map fun t => t.1.name).Nodup
  takesRaw : ss.TakesRaw source.definition
  tables : ∃ ts, ss'.catalog source.definition.name = some (.memory ts) ∧
    ∀ t ∈ entriesOf source listed, ts t.1.name = some t.2
  attached : ss'.attached = ss.attached
  others : ∀ n, n ≠ source.definition.name →
    (n = defaultSchema → registersRaw source.definition = false) → ss'.catalog n = ss.catalog n
  raw : registersRaw source.definition = true → ∀ D, ss.catalog defaultSchema = some (.memory D) →
    ss'.catalog defaultSchema =
      some (.memory (Function.update D source.definition.name (some (.rawHttp source))))

lemma entriesOf_of_raw (h : registersRaw source.definition = true) :
    entriesOf source listed = (listed.map fun t => (t.1, providerOf source t.2)) ++
      [(rawSummary source.definition, .rawHttp source)] := by
  rw [entriesOf, if_pos h]

lemma entriesOf_of_not_raw (h : registersRaw source.definition = false) :
    entriesOf source listed = listed.map fun t => (t.1, providerOf source t.2) := by
  simp [entriesOf, h]

lemma entriesOf_names_of_raw (h : registersRaw source.definition = true) :
    (entriesOf source listed).map (fun t => t.1.name) =
      (listed.map fun t => t.1.name) ++ [source.definition.name] := by
  rw [entriesOf_of_raw h]
  simp [rawSummary]

lemma entriesOf_names_of_not_raw (h : registersRaw source.definition = false) :
    (entriesOf source listed).map (fun t => t.1.name) = listed.map fun t => t.1.name := by
  rw [entriesOf_of_not_raw h]
  simp

lemma listedProviders_there {ts : Tables ω}
    (h : ∀ t ∈ listedProviders source listed, ts t.1 = some t.2) :
    ∀ t ∈ listed.map (fun t => (t.1, providerOf source t.2)), ts t.1.name = some t.2 := by
  intro t ht
  obtain ⟨t', ht', rfl⟩ := List.mem_map.mp ht
  exact h (t'.1.name, providerOf source t'.2) (List.mem_map.mpr ⟨t', ht', rfl⟩)

lemma listedIn_of_not_raw {ts : Tables ω} (hraw : registersRaw source.definition = false)
    (hins : insertTables source.definition.name (fun _ => none) (listedProviders source listed) =
      (ts, .ok ())) :
    ListedIn ss (ss.setTables source.definition.name ts) source listed := by
  obtain ⟨hnodup, -, hthere, -⟩ := insertTables_eq_ok hins
  constructor
  case nodup =>
    rw [listedProviders_names] at hnodup
    rwa [entriesOf_names_of_not_raw hraw]
  case takesRaw =>
    intro hr
    simp [hraw] at hr
  case tables =>
    refine ⟨ts, setTables_catalog _ _, ?_⟩
    rw [entriesOf_of_not_raw hraw]
    exact listedProviders_there hthere
  case attached => rfl
  case others => exact fun n hn _ => setTables_catalog_of_ne hn ts
  case raw =>
    intro hr
    simp [hraw] at hr

lemma listedIn_of_raw {ts D : Tables ω} (hraw : registersRaw source.definition = true)
    (hins : insertTables source.definition.name (fun _ => none) (listedProviders source listed) =
      (ts, .ok ())) (hname : source.definition.name ≠ defaultSchema)
    (hD : ss.catalog defaultSchema = some (.memory D)) (hfresh : D source.definition.name = none)
    (hfree : ts source.definition.name = none) :
    ListedIn ss (((ss.setTables source.definition.name ts).setTables defaultSchema
      (Function.update D source.definition.name (some (.rawHttp source)))).setTables
        source.definition.name
          (Function.update ts source.definition.name (some (.rawHttp source)))) source listed := by
  obtain ⟨hnodup, -, hthere, -⟩ := insertTables_eq_ok hins
  rw [listedProviders_names] at hnodup
  have hmem : source.definition.name ∉ listed.map fun t => t.1.name := by
    intro hmem
    obtain ⟨t, ht, htn⟩ := List.mem_map.mp hmem
    have hlookup := listedProviders_there hthere _ (List.mem_map.mpr ⟨t, ht, rfl⟩)
    dsimp only at hlookup
    rw [htn, hfree] at hlookup
    cases hlookup
  constructor
  case nodup =>
    rw [entriesOf_names_of_raw hraw, List.nodup_append]
    refine ⟨hnodup, List.nodup_singleton _, ?_⟩
    intro a ha b hb heq
    rw [List.mem_singleton] at hb
    exact hmem (hb ▸ heq ▸ ha)
  case takesRaw => exact fun _ => ⟨hname, D, hD, hfresh⟩
  case tables =>
    refine ⟨_, setTables_catalog _ _, fun t ht => ?_⟩
    rw [entriesOf_of_raw hraw] at ht
    rcases List.mem_append.mp ht with ht | ht
    · have hne : t.1.name ≠ source.definition.name := by
        obtain ⟨t', ht', rfl⟩ := List.mem_map.mp ht
        intro heq
        exact hmem (List.mem_map.mpr ⟨t', ht', heq⟩)
      rw [Function.update_of_ne hne]
      exact listedProviders_there hthere t ht
    · rw [List.mem_singleton] at ht
      subst ht
      simp [rawSummary]
  case attached => rfl
  case others =>
    intro n hn hdef
    have hnd : n ≠ defaultSchema := by
      intro heq
      simp [hraw] at hdef
      exact hdef heq
    rw [setTables_catalog_of_ne hn, setTables_catalog_of_ne hnd, setTables_catalog_of_ne hn]
  case raw =>
    intro _ D' hD'
    rw [setTables_catalog_of_ne (Ne.symm hname), setTables_catalog]
    rw [hD] at hD'
    cases hD'
    rfl

theorem registerListed_ok (hnone : ss.catalog source.definition.name = none)
    (h : ss.registerListed source listed failure = (ss', .ok ())) :
    failure = none ∧ ListedIn ss ss' source listed := by
  rw [registerListed_eq hnone] at h
  rcases hins : insertTables source.definition.name (fun _ => none)
    (listedProviders source listed) with ⟨ts, e | _⟩
  · rw [hins] at h
    cases h
  · rw [hins] at h
    cases failure with
    | some message => cases h
    | none =>
        dsimp only at h
        refine ⟨rfl, ?_⟩
        cases hraw : registersRaw source.definition with
        | false =>
            rw [hraw, if_neg (by decide)] at h
            rw [← (Prod.mk.inj h).1]
            exact listedIn_of_not_raw hraw hins
        | true =>
            rw [hraw, if_pos rfl] at h
            by_cases hname : source.definition.name = defaultSchema
            · obtain ⟨e, he⟩ := @registerRaw_default ω ss source hname ts
              rw [hname, he] at h
              cases h
            · by_cases hroom : ∃ D : Tables ω, ss.catalog defaultSchema = some (.memory D) ∧
                D source.definition.name = none
              · obtain ⟨D, hD, hfresh⟩ := hroom
                rw [registerRaw_taken hname hD hfresh] at h
                by_cases hfree : ts source.definition.name = none
                · rw [insertTable_fresh hfree] at h
                  rw [← (Prod.mk.inj h).1]
                  exact listedIn_of_raw hraw hins hname hD hfresh hfree
                · rw [insertTable_taken hfree] at h
                  cases h
              · obtain ⟨e, he⟩ := registerRaw_refused hname
                  (fun D hD hfresh => hroom ⟨D, hD, hfresh⟩) ts
                rw [he] at h
                cases h

/-- Tables with different names are registered when the default schema takes the raw one. -/
theorem exists_registerListed (hnone : ss.catalog source.definition.name = none)
    (hnodup : ((entriesOf source listed).map fun t => t.1.name).Nodup)
    (htakes : ss.TakesRaw source.definition) :
    ∃ ss', ss.registerListed source listed none = (ss', .ok ()) := by
  rw [registerListed_eq hnone]
  have hlisted : (listed.map fun t => t.1.name).Nodup := by
    cases hraw : registersRaw source.definition with
    | false => rwa [entriesOf_names_of_not_raw hraw] at hnodup
    | true =>
        rw [entriesOf_names_of_raw hraw] at hnodup
        exact (List.nodup_append.mp hnodup).1
  obtain ⟨ts, hins⟩ : ∃ ts, insertTables source.definition.name (fun _ => none)
      (listedProviders source listed) = (ts, .ok ()) := exists_insertListed hlisted
  rw [hins]
  dsimp only
  cases hraw : registersRaw source.definition with
  | false => exact ⟨_, rfl⟩
  | true =>
      rw [if_pos rfl]
      obtain ⟨hname, D, hD, hfresh⟩ := htakes hraw
      rw [registerRaw_taken hname hD hfresh]
      rw [entriesOf_names_of_raw hraw, List.nodup_append] at hnodup
      have hfree : ts source.definition.name = none := by
        obtain ⟨-, -, -, hother⟩ := insertTables_eq_ok hins
        apply hother
        rw [listedProviders_names]
        intro hmem
        exact hnodup.2.2 _ hmem _ (List.mem_singleton.mpr rfl) rfl
      rw [insertTable_fresh hfree]
      exact ⟨_, rfl⟩

/-- What a registration of listed tables that fails leaves in the catalog. -/
theorem registerListed_error {e : RegisterError} (hnone : ss.catalog source.definition.name = none)
    (h : ss.registerListed source listed failure = (ss', .error e)) :
    (¬ HalfRaw ss source.definition listed failure →
        ss' = ss.setTables source.definition.name (leftTables source listed failure)) ∧
      (HalfRaw ss source.definition listed failure →
        ss'.catalog defaultSchema ≠ ss.catalog defaultSchema) := by
  rw [registerListed_eq hnone] at h
  unfold leftTables
  rcases hins : insertTables source.definition.name (fun _ => none)
    (listedProviders source listed) with ⟨ts, e' | _⟩
  · rw [hins] at h
    refine ⟨fun _ => (Prod.mk.inj h).1.symm, ?_⟩
    rintro ⟨-, -, -, -, hnodup, -⟩
    obtain ⟨ts', hok⟩ : ∃ ts', insertTables source.definition.name (fun _ => none)
        (listedProviders source listed) = (ts', .ok ()) := exists_insertListed hnodup
    rw [hins] at hok
    cases hok
  · rw [hins] at h
    obtain ⟨hnodup, -, hthere, hother⟩ := insertTables_eq_ok hins
    rw [listedProviders_names] at hnodup hother
    cases failure with
    | some message =>
        refine ⟨fun _ => ?_, fun hhalf => ?_⟩
        · simpa using (Prod.mk.inj h).1.symm
        · obtain ⟨-, -, -, hf, -⟩ := hhalf
          cases hf
    | none =>
        dsimp only at h ⊢
        cases hraw : registersRaw source.definition with
        | false =>
            rw [hraw, if_neg (by decide)] at h
            cases h
        | true =>
            rw [hraw, if_pos rfl] at h
            by_cases hname : source.definition.name = defaultSchema
            · rw [if_pos ⟨hname, rfl, rfl⟩]
              obtain ⟨e', he⟩ := @registerRaw_default ω ss source hname ts
              rw [hname, he] at h
              refine ⟨fun _ => by rw [hname]; exact (Prod.mk.inj h).1.symm, fun hhalf => ?_⟩
              exact absurd hname hhalf.2.1
            · rw [if_neg fun hc => hname hc.1]
              by_cases hroom : ∃ D : Tables ω, ss.catalog defaultSchema = some (.memory D) ∧
                D source.definition.name = none
              · have hhalf : HalfRaw ss source.definition listed none := by
                  obtain ⟨D, hD, hfresh⟩ := hroom
                  rw [registerRaw_taken hname hD hfresh] at h
                  have hown : insertTable source.definition.name ts
                    (source.definition.name, .rawHttp source) = (_, .error e) :=
                      Prod.ext rfl (Prod.mk.inj h).2
                  obtain ⟨htaken, -⟩ := insertTable_eq_error hown
                  refine ⟨hraw, hname, ⟨D, hD, hfresh⟩, rfl, hnodup, ?_⟩
                  by_contra hmem
                  exact htaken (hother _ hmem)
                refine ⟨fun hc => absurd hhalf hc, fun _ => ?_⟩
                obtain ⟨D, hD, hfresh⟩ := hroom
                rw [registerRaw_taken hname hD hfresh] at h
                rw [← (Prod.mk.inj h).1, setTables_catalog_of_ne (Ne.symm hname), setTables_catalog,
                  hD]
                intro heq
                have hupd := congrFun (Schema.memory.inj (Option.some.inj heq))
                  source.definition.name
                rw [Function.update_self, hfresh] at hupd
                cases hupd
              · obtain ⟨e', he⟩ := registerRaw_refused hname
                  (fun D hD hfresh => hroom ⟨D, hD, hfresh⟩) ts
                rw [he] at h
                refine ⟨fun _ => (Prod.mk.inj h).1.symm, fun hhalf => ?_⟩
                exact absurd hhalf.2.2.1 hroom

/-! ## Wrapping -/

lemma wrapTable_of_memory {schema : String} {policy : CachePolicy} {t : TableSummary}
    {ts : Tables ω} {p : Provider ω} (h : ss.catalog schema = some (.memory ts))
    (hp : ts t.name = some p) :
    ss.wrapTable schema policy t =
      ss.setTables schema (Function.update ts t.name (some (.cached policy p))) := by
  rw [wrapTable, h]
  dsimp only
  rw [hp]

/-- Wrapping tables that are there, each once, wraps each once. -/
lemma foldl_wrapTable {schema : String} (policy : CachePolicy) {tables : List TableSummary}
    {ts : Tables ω} (h : ss.catalog schema = some (.memory ts))
    (hnodup : (tables.map TableSummary.name).Nodup) (hthere : ∀ t ∈ tables, ts t.name ≠ none) :
    ∃ ts', tables.foldl (fun ss t => ss.wrapTable schema policy t) ss = ss.setTables schema ts' ∧
      ∀ n, ts' n = if n ∈ tables.map TableSummary.name then (ts n).map (.cached policy) else ts n := by
  induction tables generalizing ss ts with
  | nil => exact ⟨ts, (setTables_of_catalog h).symm, by simp⟩
  | cons t tables ih =>
      rw [List.map_cons, List.nodup_cons] at hnodup
      obtain ⟨p, hp⟩ := Option.ne_none_iff_exists'.mp (hthere t List.mem_cons_self)
      have hthere' : ∀ u ∈ tables,
          Function.update ts t.name (some (.cached policy p)) u.name ≠ none := by
        intro u hu
        have hne : u.name ≠ t.name := fun heq => hnodup.1 (heq ▸ List.mem_map_of_mem hu)
        rw [Function.update_of_ne hne]
        exact hthere u (List.mem_cons_of_mem _ hu)
      obtain ⟨ts', hfold, hts'⟩ := ih (setTables_catalog schema _) hnodup.2 hthere'
      refine ⟨ts', ?_, fun n => ?_⟩
      · rw [List.foldl_cons, wrapTable_of_memory h hp, hfold, setTables_setTables]
      · rw [hts' n]
        by_cases hn : n = t.name
        · subst hn
          simp [hnodup.1, hp]
        · simp [hn]

lemma foldl_wrapTable_attached {schema : String} {policy : CachePolicy} {database : ω}
    (h : ss.catalog schema = some (.attached database)) (tables : List TableSummary) :
    tables.foldl (fun ss t => ss.wrapTable schema policy t) ss = ss := by
  induction tables with
  | nil => rfl
  | cons t tables ih =>
      have hwrap : ss.wrapTable schema policy t = ss := by
        rw [wrapTable, h]
      rw [List.foldl_cons, hwrap]
      exact ih

/-- Wrapping changes the source's own schema only. -/
lemma wrapTables_frame (d : SourceDef) (tables : List TableSummary) :
    (ss.wrapTables d tables).attached = ss.attached ∧
      ∀ n, n ≠ d.name → (ss.wrapTables d tables).catalog n = ss.catalog n := by
  unfold wrapTables
  split_ifs with hcaches
  · induction tables generalizing ss with
    | nil => exact ⟨rfl, fun _ _ => rfl⟩
    | cons t tables ih =>
        obtain ⟨hatt, hcat⟩ := @ih (ss.wrapTable d.name d.cache t)
        have hstep : (ss.wrapTable d.name d.cache t).attached = ss.attached ∧
            ∀ n, n ≠ d.name → (ss.wrapTable d.name d.cache t).catalog n = ss.catalog n := by
          unfold wrapTable
          split
          · split
            · exact ⟨rfl, fun n hn => setTables_catalog_of_ne hn _⟩
            · exact ⟨rfl, fun _ _ => rfl⟩
          · exact ⟨rfl, fun _ _ => rfl⟩
        exact ⟨hatt.trans hstep.1, fun n hn => (hcat n hn).trans (hstep.2 n hn)⟩
  · exact ⟨rfl, fun _ _ => rfl⟩

/-! ## The whole registration -/

/-- The registration of a source changed nothing that belongs to another one; a raw table went to a
free name of the default schema. -/
structure Beside (ss ss' : Session ω) (d : SourceDef) : Prop where
  others : ∀ n, n ≠ d.name → n ≠ defaultSchema → ss'.catalog n = ss.catalog n
  unqualified : d.name ≠ defaultSchema → ss'.catalog defaultSchema = ss.catalog defaultSchema ∨
    ∃ (D : Tables ω) (p : Provider ω), registersRaw d = true ∧
      ss.catalog defaultSchema = some (.memory D) ∧ D d.name = none ∧
      ss'.catalog defaultSchema = some (.memory (Function.update D d.name (some p)))
  attached : ∀ n, n ≠ d.name → ss'.attached n = ss.attached n

/-- The session takes what the source has: the pool its database, the default schema its raw
table. -/
def Accepts (ss : Session ω) (d : SourceDef) : Discovery ω → Prop
  | .refused _ => False
  | .attach _ _ => ss.attached d.name = false
  | .tables _ _ _ => ss.TakesRaw d

lemma ListedIn.beside (h : ListedIn ss ss' source listed) : Beside ss ss' source.definition where
  others := fun n hn hdef => h.others n hn fun heq => absurd heq hdef
  unqualified := by
    intro hne
    cases hraw : registersRaw source.definition with
    | false => exact .inl (h.others _ hne.symm fun _ => hraw)
    | true =>
        obtain ⟨-, D, hD, hfresh⟩ := h.takesRaw hraw
        exact .inr ⟨D, _, rfl, hD, hfresh, h.raw hraw D hD⟩
  attached := by
    intro n _
    rw [h.attached]

lemma Beside.wrap {d : SourceDef} (h : Beside ss ss' d) (tables : List TableSummary) :
    Beside ss (ss'.wrapTables d tables) d := by
  have hframe := @wrapTables_frame ω ss' d tables
  constructor
  case others => exact fun n hn hdef => (hframe.2 n hn).trans (h.others n hn hdef)
  case unqualified =>
    intro hne
    rw [hframe.2 _ hne.symm]
    exact h.unqualified hne
  case attached =>
    intro n hn
    rw [hframe.1]
    exact h.attached n hn

lemma backfill_names (d : SourceDef) (report : RegisterReport ω) :
    (RegisterReport.backfill d report).tables.map TableSummary.name =
      report.tables.map TableSummary.name := by
  simp [RegisterReport.backfill]

lemma entriesOf_summaries : listed.map Prod.fst ++
    (if registersRaw source.definition then [rawSummary source.definition] else []) =
      (entriesOf source listed).map Prod.fst := by
  cases hraw : registersRaw source.definition with
  | false => simp [entriesOf_of_not_raw hraw]
  | true => simp [entriesOf_of_raw hraw]

/-- Looking the reported tables up gives their providers, in the cache where the source caches. -/
lemma wrapTables_listed {ts : Tables ω} {tables : List TableSummary}
    (hcat : ss.catalog source.definition.name = some (.memory ts))
    (hthere : ∀ t ∈ entriesOf source listed, ts t.1.name = some t.2)
    (hnodup : ((entriesOf source listed).map fun t => t.1.name).Nodup)
    (hnames : tables.map TableSummary.name = (entriesOf source listed).map fun t => t.1.name) :
    tables.map (fun t => (ss.wrapTables source.definition tables).table source.definition.name
        t.name) =
      ((entriesOf source listed).map fun t =>
        wrapProvider source.definition.cache t.2).map some := by
  have hlookup : ∀ t ∈ entriesOf source listed,
      (ss.wrapTables source.definition tables).table source.definition.name t.1.name =
        some (wrapProvider source.definition.cache t.2) := by
    intro t ht
    unfold wrapTables wrapProvider
    split_ifs with hcaches
    · obtain ⟨ts', hfold, hts'⟩ := foldl_wrapTable source.definition.cache hcat
        (hnames ▸ hnodup) fun u hu => by
          obtain ⟨t', ht', hname⟩ := List.mem_map.mp (hnames ▸ List.mem_map_of_mem hu)
          rw [← hname, hthere t' ht']
          exact Option.some_ne_none _
      rw [hfold, table, setTables_catalog]
      show ts' t.1.name = _
      have hmem : t.1.name ∈ tables.map TableSummary.name := by
        rw [hnames]
        exact List.mem_map.mpr ⟨t, ht, rfl⟩
      rw [hts', if_pos hmem, hthere t ht]
      rfl
    · rw [table, hcat]
      exact hthere t ht
  calc tables.map (fun t => (ss.wrapTables source.definition tables).table source.definition.name
        t.name)
      = (tables.map TableSummary.name).map fun n =>
          (ss.wrapTables source.definition tables).table source.definition.name n := by
        rw [List.map_map]
        rfl
    _ = (entriesOf source listed).map fun t =>
          (ss.wrapTables source.definition tables).table source.definition.name t.1.name := by
        rw [hnames, List.map_map]
        rfl
    _ = _ := by
        rw [List.map_map]
        exact List.map_congr_left hlookup

/-- A registration that succeeds puts its installation there and nothing else. -/
theorem registerSource_installs {found : Discovery ω} {vars : VariableStore}
    {dynamic : String → Option String} {d : SourceDef} {report : RegisterReport ω}
    (hnone : ss.catalog d.name = none)
    (h : ss.registerSource found vars dynamic d = (ss', .ok report)) :
    ∃ inst, found.installation vars dynamic d = some inst ∧ inst.report = report ∧
      ss.Accepts d found ∧ Beside ss (ss'.wrapTables d report.tables) d ∧
      report.tables.map (fun t => (ss'.wrapTables d report.tables).table d.name t.name) =
        inst.providers.map some := by
  cases found with
  | refused message => cases h
  | attach database listed =>
      unfold registerSource registerAttached at h
      dsimp only at h
      split_ifs at h with hatt
      · cases h
      · obtain ⟨hss, hreport⟩ := Prod.mk.inj h
        obtain rfl := Except.ok.inj hreport
        dsimp only at hss
        have hcat : ss'.catalog d.name = some (.attached database) := by
          rw [← hss]
          exact Function.update_self _ _ _
        have hbeside : Beside ss ss' d := by
          rw [← hss]
          constructor
          case others => exact fun n hn _ => Function.update_of_ne hn _ _
          case unqualified => exact fun hne => .inl (Function.update_of_ne hne.symm _ _)
          case attached => exact fun n hn => Function.update_of_ne hn _ _
        have hfree : ss.attached d.name = false := by simpa using hatt
        refine ⟨_, rfl, rfl, hfree, hbeside.wrap _, ?_⟩
        have hwrap : ss'.wrapTables d (RegisterReport.backfill (ω := ω) d
            ⟨listed, .none⟩).tables = ss' := by
          unfold wrapTables
          split_ifs
          · exact foldl_wrapTable_attached hcat _
          · rfl
        rw [hwrap]
        simp [RegisterReport.backfill, table, hcat, Schema.table]
  | tables connection listed failure =>
      unfold registerSource at h
      dsimp only at h
      rcases hlisted : ss.registerListed ⟨d, connection, vars, dynamic⟩ listed failure with
        ⟨ss₁, e | u⟩
      · rw [hlisted] at h
        cases h
      · rw [hlisted] at h
        obtain ⟨rfl, hreport⟩ := Prod.mk.inj h
        obtain rfl := Except.ok.inj hreport
        obtain ⟨rfl, hin⟩ := registerListed_ok hnone hlisted
        have hinst : (Discovery.tables connection listed none).installation vars dynamic d = _ :=
          if_pos ⟨hin.nodup, rfl⟩
        obtain ⟨ts, hcat, hthere⟩ := hin.tables
        have hsum : listed.map Prod.fst ++ (if registersRaw d then [rawSummary d] else []) =
            (entriesOf ⟨d, connection, vars, dynamic⟩ listed).map Prod.fst :=
          @entriesOf_summaries ω ⟨d, connection, vars, dynamic⟩ listed
        refine ⟨_, hinst, ?_, hin.takesRaw, hin.beside.wrap _, ?_⟩
        · dsimp only
          rw [hsum]
        · apply wrapTables_listed hcat hthere hin.nodup
          rw [backfill_names]
          dsimp only
          rw [hsum, List.map_map]
          rfl

/-- A source that has something to install is registered when the session takes it. -/
theorem exists_registerSource {found : Discovery ω} {vars : VariableStore}
    {dynamic : String → Option String} {d : SourceDef} (hnone : ss.catalog d.name = none)
    (hinst : (found.installation vars dynamic d).isSome = true) (haccepts : ss.Accepts d found) :
    ∃ ss' report, ss.registerSource found vars dynamic d = (ss', .ok report) := by
  cases found with
  | refused message => cases hinst
  | attach database listed =>
      have hatt : ss.attached d.name = false := haccepts
      unfold registerSource registerAttached
      simp [hatt, Except.map]
  | tables connection listed failure =>
      unfold Discovery.installation at hinst
      dsimp only at hinst
      split_ifs at hinst with hc
      · obtain ⟨hnodup, rfl⟩ := hc
        obtain ⟨ss', hok⟩ : ∃ ss', ss.registerListed ⟨d, connection, vars, dynamic⟩ listed none =
            (ss', .ok ()) := exists_registerListed hnone hnodup haccepts
        unfold registerSource
        dsimp only
        rw [hok]
        exact ⟨_, _, rfl⟩
      · simp at hinst

end Session
end Engine
end Pawrly
