import Pawrly.Http.JsonPaths
import Pawrly.Http.OpenApi
import Mathlib.Data.List.Perm.Subperm
import Mathlib.Data.List.NodupEquivFin

/-!
# The names that a document gives

The tables of a document have names of their own (`uniqueName_notMem`), and so have the columns of a
response.  Parameters are kept by place and name but looked up by name only: the names of a table
are distinct exactly when its operation does not use one name both in the path and in the query
(`synthesize_names_iff`).
-/

namespace Pawrly
namespace Http
namespace OpenApi

/-! ## Names of tables -/

lemma nameCandidate_injective (base : String) : Function.Injective (nameCandidate base) := by
  intro m n h
  have hlist := congrArg String.toList h
  simp only [nameCandidate, String.toList_append] at hlist
  exact Text.toString_inj.mp (String.toList_inj.mp (List.append_cancel_left hlist))

/-- A name that is given is not taken. -/
lemma uniqueName_notMem (base : String) (taken : List String) :
    uniqueName base taken ∉ taken := by
  unfold uniqueName
  split_ifs with hbase
  · cases hfind : ((List.range (taken.length + 1)).map fun n => nameCandidate base (n + 2)).find?
        fun name => !taken.contains name with
    | some name =>
        have hfree := List.find?_some hfind
        simpa using hfree
    | none =>
        -- one more candidate than there are taken names, all of them taken
        rw [List.find?_eq_none] at hfind
        have hnodup : ((List.range (taken.length + 1)).map fun n =>
            nameCandidate base (n + 2)).Nodup :=
          List.nodup_range.map fun m n h => by
            have heq := nameCandidate_injective base h
            omega
        have hsub : ((List.range (taken.length + 1)).map fun n => nameCandidate base (n + 2)) ⊆
            taken := by
          intro name hname
          simpa using hfind name hname
        have hlength := (List.subperm_of_subset hnodup hsub).length_le
        rw [List.length_map, List.length_range] at hlength
        omega
  · simpa using hbase

lemma synthLoop_names (doc : Json) (naming : Naming) (ops : List (String × Option Json × Json))
    (taken : List String) :
    ((synthLoop doc naming ops taken).map fun e => e.1.spec.name).Nodup ∧
      ∀ name ∈ (synthLoop doc naming ops taken).map fun e => e.1.spec.name, name ∉ taken := by
  induction ops generalizing taken with
  | nil => exact ⟨List.nodup_nil, List.forall_mem_nil _⟩
  | cons e ops ih =>
      obtain ⟨path, pathLevel, op⟩ := e
      obtain ⟨hnodup, hfree⟩ := ih (uniqueName (tableName op path naming) taken :: taken)
      refine ⟨?_, ?_⟩
      · refine List.nodup_cons.mpr ⟨?_, hnodup⟩
        intro hmem
        exact hfree _ hmem List.mem_cons_self
      · intro name hname
        rcases List.mem_cons.mp hname with rfl | hname
        · exact uniqueName_notMem _ taken
        · exact fun htaken => hfree name hname (List.mem_cons_of_mem _ htaken)

/-- Each table is made of an operation, under some name. -/
lemma exists_of_mem_synthLoop {doc : Json} {naming : Naming}
    {ops : List (String × Option Json × Json)} {taken : List String}
    {e : SynthTable × List Diagnostic} (h : e ∈ synthLoop doc naming ops taken) :
    ∃ op ∈ ops, ∃ name, e = synthTable doc name op.1 op.2.1 op.2.2 := by
  induction ops generalizing taken with
  | nil => cases h
  | cons o ops ih =>
      obtain ⟨path, pathLevel, op⟩ := o
      rcases List.mem_cons.mp h with rfl | h
      · exact ⟨_, List.mem_cons_self, _, rfl⟩
      · obtain ⟨op, hop, name, rfl⟩ := ih h
        exact ⟨op, List.mem_cons_of_mem _ hop, name, rfl⟩

/-- Each operation makes a table. -/
lemma exists_of_mem_operations (doc : Json) (naming : Naming)
    {ops : List (String × Option Json × Json)} (taken : List String)
    {op : String × Option Json × Json} (h : op ∈ ops) :
    ∃ name, synthTable doc name op.1 op.2.1 op.2.2 ∈ synthLoop doc naming ops taken := by
  induction ops generalizing taken with
  | nil => cases h
  | cons o ops ih =>
      rcases List.mem_cons.mp h with rfl | h
      · exact ⟨_, List.mem_cons_self⟩
      · obtain ⟨name, hname⟩ := ih _ h
        exact ⟨name, List.mem_cons_of_mem _ hname⟩

/-! ## Names of parameters -/

/-- The declaration gives a parameter a place and a name. -/
def Declares (doc param : Json) (location name : String) : Prop :=
  ∃ fields, deref doc param = .obj fields ∧ strField (.obj fields) "name" = some name ∧
    strField (.obj fields) "in" = some location

/-- The operation has a parameter of the name in the path and another one in the query. -/
def Shared (doc : Json) (pathLevel : Option Json) (op : Json) (name : String) : Prop :=
  (∃ p ∈ declaredParams pathLevel op, Declares doc p "path" name) ∧
    ∃ p ∈ declaredParams pathLevel op, Declares doc p "query" name

/-- The operation uses one name in both places. -/
def SharesName (doc : Json) (pathLevel : Option Json) (op : Json) : Prop :=
  ∃ name, Shared doc pathLevel op name

/-- What is read of a declaration is its place and name. -/
lemma readParam_eq_ok (table : String) {doc param : Json} {location name : String} :
    (∃ resolved, readParam doc table param = .ok (toLex (location, name), resolved)) ↔
      (location = "path" ∨ location = "query") ∧ Declares doc param location name := by
  unfold readParam Declares
  dsimp only
  cases hobj : deref doc param with
  | obj fields =>
      simp only [asObject?]
      cases hname : strField (.obj fields) "name" with
      | none => simp [hname]
      | some name' =>
          cases hin : strField (.obj fields) "in" with
          | none => simp [hname, hin]
          | some location' =>
              dsimp only
              split_ifs with hother
              · simp only [exists_false, false_iff, not_and]
                rintro hloc ⟨fields', heq, hname', hin'⟩
                cases heq
                cases hin.symm.trans hin'
                rcases hloc with rfl | rfl <;> simp at hother
              · constructor
                · rintro ⟨resolved, heq⟩
                  cases heq
                  refine ⟨?_, fields, rfl, hname, hin⟩
                  by_contra hnot
                  exact hother (not_or.mp hnot)
                · rintro ⟨_, fields', heq, hname', hin'⟩
                  cases heq
                  cases hin.symm.trans hin'
                  cases hname.symm.trans hname'
                  exact ⟨_, rfl⟩
  | null | bool | num | str | arr => simp [asObject?]

/-- The merged parameters are those that are declared in the path or in the query. -/
lemma mergeParams_contains (table : String) {doc : Json} {location name : String}
    {params : List Json} :
    ((mergeParams doc table params).get? (toLex (location, name))).isSome ↔
      (location = "path" ∨ location = "query") ∧ ∃ p ∈ params, Declares doc p location name := by
  unfold mergeParams
  have hfold : ∀ turn : OrderedMap ParamKey Json → Json → OrderedMap ParamKey Json,
      (∀ merged p d, readParam doc table p = .error d → turn merged p = merged) →
      (∀ merged p key resolved, readParam doc table p = .ok (key, resolved) →
        turn merged p = merged.insert key resolved) →
      ∀ merged : OrderedMap ParamKey Json,
        ((params.foldl turn merged).get? (toLex (location, name))).isSome ↔
          (merged.get? (toLex (location, name))).isSome ∨
            ∃ p ∈ params, (location = "path" ∨ location = "query") ∧
              Declares doc p location name := by
    intro turn herror hok
    induction params with
    | nil => simp
    | cons p params ih =>
        intro merged
        rw [List.foldl_cons, ih, List.exists_mem_cons_iff, ← readParam_eq_ok table]
        cases hread : readParam doc table p with
        | error d => simp [herror merged p d hread]
        | ok e =>
            obtain ⟨key, resolved⟩ := e
            rw [hok merged p key resolved hread, OrderedMap.get?_insert]
            split_ifs with hkey
            · subst hkey
              simp
            · have hne : key ≠ toLex (location, name) := fun h => hkey h.symm
              simp [hne]
  refine (hfold _ (fun merged p d hread => by rw [hread])
    (fun merged p key resolved hread => by rw [hread]) .empty).trans ?_
  simp only [OrderedMap.get?_empty, Option.isSome_none, Bool.false_eq_true, false_or]
  constructor
  · rintro ⟨p, hp, hloc, hdecl⟩
    exact ⟨hloc, p, hp, hdecl⟩
  · rintro ⟨hloc, p, hp, hdecl⟩
    exact ⟨p, hp, hloc, hdecl⟩

/-- The parameters of a table whose names are of a kind have names of their own unless a name of the
kind is used in both places. -/
lemma params_filter_nodup_iff {doc : Json} {pathLevel : Option Json} {op : Json} {table : String}
    (kind : String → Bool) :
    ((((buildParams doc pathLevel op table).1).map ParamSpec.name).filter kind).Nodup ↔
      ∀ name, kind name → ¬ Shared doc pathLevel op name := by
  have hnames : (((buildParams doc pathLevel op table).1).map ParamSpec.name).filter kind =
      (((mergeParams doc table (declaredParams pathLevel op)).entries.map Prod.fst).filter
        fun key => kind (ofLex key).2).map fun key => (ofLex key).2 := by
    rw [buildParams, List.map_map, List.filter_map, List.filter_map, List.map_map]
    rfl
  have hkey : ∀ location name, toLex (location, name) ∈
      ((mergeParams doc table (declaredParams pathLevel op)).entries.map Prod.fst).filter
        (fun key => kind (ofLex key).2) ↔
        ((location = "path" ∨ location = "query") ∧
          ∃ p ∈ declaredParams pathLevel op, Declares doc p location name) ∧ kind name := by
    intro location name
    rw [← mergeParams_contains table, Option.isSome_iff_exists, List.mem_filter,
      List.mem_map]
    refine and_congr_left fun _ => ?_
    constructor
    · rintro ⟨⟨key, v⟩, hmem, rfl⟩
      exact ⟨v, OrderedMap.mem_entries.mp hmem⟩
    · rintro ⟨v, hv⟩
      exact ⟨(_, v), OrderedMap.mem_entries.mpr hv, rfl⟩
  rw [hnames, List.nodup_map_iff_inj_on ((OrderedMap.entries_nodup _).filter _)]
  constructor
  · rintro hinj name hkind ⟨hpath, hquery⟩
    have heq := hinj _ ((hkey "path" name).mpr ⟨⟨.inl rfl, hpath⟩, hkind⟩) _
      ((hkey "query" name).mpr ⟨⟨.inr rfl, hquery⟩, hkind⟩) rfl
    have hplace : "path" = "query" := congrArg (fun key : ParamKey => (ofLex key).1) heq
    exact absurd hplace (by decide)
  · intro hshares key hk key' hk' heq
    obtain ⟨location, name⟩ := key
    obtain ⟨location', name'⟩ := key'
    obtain rfl : name = name' := heq
    obtain ⟨⟨hloc, hdecl⟩, hkind⟩ := (hkey location name).mp hk
    obtain ⟨⟨hloc', hdecl'⟩, _⟩ := (hkey location' name).mp hk'
    rcases hloc with rfl | rfl <;> rcases hloc' with rfl | rfl
    · rfl
    · exact absurd ⟨hdecl, hdecl'⟩ (hshares name hkind)
    · exact absurd ⟨hdecl', hdecl⟩ (hshares name hkind)
    · rfl

/-- The parameters of a table have names of their own unless one is used in both places. -/
lemma params_nodup_iff {doc : Json} {pathLevel : Option Json} {op : Json} {table : String} :
    (((buildParams doc pathLevel op table).1).map ParamSpec.name).Nodup ↔
      ¬ SharesName doc pathLevel op := by
  have hall : ((((buildParams doc pathLevel op table).1).map ParamSpec.name).filter
      fun _ => true).Nodup ↔ ∀ name, true = true → ¬ Shared doc pathLevel op name :=
    params_filter_nodup_iff fun _ => true
  rw [List.filter_eq_self.mpr fun _ _ => rfl] at hall
  rw [hall, SharesName, not_exists]
  exact forall_congr' fun name => forall_prop_of_true rfl

instance (doc : Json) (pathLevel : Option Json) (op : Json) :
    Decidable (SharesName doc pathLevel op) :=
  decidable_of_iff (¬ (((buildParams doc pathLevel op "").1).map ParamSpec.name).Nodup) (by
    rw [params_nodup_iff, not_not])

lemma markFilterable_names (params : List ParamSpec) (pagination : Option PaginationConfig) :
    (markFilterable params pagination).map ParamSpec.name = params.map ParamSpec.name := by
  rw [markFilterable, List.map_map]
  rfl

/-! ## Names of columns -/

section Ordered

variable {doc : Json} (hdoc : doc.Ordered)

lemma ordered_get? {v c : Json} {key : String} (h : v.Ordered) (hc : v.get? key = some c) :
    c.Ordered := by
  cases v with
  | obj fields => exact Json.OrderedFields.lookup h.2 hc
  | null | bool | num | str | arr => cases hc

lemma ordered_asObject? {v : Json} {fields : List (String × Json)} (h : v.Ordered)
    (hc : asObject? v = some fields) : (Json.obj fields).Ordered := by
  cases v with
  | obj fields' =>
      cases hc
      exact h
  | null | bool | num | str | arr => cases hc

lemma ordered_pointerStep {v c : Json} {token : String} (h : v.Ordered)
    (hc : pointerStep v token = some c) : c.Ordered := by
  cases v with
  | obj fields => exact Json.OrderedFields.lookup h.2 hc
  | arr items =>
      obtain ⟨i, _, hi⟩ := Option.bind_eq_some_iff.mp hc
      exact Json.OrderedItems.getElem? h hi
  | null | bool | num | str => cases hc

lemma ordered_foldlM_pointerStep {tokens : List String} {v c : Json} (h : v.Ordered)
    (hc : tokens.foldlM pointerStep v = some c) : c.Ordered := by
  induction tokens generalizing v with
  | nil =>
      cases hc
      exact h
  | cons token tokens ih =>
      rw [List.foldlM_cons] at hc
      obtain ⟨w, hw, hc⟩ := Option.bind_eq_some_iff.mp hc
      exact ih (ordered_pointerStep h hw) hc

include hdoc

lemma ordered_pointer {text : String} {c : Json} (hc : pointer doc text = some c) :
    c.Ordered := by
  unfold pointer at hc
  split_ifs at hc
  · cases hc
    exact hdoc
  · exact ordered_foldlM_pointerStep hdoc hc

lemma ordered_deref {v : Json} (h : v.Ordered) : (deref doc v).Ordered := by
  unfold deref
  generalize 32 = left
  induction left generalizing v with
  | zero => exact h
  | succ left ih =>
      rw [derefLoop]
      cases htarget : ((strField v "$ref").bind (Text.stripPrefix "#")).bind (pointer doc) with
      | none => exact h
      | some target =>
          obtain ⟨text, _, htext⟩ := Option.bind_eq_some_iff.mp htarget
          exact ih (ordered_pointer hdoc htext)

lemma ordered_itemSchema {array : Json} (h : array.Ordered) : (itemSchema doc array).Ordered := by
  unfold itemSchema
  cases hitems : array.get? "items" with
  | none => exact trivial
  | some i => exact ordered_deref hdoc (ordered_get? h hitems)

omit hdoc in
lemma ordered_of_mem {fields : List (String × Json)} (h : Json.OrderedFields fields)
    {e : String × Json} (he : e ∈ fields) : e.2.Ordered := by
  induction fields with
  | nil => cases he
  | cons e' fields ih =>
      rcases List.mem_cons.mp he with rfl | he
      · exact h.1
      · exact ih h.2 he

lemma ordered_rowsArray {props : List (String × Json)} (h : Json.OrderedFields props)
    {e : String × Json} (he : rowsArray doc props = some e) : e.2.Ordered := by
  unfold rowsArray at he
  dsimp only at he
  split at he
  · rename_i found hfind
    cases he
    obtain ⟨name, _, hname⟩ := List.mem_filterMap.mp (List.mem_of_find?_eq_some hfind)
    obtain ⟨prop, hprop, rfl⟩ := Option.map_eq_some_iff.mp hname
    exact ordered_deref hdoc (h.lookup hprop)
  · split at he
    · rename_i name prop hfilter
      cases he
      have hmem : (name, prop) ∈ props := by
        refine List.mem_of_mem_filter (p := fun e =>
          !isMetadataField e.1 && isArraySchema (deref doc e.2)) ?_
        rw [hfilter]
        exact List.mem_singleton_self _
      exact ordered_deref hdoc (ordered_of_mem h hmem)
    · cases he

omit hdoc in
/-- The columns of an object are its properties, each once. -/
lemma objectColumns_nodup {schema : Json} (h : schema.Ordered) (table : String) :
    ((objectColumns doc schema table).1.map ResponseColumn.name).Nodup := by
  unfold objectColumns
  split
  · exact List.nodup_singleton _
  · rename_i props hprops
    obtain ⟨v, hv, hobj⟩ := Option.bind_eq_some_iff.mp hprops
    have hordered := ordered_asObject? (ordered_get? h hv) hobj
    dsimp only
    rw [((List.mergeSort_perm _ _).map ResponseColumn.name).nodup_iff, List.map_map]
    show (props.map Prod.fst).Nodup
    rw [List.Nodup, List.pairwise_map]
    exact hordered.1.imp fun hlt => ne_of_lt hlt

lemma classify_nodup {schema : Json} (h : schema.Ordered) (table : String) :
    ((classify doc schema table).2.1.map ResponseColumn.name).Nodup := by
  unfold classify
  split_ifs
  · exact objectColumns_nodup (ordered_itemSchema hdoc h) table
  · split
    · rename_i prop array hrows
      obtain ⟨props, hprops, hrows⟩ := Option.bind_eq_some_iff.mp hrows
      obtain ⟨v, hv, hobj⟩ := Option.bind_eq_some_iff.mp hprops
      have hordered := ordered_asObject? (ordered_get? h hv) hobj
      exact objectColumns_nodup
        (ordered_itemSchema hdoc (ordered_rowsArray hdoc hordered.2 hrows)) table
    · exact objectColumns_nodup h table
  · exact List.nodup_singleton _

omit hdoc in
lemma mem_of_lowest {l : List (ℕ × Json)} {e : ℕ × Json} (h : lowest l = some e) : e ∈ l := by
  induction l generalizing e with
  | nil => cases h
  | cons e' l ih =>
      rw [lowest] at h
      cases hbest : lowest l with
      | none =>
          rw [hbest] at h
          cases h
          exact List.mem_cons_self
      | some best =>
          rw [hbest] at h
          dsimp only at h
          split_ifs at h
          · cases h
            exact List.mem_cons_of_mem _ (ih hbest)
          · cases h
            exact List.mem_cons_self

/-- The success schema is the JSON schema of one of the responses. -/
lemma ordered_successSchema {op schema : Json} (hop : op.Ordered)
    (h : successSchema doc op = some schema) : schema.Ordered := by
  obtain ⟨responses, hresponses, h⟩ := Option.bind_eq_some_iff.mp h
  obtain ⟨v, hv, hobj⟩ := Option.bind_eq_some_iff.mp hresponses
  have hordered := ordered_asObject? (ordered_get? hop hv) hobj
  have hmem : ∃ e ∈ responses.filterMap fun e => (jsonSchema doc e.2).map fun s => (e.1, s),
      e.2 = schema := by
    dsimp only at h
    rcases Option.or_eq_some_iff.mp h with hnumeric | ⟨_, hrange⟩
    · obtain ⟨e, he, rfl⟩ := Option.map_eq_some_iff.mp hnumeric
      have hin : e ∈ (responses.filterMap fun e => (jsonSchema doc e.2).map fun s =>
          (e.1, s)).filterMap fun e =>
            ((parseStatus e.1).filter fun code => 200 ≤ code && code < 300).map fun code =>
              (code, e.2) := by
        rcases Option.or_eq_some_iff.mp he with hfind | ⟨_, hlowest⟩
        · exact List.mem_of_find?_eq_some hfind
        · exact mem_of_lowest hlowest
      obtain ⟨e', he', hcode⟩ := List.mem_filterMap.mp hin
      obtain ⟨code, _, rfl⟩ := Option.map_eq_some_iff.mp hcode
      exact ⟨e', he', rfl⟩
    · obtain ⟨e, he, rfl⟩ := Option.map_eq_some_iff.mp hrange
      exact ⟨e, List.mem_of_mem_filter (List.mem_of_getLast? he), rfl⟩
  obtain ⟨e, he, rfl⟩ := hmem
  obtain ⟨response, hresponse, hschema⟩ := List.mem_filterMap.mp he
  obtain ⟨s, hs, rfl⟩ := Option.map_eq_some_iff.mp hschema
  obtain ⟨j, hj, hs⟩ := Option.bind_eq_some_iff.mp hs
  obtain ⟨c, hc, hj⟩ := Option.bind_eq_some_iff.mp hj
  have hderef := ordered_deref hdoc (ordered_of_mem hordered.2 hresponse)
  exact ordered_get? (ordered_get? (ordered_get? hderef hc) hj) hs

lemma buildResponse_nodup {op : Json} (hop : op.Ordered) (table : String) :
    ((buildResponse doc op table).2.1.map ResponseColumn.name).Nodup := by
  unfold buildResponse
  split
  · exact List.nodup_singleton _
  · rename_i schema hschema
    exact classify_nodup hdoc (ordered_deref hdoc (ordered_successSchema hdoc hop hschema)) table

end Ordered

/-! ## Names of a table -/

/-- The columns of a table are named apart when those of its response are, and its parameters'
columns. -/
lemma effectiveColumns_nodup_iff {schema : List ResponseColumn} {params : List ParamSpec}
    (hschema : (schema.map ResponseColumn.name).Nodup) :
    ((effectiveColumns schema params).map ResponseColumn.name).Nodup ↔
      ((params.filter fun p => p.filterable &&
        !(schema.map ResponseColumn.name).contains p.name).map ParamSpec.name).Nodup := by
  have hnames : (paramColumns schema params).map ResponseColumn.name =
      (params.filter fun p => p.filterable &&
        !(schema.map ResponseColumn.name).contains p.name).map ParamSpec.name := by
    rw [paramColumns, List.map_map]
    rfl
  rw [effectiveColumns, List.map_append, hnames]
  constructor
  · exact fun h => (List.nodup_append'.mp h).2.1
  · intro hparams
    refine List.nodup_append'.mpr ⟨hschema, hparams, ?_⟩
    intro name hname hparam
    obtain ⟨p, hp, rfl⟩ := List.mem_map.mp hparam
    have hfresh := (Bool.and_eq_true_iff.mp (List.mem_filter.mp hp).2).2
    simp only [Bool.not_eq_true', List.contains_eq_mem, decide_eq_false_iff_not] at hfresh
    exact hfresh hname

/-- The columns of a table have names of their own exactly when a name that is used in both places
is also a property of the response or left to the pagination. -/
theorem synthTable_columns_iff {doc : Json} (hdoc : doc.Ordered) {op : Json} (hop : op.Ordered)
    {name path : String} {pathLevel : Option Json} {t : SynthTable}
    (ht : t = (synthTable doc name path pathLevel op).1) :
    ((effectiveColumns t.schema t.spec.params).map ResponseColumn.name).Nodup ↔
      ∀ name, Shared doc pathLevel op name →
        name ∈ t.schema.map ResponseColumn.name ∨
          name ∈ paginationParams t.spec.pagination := by
  subst ht
  refine (effectiveColumns_nodup_iff (buildResponse_nodup hdoc hop name)).trans ?_
  have hfilter : ∀ (schema : List ResponseColumn) (pagination : Option PaginationConfig)
      (params : List ParamSpec),
      ((markFilterable params pagination).filter fun p => p.filterable &&
        !(schema.map ResponseColumn.name).contains p.name).map ParamSpec.name =
          (params.map ParamSpec.name).filter fun name =>
            !(paginationParams pagination).contains name &&
              !(schema.map ResponseColumn.name).contains name := by
    intro schema pagination params
    rw [markFilterable, List.filter_map, List.filter_map, List.map_map]
    rfl
  unfold synthTable
  dsimp only
  rw [hfilter, params_filter_nodup_iff]
  refine forall_congr' fun shared => ?_
  rw [Bool.and_eq_true_iff, Bool.not_eq_true', Bool.not_eq_true', ← not_iff_not]
  simp only [List.contains_eq_mem, decide_eq_false_iff_not]
  tauto

/-- The names of a table: its columns and its parameters are each found by name. -/
structure NamesApart (t : SynthTable) : Prop where
  columns : ((effectiveColumns t.schema t.spec.params).map ResponseColumn.name).Nodup
  params : (t.spec.params.map ParamSpec.name).Nodup

lemma synthTable_namesApart {doc : Json} (hdoc : doc.Ordered) {op : Json} (hop : op.Ordered)
    {name path : String} {pathLevel : Option Json} :
    NamesApart (synthTable doc name path pathLevel op).1 ↔ ¬ SharesName doc pathLevel op := by
  have hparams : ((synthTable doc name path pathLevel op).1.spec.params.map
      ParamSpec.name).Nodup ↔ ¬ SharesName doc pathLevel op := by
    show ((markFilterable _ _).map ParamSpec.name).Nodup ↔ _
    rw [markFilterable_names]
    exact params_nodup_iff
  constructor
  · exact fun h => hparams.mp h.params
  · intro h
    have hnodup := hparams.mpr h
    exact ⟨(effectiveColumns_nodup_iff (buildResponse_nodup hdoc hop name)).mpr
      (hnodup.sublist (List.filter_sublist.map _)), hnodup⟩

/-- The operations of a document that become tables. -/
def documentOperations (doc : Json) (opts : SynthOptions) : List (String × Option Json × Json) :=
  match (doc.get? "paths").bind asObject? with
  | none => []
  | some paths => operations opts paths

lemma ordered_of_mem_documentOperations {doc : Json} (hdoc : doc.Ordered) {opts : SynthOptions}
    {op : String × Option Json × Json} (h : op ∈ documentOperations doc opts) :
    op.2.2.Ordered := by
  unfold documentOperations at h
  split at h
  · cases h
  · rename_i paths hpaths
    obtain ⟨v, hv, hobj⟩ := Option.bind_eq_some_iff.mp hpaths
    have hordered := ordered_asObject? (ordered_get? hdoc hv) hobj
    obtain ⟨e, he, hop⟩ := List.mem_filterMap.mp h
    have hitem := ordered_of_mem hordered.2 he
    split at hop
    · rename_i item hitem_eq
      rw [hitem_eq] at hitem
      split at hop
      · rename_i get hget
        split_ifs at hop
        cases hop
        exact hitem.2.lookup hget
      · cases hop
    · cases hop

/-- The tables of an accepted document. -/
lemma synthesize_eq_ok {doc : Json} {opts : SynthOptions} {out : Synthesis}
    (h : synthesize doc opts = .ok out) :
    out.tables = ((synthLoop doc opts.naming (documentOperations doc opts) []).map
      Prod.fst).mergeSort fun a b => decide (a.spec.name ≤ b.spec.name) := by
  unfold synthesize at h
  split at h
  · cases h
  · split_ifs at h
    split at h
    · cases h
    · rename_i paths hpaths
      have hops : documentOperations doc opts = operations opts paths := by
        rw [documentOperations, hpaths]
      cases h
      rw [hops]

/-- In every accepted document the tables have names of their own, and the columns and parameters of
each table have exactly when no operation uses one name both in the path and in the query. -/
theorem synthesize_names_iff {doc : Json} (hdoc : doc.Ordered) {opts : SynthOptions}
    {out : Synthesis} (h : synthesize doc opts = .ok out) :
    ((out.tables.map fun t => t.spec.name).Nodup ∧ ∀ t ∈ out.tables, NamesApart t) ↔
      ∀ op ∈ documentOperations doc opts, ¬ SharesName doc op.2.1 op.2.2 := by
  rw [synthesize_eq_ok h]
  have hperm := List.mergeSort_perm ((synthLoop doc opts.naming (documentOperations doc opts)
    []).map Prod.fst) fun a b => decide (a.spec.name ≤ b.spec.name)
  rw [(hperm.map _).nodup_iff, List.map_map]
  have hnames := (synthLoop_names doc opts.naming (documentOperations doc opts) []).1
  constructor
  · rintro ⟨_, happart⟩ op hop
    obtain ⟨name, hmem⟩ := exists_of_mem_operations doc opts.naming [] hop
    have htable := happart _ (hperm.mem_iff.mpr (List.mem_map_of_mem hmem))
    exact (synthTable_namesApart hdoc (ordered_of_mem_documentOperations hdoc hop)).mp htable
  · intro hshares
    refine ⟨hnames, ?_⟩
    intro t ht
    obtain ⟨e, he, rfl⟩ := List.mem_map.mp (hperm.mem_iff.mp ht)
    obtain ⟨op, hop, name, rfl⟩ := exists_of_mem_synthLoop he
    exact (synthTable_namesApart hdoc (ordered_of_mem_documentOperations hdoc hop)).mpr
      (hshares op hop)

/-- A document with one operation and its parameters. -/
def oneOperation (path : String) (parameters : List Json) : Json :=
  .obj [("openapi", .str "3.0.0"),
    ("paths", .obj [(path, .obj [("get", .obj [("parameters", .arr parameters)])])])]

/-- The owner is in the path, the pet in the query. -/
def petsDocument : Json :=
  oneOperation "/owners/{owner}/pets" [.obj [("in", .str "path"), ("name", .str "owner")],
    .obj [("in", .str "query"), ("name", .str "pet")]]

/-- The user is in the path, and an option of the same name in the query. -/
def usersDocument : Json :=
  oneOperation "/users/{id}" [.obj [("in", .str "path"), ("name", .str "id")],
    .obj [("in", .str "query"), ("name", .str "id")]]

theorem synthesize_names_pets :
    ∃ out, synthesize petsDocument {} = .ok out ∧
      (out.tables.map fun t => t.spec.name).Nodup ∧ ∀ t ∈ out.tables, NamesApart t := by
  cases h : synthesize petsDocument {} with
  | error e =>
      have hok : (synthesize petsDocument {}).isOk = true := by decide
      rw [h] at hok
      cases hok
  | ok out =>
      have hdoc : petsDocument.Ordered := by decide
      exact ⟨out, rfl, (synthesize_names_iff hdoc h).mpr (by decide)⟩

/-- The table of the users has two columns named `id`. -/
theorem synthesize_names_fails :
    ∃ out, synthesize usersDocument {} = .ok out ∧
      ∃ t ∈ out.tables, ¬ ((effectiveColumns t.schema t.spec.params).map ResponseColumn.name).Nodup := by
  have hnames : ((synthesize usersDocument {}).toOption.map fun out => out.tables.map fun t =>
      (effectiveColumns t.schema t.spec.params).map ResponseColumn.name) =
        some [["value", "id", "id"]] := by decide +kernel
  cases h : synthesize usersDocument {} with
  | error e =>
      rw [h] at hnames
      cases hnames
  | ok out =>
      rw [h] at hnames
      have hmap : (out.tables.map fun t => (effectiveColumns t.schema t.spec.params).map
          ResponseColumn.name) = [["value", "id", "id"]] := Option.some.inj hnames
      have hmem : ["value", "id", "id"] ∈ out.tables.map fun t =>
          (effectiveColumns t.schema t.spec.params).map ResponseColumn.name := by
        rw [hmap]
        exact List.mem_singleton_self _
      obtain ⟨t, ht, hcolumns⟩ := List.mem_map.mp hmem
      refine ⟨out, rfl, t, ht, ?_⟩
      rw [hcolumns]
      decide

end OpenApi
end Http
end Pawrly
