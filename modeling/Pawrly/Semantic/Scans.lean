import Pawrly.Semantic.Core

/-!
# The scans of a compiled query

Every `SELECT` and every CTE of a compiled statement reads the tables of one join tree.  A
`Scan` is what the query says about such a tree: its root model and the models it mentions.
`scans` lists them from the query alone; `compileMeasures_scans` connects each `SELECT` of the
compiled statement to its scan.
-/

namespace Pawrly
namespace Semantic

open Sql

/-- The root of a join tree, the models the query mentions for it and whether columns are
qualified by their model. -/
structure Scan where
  root : String
  mentioned : List String
  joined : Bool
  deriving DecidableEq

/-- The scans of a measure query: one, or one for each of several measure roots. -/
def scans (cat : SemanticCatalog) (q : SemanticQuery) : Except SemanticError (List Scan) := do
  let roots ← measureRoots cat q
  if 2 ≤ roots.length then do
    let filters ← splitFilters cat q
    roots.mapM fun root => do
      let mentioned ← (q.dimensions ++ filters.1.map SemanticFilter.member).foldlM
        (pushModel cat) [root]
      .ok ⟨root, mentioned, true⟩
  else do
    let root ← singleRoot q roots
    let mentioned ← referencedModels cat q
    .ok [⟨root, mentioned, decide (1 < mentioned.length)⟩]

/-- A filter on a dimension of its model. -/
def isDimensionFilter (cat : SemanticCatalog) (f : SemanticFilter) : Bool :=
  match modelForMember cat f.member with
  | .ok model => !memberIsMeasure model f.member
  | .error _ => false

/-- The row-level condition of a dimension filter. -/
def dimensionCond (cat : SemanticCatalog) (tz : Option String) (joined : Bool)
    (f : SemanticFilter) : Except SemanticError SqlCond := do
  let model ← modelForMember cat f.member
  resolveFilter model f (if joined then some model.name else none) tz

/-- The row-level conditions of a query's dimension filters. -/
def dimensionConds (cat : SemanticCatalog) (q : SemanticQuery) (joined : Bool) :
    Except SemanticError (List SqlCond) :=
  (q.filters.filter (isDimensionFilter cat)).mapM (dimensionCond cat q.timeZone joined)

/-! ## The models on the join paths -/

/-- `c` is reached from `p` along one relationship of the search from `root`. -/
def Parent (cat : SemanticCatalog) (root c p : String) : Prop :=
  ∃ n, (reachability cat root).lookup c = some n ∧ n.parent = some p

/-- `b` lies on the join path from `root` to `m`. -/
def OnPath (cat : SemanticCatalog) (root m b : String) : Prop :=
  Relation.ReflTransGen (Parent cat root) m b

/-- A model joined only to connect others: on the path to a mentioned model, itself neither
the root nor mentioned. -/
def Bridge (cat : SemanticCatalog) (sc : Scan) (b : String) : Prop :=
  b ≠ sc.root ∧ b ∉ sc.mentioned ∧ ∃ m ∈ sc.mentioned, OnPath cat sc.root m b

lemma onPath_root {cat : SemanticCatalog} {root x : String} (h : OnPath cat root root x) :
    x = root := by
  rcases Relation.ReflTransGen.cases_head h with rfl | ⟨p, ⟨n, hn, hp⟩, _⟩
  · rfl
  · obtain ⟨nr, hnr, _, _, hnone⟩ := (reachability_inv cat root).rootNode
    rw [hn] at hnr
    cases hnr
    rw [hp] at hnone
    cases hnone

/-- The walk of `needed_models` from `m` meets exactly the path from `m`, the root left out. -/
lemma mem_ancestors_iff {cat : SemanticCatalog} {root : String} {fuel : ℕ} {m : String}
    {chain : List String} (h : ancestors (reachability cat root) root fuel m = .ok chain)
    {x : String} : x ∈ chain ↔ x ≠ root ∧ OnPath cat root m x := by
  induction chain generalizing fuel m with
  | nil =>
      have hm : m = root := by
        by_contra hne
        obtain ⟨_, _, _, _, _, heq, _⟩ := ancestors_cons h hne
        cases heq
      subst hm
      constructor
      · intro hx
        cases hx
      · rintro ⟨hne, hpath⟩
        exact absurd (onPath_root hpath) hne
  | cons y up ih =>
      by_cases hm : m = root
      · subst hm
        cases ancestors_root h
      · obtain ⟨n, p, up', hn, hp, heq, hup⟩ := ancestors_cons h hm
        cases heq
        rw [List.mem_cons, ih hup]
        constructor
        · rintro (rfl | ⟨hne, hpath⟩)
          · exact ⟨hm, Relation.ReflTransGen.refl⟩
          · exact ⟨hne, Relation.ReflTransGen.head ⟨n, hn, hp⟩ hpath⟩
        · rintro ⟨hne, hpath⟩
          rcases Relation.ReflTransGen.cases_head hpath with rfl | ⟨p', ⟨n', hn', hp'⟩, hrest⟩
          · exact .inl rfl
          · rw [hn] at hn'
            cases hn'
            rw [hp] at hp'
            cases hp'
            exact .inr ⟨hne, hrest⟩

/-- The joined models are those on the paths to the mentioned ones, the root left out. -/
lemma mem_neededModels_iff {ord : SetOrder} {cat : SemanticCatalog} {root : String}
    {referenced needed : List String}
    (h : neededModels ord (reachability cat root) referenced root = .ok needed) {x : String} :
    x ∈ needed ↔ x ≠ root ∧ ∃ m ∈ referenced, OnPath cat root m x := by
  rw [mem_neededModels h]
  constructor
  · rintro ⟨m, hm, _, chain, hchain, hx⟩
    obtain ⟨hne, hpath⟩ := (mem_ancestors_iff hchain).mp hx
    exact ⟨hne, m, hm, hpath⟩
  · rintro ⟨hne, m, hm, hpath⟩
    have hmr : m ≠ root := by
      rintro rfl
      exact hne (onPath_root hpath)
    obtain ⟨chains, hchains, _⟩ := Fallible.bind_eq_ok.mp h
    obtain ⟨chain, _, hchain⟩ := Fallible.exists_of_mapM hchains
      (List.mem_filter.mpr ⟨hm, by simpa using hmr⟩)
    exact ⟨m, hm, hmr, chain, hchain, (mem_ancestors_iff hchain).mpr ⟨hne, hpath⟩⟩

/-! ## The mentioned models -/

lemma modelForMember_name {cat : SemanticCatalog} {member : String} {m : SemanticModel}
    (h : modelForMember cat member = .ok m) :
    memberModel member = .ok m.name ∧ cat.model m.name = some m := by
  obtain ⟨name, hname, h⟩ := Fallible.bind_eq_ok.mp h
  split at h
  · next m' hm =>
      cases h
      have := SemanticCatalog.name_of_model hm
      subst this
      exact ⟨hname, hm⟩
  · cases h

/-- The loops over members collect the models of the members. -/
lemma mem_foldlM_pushModel {cat : SemanticCatalog} {members out acc : List String}
    (h : members.foldlM (pushModel cat) acc = .ok out) {x : String} :
    x ∈ out ↔ x ∈ acc ∨ ∃ m ∈ members, memberModel m = .ok x := by
  induction members generalizing acc with
  | nil =>
      cases h
      simp
  | cons m members ih =>
      rw [List.foldlM_cons] at h
      obtain ⟨acc', hacc, h⟩ := Fallible.bind_eq_ok.mp h
      obtain ⟨model, hmodel, heq⟩ := Fallible.bind_eq_ok.mp hacc
      cases heq
      obtain ⟨hname, _⟩ := modelForMember_name hmodel
      have hacc' : x ∈ (if model.name ∈ acc then acc else acc ++ [model.name]) ↔
          x ∈ acc ∨ x = model.name := by
        split_ifs with hin
        · constructor
          · exact .inl
          · rintro (hx | rfl)
            · exact hx
            · exact hin
        · simp
      rw [ih h, hacc', or_assoc]
      have hhead : memberModel m = .ok x ↔ x = model.name := by
        rw [hname]
        constructor
        · rintro ⟨⟩
          rfl
        · rintro rfl
          rfl
      simp [hhead]

lemma foldlM_pushModel_nodup {cat : SemanticCatalog} {members out acc : List String}
    (h : members.foldlM (pushModel cat) acc = .ok out) (hacc : acc.Nodup) : out.Nodup := by
  refine Fallible.foldlM_induction h hacc fun acc member acc' _ hturn hnodup => ?_
  obtain ⟨model, _, heq⟩ := Fallible.bind_eq_ok.mp hturn
  cases heq
  split_ifs with hin
  · exact hnodup
  · rw [List.nodup_append]
    refine ⟨hnodup, List.nodup_singleton _, fun x hx y hy hxy => ?_⟩
    rw [List.mem_singleton] at hy
    exact hin (hy ▸ hxy ▸ hx)

/-- The checks of `consider` aside, the CTE loop collects the models of its members. -/
lemma foldlM_consider {cat : SemanticCatalog} {reach : Reach} {q : SemanticQuery}
    {root : String} {members out acc : List String}
    (h : members.foldlM (consider cat reach q root) acc = .ok out) :
    members.foldlM (pushModel cat) acc = .ok out := by
  induction members generalizing acc with
  | nil => exact h
  | cons m members ih =>
      rw [List.foldlM_cons] at h ⊢
      obtain ⟨acc', hacc, h⟩ := Fallible.bind_eq_ok.mp h
      obtain ⟨model, hmodel, hacc⟩ := Fallible.bind_eq_ok.mp hacc
      obtain ⟨_, _, heq⟩ := Fallible.bind_eq_ok.mp hacc
      have hpush : pushModel cat acc m = .ok acc' :=
        Fallible.bind_eq_ok.mpr ⟨model, hmodel, heq⟩
      exact Fallible.bind_eq_ok.mpr ⟨acc', hpush, ih h⟩

/-- The loop over the members of a CTE checks every model it collects. -/
lemma consider_checked {cat : SemanticCatalog} {q : SemanticQuery} {root : String}
    {members referenced : List String}
    (h : members.foldlM (consider cat (reachability cat root) q root) [root] =
      .ok referenced) :
    ∀ m ∈ referenced, m ≠ root → ∃ n, (reachability cat root).lookup m = some n ∧
      n.ambiguous = false ∧ n.fansOut = false := by
  refine Fallible.foldlM_induction h (P := fun acc => ∀ m ∈ acc, m ≠ root →
    ∃ n, (reachability cat root).lookup m = some n ∧ n.ambiguous = false ∧
      n.fansOut = false) ?_ ?_
  · intro m hm hne
    exact absurd (List.mem_singleton.mp hm) hne
  · intro acc member acc' _ hturn hacc m hm hne
    obtain ⟨model, _, hturn⟩ := Fallible.bind_eq_ok.mp hturn
    obtain ⟨u, hu, heq⟩ := Fallible.bind_eq_ok.mp hturn
    cases heq
    by_cases hold : m ∈ acc
    · exact hacc m hold hne
    · have hnew : m = model.name := by
        split_ifs at hm with hin
        · exact absurd hm hold
        · simpa [hold] using hm
      subst hnew
      obtain ⟨n, hn, hamb, hfan⟩ := checkLookup_spec hu hne
      exact ⟨n, hn, hamb, hfan rfl⟩

/-- The root of a measure query is the model of one of its measures or dimensions. -/
lemma singleRoot_mentioned {cat : SemanticCatalog} {q : SemanticQuery} {roots : List String}
    {root : String} {mentioned : List String} (hroots : measureRoots cat q = .ok roots)
    (hroot : singleRoot q roots = .ok root)
    (h : referencedModels cat q = .ok mentioned) : root ∈ mentioned := by
  rw [mem_foldlM_pushModel h]
  right
  unfold singleRoot at hroot
  split at hroot
  · next r rest =>
      cases hroot
      obtain hnil | ⟨m, hm, hmodel⟩ := (mem_foldlM_pushModel hroots).mp List.mem_cons_self
      · cases hnil
      · exact ⟨m, by simp [queryMembers, hm], hmodel⟩
  · split at hroot
    · next d rest hd => exact ⟨d, by simp [queryMembers, hd], hroot⟩
    · cases hroot

/-! ## From scans to statements -/

/-- What the compiler makes of a scan: the join tree of the mentioned models, whose `WHERE`
holds the dimension filters of the query and the required predicates of the mentioned
models. -/
structure Scanned (ord : SetOrder) (cat : SemanticCatalog) (q : SemanticQuery) (sc : Scan)
    (s : Select) : Prop where
  root_mem : sc.root ∈ sc.mentioned
  single : sc.joined = false → sc.mentioned.length ≤ 1
  source : ∃ needed, neededModels ord (reachability cat sc.root) sc.mentioned sc.root =
    .ok needed ∧ renderFrom cat sc.root (reachability cat sc.root) needed sc.joined = .ok s.source
  wheres : ∃ conds preds, dimensionConds cat q sc.joined = .ok conds ∧
    boundPredicates cat q.params sc.mentioned = .ok preds ∧ s.wheres = conds ++ preds

/-- Every filter has a model; the dimension filters are those on no measure of it. -/
lemma splitFilters_spec {cat : SemanticCatalog} {q : SemanticQuery}
    {dimFilters measureFilters : List SemanticFilter}
    (h : splitFilters cat q = .ok (dimFilters, measureFilters)) :
    (∀ f ∈ q.filters, ∃ model, modelForMember cat f.member = .ok model) ∧
    (∀ f, f ∈ dimFilters ↔ f ∈ q.filters ∧ ∃ model, modelForMember cat f.member = .ok model ∧
      memberIsMeasure model f.member = false) ∧
    (∀ f, f ∈ measureFilters ↔ f ∈ q.filters ∧ ∃ model,
      modelForMember cat f.member = .ok model ∧ memberIsMeasure model f.member = true) := by
  obtain ⟨tagged, htagged, heq⟩ := Fallible.bind_eq_ok.mp h
  cases heq
  have hmem : ∀ f b, (f, b) ∈ tagged ↔ f ∈ q.filters ∧ ∃ model,
      modelForMember cat f.member = .ok model ∧ memberIsMeasure model f.member = b := by
    intro f b
    constructor
    · intro hf
      obtain ⟨f', hf', hturn⟩ := Fallible.mem_of_mapM htagged hf
      obtain ⟨model, hmodel, heq⟩ := Fallible.bind_eq_ok.mp hturn
      cases heq
      exact ⟨hf', model, hmodel, rfl⟩
    · rintro ⟨hf, model, hmodel, rfl⟩
      obtain ⟨t, ht, hturn⟩ := Fallible.exists_of_mapM htagged hf
      obtain ⟨model', hmodel', heq⟩ := Fallible.bind_eq_ok.mp hturn
      cases heq
      rw [hmodel] at hmodel'
      cases hmodel'
      exact ht
  refine ⟨fun f hf => ?_, fun f => ?_, fun f => ?_⟩
  · obtain ⟨t, _, hturn⟩ := Fallible.exists_of_mapM htagged hf
    obtain ⟨model, hmodel, _⟩ := Fallible.bind_eq_ok.mp hturn
    exact ⟨model, hmodel⟩
  · rw [← hmem f false]
    simp
  · rw [← hmem f true]
    simp

lemma filterCond_inl {cat : SemanticCatalog} {tz : Option String} {joined : Bool}
    {f : SemanticFilter} {c : SqlCond} :
    filterCond cat tz joined f = .ok (.inl c) ↔ ∃ model,
      modelForMember cat f.member = .ok model ∧ memberIsMeasure model f.member = false ∧
      resolveFilter model f (if joined then some model.name else none) tz = .ok c := by
  unfold filterCond
  constructor
  · intro h
    obtain ⟨model, hmodel, h⟩ := Fallible.bind_eq_ok.mp h
    by_cases hm : memberIsMeasure model f.member = true
    · simp only [hm, if_true] at h
      obtain ⟨_, _, heq⟩ := Fallible.bind_eq_ok.mp h
      cases heq
    · simp only [hm, Bool.false_eq_true, if_false] at h
      obtain ⟨c', hc', heq⟩ := Fallible.bind_eq_ok.mp h
      cases heq
      exact ⟨model, hmodel, by simpa using hm, hc'⟩
  · rintro ⟨model, hmodel, hm, hc⟩
    refine Fallible.bind_eq_ok.mpr ⟨model, hmodel, ?_⟩
    simp only [hm, Bool.false_eq_true, if_false]
    exact Fallible.bind_eq_ok.mpr ⟨c, hc, rfl⟩

lemma filterCond_inr {cat : SemanticCatalog} {tz : Option String} {joined : Bool}
    {f : SemanticFilter} {c : SqlCond} (h : filterCond cat tz joined f = .ok (.inr c)) :
    ∃ model, modelForMember cat f.member = .ok model ∧ memberIsMeasure model f.member = true ∧
      resolveMeasureFilter model f (if joined then some model.name else none) = .ok c := by
  unfold filterCond at h
  obtain ⟨model, hmodel, h⟩ := Fallible.bind_eq_ok.mp h
  by_cases hm : memberIsMeasure model f.member = true
  · simp only [hm, if_true] at h
    obtain ⟨c', hc', heq⟩ := Fallible.bind_eq_ok.mp h
    cases heq
    exact ⟨model, hmodel, hm, hc'⟩
  · simp only [hm, Bool.false_eq_true, if_false] at h
    obtain ⟨_, _, heq⟩ := Fallible.bind_eq_ok.mp h
    cases heq

lemma isDimensionFilter_iff {cat : SemanticCatalog} {f : SemanticFilter} :
    isDimensionFilter cat f = true ↔ ∃ model, modelForMember cat f.member = .ok model ∧
      memberIsMeasure model f.member = false := by
  unfold isDimensionFilter
  cases modelForMember cat f.member with
  | error e => simp
  | ok model => simp

/-- The row-level conditions among all conditions are those of the dimension filters. -/
lemma dimensionConds_of_filterConds {cat : SemanticCatalog} {q : SemanticQuery} {joined : Bool}
    {conds : List (SqlCond ⊕ SqlCond)}
    (h : q.filters.mapM (filterCond cat q.timeZone joined) = .ok conds) :
    dimensionConds cat q joined = .ok (conds.filterMap Sum.getLeft?) := by
  unfold dimensionConds
  have hturns := Fallible.mapM_eq_ok_iff.mp h
  rw [Fallible.mapM_eq_ok_iff]
  clear h
  generalize q.filters = filters at hturns ⊢
  induction hturns with
  | nil => exact .nil
  | @cons f r fs rs hturn _ ih =>
      cases r with
      | inl c =>
          obtain ⟨model, hmodel, hno, hres⟩ := filterCond_inl.mp hturn
          rw [List.filter_cons_of_pos (isDimensionFilter_iff.mpr ⟨model, hmodel, hno⟩)]
          exact .cons (Fallible.bind_eq_ok.mpr ⟨model, hmodel, hres⟩) ih
      | inr c =>
          obtain ⟨model, hmodel, hyes, _⟩ := filterCond_inr hturn
          have hnot : ¬ isDimensionFilter cat f = true := by
            rw [isDimensionFilter_iff]
            rintro ⟨model', hmodel', hno⟩
            rw [hmodel] at hmodel'
            cases hmodel'
            rw [hyes] at hno
            cases hno
          rw [List.filter_cons_of_neg hnot]
          exact ih

lemma splitFilters_dim {cat : SemanticCatalog} {q : SemanticQuery}
    {dimFilters measureFilters : List SemanticFilter}
    (h : splitFilters cat q = .ok (dimFilters, measureFilters)) :
    dimFilters = q.filters.filter (isDimensionFilter cat) := by
  obtain ⟨tagged, htagged, heq⟩ := Fallible.bind_eq_ok.mp h
  cases heq
  have hturns := Fallible.mapM_eq_ok_iff.mp htagged
  clear h htagged
  generalize q.filters = filters at hturns ⊢
  induction hturns with
  | nil => rfl
  | @cons f t fs ts hturn _ ih =>
      obtain ⟨model, hmodel, heq⟩ := Fallible.bind_eq_ok.mp hturn
      cases heq
      have hdim : isDimensionFilter cat f = !memberIsMeasure model f.member := by
        unfold isDimensionFilter
        rw [hmodel]
      cases hm : memberIsMeasure model f.member with
      | true =>
          rw [List.filter_cons_of_neg (by simp), List.filter_cons_of_neg (by simp [hdim, hm])]
          exact ih
      | false =>
          rw [List.filter_cons_of_pos (by simp), List.filter_cons_of_pos (by simp [hdim, hm]),
            List.map_cons, ih]

lemma mem_dimensionConds {cat : SemanticCatalog} {q : SemanticQuery} {joined : Bool}
    {conds : List SqlCond} (h : dimensionConds cat q joined = .ok conds) {c : SqlCond} :
    c ∈ conds ↔ ∃ f ∈ q.filters, filterCond cat q.timeZone joined f = .ok (.inl c) := by
  simp only [filterCond_inl]
  constructor
  · intro hc
    obtain ⟨f, hf, hturn⟩ := Fallible.mem_of_mapM h hc
    obtain ⟨hfq, hdim⟩ := List.mem_filter.mp hf
    obtain ⟨model, hmodel, hno⟩ := isDimensionFilter_iff.mp hdim
    obtain ⟨model', hmodel', hres⟩ := Fallible.bind_eq_ok.mp hturn
    rw [hmodel] at hmodel'
    cases hmodel'
    exact ⟨f, hfq, model, hmodel, hno, hres⟩
  · rintro ⟨f, hf, model, hmodel, hno, hres⟩
    obtain ⟨c', hc', hturn⟩ := Fallible.exists_of_mapM h
      (List.mem_filter.mpr ⟨hf, isDimensionFilter_iff.mpr ⟨model, hmodel, hno⟩⟩)
    obtain ⟨model', hmodel', hres'⟩ := Fallible.bind_eq_ok.mp hturn
    rw [hmodel] at hmodel'
    cases hmodel'
    rw [hres] at hres'
    cases hres'
    exact hc'

/-- The tables of a scan are those of the mentioned models and of the bridges between them. -/
lemma Scanned.mem_models {ord : SetOrder} {cat : SemanticCatalog} {q : SemanticQuery}
    {sc : Scan} {s : Select} (h : Scanned ord cat q sc s) {m : String} :
    m ∈ s.source.models ↔ m ∈ sc.mentioned ∨ Bridge cat sc m := by
  obtain ⟨needed, hneed, hsource⟩ := h.source
  have hroot : s.source.root = sc.root := (renderFrom_joins hsource).1
  cases hjoined : sc.joined with
  | true =>
      rw [hjoined] at hsource
      have hmodels : m ∈ s.source.models ↔ m = sc.root ∨ m ∈ needed := by
        rw [FromClause.models, List.mem_cons, hroot, renderFrom_models hsource]
      rw [hmodels, mem_neededModels_iff hneed]
      constructor
      · rintro (rfl | ⟨hne, hpath⟩)
        · exact .inl h.root_mem
        · by_cases hm : m ∈ sc.mentioned
          · exact .inl hm
          · exact .inr ⟨hne, hm, hpath⟩
      · rintro (hm | ⟨hne, _, hpath⟩)
        · by_cases hmr : m = sc.root
          · exact .inl hmr
          · exact .inr ⟨hmr, m, hm, Relation.ReflTransGen.refl⟩
        · exact .inr ⟨hne, hpath⟩
  | false =>
      -- a scan without joins mentions its root only
      have hsingle : sc.mentioned = [sc.root] := by
        have hlen := h.single hjoined
        have hmem := h.root_mem
        match hm : sc.mentioned with
        | [] => simp [hm] at hmem
        | [x] => simpa [hm, eq_comm] using hmem
        | _ :: _ :: _ => simp [hm] at hlen
      have hjoins : s.source.joins = [] := by
        obtain ⟨_, _, ⟨hc, _⟩ | ⟨_, hnil⟩⟩ := renderFrom_joins hsource
        · rw [hjoined] at hc
          cases hc
        · exact hnil
      have hbridge : ¬ Bridge cat sc m := by
        rintro ⟨hne, _, m', hm', hpath⟩
        rw [hsingle, List.mem_singleton] at hm'
        subst hm'
        exact hne (onPath_root hpath)
      simp [FromClause.models, hroot, hjoins, hsingle, hbridge]

/-- The scan of a single `SELECT`. -/
def SinglePlan.scan {ord : SetOrder} {cat : SemanticCatalog} {q : SemanticQuery} {root : String}
    {hasMeasures : Bool} {s : Select} (p : SinglePlan ord cat q root hasMeasures s) : Scan :=
  ⟨root, p.referenced, decide (1 < p.referenced.length)⟩

lemma SinglePlan.scanned {ord : SetOrder} {cat : SemanticCatalog} {q : SemanticQuery}
    {roots : List String} {root : String} {hasMeasures : Bool} {s : Select}
    (p : SinglePlan ord cat q root hasMeasures s) (hroots : measureRoots cat q = .ok roots)
    (hroot : singleRoot q roots = .ok root) : Scanned ord cat q p.scan s where
  root_mem := singleRoot_mentioned hroots hroot p.referenced_eq
  single := fun h => by simpa [SinglePlan.scan] using h
  source := ⟨p.needed, p.needed_eq, p.source_eq⟩
  wheres := ⟨_, p.preds, dimensionConds_of_filterConds p.conds_eq, p.preds_eq, p.wheres⟩

lemma SinglePlan.scans_eq {ord : SetOrder} {cat : SemanticCatalog} {q : SemanticQuery}
    {roots : List String} {root : String} {hasMeasures : Bool} {s : Select}
    (p : SinglePlan ord cat q root hasMeasures s) (hroots : measureRoots cat q = .ok roots)
    (hlen : roots.length < 2) (hroot : singleRoot q roots = .ok root) :
    scans cat q = .ok [p.scan] := by
  unfold scans
  rw [hroots]
  simp only [bind, Except.bind, if_neg (show ¬ 2 ≤ roots.length by omega), hroot,
    p.referenced_eq]
  rfl

lemma CtePlan.scanned {ord : SetOrder} {cat : SemanticCatalog} {q : SemanticQuery}
    {dimFilters measureFilters : List SemanticFilter} {root : String} {s : Select}
    (p : CtePlan ord cat q dimFilters root s)
    (hfilters : splitFilters cat q = .ok (dimFilters, measureFilters)) :
    Scanned ord cat q ⟨root, p.referenced, true⟩ s where
  root_mem := by
    rw [mem_foldlM_pushModel (foldlM_consider p.referenced_eq)]
    exact .inl List.mem_cons_self
  single := fun h => by cases h
  source := ⟨p.needed, p.needed_eq, p.source_eq⟩
  wheres := by
    refine ⟨p.conds, p.preds, ?_, p.preds_eq, p.wheres⟩
    unfold dimensionConds
    rw [← splitFilters_dim hfilters]
    exact p.conds_eq

/-- Every `SELECT` of a compiled measure query is the scan the query asks for, in order. -/
theorem compileMeasures_scans {ord : SetOrder} {cat : SemanticCatalog} {q : SemanticQuery}
    {stmt : Stmt} (h : compileMeasures ord cat q = .ok stmt) :
    ∃ ss, scans cat q = .ok ss ∧ List.Forall₂ (Scanned ord cat q) ss stmt.selects := by
  obtain ⟨roots, hroots, ⟨hlen, l, rfl, ⟨p⟩⟩ | ⟨hlen, root, s, hroot, rfl, ⟨p⟩⟩⟩ :=
    compileMeasures_cases h
  · obtain ⟨ss, hss, hR⟩ := Fallible.mapM_relate p.ctes_eq
      (g := fun root => do
        let mentioned ← (q.dimensions ++ p.dimFilters.map SemanticFilter.member).foldlM
          (pushModel cat) [root]
        .ok (Scan.mk root mentioned true))
      (R := fun sc c => Scanned ord cat q sc c.2) fun root c hc => by
        obtain ⟨body, hbody, heq⟩ := Fallible.bind_eq_ok.mp hc
        cases heq
        obtain ⟨cp⟩ := compileCte_plan hbody
        exact ⟨⟨root, cp.referenced, true⟩,
          Fallible.bind_eq_ok.mpr ⟨_, foldlM_consider cp.referenced_eq, rfl⟩,
          cp.scanned p.filters_eq⟩
    refine ⟨ss, ?_, ?_⟩
    · unfold scans
      rw [hroots]
      simp only [bind, Except.bind, if_pos hlen, p.filters_eq]
      exact hss
    · rw [Stmt.selects, List.forall₂_map_right_iff]
      exact hR
  · exact ⟨[p.scan], p.scans_eq hroots hlen hroot, .cons (p.scanned hroots hroot) .nil⟩

end Semantic
end Pawrly
