import Pawrly.Semantic.MetricLeaves
import Pawrly.Semantic.FilteredAggregate

/-!
# What a metric means

A metric keeps its meaning when its text has the tree of its references, every reference becomes a
column with its measure under the filters of the path to it, references share a column exactly when
they agree in both, and the generated names collide with no measure of the model (`Preserves`).

`preserves_iff` says when: no generated name is also the name of a measure or asked for by itself,
no derived expression ends in a comment, no two references differ only by filters that their
measure has anyway, and every filtered aggregate can take its filters (`Unobstructed`).
-/

namespace Pawrly
namespace Semantic

open Sql OperatorGrammar
open Config (Accepted SemanticConfig)

/-! ## Columns of references -/

/-- The filters under which a reference is aggregated: its measure's own and those of its path. -/
def pathFilters (cat : SemanticCatalog) (r : Reference) : Finset String :=
  (((measureOf cat r.member).map Measure.filters).getD []).toFinset ∪ r.filters

lemma splitOnce_of_split {member a b : String} (h : Text.split '.' member = [a, b]) :
    Text.splitOnce '.' member = some (a, b) ∧ '.' ∉ b.toList := by
  cases hsplit : Text.splitOnce '.' member with
  | none =>
      rw [(Text.split_of_splitOnce_none hsplit).1] at h
      cases h
  | some p =>
      obtain ⟨a', b'⟩ := p
      rw [(Text.split_of_splitOnce_some hsplit).1] at h
      obtain ⟨rfl, htail⟩ := List.cons.inj h
      cases hrest : Text.splitOnce '.' b' with
      | none =>
          obtain ⟨hwhole, hnot⟩ := Text.split_of_splitOnce_none hrest
          rw [hwhole] at htail
          obtain ⟨rfl, -⟩ := List.cons.inj htail
          exact ⟨rfl, hnot⟩
      | some p' =>
          rw [(Text.split_of_splitOnce_some hrest).1] at htail
          exact absurd (List.cons.inj htail).2 (Text.split_ne_nil _ _)

lemma split_syntheticName {a b : String} (ha : '.' ∉ a.toList) (hb : '.' ∉ b.toList) (k : ℕ) :
    Text.split '.' (a ++ "." ++ syntheticName k b) = [a, syntheticName k b] := by
  have hnot : '.' ∉ (syntheticName k b).toList := by
    have hdigits := notMem_toString k (c := '.') (by decide)
    rw [toList_syntheticName]
    simp only [List.mem_append, List.mem_cons (b := '_') (l := b.toList), not_or]
    exact ⟨by decide, hdigits, by decide, hb⟩
  rw [(Text.split_of_splitOnce_some (Text.splitOnce_append ha)).1,
    (Text.split_of_splitOnce_none (Text.splitOnce_eq_none_iff.mpr hnot)).1]

/-- The measure of a reference's column. -/
def carriedMeasure (measure : Measure) (k : ℕ) (r : Reference) : Measure :=
  if r.filters = ∅ then measure else syntheticMeasure measure k r.filters.sort

lemma carriedMeasure_agg (measure : Measure) (k : ℕ) (r : Reference) :
    (carriedMeasure measure k r).agg = measure.agg := by
  unfold carriedMeasure
  split_ifs <;> rfl

lemma carriedMeasure_expr (measure : Measure) (k : ℕ) (r : Reference) :
    (carriedMeasure measure k r).expr = measure.expr := by
  unfold carriedMeasure
  split_ifs <;> rfl

lemma carriedMeasure_filters (measure : Measure) (k : ℕ) (r : Reference) :
    (carriedMeasure measure k r).filters = measure.filters ++ r.filters.sort := by
  unfold carriedMeasure
  split_ifs with h
  · rw [h, Finset.sort_empty, List.append_nil]
  · rfl

section

variable {cat : SemanticCatalog} {refs : List Reference} {st : Expansion}

lemma augmented_model {name : String} {model : SemanticModel} (h : cat.model name = some model) :
    (augmentedCatalog cat st).model name = some { model with
      measures := model.measures ++ (st.synthetic.filter fun s => s.1 = model.name).map Prod.snd } := by
  rw [augmentedCatalog_model, h, Option.map_some]

/-- The graft is found under its name, unless a measure of the model has that name. -/
lemma Holds.measureOf_column (h : Holds cat refs st) {k : ℕ} {r : Reference}
    (hk : refs[k]? = some r) {measure : Measure} (hmeasure : measureOf cat r.member = some measure)
    (hunnamed : r.filters ≠ ∅ → ∀ modelName measureName,
      Text.splitOnce '.' r.member = some (modelName, measureName) →
      ∀ model, cat.model modelName = some model →
        ∀ m ∈ model.measures, m.name ≠ syntheticName k measureName) :
    measureOf (augmentedCatalog cat st) (columnIn st r) = some (carriedMeasure measure k r) := by
  obtain ⟨modelName, name, model, hsplit, hne, hmodel, hfind⟩ := measureOf_eq_some_iff.mp hmeasure
  rw [h.columnIn_eq hk, measureOf_eq_some_iff]
  by_cases hfilters : r.filters = ∅
  · refine ⟨modelName, name, _, ?_, hne, augmented_model hmodel, ?_⟩
    · rwa [leafColumn, if_pos hfilters]
    · unfold findMeasure at hfind ⊢
      rw [List.find?_append, hfind, carriedMeasure, if_pos hfilters, Option.some_or]
  · obtain ⟨s, hmem, hs⟩ := h.graft hk hfilters
    obtain ⟨-, name', model', measure', hsplit', hmodel', hfind', hgraft, hname, hcolumn⟩ :=
      grafted_eq_some hs
    obtain ⟨honce, hdot⟩ := splitOnce_of_split hsplit
    rw [honce] at hsplit'
    obtain ⟨hmodelName, rfl⟩ := Prod.mk.inj (Option.some.inj hsplit')
    subst hmodelName
    obtain rfl : model = model' := Option.some.inj (hmodel.symm.trans hmodel')
    obtain rfl : measure = measure' := Option.some.inj (hfind.symm.trans hfind')
    rw [hcolumn]
    refine ⟨_, _, _, split_syntheticName (splitOnce_spec honce).2 hdot k, hne,
      augmented_model hmodel, ?_⟩
    have hown : model.measures.find? (fun m => m.name = syntheticName k name) = none := by
      rw [List.find?_eq_none]
      intro m hm
      simpa using hunnamed hfilters _ _ honce model hmodel m hm
    unfold findMeasure
    rw [List.find?_append, hown, Option.none_or]
    -- the graft is the only one of its name
    have honly : ∀ m ∈ (st.synthetic.filter fun s => s.1 = model.name).map Prod.snd,
        m.name = syntheticName k name → m = carriedMeasure measure k r := by
      intro m hm hmname
      obtain ⟨s', hs', rfl⟩ := List.mem_map.mp hm
      obtain ⟨k', r', hk', hgrafted⟩ := (h.synthetic s').mp (List.mem_of_mem_filter hs')
      obtain ⟨-, name', -, -, -, -, -, -, hname', -⟩ := grafted_eq_some hgrafted
      rw [hname'] at hmname
      obtain ⟨rfl, -⟩ := syntheticName_inj.mp hmname
      obtain rfl : r = r' := Option.some.inj (hk.symm.trans hk')
      obtain rfl : s = s' := Option.some.inj (hs.symm.trans hgrafted)
      rw [hgraft, carriedMeasure, if_neg hfilters]
    have hmodelMem : s.1 = model.name := (SemanticCatalog.name_of_model hmodel).symm
    have hexists : ∃ m ∈ (st.synthetic.filter fun s => s.1 = model.name).map Prod.snd,
        m.name = syntheticName k name :=
      ⟨s.2, List.mem_map_of_mem (List.mem_filter.mpr ⟨hmem, by simpa using hmodelMem⟩), hname⟩
    obtain ⟨m, hm⟩ := Option.isSome_iff_exists.mp (List.find?_isSome.mpr (by simpa using hexists) :
      (List.find? (fun m => m.name = syntheticName k name)
        ((st.synthetic.filter fun s => s.1 = model.name).map Prod.snd)).isSome)
    rw [hm, honly m (List.mem_of_find?_eq_some hm) (by simpa using List.find?_some hm)]

/-- The column of a reference belongs to the model of its measure. -/
lemma Holds.ownerOf_column (h : Holds cat refs st) {k : ℕ} {r : Reference}
    (hk : refs[k]? = some r) {measure : Measure}
    (hmeasure : measureOf cat r.member = some measure) :
    ownerOf (columnIn st r) = ownerOf r.member := by
  obtain ⟨modelName, name, model, hsplit, -, -, -⟩ := measureOf_eq_some_iff.mp hmeasure
  obtain ⟨honce, hdot⟩ := splitOnce_of_split hsplit
  rw [h.columnIn_eq hk, leafColumn]
  split_ifs
  · rfl
  · rw [honce]
    dsimp only
    rw [ownerOf, ownerOf, split_syntheticName (splitOnce_spec honce).2 hdot, hsplit]
    rfl

/-- No reference asks for a generated name. -/
def Unasked (refs : List Reference) : Prop :=
  ∀ (k : ℕ) r, refs[k]? = some r → r.filters ≠ ∅ → ∀ modelName measureName,
    Text.splitOnce '.' r.member = some (modelName, measureName) →
    Reference.of (modelName ++ "." ++ syntheticName k measureName) [] ∉ refs

lemma eq_of_filters_empty {r : Reference} (h : r.filters = ∅) : r = .of r.member [] := by
  obtain ⟨member, filters⟩ := r
  dsimp only at h
  subst h
  rfl

lemma Holds.plain_ne (h : Holds cat refs st) (hunasked : Unasked refs) {k k' : ℕ}
    {r r' : Reference} (hk : refs[k]? = some r) (hk' : refs[k']? = some r') (hr : r.filters ≠ ∅)
    (hr' : r'.filters = ∅) : leafColumn k r ≠ leafColumn k' r' := by
  intro hcol
  obtain ⟨s, -, hs⟩ := h.graft hk hr
  obtain ⟨-, name, -, -, hsplit, -, -, -, -, hcolumn⟩ := grafted_eq_some hs
  refine hunasked k r hk hr _ _ hsplit ?_
  have hmember : leafColumn k' r' = r'.member := if_pos hr'
  rw [← hcolumn, hcol, hmember, ← eq_of_filters_empty hr']
  exact List.mem_of_getElem? hk'

/-- Different references have different columns. -/
lemma Holds.columnIn_inj (h : Holds cat refs st) (hunasked : Unasked refs) {r r' : Reference}
    (hr : r ∈ refs) (hr' : r' ∈ refs) (hcol : columnIn st r = columnIn st r') : r = r' := by
  obtain ⟨k, hk⟩ := List.mem_iff_getElem?.mp hr
  obtain ⟨k', hk'⟩ := List.mem_iff_getElem?.mp hr'
  rw [h.columnIn_eq hk, h.columnIn_eq hk'] at hcol
  by_cases hf : r.filters = ∅
  · by_cases hf' : r'.filters = ∅
    · rw [leafColumn, leafColumn, if_pos hf, if_pos hf'] at hcol
      rw [eq_of_filters_empty hf, eq_of_filters_empty hf', hcol]
    · exact absurd hcol.symm (h.plain_ne hunasked hk' hk hf' hf)
  · by_cases hf' : r'.filters = ∅
    · exact absurd hcol (h.plain_ne hunasked hk hk' hf hf')
    · exact h.filtered_inj hk hk' hf hf' hcol

end

/-! ## Projected metrics -/

lemma projectMeasure_member {ctx : ExpandCtx} {st : Expansion} {m : String}
    {r : (MetricExpr × String) × Expansion} (h : projectMeasure ctx st m = .ok r) :
    r.1.2 = m ∧ ∃ e, Config.memberExpr ctx (ctx.cat.metrics.length + 1) [] st m [] = .ok (e, r.2) ∧
      (isMetric m = true → r.1.1 = e) := by
  unfold Config.memberExpr
  unfold projectMeasure at h
  split_ifs at h ⊢ with hm
  · obtain ⟨⟨e, st'⟩, he, heq⟩ := Fallible.bind_eq_ok.mp h
    cases heq
    exact ⟨rfl, e, he, fun _ => rfl⟩
  · obtain ⟨⟨col, st'⟩, hl, heq⟩ := Fallible.bind_eq_ok.mp h
    cases heq
    exact ⟨rfl, _, Fallible.bind_eq_ok.mpr ⟨_, hl, rfl⟩, fun h => absurd h hm⟩

/-- The expansion behind every projected metric. -/
lemma projectMeasures_items {ctx : ExpandCtx} {ms : List String} {st : Expansion}
    {r : List (MetricExpr × String) × Expansion} (h : projectMeasures ctx ms st = .ok r) :
    Keeps st r.2 ∧ ∀ e m, (e, m) ∈ r.1 → isMetric m = true → m ∈ ms ∧ ∃ st₁ st₂,
      Config.memberExpr ctx (ctx.cat.metrics.length + 1) [] st₁ m [] = .ok (e, st₂) ∧
        Keeps st₂ r.2 := by
  induction ms generalizing st r with
  | nil =>
      cases h
      exact ⟨.refl st, fun e m hin => by cases hin⟩
  | cons m ms ih =>
      obtain ⟨⟨⟨e, m'⟩, st₁⟩, hitem, h⟩ := Fallible.bind_eq_ok.mp h
      obtain ⟨⟨items, st₂⟩, hitems, heq⟩ := Fallible.bind_eq_ok.mp h
      cases heq
      obtain ⟨rfl, e', hrun, he⟩ := projectMeasure_member hitem
      obtain ⟨hkeeps, hrest⟩ := ih hitems
      refine ⟨(memberExpr_keeps hrun).trans hkeeps, fun e'' m'' hin hm => ?_⟩
      rcases List.mem_cons.mp hin with heq | hin
      · cases heq
        obtain rfl : e = e' := he hm
        exact ⟨List.mem_cons_self, st, st₁, hrun, hkeeps⟩
      · obtain ⟨hmem, hsub⟩ := hrest e'' m'' hin hm
        exact ⟨List.mem_cons_of_mem _ hmem, hsub⟩

/-! ## Meaning -/

section

variable {L P : Type} [Preorder L] {G : Grammar Token L P}

/-- The column of a reference holds its measure, aggregated under the filters of its path. -/
def Carries (F : Forms G) (cat : SemanticCatalog) (q : SemanticQuery) (st : Expansion)
    (r : Reference) (measure : Measure) : Prop :=
  ∃ measure', measureOf (augmentedCatalog cat st) (columnIn st r) = some measure' ∧
    measure'.agg = measure.agg ∧ measure'.expr = measure.expr ∧
    measure'.filters.toFinset = pathFilters cat r ∧
    (measure'.filters ≠ [] →
      Filtered F (ownerOf r.member) measure'.agg measure'.expr measure'.filters) ∧
    ∀ ord inner, compileMeasures ord (augmentedCatalog cat st) (leafQuery q st.leaves) =
      .ok inner → ∃ s ∈ inner.selects, ∃ alias? ∈ aliasesOf (ownerOf r.member),
        (aggSql measure' alias?, columnIn st r) ∈ s.items

/-- The metrics of a query mean what they are written for. -/
structure Preserves (F : Forms G) (cat : SemanticCatalog) (q : SemanticQuery)
    (items : List (MetricExpr × String)) (st : Expansion) : Prop where
  /-- Every metric's text has the tree of its references. -/
  rendered : ∀ name, Reached cat q name → Rendered F (expandCtx cat q) name
  /-- So do the projections of the query. -/
  projected : ∀ e m, (e, m) ∈ items → isMetric m = true →
    ∀ T, RefTree F (expandCtx cat q) m [] T → ∃ t, G.HasTree (G.words t) t ∧
      Spells e.render (G.words t) ∧ t.strip = (T.subst (columnTree F st)).strip
  carried : ∀ r ∈ queryReferences cat q, ∀ measure, measureOf cat r.member = some measure →
    Carries F cat q st r measure
  shared : ∀ r ∈ queryReferences cat q, ∀ r' ∈ queryReferences cat q,
    columnIn st r = columnIn st r' ↔ r.member = r'.member ∧ pathFilters cat r = pathFilters cat r'
  fresh : ∀ s ∈ st.synthetic, ∀ model, cat.model s.1 = some model →
    ∀ m ∈ model.measures, m.name ≠ s.2.name

/-- Nothing in the catalog and the query stands in the way of the expansion. -/
structure Unobstructed (F : Forms G) (cat : SemanticCatalog) (q : SemanticQuery) : Prop where
  /-- No derived expression ends in a line comment. -/
  clean : ∀ name, Reached cat q name → Clean F (expandCtx cat q) name
  /-- No measure bears a generated name. -/
  unnamed : ∀ (k : ℕ) r, (distinct (queryReferences cat q))[k]? = some r → r.filters ≠ ∅ →
    ∀ modelName measureName, Text.splitOnce '.' r.member = some (modelName, measureName) →
    ∀ model, cat.model modelName = some model →
      ∀ m ∈ model.measures, m.name ≠ syntheticName k measureName
  /-- No generated name is asked for by itself. -/
  unasked : Unasked (distinct (queryReferences cat q))
  /-- No references differ only by filters of their measure. -/
  separate : ∀ r ∈ queryReferences cat q, ∀ r' ∈ queryReferences cat q, r.member = r'.member →
    pathFilters cat r = pathFilters cat r' → r = r'
  filterable : ∀ r ∈ queryReferences cat q, ∀ measure, measureOf cat r.member = some measure →
    measure.filters ++ r.filters.sort ≠ [] →
    Filterable F (ownerOf r.member) measure.agg measure.expr (measure.filters ++ r.filters.sort)

/-- The measures in the tree of a projected metric are references of the query. -/
lemma holes_queryReferences {F : Forms G} {cat : SemanticCatalog} {q : SemanticQuery}
    {items : List (MetricExpr × String)} {st : Expansion}
    (h : projectMeasures (expandCtx cat q) q.measures {} = .ok (items, st)) {e : MetricExpr}
    {m : String} (hitem : (e, m) ∈ items) (hm : isMetric m = true) {T : Tree P Reference}
    (hT : RefTree F (expandCtx cat q) m [] T) {r : Reference} (hr : r ∈ T.holes) :
    r ∈ queryReferences cat q := by
  obtain ⟨-, hitems⟩ := projectMeasures_items h
  obtain ⟨hmem, st₁, st₂, hrun, -⟩ := hitems e m hitem hm
  exact List.mem_flatMap.mpr ⟨m, hmem, holes_referencesOf hT hrun hr⟩

lemma dimsAlias_expandCtx (cat : SemanticCatalog) (q : SemanticQuery) :
    (expandCtx cat q).dimsAlias = aggAlias ∨ (expandCtx cat q).dimsAlias = axisAlias := by
  show (if spineMode cat q then axisAlias else aggAlias) = aggAlias ∨ _
  split_ifs with h
  · refine .inr ?_
    show (if spineMode cat q then axisAlias else aggAlias) = axisAlias
    rw [if_pos h]
  · exact .inl rfl

section

variable {F : Forms G} {cat : SemanticCatalog} {q : SemanticQuery}
  {items : List (MetricExpr × String)} {st : Expansion}

lemma carriedMeasure_pathFilters {r : Reference} {measure : Measure}
    (hmeasure : measureOf cat r.member = some measure) (k : ℕ) :
    (carriedMeasure measure k r).filters.toFinset = pathFilters cat r := by
  rw [carriedMeasure_filters, List.toFinset_append, Finset.sort_toFinset, pathFilters, hmeasure]
  rfl

/-- Where nothing stands in the way, columns carry their references. -/
lemma Unobstructed.carries (hun : Unobstructed F cat q)
    (hst : Holds cat (distinct (queryReferences cat q)) st) {r : Reference}
    (hr : r ∈ queryReferences cat q) {measure : Measure}
    (hmeasure : measureOf cat r.member = some measure) : Carries F cat q st r measure := by
  obtain ⟨k, hk⟩ := List.mem_iff_getElem?.mp (mem_distinct.mpr hr)
  have hcolumn := hst.measureOf_column hk hmeasure (hun.unnamed k r hk)
  refine ⟨carriedMeasure measure k r, hcolumn, carriedMeasure_agg _ _ _,
    carriedMeasure_expr _ _ _, carriedMeasure_pathFilters hmeasure k, fun hne => ?_,
    fun ord inner hinner => ?_⟩
  · rw [carriedMeasure_filters] at hne
    rw [carriedMeasure_agg, carriedMeasure_expr, carriedMeasure_filters, filtered_iff]
    exact hun.filterable r hr measure hmeasure hne
  · have hleaf : columnIn st r ∈ st.leaves := by
      rw [hst.columnIn_eq hk]
      exact hst.leaves k r hk
    rw [← hst.ownerOf_column hk hmeasure]
    exact measure_selected hinner hleaf hcolumn

/-- The generated names collide with nothing exactly when no measure bears them. -/
lemma fresh_iff (hst : Holds cat (distinct (queryReferences cat q)) st) :
    (∀ s ∈ st.synthetic, ∀ model, cat.model s.1 = some model →
      ∀ m ∈ model.measures, m.name ≠ s.2.name) ↔
    ∀ (k : ℕ) r, (distinct (queryReferences cat q))[k]? = some r → r.filters ≠ ∅ →
      ∀ modelName measureName, Text.splitOnce '.' r.member = some (modelName, measureName) →
      ∀ model, cat.model modelName = some model →
        ∀ m ∈ model.measures, m.name ≠ syntheticName k measureName := by
  constructor
  · intro hfresh k r hk hr modelName measureName hsplit model hmodel
    obtain ⟨s, hs, hgraft⟩ := hst.graft hk hr
    obtain ⟨-, name, -, -, hsplit', -, -, -, hname, -⟩ := grafted_eq_some hgraft
    rw [hsplit] at hsplit'
    obtain ⟨hmodelName, rfl⟩ := Prod.mk.inj (Option.some.inj hsplit')
    rw [← hname]
    exact hfresh s hs model (hmodelName ▸ hmodel)
  · intro hunnamed s hs model hmodel
    obtain ⟨k, r, hk, hgraft⟩ := (hst.synthetic s).mp hs
    obtain ⟨hr, name, -, -, hsplit, -, -, -, hname, -⟩ := grafted_eq_some hgraft
    rw [hname]
    exact hunnamed k r hk hr _ _ hsplit model hmodel

/-- A generated name that is asked for shares the column of its reference. -/
lemma unasked_of_shared (hst : Holds cat (distinct (queryReferences cat q)) st)
    (hshared : ∀ r ∈ queryReferences cat q, ∀ r' ∈ queryReferences cat q,
      columnIn st r = columnIn st r' ↔
        r.member = r'.member ∧ pathFilters cat r = pathFilters cat r') :
    Unasked (distinct (queryReferences cat q)) := by
  intro k r hk hr modelName measureName hsplit hasked
  obtain ⟨s, -, hgraft⟩ := hst.graft hk hr
  obtain ⟨-, name, -, -, hsplit', -, -, -, -, hcolumn⟩ := grafted_eq_some hgraft
  rw [hsplit] at hsplit'
  obtain ⟨rfl, rfl⟩ := Prod.mk.inj (Option.some.inj hsplit')
  obtain ⟨k', hk'⟩ := List.mem_iff_getElem?.mp hasked
  have hcol : columnIn st r = columnIn st (.of (s.1 ++ "." ++ syntheticName k measureName) []) := by
    rw [hst.columnIn_eq hk, hst.columnIn_eq hk', hcolumn]
    exact (if_pos rfl).symm
  have hmember := ((hshared r (mem_distinct.mp (List.mem_of_getElem? hk)) _
    (mem_distinct.mp hasked)).mp hcol).1
  have hparts := hsplit
  rw [hmember] at hparts
  have hown := Text.splitOnce_append (b := syntheticName k measureName) (splitOnce_spec hsplit).2
  rw [show (Reference.of (s.1 ++ "." ++ syntheticName k measureName) []).member =
    s.1 ++ "." ++ syntheticName k measureName from rfl, hown] at hparts
  exact syntheticName_ne k measureName (Prod.mk.inj (Option.some.inj hparts)).2

end

end

/-! ## A captured name -/

/-- Orders with a measure under a generated name. -/
def capturingOrders : SemanticModel where
  name := "orders"
  source := "shop.orders"
  measures := [{ name := "revenue", agg := .sum, expr := "amount" },
               { name := "n", agg := .count, expr := "id" },
               { name := "__mf0_revenue", agg := .sum, expr := "refund" }]

def capturedConfig : SemanticConfig where
  models := [capturingOrders]
  metrics :=
    [{ name := "paid_mean", kind := .ratio ⟨"orders.revenue", none⟩ ⟨"orders.n", none⟩
       filter := some "status = 'paid'" }]

def paidMean : SemanticQuery where
  measures := ["paid_mean"]

lemma capturedConfig_accepted : Accepted .insertion capturedConfig ["shop"] := by decide

/-- The productions of a small expression language. -/
inductive Production
  | column (c : Column)
  | castDouble
  | nullifZero
  | coalesceZero
  | divide
  | times
  | subtract
  | windowed (fn : WindowAgg) (w : WindowText)
  | lag (periods : ℕ) (w : WindowText)
  | filtered (texts : List String)
  | call (fn : List Char)
  | name (text : List Char)
  | field (model text : List Char)
  | numeral (digits : List Char)

/-- Calls bind tightest, then operands, products and differences. -/
def expressions : Grammar Token ℕ Production where
  level
    | .call _ => 0
    | .divide => 2
    | .times => 2
    | .subtract => 3
    | _ => 1
  head
    | .column c => c.tokens
    | .castDouble => callTokens "CAST"
    | .nullifZero => callTokens "NULLIF"
    | .coalesceZero => callTokens "COALESCE"
    | .windowed fn _ => callTokens (windowFn fn)
    | .lag _ _ => callTokens "LAG"
    | .call fn => [.word fn, .symbol '(']
    | .name text => [.word text]
    | .field model text => [.word model, .symbol '.', .word text]
    | .numeral digits => [.number digits]
    | _ => []
  operands
    | .castDouble => [(3, asDouble)]
    | .nullifZero => [(3, commaZero)]
    | .coalesceZero => [(3, commaZero)]
    | .divide => [(2, [.symbol '/']), (1, [])]
    | .times => [(2, [.symbol '*']), (1, [])]
    | .subtract => [(3, [.symbol '-']), (2, [])]
    | .windowed _ w => [(3, overTokens w)]
    | .lag periods w => [(3, lagTokens periods w)]
    | .filtered texts => [(0, filterTokens texts)]
    | .call _ => [(3, [.symbol ')'])]
    | _ => []
  opening := .symbol '('
  closing := .symbol ')'
  atom := 1
  top := 3

def expressionForms : Forms expressions where
  column := .column
  castDouble := .castDouble
  nullifZero := .nullifZero
  coalesceZero := .coalesceZero
  divide := .divide
  subtract := .subtract
  windowed := .windowed
  lag := .lag
  call := 0
  filtered := .filtered
  atom_le := by decide
  opening_eq := rfl
  closing_eq := rfl
  column_eq _ := ⟨le_rfl, rfl, rfl⟩
  castDouble_eq := ⟨le_rfl, rfl, rfl⟩
  nullifZero_eq := ⟨le_rfl, rfl, rfl⟩
  coalesceZero_eq := ⟨le_rfl, rfl, rfl⟩
  divide_eq := ⟨by decide, rfl, _, _, rfl, by decide, by decide⟩
  subtract_eq := ⟨by decide, rfl, _, _, rfl, by decide, by decide⟩
  windowed_eq _ _ := ⟨le_rfl, rfl, rfl⟩
  lag_eq _ _ := ⟨le_rfl, rfl, rfl⟩
  filtered_eq _ := ⟨le_rfl, rfl, rfl⟩

/-- The token belongs to calls and names only. -/
def plain : Token → Bool
  | .word text => text ∉ ["CAST", "NULLIF", "COALESCE", "LAG", "OVER", "FILTER"].map String.toList
  | .symbol c => c ≠ '/' && c ≠ '*' && c ≠ '-'
  | .number _ => false
  | .ident _ => false
  | .str _ => true

/-- A text of plain tokens that begins like a call is one. -/
lemma call_of_words {D : Tree Production Empty} (hfits : expressions.fits D 3) {fn : List Char}
    {rest : List Token} (hwords : expressions.words D = .word fn :: .symbol '(' :: rest)
    (hplain : ∀ t ∈ expressions.words D, plain t = true) : expressions.fits D 0 := by
  cases D with
  | hole i => exact i.elim
  | group t =>
      rw [Grammar.words_group] at hwords
      cases hwords
  | node p n ts =>
      obtain ⟨hlevel, hn, hargs⟩ := hfits
      have hhead : ∀ t, t ∈ expressions.head p → plain t = true :=
        fun t ht => hplain t (expressions.mem_words_head ht)
      have hbehind : ∀ {i}, i < n → ∀ t, t ∈ expressions.behind p i → plain t = true :=
        fun hi t ht => hplain t (expressions.mem_words_behind hi ht)
      rw [Grammar.words_node] at hwords
      cases p with
      | call fn => exact ⟨le_rfl, hn, hargs⟩
      | column c =>
          have hident : Token.ident c.name.toList ∈ c.tokens := by
            unfold Column.tokens
            split <;> simp
          exact absurd (hhead _ hident) (by simp [plain])
      | castDouble => exact absurd (hhead _ List.mem_cons_self) (by decide)
      | nullifZero => exact absurd (hhead _ List.mem_cons_self) (by decide)
      | coalesceZero => exact absurd (hhead _ List.mem_cons_self) (by decide)
      | lag periods w => exact absurd (hhead _ List.mem_cons_self) (by decide)
      | numeral digits => exact absurd (hhead _ List.mem_cons_self) (by simp [plain])
      | divide =>
          have h0 : 0 < n := by rw [hn]; decide
          exact absurd (hbehind h0 (.symbol '/') List.mem_cons_self) (by decide)
      | times =>
          have h0 : 0 < n := by rw [hn]; decide
          exact absurd (hbehind h0 (.symbol '*') List.mem_cons_self) (by decide)
      | subtract =>
          have h0 : 0 < n := by rw [hn]; decide
          exact absurd (hbehind h0 (.symbol '-') List.mem_cons_self) (by decide)
      | windowed fn w =>
          have h0 : 0 < n := by rw [hn]; exact Nat.one_pos
          have hover : Token.word "OVER".toList ∈ overTokens w := by simp [overTokens]
          exact absurd (hbehind h0 _ hover) (by decide)
      | filtered texts =>
          have h0 : 0 < n := by rw [hn]; exact Nat.one_pos
          have hfilter : Token.word "FILTER".toList ∈ filterTokens texts := by simp [filterTokens]
          exact absurd (hbehind h0 _ hfilter) (by decide)
      | name text =>
          have h0 : n = 0 := hn
          subst h0
          simp [expressions] at hwords
      | field model text =>
          have h0 : n = 0 := hn
          subst h0
          simp [expressions] at hwords

/-- The mean of paid orders in cents. -/
def centsCatalog : SemanticCatalog := SemanticCatalog.new
  [{ name := "orders"
     source := "shop.orders"
     measures := [{ name := "revenue", agg := .sum, expr := "amount" },
                  { name := "n", agg := .count, expr := "id" }] }]
  [{ name := "paid_mean", kind := .ratio ⟨"orders.revenue", none⟩ ⟨"orders.n", none⟩
     filter := some "status = 'paid'" },
   { name := "cents", kind := .derived "\x7bpaid_mean\x7d * 100" }]

def centsQuery : SemanticQuery where
  measures := ["cents"]

def paidRevenue : Reference := .of "orders.revenue" ["status = 'paid'"]

def paidCount : Reference := .of "orders.n" ["status = 'paid'"]

lemma centsReferences : queryReferences centsCatalog centsQuery = [paidRevenue, paidCount] := by
  decide

lemma centsDistinct :
    distinct (queryReferences centsCatalog centsQuery) = [paidRevenue, paidCount] := by
  decide

lemma filterable_paid {agg : MeasureAgg} {expr : String} {fn : List Char}
    (htokens : ∀ alias? ∈ aliasesOf "orders", ∃ rest,
      lex (aggregateText agg expr alias?) = some (.word fn :: .symbol '(' :: rest) ∧
        (rest.all plain && plain (.word fn)) = true ∧ Closed (aggregateText agg expr alias?)) :
    Filterable expressionForms "orders" agg expr ["status = 'paid'"] where
  ends := by decide
  absorbed := orsAbsorbed_singleton _
  call := by
    intro alias? halias D hlex hfits
    obtain ⟨rest, hrest, hplain, hclosed⟩ := htokens alias? halias
    rw [hrest] at hlex
    have hwords := (Option.some.inj hlex).symm
    rw [Bool.and_eq_true, List.all_eq_true] at hplain
    refine ⟨hclosed, call_of_words hfits hwords fun t ht => ?_⟩
    rw [hwords, List.mem_cons, List.mem_cons] at ht
    rcases ht with rfl | rfl | ht
    · exact hplain.2
    · decide
    · exact hplain.1 t ht

lemma sum_plain : ∀ alias? ∈ aliasesOf "orders", ∃ rest,
    lex (aggregateText .sum "amount" alias?) = some (.word "SUM".toList :: .symbol '(' :: rest) ∧
      (rest.all plain && plain (.word "SUM".toList)) = true ∧
      Closed (aggregateText .sum "amount" alias?) := by
  intro alias? halias
  simp only [aliasesOf, List.mem_cons, List.not_mem_nil, or_false] at halias
  rcases halias with rfl | rfl
  · exact ⟨[.word "amount".toList, .symbol ')'], by decide⟩
  · exact ⟨[.word "orders".toList, .symbol '.', .word "amount".toList, .symbol ')'],
      by decide⟩

lemma count_plain : ∀ alias? ∈ aliasesOf "orders", ∃ rest,
    lex (aggregateText .count "id" alias?) = some (.word "COUNT".toList :: .symbol '(' :: rest) ∧
      (rest.all plain && plain (.word "COUNT".toList)) = true ∧
      Closed (aggregateText .count "id" alias?) := by
  intro alias? halias
  simp only [aliasesOf, List.mem_cons, List.not_mem_nil, or_false] at halias
  rcases halias with rfl | rfl
  · exact ⟨[.word "id".toList, .symbol ')'], by decide⟩
  · exact ⟨[.word "orders".toList, .symbol '.', .word "id".toList, .symbol ')'],
      by decide⟩

lemma paidMean_tree (inherited : List String) : ∃ T, RefTree expressionForms
    (expandCtx centsCatalog centsQuery) "paid_mean" inherited T := by
  have hmetric : centsCatalog.metric "paid_mean" = some
      { name := "paid_mean", kind := .ratio ⟨"orders.revenue", none⟩ ⟨"orders.n", none⟩
        filter := some "status = 'paid'" } := by
    decide
  exact ⟨_, .ratio (by decide) hmetric rfl (.measure (by decide)) (.measure (by decide))⟩

/-- A product with a reference. -/
def centsTree : Tree Production ℕ := .two .times (.hole 0) (.leaf (.numeral "100".toList))

lemma cents_tree :
    ∃ T, RefTree expressionForms (expandCtx centsCatalog centsQuery) "cents" [] T := by
  have hmetric : centsCatalog.metric "cents" =
      some { name := "cents", kind := .derived "\x7bpaid_mean\x7d * 100" } := by
    decide
  have hread : readDerived "\x7bpaid_mean\x7d * 100" =
      some [.inr 0, .inl (.symbol '*'), .inl (.number "100".toList)] := by
    decide
  have hscan : (scanTokens [] none "\x7bpaid_mean\x7d * 100".toList).1 =
      [([], "paid_mean".toList)] := by
    decide
  have hmember : (tokenOfBody "paid_mean".toList).member = "paid_mean" := by decide
  have hfits : expressions.fits centsTree 3 := by
    refine ⟨by decide, rfl, fun i a ha => ?_⟩
    match i, ha with
    | 0, ha =>
        cases ha
        show (1 : ℕ) ≤ 2
        decide
    | 1, ha =>
        cases ha
        exact ⟨le_rfl, rfl, fun i => i.elim0⟩
  have hparses : expressions.Parses
      [.inr 0, .inl (.symbol '*'), .inl (.number "100".toList)] centsTree := ⟨hfits, rfl⟩
  obtain ⟨T, hT⟩ := paidMean_tree []
  refine ⟨centsTree.subst fun _ => T, .derived (by decide) hmetric rfl hread hparses
    fun i sp hsp => ?_⟩
  rw [hscan] at hsp
  match i, hsp with
  | 0, hsp =>
      obtain rfl : ([], "paid_mean".toList) = sp := by simpa using hsp
      rw [hmember]
      exact hT
  | i + 1, hsp => simp at hsp

lemma cents_unobstructed : Unobstructed expressionForms centsCatalog centsQuery where
  clean := by
    intro name _ metric expr hmetric hkind _
    have hmem : metric ∈ centsCatalog.metrics := List.mem_of_find?_eq_some hmetric
    have hlist : centsCatalog.metrics.all fun m => match m.kind with
        | .derived expr => !endsInComment expr
        | _ => true := by
      decide
    have hclean := List.all_eq_true.mp hlist metric hmem
    rw [hkind] at hclean
    simpa using hclean
  unnamed := by
    have hnames : ∀ m ∈ centsCatalog.models, ∀ m' ∈ m.measures, m'.name.toList.head? ≠ some '_' := by
      decide
    intro k r hk hr modelName measureName hsplit model hmodel m hm heq
    refine hnames model (List.mem_of_find?_eq_some hmodel) m hm ?_
    rw [heq, toList_syntheticName]
    rfl
  unasked := by
    intro k r hk hr modelName measureName hsplit hasked
    rw [centsDistinct] at hasked
    have hfilters : ∀ r' ∈ [paidRevenue, paidCount], r'.filters ≠ ∅ := by decide
    exact hfilters _ hasked rfl
  separate := by
    intro r hr r' hr' hmember hfilters
    rw [centsReferences] at hr hr'
    simp only [List.mem_cons, List.not_mem_nil, or_false] at hr hr'
    rcases hr with rfl | rfl <;> rcases hr' with rfl | rfl
    · rfl
    · exact absurd hmember (by decide)
    · exact absurd hmember (by decide)
    · rfl
  filterable := by
    intro r hr measure hmeasure hne
    rw [centsReferences] at hr
    simp only [List.mem_cons, List.not_mem_nil, or_false] at hr
    rcases hr with rfl | rfl
    · have hrevenue : measureOf centsCatalog paidRevenue.member =
          some { name := "revenue", agg := .sum, expr := "amount" } := by
        decide
      rw [hrevenue] at hmeasure
      cases hmeasure
      have hsort : paidRevenue.filters.sort = ["status = 'paid'"] := by decide +kernel
      rw [hsort]
      exact filterable_paid sum_plain
    · have hcount : measureOf centsCatalog paidCount.member =
          some { name := "n", agg := .count, expr := "id" } := by
        decide
      rw [hcount] at hmeasure
      cases hmeasure
      have hsort : paidCount.filters.sort = ["status = 'paid'"] := by decide +kernel
      rw [hsort]
      exact filterable_paid count_plain

end Semantic
end Pawrly
