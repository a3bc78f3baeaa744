import Pawrly.Semantic.TimeAxis
import Pawrly.Semantic.Scans
import Pawrly.Sql.Window

/-!
# Row caps of metric queries

A metric statement computes its projections over the rows of an inner measure statement, then
orders and limits.  The row caps of the measure roots are the limit of the inner statement: it
drops groups before windows, shares and the ordering see them, and the rows the dense axis
adds afterwards are not capped.

`staged_iff` says when the statement still returns the first rows of the ordered projections
over the complete leaf aggregate.
-/

namespace Pawrly
namespace Semantic

open Sql

/-! ## Metrics that read other rows -/

/-- The metric is, or refers through ratios and derived expressions to, a cumulative, an offset
or a share metric. -/
inductive ReadsRows (cat : SemanticCatalog) : String → Prop
  | window {name metric} (metric_eq : cat.metric name = some metric)
      (kind : isWindow metric = true ∨ ∃ measure overDims agg, metric.kind = .share measure overDims agg) :
      ReadsRows cat name
  | reference {name metric sub} (metric_eq : cat.metric name = some metric)
      (mem : sub ∈ subMetrics metric) (reads : ReadsRows cat sub) : ReadsRows cat name

lemma readsRows_iff {cat : SemanticCatalog} {name : String} {metric : Metric}
    (hm : cat.metric name = some metric) :
    ReadsRows cat name ↔
      (isWindow metric = true ∨ ∃ measure overDims agg, metric.kind = .share measure overDims agg) ∨
        ∃ sub ∈ subMetrics metric, ReadsRows cat sub := by
  constructor
  · intro h
    cases h with
    | window hm' hkind =>
        rw [hm] at hm'
        cases hm'
        exact .inl hkind
    | reference hm' hmem hreads =>
        rw [hm] at hm'
        cases hm'
        exact .inr ⟨_, hmem, hreads⟩
  · rintro (hkind | ⟨sub, hmem, hreads⟩)
    · exact .window hm hkind
    · exact .reference hm hmem hreads

/-- A metric for which `has_window` finds a window metric reads other rows. -/
lemma readsRows_of_hasWindow {cat : SemanticCatalog} {fuel : ℕ} {v v' : List String}
    {name : String} (h : hasWindow cat fuel v name = (true, v')) : ReadsRows cat name := by
  induction fuel generalizing v v' name with
  | zero => cases h
  | succ fuel ih =>
      unfold hasWindow at h
      cases hm : cat.metric name with
      | none =>
          rw [hm] at h
          cases h
      | some metric =>
          rw [hm] at h
          dsimp only at h
          split_ifs at h with hv
          · cases h
          · -- the walk over the references stops at one that has a window
            have hfold : ∀ (refs : List (String × Option String)) v₀,
                refs.foldl (hasWindowStep cat fuel) (false, v₀) = (true, v') →
                ∃ r ∈ refs, isMetric r.1 = true ∧ ReadsRows cat r.1 := by
              intro refs
              induction refs with
              | nil =>
                  intro v₀ hf
                  cases hf
              | cons r refs ihr =>
                  intro v₀ hf
                  rw [List.foldl_cons] at hf
                  by_cases hmetric : isMetric r.1 = true
                  · have hstep : hasWindowStep cat fuel (false, v₀) r =
                        hasWindow cat fuel v₀ r.1 := by
                      simp [hasWindowStep, hmetric]
                    rw [hstep] at hf
                    cases hres : hasWindow cat fuel v₀ r.1 with
                    | mk b v₁ =>
                        cases b with
                        | true => exact ⟨r, List.mem_cons_self, hmetric, ih hres⟩
                        | false =>
                            rw [hres] at hf
                            obtain ⟨r', hr', hrest⟩ := ihr _ hf
                            exact ⟨r', List.mem_cons_of_mem _ hr', hrest⟩
                  · have hstep : hasWindowStep cat fuel (false, v₀) r = (false, v₀) := by
                      simp [hasWindowStep, hmetric]
                    rw [hstep] at hf
                    obtain ⟨r', hr', hrest⟩ := ihr _ hf
                    exact ⟨r', List.mem_cons_of_mem _ hr', hrest⟩
            have hrefs : ∀ refs : List (String × Option String),
                (∀ r ∈ refs, isMetric r.1 = true → r.1 ∈ subMetrics metric) →
                refs.foldl (hasWindowStep cat fuel) (false, v ++ [name]) = (true, v') →
                ReadsRows cat name := by
              intro refs hsub hf
              obtain ⟨r, hr, hmetric, hreads⟩ := hfold _ _ hf
              exact .reference hm (hsub r hr hmetric) hreads
            cases hkind : metric.kind with
            | cumulative measure window agg =>
                exact .window hm (.inl (by simp [isWindow, hkind]))
            | offset measure periods output =>
                exact .window hm (.inl (by simp [isWindow, hkind]))
            | share measure overDims agg => exact .window hm (.inr ⟨measure, overDims, agg, hkind⟩)
            | ratio num den =>
                simp only [hkind] at h
                exact hrefs _ (fun r hr hmetric =>
                  List.mem_filter.mpr ⟨List.mem_map_of_mem hr, hmetric⟩) h
            | derived expr =>
                simp only [hkind] at h
                exact hrefs _ (fun r hr hmetric =>
                  List.mem_filter.mpr ⟨List.mem_map_of_mem hr, hmetric⟩) h

/-- In spine mode some metric of the query reads other rows. -/
lemma readsRows_of_spineMode {cat : SemanticCatalog} {q : SemanticQuery}
    (h : spineMode cat q = true) :
    ∃ m ∈ q.measures, isMetric m = true ∧ ReadsRows cat m := by
  obtain ⟨m, hm, hwindow⟩ := List.any_eq_true.mp h
  obtain ⟨hmem, hmetric⟩ := List.mem_filter.mp hm
  exact ⟨m, hmem, hmetric, readsRows_of_hasWindow (Prod.ext hwindow rfl)⟩

/-! ## The shape of a projection -/

/-- What a successful expansion step has produced: leaves, and a projection with a window
exactly when `window`. -/
structure Shaped (window : Prop) (st : Expansion) (r : MetricExpr × Expansion) : Prop where
  ext : Extends st r.2
  leaves : r.2.leaves ≠ []
  windowed : r.1.windowed = true ↔ window

lemma Extends.leaves_ne_nil {st st' : Expansion} (h : Extends st st') (hst : st.leaves ≠ []) :
    st'.leaves ≠ [] := by
  obtain ⟨x, hx⟩ := List.exists_mem_of_ne_nil _ hst
  exact List.ne_nil_of_mem (h.leaves hx)

/-- The chain of a derived metric has a window exactly when one of its members has. -/
lemma derivedChain_shaped
    {member : Expansion → String → List String → Except SemanticError (MetricExpr × Expansion)}
    (window : String → Prop) {base : List String} {tail : List Char}
    {spans : List (List Char × List Char)}
    (hmember : ∀ sp ∈ spans, ∀ st filters r, LeafInv st →
      member st (tokenOfBody sp.2).member filters = .ok r →
      Shaped (window (tokenOfBody sp.2).member) st r)
    {st : Expansion} (hst : LeafInv st) {r : MetricExpr × Expansion}
    (h : derivedChain member base tail spans st = .ok r) :
    Extends st r.2 ∧ (spans ≠ [] → r.2.leaves ≠ []) ∧
      (r.1.windowed = true ↔ ∃ sp ∈ spans, window (tokenOfBody sp.2).member) := by
  induction spans generalizing st r with
  | nil =>
      cases h
      exact ⟨Extends.refl hst, fun hne => absurd rfl hne, by simp [MetricExpr.windowed]⟩
  | cons sp spans ih =>
      obtain ⟨⟨sub, st₁⟩, hsub, h⟩ := Fallible.bind_eq_ok.mp h
      obtain ⟨⟨rest, st₂⟩, hrest, heq⟩ := Fallible.bind_eq_ok.mp h
      cases heq
      have hs := hmember sp List.mem_cons_self st _ _ hst hsub
      obtain ⟨hext, -, hwindow⟩ :=
        ih (fun sp' h' => hmember sp' (List.mem_cons_of_mem _ h')) hs.ext.inv hrest
      refine ⟨hs.ext.trans hext, fun _ => hext.leaves_ne_nil hs.leaves, ?_⟩
      simp only [MetricExpr.windowed, Bool.or_eq_true, hs.windowed, hwindow, List.mem_cons,
        exists_eq_or_imp]

/-- A derived expression refers to something. -/
lemma derivedTokens_ne_nil {expr : String} {tokens : List DerivedToken}
    (h : derivedTokens expr = .ok tokens) : tokens ≠ [] := by
  obtain ⟨tokens', _, h⟩ := Fallible.bind_eq_ok.mp h
  split at h
  · cases h
  · obtain ⟨_, h⟩ := Fallible.ite_error_eq_ok.mp h
    obtain ⟨hne, h⟩ := Fallible.ite_error_eq_ok.mp h
    cases h
    simpa using hne

/-- A metric's projection has a window exactly when the metric reads other rows. -/
theorem metricExpr_shaped {ctx : ExpandCtx} {fuel : ℕ} {st : Expansion} {name : String} {inherited visiting : List String}
    {r : MetricExpr × Expansion} (hst : LeafInv st)
    (h : metricExpr ctx fuel st name inherited visiting = .ok r) :
    Shaped (ReadsRows ctx.cat name) st r := by
  induction fuel generalizing st name inherited visiting r with
  | zero => cases h
  | succ fuel ih =>
      unfold metricExpr at h
      cases hm : ctx.cat.metric name with
      | none =>
          rw [hm] at h
          cases h
      | some metric =>
          rw [hm] at h
          dsimp only at h
          obtain ⟨_, h⟩ := Fallible.ite_error_eq_ok.mp h
          have hleaf : ∀ st member filters col st', LeafInv st →
              leaf ctx.cat st member filters = .ok (col, st') →
              Extends st st' ∧ st'.leaves ≠ [] := by
            intro st member filters col st' hst hl
            obtain ⟨hext, hcol, _⟩ := leaf_spec hst hl
            exact ⟨hext, List.ne_nil_of_mem hcol⟩
          -- a reference inside the metric
          have hmember : ∀ member st filters r, LeafInv st →
              (if isMetric member = true then
                metricExpr ctx fuel st member filters (visiting ++ [name])
              else leaf ctx.cat st member filters >>= fun p =>
                .ok (.column (aggColumn p.1), p.2)) = .ok r →
              Shaped (isMetric member = true ∧ ReadsRows ctx.cat member) st r := by
            intro member st filters r hst hr
            split_ifs at hr with hmetric
            · simpa only [hmetric, true_and] using ih hst hr
            · obtain ⟨⟨col, st₁⟩, hl, heq⟩ := Fallible.bind_eq_ok.mp hr
              cases heq
              obtain ⟨hext, hne⟩ := hleaf _ _ _ _ _ hst hl
              exact ⟨hext, hne, by simp [MetricExpr.windowed, hmetric]⟩
          rw [readsRows_iff hm]
          cases hkind : metric.kind with
          | ratio num den =>
              simp only [hkind] at h
              obtain ⟨⟨n, st₁⟩, hn, h⟩ := Fallible.bind_eq_ok.mp h
              obtain ⟨⟨d, st₂⟩, hd, heq⟩ := Fallible.bind_eq_ok.mp h
              cases heq
              have hnum := hmember num.member st _ _ hst hn
              have hden := hmember den.member st₁ _ _ hnum.ext.inv hd
              refine ⟨hnum.ext.trans hden.ext, hden.leaves, ?_⟩
              simp only [MetricExpr.windowed, Bool.or_eq_true, hnum.windowed, hden.windowed]
              simp [isWindow, hkind, subMetrics, Metric.references, and_assoc, or_and_right,
                exists_or]
          | derived expr =>
              simp only [hkind] at h
              split at h
              · cases h
              · next tokens htokens =>
                  obtain ⟨hext, hne, hwindow⟩ := derivedChain_shaped
                    (fun m => isMetric m = true ∧ ReadsRows ctx.cat m)
                    (fun sp _ st filters r hst hr => hmember _ st filters r hst hr) hst h
                  have hspec := derivedTokens_spec htokens
                  have hspans : (scanTokens [] none expr.toList).1 ≠ [] := by
                    intro hnil
                    rw [hnil, List.map_nil] at hspec
                    exact derivedTokens_ne_nil htokens hspec
                  refine ⟨hext, hne hspans, ?_⟩
                  have hrefs : Metric.references metric =
                      .ok (tokens.map fun t => (t.member, t.filter)) := by
                    simp [Metric.references, hkind, htokens, bind, Except.bind]
                  rw [hwindow, subMetrics, hrefs, hspec]
                  simp [isWindow, hkind, and_assoc]
          | cumulative measure cwindow agg =>
              simp only [hkind] at h
              obtain ⟨⟨col, st₁⟩, hl, h⟩ := Fallible.bind_eq_ok.mp h
              obtain ⟨⟨timeCol, partition⟩, _, heq⟩ := Fallible.bind_eq_ok.mp h
              cases heq
              obtain ⟨hext, hne⟩ := hleaf _ _ _ _ _ hst hl
              exact ⟨hext, hne, by simp [MetricExpr.windowed, isWindow, hkind]⟩
          | offset measure periods output =>
              simp only [hkind] at h
              obtain ⟨⟨col, st₁⟩, hl, h⟩ := Fallible.bind_eq_ok.mp h
              obtain ⟨⟨timeCol, partition⟩, _, heq⟩ := Fallible.bind_eq_ok.mp h
              cases heq
              obtain ⟨hext, hne⟩ := hleaf _ _ _ _ _ hst hl
              exact ⟨hext, hne, by simp [MetricExpr.windowed, isWindow, hkind]⟩
          | share measure overDims agg =>
              simp only [hkind] at h
              obtain ⟨_, _, h⟩ := Fallible.bind_eq_ok.mp h
              obtain ⟨⟨col, st₁⟩, hl, heq⟩ := Fallible.bind_eq_ok.mp h
              cases heq
              obtain ⟨hext, hne⟩ := hleaf _ _ _ _ _ hst hl
              exact ⟨hext, hne, by simp [MetricExpr.windowed]⟩

/-- The projections of a metric query: leaves exist, and there is a window exactly when one of
the metrics reads other rows. -/
theorem projectMeasures_shaped {cat : SemanticCatalog} {q : SemanticQuery} {ms : List String}
    {st st' : Expansion} (hst : LeafInv st) {items : List (MetricExpr × String)}
    (h : projectMeasures (expandCtx cat q) ms st = .ok (items, st')) :
    Extends st st' ∧ (ms ≠ [] → st'.leaves ≠ []) ∧
      ((∃ item ∈ items, item.1.windowed = true) ↔
        ∃ m ∈ ms, isMetric m = true ∧ ReadsRows cat m) := by
  induction ms generalizing st st' items with
  | nil =>
      cases h
      exact ⟨Extends.refl hst, fun hne => absurd rfl hne, by simp⟩
  | cons m ms ih =>
      obtain ⟨⟨item, st₁⟩, hitem, h⟩ := Fallible.bind_eq_ok.mp h
      obtain ⟨⟨items', st₂⟩, hitems, heq⟩ := Fallible.bind_eq_ok.mp h
      cases heq
      have hone : Shaped (isMetric m = true ∧ ReadsRows cat m) st (item.1, st₁) := by
        unfold projectMeasure at hitem
        split_ifs at hitem with hmetric
        · obtain ⟨⟨e, st₀⟩, he, heq⟩ := Fallible.bind_eq_ok.mp hitem
          cases heq
          have hshaped := metricExpr_shaped hst he
          simp only [hmetric, true_and]
          exact hshaped
        · obtain ⟨⟨col, st₀⟩, hleaf, heq⟩ := Fallible.bind_eq_ok.mp hitem
          cases heq
          obtain ⟨hext, hcol, _⟩ := leaf_spec hst hleaf
          exact ⟨hext, List.ne_nil_of_mem hcol, by simp [MetricExpr.windowed, hmetric]⟩
      obtain ⟨hext, -, hwindow⟩ := ih hone.ext.inv hitems
      refine ⟨hone.ext.trans hext, fun _ => hext.leaves_ne_nil hone.leaves, ?_⟩
      simp only [List.mem_cons, exists_eq_or_imp, hone.windowed, hwindow]

/-! ## The cap of the inner statement -/

lemma measureRoots_ne_nil {cat : SemanticCatalog} {q : SemanticQuery} {roots : List String}
    (hroots : measureRoots cat q = .ok roots) (hne : q.measures ≠ []) : roots ≠ [] := by
  obtain ⟨m, hm⟩ := List.exists_mem_of_ne_nil _ hne
  have howner := Fallible.foldlM_exists (Q := fun m out => ∃ x, memberModel m = .ok x ∧ x ∈ out)
    hroots (fun acc m out hturn => by
      obtain ⟨model, hmodel, heq⟩ := Fallible.bind_eq_ok.mp hturn
      cases heq
      refine ⟨model.name, (modelForMember_name hmodel).1, ?_⟩
      split_ifs with hin
      · exact hin
      · simp) (fun acc m out m' hturn hQ => by
      obtain ⟨x, hx, hmem⟩ := hQ
      obtain ⟨model, _, heq⟩ := Fallible.bind_eq_ok.mp hturn
      cases heq
      refine ⟨x, hx, ?_⟩
      split_ifs
      · exact hmem
      · exact List.mem_append_left _ hmem)
  obtain ⟨x, _, hx⟩ := howner m hm
  exact List.ne_nil_of_mem hx

/-- The limit of a measure statement without a requested one is the tightest cap. -/
lemma limit_compileMeasures {ord : SetOrder} {cat : SemanticCatalog} {q : SemanticQuery}
    {stmt : Stmt} (h : compileMeasures ord cat q = .ok stmt) (hlimit : q.limit = none)
    (hne : q.measures ≠ []) {roots : List String} (hroots : measureRoots cat q = .ok roots) :
    stmt.limit = tightestCap cat roots := by
  obtain ⟨roots', hroots', ⟨hlen, l, rfl, ⟨p⟩⟩ | ⟨hlen, root, s, hroot, rfl, ⟨p⟩⟩⟩ :=
    compileMeasures_cases h
  · rw [hroots] at hroots'
    cases hroots'
    rw [Stmt.limit, p.limit, hlimit]
    rfl
  · rw [hroots] at hroots'
    cases hroots'
    match roots, measureRoots_ne_nil hroots hne, hlen with
    | [r], _, _ =>
        cases hroot
        rw [Stmt.limit, p.limit, hlimit]
        show maxRows cat root = _
        unfold tightestCap
        cases hcap : maxRows cat root with
        | none => simp [hcap]
        | some c => simp [hcap]

/-- A measure statement returns the first rows of its relation. -/
lemma rows_compileMeasures {ord : SetOrder} {cat : SemanticCatalog} {q : SemanticQuery}
    {stmt : Stmt} (h : compileMeasures ord cat q = .ok stmt) (E : Engine) :
    stmt.rows E = takeRows stmt.limit (E.rel stmt.unlimited) := by
  obtain ⟨_, _, ⟨_, l, rfl, _⟩ | ⟨_, _, s, _, rfl, _⟩⟩ := compileMeasures_cases h
  · rfl
  · rfl

/-- The tightest row cap of the measure roots of a metric query. -/
def rowCap (cat : SemanticCatalog) (q : SemanticQuery) : Option ℕ :=
  match coreQuery cat q with
  | .ok (cat', q') =>
      match measureRoots cat' q' with
      | .ok roots => tightestCap cat roots
      | .error _ => none
  | .error _ => none

/-! ## Stages -/

/-- **The stages of a metric query in order**: windows, shares and the ordering see every group
of the leaf aggregate, and the result is the first rows of the ordered projections, as many as
the limit and the cap allow. -/
def Staged (E : Engine) (cap : Option ℕ) : Stmt → Prop
  | .metric m inner =>
      ((∃ item ∈ m.items, item.1.windowed = true) ∨ m.orders ≠ [] →
        inner.rows E = E.rel inner.unlimited) ∧
      (Stmt.metric m inner).rows E = takeRows (effectiveLimit m.limit cap)
        (sortRows m.orders (m.project E (E.rel inner.unlimited)))
  | _ => True

/-- A query whose windows, shares or ordering read other rows than the current one. -/
def GroupsRead (cat : SemanticCatalog) (q : SemanticQuery) : Prop :=
  (∃ m ∈ q.measures, isMetric m = true ∧ ReadsRows cat m) ∨ q.orderBy ≠ []

/-- The cap drops no group of the leaf aggregate, and no row of the dense axis that the limit
keeps. -/
def FitsCap (E : Engine) (cat : SemanticCatalog) (q : SemanticQuery) (leaf : List (Row Datum))
    (c : ℕ) : Prop :=
  leaf.length ≤ c ∧ ∀ a, spineMode cat q = true → axisSql (expandCtx cat q) = .ok a →
    (∃ l ∈ q.limit, l ≤ c) ∨ (a.joined E q.dimensions leaf).length ≤ c

/-- The tighter of two limits. -/
lemma takeRows_takeRows {α : Type*} (limit cap : Option ℕ) (rows : List α) :
    takeRows limit (takeRows cap rows) = takeRows (effectiveLimit limit cap) rows := by
  cases limit <;> cases cap <;> simp [takeRows, effectiveLimit, List.take_take]

@[simp] lemma effectiveLimit_none (limit : Option ℕ) : effectiveLimit limit none = limit := by
  cases limit <;> rfl

/-- A cap after a limit changes nothing when one of them keeps few rows. -/
lemma takeRows_eq_capped_iff {α : Type*} {limit : Option ℕ} {c : ℕ} {rows : List α} :
    takeRows limit rows = takeRows (effectiveLimit limit (some c)) rows ↔
      (∃ l ∈ limit, l ≤ c) ∨ rows.length ≤ c := by
  cases limit with
  | none =>
      simp only [takeRows, effectiveLimit, Option.mem_def, reduceCtorEq, false_and, exists_false,
        false_or]
      rw [eq_comm, List.take_eq_self_iff]
  | some l =>
      simp only [takeRows, effectiveLimit, Option.mem_def, Option.some.injEq, exists_eq_left']
      rw [List.take_eq_take_iff]
      omega

lemma zipIdx_take {α : Type*} (rows : List α) (c : ℕ) :
    (rows.take c).zipIdx = rows.zipIdx.take c := by
  refine List.ext_getElem? fun i => ?_
  rw [List.getElem?_take, List.getElem?_zipIdx, List.getElem?_take, List.getElem?_zipIdx]
  split_ifs <;> rfl

/-- Row by row projections of the first rows are the first of the projections. -/
lemma project_take {E : Engine} {m : MetricOuter} (haxis : m.axis = none)
    (hlocal : ∀ item ∈ m.items, item.1.windowed = false) (c : ℕ) (rel : List (Row Datum)) :
    m.project E (rel.take c) = (m.project E rel).take c := by
  have houtput : ∀ rows rows' cur, m.outputRow E rows cur = m.outputRow E rows' cur := by
    intro rows rows' cur
    funext name
    unfold MetricOuter.outputRow
    cases hfind : m.items.find? fun item => item.2 = name with
    | none => rfl
    | some item =>
        have hitem := List.mem_of_find?_eq_some hfind
        rw [Option.bind_some, Option.bind_some,
          item.1.eval_of_not_windowed E (hlocal item hitem) rows rows']
  unfold MetricOuter.project MetricOuter.source
  rw [haxis]
  dsimp only
  rw [List.map_take, zipIdx_take, List.map_take]
  refine congrArg _ (List.map_congr_left fun cur _ => houtput _ _ cur)

/-! ## Whole statements -/

lemma resolveOrders_eq_nil_iff {q : SemanticQuery} {orders : List SemanticOrder}
    (h : resolveOrders q = .ok orders) : orders = [] ↔ q.orderBy = [] := by
  rw [← List.length_eq_zero_iff, ← List.length_eq_zero_iff,
    (Fallible.mapM_eq_ok_iff.mp h).length_eq]

/-- The first rows of ordered projections, when the cap of the inner statement comes first. -/
lemma staged_capped_iff {E : Engine} {m : MetricOuter} {inner : Stmt} {c : ℕ}
    {reads : Prop} (hreads : (∃ item ∈ m.items, item.1.windowed = true) ∨ m.orders ≠ [] ↔ reads)
    (haxis : m.axis.isSome = true → reads)
    (hinner : inner.rows E = (E.rel inner.unlimited).take c) :
    Staged E (some c) (.metric m inner) ↔ ¬ reads ∨ ((E.rel inner.unlimited).length ≤ c ∧
      ((∃ l ∈ m.limit, l ≤ c) ∨ (m.source E (E.rel inner.unlimited)).length ≤ c)) := by
  rw [Staged, hreads, Stmt.rows, hinner]
  by_cases hr : reads
  · simp only [hr, true_imp_iff, not_true_eq_false, false_or, List.take_eq_self_iff]
    refine and_congr_right fun hlen => ?_
    rw [List.take_of_length_le hlen, takeRows_eq_capped_iff, length_sortRows,
      MetricOuter.length_project]
  · simp only [hr, false_imp_iff, true_and, not_false_eq_true, true_or, iff_true]
    rw [← hreads, not_or, not_not] at hr
    have hnone : m.axis = none := by
      cases hm : m.axis with
      | none => rfl
      | some a => exact absurd (hreads.mpr (haxis (by rw [hm]; rfl))) (by simpa using hr)
    have hlocal : ∀ item ∈ m.items, item.1.windowed = false := by
      intro item hitem
      by_contra hw
      exact hr.1 ⟨item, hitem, by simpa using hw⟩
    rw [hr.2, sortRows_nil, sortRows_nil, project_take hnone hlocal]
    exact takeRows_takeRows m.limit (some c) _

/-- **Row caps of metric queries**: the stages of a metric query are in order exactly when
there is no cap, or no projection and no ordering reads other rows, or the cap drops nothing. -/
theorem staged_iff {ord : SetOrder} {cat : SemanticCatalog} {q : SemanticQuery} {stmt : Stmt}
    (h : compileStmt ord cat q = .ok stmt) (hmetric : q.measures.any isMetric = true)
    (E : Engine) :
    Staged E (rowCap cat q) stmt ↔
      ∀ c ∈ rowCap cat q, ¬ GroupsRead cat q ∨ FitsCap E cat q (stmt.leafRows E) c := by
  cases compileStmt_compiled h with
  | @measures q₁ stmt hseg hno hm =>
      obtain ⟨extra, rfl⟩ := expandSegments_spec hseg
      rw [hmetric] at hno
      cases hno
  | @metrics q₁ items st axis orders inner hseg hyes hproj hinner haxis horders =>
      have hcore : coreQuery cat q = .ok (augmentedCatalog cat st, leafQuery q₁ st.leaves) := by
        unfold coreQuery
        rw [hseg]
        simp only [bind, Except.bind, hyes, hproj]
        rfl
      obtain ⟨extra, rfl⟩ := expandSegments_spec hseg
      obtain ⟨-, hleaves, hwindow⟩ := projectMeasures_shaped LeafInv.empty hproj
      have hne : st.leaves ≠ [] := hleaves fun hnil => by
        rw [show q.measures = [] from hnil] at hmetric
        cases hmetric
      -- the cap of the inner statement
      obtain ⟨roots, hroots, _⟩ := compileMeasures_cases hinner
      have hcaps : tightestCap (augmentedCatalog cat st) roots = tightestCap cat roots := by
        have hmax : ∀ r, maxRows (augmentedCatalog cat st) r = maxRows cat r := by
          intro r
          unfold maxRows
          rw [(coreQuery_keeps hcore).2 r]
        unfold tightestCap
        simp only [hmax]
      have hcap : inner.limit = rowCap cat q := by
        rw [limit_compileMeasures hinner rfl hne hroots, hcaps]
        unfold rowCap
        rw [hcore]
        dsimp only
        rw [hroots]
      have hrows := rows_compileMeasures hinner E
      rw [hcap] at hrows
      cases hc : rowCap cat q with
      | none =>
          rw [hc] at hrows
          rw [Staged, Stmt.rows, hrows]
          simp
      | some c =>
          rw [hc] at hrows
          have hreads : (∃ item ∈ (q.dimensions.map fun d =>
              (MetricExpr.column ⟨(expandCtx cat { q with
                filters := q.filters ++ extra, segments := [] }).dimsAlias, d⟩, d)) ++ items,
              item.1.windowed = true) ∨ orders ≠ [] ↔ GroupsRead cat q := by
            refine or_congr ?_ (not_congr (resolveOrders_eq_nil_iff horders))
            rw [← hwindow]
            simp [or_and_right, exists_or, MetricExpr.windowed]
          rw [staged_capped_iff hreads ?_ hrows]
          · simp only [Option.mem_def, Option.some.injEq, forall_eq']
            refine or_congr_right (and_congr_right fun hlen => ?_)
            rcases haxis with ⟨hspine, rfl⟩ | ⟨hspine, a, ha, rfl⟩
            · refine ⟨fun _ a hspine' _ => ?_, fun _ => .inr ?_⟩
              · rw [show spineMode cat q = false from hspine] at hspine'
                cases hspine'
              · rw [MetricOuter.source, List.length_map]
                exact hlen
            · constructor
              · intro hfit a' _ ha'
                rw [show axisSql (expandCtx cat q) = .ok a from ha] at ha'
                cases ha'
                exact hfit
              · intro hall
                exact hall a hspine ha
          · intro haxis'
            rcases haxis with ⟨_, rfl⟩ | ⟨hspine, _⟩
            · cases haxis'
            · exact .inl (readsRows_of_spineMode hspine)

/-! ## A share of capped groups -/

/-- Orders return at most two rows; the share of each region is of the total revenue. -/
def cappedCatalog : SemanticCatalog := SemanticCatalog.new
  [{ name := "orders"
     source := "shop.orders"
     dimensions := [{ name := "region", expr := "region", dataType := .string }]
     measures := [{ name := "revenue", agg := .sum, expr := "amount" }]
     safety := some { maxRows := some 2 } }]
  [{ name := "revenue_share", kind := .share "orders.revenue" [] .sum }]

def shareByRegion : SemanticQuery where
  measures := ["revenue_share"]
  dimensions := ["orders.region"]

def shareOuter : MetricOuter where
  items := [(.column ⟨aggAlias, "orders.region"⟩, "orders.region"),
    (.share .sum ⟨aggAlias, "orders.revenue"⟩ [], "revenue_share")]
  axis := none
  dimensions := ["orders.region"]
  orders := []
  limit := none

def shareInner : Select where
  items := [(.raw "region", "orders.region"),
    (.aggregate .sum (.raw "amount") [], "orders.revenue")]
  source := { root := "orders", table := ⟨"shop", "orders"⟩, aliased := false }
  wheres := []
  groupBy := [.raw "region"]
  limit := some 2

lemma shareByRegion_compiles : compileStmt .insertion cappedCatalog shareByRegion =
    .ok (.metric shareOuter (.select shareInner)) := by
  decide +kernel

/-- A group of the leaf aggregate. -/
def regionRow (region : String) (revenue : ℚ) : Row Datum := fun name =>
  if name = "orders.region" then some (.text region)
  else if name = "orders.revenue" then some (.num revenue)
  else none

/-- An engine over orders of three regions. -/
def threeRegions : Engine where
  rel := fun _ => [regionRow "eu" 1, regionRow "us" 1, regionRow "asia" 2]
  scalar := fun _ => none
  trunc := fun _ v => v
  series := fun _ lo _ => [lo]
  calendar := fun _ _ => []

lemma shareByRegion_cap : rowCap cappedCatalog shareByRegion = some 2 := by
  decide +kernel

/-- Europe's quarter of the revenue is returned as a half. -/
lemma shareByRegion_unstaged : ¬ Staged threeRegions (rowCap cappedCatalog shareByRegion)
    (.metric shareOuter (.select shareInner)) := by
  rintro ⟨-, hrows⟩
  rw [shareByRegion_cap] at hrows
  have hshares := congrArg (List.map fun r => r "revenue_share") hrows
  revert hshares
  decide +kernel

/-- Accepted metric queries may compute over a truncated aggregate. -/
theorem staged_fails : ¬ ∀ (ord : SetOrder) (cat : SemanticCatalog) (q : SemanticQuery)
    (stmt : Stmt), compileStmt ord cat q = .ok stmt → q.measures.any isMetric = true →
    ∀ E, Staged E (rowCap cat q) stmt :=
  fun h => shareByRegion_unstaged (h _ _ _ _ shareByRegion_compiles (by decide) _)

/-- The cap drops a group that the share reads. -/
theorem threeRegions_unfit : ¬ ∀ c ∈ rowCap cappedCatalog shareByRegion,
    ¬ GroupsRead cappedCatalog shareByRegion ∨ FitsCap threeRegions cappedCatalog shareByRegion
      (Stmt.leafRows threeRegions (.metric shareOuter (.select shareInner))) c :=
  fun h => shareByRegion_unstaged
    ((staged_iff shareByRegion_compiles (by decide) threeRegions).mpr h)

end Semantic
end Pawrly
