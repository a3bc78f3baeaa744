import Pawrly.Config.Accepted

/-!
# Validated metrics expand

The validation checks every reference of every metric and that the reference graph has no
cycle.  The expansion follows the same references; by induction on the topological order that
the cycle search leaves behind, it stops, and fails only over the dimensions of the query
(`metricExpr_expands`).
-/

namespace Pawrly
namespace Config

open Semantic Sql CycleSearch

variable {ord : SetOrder} {cfg : SemanticConfig} {sourceNames : List String}

/-! ## Leaves -/

lemma isMetric_iff {member : String} :
    isMetric member = true ↔ Text.splitOnce '.' member = none := by
  rw [Text.splitOnce_eq_none_iff, isMetric, Text.hasChar, Bool.not_eq_true', List.contains_eq_mem,
    decide_eq_false_iff_not]

lemma windowBase_dotted {measure : String} (h : checkWindowBase cfg measure = []) :
    isMetric measure = false := by
  unfold checkWindowBase at h
  by_contra hm
  rw [isMetric_iff.mp (by simpa using hm)] at h
  cases h

/-- A checked reference to a measure has its leaf. -/
lemma leaf_ok {member : String} (hdot : isMetric member = false)
    (h : memberErrors cfg member = []) (st : Expansion) (filters : List String) :
    ∃ r, leaf cfg.catalog st member filters = .ok r := by
  unfold leaf
  dsimp only
  split
  · exact ⟨_, rfl⟩
  · suffices hmember : ∃ r, leafMember cfg.catalog st.leafIndex.length member filters = .ok r by
      obtain ⟨r, hr⟩ := hmember
      exact ⟨_, Fallible.bind_eq_ok.mpr ⟨r, hr, rfl⟩⟩
    unfold leafMember
    unfold memberErrors at h
    split_ifs
    · exact ⟨_, rfl⟩
    · cases hsplit : Text.splitOnce '.' member with
      | none =>
          rw [isMetric_iff.mpr hsplit] at hdot
          cases hdot
      | some p =>
          rw [hsplit] at h
          dsimp only at h ⊢
          cases hmodel : cfg.catalog.model p.1 with
          | none =>
              rw [hmodel] at h
              cases h
          | some model =>
              rw [hmodel] at h
              obtain ⟨measure, hmeasure⟩ := findMeasure_of_mem
                (by simpa using h : p.2 ∈ model.measures.map Measure.name)
              dsimp only
              rw [hmeasure]
              exact ⟨_, rfl⟩

/-! ## One metric -/

/-- Errors about the query's dimensions. -/
def AboutDimensions : SemanticError → Prop
  | .metricNeedsTimeGrain _ => True
  | .shareDimNotGrouped _ _ => True
  | .compile msg => ∃ metric, msg = "metric `" ++ metric ++
      "`: group by exactly one time-grained dimension (found several)"
  | _ => False

/-- The result, or an error about the query's dimensions. -/
def Expands {α : Type} (r : Except SemanticError α) : Prop := ∀ e, r = .error e → AboutDimensions e

lemma Expands.ok {α : Type} (a : α) : Expands (.ok a) := fun e h => by cases h

lemma Expands.bind {α β : Type} {x : Except SemanticError α} {f : α → Except SemanticError β}
    (hx : Expands x) (hf : ∀ a, Expands (f a)) : Expands (x >>= f) := by
  cases x with
  | error e =>
      intro e' h
      cases h
      exact hx e rfl
  | ok a => exact hf a

lemma Expands.mapM {α β : Type} {f : α → Except SemanticError β} (hf : ∀ a, Expands (f a))
    (l : List α) : Expands (l.mapM f) := by
  induction l with
  | nil => exact .ok _
  | cons a l ih =>
      rw [List.mapM_cons]
      exact (hf a).bind fun _ => ih.bind fun _ => .ok _

lemma windowAxis_expands (ctx : ExpandCtx) (metric : String) :
    Expands (windowAxis ctx metric) := by
  unfold windowAxis
  split
  · exact .ok _
  · intro e h
    cases h
    trivial
  · intro e h
    cases h
    exact ⟨metric, rfl⟩

/-- The expression of a metric, given what its references render. -/
def metricBody (ctx : ExpandCtx) (metric : Metric) (name : String) (base : List String)
    (memberExpr : Expansion → String → List String →
      Except SemanticError (MetricExpr × Expansion)) (st : Expansion) :
    Except SemanticError (MetricExpr × Expansion) :=
  match metric.kind with
  | .ratio num den => do
      let (n, st) ← memberExpr st num.member (andFilter base num.filter)
      let (d, st) ← memberExpr st den.member (andFilter base den.filter)
      .ok (.ratio n d, st)
  | .derived expr =>
      match derivedTokens expr with
      | .error msg => .error (.compile msg)
      | .ok _ =>
          let spans := scanTokens [] none expr.toList
          let tail := match spans.2 with
            | .closed tail => tail
            | .unclosed => []
          derivedChain memberExpr base tail spans.1 st
  | .cumulative measure window agg => do
      let (col, st) ← leaf ctx.cat st measure base
      let (timeCol, partition) ← windowAxis ctx name
      let partition := match window with
        | .grainToDate grain => partition ++ [{ trunc := some grain, col := timeCol }]
        | _ => partition
      let frame := match window with
        | .trailing periods => Frame.trailing periods
        | _ => Frame.unbounded
      let zeroFill := agg = .sum || agg = .avg
      .ok (.cumulative agg ⟨aggColumn col, zeroFill⟩ partition timeCol frame, st)
  | .offset measure periods output => do
      let (col, st) ← leaf ctx.cat st measure base
      let (timeCol, partition) ← windowAxis ctx name
      .ok (.offset ⟨aggColumn col, true⟩ periods partition timeCol output, st)
  | .share measure overDims agg => do
      let _ ← overDims.mapM fun dim =>
        if dim ∈ ctx.q.dimensions then .ok ()
        else .error (.shareDimNotGrouped name dim)
      let (col, st) ← leaf ctx.cat st measure base
      .ok (.share agg (aggColumn col)
        (overDims.map fun d => { col := ⟨ctx.dimsAlias, d⟩ }), st)

/-- What a reference renders with some fuel. -/
def memberExpr (ctx : ExpandCtx) (fuel : ℕ) (visiting : List String) (st : Expansion)
    (member : String) (filters : List String) : Except SemanticError (MetricExpr × Expansion) :=
  if isMetric member then metricExpr ctx fuel st member filters visiting
  else do
    let (col, st) ← leaf ctx.cat st member filters
    .ok (.column (aggColumn col), st)

lemma metricExpr_succ {ctx : ExpandCtx} {name : String} {metric : Metric}
    (hmetric : ctx.cat.metric name = some metric) {visiting : List String}
    (hvisiting : name ∉ visiting) (fuel : ℕ) (st : Expansion) (inherited : List String) :
    metricExpr ctx (fuel + 1) st name inherited visiting =
      metricBody ctx metric name (andFilter inherited metric.filter)
        (memberExpr ctx fuel (visiting ++ [name])) st := by
  rw [metricExpr, hmetric]
  dsimp only
  rw [if_neg hvisiting]
  rfl

/-- The tokens of a derived expression are its references. -/
lemma derivedTokens_spans {expr : String} {tokens : List DerivedToken}
    (h : derivedTokens expr = .ok tokens) {sp : List Char × List Char}
    (hsp : sp ∈ (scanTokens [] none expr.toList).1) : tokenOfBody sp.2 ∈ tokens := by
  obtain ⟨ts, hts, h⟩ := Fallible.bind_eq_ok.mp h
  have htokens : ts = tokens := by
    split at h
    · cases h
    · split_ifs at h
      cases h
      rfl
  subst htokens
  obtain ⟨t, ht, hturn⟩ := Fallible.exists_of_mapM hts hsp
  dsimp only at hturn
  split_ifs at hturn
  cases hturn
  exact ht

section

variable {f g : Expansion → String → List String → Except SemanticError (MetricExpr × Expansion)}
  {base : List String}

lemma derivedChain_expands {tail : List Char} {spans : List (List Char × List Char)}
    (hf : ∀ sp ∈ spans, ∀ st filters, Expands (f st (tokenOfBody sp.2).member filters))
    (st : Expansion) : Expands (derivedChain f base tail spans st) := by
  induction spans generalizing st with
  | nil => exact .ok _
  | cons sp spans ih =>
      refine (hf sp List.mem_cons_self st _).bind fun r => ?_
      exact (ih (fun sp' h => hf sp' (List.mem_cons_of_mem _ h)) r.2).bind fun _ => .ok _

lemma derivedChain_congr {tail : List Char} {spans : List (List Char × List Char)}
    (hfg : ∀ sp ∈ spans, ∀ st filters,
      f st (tokenOfBody sp.2).member filters = g st (tokenOfBody sp.2).member filters)
    (st : Expansion) : derivedChain f base tail spans st = derivedChain g base tail spans st := by
  induction spans generalizing st with
  | nil => rfl
  | cons sp spans ih =>
      simp only [derivedChain]
      rw [hfg sp List.mem_cons_self]
      refine bind_congr fun r => ?_
      rw [ih fun sp' h => hfg sp' (List.mem_cons_of_mem _ h)]

variable {metric : Metric} {refs : List (String × Option String)} {name : String}

/-- References that render the same make the same expression. -/
lemma metricBody_congr (ctx : ExpandCtx) (hrefs : metric.references = .ok refs)
    (hfg : ∀ r ∈ refs, ∀ st filters, f st r.1 filters = g st r.1 filters) (st : Expansion) :
    metricBody ctx metric name base f st = metricBody ctx metric name base g st := by
  unfold Metric.references at hrefs
  unfold metricBody
  cases hkind : metric.kind with
  | ratio num den =>
      rw [hkind] at hrefs
      cases hrefs
      dsimp only
      rw [hfg _ List.mem_cons_self]
      refine bind_congr fun r => ?_
      rw [hfg _ (List.mem_cons_of_mem _ List.mem_cons_self)]
  | derived expr =>
      rw [hkind] at hrefs
      obtain ⟨tokens, htokens, heq⟩ := Fallible.bind_eq_ok.mp hrefs
      cases heq
      dsimp only
      rw [htokens]
      exact derivedChain_congr (fun sp hsp st filters => hfg _
        (List.mem_map_of_mem (f := fun t : DerivedToken => (t.member, t.filter))
          (derivedTokens_spans htokens hsp)) st filters) st
  | cumulative measure window agg => rfl
  | offset measure periods output => rfl
  | share measure overDims agg => rfl

/-- Checked references that expand make a metric that expands. -/
lemma metricBody_expands {ctx : ExpandCtx} (hcat : ctx.cat = cfg.catalog)
    (hrefs : metric.references = .ok refs) (hmem : ∀ r ∈ refs, memberErrors cfg r.1 = [])
    (hkind : kindErrors cfg metric.kind = [])
    (hf : ∀ r ∈ refs, ∀ st filters, Expands (f st r.1 filters)) (st : Expansion) :
    Expands (metricBody ctx metric name base f st) := by
  have hleaf : ∀ {measure : String}, isMetric measure = false →
      memberErrors cfg measure = [] → Expands (leaf ctx.cat st measure base) := by
    intro measure hdot hmeasure
    obtain ⟨r, hr⟩ := leaf_ok hdot hmeasure st base
    rw [hcat, hr]
    exact .ok r
  unfold Metric.references at hrefs
  unfold metricBody
  cases hk : metric.kind with
  | ratio num den =>
      rw [hk] at hrefs
      cases hrefs
      refine (hf _ List.mem_cons_self _ _).bind fun r => ?_
      exact (hf _ (List.mem_cons_of_mem _ List.mem_cons_self) _ _).bind fun _ => .ok _
  | derived expr =>
      rw [hk] at hrefs
      obtain ⟨tokens, htokens, heq⟩ := Fallible.bind_eq_ok.mp hrefs
      cases heq
      dsimp only
      rw [htokens]
      exact derivedChain_expands (fun sp hsp st filters => hf _
        (List.mem_map_of_mem (f := fun t : DerivedToken => (t.member, t.filter))
          (derivedTokens_spans htokens hsp)) st filters) st
  | cumulative measure window agg =>
      rw [hk] at hrefs hkind
      cases hrefs
      have hmeasure := windowBase_dotted (List.append_eq_nil_iff.mp hkind).2
      refine (hleaf hmeasure (hmem _ List.mem_cons_self)).bind fun r => ?_
      exact (windowAxis_expands ctx name).bind fun _ => .ok _
  | offset measure periods output =>
      rw [hk] at hrefs hkind
      cases hrefs
      have hmeasure := windowBase_dotted (List.append_eq_nil_iff.mp hkind).2
      refine (hleaf hmeasure (hmem _ List.mem_cons_self)).bind fun r => ?_
      exact (windowAxis_expands ctx name).bind fun _ => .ok _
  | share measure overDims agg =>
      rw [hk] at hrefs hkind
      cases hrefs
      have hmeasure : isMetric measure = false := by
        have hdot := (List.append_eq_nil_iff.mp hkind).1
        simpa [isMetric] using hdot
      refine (Expands.mapM (fun dim => ?_) overDims).bind fun _ => ?_
      · split_ifs
        · exact .ok _
        · intro e he
          cases he
          trivial
      · exact (hleaf hmeasure (hmem _ List.mem_cons_self)).bind fun _ => .ok _

end

/-! ## All metrics -/

/-- Along the topological order left by the cycle search: a metric expands with as much fuel as
there are metrics from it on, and more fuel changes nothing. -/
lemma topological_expands (h : Accepted ord cfg sourceNames) {ctx : ExpandCtx}
    (hcat : ctx.cat = cfg.catalog) {l : List String} (hl : Topological (metricRefs cfg) l)
    (hknown : ∀ n ∈ l, n ∈ cfg.metrics.map Metric.name) {name : String} (hname : name ∈ l)
    (st : Expansion) (inherited : List String) {visiting : List String}
    (hvisiting : ∀ v ∈ visiting, v ∉ l) :
    Expands (metricExpr ctx l.length st name inherited visiting) ∧
      ∀ fuel, l.length ≤ fuel → metricExpr ctx fuel st name inherited visiting =
        metricExpr ctx l.length st name inherited visiting := by
  induction hl generalizing name st inherited visiting with
  | nil => cases hname
  | @cons n rest hsucc hfresh _ ih =>
      have hrestKnown : ∀ m ∈ rest, m ∈ cfg.metrics.map Metric.name :=
        fun m hm => hknown m (List.mem_cons_of_mem _ hm)
      by_cases hrest : name ∈ rest
      · obtain ⟨hexp, hfuel⟩ := ih hrestKnown hrest st inherited
          fun v hv hmem => hvisiting v hv (List.mem_cons_of_mem _ hmem)
        have hlen := hfuel (n :: rest).length (Nat.le_succ _)
        refine ⟨hlen ▸ hexp, fun fuel hle => ?_⟩
        rw [hfuel fuel ((Nat.le_succ _).trans hle), hlen]
      · have hn : name = n := (List.mem_cons.mp hname).resolve_right hrest
        subst hn
        obtain ⟨metric, hmetric⟩ := catalog_metric_of_mem (hknown name List.mem_cons_self)
        obtain ⟨hmem, _⟩ := mem_of_catalog_metric hmetric
        obtain ⟨refs, hrefs, hchecked⟩ := h.references hmem
        have hkind : kindErrors cfg metric.kind = [] := by
          have hok := h.metric_ok hmem
          unfold metricErrors at hok
          exact (List.append_eq_nil_iff.mp hok).2
        have hmetric' : ctx.cat.metric name = some metric := hcat ▸ hmetric
        have hnot : name ∉ visiting := fun hv => hvisiting name hv List.mem_cons_self
        -- a metric that this one references stands further down the order
        have hdown : ∀ r ∈ refs, isMetric r.1 = true → r.1 ∈ rest := by
          intro r hr hrm
          refine hsucc r.1 (List.mem_filter.mpr ⟨?_, ?_⟩)
          · rw [metricRefs, hmetric, Option.map_some, hrefs, Option.getD_some]
            exact List.mem_filter.mpr ⟨List.mem_map_of_mem hr, hrm⟩
          · have hchk := hchecked r hr
            unfold memberErrors at hchk
            rw [isMetric_iff.mp hrm] at hchk
            obtain ⟨m, hm⟩ := catalog_metric_of_mem
              (by simpa using hchk : r.1 ∈ cfg.metrics.map Metric.name)
            rw [metricRefs, hm]
            rfl
        have hstack : ∀ v ∈ visiting ++ [name], v ∉ rest := by
          intro v hv hmem'
          rcases List.mem_append.mp hv with hv | hv
          · exact hvisiting v hv (List.mem_cons_of_mem _ hmem')
          · rw [List.mem_singleton.mp hv] at hmem'
            exact hrest hmem'
        have hmember : ∀ r ∈ refs, ∀ st filters,
            Expands (memberExpr ctx rest.length (visiting ++ [name]) st r.1 filters) ∧
              ∀ fuel, rest.length ≤ fuel → memberExpr ctx fuel (visiting ++ [name]) st r.1
                filters = memberExpr ctx rest.length (visiting ++ [name]) st r.1 filters := by
          intro r hr st filters
          unfold memberExpr
          by_cases hrm : isMetric r.1 = true
          · simp only [if_pos hrm]
            exact ih hrestKnown (hdown r hr hrm) st filters hstack
          · simp only [if_neg hrm]
            obtain ⟨r', hr'⟩ := leaf_ok (by simpa using hrm) (hchecked r hr) st filters
            rw [hcat, hr']
            exact ⟨.ok _, fun _ _ => trivial⟩
        rw [List.length_cons]
        constructor
        · rw [metricExpr_succ hmetric' hnot]
          exact metricBody_expands hcat hrefs hchecked hkind
            (fun r hr st filters => (hmember r hr st filters).1) st
        · intro fuel hle
          obtain ⟨k, rfl⟩ : ∃ k, fuel = k + 1 := ⟨fuel - 1, by omega⟩
          rw [metricExpr_succ hmetric' hnot, metricExpr_succ hmetric' hnot]
          exact metricBody_congr ctx hrefs
            (fun r hr st filters => (hmember r hr st filters).2 k (by omega)) st

/-- **Validated metrics expand**: for an accepted configuration the expansion of every metric,
in every query, stops within as many nested references as there are metrics, and the only
errors are those about the dimensions of the query. -/
theorem metricExpr_expands (h : Accepted ord cfg sourceNames) {name : String}
    (hname : name ∈ cfg.metrics.map Metric.name) (ctx : ExpandCtx)
    (hcat : ctx.cat = cfg.catalog) (st : Expansion) (inherited : List String) :
    ∃ r, (∀ fuel, cfg.metrics.length ≤ fuel → metricExpr ctx fuel st name inherited [] = r) ∧
      ∀ e, r = .error e → AboutDimensions e := by
  obtain ⟨htopo, hknown, hdone⟩ := search_topological (fun _ => metricRefs_isSome)
    (fun n hn => (ord.perm _).mem_iff.mp hn) h.no_cycles
  have hmem := hdone name ((ord.perm _).mem_iff.mpr (exists_collectByName hname))
  have hlen := (List.subperm_of_subset htopo.nodup hknown).length_le.trans
    (((collectByName_sublist Metric.name cfg.metrics).map Metric.name).length_le.trans
      (List.length_map _).le)
  obtain ⟨hexp, hfuel⟩ := topological_expands h hcat htopo
    (fun n hn => ((collectByName_sublist _ _).map _).subset (hknown hn)) hmem st inherited
    (List.forall_mem_nil _)
  exact ⟨_, fun fuel hle => hfuel fuel (hlen.trans hle), hexp⟩

/-! ## A configuration -/

/-- Orders with a ratio, a metric derived from it and a running total. -/
def shopConfig : SemanticConfig where
  models :=
    [{ name := "orders"
       source := "shop.orders"
       dimensions := [{ name := "order_date", expr := "order_date", dataType := .time
                        timeGrains := [.day, .month] }]
       measures := [{ name := "revenue", agg := .sum, expr := "amount" },
                    { name := "n", agg := .count, expr := "id" }] }]
  metrics :=
    [{ name := "mean_order", kind := .ratio ⟨"orders.revenue", none⟩ ⟨"orders.n", none⟩ },
     { name := "above_ten", kind := .derived "\x7bmean_order | amount > 0\x7d - 10" },
     { name := "to_date", kind := .cumulative "orders.revenue" .runningTotal .sum }]

lemma shopConfig_accepted : Accepted .insertion shopConfig ["shop"] := by decide

theorem aboveTen_expands :
    ∃ r, (∀ fuel, 3 ≤ fuel →
        metricExpr (expandCtx shopConfig.catalog {}) fuel {} "above_ten" [] [] = r) ∧
      ∀ e, r = .error e → AboutDimensions e :=
  metricExpr_expands shopConfig_accepted (by decide) (expandCtx shopConfig.catalog {}) rfl {} []

end Config
end Pawrly
