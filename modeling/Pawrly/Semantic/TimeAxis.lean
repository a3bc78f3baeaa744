import Pawrly.Semantic.Core
import Pawrly.Sql.Scope

/-!
# Window metrics and the time axis

`has_window` walks the references of a metric depth first with one shared visited set.
`hasWindow_false` is its completeness: when it finds no window metric, the visited metrics are
closed under references and none of them is one.

From it `projectMeasures_columns`: a metric projection reads leaf columns of the aggregate and
grouped dimensions, and reads the time axis only in spine mode.
-/

namespace Pawrly
namespace Semantic

open Sql

/-! ## The walk over metric references -/

/-- The references of a metric that a walk over metrics follows. -/
def subMetrics (m : Metric) : List String :=
  (match Metric.references m with
    | .ok refs => refs
    | .error _ => []).map Prod.fst |>.filter isMetric

/-- The metric orders its rows by the time axis. -/
def isWindow (m : Metric) : Bool :=
  match m.kind with
  | .cumulative _ _ _ => true
  | .offset _ _ _ => true
  | _ => false

/-- No window metric under this name, and every reference of it is settled or unknown too. -/
def Settled (cat : SemanticCatalog) (visited : List String) (name : String) : Prop :=
  ∀ m, cat.metric name = some m → isWindow m = false ∧
    ((∃ measure overDims agg, m.kind = .share measure overDims agg) ∨
      ∀ r ∈ subMetrics m, r ∈ visited ∨ cat.metric r = none)

/-- The metrics not visited yet. -/
def unvisited (cat : SemanticCatalog) (visited : List String) : ℕ :=
  ((cat.metrics.map Metric.name).filter fun n => n ∉ visited).length

lemma Settled.mono {cat : SemanticCatalog} {v v' : List String} {x : String}
    (h : Settled cat v x) (hsub : v ⊆ v') : Settled cat v' x := by
  intro m hm
  obtain ⟨hw, hrefs⟩ := h m hm
  exact ⟨hw, hrefs.imp_right fun hr r hrm => (hr r hrm).imp_left fun h => hsub h⟩

lemma unvisited_mono (cat : SemanticCatalog) {v v' : List String} (hsub : v ⊆ v') :
    unvisited cat v' ≤ unvisited cat v := by
  refine List.Sublist.length_le (List.monotone_filter_right _ fun n hn => ?_)
  simp only [decide_eq_true_eq] at hn ⊢
  exact fun h => hn (hsub h)

lemma name_of_metric {cat : SemanticCatalog} {name : String} {m : Metric}
    (h : cat.metric name = some m) : m.name = name ∧ m ∈ cat.metrics := by
  have hname := List.find?_some h
  exact ⟨by simpa using hname, List.mem_of_find?_eq_some h⟩

lemma unvisited_append_lt {cat : SemanticCatalog} {v : List String} {name : String} {m : Metric}
    (hm : cat.metric name = some m) (hv : name ∉ v) :
    unvisited cat (v ++ [name]) < unvisited cat v := by
  obtain ⟨hname, hmem⟩ := name_of_metric hm
  have hfilter : (cat.metrics.map Metric.name).filter (fun n => n ∉ v ++ [name]) =
      ((cat.metrics.map Metric.name).filter fun n => n ∉ v).filter fun n => n ≠ name := by
    rw [List.filter_filter]
    congr 1
    funext n
    simp [and_comm]
  unfold unvisited
  rw [hfilter, List.length_filter_lt_length_iff_exists]
  refine ⟨name, List.mem_filter.mpr ⟨?_, by simpa using hv⟩, by simp⟩
  rw [← hname]
  exact List.mem_map_of_mem hmem

/-- One turn of the loop over references. -/
def hasWindowStep (cat : SemanticCatalog) (fuel : ℕ) (acc : Bool × List String)
    (r : String × Option String) : Bool × List String :=
  if acc.1 || !isMetric r.1 then acc else hasWindow cat fuel acc.2 r.1

/-- What a walk that found no window metric has established. -/
structure NoWindow (cat : SemanticCatalog) (v v' : List String) : Prop where
  grows : v ⊆ v'
  settled : ∀ x ∈ v', x ∈ v ∨ Settled cat v' x

lemma NoWindow.refl (cat : SemanticCatalog) (v : List String) : NoWindow cat v v :=
  ⟨List.Subset.refl v, fun _ hx => .inl hx⟩

lemma NoWindow.trans {cat : SemanticCatalog} {v v' v'' : List String} (h : NoWindow cat v v')
    (h' : NoWindow cat v' v'') : NoWindow cat v v'' where
  grows := List.Subset.trans h.grows h'.grows
  settled := by
    intro x hx
    rcases h'.settled x hx with hx' | hs
    · exact (h.settled x hx').imp_right fun hs => hs.mono h'.grows
    · exact .inr hs

lemma foldl_hasWindowStep_true (cat : SemanticCatalog) (fuel : ℕ) (v : List String)
    (refs : List (String × Option String)) :
    refs.foldl (hasWindowStep cat fuel) (true, v) = (true, v) := by
  induction refs with
  | nil => rfl
  | cons r refs ih => simpa [hasWindowStep] using ih

/-- The loop over the references of one metric. -/
lemma foldl_hasWindowStep {cat : SemanticCatalog} {fuel : ℕ}
    (hwalk : ∀ v name v', unvisited cat v < fuel → hasWindow cat fuel v name = (false, v') →
      NoWindow cat v v' ∧ (name ∈ v' ∨ cat.metric name = none))
    {refs : List (String × Option String)} {v v' : List String}
    (hfuel : unvisited cat v < fuel)
    (h : refs.foldl (hasWindowStep cat fuel) (false, v) = (false, v')) :
    NoWindow cat v v' ∧ ∀ r ∈ refs, isMetric r.1 = true → r.1 ∈ v' ∨ cat.metric r.1 = none := by
  induction refs generalizing v with
  | nil =>
      cases h
      exact ⟨NoWindow.refl cat _, fun r hr => by cases hr⟩
  | cons r refs ih =>
      rw [List.foldl_cons] at h
      by_cases hr : isMetric r.1 = true
      · obtain ⟨b, v₁, hres⟩ : ∃ b v₁, hasWindow cat fuel v r.1 = (b, v₁) := ⟨_, _, rfl⟩
        have hstep : hasWindowStep cat fuel (false, v) r = (b, v₁) := by
          simp [hasWindowStep, hr, hres]
        rw [hstep] at h
        cases b with
        | true =>
            rw [foldl_hasWindowStep_true] at h
            cases h
        | false =>
            obtain ⟨hno, hmem⟩ := hwalk v r.1 v₁ hfuel hres
            have hfuel₁ := Nat.lt_of_le_of_lt (unvisited_mono cat hno.grows) hfuel
            obtain ⟨hno', hmem'⟩ := ih hfuel₁ h
            refine ⟨hno.trans hno', fun r' hr' hmetric => ?_⟩
            rcases List.mem_cons.mp hr' with rfl | hr'
            · exact hmem.imp_left fun hm => hno'.grows hm
            · exact hmem' r' hr' hmetric
      · have hstep : hasWindowStep cat fuel (false, v) r = (false, v) := by
          simp [hasWindowStep, hr]
        rw [hstep] at h
        obtain ⟨hno, hmem⟩ := ih hfuel h
        refine ⟨hno, fun r' hr' hmetric => ?_⟩
        rcases List.mem_cons.mp hr' with rfl | hr'
        · exact absurd hmetric hr
        · exact hmem r' hr' hmetric

/-- **Completeness of `has_window`**: a walk that finds no window metric has visited a set of
metrics closed under references, none of which is a window metric. -/
theorem hasWindow_false {cat : SemanticCatalog} {fuel : ℕ} {v v' : List String} {name : String}
    (hfuel : unvisited cat v < fuel) (h : hasWindow cat fuel v name = (false, v')) :
    NoWindow cat v v' ∧ (name ∈ v' ∨ cat.metric name = none) := by
  induction fuel generalizing v v' name with
  | zero => omega
  | succ fuel ih =>
      unfold hasWindow at h
      cases hm : cat.metric name with
      | none =>
          rw [hm] at h
          cases h
          exact ⟨NoWindow.refl cat v, .inr rfl⟩
      | some metric =>
          rw [hm] at h
          dsimp only at h
          by_cases hv : name ∈ v
          · rw [if_pos hv] at h
            cases h
            exact ⟨NoWindow.refl cat v, .inl hv⟩
          · rw [if_neg hv] at h
            have hlt := unvisited_append_lt hm hv
            -- the metric itself is settled once its references are
            have hdone : ∀ v', NoWindow cat (v ++ [name]) v' → Settled cat v' name →
                NoWindow cat v v' ∧ name ∈ v' := by
              intro v' hno hs
              have hname : name ∈ v' := hno.grows (by simp)
              refine ⟨⟨fun x hx => hno.grows (by simp [hx]), fun x hx => ?_⟩, hname⟩
              rcases hno.settled x hx with hx' | hx'
              · rcases List.mem_append.mp hx' with hx' | hx'
                · exact .inl hx'
                · rw [List.mem_singleton] at hx'
                  subst hx'
                  exact .inr hs
              · exact .inr hx'
            have hrefs : ∀ v' : List String, (∀ r ∈ (match Metric.references metric with
                | .ok refs => refs
                | .error _ => []), isMetric r.1 = true → r.1 ∈ v' ∨ cat.metric r.1 = none) →
                ∀ r ∈ subMetrics metric, r ∈ v' ∨ cat.metric r = none := by
              intro v' hr r hrm
              obtain ⟨hmem, hmetric⟩ := List.mem_filter.mp hrm
              obtain ⟨r', hr', rfl⟩ := List.mem_map.mp hmem
              exact hr r' hr' hmetric
            cases hkind : metric.kind with
            | cumulative measure window agg =>
                simp only [hkind] at h
                cases h
            | offset measure periods output =>
                simp only [hkind] at h
                cases h
            | share measure overDims agg =>
                simp only [hkind] at h
                cases h
                refine (hdone _ (NoWindow.refl cat _) fun m hm' => ?_).imp_right .inl
                rw [hm] at hm'
                cases hm'
                exact ⟨by simp [isWindow, hkind], .inl ⟨measure, overDims, agg, hkind⟩⟩
            | ratio num den =>
                simp only [hkind] at h
                obtain ⟨hno, hmem⟩ := foldl_hasWindowStep (fun _ _ _ => ih) (by omega) h
                refine (hdone _ hno fun m hm' => ?_).imp_right .inl
                rw [hm] at hm'
                cases hm'
                exact ⟨by simp [isWindow, hkind], .inr (hrefs _ hmem)⟩
            | derived expr =>
                simp only [hkind] at h
                obtain ⟨hno, hmem⟩ := foldl_hasWindowStep (fun _ _ _ => ih) (by omega) h
                refine (hdone _ hno fun m hm' => ?_).imp_right .inl
                rw [hm] at hm'
                cases hm'
                exact ⟨by simp [isWindow, hkind], .inr (hrefs _ hmem)⟩

/-- Out of spine mode every metric of the query lies in a closed set without window
metrics. -/
lemma settled_of_not_spineMode {cat : SemanticCatalog} {q : SemanticQuery}
    (h : spineMode cat q = false) {m : String} (hm : m ∈ q.measures) (hmetric : isMetric m = true) :
    ∃ S, (∀ x ∈ S, Settled cat S x) ∧ (m ∈ S ∨ cat.metric m = none) := by
  obtain ⟨b, v', hres⟩ : ∃ b v', hasWindow cat (cat.metrics.length + 1) [] m = (b, v') :=
    ⟨_, _, rfl⟩
  have hb : b = false := by
    unfold spineMode at h
    rw [List.any_eq_false] at h
    have := h m (List.mem_filter.mpr ⟨hm, hmetric⟩)
    rw [hres] at this
    simpa using this
  subst hb
  have hfuel : unvisited cat [] < cat.metrics.length + 1 := by
    have := List.length_filter_le (fun n => n ∉ ([] : List String)) (cat.metrics.map Metric.name)
    rw [List.length_map] at this
    unfold unvisited
    omega
  obtain ⟨hno, hmem⟩ := hasWindow_false hfuel hres
  refine ⟨v', fun x hx => ?_, hmem⟩
  rcases hno.settled x hx with hx' | hs
  · cases hx'
  · exact hs

/-! ## Leaves -/

/-- The leaf index names registered leaves, and an unfiltered reference its own member. -/
structure LeafInv (st : Expansion) : Prop where
  registered : ∀ key col, (key, col) ∈ st.leafIndex → col ∈ st.leaves
  plain : ∀ m col, ((m, []), col) ∈ st.leafIndex → col = m

lemma LeafInv.empty : LeafInv {} where
  registered := by
    intro key col h
    cases h
  plain := by
    intro m col h
    cases h

/-- A later expansion state: more leaves, the index still valid. -/
structure Extends (st st' : Expansion) : Prop where
  inv : LeafInv st'
  leaves : st.leaves ⊆ st'.leaves

lemma Extends.refl {st : Expansion} (h : LeafInv st) : Extends st st :=
  ⟨h, List.Subset.refl _⟩

lemma Extends.trans {st st' st'' : Expansion} (h : Extends st st') (h' : Extends st' st'') :
    Extends st st'' :=
  ⟨h'.inv, List.Subset.trans h.leaves h'.leaves⟩

lemma leafKey_eq_nil {filters : List String} : leafKey filters = [] ↔ filters = [] := by
  constructor
  · intro h
    by_contra hne
    obtain ⟨f, hf⟩ := List.exists_mem_of_ne_nil _ hne
    have hmem : f ∈ leafKey filters := by
      unfold leafKey
      rw [List.mem_dedup, List.mem_insertionSort]
      exact hf
    rw [h] at hmem
    cases hmem
  · rintro rfl
    rfl

lemma mem_of_lookup {α β : Type} [BEq α] [LawfulBEq α] {l : List (α × β)} {a : α} {b : β}
    (h : l.lookup a = some b) : (a, b) ∈ l := by
  induction l with
  | nil => cases h
  | cons p l ih =>
      rw [List.lookup_cons] at h
      split at h
      · next heq =>
          cases h
          rw [beq_iff_eq] at heq
          rw [heq]
          exact List.mem_cons_self
      · exact List.mem_cons_of_mem _ (ih h)

/-- Registering a leaf. -/
lemma leaf_spec {cat : SemanticCatalog} {st st' : Expansion} {member col : String}
    {filters : List String} (hst : LeafInv st)
    (h : leaf cat st member filters = .ok (col, st')) :
    Extends st st' ∧ col ∈ st'.leaves ∧ (filters = [] → col = member) := by
  unfold leaf at h
  dsimp only at h
  split at h
  · next col' hcol =>
      cases h
      have hmem := mem_of_lookup hcol
      refine ⟨Extends.refl hst, hst.registered _ _ hmem, ?_⟩
      rintro rfl
      exact hst.plain _ _ hmem
  · obtain ⟨⟨inner, synth⟩, hinner, heq⟩ := Fallible.bind_eq_ok.mp h
    cases heq
    have hplain : filters = [] → inner = member := by
      rintro rfl
      cases hinner
      rfl
    refine ⟨⟨⟨?_, ?_⟩, fun x hx => List.mem_append_left _ hx⟩, by simp, hplain⟩
    · intro key col' hmem
      rcases List.mem_append.mp hmem with hmem | hmem
      · exact List.mem_append_left _ (hst.registered _ _ hmem)
      · rw [List.mem_singleton] at hmem
        cases hmem
        simp
    · intro m col' hmem
      rcases List.mem_append.mp hmem with hmem | hmem
      · exact hst.plain _ _ hmem
      · rw [List.mem_singleton, Prod.mk.injEq, Prod.mk.injEq] at hmem
        obtain ⟨⟨rfl, hkey⟩, rfl⟩ := hmem
        exact hplain (leafKey_eq_nil.mp hkey.symm)

/-! ## The columns of a projection -/

/-- Columns of the aggregate that are leaves, grouped dimensions, and grouped dimensions on the
time axis where that is used. -/
def Reads (ctx : ExpandCtx) (window : Prop) (st : Expansion) (cols : List Column) : Prop :=
  ∀ c ∈ cols, (c.rel = aggAlias ∧ c.name ∈ st.leaves) ∨
    (c.rel = ctx.dimsAlias ∧ c.name ∈ ctx.q.dimensions) ∨
    (window ∧ c.rel = axisAlias ∧ c.name ∈ ctx.q.dimensions)

lemma Reads.mono {ctx : ExpandCtx} {window : Prop} {st st' : Expansion} {cols : List Column}
    (h : Reads ctx window st cols) (hext : Extends st st') : Reads ctx window st' cols := by
  intro c hc
  exact (h c hc).imp_left fun hagg => ⟨hagg.1, hext.leaves hagg.2⟩

lemma Reads.append {ctx : ExpandCtx} {window : Prop} {st : Expansion} {cols cols' : List Column}
    (h : Reads ctx window st cols) (h' : Reads ctx window st cols') :
    Reads ctx window st (cols ++ cols') := by
  intro c hc
  exact (List.mem_append.mp hc).elim (h c) (h' c)

/-- What a successful expansion step has done. -/
def Expanded (ctx : ExpandCtx) (window : Prop) (st : Expansion) (r : MetricExpr × Expansion) :
    Prop :=
  Extends st r.2 ∧ Reads ctx window r.2 r.1.columns

lemma timeDims_mem {q : SemanticQuery} {member : String} {g : TimeGrain}
    (h : (member, g) ∈ timeDims q) : member ∈ q.dimensions := by
  obtain ⟨d, hd, heq⟩ := List.mem_filterMap.mp h
  split at heq
  · obtain ⟨g', _, heq⟩ := Option.map_eq_some_iff.mp heq
    cases heq
    exact hd
  · cases heq

/-- The columns of a window's axis are grouped dimensions. -/
lemma windowAxis_reads {ctx : ExpandCtx} (htime : ctx.timeDims = timeDims ctx.q)
    {name : String} {col : Column} {partition : List PartTerm}
    (h : windowAxis ctx name = .ok (col, partition)) :
    ∀ c ∈ col :: partition.map PartTerm.col, c.rel = axisAlias ∧ c.name ∈ ctx.q.dimensions := by
  unfold windowAxis at h
  split at h
  · next member g hdims =>
      cases h
      have hmember : member ∈ ctx.q.dimensions :=
        timeDims_mem (q := ctx.q) (g := g) (by rw [← htime, hdims]; exact List.mem_cons_self)
      intro c hc
      rcases List.mem_cons.mp hc with rfl | hc
      · exact ⟨rfl, hmember⟩
      · obtain ⟨t, ht, rfl⟩ := List.mem_map.mp hc
        obtain ⟨d, hd, rfl⟩ := List.mem_map.mp ht
        exact ⟨rfl, (List.mem_filter.mp hd).1⟩
  · cases h
  · cases h

lemma derivedTokens_spec {expr : String} {tokens : List DerivedToken}
    (h : derivedTokens expr = .ok tokens) :
    tokens = (scanTokens [] none expr.toList).1.map fun sp => tokenOfBody sp.2 := by
  obtain ⟨tokens', htokens, h⟩ := Fallible.bind_eq_ok.mp h
  have hmap := Fallible.map_of_mapM htokens (g := id) (k := fun sp => tokenOfBody sp.2)
    fun sp t ht => by
      obtain ⟨_, heq⟩ := Fallible.ite_error_eq_ok.mp ht
      cases heq
      rfl
  rw [List.map_id] at hmap
  split at h
  · cases h
  · obtain ⟨_, h⟩ := Fallible.ite_error_eq_ok.mp h
    obtain ⟨_, h⟩ := Fallible.ite_error_eq_ok.mp h
    cases h
    exact hmap

/-- The chain of a derived metric reads what its members read. -/
lemma derivedChain_expanded {ctx : ExpandCtx} {window : Prop}
    {member : Expansion → String → List String → Except SemanticError (MetricExpr × Expansion)}
    {base : List String} {tail : List Char} {spans : List (List Char × List Char)}
    (hmember : ∀ sp ∈ spans, ∀ st filters r, LeafInv st →
      member st (tokenOfBody sp.2).member filters = .ok r → Expanded ctx window st r)
    {st : Expansion} (hst : LeafInv st) {r : MetricExpr × Expansion}
    (h : derivedChain member base tail spans st = .ok r) : Expanded ctx window st r := by
  induction spans generalizing st r with
  | nil =>
      cases h
      refine ⟨Extends.refl hst, fun c hc => ?_⟩
      cases hc
  | cons sp spans ih =>
      obtain ⟨⟨sub, st₁⟩, hsub, h⟩ := Fallible.bind_eq_ok.mp h
      obtain ⟨⟨rest, st₂⟩, hrest, heq⟩ := Fallible.bind_eq_ok.mp h
      cases heq
      obtain ⟨hext, hreads⟩ := hmember sp List.mem_cons_self st _ _ hst hsub
      obtain ⟨hext', hreads'⟩ :=
        ih (fun sp' h' => hmember sp' (List.mem_cons_of_mem _ h')) hext.inv hrest
      exact ⟨hext.trans hext', (hreads.mono hext').append hreads'⟩

/-- A metric whose references are settled, or any metric where the axis may be used, expands
to an expression over leaves, grouped dimensions and the axis. -/
lemma metricExpr_expanded {ctx : ExpandCtx} (htime : ctx.timeDims = timeDims ctx.q)
    {window : Prop} {S : List String} (hS : ∀ x ∈ S, Settled ctx.cat S x) {fuel : ℕ}
    {st : Expansion} {name : String} {inherited visiting : List String}
    {r : MetricExpr × Expansion} (hst : LeafInv st)
    (hname : window ∨ name ∈ S ∨ ctx.cat.metric name = none)
    (h : metricExpr ctx fuel st name inherited visiting = .ok r) :
    Expanded ctx window st r := by
  induction fuel generalizing st name inherited visiting r with
  | zero => cases h
  | succ fuel ih =>
      unfold metricExpr at h
      cases hm : ctx.cat.metric name with
      | none =>
          rw [hm] at h
          cases h
      | some metric =>
          rw [hm] at h
          dsimp only at h
          obtain ⟨_, h⟩ := Fallible.ite_error_eq_ok.mp h
          have hsettled : window ∨ (isWindow metric = false ∧
              ((∃ measure overDims agg, metric.kind = .share measure overDims agg) ∨
                ∀ r ∈ subMetrics metric, r ∈ S ∨ ctx.cat.metric r = none)) := by
            rcases hname with hw | hn | hn
            · exact .inl hw
            · exact .inr (hS name hn metric hm)
            · rw [hm] at hn
              cases hn
          -- a reference inside the metric
          have hmember : ∀ member, (isMetric member = true → member ∈ subMetrics metric) →
              (∀ m o a, metric.kind ≠ .share m o a) → ∀ st filters r, LeafInv st →
              (if isMetric member = true then
                metricExpr ctx fuel st member filters (visiting ++ [name])
              else leaf ctx.cat st member filters >>= fun p =>
                .ok (.column (aggColumn p.1), p.2)) = .ok r → Expanded ctx window st r := by
            intro member hsub hshare st filters r hst hr
            split_ifs at hr with hmetric
            · refine ih hst ?_ hr
              rcases hsettled with hw | ⟨_, ⟨m, o, a, hk⟩ | hrefs⟩
              · exact .inl hw
              · exact absurd hk (hshare m o a)
              · exact .inr (hrefs member (hsub hmetric))
            · obtain ⟨⟨col, st₁⟩, hleaf, heq⟩ := Fallible.bind_eq_ok.mp hr
              cases heq
              obtain ⟨hext, hcol, _⟩ := leaf_spec hst hleaf
              refine ⟨hext, fun c hc => ?_⟩
              rw [MetricExpr.columns, List.mem_singleton] at hc
              subst hc
              exact .inl ⟨rfl, hcol⟩
          have hwindow : isWindow metric = true → window := by
            intro hw
            rcases hsettled with h | ⟨hno, _⟩
            · exact h
            · rw [hw] at hno
              cases hno
          cases hkind : metric.kind with
          | ratio num den =>
              simp only [hkind] at h
              obtain ⟨⟨n, st₁⟩, hn, h⟩ := Fallible.bind_eq_ok.mp h
              obtain ⟨⟨d, st₂⟩, hd, heq⟩ := Fallible.bind_eq_ok.mp h
              cases heq
              have hshare : ∀ m o a, metric.kind ≠ .share m o a := by simp [hkind]
              obtain ⟨hext, hreads⟩ := hmember num.member
                (fun hm' => by simp [subMetrics, Metric.references, hkind, hm']) hshare
                st _ _ hst hn
              obtain ⟨hext', hreads'⟩ := hmember den.member
                (fun hm' => by simp [subMetrics, Metric.references, hkind, hm']) hshare
                st₁ _ _ hext.inv hd
              exact ⟨hext.trans hext', (hreads.mono hext').append hreads'⟩
          | derived expr =>
              simp only [hkind] at h
              split at h
              · cases h
              · next tokens htokens =>
                  have hshare : ∀ m o a, metric.kind ≠ .share m o a := by simp [hkind]
                  refine derivedChain_expanded (fun sp hsp st filters r hst hr => ?_) hst h
                  refine hmember _ (fun hm' => ?_) hshare st filters r hst hr
                  have hrefs : Metric.references metric =
                      .ok (tokens.map fun t => (t.member, t.filter)) := by
                    simp [Metric.references, hkind, htokens, bind, Except.bind]
                  rw [subMetrics, hrefs]
                  refine List.mem_filter.mpr ⟨?_, hm'⟩
                  rw [derivedTokens_spec htokens]
                  simp only [List.map_map, List.mem_map]
                  exact ⟨sp, hsp, rfl⟩
          | cumulative measure cwindow agg =>
              simp only [hkind] at h
              obtain ⟨⟨col, st₁⟩, hleaf, h⟩ := Fallible.bind_eq_ok.mp h
              obtain ⟨⟨timeCol, partition⟩, haxis, heq⟩ := Fallible.bind_eq_ok.mp h
              cases heq
              obtain ⟨hext, hcol, _⟩ := leaf_spec hst hleaf
              have haxis' := windowAxis_reads htime haxis
              have hw : window := hwindow (by simp [isWindow, hkind])
              refine ⟨hext, fun c hc => ?_⟩
              rcases List.mem_cons.mp hc with rfl | hc
              · exact .inl ⟨rfl, hcol⟩
              · refine .inr (.inr ⟨hw, haxis' c ?_⟩)
                rcases List.mem_cons.mp hc with rfl | hc
                · exact List.mem_cons_self
                · cases cwindow with
                  | grainToDate grain =>
                      simp only [List.map_append, List.mem_append] at hc
                      rcases hc with hc | hc
                      · exact List.mem_cons_of_mem _ hc
                      · rw [List.map_singleton, List.mem_singleton] at hc
                        rw [hc]
                        exact List.mem_cons_self
                  | runningTotal => exact List.mem_cons_of_mem _ hc
                  | trailing periods => exact List.mem_cons_of_mem _ hc
          | offset measure periods output =>
              simp only [hkind] at h
              obtain ⟨⟨col, st₁⟩, hleaf, h⟩ := Fallible.bind_eq_ok.mp h
              obtain ⟨⟨timeCol, partition⟩, haxis, heq⟩ := Fallible.bind_eq_ok.mp h
              cases heq
              obtain ⟨hext, hcol, _⟩ := leaf_spec hst hleaf
              have haxis' := windowAxis_reads htime haxis
              have hw : window := hwindow (by simp [isWindow, hkind])
              refine ⟨hext, fun c hc => ?_⟩
              rcases List.mem_cons.mp hc with rfl | hc
              · exact .inl ⟨rfl, hcol⟩
              · exact .inr (.inr ⟨hw, haxis' c hc⟩)
          | share measure overDims agg =>
              simp only [hkind] at h
              obtain ⟨us, hover, h⟩ := Fallible.bind_eq_ok.mp h
              obtain ⟨⟨col, st₁⟩, hleaf, heq⟩ := Fallible.bind_eq_ok.mp h
              cases heq
              obtain ⟨hext, hcol, _⟩ := leaf_spec hst hleaf
              refine ⟨hext, fun c hc => ?_⟩
              rcases List.mem_cons.mp hc with rfl | hc
              · exact .inl ⟨rfl, hcol⟩
              · obtain ⟨t, ht, rfl⟩ := List.mem_map.mp hc
                obtain ⟨d, hd, rfl⟩ := List.mem_map.mp ht
                obtain ⟨_, _, hturn⟩ := Fallible.exists_of_mapM hover hd
                split_ifs at hturn with hdim
                exact .inr (.inl ⟨rfl, hdim⟩)

/-- The projections of a metric query read leaves of the aggregate and grouped dimensions; the
time axis only in spine mode. -/
theorem projectMeasures_columns {cat : SemanticCatalog} {q : SemanticQuery} {ms : List String}
    (hms : ∀ m ∈ ms, m ∈ q.measures) {st st' : Expansion} (hst : LeafInv st)
    {items : List (MetricExpr × String)}
    (h : projectMeasures (expandCtx cat q) ms st = .ok (items, st')) :
    Extends st st' ∧ items.map Prod.snd = ms ∧
      ∀ item ∈ items, Reads (expandCtx cat q) (spineMode cat q = true) st' item.1.columns := by
  induction ms generalizing st st' items with
  | nil =>
      cases h
      exact ⟨Extends.refl hst, rfl, fun item hitem => by cases hitem⟩
  | cons m ms ih =>
      obtain ⟨⟨item, st₁⟩, hitem, h⟩ := Fallible.bind_eq_ok.mp h
      obtain ⟨⟨items', st₂⟩, hitems, heq⟩ := Fallible.bind_eq_ok.mp h
      cases heq
      have hone : item.2 = m ∧ Expanded (expandCtx cat q) (spineMode cat q = true) st
          (item.1, st₁) := by
        unfold projectMeasure at hitem
        split_ifs at hitem with hmetric
        · obtain ⟨⟨e, st₀⟩, he, heq⟩ := Fallible.bind_eq_ok.mp hitem
          cases heq
          refine ⟨rfl, ?_⟩
          cases hspine : spineMode cat q with
          | true =>
              exact metricExpr_expanded (S := []) rfl (fun x hx => by cases hx) hst
                (.inl rfl) he
          | false =>
              obtain ⟨S, hS, hmem⟩ :=
                settled_of_not_spineMode hspine (hms m List.mem_cons_self) hmetric
              exact metricExpr_expanded rfl hS hst (.inr hmem) he
        · obtain ⟨⟨col, st₀⟩, hleaf, heq⟩ := Fallible.bind_eq_ok.mp hitem
          cases heq
          obtain ⟨hext, hcol, hplain⟩ := leaf_spec hst hleaf
          refine ⟨rfl, hext, fun c hc => ?_⟩
          rw [MetricExpr.columns, List.mem_singleton] at hc
          subst hc
          rw [hplain rfl] at hcol
          exact .inl ⟨rfl, hcol⟩
      obtain ⟨hname, hext, hreads⟩ := hone
      obtain ⟨hext', hnames, hreads'⟩ :=
        ih (fun m' h' => hms m' (List.mem_cons_of_mem _ h')) hext.inv hitems
      refine ⟨hext.trans hext', by rw [List.map_cons, hname, hnames], ?_⟩
      intro item' hitem'
      rcases List.mem_cons.mp hitem' with rfl | hitem'
      · exact hreads.mono hext'
      · exact hreads' item' hitem'

end Semantic
end Pawrly
