import Pawrly.Semantic.MetricRendering

/-!
# The leaves of a query

The expansion registers every reference of the query's metrics once, in the order in which it meets
them: the `k`-th distinct reference has the `k`-th entry of the index, and if it has filters the
synthetic measure `__mf<k>_<measure>` (`queryReferences_holds`).
-/

namespace Pawrly
namespace Semantic

open Sql OperatorGrammar

/-! ## The references of a query -/

/-- The references of a metric, in the order of their expansion. -/
def metricReferences (walk : String → List String → List Reference) (metric : Metric)
    (base : List String) : List Reference :=
  match metric.kind with
  | .ratio num den =>
      walk num.member (andFilter base num.filter) ++ walk den.member (andFilter base den.filter)
  | .derived expr =>
      (scanTokens [] none expr.toList).1.flatMap fun sp =>
        walk (tokenOfBody sp.2).member (andFilter base (tokenOfBody sp.2).filter)
  | .cumulative measure _ _ => [.of measure base]
  | .offset measure _ _ => [.of measure base]
  | .share measure _ _ => [.of measure base]

/-- The measures that a member refers to under some filters, through any metrics. -/
def referencesOf (cat : SemanticCatalog) : ℕ → String → List String → List Reference
  | 0, member, filters => if isMetric member then [] else [.of member filters]
  | fuel + 1, member, filters =>
      if isMetric member then
        match cat.metric member with
        | none => []
        | some metric =>
            metricReferences (referencesOf cat fuel) metric (andFilter filters metric.filter)
      else [.of member filters]

/-- The references of a query, with their repetitions. -/
def queryReferences (cat : SemanticCatalog) (q : SemanticQuery) : List Reference :=
  q.measures.flatMap fun m => referencesOf cat (cat.metrics.length + 1) m []

/-- Enter a reference that is not there yet. -/
def register (refs : List Reference) (r : Reference) : List Reference :=
  if r ∈ refs then refs else refs ++ [r]

/-- The references without repetitions, each at its first place. -/
def distinct (refs : List Reference) : List Reference := refs.foldl register []

lemma nodup_register {refs : List Reference} (h : refs.Nodup) (r : Reference) :
    (register refs r).Nodup := by
  unfold register
  split_ifs with hr
  · exact h
  · exact List.nodup_append_comm.mp (List.nodup_cons.mpr ⟨hr, h⟩)

lemma mem_register {refs : List Reference} {r r' : Reference} :
    r' ∈ register refs r ↔ r' ∈ refs ∨ r' = r := by
  unfold register
  split_ifs with hr
  · refine ⟨.inl, ?_⟩
    rintro (h | rfl)
    · exact h
    · exact hr
  · simp

lemma mem_foldl_register {refs : List Reference} {r : Reference} {start : List Reference} :
    r ∈ refs.foldl register start ↔ r ∈ start ∨ r ∈ refs := by
  induction refs generalizing start with
  | nil => simp
  | cons r' refs ih => rw [List.foldl_cons, ih, mem_register, List.mem_cons, or_assoc]

lemma mem_distinct {refs : List Reference} {r : Reference} : r ∈ distinct refs ↔ r ∈ refs := by
  simp [distinct, mem_foldl_register]

/-! ## Columns -/

/-- The generated name of a filtered measure. -/
def syntheticName (k : ℕ) (measure : String) : String := "__mf" ++ toString k ++ "_" ++ measure

/-- The column of the `k`-th reference. -/
def leafColumn (k : ℕ) (r : Reference) : String :=
  if r.filters = ∅ then r.member
  else
    match Text.splitOnce '.' r.member with
    | some (modelName, measureName) => modelName ++ "." ++ syntheticName k measureName
    | none => r.member

/-- The synthetic measure of the `k`-th reference, with its model. -/
def grafted (cat : SemanticCatalog) (k : ℕ) (r : Reference) : Option (String × Measure) :=
  if r.filters = ∅ then none
  else
    match Text.splitOnce '.' r.member with
    | none => none
    | some (modelName, measureName) =>
        ((cat.model modelName).bind fun model => findMeasure model measureName).map fun measure =>
          (modelName, syntheticMeasure measure k r.filters.sort)

lemma findMeasure_name {model : SemanticModel} {name : String} {measure : Measure}
    (h : findMeasure model name = some measure) : measure.name = name := by
  simpa using List.find?_some h

/-- What the graft of a reference is. -/
lemma grafted_eq_some {cat : SemanticCatalog} {k : ℕ} {r : Reference} {s : String × Measure}
    (h : grafted cat k r = some s) :
    r.filters ≠ ∅ ∧ ∃ measureName model measure,
      Text.splitOnce '.' r.member = some (s.1, measureName) ∧ cat.model s.1 = some model ∧
      findMeasure model measureName = some measure ∧
      s.2 = syntheticMeasure measure k r.filters.sort ∧
      s.2.name = syntheticName k measureName ∧
      leafColumn k r = s.1 ++ "." ++ syntheticName k measureName := by
  unfold grafted at h
  split_ifs at h with hfilters
  split at h
  · cases h
  · next modelName measureName hsplit =>
      obtain ⟨measure, hmeasure, rfl⟩ := Option.map_eq_some_iff.mp h
      obtain ⟨model, hmodel, hfind⟩ := Option.bind_eq_some_iff.mp hmeasure
      refine ⟨hfilters, measureName, model, measure, hsplit, hmodel, hfind, rfl, ?_, ?_⟩
      · show syntheticName k measure.name = _
        rw [findMeasure_name hfind]
      · rw [leafColumn, if_neg hfilters, hsplit]

/-! ## Generated names -/

lemma toList_syntheticName (k : ℕ) (measure : String) :
    (syntheticName k measure).toList =
      ['_', '_', 'm', 'f'] ++ ((toString k).toList ++ '_' :: measure.toList) := by
  unfold syntheticName
  simp only [String.toList_append, List.append_assoc]
  rfl

/-- A digit is no separator. -/
lemma notMem_toString (k : ℕ) {c : Char} (hc : c.isDigit = false) : c ∉ (toString k).toList := by
  intro hmem
  have hdigits := Text.isDigits_toString k
  rw [Text.isDigits, Bool.and_eq_true, List.all_eq_true] at hdigits
  rw [hdigits.2 c hmem] at hc
  cases hc

/-- A generated name tells the number and the measure it was generated for. -/
lemma syntheticName_inj {k k' : ℕ} {measure measure' : String} :
    syntheticName k measure = syntheticName k' measure' ↔ k = k' ∧ measure = measure' := by
  refine ⟨fun h => ?_, fun h => by rw [h.1, h.2]⟩
  have hlists := congrArg String.toList h
  rw [toList_syntheticName, toList_syntheticName] at hlists
  have hrest := List.append_cancel_left hlists
  have hsplit := congrArg (Text.splitOnceChars '_') hrest
  rw [Text.splitOnceChars_append (notMem_toString k (by decide)),
    Text.splitOnceChars_append (notMem_toString k' (by decide))] at hsplit
  obtain ⟨hk, hmeasure⟩ := Prod.mk.inj (Option.some.inj hsplit)
  exact ⟨Text.toString_inj.mp (String.toList_inj.mp hk), String.toList_inj.mp hmeasure⟩

/-- A generated name is longer than that of its measure. -/
lemma syntheticName_ne (k : ℕ) (measure : String) : syntheticName k measure ≠ measure := by
  intro h
  have hlen := congrArg (fun s => s.toList.length) h
  simp only [toList_syntheticName, List.length_append, List.length_cons, List.length_nil] at hlen
  omega

lemma splitOnce_spec {member a b : String} (h : Text.splitOnce '.' member = some (a, b)) :
    member = a ++ "." ++ b ∧ '.' ∉ a.toList := by
  obtain ⟨⟨as, bs⟩, hsplit, heq⟩ := Option.map_eq_some_iff.mp h
  cases heq
  obtain ⟨hmember, hnot⟩ := Text.splitOnceChars_spec hsplit
  refine ⟨String.toList_inj.mp ?_, by rwa [String.toList_ofList]⟩
  rw [hmember]
  simp

/-! ## Registered references -/

/-- The expansion has met these references, in this order. -/
structure Holds (cat : SemanticCatalog) (refs : List Reference) (st : Expansion) : Prop where
  nodup : refs.Nodup
  length_eq : st.leafIndex.length = refs.length
  index : ∀ (k : ℕ) r, refs[k]? = some r → st.leafIndex.lookup r.key = some (leafColumn k r)
  fresh : ∀ r, r ∉ refs → st.leafIndex.lookup r.key = none
  leaves : ∀ (k : ℕ) r, refs[k]? = some r → leafColumn k r ∈ st.leaves
  synthetic : ∀ s, s ∈ st.synthetic ↔ ∃ (k : ℕ) (r : Reference),
    refs[k]? = some r ∧ grafted cat k r = some s
  grafts : ∀ (k : ℕ) r, refs[k]? = some r → r.filters ≠ ∅ → (grafted cat k r).isSome = true

lemma holds_nil (cat : SemanticCatalog) : Holds cat [] {} where
  nodup := List.nodup_nil
  length_eq := rfl
  index := fun k r h => by simp at h
  fresh := fun r _ => rfl
  leaves := fun k r h => by simp at h
  synthetic := fun s => by simp
  grafts := fun k r h => by simp at h

lemma key_injective {r r' : Reference} (h : r.key = r'.key) : r = r' := by
  obtain ⟨member, filters⟩ := r
  obtain ⟨member', filters'⟩ := r'
  obtain ⟨hmember, hfilters⟩ := Prod.mk.inj h
  have hsets : filters = filters' := by
    rw [← Finset.sort_toFinset filters (· ≤ ·), ← Finset.sort_toFinset filters' (· ≤ ·)]
    exact congrArg List.toFinset hfilters
  exact congrArg₂ Reference.mk hmember hsets

lemma of_filters_eq_empty {member : String} {filters : List String} :
    (Reference.of member filters).filters = ∅ ↔ filters = [] :=
  List.toFinset_eq_empty_iff filters

/-- The member and the synthetic measure of a new leaf. -/
lemma leafMember_eq {cat : SemanticCatalog} {k : ℕ} {member inner : String}
    {filters : List String} {synth : Option (String × Measure)}
    (h : leafMember cat k member filters = .ok (inner, synth)) :
    inner = leafColumn k (.of member filters) ∧ synth = grafted cat k (.of member filters) ∧
      ((Reference.of member filters).filters ≠ ∅ → synth.isSome = true) := by
  unfold leafMember at h
  unfold leafColumn grafted
  split_ifs at h with hempty
  · cases h
    have hfilters : (Reference.of member filters).filters = ∅ :=
      of_filters_eq_empty.mpr (List.isEmpty_iff.mp hempty)
    rw [if_pos hfilters, if_pos hfilters]
    exact ⟨rfl, rfl, fun hne => absurd hfilters hne⟩
  · have hfilters : (Reference.of member filters).filters ≠ ∅ :=
      fun h => hempty (List.isEmpty_iff.mpr (of_filters_eq_empty.mp h))
    rw [if_neg hfilters, if_neg hfilters]
    dsimp only [Reference.of]
    cases hsplit : Text.splitOnce '.' member with
    | none =>
        rw [hsplit] at h
        cases h
    | some p =>
        obtain ⟨modelName, measureName⟩ := p
        rw [hsplit] at h
        dsimp only at h
        cases hmodel : cat.model modelName with
        | none =>
            rw [hmodel] at h
            cases h
        | some model =>
            rw [hmodel] at h
            dsimp only at h
            cases hfind : findMeasure model measureName with
            | none =>
                rw [hfind] at h
                cases h
            | some measure =>
                rw [hfind] at h
                cases h
                rw [← leafKey_eq_sort]
                simp [hmodel, hfind, syntheticName, syntheticMeasure, findMeasure_name hfind]

lemma getElem?_concat_iff {refs : List Reference} {r r' : Reference} {k : ℕ} :
    (refs ++ [r])[k]? = some r' ↔ refs[k]? = some r' ∨ (k = refs.length ∧ r' = r) := by
  by_cases hlt : k < refs.length
  · rw [List.getElem?_append_left hlt]
    refine ⟨.inl, ?_⟩
    rintro (h | ⟨hk, -⟩)
    · exact h
    · omega
  · have hnone : refs[k]? = none := List.getElem?_eq_none (by omega)
    rw [List.getElem?_append_right (by omega), hnone, List.getElem?_singleton]
    split_ifs with hk
    · simp [eq_comm, show k = refs.length by omega]
    · simp
      omega

/-- Registering a leaf registers its reference. -/
lemma Holds.leaf {cat : SemanticCatalog} {refs : List Reference} {st st' : Expansion}
    {member col : String} {filters : List String} (h : Holds cat refs st)
    (hleaf : leaf cat st member filters = .ok (col, st')) :
    Holds cat (register refs (.of member filters)) st' := by
  unfold Semantic.leaf at hleaf
  dsimp only at hleaf
  rw [← key_of] at hleaf
  split at hleaf
  · next col' hcol =>
      cases hleaf
      have hmem : Reference.of member filters ∈ refs := by
        by_contra hmem
        rw [h.fresh _ hmem] at hcol
        cases hcol
      rwa [register, if_pos hmem]
  · next hnone =>
      obtain ⟨⟨inner, synth⟩, hmember, heq⟩ := Fallible.bind_eq_ok.mp hleaf
      cases heq
      rw [h.length_eq] at hmember
      obtain ⟨rfl, rfl, hsome⟩ := leafMember_eq hmember
      have hnew : Reference.of member filters ∉ refs := by
        intro hmem
        obtain ⟨k, hk⟩ := List.mem_iff_getElem?.mp hmem
        rw [h.index k _ hk] at hnone
        cases hnone
      have hnodup := nodup_register h.nodup (.of member filters)
      rw [register, if_neg hnew] at hnodup ⊢
      refine ⟨hnodup, by simp [h.length_eq], fun k r hk => ?_, fun r hr => ?_, fun k r hk => ?_,
        fun s => ?_, fun k r hk hr => ?_⟩
      · rcases getElem?_concat_iff.mp hk with hk | ⟨rfl, rfl⟩
        · rw [List.lookup_append, h.index k r hk, Option.some_or]
        · rw [List.lookup_append, hnone, Option.none_or, List.lookup_cons_self]
      · rw [List.mem_append, List.mem_singleton, not_or] at hr
        have hkey : (r.key == (Reference.of member filters).key) = false := by
          rw [beq_eq_false_iff_ne]
          exact fun heq => hr.2 (key_injective heq)
        rw [List.lookup_append, h.fresh r hr.1, Option.none_or, List.lookup_cons, hkey]
        rfl
      · rcases getElem?_concat_iff.mp hk with hk | ⟨rfl, rfl⟩
        · exact List.mem_append_left _ (h.leaves k r hk)
        · exact List.mem_append_right _ (List.mem_singleton_self _)
      · rw [List.mem_append, h.synthetic, Option.mem_toList]
        simp only [getElem?_concat_iff, or_and_right, exists_or]
        refine or_congr_right ⟨fun hs => ⟨_, _, ⟨rfl, rfl⟩, hs⟩, ?_⟩
        rintro ⟨k, r, ⟨rfl, rfl⟩, hs⟩
        exact hs
      · rcases getElem?_concat_iff.mp hk with hk | ⟨rfl, rfl⟩
        · exact h.grafts k r hk hr
        · exact hsome hr

lemma Holds.columnIn_eq {cat : SemanticCatalog} {refs : List Reference} {st : Expansion}
    (h : Holds cat refs st) {k : ℕ} {r : Reference} (hk : refs[k]? = some r) :
    columnIn st r = leafColumn k r := by
  rw [columnIn, h.index k r hk, Option.getD_some]

/-- The graft of a filtered reference. -/
lemma Holds.graft {cat : SemanticCatalog} {refs : List Reference} {st : Expansion}
    (h : Holds cat refs st) {k : ℕ} {r : Reference} (hk : refs[k]? = some r)
    (hr : r.filters ≠ ∅) : ∃ s ∈ st.synthetic, grafted cat k r = some s := by
  obtain ⟨s, hs⟩ := Option.isSome_iff_exists.mp (h.grafts k r hk hr)
  exact ⟨s, (h.synthetic s).mpr ⟨k, r, hk, hs⟩, hs⟩

/-- Filtered references have columns of their own. -/
lemma Holds.filtered_inj {cat : SemanticCatalog} {refs : List Reference} {st : Expansion}
    (h : Holds cat refs st) {k k' : ℕ} {r r' : Reference} (hk : refs[k]? = some r)
    (hk' : refs[k']? = some r') (hr : r.filters ≠ ∅) (hr' : r'.filters ≠ ∅)
    (hcol : leafColumn k r = leafColumn k' r') : r = r' := by
  obtain ⟨s, -, hs⟩ := h.graft hk hr
  obtain ⟨s', -, hs'⟩ := h.graft hk' hr'
  obtain ⟨-, name, -, -, hsplit, -, -, -, -, hcolumn⟩ := grafted_eq_some hs
  obtain ⟨-, name', -, -, hsplit', -, -, -, -, hcolumn'⟩ := grafted_eq_some hs'
  rw [hcolumn, hcolumn'] at hcol
  have hparts := congrArg (Text.splitOnce '.') hcol
  rw [Text.splitOnce_append (splitOnce_spec hsplit).2,
    Text.splitOnce_append (splitOnce_spec hsplit').2] at hparts
  obtain ⟨rfl, -⟩ := syntheticName_inj.mp (Prod.mk.inj (Option.some.inj hparts)).2
  exact Option.some.inj (hk.symm.trans hk')

/-! ## Whole expansions -/

section

variable {cat : SemanticCatalog}
  {f : Expansion → String → List String → Except SemanticError (MetricExpr × Expansion)}
  {walk : String → List String → List Reference} {base : List String}

lemma derivedChain_holds {tail : List Char} {spans : List (List Char × List Char)}
    (hf : ∀ refs st member filters r, Holds cat refs st → f st member filters = .ok r →
      Holds cat ((walk member filters).foldl register refs) r.2)
    {refs : List Reference} {st : Expansion} (hst : Holds cat refs st)
    {r : MetricExpr × Expansion} (h : derivedChain f base tail spans st = .ok r) :
    Holds cat ((spans.flatMap fun sp => walk (tokenOfBody sp.2).member
      (andFilter base (tokenOfBody sp.2).filter)).foldl register refs) r.2 := by
  induction spans generalizing refs st r with
  | nil =>
      cases h
      exact hst
  | cons sp spans ih =>
      obtain ⟨⟨sub, st₁⟩, hsub, h⟩ := Fallible.bind_eq_ok.mp h
      obtain ⟨⟨rest, st₂⟩, hrest, heq⟩ := Fallible.bind_eq_ok.mp h
      cases heq
      have hnext := hf _ _ _ _ (sub, st₁) hst hsub
      rw [List.flatMap_cons, List.foldl_append]
      show Holds cat _ (rest, st₂).2
      exact ih hnext hrest

/-- A metric registers its references. -/
lemma metricBody_holds {ctx : ExpandCtx} (hcat : ctx.cat = cat) {metric : Metric} {name : String}
    (hf : ∀ refs st member filters r, Holds cat refs st → f st member filters = .ok r →
      Holds cat ((walk member filters).foldl register refs) r.2)
    {refs : List Reference} {st : Expansion} (hst : Holds cat refs st)
    {r : MetricExpr × Expansion} (h : Config.metricBody ctx metric name base f st = .ok r) :
    Holds cat ((metricReferences walk metric base).foldl register refs) r.2 := by
  unfold Config.metricBody at h
  unfold metricReferences
  cases hkind : metric.kind with
  | ratio num den =>
      simp only [hkind] at h
      obtain ⟨⟨n, st₁⟩, hn, h⟩ := Fallible.bind_eq_ok.mp h
      obtain ⟨⟨d, st₂⟩, hd, heq⟩ := Fallible.bind_eq_ok.mp h
      cases heq
      have hnum := hf _ _ _ _ (n, st₁) hst hn
      dsimp only
      rw [List.foldl_append]
      exact hf _ _ _ _ (d, st₂) hnum hd
  | derived expr =>
      simp only [hkind] at h
      split at h
      · cases h
      · exact derivedChain_holds hf hst h
  | cumulative measure window agg =>
      simp only [hkind, hcat] at h
      obtain ⟨⟨col, st₁⟩, hl, h⟩ := Fallible.bind_eq_ok.mp h
      obtain ⟨_, _, heq⟩ := Fallible.bind_eq_ok.mp h
      cases heq
      exact hst.leaf hl
  | offset measure periods output =>
      simp only [hkind, hcat] at h
      obtain ⟨⟨col, st₁⟩, hl, h⟩ := Fallible.bind_eq_ok.mp h
      obtain ⟨_, _, heq⟩ := Fallible.bind_eq_ok.mp h
      cases heq
      exact hst.leaf hl
  | share measure dims agg =>
      simp only [hkind, hcat] at h
      obtain ⟨_, _, h⟩ := Fallible.bind_eq_ok.mp h
      obtain ⟨⟨col, st₁⟩, hl, heq⟩ := Fallible.bind_eq_ok.mp h
      cases heq
      exact hst.leaf hl

end

/-- A member registers its references. -/
lemma memberExpr_holds {ctx : ExpandCtx} {fuel : ℕ} {visiting : List String}
    {refs : List Reference} {st : Expansion} {member : String} {filters : List String}
    {r : MetricExpr × Expansion} (hst : Holds ctx.cat refs st)
    (h : Config.memberExpr ctx fuel visiting st member filters = .ok r) :
    Holds ctx.cat ((referencesOf ctx.cat fuel member filters).foldl register refs) r.2 := by
  induction fuel generalizing visiting refs st member filters r with
  | zero =>
      unfold Config.memberExpr at h
      unfold referencesOf
      split_ifs at h ⊢
      · cases h
      · obtain ⟨⟨col, st₁⟩, hl, heq⟩ := Fallible.bind_eq_ok.mp h
        cases heq
        exact hst.leaf hl
  | succ fuel ih =>
      unfold Config.memberExpr at h
      unfold referencesOf
      split_ifs at h ⊢
      · obtain ⟨k, metric, hk, hmetric, -, hbody⟩ := metricExpr_inv h
        obtain rfl : fuel = k := by omega
        rw [hmetric]
        exact metricBody_holds rfl (fun _ _ _ _ _ hst hr => ih hst hr) hst hbody
      · obtain ⟨⟨col, st₁⟩, hl, heq⟩ := Fallible.bind_eq_ok.mp h
        cases heq
        exact hst.leaf hl

/-- The projected measures and the state behind them. -/
lemma projectMeasures_holds {ctx : ExpandCtx} {ms : List String} {refs : List Reference}
    {st : Expansion} {r : List (MetricExpr × String) × Expansion} (hst : Holds ctx.cat refs st)
    (h : projectMeasures ctx ms st = .ok r) :
    Holds ctx.cat ((ms.flatMap fun m =>
      referencesOf ctx.cat (ctx.cat.metrics.length + 1) m []).foldl register refs) r.2 := by
  induction ms generalizing refs st r with
  | nil =>
      cases h
      exact hst
  | cons m ms ih =>
      obtain ⟨⟨item, st₁⟩, hitem, h⟩ := Fallible.bind_eq_ok.mp h
      obtain ⟨⟨items, st₂⟩, hitems, heq⟩ := Fallible.bind_eq_ok.mp h
      cases heq
      rw [List.flatMap_cons, List.foldl_append]
      show Holds ctx.cat _ (items, st₂).2
      refine ih ?_ hitems
      have hmember : ∃ e, Config.memberExpr ctx (ctx.cat.metrics.length + 1) [] st m [] =
          .ok (e, st₁) := by
        unfold Config.memberExpr
        unfold projectMeasure at hitem
        split_ifs at hitem ⊢
        · obtain ⟨⟨e, st'⟩, he, heq⟩ := Fallible.bind_eq_ok.mp hitem
          cases heq
          exact ⟨e, he⟩
        · obtain ⟨⟨col, st'⟩, hl, heq⟩ := Fallible.bind_eq_ok.mp hitem
          cases heq
          exact ⟨_, Fallible.bind_eq_ok.mpr ⟨_, hl, rfl⟩⟩
      obtain ⟨e, he⟩ := hmember
      exact memberExpr_holds hst he

/-- The measures in the tree of a member are references of it. -/
lemma holes_referencesOf {L P : Type} [Preorder L] {G : Grammar Token L P} {F : Forms G}
    {ctx : ExpandCtx} {member : String} {filters : List String} {T : Tree P Reference}
    (hT : RefTree F ctx member filters T) {fuel : ℕ} {visiting : List String} {st : Expansion}
    {r : MetricExpr × Expansion}
    (h : Config.memberExpr ctx fuel visiting st member filters = .ok r) {ref : Reference}
    (href : ref ∈ T.holes) : ref ∈ referencesOf ctx.cat fuel member filters := by
  -- the references of a metric whose expansion succeeded
  have hmetric : ∀ {name inherited metric fuel visiting st r}, isMetric name = true →
      ctx.cat.metric name = some metric →
      Config.memberExpr ctx fuel visiting st name inherited = .ok r →
      ∃ k, referencesOf ctx.cat fuel name inherited = metricReferences (referencesOf ctx.cat k)
          metric (andFilter inherited metric.filter) ∧
        Config.metricBody ctx metric name (andFilter inherited metric.filter)
          (Config.memberExpr ctx k (visiting ++ [name])) st = .ok r := by
    intro name inherited metric fuel visiting st r hdot hmetric hrun
    unfold Config.memberExpr at hrun
    rw [if_pos hdot] at hrun
    obtain ⟨k, metric', rfl, hmetric', -, hbody⟩ := metricExpr_inv hrun
    obtain rfl : metric = metric' := by simpa [hmetric] using hmetric'
    exact ⟨k, by rw [referencesOf, if_pos hdot, hmetric], hbody⟩
  induction hT generalizing fuel visiting st r with
  | @measure member filters plain =>
      obtain rfl : ref = .of member filters := href
      cases fuel <;> simp [referencesOf, plain]
  | @ratio name inherited metric num den n d dotFree metric_eq kind_eq num_tree den_tree ihn ihd =>
      obtain ⟨k, hrefs, hbody⟩ := hmetric dotFree metric_eq h
      unfold Config.metricBody at hbody
      simp only [kind_eq] at hbody
      obtain ⟨⟨en, st₁⟩, hn, hbody⟩ := Fallible.bind_eq_ok.mp hbody
      obtain ⟨⟨ed, st₂⟩, hd, -⟩ := Fallible.bind_eq_ok.mp hbody
      rw [hrefs]
      simp only [metricReferences, kind_eq, List.mem_append]
      rcases F.mem_holes_ratio.mp href with href | href
      · exact .inl (ihn hn href)
      · exact .inr (ihd hd href)
  | @derived name inherited metric expr ts D sub dotFree metric_eq kind_eq reads parses subs ih =>
      obtain ⟨k, hrefs, hbody⟩ := hmetric dotFree metric_eq h
      obtain ⟨tail, htail, hread, -⟩ := readDerived_inv reads
      unfold Config.metricBody at hbody
      simp only [kind_eq] at hbody
      split at hbody
      · cases hbody
      · obtain ⟨-, es, hlen, -, hes⟩ :=
          derivedChain_inv (fun _ _ _ _ hr => memberExpr_keeps hr) hbody
        rw [Tree.holes_subst] at href
        obtain ⟨i, hi, href⟩ := href
        have hmem := G.mem_yield_of_mem_holes hi
        rw [parses.2] at hmem
        have hlt := (mem_readSpans hread hmem).2
        rw [List.length_map, Nat.zero_add] at hlt
        have hsp := List.getElem?_eq_getElem hlt
        obtain ⟨st₁, st₂, hrun, -⟩ := hes i _ _ hsp (List.getElem?_eq_getElem (hlen ▸ hlt))
        rw [hrefs]
        simp only [metricReferences, kind_eq, List.mem_flatMap]
        exact ⟨_, List.getElem_mem hlt, ih i _ hsp hrun href⟩
  | @cumulative name inherited metric measure window agg timeCol partition dotFree metric_eq kind_eq
      axis_eq =>
      obtain ⟨k, hrefs, -⟩ := hmetric dotFree metric_eq h
      rw [hrefs]
      simp only [metricReferences, kind_eq, List.mem_singleton]
      exact F.mem_holes_cumulative.mp href
  | @offset name inherited metric measure periods output timeCol partition dotFree metric_eq kind_eq
      axis_eq =>
      obtain ⟨k, hrefs, -⟩ := hmetric dotFree metric_eq h
      rw [hrefs]
      simp only [metricReferences, kind_eq, List.mem_singleton]
      exact F.mem_holes_offset.mp href
  | @share name inherited metric measure dims agg dotFree metric_eq kind_eq =>
      obtain ⟨k, hrefs, -⟩ := hmetric dotFree metric_eq h
      rw [hrefs]
      simp only [metricReferences, kind_eq, List.mem_singleton]
      exact F.mem_holes_share.mp href

/-- **The leaves of a query** are its distinct references. -/
theorem queryReferences_holds {cat : SemanticCatalog} {q : SemanticQuery}
    {items : List (MetricExpr × String)} {st : Expansion}
    (h : projectMeasures (expandCtx cat q) q.measures {} = .ok (items, st)) :
    Holds cat (distinct (queryReferences cat q)) st :=
  projectMeasures_holds (holds_nil cat) h

end Semantic
end Pawrly
