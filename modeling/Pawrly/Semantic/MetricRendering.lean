import Pawrly.Semantic.MetricText

/-!
# Rendered metrics have their tree

The expansion follows the references that the tree of a metric is built from, so a rendered metric
prints that tree with the column of its leaf in place of every measure (`memberExpr_tree`), as long
as no derived expression on the way ends in a line comment.  Such a comment would swallow what the
renderer puts behind the expression (`rendered_iff`).
-/

namespace Pawrly
namespace Semantic

open Sql OperatorGrammar

/-! ## Leaves that stay -/

/-- The leaves registered so far keep their columns. -/
def Keeps (st st' : Expansion) : Prop :=
  ∀ key col, st.leafIndex.lookup key = some col → st'.leafIndex.lookup key = some col

lemma Keeps.refl (st : Expansion) : Keeps st st := fun _ _ h => h

lemma Keeps.trans {st st' st'' : Expansion} (h : Keeps st st') (h' : Keeps st' st'') :
    Keeps st st'' :=
  fun key col hcol => h' key col (h key col hcol)

/-- A registered leaf has its column from then on. -/
lemma leaf_keeps {cat : SemanticCatalog} {st st' : Expansion} {member col : String}
    {filters : List String} (h : leaf cat st member filters = .ok (col, st')) :
    Keeps st st' ∧ st'.leafIndex.lookup (member, leafKey filters) = some col := by
  unfold leaf at h
  dsimp only at h
  split at h
  · next col' hcol =>
      cases h
      exact ⟨.refl st, hcol⟩
  · next hnone =>
      obtain ⟨⟨inner, synth⟩, -, heq⟩ := Fallible.bind_eq_ok.mp h
      cases heq
      refine ⟨fun key col hkey => ?_, ?_⟩
      · simp only [List.lookup_append, hkey, Option.some_or]
      · simp only [List.lookup_append, hnone, Option.none_or, List.lookup_cons, beq_self_eq_true]

section

variable {f : Expansion → String → List String → Except SemanticError (MetricExpr × Expansion)}
  {base : List String}

/-- The rendered references of a derived expression. -/
lemma derivedChain_inv {tail : List Char} {spans : List (List Char × List Char)}
    (hkeeps : ∀ st member filters r, f st member filters = .ok r → Keeps st r.2)
    {st : Expansion} {r : MetricExpr × Expansion} (h : derivedChain f base tail spans st = .ok r) :
    Keeps st r.2 ∧ ∃ subs : List MetricExpr, subs.length = spans.length ∧
      r.1 = chainExpr tail (spans.map Prod.fst) subs ∧
      ∀ (k : ℕ) sp sub, spans[k]? = some sp → subs[k]? = some sub →
        ∃ st₁ st₂, f st₁ (tokenOfBody sp.2).member (andFilter base (tokenOfBody sp.2).filter) =
          .ok (sub, st₂) ∧ Keeps st₂ r.2 := by
  induction spans generalizing st r with
  | nil =>
      cases h
      exact ⟨.refl st, [], rfl, rfl, fun k sp sub hsp => by simp at hsp⟩
  | cons sp spans ih =>
      obtain ⟨⟨sub, st₁⟩, hsub, h⟩ := Fallible.bind_eq_ok.mp h
      obtain ⟨⟨rest, st₂⟩, hrest, heq⟩ := Fallible.bind_eq_ok.mp h
      cases heq
      obtain ⟨hkept, subs, hlen, hrender, hsubs⟩ := ih hrest
      refine ⟨(hkeeps _ _ _ _ hsub).trans hkept, sub :: subs, by simp [hlen], ?_, ?_⟩
      · show MetricExpr.derivedToken (String.ofList sp.1) sub rest = _
        rw [show rest = _ from hrender]
        rfl
      · intro k sp' sub' hsp' hsub'
        cases k with
        | zero =>
            obtain rfl : sp = sp' := by simpa using hsp'
            obtain rfl : sub = sub' := by simpa using hsub'
            exact ⟨st, st₁, hsub, hkept⟩
        | succ k => exact hsubs k sp' sub' (by simpa using hsp') (by simpa using hsub')

/-- Expanding a metric keeps the leaves. -/
lemma metricBody_keeps {ctx : ExpandCtx} {metric : Metric} {name : String}
    (hkeeps : ∀ st member filters r, f st member filters = .ok r → Keeps st r.2)
    {st : Expansion} {r : MetricExpr × Expansion}
    (h : Config.metricBody ctx metric name base f st = .ok r) : Keeps st r.2 := by
  unfold Config.metricBody at h
  split at h
  · obtain ⟨⟨n, st₁⟩, hn, h⟩ := Fallible.bind_eq_ok.mp h
    obtain ⟨⟨d, st₂⟩, hd, heq⟩ := Fallible.bind_eq_ok.mp h
    cases heq
    exact (hkeeps _ _ _ (n, st₁) hn).trans (hkeeps st₁ _ _ (d, st₂) hd)
  · split at h
    · cases h
    · exact (derivedChain_inv hkeeps h).1
  · obtain ⟨⟨col, st₁⟩, hl, h⟩ := Fallible.bind_eq_ok.mp h
    obtain ⟨_, _, heq⟩ := Fallible.bind_eq_ok.mp h
    cases heq
    exact (leaf_keeps hl).1
  · obtain ⟨⟨col, st₁⟩, hl, h⟩ := Fallible.bind_eq_ok.mp h
    obtain ⟨_, _, heq⟩ := Fallible.bind_eq_ok.mp h
    cases heq
    exact (leaf_keeps hl).1
  · obtain ⟨_, _, h⟩ := Fallible.bind_eq_ok.mp h
    obtain ⟨⟨col, st₁⟩, hl, heq⟩ := Fallible.bind_eq_ok.mp h
    cases heq
    exact (leaf_keeps hl).1

end

/-- What a successful expansion of a metric ran. -/
lemma metricExpr_inv {ctx : ExpandCtx} {fuel : ℕ} {st : Expansion} {name : String}
    {inherited visiting : List String} {r : MetricExpr × Expansion}
    (h : metricExpr ctx fuel st name inherited visiting = .ok r) :
    ∃ k metric, fuel = k + 1 ∧ ctx.cat.metric name = some metric ∧ name ∉ visiting ∧
      Config.metricBody ctx metric name (andFilter inherited metric.filter)
        (Config.memberExpr ctx k (visiting ++ [name])) st = .ok r := by
  cases fuel with
  | zero => cases h
  | succ k =>
      cases hmetric : ctx.cat.metric name with
      | none =>
          rw [metricExpr, hmetric] at h
          cases h
      | some metric =>
          by_cases hvisiting : name ∈ visiting
          · rw [metricExpr, hmetric] at h
            simp [hvisiting] at h
          · rw [Config.metricExpr_succ hmetric hvisiting] at h
            exact ⟨k, metric, rfl, rfl, hvisiting, h⟩

lemma metricExpr_keeps {ctx : ExpandCtx} {fuel : ℕ} {st : Expansion} {name : String}
    {inherited visiting : List String} {r : MetricExpr × Expansion}
    (h : metricExpr ctx fuel st name inherited visiting = .ok r) : Keeps st r.2 := by
  induction fuel generalizing st name inherited visiting r with
  | zero => cases h
  | succ fuel ih =>
      obtain ⟨k, metric, hk, -, -, hbody⟩ := metricExpr_inv h
      obtain rfl : fuel = k := by omega
      refine metricBody_keeps (fun st member filters r hr => ?_) hbody
      unfold Config.memberExpr at hr
      split_ifs at hr
      · exact ih hr
      · obtain ⟨⟨col, st₁⟩, hl, heq⟩ := Fallible.bind_eq_ok.mp hr
        cases heq
        exact (leaf_keeps hl).1

lemma memberExpr_keeps {ctx : ExpandCtx} {fuel : ℕ} {visiting : List String} {st : Expansion}
    {member : String} {filters : List String} {r : MetricExpr × Expansion}
    (h : Config.memberExpr ctx fuel visiting st member filters = .ok r) : Keeps st r.2 := by
  unfold Config.memberExpr at h
  split_ifs at h
  · exact metricExpr_keeps h
  · obtain ⟨⟨col, st₁⟩, hl, heq⟩ := Fallible.bind_eq_ok.mp h
    cases heq
    exact (leaf_keeps hl).1

lemma memberExpr_inv {ctx : ExpandCtx} {fuel : ℕ} {visiting : List String} {st : Expansion}
    {name : String} {metric : Metric} {filters : List String} {r : MetricExpr × Expansion}
    (dotFree : isMetric name = true) (hmetric : ctx.cat.metric name = some metric)
    (h : Config.memberExpr ctx fuel visiting st name filters = .ok r) :
    ∃ k, Config.metricBody ctx metric name (andFilter filters metric.filter)
      (Config.memberExpr ctx k (visiting ++ [name])) st = .ok r := by
  unfold Config.memberExpr at h
  rw [if_pos dotFree] at h
  obtain ⟨k, metric', -, hmetric', -, hbody⟩ := metricExpr_inv h
  obtain rfl : metric = metric' := by simpa [hmetric] using hmetric'
  exact ⟨k, hbody⟩

/-! ## Columns -/

/-- The column of a reference. -/
def columnIn (st : Expansion) (r : Reference) : String := (st.leafIndex.lookup r.key).getD ""

lemma columnIn_leaf {cat : SemanticCatalog} {st st' st'' : Expansion} {member col : String}
    {filters : List String} (h : leaf cat st member filters = .ok (col, st'))
    (hkeeps : Keeps st' st'') : columnIn st'' (.of member filters) = col := by
  unfold columnIn
  rw [key_of, hkeeps _ _ (leaf_keeps h).2]
  rfl

lemma outer_aggColumn (col : String) : (aggColumn col).Outer := .inl rfl

/-- The columns of a window are on the time axis. -/
lemma windowAxis_outer {ctx : ExpandCtx} {name : String} {timeCol : Column}
    {partition : List PartTerm} (h : windowAxis ctx name = .ok (timeCol, partition)) :
    timeCol.Outer ∧ ∀ t ∈ partition, t.col.Outer := by
  unfold windowAxis at h
  split at h
  · cases h
    refine ⟨.inr rfl, fun t ht => ?_⟩
    obtain ⟨d, -, rfl⟩ := List.mem_map.mp ht
    exact .inr rfl
  · cases h
  · cases h

lemma partitionTerms_outer {window : CumulativeWindow} {partition : List PartTerm}
    {timeCol : Column} (htime : timeCol.Outer) (h : ∀ t ∈ partition, t.col.Outer) :
    ∀ t ∈ partitionTerms window partition timeCol, t.col.Outer := by
  intro t ht
  unfold partitionTerms at ht
  split at ht
  · rcases List.mem_append.mp ht with ht | ht
    · exact h t ht
    · rw [List.mem_singleton.mp ht]
      exact htime
  · exact h t ht

/-! ## The metrics that a metric inlines -/

/-- The metrics whose expressions are written into the expression of a metric. -/
def inlined (m : Metric) : List String :=
  match m.kind with
  | .ratio num den => [num.member, den.member].filter isMetric
  | .derived expr =>
      ((scanTokens [] none expr.toList).1.map fun sp => (tokenOfBody sp.2).member).filter isMetric
  | _ => []

def Inlines (cat : SemanticCatalog) (name name' : String) : Prop :=
  ∃ metric, cat.metric name = some metric ∧ name' ∈ inlined metric

/-- The metric is written into the other one, at any depth. -/
def Reaches (cat : SemanticCatalog) : String → String → Prop := Relation.ReflTransGen (Inlines cat)

lemma dotFree_of_inlined {metric : Metric} {name : String} (h : name ∈ inlined metric) :
    isMetric name = true := by
  unfold inlined at h
  split at h
  · exact (List.mem_filter.mp h).2
  · exact (List.mem_filter.mp h).2
  · cases h

lemma reaches_of_inlined {cat : SemanticCatalog} {name name' : String} {metric : Metric}
    (hmetric : cat.metric name = some metric) (h : name' ∈ inlined metric) :
    Reaches cat name name' :=
  Relation.ReflTransGen.single ⟨metric, hmetric, h⟩

section

variable {L P : Type} [Preorder L] {G : Grammar Token L P}

/-! ## Metrics have their tree -/

/-- The metric's own derived expression, when it is one of the language, does not end in a line
comment. -/
def Clean (F : Forms G) (ctx : ExpandCtx) (name : String) : Prop :=
  ∀ metric expr, ctx.cat.metric name = some metric → metric.kind = .derived expr →
    (∃ filters t, RefTree F ctx name filters t) → endsInComment expr = false

/-- The column of a reference in the outer statement. -/
def columnTree (F : Forms G) (st : Expansion) (r : Reference) : Tree P Empty :=
  .leaf (F.column (aggColumn (columnIn st r)))

/-- A text that has tokens ends outside of everything or in a line comment. -/
lemma closed_of_finish {s : LexState} (h : s.finish.isSome = true) (hs : s ≠ .lineComment) :
    s.closed = true := by
  cases s with
  | lineComment => exact absurd rfl hs
  | str text => cases h
  | ident text => cases h
  | blockComment => cases h
  | blockStar => cases h
  | _ => rfl

lemma closed_tail {tail : List Char} {befores : List (List Char)} {i : ℕ}
    {ts : List (Token ⊕ ℕ)} (hread : readSpans i befores tail = some ts)
    (hs : (scanChars .ground tail).2 ≠ .lineComment) :
    (scanChars .ground tail).2.closed = true := by
  induction befores generalizing i ts with
  | nil =>
      obtain ⟨us, hus, -⟩ := Option.map_eq_some_iff.mp hread
      refine closed_of_finish ?_ hs
      unfold lex at hus
      rw [String.toList_ofList] at hus
      obtain ⟨last, hlast, -⟩ := Option.map_eq_some_iff.mp hus
      rw [hlast]
      rfl
  | cons before rest ih =>
      unfold readSpans at hread
      split_ifs at hread
      obtain ⟨tb, -, hread⟩ := Option.bind_eq_some_iff.mp hread
      obtain ⟨us, hus, -⟩ := Option.map_eq_some_iff.mp hread
      exact ih hus

/-- The parts of a derived expression that is read. -/
lemma readDerived_inv {expr : String} {ts : List (Token ⊕ ℕ)} (h : readDerived expr = some ts) :
    ∃ tail, (scanTokens [] none expr.toList).2 = .closed tail ∧
      readSpans 0 ((scanTokens [] none expr.toList).1.map Prod.fst) tail = some ts ∧
      endsInComment expr = decide ((scanChars .ground tail).2 = .lineComment) := by
  unfold readDerived at h
  unfold endsInComment
  split at h
  · next tail htail => exact ⟨tail, htail, h, rfl⟩
  · cases h

/-- **Rendered members have their tree**, with the columns of their leaves for the measures. -/
theorem memberExpr_tree {F : Forms G} {ctx : ExpandCtx}
    (hdims : ctx.dimsAlias = aggAlias ∨ ctx.dimsAlias = axisAlias) {member : String}
    {filters : List String} {T : Tree P Reference} (hT : RefTree F ctx member filters T)
    (hclean : isMetric member = true → ∀ d, Reaches ctx.cat member d → Clean F ctx d) {fuel : ℕ} {visiting : List String}
    {st : Expansion} {r : MetricExpr × Expansion}
    (h : Config.memberExpr ctx fuel visiting st member filters = .ok r) :
    ∃ t, Prints F r.1 t ∧ ∀ st', Keeps r.2 st' →
      t.strip = (T.subst (columnTree F st')).strip := by
  induction hT generalizing fuel visiting st r with
  | @measure member filters plain =>
      unfold Config.memberExpr at h
      simp only [plain, Bool.false_eq_true, if_false] at h
      obtain ⟨⟨col, st₁⟩, hl, heq⟩ := Fallible.bind_eq_ok.mp h
      cases heq
      refine ⟨_, Prints.column (outer_aggColumn col), fun st' hkeeps => ?_⟩
      simp only [Tree.subst, columnTree, columnIn_leaf hl hkeeps]
  | @ratio name inherited metric num den n d dotFree metric_eq kind_eq num_tree den_tree ihn ihd =>
      obtain ⟨k, hbody⟩ := memberExpr_inv dotFree metric_eq h
      unfold Config.metricBody at hbody
      simp only [kind_eq] at hbody
      obtain ⟨⟨en, st₁⟩, hn, hbody⟩ := Fallible.bind_eq_ok.mp hbody
      obtain ⟨⟨ed, st₂⟩, hd, heq⟩ := Fallible.bind_eq_ok.mp hbody
      cases heq
      have hdown : ∀ sub ∈ [num.member, den.member], isMetric sub = true →
          ∀ x, Reaches ctx.cat sub x → Clean F ctx x := by
        intro sub hsub hm x hx
        refine hclean dotFree x ((reaches_of_inlined metric_eq ?_).trans hx)
        simp only [inlined, kind_eq]
        exact List.mem_filter.mpr ⟨hsub, hm⟩
      obtain ⟨tn, hprintsN, hstripN⟩ :=
        ihn (hdown _ (by simp)) hn
      obtain ⟨td, hprintsD, hstripD⟩ := ihd (hdown _ (by simp)) hd
      refine ⟨_, hprintsN.ratio hprintsD, fun st' hkeeps => ?_⟩
      rw [F.strip_ratio, F.subst_ratio, F.strip_ratio, hstripD st' hkeeps,
        hstripN st' ((memberExpr_keeps hd).trans hkeeps)]
  | @derived name inherited metric expr ts D sub dotFree metric_eq kind_eq reads parses subs ih =>
      obtain ⟨k, hbody⟩ := memberExpr_inv dotFree metric_eq h
      obtain ⟨tail, htail, hread, hends⟩ := readDerived_inv reads
      unfold Config.metricBody at hbody
      simp only [kind_eq, htail] at hbody
      split at hbody
      · cases hbody
      · obtain ⟨-, es, hlen, hrender, hes⟩ :=
          derivedChain_inv (fun _ _ _ _ hr => memberExpr_keeps hr) hbody
        have hself := hclean dotFree name .refl metric expr metric_eq kind_eq
          ⟨_, _, .derived dotFree metric_eq kind_eq reads parses subs⟩
        rw [hends, decide_eq_false_iff_not] at hself
        -- every reference has its tree
        have hsubs : ∀ i : ℕ, ∃ t : Tree P Empty, ∀ e, es[i]? = some e →
            Prints F e t ∧ ∀ st', Keeps r.2 st' →
              t.strip = ((sub i).subst (columnTree F st')).strip := by
          intro i
          cases he : es[i]? with
          | none => exact ⟨columnTree F st (.of "" []), fun _ h => by cases h⟩
          | some e =>
              have hlt : i < (scanTokens [] none expr.toList).1.length := by
                rw [← hlen]
                exact (List.getElem?_eq_some_iff.mp he).1
              have hsp := List.getElem?_eq_getElem hlt
              obtain ⟨st₁, st₂, hrun, hkept⟩ := hes i _ e hsp he
              have hdown : isMetric (tokenOfBody (scanTokens [] none expr.toList).1[i].2).member = true →
                  ∀ x, Reaches ctx.cat (tokenOfBody (scanTokens [] none expr.toList).1[i].2).member x →
                    Clean F ctx x := by
                intro hm x hx
                refine hclean dotFree x ((reaches_of_inlined metric_eq ?_).trans hx)
                simp only [inlined, kind_eq]
                exact List.mem_filter.mpr ⟨List.mem_map.mpr ⟨_, List.getElem_mem hlt, rfl⟩, hm⟩
              obtain ⟨t, hprints, hstrip⟩ := ih i _ hsp hdown hrun
              refine ⟨t, fun e' he' => ?_⟩
              cases he'
              exact ⟨hprints, fun st' hkeeps => hstrip st' (hkept.trans hkeeps)⟩
        choose t ht using hsubs
        have hprints := Prints.chain (F := F) (t := t) hread parses (by simpa using hlen)
          (closed_tail hread hself) fun i e he => (ht i e he).1
        refine ⟨_, by rw [hrender]; exact hprints, fun st' hkeeps => ?_⟩
        rw [Tree.subst_subst, Tree.strip_subst, Tree.strip_subst]
        refine Tree.subst_congr fun i hi => ?_
        rw [Tree.holes_strip] at hi
        have hmem := G.mem_yield_of_mem_holes hi
        rw [parses.2] at hmem
        have hlt := (mem_readSpans hread hmem).2
        rw [List.length_map, Nat.zero_add, ← hlen] at hlt
        exact (ht i _ (List.getElem?_eq_getElem hlt)).2 st' hkeeps
  | @cumulative name inherited metric measure window agg timeCol partition dotFree metric_eq kind_eq
      axis_eq =>
      obtain ⟨k, hbody⟩ := memberExpr_inv dotFree metric_eq h
      unfold Config.metricBody at hbody
      simp only [kind_eq, axis_eq] at hbody
      obtain ⟨⟨col, st₁⟩, hl, heq⟩ := Fallible.bind_eq_ok.mp hbody
      cases heq
      obtain ⟨htime, hpartition⟩ := windowAxis_outer axis_eq
      refine ⟨_, Prints.cumulative (outer_aggColumn col)
        ⟨partitionTerms_outer htime hpartition, htime⟩, fun st' hkeeps => ?_⟩
      rw [F.subst_cumulative]
      simp only [Tree.subst, columnTree, columnIn_leaf hl hkeeps]
      rfl
  | @offset name inherited metric measure periods output timeCol partition dotFree metric_eq kind_eq
      axis_eq =>
      obtain ⟨k, hbody⟩ := memberExpr_inv dotFree metric_eq h
      unfold Config.metricBody at hbody
      simp only [kind_eq, axis_eq] at hbody
      obtain ⟨⟨col, st₁⟩, hl, heq⟩ := Fallible.bind_eq_ok.mp hbody
      cases heq
      obtain ⟨htime, hpartition⟩ := windowAxis_outer axis_eq
      refine ⟨_, Prints.offset (outer_aggColumn col) rfl ⟨hpartition, htime⟩, fun st' hkeeps => ?_⟩
      rw [F.subst_offset]
      simp only [Tree.subst, columnTree, columnIn_leaf hl hkeeps]
  | @share name inherited metric measure dims agg dotFree metric_eq kind_eq =>
      obtain ⟨k, hbody⟩ := memberExpr_inv dotFree metric_eq h
      unfold Config.metricBody at hbody
      simp only [kind_eq] at hbody
      obtain ⟨_, -, hbody⟩ := Fallible.bind_eq_ok.mp hbody
      obtain ⟨⟨col, st₁⟩, hl, heq⟩ := Fallible.bind_eq_ok.mp hbody
      cases heq
      refine ⟨_, Prints.share (outer_aggColumn col) (fun t ht => ?_), fun st' hkeeps => ?_⟩
      · obtain ⟨d, -, rfl⟩ := List.mem_map.mp ht
        exact hdims
      · rw [F.subst_share]
        simp only [Tree.subst, columnTree, columnIn_leaf hl hkeeps]

/-! ## Every metric of a query -/

/-- The metric is asked for by the query or written into one that is. -/
def Reached (cat : SemanticCatalog) (q : SemanticQuery) (name : String) : Prop :=
  ∃ m ∈ q.measures, isMetric m = true ∧ Reaches cat m name

lemma Reached.dotFree {cat : SemanticCatalog} {q : SemanticQuery} {name : String}
    (h : Reached cat q name) : isMetric name = true := by
  obtain ⟨m, -, hm, hreach⟩ := h
  cases hreach with
  | refl => exact hm
  | tail _ hlast =>
      obtain ⟨metric, -, hin⟩ := hlast
      exact dotFree_of_inlined hin

lemma Reached.step {cat : SemanticCatalog} {q : SemanticQuery} {name name' : String}
    {metric : Metric} (h : Reached cat q name) (hmetric : cat.metric name = some metric)
    (hin : name' ∈ inlined metric) : Reached cat q name' := by
  obtain ⟨m, hm, hdot, hreach⟩ := h
  exact ⟨m, hm, hdot, hreach.trans (reaches_of_inlined hmetric hin)⟩

/-- An expansion runs the expansion of what it writes in. -/
lemma metricBody_runs {ctx : ExpandCtx} {metric : Metric} {name : String} {base : List String}
    {f : Expansion → String → List String → Except SemanticError (MetricExpr × Expansion)}
    (hkeeps : ∀ st member filters r, f st member filters = .ok r → Keeps st r.2)
    {st : Expansion} {r : MetricExpr × Expansion}
    (h : Config.metricBody ctx metric name base f st = .ok r) {sub : String}
    (hsub : sub ∈ inlined metric) : ∃ st₁ filters r₁, f st₁ sub filters = .ok r₁ := by
  unfold Config.metricBody at h
  unfold inlined at hsub
  split at hsub
  · next num den hkind =>
      simp only [hkind] at h
      obtain ⟨⟨n, st₁⟩, hn, h⟩ := Fallible.bind_eq_ok.mp h
      obtain ⟨⟨d, st₂⟩, hd, heq⟩ := Fallible.bind_eq_ok.mp h
      have hmem := (List.mem_filter.mp hsub).1
      simp only [List.mem_cons, List.not_mem_nil, or_false] at hmem
      rcases hmem with rfl | rfl
      · exact ⟨_, _, _, hn⟩
      · exact ⟨_, _, _, hd⟩
  · next expr hkind =>
      simp only [hkind] at h
      split at h
      · cases h
      · obtain ⟨-, es, hlen, -, hes⟩ := derivedChain_inv hkeeps h
        obtain ⟨sp, hsp, rfl⟩ := List.mem_map.mp (List.mem_filter.mp hsub).1
        obtain ⟨i, hi⟩ := List.mem_iff_getElem?.mp hsp
        have hlt : i < es.length := by
          rw [hlen]
          exact (List.getElem?_eq_some_iff.mp hi).1
        obtain ⟨st₁, st₂, hrun, -⟩ := hes i sp _ hi (List.getElem?_eq_getElem hlt)
        exact ⟨st₁, _, _, hrun⟩
  · cases hsub

/-- The metric's expression is rendered at some point. -/
def Runs (ctx : ExpandCtx) (name : String) : Prop :=
  ∃ fuel st inherited visiting r, metricExpr ctx fuel st name inherited visiting = .ok r

lemma runs_of_reaches {ctx : ExpandCtx} {name name' : String} (h : Runs ctx name)
    (hreach : Reaches ctx.cat name name') : Runs ctx name' := by
  induction hreach with
  | refl => exact h
  | @tail mid last _ hlast ih =>
      obtain ⟨metric, hmetric, hin⟩ := hlast
      obtain ⟨fuel, st, inherited, visiting, r, hrun⟩ := ih
      obtain ⟨k, metric', -, hmetric', -, hbody⟩ := metricExpr_inv hrun
      obtain rfl : metric = metric' := by simpa [hmetric] using hmetric'
      obtain ⟨st₁, filters, r₁, hsub⟩ :=
        metricBody_runs (fun _ _ _ _ hr => memberExpr_keeps hr) hbody hin
      unfold Config.memberExpr at hsub
      rw [if_pos (dotFree_of_inlined hin)] at hsub
      exact ⟨_, _, _, _, _, hsub⟩

lemma projectMeasures_runs {ctx : ExpandCtx} {ms : List String} {st : Expansion}
    {r : List (MetricExpr × String) × Expansion} (h : projectMeasures ctx ms st = .ok r)
    {m : String} (hm : m ∈ ms) (hdot : isMetric m = true) : Runs ctx m := by
  induction ms generalizing st r with
  | nil => cases hm
  | cons m' ms ih =>
      obtain ⟨⟨item, st₁⟩, hitem, h⟩ := Fallible.bind_eq_ok.mp h
      obtain ⟨⟨items, st₂⟩, hitems, -⟩ := Fallible.bind_eq_ok.mp h
      rcases List.mem_cons.mp hm with rfl | hm
      · unfold projectMeasure at hitem
        rw [if_pos hdot] at hitem
        obtain ⟨r₁, hr₁, -⟩ := Fallible.bind_eq_ok.mp hitem
        exact ⟨_, _, _, _, r₁, hr₁⟩
      · exact ih hitems hm

/-- The metric's rendered expression has the tree of its references, up to parentheses, with the
columns of their leaves for the measures. -/
def Rendered (F : Forms G) (ctx : ExpandCtx) (name : String) : Prop :=
  ∀ fuel st inherited visiting r, metricExpr ctx fuel st name inherited visiting = .ok r →
    ∀ T, RefTree F ctx name inherited T →
      ∃ t, G.HasTree (G.words t) t ∧ Spells r.1.render (G.words t) ∧
        ∀ st', Keeps r.2 st' → t.strip = (T.subst (columnTree F st')).strip

/-- Where the references have their tree, a comment at the end stays open. -/
lemma clean_of_rendered {F : Forms G} {ctx : ExpandCtx} {q : SemanticQuery}
    (hrendered : ∀ name, Reached ctx.cat q name → Rendered F ctx name) {name : String}
    (hname : Reached ctx.cat q name) (hruns : Runs ctx name) : Clean F ctx name := by
  rintro metric expr hmetric hkind ⟨filters, T₀, hT₀⟩
  obtain ⟨fuel, st, inherited, visiting, r, hrun⟩ := hruns
  obtain ⟨T, hT⟩ := hT₀.refilter inherited
  obtain ⟨t, -, hspells, -⟩ := hrendered name hname _ _ _ _ _ hrun T hT
  obtain ⟨k, metric', -, hmetric', -, hbody⟩ := metricExpr_inv hrun
  obtain rfl : metric = metric' := by simpa [hmetric] using hmetric'
  cases hT with
  | measure plain =>
      rw [hname.dotFree] at plain
      cases plain
  | @derived _ _ metric' expr' ts D sub dotFree metric_eq kind_eq reads parses subs =>
      obtain rfl : metric = metric' := by simpa [hmetric] using metric_eq
      obtain rfl : expr = expr' := by simpa [hkind] using kind_eq
      obtain ⟨tail, htail, hread, hends⟩ := readDerived_inv reads
      unfold Config.metricBody at hbody
      simp only [hkind, htail] at hbody
      split at hbody
      · cases hbody
      · obtain ⟨-, es, hlen, hrender, hes⟩ :=
          derivedChain_inv (fun _ _ _ _ hr => memberExpr_keeps hr) hbody
        have hsubs : ∀ i : ℕ, ∃ ts : List Token, ∀ e, es[i]? = some e → Spells e.render ts := by
          intro i
          cases he : es[i]? with
          | none => exact ⟨[], fun _ h => by cases h⟩
          | some e =>
              have hlt : i < (scanTokens [] none expr.toList).1.length := by
                rw [← hlen]
                exact (List.getElem?_eq_some_iff.mp he).1
              have hsp := List.getElem?_eq_getElem hlt
              obtain ⟨st₁, st₂, hsub, -⟩ := hes i _ e hsp he
              unfold Config.memberExpr at hsub
              split_ifs at hsub with hdot
              · have hin : (tokenOfBody (scanTokens [] none expr.toList).1[i].2).member ∈
                    inlined metric := by
                  simp only [inlined, hkind]
                  exact List.mem_filter.mpr ⟨List.mem_map.mpr ⟨_, List.getElem_mem hlt, rfl⟩, hdot⟩
                obtain ⟨t', -, hspells', -⟩ := hrendered _ (hname.step hmetric hin) _ _ _ _ _ hsub _
                  (subs i _ hsp)
                exact ⟨_, fun e' he' => by cases he'; exact hspells'⟩
              · obtain ⟨⟨col, st₃⟩, -, heq⟩ := Fallible.bind_eq_ok.mp hsub
                cases heq
                exact ⟨_, fun e' he' => by cases he'; exact (outer_aggColumn col).spells⟩
        choose w hw using hsubs
        obtain ⟨-, hstate⟩ := chain_scans (w := w) hread (by simpa using hlen) fun i e he => by
          rw [Nat.zero_add]
          exact hw i e he
        have hclosed : (scanChars .ground tail).2.closed = true := by
          rw [← hstate, ← hrender]
          exact hspells.closed
        rw [hends, decide_eq_false_iff_not]
        intro hcomment
        rw [hcomment] at hclosed
        cases hclosed
  | ratio _ metric_eq kind_eq =>
      rw [hmetric] at metric_eq
      cases metric_eq
      rw [hkind] at kind_eq
      cases kind_eq
  | cumulative _ metric_eq kind_eq =>
      rw [hmetric] at metric_eq
      cases metric_eq
      rw [hkind] at kind_eq
      cases kind_eq
  | offset _ metric_eq kind_eq =>
      rw [hmetric] at metric_eq
      cases metric_eq
      rw [hkind] at kind_eq
      cases kind_eq
  | share _ metric_eq kind_eq =>
      rw [hmetric] at metric_eq
      cases metric_eq
      rw [hkind] at kind_eq
      cases kind_eq

/-- The metrics of a query have their trees exactly when none of their derived expressions ends in
a line comment. -/
lemma rendered_iff {F : Forms G} {ctx : ExpandCtx}
    (hdims : ctx.dimsAlias = aggAlias ∨ ctx.dimsAlias = axisAlias) {q : SemanticQuery}
    {st : Expansion} {r : List (MetricExpr × String) × Expansion}
    (h : projectMeasures ctx q.measures st = .ok r) :
    (∀ name, Reached ctx.cat q name → Rendered F ctx name) ↔
      ∀ name, Reached ctx.cat q name → Clean F ctx name := by
  constructor
  · intro hrendered name hname
    obtain ⟨m, hm, hdot, hreach⟩ := id hname
    exact clean_of_rendered hrendered hname
      (runs_of_reaches (projectMeasures_runs h hm hdot) hreach)
  · intro hclean name hname fuel st inherited visiting r hrun T hT
    have hmember : Config.memberExpr ctx fuel visiting st name inherited = .ok r := by
      unfold Config.memberExpr
      rw [if_pos hname.dotFree]
      exact hrun
    obtain ⟨t, hprints, hstrip⟩ := memberExpr_tree hdims hT (fun _ d hd => by
      obtain ⟨m, hm, hdot, hreach⟩ := id hname
      exact hclean d ⟨m, hm, hdot, hreach.trans hd⟩) hmember
    exact ⟨t, .of_fits hprints.fits, hprints.spells, hstrip⟩

end

end Semantic
end Pawrly
