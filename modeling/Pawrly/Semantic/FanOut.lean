import Pawrly.Semantic.Scans

/-!
# Fan-out safety

An aggregate over a measure of model `M` counts every row of `M` once only if the join tree
under it, walked outward from `M`, has no `one_to_many` edge.

The measures a query *selects* are always safe (`selected_safe`): their model is the root of
the scan, and `check_lookup` refuses a mentioned model behind a `one_to_many` edge.  A measure
that enters only through a filter is aggregated in the `HAVING` of a scan rooted elsewhere, and
no check looks at the edges between the root and its model.  `fanOutSafe_iff` says which edges
would have to be absent.
-/

namespace Pawrly
namespace Semantic

open Sql

/-! ## The statement -/

/-- The `SELECT` evaluates an aggregate of a measure of model `M`, as an item or in the
`HAVING` condition of one of the query's filters. -/
def Aggregates (cat : SemanticCatalog) (q : SemanticQuery) (s : Select) (M : String) : Prop :=
  (∃ agg arg filters member, (SqlExpr.aggregate agg arg filters, member) ∈ s.items ∧
      memberModel member = .ok M) ∨
    ∃ f ∈ q.filters, ∃ joined c, filterCond cat q.timeZone joined f = .ok (.inr c) ∧
      c ∈ s.havings ∧ memberModel f.member = .ok M

/-- No edge of the join tree, walked outward from `M`, is `one_to_many`. -/
def OutwardSafe (f : FromClause) (M : String) : Prop :=
  ∀ k, RootedTree.Outward (joinEdge f) RelationshipKind.invert M k → k ≠ .oneToMany

/-- Every aggregate is evaluated over a join tree that does not multiply its model's rows. -/
def FanOutSafe (cat : SemanticCatalog) (q : SemanticQuery) (stmt : Stmt) : Prop :=
  ∀ s ∈ stmt.selects, ∀ M, Aggregates cat q s M → OutwardSafe s.source M

/-! ## The edges of a scan -/

/-- The edges on the join paths from the root to the mentioned models. -/
def PathEdge (cat : SemanticCatalog) (sc : Scan) (p c : String) (k : RelationshipKind) : Prop :=
  (∃ m ∈ sc.mentioned, OnPath cat sc.root m c) ∧
    ∃ n, (reachability cat sc.root).lookup c = some n ∧ n.parent = some p ∧ n.kind = some k

lemma PathEdge.parent {cat : SemanticCatalog} {sc : Scan} {p c : String} {k : RelationshipKind}
    (h : PathEdge cat sc p c k) : Parent cat sc.root c p := by
  obtain ⟨_, n, hn, hp, _⟩ := h
  exact ⟨n, hn, hp⟩

lemma PathEdge.ne_root {cat : SemanticCatalog} {sc : Scan} {p c : String} {k : RelationshipKind}
    (h : PathEdge cat sc p c k) : c ≠ sc.root := by
  rintro rfl
  obtain ⟨_, n, hn, hp, _⟩ := h
  obtain ⟨nr, hnr, _, _, hnone⟩ := (reachability_inv cat sc.root).rootNode
  rw [hn] at hnr
  cases hnr
  rw [hp] at hnone
  cases hnone

/-- The joins of a scan's clause are its path edges. -/
lemma Scanned.joinEdge_iff {ord : SetOrder} {cat : SemanticCatalog} {q : SemanticQuery}
    {sc : Scan} {s : Select} (h : Scanned ord cat q sc s) {p c : String}
    {k : RelationshipKind} : joinEdge s.source p c k ↔ PathEdge cat sc p c k := by
  obtain ⟨needed, hneed, hsource⟩ := h.source
  constructor
  · intro he
    obtain ⟨hc, n, hn, hk, hp⟩ := joinEdge_spec hsource he
    obtain ⟨_, n', p', hn', hp', _⟩ := needed_parent hneed hc
    rw [hn] at hn'
    cases hn'
    rw [hp', Option.getD_some] at hp
    subst hp
    exact ⟨((mem_neededModels_iff hneed).mp hc).2, n, hn, hp', hk⟩
  · intro he
    have hne := he.ne_root
    obtain ⟨hpath, n, hn, hp, hk⟩ := he
    have hc : c ∈ needed := (mem_neededModels_iff hneed).mpr ⟨hne, hpath⟩
    have hmodel : c ∈ s.source.models := by
      rw [h.mem_models]
      by_cases hm : c ∈ sc.mentioned
      · exact .inl hm
      · exact .inr ⟨hne, hm, hpath⟩
    have hroot : s.source.root = sc.root := (renderFrom_joins hsource).1
    obtain ⟨_, _, ⟨_, hjs⟩ | ⟨_, hnil⟩⟩ := renderFrom_joins hsource
    · obtain ⟨j, hj, hmj⟩ := Fallible.exists_of_mapM hjs hc
      obtain ⟨hjm, n', hn', hk', _, hjp⟩ := renderJoin_spec hmj
      rw [hn] at hn'
      cases hn'
      rw [hk] at hk'
      cases hk'
      rw [hp, Option.getD_some] at hjp
      exact ⟨j, hj, hjp, hjm, rfl⟩
    · rw [FromClause.models, hnil] at hmodel
      rcases List.mem_cons.mp hmodel with hcr | hcr
      · exact absurd (hcr.trans hroot) hne
      · cases hcr

lemma Scanned.isRooted {ord : SetOrder} {cat : SemanticCatalog} {q : SemanticQuery}
    {sc : Scan} {s : Select} (h : Scanned ord cat q sc s) :
    RootedTree.IsRooted (joinEdge s.source) := by
  obtain ⟨needed, hneed, hsource⟩ := h.source
  exact joinEdge_isRooted hneed hsource

/-- The nodes above a mentioned model are those on its join path. -/
lemma Scanned.above_iff {ord : SetOrder} {cat : SemanticCatalog} {q : SemanticQuery}
    {sc : Scan} {s : Select} (h : Scanned ord cat q sc s) {m a : String}
    (hm : ∃ m' ∈ sc.mentioned, OnPath cat sc.root m' m) :
    RootedTree.Above (joinEdge s.source) m a ↔ OnPath cat sc.root m a := by
  constructor
  · intro habove
    induction habove with
    | refl => exact Relation.ReflTransGen.refl
    | tail _ hstep ih =>
        obtain ⟨k, hk⟩ := hstep
        exact Relation.ReflTransGen.tail ih (h.joinEdge_iff.mp hk).parent
  · intro hpath
    induction hpath with
    | refl => exact Relation.ReflTransGen.refl
    | @tail c p hc hparent ih =>
        obtain ⟨n, hn, hp⟩ := hparent
        have hcr : c ≠ sc.root := by
          rintro rfl
          obtain ⟨nr, hnr, _, _, hnone⟩ := (reachability_inv cat sc.root).rootNode
          rw [hn] at hnr
          cases hnr
          rw [hp] at hnone
          cases hnone
        obtain ⟨_, _, e, _, _, _, _, hk, _⟩ := (reachability_inv cat sc.root).child c n hn hcr
        obtain ⟨m', hm', hpath'⟩ := hm
        have hedge : PathEdge cat sc p c e.kind :=
          ⟨⟨m', hm', hpath'.trans hc⟩, n, hn, hp, hk⟩
        exact Relation.ReflTransGen.tail ih ⟨_, h.joinEdge_iff.mpr hedge⟩

/-- Every joined model's path ends at the root. -/
lemma Scanned.above_root {ord : SetOrder} {cat : SemanticCatalog} {q : SemanticQuery}
    {sc : Scan} {s : Select} (h : Scanned ord cat q sc s) {m : String}
    (hm : m ∈ s.source.models) : RootedTree.Above (joinEdge s.source) m sc.root := by
  obtain ⟨needed, hneed, hsource⟩ := h.source
  cases hjoined : sc.joined with
  | true =>
      rw [hjoined] at hsource
      exact Semantic.above_root hneed hsource hm
  | false =>
      obtain ⟨hroot, _, ⟨hc, _⟩ | ⟨_, hnil⟩⟩ := renderFrom_joins hsource
      · rw [hjoined] at hc
        cases hc
      · rw [FromClause.models, hnil, List.map_nil, List.mem_singleton, hroot] at hm
        rw [hm]
        exact Relation.ReflTransGen.refl

/-- The path from `M` is free of `many_to_one` edges (which multiply its rows when walked
upwards) and the rest of the tree of `one_to_many` edges. -/
def PathSafe (cat : SemanticCatalog) (sc : Scan) (M : String) : Prop :=
  ∀ p c k, PathEdge cat sc p c k →
    (OnPath cat sc.root M c → k ≠ .manyToOne) ∧ (¬ OnPath cat sc.root M c → k ≠ .oneToMany)

/-- A scan is safe for a mentioned model exactly when the edges on its path and off it are. -/
lemma Scanned.outwardSafe_iff {ord : SetOrder} {cat : SemanticCatalog} {q : SemanticQuery}
    {sc : Scan} {s : Select} (h : Scanned ord cat q sc s) {M : String}
    (hM : M ∈ sc.mentioned) : OutwardSafe s.source M ↔ PathSafe cat sc M := by
  have hMpath : ∃ m' ∈ sc.mentioned, OnPath cat sc.root m' M :=
    ⟨M, hM, Relation.ReflTransGen.refl⟩
  have hMroot := h.above_root (h.mem_models.mpr (.inl hM))
  have hall : ∀ p c k, joinEdge s.source p c k →
      RootedTree.Above (joinEdge s.source) p sc.root := by
    intro p c k he
    have hc : c ∈ s.source.models := by
      obtain ⟨j, hj, _, rfl, _⟩ := he
      exact List.mem_cons_of_mem _ (List.mem_map_of_mem hj)
    rcases Relation.ReflTransGen.cases_head (h.above_root hc) with hcr | ⟨p', ⟨k', he'⟩, hp'⟩
    · exact absurd hcr (h.joinEdge_iff.mp he).ne_root
    · rw [(h.isRooted.unique_parent he he').1]
      exact hp'
  unfold OutwardSafe PathSafe
  simp only [RootedTree.outward_iff h.isRooted hMroot hall, h.joinEdge_iff, h.above_iff hMpath]
  constructor
  · intro hsafe p c k hedge
    refine ⟨fun hon hk => ?_, fun hoff => hsafe k (.inr ⟨p, c, hedge, hoff⟩)⟩
    exact hsafe k.invert (.inl ⟨p, c, k, hedge, hon, rfl⟩)
      ((RelationshipKind.invert_eq_oneToMany_iff k).mpr hk)
  · rintro hsafe k (⟨p, c, k', hedge, hon, rfl⟩ | ⟨p, c, hedge, hoff⟩)
    · intro hk
      exact (hsafe p c k' hedge).1 hon ((RelationshipKind.invert_eq_oneToMany_iff k').mp hk)
    · exact (hsafe p c k hedge).2 hoff

/-! ## Selected measures -/

/-- The fan-out flag of a model covers its whole path. -/
lemma fansOut_of_onPath {cat : SemanticCatalog} {root m c : String}
    (hpath : OnPath cat root m c) {n nc : Node} (hn : (reachability cat root).lookup m = some n)
    (hf : n.fansOut = false) (hnc : (reachability cat root).lookup c = some nc) :
    nc.fansOut = false := by
  induction hpath using Relation.ReflTransGen.head_induction_on generalizing n with
  | refl =>
      rw [hn] at hnc
      cases hnc
      exact hf
  | @head a p hstep _ ih =>
      obtain ⟨na, hna, hp⟩ := hstep
      rw [hn] at hna
      cases hna
      by_cases har : a = root
      · subst har
        obtain ⟨nr, hnr, _, _, hnone⟩ := (reachability_inv cat a).rootNode
        rw [hn] at hnr
        cases hnr
        rw [hp] at hnone
        cases hnone
      · obtain ⟨p', np, e, hp', hnp, _, _, _, _, _, hfan⟩ :=
          (reachability_inv cat root).child a n hn har
        rw [hp] at hp'
        cases hp'
        rw [hf] at hfan
        exact ih hnp (by simpa using (Bool.or_eq_false_iff.mp hfan.symm).1)

/-- Where no mentioned model is behind a `one_to_many` edge, no path edge is one. -/
lemma pathEdge_ne_oneToMany {cat : SemanticCatalog} {sc : Scan}
    (hchecked : ∀ m ∈ sc.mentioned, m ≠ sc.root → ∃ n,
      (reachability cat sc.root).lookup m = some n ∧ n.fansOut = false)
    {p c : String} {k : RelationshipKind} (h : PathEdge cat sc p c k) : k ≠ .oneToMany := by
  have hcr := h.ne_root
  obtain ⟨⟨m, hm, hpath⟩, n, hn, _, hk⟩ := h
  have hmr : m ≠ sc.root := by
    intro hmr
    rw [hmr] at hpath
    exact hcr (onPath_root hpath)
  obtain ⟨nm, hnm, hfm⟩ := hchecked m hm hmr
  have hf : n.fansOut = false := fansOut_of_onPath hpath hnm hfm hn
  obtain ⟨_, _, e, _, _, _, _, hk', _, _, hfan⟩ :=
    (reachability_inv cat sc.root).child c n hn hcr
  rw [hk] at hk'
  cases hk'
  rw [hf] at hfan
  have he : e.fansOut = false := (Bool.or_eq_false_iff.mp hfan.symm).2
  simpa [Edge.fansOut] using he

/-- The root of a checked scan is safe. -/
lemma pathSafe_root {cat : SemanticCatalog} {sc : Scan}
    (hchecked : ∀ m ∈ sc.mentioned, m ≠ sc.root → ∃ n,
      (reachability cat sc.root).lookup m = some n ∧ n.fansOut = false) :
    PathSafe cat sc sc.root := by
  intro p c k hedge
  refine ⟨fun hon => absurd (onPath_root hon) hedge.ne_root, fun _ => ?_⟩
  exact pathEdge_ne_oneToMany hchecked hedge

lemma resolveDimensionExpr_not_aggregate {model : SemanticModel} {member : String}
    {alias? tz : Option String} {agg : MeasureAgg} {arg : SqlExpr} {filters : List String} :
    resolveDimensionExpr model member alias? tz ≠ .ok (.aggregate agg arg filters) := by
  intro h
  obtain ⟨⟨dimName, grain?⟩, _, h⟩ := Fallible.bind_eq_ok.mp h
  have hqualify : ∀ expr, qualify expr alias? ≠ .aggregate agg arg filters := by
    intro expr
    unfold qualify
    split
    · split_ifs <;> simp
    · simp
  dsimp only at h
  split at h
  · cases h
  · next dim _ =>
      split at h
      · exact hqualify dim.expr (Except.ok.inj h)
      · split at h
        · cases h
        · split_ifs at h
          cases h

/-- An aggregate item of a `SELECT` is one of its measures. -/
lemma aggregate_item {cat : SemanticCatalog} {tz : Option String} {joined : Bool}
    {dims measures : List String} {dimItems measureItems : List (SqlExpr × String)}
    (hdims : dims.mapM (dimensionItem cat tz joined) = .ok dimItems)
    (hmeasures : measures.mapM (measureItem cat joined) = .ok measureItems)
    {agg : MeasureAgg} {arg : SqlExpr} {filters : List String} {member : String}
    (h : (SqlExpr.aggregate agg arg filters, member) ∈ dimItems ++ measureItems) :
    member ∈ measures := by
  rcases List.mem_append.mp h with h | h
  · obtain ⟨d, _, hturn⟩ := Fallible.mem_of_mapM hdims h
    obtain ⟨model, _, hturn⟩ := Fallible.bind_eq_ok.mp hturn
    obtain ⟨expr, hexpr, heq⟩ := Fallible.bind_eq_ok.mp hturn
    cases heq
    exact absurd hexpr resolveDimensionExpr_not_aggregate
  · obtain ⟨m, hm, hturn⟩ := Fallible.mem_of_mapM hmeasures h
    obtain ⟨model, _, hturn⟩ := Fallible.bind_eq_ok.mp hturn
    obtain ⟨expr, _, heq⟩ := Fallible.bind_eq_ok.mp hturn
    cases heq
    exact hm

/-! ## Whole statements -/

/-- Every measure filter of a query with a single scan is on a model whose path is safe. -/
def MeasureFiltersSafe (cat : SemanticCatalog) (q : SemanticQuery) : Prop :=
  ∀ sc, scans cat q = .ok [sc] → ∀ f ∈ q.filters, ∀ model,
    modelForMember cat f.member = .ok model → memberIsMeasure model f.member = true →
    PathSafe cat sc model.name

/-- In a statement of several measure roots every aggregate is safe. -/
lemma CtePlan.fanOutSafe {ord : SetOrder} {cat : SemanticCatalog} {q : SemanticQuery}
    {dimFilters measureFilters : List SemanticFilter} {root : String} {s : Select}
    (p : CtePlan ord cat q dimFilters root s)
    (hfilters : splitFilters cat q = .ok (dimFilters, measureFilters)) {M : String}
    (hM : Aggregates cat q s M) : OutwardSafe s.source M := by
  have hscan := p.scanned hfilters
  rcases hM with ⟨agg, arg, filters, member, hitem, hmodel⟩ | ⟨_, _, _, c, _, hc, _⟩
  · rw [p.items] at hitem
    have hmember := aggregate_item p.dimItems_eq p.measureItems_eq hitem
    have howned := ownedBy_iff.mp (List.mem_filter.mp hmember).2
    rw [hmodel] at howned
    cases howned
    exact (hscan.outwardSafe_iff hscan.root_mem).mpr
      (pathSafe_root fun m hm hne => (consider_checked p.referenced_eq m hm hne).imp fun _ h =>
        ⟨h.1, h.2.2⟩)
  · rw [p.havings] at hc
    cases hc

/-- The measures a single scan selects are safe. -/
lemma SinglePlan.selected_safe {ord : SetOrder} {cat : SemanticCatalog} {q : SemanticQuery}
    {roots : List String} {root : String} {s : Select}
    (p : SinglePlan ord cat q root (!roots.isEmpty) s) (hroots : measureRoots cat q = .ok roots)
    (hlen : roots.length < 2) (hroot : singleRoot q roots = .ok root)
    {agg : MeasureAgg} {arg : SqlExpr} {filters : List String} {member M : String}
    (hitem : (SqlExpr.aggregate agg arg filters, member) ∈ s.items)
    (hmodel : memberModel member = .ok M) : OutwardSafe s.source M := by
  have hscan := p.scanned hroots hroot
  rw [p.items] at hitem
  have hmember := aggregate_item p.dimItems_eq p.measureItems_eq hitem
  have hM : M ∈ roots := (mem_foldlM_pushModel hroots).mpr (.inr ⟨member, hmember, hmodel⟩)
  match roots, hlen, hroot, hM with
  | [r], _, hroot, hM =>
      cases hroot
      rw [List.mem_singleton] at hM
      subst hM
      refine (hscan.outwardSafe_iff hscan.root_mem).mpr (pathSafe_root fun m hm hne => ?_)
      obtain ⟨n, hn, _, hfan⟩ := p.checked m hm hne
      exact ⟨n, hn, hfan rfl⟩

/-- A measure query's statement is safe exactly when its measure filters are. -/
lemma fanOutSafe_compileMeasures {ord : SetOrder} {cat : SemanticCatalog} {q : SemanticQuery}
    {stmt : Stmt} (h : compileMeasures ord cat q = .ok stmt) :
    FanOutSafe cat q stmt ↔ MeasureFiltersSafe cat q := by
  obtain ⟨ss, hss, hscans⟩ := compileMeasures_scans h
  obtain ⟨roots, hroots, ⟨hlen, l, rfl, ⟨p⟩⟩ | ⟨hlen, root, s, hroot, rfl, ⟨p⟩⟩⟩ :=
    compileMeasures_cases h
  · -- several scans: every aggregate is a selected measure of its root
    have hlength : ss.length = roots.length := by
      rw [hscans.length_eq, Stmt.selects, List.length_map,
        ← List.length_map (f := Prod.fst), p.cte_names, List.length_map]
    constructor
    · intro _ sc hsc
      rw [hss] at hsc
      cases hsc
      simp only [List.length_singleton] at hlength
      omega
    · intro _ s hs M hM
      obtain ⟨c, hc, rfl⟩ := List.mem_map.mp hs
      obtain ⟨root, _, _, ⟨cp⟩⟩ := p.cte_plan hc
      exact cp.fanOutSafe p.filters_eq hM
  · have hscan := p.scanned hroots hroot
    have hsc : ss = [p.scan] := by
      have hsingle := p.scans_eq hroots hlen hroot
      rw [hss] at hsingle
      exact Except.ok.inj hsingle
    have hmentioned : ∀ f ∈ q.filters, ∀ M, memberModel f.member = .ok M →
        M ∈ p.referenced := by
      intro f hf M hM
      refine (mem_foldlM_pushModel p.referenced_eq).mpr (.inr ⟨f.member, ?_, hM⟩)
      exact List.mem_append_right _ (List.mem_map_of_mem hf)
    constructor
    · intro hsafe sc hsc' f hf model hmodel hmeasure
      rw [hss, hsc] at hsc'
      cases hsc'
      obtain ⟨hname, _⟩ := modelForMember_name hmodel
      have hcond : ∃ c, filterCond cat q.timeZone (decide (1 < p.referenced.length)) f =
          .ok (.inr c) ∧ c ∈ s.havings := by
        obtain ⟨r, hr, hturn⟩ := Fallible.exists_of_mapM p.conds_eq hf
        cases r with
        | inl c =>
            obtain ⟨model', hmodel', hno, _⟩ := filterCond_inl.mp hturn
            rw [hmodel] at hmodel'
            cases hmodel'
            rw [hmeasure] at hno
            cases hno
        | inr c =>
            refine ⟨c, hturn, ?_⟩
            rw [p.havings, List.mem_filterMap]
            exact ⟨.inr c, hr, rfl⟩
      obtain ⟨c, hturn, hc⟩ := hcond
      exact (hscan.outwardSafe_iff (hmentioned f hf _ hname)).mp
        (hsafe s List.mem_cons_self _ (.inr ⟨f, hf, _, c, hturn, hc, hname⟩))
    · intro hfilters s' hs M hM
      rw [Stmt.selects, List.mem_singleton] at hs
      subst hs
      rcases hM with ⟨agg, arg, filters, member, hitem, hmodel⟩ | ⟨f, hf, _, c, hturn, _, hM⟩
      · exact p.selected_safe hroots hlen hroot hitem hmodel
      · obtain ⟨model, hmodel, hmeasure, _⟩ := filterCond_inr hturn
        obtain ⟨hname, _⟩ := modelForMember_name hmodel
        rw [hM] at hname
        cases hname
        refine (hscan.outwardSafe_iff (hmentioned f hf _ hM)).mpr ?_
        exact hfilters _ (by rw [hss, hsc]) f hf model hmodel hmeasure

/-- **Fan-out safety** holds of a compiled statement exactly when every measure filter of a
single-scan query is on a model whose join path has no `many_to_one` edge, the rest of the
join tree having no `one_to_many` edge. -/
theorem fanOutSafe_iff {ord : SetOrder} {cat : SemanticCatalog} {q : SemanticQuery} {stmt : Stmt}
    (h : compileStmt ord cat q = .ok stmt) {cat' : SemanticCatalog} {q' : SemanticQuery}
    (hcore : coreQuery cat q = .ok (cat', q')) :
    FanOutSafe cat' q' stmt ↔ MeasureFiltersSafe cat' q' := by
  obtain ⟨cat'', q'', hcore', hmeasures⟩ := compileStmt_core h
  rw [hcore] at hcore'
  cases hcore'
  rw [← fanOutSafe_compileMeasures hmeasures]
  unfold FanOutSafe
  rw [Stmt.selects_core]

/-! ## A measure filter behind a fan-out -/

/-- Orders belong to customers; both models have a measure. -/
def creditCatalog : SemanticCatalog := SemanticCatalog.new
  [{ name := "orders"
     source := "shop.orders"
     measures := [{ name := "revenue", agg := .sum, expr := "amount" }]
     relationships := [{ name := "customer", kind := .manyToOne, targetModel := "customers"
                         joinPredicate := "this.customer_id = customers.id" }] },
   { name := "customers"
     source := "shop.customers"
     measures := [{ name := "credit", agg := .sum, expr := "credit_limit" }] }]

/-- Revenue, provided the customers' credit exceeds a bound. -/
def revenueByCredit : SemanticQuery where
  measures := ["orders.revenue"]
  filters := [{ member := "customers.credit", op := .gt, values := ["100"] }]

def creditHaving : SqlCond :=
  .cmp (.aggregate .sum (.field "customers" "credit_limit") []) .gt (.bare "100")

def customerJoin : Join :=
  ⟨.manyToOne, ⟨"shop", "customers"⟩, "customers", "orders",
    ⟨"orders", "this.customer_id = customers.id"⟩⟩

def revenueByCreditSelect : Select where
  items := [(.aggregate .sum (.field "orders" "amount") [], "orders.revenue")]
  source :=
    { root := "orders", table := ⟨"shop", "orders"⟩, aliased := true, joins := [customerJoin] }
  wheres := []
  groupBy := []
  havings := [creditHaving]

lemma revenueByCredit_compiles :
    compileStmt .insertion creditCatalog revenueByCredit =
      .ok (.select revenueByCreditSelect) := by
  decide

lemma revenueByCredit_core :
    coreQuery creditCatalog revenueByCredit = .ok (creditCatalog, revenueByCredit) := by
  rfl

/-- The credit of a customer is summed once for every order of the customer. -/
lemma revenueByCredit_unsafe :
    ¬ FanOutSafe creditCatalog revenueByCredit (.select revenueByCreditSelect) := by
  intro hsafe
  have hagg : Aggregates creditCatalog revenueByCredit revenueByCreditSelect "customers" := by
    refine .inr ⟨_, List.mem_cons_self, true, creditHaving, ?_, List.mem_cons_self, ?_⟩
    · decide
    · decide
  have hout : RootedTree.Outward (joinEdge revenueByCreditSelect.source)
      RelationshipKind.invert "customers" .oneToMany := by
    have hedge : joinEdge revenueByCreditSelect.source "orders" "customers" .manyToOne :=
      ⟨customerJoin, List.mem_cons_self, rfl, rfl, rfl⟩
    exact ⟨"customers", ["customers"], "orders", .start, .up hedge, by decide⟩
  exact hsafe _ List.mem_cons_self _ hagg _ hout rfl

/-- Accepted queries may aggregate a measure over multiplied rows. -/
theorem fanOutSafe_fails : ¬ ∀ (ord : SetOrder) (cat cat' : SemanticCatalog)
    (q q' : SemanticQuery) (stmt : Stmt), compileStmt ord cat q = .ok stmt →
    coreQuery cat q = .ok (cat', q') → FanOutSafe cat' q' stmt :=
  fun h => revenueByCredit_unsafe
    (h _ _ _ _ _ _ revenueByCredit_compiles revenueByCredit_core)

/-- The filter on the customers' credit is on a model behind a `many_to_one` edge. -/
theorem creditFilter_unsafe : ¬ MeasureFiltersSafe creditCatalog revenueByCredit :=
  fun h => revenueByCredit_unsafe
    ((fanOutSafe_iff revenueByCredit_compiles revenueByCredit_core).mpr h)

end Semantic
end Pawrly
