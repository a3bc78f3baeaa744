import Pawrly.Semantic.Scans
import Pawrly.Semantic.Search

/-!
# Which join paths are unique

The compilers reject a mentioned model that the search has flagged.  The flag says that the
shortest routes to that model split at their last hop; it says nothing of the models above it,
and the search keeps one edge for each pair of models.  `joinPathsUnique_iff` says for which
queries that is enough.
-/

namespace Pawrly
namespace Semantic

open Sql Routes

/-! ## The claim and its condition -/

/-- The compilers' check of a mentioned model reports an ambiguous join path. -/
def Reported (cat : SemanticCatalog) (sc : Scan) (m : String) : Prop :=
  ∀ disconnected measure hasMeasures, checkLookup (reachability cat sc.root) sc.root
    disconnected measure hasMeasures m = .error (.ambiguousJoinPath sc.root m)

/-- Every joined model of a compiled statement has one shortest route from its root, and a query
that mentions a model with several, or behind such a model, is rejected as ambiguous.  (What
the compile reports may be another defect of the query that is found before.) -/
structure JoinPathsUnique (ord : SetOrder) (cat : SemanticCatalog) (q : SemanticQuery) :
    Prop where
  unique : ∀ stmt, compileStmt ord cat q = .ok stmt → ∀ s ∈ stmt.selects,
    ∀ j ∈ s.source.joins, Unique (Relates cat) Competing s.source.root j.model
  reported : ∀ cat' q' ss, coreQuery cat q = .ok (cat', q') → scans cat' q' = .ok ss →
    (∃ sc ∈ ss, ∃ m ∈ sc.mentioned, ∃ x, Through (Relates cat) sc.root m x ∧
      Several (Relates cat) Competing sc.root x) →
    (∃ e, compileStmt ord cat q = .error e) ∧ ∃ sc ∈ ss, ∃ m ∈ sc.mentioned, Reported cat' sc m

/-- On the way to the mentioned models nothing splits and no relationships compete. -/
def SingleWays (cat : SemanticCatalog) (sc : Scan) : Prop :=
  ∀ m ∈ sc.mentioned, ∀ x, Through (Relates cat) sc.root m x →
    ¬ Split (Relates cat) sc.root x ∧ ¬ Parallel (Relates cat) Competing sc.root x

/-! ## The graph of the core query -/

/-- Synthetic measures do not change the relationships. -/
lemma coreQuery_relates {cat cat' : SemanticCatalog} {q q' : SemanticQuery}
    (h : coreQuery cat q = .ok (cat', q')) : Relates cat' = Relates cat := by
  obtain ⟨q₁, _, h⟩ := Fallible.bind_eq_ok.mp h
  split_ifs at h
  · obtain ⟨⟨_, st⟩, _, heq⟩ := Fallible.bind_eq_ok.mp h
    cases heq
    funext a on b
    unfold Relates
    simp only [augmentedCatalog_model, Option.isSome_map, eq_iff_iff]
    constructor
    · rintro ⟨m, rel, hm, hrest⟩
      obtain ⟨m₀, hm₀, rfl⟩ := Option.map_eq_some_iff.mp hm
      exact ⟨m₀, rel, hm₀, hrest⟩
    · rintro ⟨m, rel, hm, hrest⟩
      exact ⟨_, rel, Option.map_eq_some_iff.mpr ⟨m, hm, rfl⟩, hrest⟩
  · cases h
    rfl

/-! ## The check -/

lemma reported_iff {cat : SemanticCatalog} {sc : Scan} {m : String} :
    Reported cat sc m ↔ m ≠ sc.root ∧ Split (Relates cat) sc.root m := by
  unfold Reported checkLookup
  constructor
  · intro h
    have h := h "" "" false
    split_ifs at h with hm
    refine ⟨hm, ?_⟩
    split at h
    · cases h
    · next n hn =>
        split_ifs at h with hamb hfan
        · exact (ambiguous_iff_split hn).mp hamb
        · cases h
  · rintro ⟨hm, hsplit⟩ _ _ _
    obtain ⟨u, u', hu, _⟩ := id hsplit
    obtain ⟨k, _, hk, _⟩ := nearer_iff.mp hu
    obtain ⟨n, hn, _⟩ := depthAt_eq_some.mp hk
    rw [if_neg hm, hn]
    exact if_pos ((ambiguous_iff_split hn).mpr hsplit)

/-- The root has one shortest route, the empty one. -/
lemma ne_root_of_split {cat : SemanticCatalog} {root m : String}
    (h : Split (Relates cat) root m) : m ≠ root := by
  rintro rfl
  obtain ⟨u, _, ⟨e, p, hp⟩, _⟩ := h
  cases shortest_self hp

/-- What passed the checks: the mentioned models are connected and not flagged. -/
lemma compileMeasures_checked {ord : SetOrder} {cat : SemanticCatalog} {q : SemanticQuery}
    {stmt : Stmt} {ss : List Scan} (h : compileMeasures ord cat q = .ok stmt)
    (hss : scans cat q = .ok ss) {sc : Scan} (hsc : sc ∈ ss) {m : String}
    (hm : m ∈ sc.mentioned) (hne : m ≠ sc.root) :
    ∃ n, (reachability cat sc.root).lookup m = some n ∧ n.ambiguous = false := by
  obtain ⟨roots, hroots, ⟨hlen, l, rfl, ⟨p⟩⟩ | ⟨hlen, root, s, hroot, rfl, ⟨p⟩⟩⟩ :=
    compileMeasures_cases h
  · obtain ⟨roots', hroots', hss⟩ := Fallible.bind_eq_ok.mp hss
    rw [hroots] at hroots'
    cases hroots'
    rw [if_pos hlen] at hss
    obtain ⟨filters, hfilters, hss⟩ := Fallible.bind_eq_ok.mp hss
    rw [p.filters_eq] at hfilters
    cases hfilters
    obtain ⟨root, hroot, hturn⟩ := Fallible.mem_of_mapM hss hsc
    obtain ⟨mentioned, hmentioned, heq⟩ := Fallible.bind_eq_ok.mp hturn
    cases heq
    obtain ⟨c, _, hc⟩ := Fallible.exists_of_mapM p.ctes_eq hroot
    obtain ⟨body, hbody, _⟩ := Fallible.bind_eq_ok.mp hc
    obtain ⟨cp⟩ := compileCte_plan hbody
    have hsame := foldlM_consider cp.referenced_eq
    rw [hmentioned] at hsame
    cases hsame
    obtain ⟨n, hn, hamb, _⟩ := consider_checked cp.referenced_eq m hm hne
    exact ⟨n, hn, hamb⟩
  · rw [p.scans_eq hroots hlen hroot] at hss
    cases hss
    rw [List.mem_singleton] at hsc
    subst hsc
    obtain ⟨n, hn, hamb, _⟩ := p.checked m hm hne
    exact ⟨n, hn, hamb⟩

/-! ## Joined models -/

lemma through_of_onPath {cat : SemanticCatalog} {root m x : String}
    (h : OnPath cat root m x) : Through (Relates cat) root m x := by
  refine Relation.ReflTransGen.mono (r := Parent cat root) (fun c p hcp => ?_) _ _ h
  obtain ⟨n, hn, hp⟩ := hcp
  have hne : c ≠ root := by
    rintro rfl
    obtain ⟨nr, hnr, _, _, hnone⟩ := (reachability_inv cat c).rootNode
    rw [hn] at hnr
    cases hnr
    rw [hp] at hnone
    cases hnone
  obtain ⟨p', np, e, hp', hnp, he, ht, _, _, hd, _⟩ := (reachability_inv cat root).child c n hn hne
  rw [hp] at hp'
  cases hp'
  refine nearer_iff.mpr ⟨np.depth, depthAt_of_lookup hnp, ?_,
    adjacency_iff_relates.mp ⟨e, he, ht⟩⟩
  rw [depthAt_of_lookup hn, hd]

/-- A model that is passed on the way to another is connected when that one is. -/
lemma exists_shortest_of_through {cat : SemanticCatalog} {root m x : String}
    (h : Through (Relates cat) root m x) (hm : ∃ p, Shortest (Relates cat) root m p) :
    ∃ p, Shortest (Relates cat) root x p := by
  induction h with
  | refl => exact hm
  | tail _ hstep _ =>
      obtain ⟨e, p, hp⟩ := hstep
      exact ⟨p, hp.tail⟩

/-- The scan of each `SELECT`, and for its joined models the mentioned models they lead to. -/
lemma joined_through {ord : SetOrder} {cat : SemanticCatalog} {q : SemanticQuery} {sc : Scan}
    {s : Select} (h : Scanned ord cat q sc s) {j : Join} (hj : j ∈ s.source.joins) :
    s.source.root = sc.root ∧
      ∃ m ∈ sc.mentioned, Through (Relates cat) sc.root m j.model := by
  obtain ⟨_, _, hsource⟩ := h.source
  refine ⟨(renderFrom_joins hsource).1, ?_⟩
  have hmem : j.model ∈ s.source.models :=
    List.mem_cons_of_mem _ (List.mem_map_of_mem hj)
  rcases h.mem_models.mp hmem with hm | ⟨_, _, m, hm, hpath⟩
  · exact ⟨j.model, hm, .refl⟩
  · exact ⟨m, hm, through_of_onPath hpath⟩

/-! ## Exactness -/

/-- A mentioned model behind a model with several shortest routes has several itself. -/
lemma several_of_behind {cat : SemanticCatalog} {sc : Scan} {m x : String}
    (hm : m ∈ sc.mentioned) (hx : Through (Relates cat) sc.root m x)
    (hseveral : Several (Relates cat) Competing sc.root x) : ¬ SingleWays cat sc := by
  intro hsingle
  obtain ⟨y, hy, hor⟩ := several_iff.mp (hx.several hseveral)
  obtain ⟨hsplit, hpar⟩ := hsingle m hm y hy
  exact hor.elim hsplit hpar

/-- A compile that reaches the checks with a flagged model fails. -/
lemma compile_fails_of_split {ord : SetOrder} {cat cat' : SemanticCatalog}
    {q q' : SemanticQuery} {ss : List Scan} (hcore : coreQuery cat q = .ok (cat', q'))
    (hss : scans cat' q' = .ok ss) {sc : Scan} (hsc : sc ∈ ss) {m : String}
    (hm : m ∈ sc.mentioned) (hsplit : Split (Relates cat') sc.root m) (stmt : Stmt) :
    compileStmt ord cat q ≠ .ok stmt := by
  intro h
  obtain ⟨cat'', q'', hcore', hmeasures⟩ := compileStmt_core h
  rw [hcore] at hcore'
  cases hcore'
  obtain ⟨n, hn, hamb⟩ := compileMeasures_checked hmeasures hss hsc hm (ne_root_of_split hsplit)
  rw [(ambiguous_iff_split hn).mpr hsplit] at hamb
  cases hamb

/-- **Join paths are unique**, and doubtful ones reported, exactly for the queries that mention
a model whose shortest routes split at their last hop, or whose mentioned models are reached
through no split and no competing relationships at all. -/
theorem joinPathsUnique_iff (ord : SetOrder) (cat : SemanticCatalog) (q : SemanticQuery) :
    JoinPathsUnique ord cat q ↔
      ∀ cat' q' ss, coreQuery cat q = .ok (cat', q') → scans cat' q' = .ok ss →
        (∃ sc ∈ ss, ∃ m ∈ sc.mentioned, Split (Relates cat) sc.root m) ∨
          ∀ sc ∈ ss, SingleWays cat sc := by
  constructor
  · intro h cat' q' ss hcore hss
    by_contra hnot
    rw [not_or] at hnot
    obtain ⟨hnosplit, hways⟩ := hnot
    unfold SingleWays at hways
    push Not at hways
    obtain ⟨sc, hsc, m, hm, x, hx, hbad⟩ := hways
    have hseveral : Several (Relates cat) Competing sc.root x := by
      by_cases hsplit : Split (Relates cat) sc.root x
      · exact hsplit.several
      · exact (hbad hsplit).several
    obtain ⟨_, sc', hsc', m', hm', hrep⟩ :=
      h.reported cat' q' ss hcore hss ⟨sc, hsc, m, hm, x, hx, hseveral⟩
    have hsplit := (reported_iff.mp hrep).2
    rw [coreQuery_relates hcore] at hsplit
    exact hnosplit ⟨sc', hsc', m', hm', hsplit⟩
  · intro h
    refine ⟨fun stmt hstmt s hs j hj => ?_, fun cat' q' ss hcore hss hdoubt => ?_⟩
    · obtain ⟨cat', q', hcore, hmeasures⟩ := compileStmt_core hstmt
      obtain ⟨ss, hss, hscans⟩ := compileMeasures_scans hmeasures
      rw [Stmt.selects_core] at hscans
      obtain ⟨sc, hsc, hscanned⟩ := Fallible.exists_left hscans hs
      obtain ⟨hroot, m, hm, hthrough⟩ := joined_through hscanned hj
      rw [coreQuery_relates hcore] at hthrough
      rw [hroot, unique_iff]
      constructor
      · refine exists_shortest_of_through hthrough ?_
        by_cases hne : m = sc.root
        · exact ⟨[], hne ▸ .nil, fun _ _ => Nat.zero_le _⟩
        · obtain ⟨n, hn, _⟩ := compileMeasures_checked hmeasures hss hsc hm hne
          obtain ⟨p, hp, _⟩ := reachability_shortest.mp (depthAt_of_lookup hn)
          exact ⟨p, coreQuery_relates hcore ▸ hp⟩
      · intro hseveral
        rcases h cat' q' ss hcore hss with ⟨sc', hsc', m', hm', hsplit⟩ | hways
        · rw [← coreQuery_relates hcore] at hsplit
          exact compile_fails_of_split hcore hss hsc' hm' hsplit stmt hstmt
        · exact several_of_behind hm hthrough hseveral (hways sc hsc)
    · obtain ⟨sc, hsc, m, hm, x, hx, hseveral⟩ := hdoubt
      rcases h cat' q' ss hcore hss with ⟨sc', hsc', m', hm', hsplit⟩ | hways
      · rw [← coreQuery_relates hcore] at hsplit
        refine ⟨?_, sc', hsc', m', hm', reported_iff.mpr ⟨ne_root_of_split hsplit, hsplit⟩⟩
        cases hstmt : compileStmt ord cat q with
        | error e => exact ⟨e, rfl⟩
        | ok stmt => exact absurd hstmt (compile_fails_of_split hcore hss hsc' hm' hsplit stmt)
      · exact absurd (hways sc hsc) (several_of_behind hm hx hseveral)

/-! ## A split above the mentioned model -/

/-- A lookup of a model by its name. -/
def lookupOf (target : String) : Relationship where
  name := target
  kind := .manyToOne
  targetModel := target
  joinPredicate := "this." ++ target ++ "_id = " ++ target ++ ".id"

/-- Orders lead to regions through their customers and through their stores; regions lead to
countries. -/
def countryCatalog : SemanticCatalog := SemanticCatalog.new
  [{ name := "orders"
     source := "shop.orders"
     measures := [{ name := "revenue", agg := .sum, expr := "amount" }]
     relationships := [lookupOf "customers", lookupOf "stores"] },
   { name := "customers"
     source := "shop.customers"
     relationships := [lookupOf "regions"] },
   { name := "stores"
     source := "shop.stores"
     relationships := [lookupOf "regions"] },
   { name := "regions"
     source := "shop.regions"
     relationships := [lookupOf "countries"] },
   { name := "countries"
     source := "shop.countries"
     dimensions := [{ name := "code", expr := "code", dataType := .string }] }]

def revenueByCountry : SemanticQuery where
  measures := ["orders.revenue"]
  dimensions := ["countries.code"]

/-- The query compiles: countries are joined behind the regions. -/
lemma revenueByCountry_joins : ∃ stmt, compileStmt .insertion countryCatalog revenueByCountry =
    .ok stmt ∧ ∃ s ∈ stmt.selects, s.source.root = "orders" ∧
      ∃ j ∈ s.source.joins, j.model = "countries" := by
  have hjoins : (compileStmt .insertion countryCatalog revenueByCountry).toOption.any
      (fun stmt => stmt.selects.any fun s => s.source.root = "orders" &&
        s.source.joins.any fun j => j.model = "countries") = true := by decide
  cases hc : compileStmt .insertion countryCatalog revenueByCountry with
  | error e =>
      rw [hc] at hjoins
      cases hjoins
  | ok stmt =>
      rw [hc] at hjoins
      obtain ⟨s, hs, hjoins⟩ := List.any_eq_true.mp hjoins
      obtain ⟨hroot, hjoins⟩ := Bool.and_eq_true_iff.mp hjoins
      obtain ⟨j, hj, hmodel⟩ := List.any_eq_true.mp hjoins
      exact ⟨stmt, rfl, s, hs, by simpa using hroot, j, hj, by simpa using hmodel⟩

/-- A declared lookup is one step further from the orders when the search says so. -/
lemma nearer_lookup {u m : String} {k : ℕ}
    (hu : depthAt (reachability countryCatalog "orders") u = some k)
    (hm : depthAt (reachability countryCatalog "orders") m = some (k + 1))
    (hrel : ∃ sm, countryCatalog.model u = some sm ∧ lookupOf m ∈ sm.relationships)
    (htarget : (countryCatalog.model m).isSome) :
    Nearer (Relates countryCatalog) "orders" u m := by
  obtain ⟨sm, hsm, hmem⟩ := hrel
  exact nearer_iff.mpr ⟨k, hu, hm, ⟨u, (lookupOf m).joinPredicate⟩, sm, lookupOf m, hsm, hmem,
    rfl, htarget, .inl ⟨rfl, rfl⟩⟩

/-- The regions are joined through the customers without a word about the stores. -/
theorem joinPathsUnique_fails : ¬ ∀ (ord : SetOrder) (cat : SemanticCatalog)
    (q : SemanticQuery), JoinPathsUnique ord cat q := by
  intro h
  obtain ⟨stmt, hstmt, s, hs, hroot, j, hj, hmodel⟩ := revenueByCountry_joins
  have hunique := (h _ _ _).unique stmt hstmt s hs j hj
  rw [hroot, hmodel, unique_iff] at hunique
  have hcustomers : Nearer (Relates countryCatalog) "orders" "customers" "regions" :=
    nearer_lookup (k := 1) (by decide) (by decide)
      ⟨_, rfl, List.mem_cons_self⟩ (by decide)
  have hstores : Nearer (Relates countryCatalog) "orders" "stores" "regions" :=
    nearer_lookup (k := 1) (by decide) (by decide)
      ⟨_, rfl, List.mem_cons_self⟩ (by decide)
  have hcountries : Nearer (Relates countryCatalog) "orders" "regions" "countries" :=
    nearer_lookup (k := 2) (by decide) (by decide)
      ⟨_, rfl, List.mem_cons_self⟩ (by decide)
  have hsplit : Split (Relates countryCatalog) "orders" "regions" :=
    ⟨"customers", "stores", hcustomers, hstores, by decide⟩
  exact hunique.2 (hcountries.several hsplit.several)

end Semantic
end Pawrly
