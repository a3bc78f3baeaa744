import Pawrly.Semantic.Scans

/-!
# Row-level security of compiled statements

A model's safety policy lists predicates that are to be `AND`-ed into every scan of the model.
The compilers add the predicates of the models a scan *mentions*; the models that
`needed_models` joins only to connect them contribute nothing.

The mentioned models are always secured (`mentioned_secured`).  A whole statement is secured
exactly when no bridge model has a required predicate of its own (`rowSecured_iff`).
-/

namespace Pawrly
namespace Semantic

open Sql

/-- Every required predicate of every model a `SELECT` reads is a conjunct of its `WHERE`. -/
def RowSecured (cat : SemanticCatalog) (params : List (String × String)) (stmt : Stmt) : Prop :=
  ∀ s ∈ stmt.selects, ∀ m ∈ s.source.models, ∀ p ∈ requiredPredicates cat m,
    ∃ text, bindParams p params m = .ok text ∧ text ∈ s.wheres.map SqlCond.render

/-- The text of a dimension filter of the query, or of a required predicate of a model the
scan mentions. -/
def Contributed (cat : SemanticCatalog) (q : SemanticQuery) (sc : Scan) (text : String) : Prop :=
  (∃ m ∈ sc.mentioned, ∃ p ∈ requiredPredicates cat m, bindParams p q.params m = .ok text) ∨
    ∃ f ∈ q.filters, ∃ c, filterCond cat q.timeZone sc.joined f = .ok (.inl c) ∧ c.render = text

/-- No bridge of the query's scans has a required predicate, other than one whose bound text
another part of the query contributes. -/
def BridgesUnrestricted (cat : SemanticCatalog) (q : SemanticQuery) : Prop :=
  ∀ ss, scans cat q = .ok ss → ∀ sc ∈ ss, ∀ b, Bridge cat sc b →
    ∀ p ∈ requiredPredicates cat b,
      ∃ text, bindParams p q.params b = .ok text ∧ Contributed cat q sc text

/-! ## The collected predicates -/

lemma boundPredicates_mem {cat : SemanticCatalog} {params : List (String × String)}
    {names : List String} {preds : List SqlCond}
    (h : boundPredicates cat params names = .ok preds) {n p : String} (hn : n ∈ names)
    (hp : p ∈ requiredPredicates cat n) :
    ∃ text, bindParams p params n = .ok text ∧ SqlCond.raw text ∈ preds := by
  have hmem : (n, p) ∈ names.flatMap fun n => (requiredPredicates cat n).map fun p => (n, p) := by
    rw [List.mem_flatMap]
    exact ⟨n, hn, List.mem_map_of_mem hp⟩
  obtain ⟨c, hc, hturn⟩ := Fallible.exists_of_mapM h hmem
  obtain ⟨text, htext, heq⟩ := Fallible.bind_eq_ok.mp hturn
  cases heq
  exact ⟨text, htext, hc⟩

lemma boundPredicates_source {cat : SemanticCatalog} {params : List (String × String)}
    {names : List String} {preds : List SqlCond}
    (h : boundPredicates cat params names = .ok preds) {c : SqlCond} (hc : c ∈ preds) :
    ∃ n ∈ names, ∃ p ∈ requiredPredicates cat n, ∃ text,
      bindParams p params n = .ok text ∧ c = .raw text := by
  obtain ⟨⟨n, p⟩, hmem, hturn⟩ := Fallible.mem_of_mapM h hc
  obtain ⟨text, htext, heq⟩ := Fallible.bind_eq_ok.mp hturn
  cases heq
  rw [List.mem_flatMap] at hmem
  obtain ⟨n', hn', hmem⟩ := hmem
  obtain ⟨p', hp', heq⟩ := List.mem_map.mp hmem
  cases heq
  exact ⟨n, hn', p, hp', text, htext, rfl⟩

/-- The models a scan mentions are always secured. -/
theorem mentioned_secured {ord : SetOrder} {cat : SemanticCatalog} {q : SemanticQuery}
    {sc : Scan} {s : Select} (h : Scanned ord cat q sc s) {m p : String}
    (hm : m ∈ sc.mentioned) (hp : p ∈ requiredPredicates cat m) :
    ∃ text, bindParams p q.params m = .ok text ∧ text ∈ s.wheres.map SqlCond.render := by
  obtain ⟨conds, preds, _, hpreds, hwheres⟩ := h.wheres
  obtain ⟨text, htext, hmem⟩ := boundPredicates_mem hpreds hm hp
  refine ⟨text, htext, List.mem_map.mpr ⟨.raw text, ?_, rfl⟩⟩
  rw [hwheres]
  exact List.mem_append_right _ hmem

/-- The conjuncts of a scan are the contributed texts. -/
lemma Scanned.contributed_iff {ord : SetOrder} {cat : SemanticCatalog} {q : SemanticQuery}
    {sc : Scan} {s : Select} (h : Scanned ord cat q sc s) {text : String} :
    text ∈ s.wheres.map SqlCond.render ↔ Contributed cat q sc text := by
  obtain ⟨conds, preds, hconds, hpreds, hwheres⟩ := h.wheres
  rw [hwheres, List.mem_map]
  constructor
  · rintro ⟨c, hc, rfl⟩
    rcases List.mem_append.mp hc with hc | hc
    · obtain ⟨f, hf, hcond⟩ := (mem_dimensionConds hconds).mp hc
      exact .inr ⟨f, hf, c, hcond, rfl⟩
    · obtain ⟨m, hm, p, hp, text, htext, rfl⟩ := boundPredicates_source hpreds hc
      exact .inl ⟨m, hm, p, hp, htext⟩
  · rintro (⟨m, hm, p, hp, htext⟩ | ⟨f, hf, c, hcond, rfl⟩)
    · obtain ⟨text', htext', hmem⟩ := boundPredicates_mem hpreds hm hp
      rw [htext] at htext'
      cases htext'
      exact ⟨.raw text, List.mem_append_right _ hmem, rfl⟩
    · exact ⟨c, List.mem_append_left _ ((mem_dimensionConds hconds).mpr ⟨f, hf, hcond⟩), rfl⟩

/-! ## Whole statements -/

/-- A measure query's statement is secured exactly when its bridges are unrestricted. -/
lemma rowSecured_compileMeasures {ord : SetOrder} {cat : SemanticCatalog} {q : SemanticQuery}
    {stmt : Stmt} (h : compileMeasures ord cat q = .ok stmt) :
    RowSecured cat q.params stmt ↔ BridgesUnrestricted cat q := by
  obtain ⟨ss, hss, hscans⟩ := compileMeasures_scans h
  constructor
  · intro hsec ss' hss' sc hsc b hb p hp
    rw [hss] at hss'
    cases hss'
    obtain ⟨s, hs, hscan⟩ := Fallible.exists_right hscans hsc
    obtain ⟨text, htext, hmem⟩ := hsec s hs b (hscan.mem_models.mpr (.inr hb)) p hp
    exact ⟨text, htext, hscan.contributed_iff.mp hmem⟩
  · intro hbridges s hs m hm p hp
    obtain ⟨sc, hsc, hscan⟩ := Fallible.exists_left hscans hs
    rcases hscan.mem_models.mp hm with hm | hb
    · exact mentioned_secured hscan hm hp
    · obtain ⟨text, htext, hcontr⟩ := hbridges ss hss sc hsc m hb p hp
      exact ⟨text, htext, hscan.contributed_iff.mpr hcontr⟩

/-- Orders belong to customers, customers to regions, and customers are restricted to one
tenant. -/
def tenantCatalog : SemanticCatalog := SemanticCatalog.new
  [{ name := "orders"
     source := "shop.orders"
     measures := [{ name := "revenue", agg := .sum, expr := "amount" }]
     relationships := [{ name := "customer", kind := .manyToOne, targetModel := "customers"
                         joinPredicate := "this.customer_id = customers.id" }] },
   { name := "customers"
     source := "shop.customers"
     relationships := [{ name := "region", kind := .manyToOne, targetModel := "regions"
                         joinPredicate := "this.region_id = regions.id" }]
     safety := some { requiredPredicates := ["customers.tenant = $\x7bparam:tenant\x7d"] } },
   { name := "regions"
     source := "shop.regions"
     dimensions := [{ name := "name", expr := "name", dataType := .string }] }]

/-- Revenue by region: customers are joined but not mentioned. -/
def revenueByRegion : SemanticQuery where
  measures := ["orders.revenue"]
  dimensions := ["regions.name"]
  params := [("tenant", "acme")]

def revenueByRegionStmt : Stmt := .select
  { items := [(.field "regions" "name", "regions.name"),
      (.aggregate .sum (.field "orders" "amount") [], "orders.revenue")]
    source :=
      { root := "orders"
        table := ⟨"shop", "orders"⟩
        aliased := true
        joins := [⟨.manyToOne, ⟨"shop", "customers"⟩, "customers", "orders",
            ⟨"orders", "this.customer_id = customers.id"⟩⟩,
          ⟨.manyToOne, ⟨"shop", "regions"⟩, "regions", "customers",
            ⟨"customers", "this.region_id = regions.id"⟩⟩] }
    wheres := []
    groupBy := [.field "regions" "name"] }

lemma revenueByRegion_compiles :
    compileStmt .insertion tenantCatalog revenueByRegion = .ok revenueByRegionStmt := by
  decide

/-- The compiled statement reads the customers of every tenant. -/
lemma revenueByRegion_unsecured :
    ¬ RowSecured tenantCatalog revenueByRegion.params revenueByRegionStmt := by
  intro hsec
  obtain ⟨text, _, hmem⟩ := hsec _ List.mem_cons_self "customers" (by decide)
    "customers.tenant = $\x7bparam:tenant\x7d" (by decide)
  cases hmem

end Semantic
end Pawrly
