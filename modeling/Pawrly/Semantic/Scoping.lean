import Pawrly.Semantic.Scans
import Pawrly.Semantic.TimeAxis

/-!
# Well-scoped statements

Every name that the measure compilers write is defined where it is used, with one exception:
the outer `WHERE` of an aggregate-locality statement reads, for each measure filter, a column
of the CTE of the measure's model, and nothing makes that CTE exist or select the measure.
`wellScoped_iff` says that this is the only exception, metric statements included.
-/

namespace Pawrly
namespace Semantic

open Sql

/-! ## Resolved expressions -/

lemma qualify_scoped (expr : String) (alias? : Option String) :
    (∀ a ∈ (qualify expr alias?).aliases, alias? = some a) ∧ (qualify expr alias?).columns = [] := by
  cases alias? with
  | none => simp [qualify, SqlExpr.aliases, SqlExpr.columns]
  | some a =>
      unfold qualify
      by_cases h : isBareIdent expr = true
      · simp [h, SqlExpr.aliases, SqlExpr.columns]
      · simp [h, SqlExpr.aliases, SqlExpr.columns]

lemma resolveDimensionExpr_scoped {model : SemanticModel} {member : String}
    {alias? tz : Option String} {e : SqlExpr}
    (h : resolveDimensionExpr model member alias? tz = .ok e) :
    (∀ a ∈ e.aliases, alias? = some a) ∧ e.columns = [] := by
  obtain ⟨⟨dimName, grain?⟩, _, h⟩ := Fallible.bind_eq_ok.mp h
  dsimp only at h
  split at h
  · cases h
  · next dim _ =>
      have hbase := qualify_scoped dim.expr alias?
      split at h
      · cases h
        exact hbase
      · split at h
        · cases h
        · split_ifs at h
          cases h
          cases tz with
          | none => exact hbase
          | some zone => exact hbase

lemma resolveMeasureExpr_scoped {model : SemanticModel} {member : String}
    {alias? : Option String} {e : SqlExpr}
    (h : resolveMeasureExpr model member alias? = .ok e) :
    (∀ a ∈ e.aliases, alias? = some a) ∧ e.columns = [] := by
  unfold resolveMeasureExpr at h
  split at h
  · cases h
  · split at h
    · cases h
    · cases h
      exact qualify_scoped _ alias?

/-- A filter condition tests the expression it was built from. -/
lemma applyOp_expr {e : SqlExpr} {f : SemanticFilter} {numeric : Bool} {c : SqlCond}
    (h : applyOp e f numeric = .ok c) : c.expr? = some e := by
  have hcmp : ∀ op, (do
      let v ← oneValue f
      .ok (.cmp e op (scalarLit v numeric)) : Except SemanticError SqlCond) = .ok c →
      c.expr? = some e := by
    intro op hc
    obtain ⟨v, _, heq⟩ := Fallible.bind_eq_ok.mp hc
    cases heq
    rfl
  have hlike : ∀ pattern : String → String, (do
      let v ← oneValue f
      .ok (.like e (pattern v)) : Except SemanticError SqlCond) = .ok c →
      c.expr? = some e := by
    intro pattern hc
    obtain ⟨v, _, heq⟩ := Fallible.bind_eq_ok.mp hc
    cases heq
    rfl
  have hlist : ∀ negated, (if f.values.isEmpty then
      .error (.compile ("filter on `" ++ f.member ++ "` requires at least one value"))
      else .ok (.inList e negated (f.values.map fun v => scalarLit v numeric)) :
        Except SemanticError SqlCond) = .ok c → c.expr? = some e := by
    intro negated hc
    obtain ⟨_, heq⟩ := Fallible.ite_error_eq_ok.mp hc
    cases heq
    rfl
  unfold applyOp at h
  dsimp only at h
  split at h
  case h_1 => exact hcmp _ h
  case h_2 => exact hcmp _ h
  case h_3 => exact hcmp _ h
  case h_4 => exact hcmp _ h
  case h_5 => exact hcmp _ h
  case h_6 => exact hcmp _ h
  case h_7 => exact hlist _ h
  case h_8 => exact hlist _ h
  case h_9 =>
    split at h
    · cases h
      rfl
    · cases h
  case h_10 => exact hlike (fun v => "%" ++ v ++ "%") h
  case h_11 => exact hlike (fun v => v ++ "%") h
  case h_12 => exact hlike (fun v => "%" ++ v) h
  case h_13 =>
    cases h
    rfl
  case h_14 =>
    cases h
    rfl

/-! ## Joins -/

/-- A model stands one level below its parent. -/
lemma Parent.depth {cat : SemanticCatalog} {root c p : String} (h : Parent cat root c p) :
    nodeDepth (reachability cat root) p < nodeDepth (reachability cat root) c := by
  obtain ⟨n, hn, hp⟩ := h
  have hcr : c ≠ root := by
    rintro rfl
    obtain ⟨nr, hnr, _, _, hnone⟩ := (reachability_inv cat c).rootNode
    rw [hn] at hnr
    cases hnr
    rw [hp] at hnone
    cases hnone
  obtain ⟨p', np, _, hp', hnp, _, _, _, _, hd, _⟩ :=
    (reachability_inv cat root).child c n hn hcr
  rw [hp] at hp'
  cases hp'
  simp only [nodeDepth, hn, hnp, hd]
  omega

/-- Joins in the order of depth come after the models their `ON` texts name. -/
lemma joinsScoped_of_sorted {cat : SemanticCatalog} {root : String} {models : List String}
    {joins : List Join} {scope : List String}
    (hjoins : models.mapM (renderJoin cat root (reachability cat root)) = .ok joins)
    (hroot : ∀ x ∈ models, x ≠ root)
    (hsorted : models.Pairwise fun a b =>
      nodeDepth (reachability cat root) a ≤ nodeDepth (reachability cat root) b)
    (hparent : ∀ x ∈ models, ∀ p, Parent cat root x p → p ∈ scope ∨ p ∈ models) :
    JoinsScoped scope joins := by
  have hjoins' := Fallible.mapM_eq_ok_iff.mp hjoins
  clear hjoins
  induction hjoins' generalizing scope with
  | nil => trivial
  | @cons x j models joins hj _ ih =>
      obtain ⟨hjm, n, hn, _, hon, _⟩ := renderJoin_spec hj
      obtain ⟨p, _, e, hp, _, hadj, htarget, _, hon', _⟩ :=
        (reachability_inv cat root).child x n hn (hroot x List.mem_cons_self)
      have hje : j.on = e.on := Option.some.inj (hon.symm.trans hon')
      have hxp : Parent cat root x p := ⟨n, hn, hp⟩
      obtain ⟨hfirst, hrest⟩ := List.pairwise_cons.mp hsorted
      -- the parent is less deep than every model from `x` on, so it was joined before
      have hscope : p ∈ scope := by
        rcases hparent x List.mem_cons_self p hxp with hs | hlater
        · exact hs
        · have hlt := hxp.depth
          rcases List.mem_cons.mp hlater with rfl | hlater
          · omega
          · have hle := hfirst p hlater
            omega
      refine ⟨?_, ih (fun y hy => hroot y (List.mem_cons_of_mem _ hy)) hrest ?_⟩
      · rw [hjm, hje]
        rcases (adjacency_spec hadj).2 with howner | howner
        · rw [howner]
          exact List.mem_cons_of_mem _ hscope
        · rw [howner, htarget]
          exact List.mem_cons_self
      · intro y hy p' hp'
        rw [hjm]
        rcases hparent y (List.mem_cons_of_mem _ hy) p' hp' with hs | hlater
        · exact .inl (List.mem_cons_of_mem _ hs)
        · rcases List.mem_cons.mp hlater with rfl | hlater
          · exact .inl List.mem_cons_self
          · exact .inr hlater

lemma Scanned.joinsScoped {ord : SetOrder} {cat : SemanticCatalog} {q : SemanticQuery}
    {sc : Scan} {s : Select} (h : Scanned ord cat q sc s) :
    JoinsScoped [s.source.root] s.source.joins := by
  obtain ⟨needed, hneed, hsource⟩ := h.source
  obtain ⟨hroot, _, ⟨_, hjoins⟩ | ⟨_, hnil⟩⟩ := renderFrom_joins hsource
  · rw [hroot]
    refine joinsScoped_of_sorted hjoins (fun x hx => (needed_parent hneed hx).1)
      (needed_sorted hneed) fun x hx p hxp => ?_
    obtain ⟨n, hn, hp⟩ := hxp
    obtain ⟨_, n', p', hn', hp', hor⟩ := needed_parent hneed hx
    rw [hn] at hn'
    cases hn'
    rw [hp] at hp'
    cases hp'
    simpa using hor
  · rw [hnil]
    trivial

/-! ## `SELECT` statements -/

/-- What the compiler resolves for a model: an expression qualified by the model's name when
the statement is joined. -/
def QualifiedBy (joined : Bool) (M : String) (e : SqlExpr) : Prop :=
  (∀ a ∈ e.aliases, (if joined then some M else none) = some a) ∧ e.columns = []

/-- Expressions of the mentioned models are in scope. -/
lemma Scanned.scopes {ord : SetOrder} {cat : SemanticCatalog} {q : SemanticQuery} {sc : Scan}
    {s : Select} (h : Scanned ord cat q sc s) {M : String} (hM : M ∈ sc.mentioned)
    {e : SqlExpr} (he : QualifiedBy s.source.aliased M e) : s.source.Scopes e := by
  refine ⟨fun a ha => ?_, he.2⟩
  have haM := he.1 a ha
  unfold FromClause.aliases
  cases hal : s.source.aliased with
  | true =>
      simp only [hal, if_true, Option.some.injEq] at haM
      subst haM
      simpa using h.mem_models.mpr (.inl hM)
  | false => simp [hal] at haM

lemma dimensionItem_spec {cat : SemanticCatalog} {tz : Option String} {joined : Bool}
    {member : String} {item : SqlExpr × String}
    (h : dimensionItem cat tz joined member = .ok item) :
    item.2 = member ∧ ∃ M, memberModel member = .ok M ∧ QualifiedBy joined M item.1 := by
  obtain ⟨model, hmodel, h⟩ := Fallible.bind_eq_ok.mp h
  obtain ⟨e, he, heq⟩ := Fallible.bind_eq_ok.mp h
  cases heq
  exact ⟨rfl, model.name, (modelForMember_name hmodel).1, resolveDimensionExpr_scoped he⟩

lemma measureItem_spec {cat : SemanticCatalog} {joined : Bool} {member : String}
    {item : SqlExpr × String} (h : measureItem cat joined member = .ok item) :
    item.2 = member ∧ ∃ M, memberModel member = .ok M ∧ QualifiedBy joined M item.1 := by
  obtain ⟨model, hmodel, h⟩ := Fallible.bind_eq_ok.mp h
  obtain ⟨e, he, heq⟩ := Fallible.bind_eq_ok.mp h
  cases heq
  exact ⟨rfl, model.name, (modelForMember_name hmodel).1, resolveMeasureExpr_scoped he⟩

lemma filterCond_inl_spec {cat : SemanticCatalog} {tz : Option String} {joined : Bool}
    {f : SemanticFilter} {c : SqlCond} (h : filterCond cat tz joined f = .ok (.inl c)) :
    ∃ M, memberModel f.member = .ok M ∧ ∃ e, c.expr? = some e ∧ QualifiedBy joined M e := by
  obtain ⟨model, hmodel, _, hres⟩ := filterCond_inl.mp h
  obtain ⟨e, he, happly⟩ := Fallible.bind_eq_ok.mp hres
  exact ⟨model.name, (modelForMember_name hmodel).1, e, applyOp_expr happly,
    resolveDimensionExpr_scoped he⟩

lemma filterCond_inr_spec {cat : SemanticCatalog} {tz : Option String} {joined : Bool}
    {f : SemanticFilter} {c : SqlCond} (h : filterCond cat tz joined f = .ok (.inr c)) :
    ∃ M, memberModel f.member = .ok M ∧ ∃ e, c.expr? = some e ∧ QualifiedBy joined M e := by
  obtain ⟨model, hmodel, _, hres⟩ := filterCond_inr h
  obtain ⟨e, he, happly⟩ := Fallible.bind_eq_ok.mp hres
  exact ⟨model.name, (modelForMember_name hmodel).1, e, applyOp_expr happly,
    resolveMeasureExpr_scoped he⟩

/-- A bound required predicate names nothing of the compiler's. -/
lemma boundPredicates_expr {cat : SemanticCatalog} {params : List (String × String)}
    {names : List String} {preds : List SqlCond}
    (h : boundPredicates cat params names = .ok preds) {c : SqlCond} (hc : c ∈ preds) :
    c.expr? = none := by
  obtain ⟨_, _, hturn⟩ := Fallible.mem_of_mapM h hc
  obtain ⟨_, _, heq⟩ := Fallible.bind_eq_ok.mp hturn
  cases heq
  rfl

/-- The names of collected items are the members they were resolved from. -/
lemma dimensionItems_names {cat : SemanticCatalog} {tz : Option String} {joined : Bool}
    {dims : List String} {items : List (SqlExpr × String)}
    (h : dims.mapM (dimensionItem cat tz joined) = .ok items) : items.map Prod.snd = dims := by
  rw [Fallible.map_of_mapM h (k := id) fun m item hm => (dimensionItem_spec hm).1, List.map_id]

lemma measureItems_names {cat : SemanticCatalog} {joined : Bool} {measures : List String}
    {items : List (SqlExpr × String)} (h : measures.mapM (measureItem cat joined) = .ok items) :
    items.map Prod.snd = measures := by
  rw [Fallible.map_of_mapM h (k := id) fun m item hm => (measureItem_spec hm).1, List.map_id]

/-- `ORDER BY` terms name selected members. -/
lemma resolveOrders_spec {q : SemanticQuery} {orders : List SemanticOrder}
    (h : resolveOrders q = .ok orders) :
    ∀ o ∈ orders, o.member ∈ q.dimensions ++ q.measures := by
  intro o ho
  obtain ⟨o', _, hturn⟩ := Fallible.mem_of_mapM h ho
  split_ifs at hturn with hmem
  cases hturn
  exact hmem

/-- The single `SELECT` of a query is well scoped. -/
lemma SinglePlan.wellScoped {ord : SetOrder} {cat : SemanticCatalog} {q : SemanticQuery}
    {roots : List String} {root : String} {hasMeasures : Bool} {s : Select}
    (p : SinglePlan ord cat q root hasMeasures s) (hroots : measureRoots cat q = .ok roots)
    (hroot : singleRoot q roots = .ok root) : s.WellScoped := by
  have hscan := p.scanned hroots hroot
  have hal : s.source.aliased = decide (1 < p.referenced.length) :=
    (renderFrom_joins p.source_eq).2.1
  have hscope : ∀ member ∈ queryMembers q, ∀ M e, memberModel member = .ok M →
      QualifiedBy (decide (1 < p.referenced.length)) M e → s.source.Scopes e := by
    intro member hmember M e hM he
    refine hscan.scopes ?_ (hal ▸ he)
    exact (mem_foldlM_pushModel p.referenced_eq).mpr (.inr ⟨member, hmember, hM⟩)
  have hdim : ∀ item ∈ p.dimItems, s.source.Scopes item.1 := by
    intro item hitem
    obtain ⟨d, hd, hturn⟩ := Fallible.mem_of_mapM p.dimItems_eq hitem
    obtain ⟨_, M, hM, he⟩ := dimensionItem_spec hturn
    exact hscope d (by simp [queryMembers, hd]) M _ hM he
  have hmeasure : ∀ item ∈ p.measureItems, s.source.Scopes item.1 := by
    intro item hitem
    obtain ⟨m, hm, hturn⟩ := Fallible.mem_of_mapM p.measureItems_eq hitem
    obtain ⟨_, M, hM, he⟩ := measureItem_spec hturn
    exact hscope m (by simp [queryMembers, hm]) M _ hM he
  refine ⟨hscan.joinsScoped, ?_, ?_, ?_, ?_, ?_⟩
  · intro item hitem
    rw [p.items] at hitem
    exact (List.mem_append.mp hitem).elim (hdim item) (hmeasure item)
  · intro c hc e hce
    rw [p.wheres] at hc
    rcases List.mem_append.mp hc with hc | hc
    · obtain ⟨r, hr, hleft⟩ := List.mem_filterMap.mp hc
      rw [Sum.getLeft?_eq_some_iff] at hleft
      subst hleft
      obtain ⟨f, hf, hturn⟩ := Fallible.mem_of_mapM p.conds_eq hr
      obtain ⟨M, hM, e', he', hq⟩ := filterCond_inl_spec hturn
      rw [hce] at he'
      cases he'
      exact hscope f.member (List.mem_append_right _ (List.mem_map_of_mem hf)) M e hM hq
    · rw [boundPredicates_expr p.preds_eq hc] at hce
      cases hce
  · intro e he
    rw [p.groupBy] at he
    obtain ⟨item, hitem, rfl⟩ := List.mem_map.mp he
    exact hdim item hitem
  · intro c hc e hce
    rw [p.havings] at hc
    obtain ⟨r, hr, hright⟩ := List.mem_filterMap.mp hc
    rw [Sum.getRight?_eq_some_iff] at hright
    subst hright
    obtain ⟨f, hf, hturn⟩ := Fallible.mem_of_mapM p.conds_eq hr
    obtain ⟨M, hM, e', he', hq⟩ := filterCond_inr_spec hturn
    rw [hce] at he'
    cases he'
    exact hscope f.member (List.mem_append_right _ (List.mem_map_of_mem hf)) M e hM hq
  · intro o ho
    have hmem := resolveOrders_spec p.orders_eq o ho
    rw [Select.outputs, p.items, List.map_append, dimensionItems_names p.dimItems_eq,
      measureItems_names p.measureItems_eq]
    exact hmem

/-- The columns of a CTE: the dimensions and the measures of its root. -/
lemma CtePlan.outputs {ord : SetOrder} {cat : SemanticCatalog} {q : SemanticQuery}
    {dimFilters : List SemanticFilter} {root : String} {s : Select}
    (p : CtePlan ord cat q dimFilters root s) :
    s.outputs = q.dimensions ++ q.measures.filter (ownedBy root) := by
  rw [Select.outputs, p.items, List.map_append, dimensionItems_names p.dimItems_eq,
    measureItems_names p.measureItems_eq]

/-- Every CTE is well scoped. -/
lemma CtePlan.wellScoped {ord : SetOrder} {cat : SemanticCatalog} {q : SemanticQuery}
    {dimFilters measureFilters : List SemanticFilter} {root : String} {s : Select}
    (p : CtePlan ord cat q dimFilters root s)
    (hfilters : splitFilters cat q = .ok (dimFilters, measureFilters)) : s.WellScoped := by
  have hscan := p.scanned hfilters
  have hal : s.source.aliased = true := (renderFrom_joins p.source_eq).2.1
  have hmentioned := fun x => mem_foldlM_pushModel (foldlM_consider p.referenced_eq) (x := x)
  have hdim : ∀ item ∈ p.dimItems, s.source.Scopes item.1 := by
    intro item hitem
    obtain ⟨d, hd, hturn⟩ := Fallible.mem_of_mapM p.dimItems_eq hitem
    obtain ⟨_, M, hM, he⟩ := dimensionItem_spec hturn
    exact hscan.scopes ((hmentioned M).mpr (.inr ⟨d, List.mem_append_left _ hd, hM⟩)) (hal ▸ he)
  refine ⟨hscan.joinsScoped, ?_, ?_, ?_, ?_, ?_⟩
  · intro item hitem
    rw [p.items] at hitem
    rcases List.mem_append.mp hitem with hitem | hitem
    · exact hdim item hitem
    · obtain ⟨m, hm, hturn⟩ := Fallible.mem_of_mapM p.measureItems_eq hitem
      obtain ⟨_, M, hM, he⟩ := measureItem_spec hturn
      have howned := ownedBy_iff.mp (List.mem_filter.mp hm).2
      rw [hM] at howned
      cases howned
      exact hscan.scopes hscan.root_mem (hal ▸ he)
  · intro c hc e hce
    rw [p.wheres] at hc
    rcases List.mem_append.mp hc with hc | hc
    · obtain ⟨f, hf, hturn⟩ := Fallible.mem_of_mapM p.conds_eq hc
      obtain ⟨model, hmodel, hres⟩ := Fallible.bind_eq_ok.mp hturn
      obtain ⟨e', he', happly⟩ := Fallible.bind_eq_ok.mp hres
      rw [applyOp_expr happly] at hce
      cases hce
      refine hscan.scopes ((hmentioned model.name).mpr (.inr ⟨f.member, ?_, ?_⟩))
        (hal ▸ resolveDimensionExpr_scoped he')
      · exact List.mem_append_right _ (List.mem_map_of_mem hf)
      · exact (modelForMember_name hmodel).1
    · rw [boundPredicates_expr p.preds_eq hc] at hce
      cases hce
  · intro e he
    rw [p.groupBy] at he
    obtain ⟨item, hitem, rfl⟩ := List.mem_map.mp he
    exact hdim item hitem
  · intro c hc
    rw [p.havings] at hc
    cases hc
  · intro o ho
    rw [p.orders] at ho
    cases ho

/-! ## Aggregate-locality statements -/

lemma cteName_injective : Function.Injective cteName := by
  intro r r' h
  have hlist := congrArg String.toList h
  simp only [cteName, String.toList_append, List.append_cancel_left_eq] at hlist
  exact String.toList_inj.mp hlist

section

variable {ord : SetOrder} {cat : SemanticCatalog} {q : SemanticQuery} {roots : List String}
  {l : LocalityStmt}

lemma LocalityPlan.exists_cte (p : LocalityPlan ord cat q roots l) {r : String}
    (hr : r ∈ roots) : ∃ s, (cteName r, s) ∈ l.ctes := by
  obtain ⟨c, hc, hturn⟩ := Fallible.exists_of_mapM p.ctes_eq hr
  obtain ⟨body, _, heq⟩ := Fallible.bind_eq_ok.mp hturn
  cases heq
  exact ⟨body, hc⟩

/-- The columns the CTEs of the roots define. -/
lemma LocalityPlan.defines_iff (p : LocalityPlan ord cat q roots l) {scope : List String}
    {r name : String} : l.Defines scope (cteColumn r name) ↔
      cteName r ∈ scope ∧ r ∈ roots ∧
        (name ∈ q.dimensions ∨ (name ∈ q.measures ∧ memberModel name = .ok r)) := by
  have houtputs : ∀ s, (cteName r, s) ∈ l.ctes → r ∈ roots ∧
      (name ∈ s.outputs ↔ name ∈ q.dimensions ∨
        (name ∈ q.measures ∧ memberModel name = .ok r)) := by
    intro s hs
    obtain ⟨r', hr', hname, ⟨cp⟩⟩ := p.cte_plan hs
    have hrr := cteName_injective hname
    subst hrr
    refine ⟨hr', ?_⟩
    rw [cp.outputs, List.mem_append, List.mem_filter, ownedBy_iff]
  constructor
  · rintro ⟨n, hn, hrel, s, hs, hname⟩
    cases hrel
    obtain ⟨hr, hiff⟩ := houtputs s hs
    exact ⟨hn, hr, hiff.mp hname⟩
  · rintro ⟨hscope, hr, hname⟩
    obtain ⟨s, hs⟩ := p.exists_cte hr
    exact ⟨cteName r, hscope, rfl, s, hs, (houtputs s hs).2.mpr hname⟩

lemma cteLinks_ctes (dims prev rest : List String) :
    (cteLinks dims prev rest).map CteLink.cte = rest.map cteName := by
  induction rest generalizing prev with
  | nil => rfl
  | cons r rest ih =>
      rw [cteLinks, List.map_cons, List.map_cons, ih]
      split_ifs <;> rfl

/-- The outer `FROM` names the CTE of every root. -/
lemma LocalityPlan.scope_eq (p : LocalityPlan ord cat q roots l) (hlen : 2 ≤ roots.length) :
    l.scope = roots.map cteName := by
  match roots, hlen with
  | r :: rest, _ =>
      rw [LocalityStmt.scope, p.first, p.links, cteLinks_ctes]
      rfl

/-- The columns of the outer statement: the dimensions and the measures. -/
lemma LocalityPlan.outputs (p : LocalityPlan ord cat q roots l) :
    l.items.map Prod.snd = q.dimensions ++ q.measures := by
  have hmeasures : p.measureItems.map Prod.snd = q.measures := by
    rw [Fallible.map_of_mapM p.measureItems_eq (k := id), List.map_id]
    intro m item hm
    obtain ⟨_, _, heq⟩ := Fallible.bind_eq_ok.mp hm
    cases heq
    rfl
  rw [p.items, List.map_append, hmeasures, List.map_map]
  simp [Function.comp_def]

/-- Every link is scoped, whatever part of the roots has been joined. -/
lemma LocalityPlan.linksScoped (p : LocalityPlan ord cat q roots l) (prev rest : List String)
    (hsub : ∀ r ∈ prev ++ rest, r ∈ roots) :
    l.LinksScoped (prev.map cteName) (cteLinks q.dimensions prev rest) := by
  induction rest generalizing prev with
  | nil => trivial
  | cons r rest ih =>
      have hr : r ∈ roots := hsub r (by simp)
      have hnext := ih (prev ++ [r]) (by simpa using hsub)
      rw [List.map_append, List.map_singleton] at hnext
      rw [cteLinks]
      by_cases hdims : q.dimensions.isEmpty = true
      · rw [if_pos hdims]
        exact ⟨p.exists_cte hr, trivial, hnext⟩
      · rw [if_neg hdims]
        refine ⟨p.exists_cte hr, fun cond hcond => ?_, hnext⟩
        obtain ⟨d, hd, rfl⟩ := List.mem_map.mp hcond
        refine ⟨fun c hc => ?_, p.defines_iff.mpr ⟨List.mem_singleton_self _, hr, .inl hd⟩⟩
        obtain ⟨r', hr', rfl⟩ := List.mem_map.mp hc
        exact p.defines_iff.mpr ⟨List.mem_map_of_mem hr',
          hsub r' (List.mem_append_left _ hr'), .inl hd⟩

/-- Every measure filter of a query with several measure roots is on a selected member of one
of the roots. -/
def MeasureFiltersSelected (cat : SemanticCatalog) (q : SemanticQuery) : Prop :=
  ∀ roots, measureRoots cat q = .ok roots → 2 ≤ roots.length → ∀ f ∈ q.filters, ∀ model,
    modelForMember cat f.member = .ok model → memberIsMeasure model f.member = true →
    model.name ∈ roots ∧ f.member ∈ q.dimensions ++ q.measures

/-- The outer `WHERE` is scoped exactly when the measure filters are on selected members. -/
lemma LocalityPlan.wheres_scoped_iff (p : LocalityPlan ord cat q roots l)
    (hroots : measureRoots cat q = .ok roots) (hlen : 2 ≤ roots.length) :
    (∀ c ∈ l.wheres, ∀ e, c.expr? = some e → l.Scopes l.scope e) ↔
      MeasureFiltersSelected cat q := by
  have hfilters := splitFilters_spec p.filters_eq
  -- the condition of a measure filter reads one column of its model's CTE
  have hcond : ∀ f model, modelForMember cat f.member = .ok model → ∀ c,
      ownedFilter f = .ok c → c.expr? = some (.column (cteColumn model.name f.member)) := by
    intro f model hmodel c hc
    obtain ⟨root, hroot, happly⟩ := Fallible.bind_eq_ok.mp hc
    rw [(modelForMember_name hmodel).1] at hroot
    cases hroot
    exact applyOp_expr happly
  constructor
  · intro hscoped roots' hroots' _ f hf model hmodel hmeasure
    rw [hroots] at hroots'
    cases hroots'
    obtain ⟨c, hc, hturn⟩ := Fallible.exists_of_mapM p.wheres_eq
      ((hfilters.2.2 f).mpr ⟨hf, model, hmodel, hmeasure⟩)
    have hdef := (hscoped c hc _ (hcond f model hmodel c hturn)).2 _ List.mem_cons_self
    obtain ⟨_, hr, hname⟩ := p.defines_iff.mp hdef
    refine ⟨hr, List.mem_append.mpr (hname.imp_right And.left)⟩
  · intro hsel c hc e hce
    obtain ⟨f, hf, hturn⟩ := Fallible.mem_of_mapM p.wheres_eq hc
    obtain ⟨hfq, model, hmodel, hmeasure⟩ := (hfilters.2.2 f).mp hf
    rw [hcond f model hmodel c hturn] at hce
    cases hce
    obtain ⟨hr, hname⟩ := hsel roots hroots hlen f hfq model hmodel hmeasure
    refine ⟨rfl, fun col hcol => ?_⟩
    rw [SqlExpr.columns, List.mem_singleton] at hcol
    subst hcol
    refine p.defines_iff.mpr ⟨?_, hr, ?_⟩
    · rw [p.scope_eq hlen]
      exact List.mem_map_of_mem hr
    · refine (List.mem_append.mp hname).imp_right fun hm => ⟨hm, ?_⟩
      exact (modelForMember_name hmodel).1

/-- An aggregate-locality statement is well scoped exactly when the measure filters are on
selected members. -/
lemma LocalityPlan.scoped_iff (p : LocalityPlan ord cat q roots l)
    (hroots : measureRoots cat q = .ok roots) (hlen : 2 ≤ roots.length) :
    l.WellScoped ↔ MeasureFiltersSelected cat q := by
  rw [← p.wheres_scoped_iff hroots hlen]
  refine ⟨LocalityStmt.WellScoped.wheres, fun hwheres => ?_⟩
  have hscope : ∀ r ∈ roots, cteName r ∈ l.scope := by
    intro r hr
    rw [p.scope_eq hlen]
    exact List.mem_map_of_mem hr
  have hhead : ∃ rest, roots = roots.headD "" :: rest := by
    match roots, hlen with
    | r :: rest, _ => exact ⟨rest, rfl⟩
  obtain ⟨rest, hrest⟩ := hhead
  refine ⟨?_, ?_, ?_, ?_, hwheres, ?_⟩
  · intro c hc
    obtain ⟨root, _, _, ⟨cp⟩⟩ := p.cte_plan hc
    exact cp.wellScoped p.filters_eq
  · rw [p.first]
    exact p.exists_cte (hrest ▸ List.mem_cons_self)
  · rw [p.first, p.links]
    have htake : roots.take 1 = [roots.headD ""] := by
      rw [hrest]
      rfl
    have hlinks := p.linksScoped (roots.take 1) (roots.drop 1)
      (by rw [List.take_append_drop]; exact fun _ => id)
    rw [htake] at hlinks ⊢
    exact hlinks
  · intro item hitem
    rw [p.items] at hitem
    rcases List.mem_append.mp hitem with hitem | hitem
    · obtain ⟨d, hd, rfl⟩ := List.mem_map.mp hitem
      refine ⟨rfl, fun c hc => ?_⟩
      obtain ⟨r, hr, rfl⟩ := List.mem_map.mp hc
      exact p.defines_iff.mpr ⟨hscope r hr, hr, .inl hd⟩
    · obtain ⟨m, hm, hturn⟩ := Fallible.mem_of_mapM p.measureItems_eq hitem
      obtain ⟨root, hroot, heq⟩ := Fallible.bind_eq_ok.mp hturn
      cases heq
      have hr : root ∈ roots := (mem_foldlM_pushModel hroots).mpr (.inr ⟨m, hm, hroot⟩)
      refine ⟨rfl, fun c hc => ?_⟩
      rw [SqlExpr.columns, List.mem_singleton] at hc
      subst hc
      exact p.defines_iff.mpr ⟨hscope root hr, hr, .inr ⟨hm, hroot⟩⟩
  · intro o ho
    rw [p.outputs]
    exact resolveOrders_spec p.orders_eq o ho

end

/-! ## Whole statements -/

/-- A compiled measure query returns its dimensions and measures, in order. -/
lemma outputs_compileMeasures {ord : SetOrder} {cat : SemanticCatalog} {q : SemanticQuery}
    {stmt : Stmt} (h : compileMeasures ord cat q = .ok stmt) :
    stmt.outputs = q.dimensions ++ q.measures := by
  obtain ⟨_, _, ⟨_, l, rfl, ⟨p⟩⟩ | ⟨_, _, s, _, rfl, ⟨p⟩⟩⟩ := compileMeasures_cases h
  · exact p.outputs
  · rw [Stmt.outputs, Select.outputs, p.items, List.map_append, dimensionItems_names p.dimItems_eq,
      measureItems_names p.measureItems_eq]

lemma wellScoped_compileMeasures {ord : SetOrder} {cat : SemanticCatalog} {q : SemanticQuery}
    {stmt : Stmt} (h : compileMeasures ord cat q = .ok stmt) :
    stmt.WellScoped ↔ MeasureFiltersSelected cat q := by
  obtain ⟨roots, hroots, ⟨hlen, l, rfl, ⟨p⟩⟩ | ⟨hlen, _, s, hroot, rfl, ⟨p⟩⟩⟩ :=
    compileMeasures_cases h
  · exact p.scoped_iff hroots hlen
  · refine ⟨fun _ roots' hroots' hlen' => ?_, fun _ => p.wellScoped hroots hroot⟩
    rw [hroots] at hroots'
    cases hroots'
    omega

/-- The axis of a spine-mode statement carries the grouped dimensions. -/
lemma axisSql_outputs {cat : SemanticCatalog} {q : SemanticQuery} {a : Axis}
    (h : axisSql (expandCtx cat q) = .ok a) :
    (∀ d ∈ a.outputs, d ∈ q.dimensions) ∧ ∀ d ∈ q.dimensions, d ∈ a.outputs := by
  have hspec : ∃ member g, timeDims q = [(member, g)] ∧ a.timeMember = member ∧
      a.keys = q.dimensions.filter fun d => d ≠ member := by
    unfold axisSql at h
    split at h
    · next member g hdims =>
        refine ⟨member, g, hdims, ?_⟩
        split at h
        · cases h
          exact ⟨rfl, rfl⟩
        · split at h
          · cases h
          · cases h
            exact ⟨rfl, rfl⟩
    · cases h
  obtain ⟨member, g, hdims, htime, hkeys⟩ := hspec
  have hmember : member ∈ q.dimensions :=
    timeDims_mem (g := g) (by rw [hdims]; exact List.mem_cons_self)
  rw [Axis.outputs, htime, hkeys]
  refine ⟨fun d hd => ?_, fun d hd => ?_⟩
  · rcases List.mem_cons.mp hd with rfl | hd
    · exact hmember
    · exact (List.mem_filter.mp hd).1
  · by_cases hdm : d = member
    · rw [hdm]
      exact List.mem_cons_self
    · exact List.mem_cons_of_mem _ (List.mem_filter.mpr ⟨hd, by simpa using hdm⟩)

/-- The outer part of a metric statement is well scoped over the leaf aggregate. -/
theorem metricOuter_wellScoped {cat : SemanticCatalog} {q : SemanticQuery}
    {items : List (MetricExpr × String)} {st : Expansion} {axis : Option Axis}
    {orders : List SemanticOrder} (limit : Option ℕ)
    (hproj : projectMeasures (expandCtx cat q) q.measures {} = .ok (items, st))
    (haxis : (spineMode cat q = false ∧ axis = none) ∨
      (spineMode cat q = true ∧ ∃ a, axisSql (expandCtx cat q) = .ok a ∧ axis = some a))
    (horders : resolveOrders q = .ok orders) :
    MetricOuter.WellScoped
      { items := (q.dimensions.map fun d =>
          (MetricExpr.column ⟨(expandCtx cat q).dimsAlias, d⟩, d)) ++ items
        axis := axis
        dimensions := q.dimensions
        orders := orders
        limit := limit } (q.dimensions ++ st.leaves) := by
  obtain ⟨_, hnames, hreads⟩ := projectMeasures_columns (fun _ => id) LeafInv.empty hproj
  have hcols : ∀ cols, Reads (expandCtx cat q) (spineMode cat q = true) st cols → ∀ c ∈ cols,
      MetricOuter.Defines
        { items := (q.dimensions.map fun d =>
            (MetricExpr.column ⟨(expandCtx cat q).dimsAlias, d⟩, d)) ++ items
          axis := axis
          dimensions := q.dimensions
          orders := orders
          limit := limit } (q.dimensions ++ st.leaves) c := by
    intro cols hcols c hc
    rcases hcols c hc with ⟨hrel, hname⟩ | ⟨hrel, hname⟩ | ⟨hspine, hrel, hname⟩
    · exact .inl ⟨hrel, List.mem_append_right _ hname⟩
    · rcases haxis with ⟨hno, _⟩ | ⟨hyes, a, ha, rfl⟩
      · refine .inl ⟨?_, List.mem_append_left _ hname⟩
        rw [hrel]
        simp [expandCtx, hno]
      · refine .inr ⟨?_, a, rfl, (axisSql_outputs ha).2 _ hname⟩
        rw [hrel]
        simp [expandCtx, hyes]
    · rcases haxis with ⟨hno, _⟩ | ⟨_, a, ha, rfl⟩
      · rw [hspine] at hno
        cases hno
      · exact .inr ⟨hrel, a, rfl, (axisSql_outputs ha).2 _ hname⟩
  refine ⟨?_, ?_, ?_⟩
  · intro item hitem
    rcases List.mem_append.mp hitem with hitem | hitem
    · obtain ⟨d, hd, rfl⟩ := List.mem_map.mp hitem
      refine hcols _ fun c hc => .inr (.inl ?_)
      rw [MetricExpr.columns, List.mem_singleton] at hc
      subst hc
      exact ⟨rfl, hd⟩
    · exact hcols _ (hreads item hitem)
  · intro a ha
    rcases haxis with ⟨_, hnone⟩ | ⟨_, a', ha', hsome⟩
    · rw [hnone] at ha
      cases ha
    · rw [hsome] at ha
      cases ha
      obtain ⟨hsub, hsup⟩ := axisSql_outputs ha'
      exact ⟨fun d hd => List.mem_append_left _ (hsub d hd),
        fun d hd => ⟨hsup d hd, List.mem_append_left _ hd⟩⟩
  · intro o ho
    have hmem := resolveOrders_spec horders o ho
    rw [List.map_append, List.map_map, hnames]
    simpa [Function.comp_def] using hmem

/-- **Well-scopedness** of a compiled statement: it holds exactly when every measure filter of
a query with several measure roots is on a selected member of one of the roots. -/
theorem wellScoped_iff {ord : SetOrder} {cat : SemanticCatalog} {q : SemanticQuery} {stmt : Stmt}
    (h : compileStmt ord cat q = .ok stmt) {cat' : SemanticCatalog} {q' : SemanticQuery}
    (hcore : coreQuery cat q = .ok (cat', q')) :
    stmt.WellScoped ↔ MeasureFiltersSelected cat' q' := by
  cases compileStmt_compiled h with
  | @measures q₁ stmt hseg hno hm =>
      unfold coreQuery at hcore
      rw [hseg] at hcore
      simp only [bind, Except.bind, hno, Bool.false_eq_true, if_false] at hcore
      cases hcore
      exact wellScoped_compileMeasures hm
  | @metrics q₁ items st axis orders inner hseg hyes hproj hinner haxis horders =>
      unfold coreQuery at hcore
      rw [hseg] at hcore
      simp only [bind, Except.bind, hyes, hproj, if_true] at hcore
      cases hcore
      have houter := metricOuter_wellScoped q₁.limit hproj haxis horders
      rw [← wellScoped_compileMeasures hinner, Stmt.WellScoped, outputs_compileMeasures hinner]
      exact ⟨And.right, fun hin => ⟨houter, hin⟩⟩

/-! ## A filter on an unselected measure -/

/-- Orders and tickets, each with a measure; tickets have a second one. -/
def ticketCatalog : SemanticCatalog := SemanticCatalog.new
  [{ name := "orders"
     source := "shop.orders"
     measures := [{ name := "revenue", agg := .sum, expr := "amount" }] },
   { name := "tickets"
     source := "shop.tickets"
     measures := [{ name := "opened", agg := .count, expr := "id" },
       { name := "hours", agg := .sum, expr := "hours" }] }]

/-- Revenue and tickets, filtered by the hours spent on tickets. -/
def revenueAndTickets : SemanticQuery where
  measures := ["orders.revenue", "tickets.opened"]
  filters := [{ member := "tickets.hours", op := .gt, values := ["5"] }]

def revenueAndTicketsStmt : LocalityStmt where
  ctes := [("_orders",
      { items := [(.aggregate .sum (.field "orders" "amount") [], "orders.revenue")]
        source := { root := "orders", table := ⟨"shop", "orders"⟩, aliased := true }
        wheres := []
        groupBy := [] }),
    ("_tickets",
      { items := [(.aggregate .count (.field "tickets" "id") [], "tickets.opened")]
        source := { root := "tickets", table := ⟨"shop", "tickets"⟩, aliased := true }
        wheres := []
        groupBy := [] })]
  items := [(.column ⟨.quoted "_orders", "orders.revenue"⟩, "orders.revenue"),
    (.column ⟨.quoted "_tickets", "tickets.opened"⟩, "tickets.opened")]
  first := "_orders"
  links := [.cross "_tickets"]
  wheres := [.cmp (.column ⟨.quoted "_tickets", "tickets.hours"⟩) .gt (.bare "5")]
  orders := []
  limit := none

lemma revenueAndTickets_compiles :
    compileStmt .insertion ticketCatalog revenueAndTickets =
      .ok (.locality revenueAndTicketsStmt) := by
  decide

lemma revenueAndTickets_core :
    coreQuery ticketCatalog revenueAndTickets = .ok (ticketCatalog, revenueAndTickets) := by
  rfl

/-- The tickets CTE does not select the hours. -/
lemma revenueAndTickets_unscoped : ¬ Stmt.WellScoped (.locality revenueAndTicketsStmt) := by
  intro h
  have hdef := (h.wheres _ List.mem_cons_self _ rfl).2 _ List.mem_cons_self
  obtain ⟨name, _, hrel, s, hs, hcol⟩ := hdef
  cases hrel
  simp only [revenueAndTicketsStmt, List.mem_cons, Prod.mk.injEq, List.not_mem_nil,
    or_false] at hs
  rcases hs with ⟨hname, _⟩ | ⟨_, rfl⟩
  · exact absurd hname (by decide)
  · revert hcol
    decide

/-- Accepted queries may refer to a column that no CTE selects. -/
theorem wellScoped_fails : ¬ ∀ (ord : SetOrder) (cat : SemanticCatalog) (q : SemanticQuery)
    (stmt : Stmt), compileStmt ord cat q = .ok stmt → stmt.WellScoped :=
  fun h => revenueAndTickets_unscoped (h _ _ _ _ revenueAndTickets_compiles)

/-- The filter on the hours is on an unselected measure. -/
theorem ticketFilter_unselected : ¬ MeasureFiltersSelected ticketCatalog revenueAndTickets :=
  fun h => revenueAndTickets_unscoped
    ((wellScoped_iff revenueAndTickets_compiles revenueAndTickets_core).mpr h)

end Semantic
end Pawrly
