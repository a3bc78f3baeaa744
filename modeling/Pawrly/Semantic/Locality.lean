import Pawrly.Semantic.Scoping
import Pawrly.Sql.Relation

/-!
# The result of an aggregate-locality statement

The outer part of an aggregate-locality statement is evaluated over given contents of its
CTEs: the `FROM` chain by `OuterJoin`, a column of a padded CTE as `NULL`, `COALESCE` as the
first value that is not `NULL`, `IS NOT DISTINCT FROM` as equality of possibly-`NULL` values.

`locality_rows`: over CTEs with one row for each key tuple the statement returns one row for
each key tuple of any CTE, holding the tuple and every measure's value at it.
-/

namespace Pawrly

/-! ## Evaluation -/

namespace Sql

open OuterJoin

variable {V : Type*}

/-- An outer expression over a joined row; only columns and coalesced columns are ones. -/
def SqlExpr.evalOuter (e : Joined String (Row V)) : SqlExpr → Option (Option V)
  | column c => some (c.eval e)
  | coalesce args => some (Sql.coalesce (args.map (Column.eval e)))
  | _ => none

/-- `COALESCE(prev) IS NOT DISTINCT FROM new` for every shared dimension. -/
def notDistinct [DecidableEq V] (cte : String) (conds : List (List Column × Column))
    (e : Joined String (Row V)) (r : Row V) : Bool :=
  conds.all fun cond =>
    coalesce (cond.1.map (Column.eval e)) = cond.2.eval (extend padding cte r)

/-- Join one further CTE. -/
def CteLink.eval [DecidableEq V] (T : String → List (Row V)) (es : List (Joined String (Row V))) :
    CteLink → List (Joined String (Row V))
  | cross cte => OuterJoin.cross cte es (T cte)
  | fullOuter cte conds => OuterJoin.fullOuter (notDistinct cte conds) cte es (T cte)

/-- The rows of the outer `FROM`. -/
def LocalityStmt.joined [DecidableEq V] (l : LocalityStmt) (T : String → List (Row V)) :
    List (Joined String (Row V)) :=
  l.links.foldl (CteLink.eval T) ((T l.first).map (extend padding l.first))

/-- The rows of the outer `SELECT`, before measure filters, ordering and limit. -/
def LocalityStmt.rows [DecidableEq V] (l : LocalityStmt) (T : String → List (Row V)) :
    Option (List (List (Option V))) :=
  (l.joined T).mapM fun e => l.items.mapM fun item => item.1.evalOuter e

/-- Contents of the CTEs of a statement grouped by `dims`: one row for each key tuple, and a
single row when there is nothing to group by. -/
structure CteContents (V : Type*) (dims ctes : List String) where
  rows : String → List (Row V)
  keyed : ∀ c ∈ ctes, ((rows c).map (keyOf dims)).Nodup
  total : dims = [] → ∀ c ∈ ctes, (rows c).length = 1

lemma coalesce_eq {vs : List (Option V)} {v : Option V} (hall : ∀ x ∈ vs, x = none ∨ x = v)
    (hmem : v ∈ vs) : coalesce vs = v := by
  unfold coalesce
  induction vs with
  | nil => cases hmem
  | cons x vs ih =>
      rw [List.findSome?_cons]
      cases x with
      | some y =>
          rcases hall (some y) List.mem_cons_self with hnone | hv
          · cases hnone
          · exact hv
      | none =>
          simp only [id_eq]
          have hall' : ∀ x ∈ vs, x = none ∨ x = v := fun x hx => hall x (List.mem_cons_of_mem _ hx)
          rcases List.mem_cons.mp hmem with rfl | hmem
          · rw [List.findSome?_eq_none_iff]
            intro x hx
            exact (hall' x hx).elim id id
          · exact ih hall' hmem

end Sql

namespace Semantic

open Sql OuterJoin

/-! ## The chain of joins -/

section

variable {V : Type*} [DecidableEq V] {dims : List String} {T : String → List (Row V)}

/-- Where a listed key comes from one of the CTEs `prev`, a shared dimension coalesced over
them is the key's component. -/
lemma coalesce_joinedAt {scope prev : List String} {p d : String} {r : Row V}
    (hscope : ∀ x ∈ prev, cteName x ∈ scope)
    (hT : ((T (cteName p)).map (keyOf dims)).Nodup) (hp : p ∈ prev)
    (hr : r ∈ T (cteName p)) (hd : d ∈ dims) :
    coalesce ((prev.map fun x => cteColumn x d).map
      (Column.eval (joinedAt T (keyOf dims) scope (keyOf dims r)))) = r d := by
  have heval : ∀ x ∈ prev,
      (cteColumn x d).eval (joinedAt T (keyOf dims) scope (keyOf dims r)) =
        (rowAt (keyOf dims) (T (cteName x)) (keyOf dims r)).bind fun r' => r' d := by
    intro x hx
    simp [Column.eval, cteColumn, RelName.name, joinedAt, hscope x hx]
  apply coalesce_eq
  · intro v hv
    rw [List.map_map] at hv
    obtain ⟨x, hx, rfl⟩ := List.mem_map.mp hv
    rw [Function.comp_apply, heval x hx]
    cases hrow : rowAt (keyOf dims) (T (cteName x)) (keyOf dims r) with
    | none => exact .inl rfl
    | some r' =>
        right
        exact List.map_inj_left.mp (rowAt_spec hrow).2 d hd
  · rw [List.map_map]
    refine List.mem_map.mpr ⟨p, hp, ?_⟩
    rw [Function.comp_apply, heval p hp, rowAt_of_mem hT hr]
    rfl

/-- The condition of a link compares the key tuple of the new row with the joined one. -/
lemma notDistinct_iff {scope prev : List String} {p c : String} {r r' : Row V}
    (hscope : ∀ x ∈ prev, cteName x ∈ scope)
    (hT : ((T (cteName p)).map (keyOf dims)).Nodup) (hp : p ∈ prev)
    (hr : r ∈ T (cteName p)) :
    notDistinct (cteName c) (dims.map fun d => (prev.map fun x => cteColumn x d, cteColumn c d))
        (joinedAt T (keyOf dims) scope (keyOf dims r)) r' = true ↔
      keyOf dims r' = keyOf dims r := by
  unfold notDistinct
  rw [List.all_map, List.all_eq_true]
  have hkeys : keyOf dims r' = keyOf dims r ↔ ∀ d ∈ dims, r' d = r d := List.map_inj_left
  rw [hkeys]
  refine forall₂_congr fun d hd => ?_
  have hnew : (cteColumn c d).eval (extend padding (cteName c) r') = r' d := by
    simp [Column.eval, cteColumn, RelName.name, extend]
  simp only [Function.comp_apply, decide_eq_true_eq]
  rw [hnew, coalesce_joinedAt hscope hT hp hr hd]
  exact eq_comm

/-- The keys of the CTEs joined so far. -/
def Covers (T : String → List (Row V)) (dims prev : List String) (keys : List (List (Option V))) :
    Prop :=
  keys.Nodup ∧ ∀ k, k ∈ keys ↔ ∃ r ∈ prev, k ∈ (T (cteName r)).map (keyOf dims)

/-- A `FULL OUTER JOIN` of the chain adds the keys of one CTE. -/
lemma eval_fullOuter {prev : List String} {r : String} {keys : List (List (Option V))}
    (hnew : r ∉ prev) (hkeys : Covers T dims prev keys)
    (hT : ∀ x ∈ prev ++ [r], ((T (cteName x)).map (keyOf dims)).Nodup) :
    ∃ keys', Covers T dims (prev ++ [r]) keys' ∧
      (CteLink.fullOuter (cteName r)
          (dims.map fun d => (prev.map fun p => cteColumn p d, cteColumn r d))).eval T
        (aligned T (keyOf dims) (prev.map cteName) keys) =
      aligned T (keyOf dims) ((prev ++ [r]).map cteName) keys' := by
  obtain ⟨hnodup, hmem⟩ := hkeys
  have hTr : ((T (cteName r)).map (keyOf dims)).Nodup := hT r (by simp)
  have hfresh : cteName r ∉ prev.map cteName := by
    intro h
    obtain ⟨x, hx, heq⟩ := List.mem_map.mp h
    exact hnew (cteName_injective heq ▸ hx)
  refine ⟨keys ++ freshKeys (keyOf dims) (T (cteName r)) keys, ⟨?_, ?_⟩, ?_⟩
  · refine List.Nodup.append hnodup (hTr.filter _) ?_
    intro k hk hk'
    exact (mem_freshKeys.mp hk').2 hk
  · intro k
    rw [List.mem_append, mem_freshKeys, hmem k]
    constructor
    · rintro (⟨x, hx, hk⟩ | ⟨hk, _⟩)
      · exact ⟨x, List.mem_append_left _ hx, hk⟩
      · exact ⟨r, by simp, hk⟩
    · rintro ⟨x, hx, hk⟩
      by_cases hold : ∃ x ∈ prev, k ∈ (T (cteName x)).map (keyOf dims)
      · exact .inl hold
      · right
        rcases List.mem_append.mp hx with hx | hx
        · exact absurd ⟨x, hx, hk⟩ hold
        · rw [List.mem_singleton] at hx
          subst hx
          exact ⟨hk, hold⟩
  · rw [List.map_append, List.map_singleton]
    refine fullOuter_aligned hfresh hTr ?_ ?_
    · intro c hc row hrow
      obtain ⟨x, hx, rfl⟩ := List.mem_map.mp hc
      exact (hmem _).mpr ⟨x, hx, List.mem_map_of_mem hrow⟩
    · intro k hk row _
      obtain ⟨p, hp, hkp⟩ := (hmem k).mp hk
      obtain ⟨rp, hrp, rfl⟩ := List.mem_map.mp hkp
      exact notDistinct_iff (fun x hx => List.mem_map_of_mem hx)
        (hT p (List.mem_append_left _ hp)) hp hrp

omit [DecidableEq V] in
/-- Without shared dimensions the only key is the empty tuple. -/
lemma Covers.eq_singleton {prev : List String} {keys : List (List (Option V))}
    (hkeys : Covers T dims prev keys) (hdims : dims = []) (hne : prev ≠ [])
    (htotal : ∀ x ∈ prev, (T (cteName x)).length = 1) : keys = [[]] := by
  subst hdims
  obtain ⟨hnodup, hmem⟩ := hkeys
  have hnil : ∀ k ∈ keys, k = [] := by
    intro k hk
    obtain ⟨_, _, hk⟩ := (hmem k).mp hk
    obtain ⟨row, _, rfl⟩ := List.mem_map.mp hk
    rfl
  obtain ⟨p, hp⟩ := List.exists_mem_of_ne_nil prev hne
  obtain ⟨row, hrow⟩ := List.length_eq_one_iff.mp (htotal p hp)
  have hin : [] ∈ keys := by
    refine (hmem []).mpr ⟨p, hp, ?_⟩
    rw [hrow]
    exact List.mem_singleton.mpr rfl
  match keys, hnodup, hnil, hin with
  | [k], _, hnil, _ => rw [hnil k List.mem_cons_self]
  | k :: k' :: ks, hnodup, hnil, _ =>
      have hk := hnil k (by simp)
      have hk' := hnil k' (by simp)
      rw [hk, hk'] at hnodup
      simp at hnodup

/-- A `CROSS JOIN` of the chain keeps the single row of grand totals. -/
lemma eval_cross {prev : List String} {r : String} {keys : List (List (Option V))}
    (hnew : r ∉ prev) (hkeys : Covers T [] prev keys) (hne : prev ≠ [])
    (htotal : ∀ x ∈ prev ++ [r], (T (cteName x)).length = 1) :
    Covers T [] (prev ++ [r]) keys ∧
      (CteLink.cross (cteName r)).eval T (aligned T (keyOf []) (prev.map cteName) keys) =
        aligned T (keyOf []) ((prev ++ [r]).map cteName) keys := by
  have hfresh : cteName r ∉ prev.map cteName := by
    intro h
    obtain ⟨x, hx, heq⟩ := List.mem_map.mp h
    exact hnew (cteName_injective heq ▸ hx)
  have hsingle := hkeys.eq_singleton rfl hne fun x hx => htotal x (List.mem_append_left _ hx)
  refine ⟨⟨hkeys.1, fun k => ?_⟩, ?_⟩
  · rw [hkeys.2 k]
    constructor
    · rintro ⟨x, hx, hk⟩
      exact ⟨x, List.mem_append_left _ hx, hk⟩
    · rintro ⟨x, _, hk⟩
      obtain ⟨row, _, rfl⟩ := List.mem_map.mp hk
      rw [← hkeys.2, hsingle]
      exact List.mem_singleton.mpr rfl
  · rw [hsingle, List.map_append, List.map_singleton]
    exact cross_aligned hfresh (htotal r (by simp)) fun row _ => rfl

/-- The whole chain: one joined row for each key of any CTE. -/
lemma eval_cteLinks {prev rest : List String} {keys : List (List (Option V))}
    (hnodup : (prev ++ rest).Nodup) (hne : prev ≠ []) (hkeys : Covers T dims prev keys)
    (hT : ∀ x ∈ prev ++ rest, ((T (cteName x)).map (keyOf dims)).Nodup)
    (htotal : dims = [] → ∀ x ∈ prev ++ rest, (T (cteName x)).length = 1) :
    ∃ keys', Covers T dims (prev ++ rest) keys' ∧
      (cteLinks dims prev rest).foldl (CteLink.eval T)
        (aligned T (keyOf dims) (prev.map cteName) keys) =
      aligned T (keyOf dims) ((prev ++ rest).map cteName) keys' := by
  induction rest generalizing prev keys with
  | nil => exact ⟨keys, by simpa using hkeys, by simp [cteLinks]⟩
  | cons r rest ih =>
      have hsplit : prev ++ r :: rest = (prev ++ [r]) ++ rest := by simp
      have hsub : ∀ x ∈ prev ++ [r], x ∈ prev ++ r :: rest := by
        intro x hx
        rw [hsplit]
        exact List.mem_append_left _ hx
      have hr : r ∉ prev := by
        intro h
        rw [List.nodup_append] at hnodup
        exact hnodup.2.2 r h r List.mem_cons_self rfl
      have hstep : ∃ keys', Covers T dims (prev ++ [r]) keys' ∧
          (if dims.isEmpty then CteLink.cross (cteName r)
            else .fullOuter (cteName r)
              (dims.map fun d => (prev.map fun p => cteColumn p d, cteColumn r d))).eval T
            (aligned T (keyOf dims) (prev.map cteName) keys) =
          aligned T (keyOf dims) ((prev ++ [r]).map cteName) keys' := by
        cases dims with
        | nil => exact ⟨keys, eval_cross hr hkeys hne fun x hx => htotal rfl x (hsub x hx)⟩
        | cons d ds => exact eval_fullOuter hr hkeys fun x hx => hT x (hsub x hx)
      obtain ⟨keys', hkeys', heval⟩ := hstep
      rw [cteLinks, List.foldl_cons, heval, hsplit]
      rw [hsplit] at hnodup hT htotal
      exact ih hnodup (by simp) hkeys' hT htotal

lemma mapM_eq_some {α β : Type*} {f : α → Option β} {g : α → β} {l : List α}
    (h : ∀ x ∈ l, f x = some (g x)) : l.mapM f = some (l.map g) := by
  induction l with
  | nil => rfl
  | cons a l ih =>
      rw [List.mapM_cons, h a List.mem_cons_self, ih fun x hx => h x (List.mem_cons_of_mem _ hx)]
      rfl

/-! ## The returned rows -/

/-- The value of a measure at a key: the owning CTE's, or `NULL` when that CTE has no such
key. -/
def measureAt (dims : List String) (T : String → List (Row V)) (k : List (Option V))
    (m : String) : Option V :=
  match memberModel m with
  | .ok r => (rowAt (keyOf dims) (T (cteName r)) k).bind fun row => row m
  | .error _ => none

/-- The items of the outer `SELECT` at a key. -/
lemma LocalityPlan.items_eval {ord : SetOrder} {cat : SemanticCatalog} {q : SemanticQuery}
    {roots : List String} {l : LocalityStmt} (p : LocalityPlan ord cat q roots l)
    (hroots : measureRoots cat q = .ok roots) {r : String} (hr : r ∈ roots) {row : Row V}
    (hrow : row ∈ T (cteName r))
    (hT : ((T (cteName r)).map (keyOf q.dimensions)).Nodup) :
    (l.items.mapM fun item => item.1.evalOuter
        (joinedAt T (keyOf q.dimensions) (roots.map cteName) (keyOf q.dimensions row))) =
      some (keyOf q.dimensions row ++
        q.measures.map (measureAt q.dimensions T (keyOf q.dimensions row))) := by
  have hscope : ∀ x ∈ roots, cteName x ∈ roots.map cteName := fun x hx => List.mem_map_of_mem hx
  have hdims : ∀ d ∈ q.dimensions, coalesce ((roots.map fun x => cteColumn x d).map
      (Column.eval (joinedAt T (keyOf q.dimensions) (roots.map cteName)
        (keyOf q.dimensions row)))) = row d := fun d hd =>
    coalesce_joinedAt hscope hT hr hrow hd
  have hmeasures : ∀ m ∈ q.measures, ∀ item, ownedItem m = .ok item →
      item.1.evalOuter (joinedAt T (keyOf q.dimensions) (roots.map cteName)
        (keyOf q.dimensions row)) =
        some (measureAt q.dimensions T (keyOf q.dimensions row) m) := by
    intro m hm item hitem
    obtain ⟨root, hroot, heq⟩ := Fallible.bind_eq_ok.mp hitem
    cases heq
    have hmem : root ∈ roots := (mem_foldlM_pushModel hroots).mpr (.inr ⟨m, hm, hroot⟩)
    simp only [SqlExpr.evalOuter, Column.eval, cteColumn, RelName.name, measureAt, hroot]
    simp [joinedAt, hmem, cteName_injective.eq_iff]
  rw [p.items, List.mapM_append]
  have hfirst : ((q.dimensions.map fun d =>
      ((.coalesce (roots.map fun r => cteColumn r d), d) : SqlExpr × String)).mapM fun item =>
        item.1.evalOuter (joinedAt T (keyOf q.dimensions) (roots.map cteName)
          (keyOf q.dimensions row))) = some (keyOf q.dimensions row) := by
    rw [List.mapM_map]
    exact mapM_eq_some fun d hd => congrArg some (hdims d hd)
  have hsecond : (p.measureItems.mapM fun item => item.1.evalOuter
      (joinedAt T (keyOf q.dimensions) (roots.map cteName) (keyOf q.dimensions row))) =
      some (q.measures.map (measureAt q.dimensions T (keyOf q.dimensions row))) := by
    have hturns := Fallible.mapM_eq_ok_iff.mp p.measureItems_eq
    revert hturns hmeasures
    generalize q.measures = ms
    generalize p.measureItems = items
    intro hmeasures hturns
    induction hturns with
    | nil => rfl
    | cons hturn _ ih =>
        rw [List.mapM_cons, hmeasures _ List.mem_cons_self _ hturn,
          ih fun m hm => hmeasures m (List.mem_cons_of_mem _ hm)]
        rfl
  rw [hfirst, hsecond]
  rfl

/-- **Aggregate locality**: over CTEs with one row for each key tuple, the statement returns
one row for each key tuple of any CTE; the row holds the tuple and, for each measure, the
owning CTE's value at that key or `NULL`.  Without shared dimensions it is the single row of
the grand totals. -/
theorem locality_rows {ord : SetOrder} {cat : SemanticCatalog} {q : SemanticQuery}
    {roots : List String} {l : LocalityStmt} (hroots : measureRoots cat q = .ok roots)
    (hlen : 2 ≤ roots.length) (h : compileAggregateLocality ord cat q roots = .ok l)
    (C : CteContents V q.dimensions (l.ctes.map Prod.fst)) :
    (∃ keys : List (List (Option V)), keys.Nodup ∧
      (∀ k, k ∈ keys ↔ ∃ r ∈ roots, k ∈ (C.rows (cteName r)).map (keyOf q.dimensions)) ∧
      l.rows C.rows =
        some (keys.map fun k => k ++ q.measures.map (measureAt q.dimensions C.rows k))) ∧
    (q.dimensions = [] →
      l.rows C.rows = some [q.measures.map (measureAt q.dimensions C.rows [])]) := by
  obtain ⟨p⟩ := compileAggregateLocality_plan h
  have hctes : ∀ r ∈ roots, cteName r ∈ l.ctes.map Prod.fst := by
    intro r hr
    rw [p.cte_names]
    exact List.mem_map_of_mem hr
  have hT : ∀ r ∈ roots, ((C.rows (cteName r)).map (keyOf q.dimensions)).Nodup :=
    fun r hr => C.keyed _ (hctes r hr)
  have htotal : q.dimensions = [] → ∀ r ∈ roots, (C.rows (cteName r)).length = 1 :=
    fun hd r hr => C.total hd _ (hctes r hr)
  have hnodup : roots.Nodup := foldlM_pushModel_nodup hroots List.nodup_nil
  -- the chain starts with the rows of the first CTE
  obtain ⟨first, rest, hsplit⟩ : ∃ first rest, roots = first :: rest := by
    match roots, hlen with
    | r :: rest, _ => exact ⟨r, rest, rfl⟩
  have hfirst : first ∈ roots := by simp [hsplit]
  have hstart : Covers C.rows q.dimensions [first]
      ((C.rows (cteName first)).map (keyOf q.dimensions)) :=
    ⟨hT first hfirst, fun k => by simp⟩
  have happ : [first] ++ rest = roots := by simp [hsplit]
  obtain ⟨keys, hkeys, hchain⟩ := eval_cteLinks (happ ▸ hnodup) (List.cons_ne_nil first [])
    hstart (happ.symm ▸ hT) (happ.symm ▸ htotal)
  rw [happ] at hkeys hchain
  have hjoined : l.joined C.rows =
      aligned C.rows (keyOf q.dimensions) (roots.map cteName) keys := by
    have hhead : roots.headD "" = first := by simp [hsplit]
    have htake : roots.take 1 = [first] := by simp [hsplit]
    have hdrop : roots.drop 1 = rest := by simp [hsplit]
    unfold LocalityStmt.joined
    rw [p.first, p.links, hhead, htake, hdrop, first_aligned (hT first hfirst)]
    exact hchain
  have hrows : l.rows C.rows =
      some (keys.map fun k => k ++ q.measures.map (measureAt q.dimensions C.rows k)) := by
    unfold LocalityStmt.rows
    rw [hjoined]
    unfold aligned
    rw [List.mapM_map]
    refine mapM_eq_some fun k hk => ?_
    obtain ⟨r, hr, hkr⟩ := (hkeys.2 k).mp hk
    obtain ⟨row, hrow, rfl⟩ := List.mem_map.mp hkr
    exact p.items_eval hroots hr hrow (hT r hr)
  refine ⟨⟨keys, hkeys.1, hkeys.2, hrows⟩, fun hd => ?_⟩
  rw [hrows, hkeys.eq_singleton hd (by simp [hsplit]) (htotal hd)]
  rfl

end

/-! ## Orders and tickets by customer -/

def supportCatalog : SemanticCatalog := SemanticCatalog.new
  [{ name := "orders"
     source := "shop.orders"
     measures := [{ name := "revenue", agg := .sum, expr := "amount" }]
     relationships := [{ name := "customer", kind := .manyToOne, targetModel := "customers"
                         joinPredicate := "this.customer_id = customers.id" }] },
   { name := "tickets"
     source := "shop.tickets"
     measures := [{ name := "opened", agg := .count, expr := "id" }]
     relationships := [{ name := "customer", kind := .manyToOne, targetModel := "customers"
                         joinPredicate := "this.customer_id = customers.id" }] },
   { name := "customers"
     source := "shop.customers"
     dimensions := [{ name := "name", expr := "name", dataType := .string }] }]

/-- Revenue and tickets by customer name. -/
def revenueAndTicketsByName : SemanticQuery where
  measures := ["orders.revenue", "tickets.opened"]
  dimensions := ["customers.name"]

def supportCte (table measure : String) (agg : SqlExpr) : Select where
  items := [(.field "customers" "name", "customers.name"), (agg, measure)]
  source :=
    { root := table
      table := ⟨"shop", table⟩
      aliased := true
      joins := [⟨.manyToOne, ⟨"shop", "customers"⟩, "customers", table,
        ⟨table, "this.customer_id = customers.id"⟩⟩] }
  wheres := []
  groupBy := [.field "customers" "name"]

def supportStmt : LocalityStmt where
  ctes := [("_orders", supportCte "orders" "orders.revenue"
      (.aggregate .sum (.field "orders" "amount") [])),
    ("_tickets", supportCte "tickets" "tickets.opened"
      (.aggregate .count (.field "tickets" "id") []))]
  items := [(.coalesce [cteColumn "orders" "customers.name", cteColumn "tickets" "customers.name"],
      "customers.name"),
    (.column (cteColumn "orders" "orders.revenue"), "orders.revenue"),
    (.column (cteColumn "tickets" "tickets.opened"), "tickets.opened")]
  first := "_orders"
  links := [.fullOuter "_tickets"
    [([cteColumn "orders" "customers.name"], cteColumn "tickets" "customers.name")]]
  wheres := []
  orders := []
  limit := none

def supportRow (name : Option ℕ) (measure : String) (value : ℕ) : Row ℕ := fun column =>
  if column = "customers.name" then name else if column = measure then some value else none

/-- A customer with orders only, one with tickets only, and both for no customer. -/
def supportContents : CteContents ℕ ["customers.name"] ["_orders", "_tickets"] where
  rows := fun cte =>
    if cte = "_orders" then
      [supportRow (some 1) "orders.revenue" 10, supportRow none "orders.revenue" 20]
    else [supportRow none "tickets.opened" 3, supportRow (some 2) "tickets.opened" 4]
  keyed := by decide
  total := by simp

theorem locality_rows_support :
    (∃ keys : List (List (Option ℕ)), keys.Nodup ∧
      (∀ k, k ∈ keys ↔ ∃ r ∈ ["orders", "tickets"],
        k ∈ (supportContents.rows (cteName r)).map (keyOf ["customers.name"])) ∧
      supportStmt.rows supportContents.rows =
        some (keys.map fun k => k ++ ["orders.revenue", "tickets.opened"].map
          (measureAt ["customers.name"] supportContents.rows k))) :=
  (@locality_rows _ _ .insertion supportCatalog revenueAndTicketsByName ["orders", "tickets"]
    supportStmt (by decide) (by decide) (by decide) supportContents).1

example : supportStmt.rows supportContents.rows =
    some [[some 1, some 10, none], [none, some 20, some 3], [some 2, none, some 4]] := by
  decide

end Semantic
end Pawrly
