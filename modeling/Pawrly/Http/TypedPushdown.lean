import Pawrly.Http.Typed
import Mathlib.Data.List.Dedup

/-!
# Exact pushdown of the typed table

Each filter is reported on its own, while the parameters are bound in one shared map.  Exactness
(`BindingsExact`): the requests represent every filter, and against a server that honours the
parameters as filters the scan returns each row of the conjunction once.
-/

namespace Pawrly
namespace Http

open Sql

/-! ## What a filter asks of its parameter -/

variable {like : String → String → Bool} {row : String → Scalar}

lemma text_of_scalarToString {s : Scalar} {v : String} (h : scalarToString s = some v) :
    s.text = some v := by
  cases s <;> first | exact h | cases h

lemma equalitySides_holds {left right : Expr} {side : String × Scalar}
    (h : equalitySides left right = some side) :
    (Expr.binary left .eq right).Holds like row ↔
      ∃ v, (row side.1).text = some v ∧ side.2.text = some v := by
  rw [Expr.binary_holds, Operator.eq_truth_yes]
  unfold equalitySides at h
  split at h
  · cases h
    rfl
  · cases h
    exact exists_congr fun v => and_comm
  · cases h

/-- A disjunction of equalities compares one column with its values. -/
lemma collectOrEqualities_spec (like : String → String → Bool) (row : String → Scalar) {f : Expr}
    {st st' : Option String × List String}
    (h : collectOrEqualities f st = some st') :
    ∃ c vals, st' = (some c, st.2 ++ vals) ∧ (∀ c', st.1 = some c' → c' = c) ∧ vals ≠ [] ∧
      (f.Holds like row ↔ ∃ v ∈ vals, (row c).text = some v) := by
  fun_induction collectOrEqualities f st generalizing st' with
  | case1 left right st ihl ihr =>
      obtain ⟨st₁, hl, hr⟩ := Option.bind_eq_some_iff.mp h
      obtain ⟨c, vals, rfl, hc, hne, hholds⟩ := ihl hl
      obtain ⟨c', vals', rfl, hc', hne', hholds'⟩ := ihr _ hr
      obtain rfl := hc' c rfl
      refine ⟨c, vals ++ vals', by rw [List.append_assoc], hc, by simp [hne], ?_⟩
      rw [Expr.or_holds, hholds, hholds']
      simp only [List.mem_append, or_and_right, exists_or]
  | case2 left right st =>
      obtain ⟨side, hside, h⟩ := Option.bind_eq_some_iff.mp h
      split_ifs at h with hother
      obtain ⟨v, hv, rfl⟩ := Option.map_eq_some_iff.mp h
      refine ⟨side.1, [v], rfl, fun c' hc' => ?_, by simp, ?_⟩
      · rw [hc'] at hother
        simpa using hother
      · rw [equalitySides_holds hside, text_of_scalarToString hv]
        simp [eq_comm]
  | case3 => cases h

lemma literals_hold {list : List Expr} {vals : List String} (h : list.mapM literalText = some vals)
    (a : Scalar) : (∃ item ∈ list, Operator.eq.truth a (item.value like row) = .yes) ↔
      ∃ v ∈ vals, a.text = some v := by
  induction list generalizing vals with
  | nil =>
      cases h
      simp
  | cons item list ih =>
      rw [List.mapM_cons] at h
      obtain ⟨v, hv, h⟩ := Option.bind_eq_some_iff.mp h
      obtain ⟨vs, hvs, heq⟩ := Option.bind_eq_some_iff.mp h
      cases heq
      have hitem : Operator.eq.truth a (item.value like row) = .yes ↔ a.text = some v := by
        unfold literalText at hv
        split at hv
        · next s =>
            rw [Operator.eq_truth_yes, Expr.value, text_of_scalarToString hv]
            simp [eq_comm]
        · cases hv
      rw [List.exists_mem_cons_iff, List.exists_mem_cons_iff, hitem, ih hvs]

/-- A filter read as a list of values holds when its column has one of them. -/
lemma extractInList_holds {f : Expr} {c : String} {vals : List String}
    (h : extractInList f = some (c, vals)) :
    f.Holds like row ↔ ∃ v ∈ vals, (row c).text = some v := by
  unfold extractInList at h
  split at h
  · next c' list =>
      obtain ⟨vals', hvals, heq⟩ := Option.map_eq_some_iff.mp h
      cases heq
      rw [Expr.inList_holds, literals_hold hvals, Expr.value]
  · obtain ⟨st, hst, h⟩ := Option.bind_eq_some_iff.mp h
    obtain ⟨c', vals', rfl, _, _, hholds⟩ := collectOrEqualities_spec like row hst
    split_ifs at h with hlen
    cases h
    rw [hholds]
    rfl
  · cases h

/-- The parameter is a placeholder of the path or body. -/
def RequestShape.fills (shape : RequestShape) (k : String) : Bool :=
  Text.contains (placeholder k) shape.endpoint ||
    shape.body.any fun body => Text.contains (placeholder k) body.template

namespace HttpTableSpec

variable (spec : HttpTableSpec)

/-- The request parameter that a filter is sent as, and the values it allows there. -/
def asks (f : Expr) : Option (String × List String) :=
  match extractInList f with
  | some list => some list
  | none => (spec.boundBy f).map fun bound => (bound.1, [bound.2])

/-- The parameter fills a placeholder of the path or body, and is no query parameter. -/
def placed (set : Params) (k : String) : Bool := (spec.selectRequest set).fills k

/-- The values of a query parameter of a request. -/
def queryValues (explode : OrderedMap String (List String)) (set : Params) (k : String) :
    List String :=
  (if spec.placed set k then [] else (set.get? k).toList) ++ (explode.get? k).getD []

/-- The values that a request carries for a filter on the parameter. -/
def carried (explode : OrderedMap String (List String)) (set : Params) (f : Expr) (k : String) :
    List String :=
  if spec.placed set k ∧ spec.explodedBy f = none then (set.get? k).toList
  else spec.queryValues explode set k

/-- Each request carries values that the filter allows, and no others, and all of them are carried
by some request. -/
structure Represented (b : Bindings) (f : Expr) (k : String) (vals : List String) : Prop where
  only : ∀ set ∈ b.sets, spec.carried b.explode set f k ≠ [] ∧
    ∀ v ∈ spec.carried b.explode set f k, v ∈ vals
  all : b.sets ≠ [] → ∀ v ∈ vals, ∃ set ∈ b.sets, v ∈ spec.carried b.explode set f k

end HttpTableSpec

/-! ## A server that honours the parameters -/

/-- A server: its rows, the values of their columns, and the rows that a parameter with a value
admits. -/
structure Server (ρ : Type) where
  rows : List ρ
  nodup : rows.Nodup
  column : ρ → String → Scalar
  admits : String → String → ρ → Bool

namespace Server

variable {ρ : Type} (s : Server ρ)

/-- The server honours each request parameter as the filter that is sent as it. -/
structure Honours (like : String → String → Bool) (spec : HttpTableSpec) (filters : List Expr) :
    Prop where
  list : ∀ f ∈ filters, ∀ c vals, extractInList f = some (c, vals) → ∀ v ∈ vals, ∀ x ∈ s.rows,
    s.admits c v x = true ↔ (s.column x c).text = some v
  cmp : ∀ f ∈ filters, extractInList f = none → ∀ q v, spec.boundBy f = some (q, v) →
    ∀ x ∈ s.rows, s.admits q v x = true ↔ f.Holds like (s.column x)

/-- The row is admitted by every parameter of the request: by the value in a placeholder, and by
one of the values of a query parameter. -/
def accepts (spec : HttpTableSpec) (explode : OrderedMap String (List String)) (set : Params)
    (x : ρ) : Bool :=
  (set.entries.all fun e => !spec.placed set e.1 || s.admits e.1 e.2 x) &&
    (set.entries.map Prod.fst ++ explode.entries.map Prod.fst).all fun k =>
      (spec.queryValues explode set k).isEmpty ||
        (spec.queryValues explode set k).any fun v => s.admits k v x

/-- The rows that the server returns over all pages of a request. -/
def answer (spec : HttpTableSpec) (set : Params) (explode : OrderedMap String (List String))
    (_limit : Option ℕ) : Except DataFusionError (List ρ) :=
  .ok (s.rows.filter (s.accepts spec explode set))

/-- The row satisfies the filters, and is admitted by the defaults and derived values of the
parameters that no filter is sent as. -/
def Selected (like : String → String → Bool) (spec : HttpTableSpec) (filters : List Expr)
    (nowEpoch : ℤ) (x : ρ) : Prop :=
  (∀ f ∈ filters, f.Holds like (s.column x)) ∧
    ∀ k v, (spec.baseParams filters nowEpoch).get? k = some v →
      (∀ f ∈ filters, ∀ ask ∈ spec.asks f, ask.1 ≠ k) → s.admits k v x = true

lemma accepts_iff {spec : HttpTableSpec} {explode : OrderedMap String (List String)}
    {set : Params} {x : ρ} : s.accepts spec explode set x = true ↔
      (∀ k v, set.get? k = some v → spec.placed set k = true → s.admits k v x = true) ∧
        ∀ k, spec.queryValues explode set k ≠ [] →
          ∃ v ∈ spec.queryValues explode set k, s.admits k v x = true := by
  unfold accepts
  rw [Bool.and_eq_true, List.all_eq_true, List.all_eq_true]
  refine and_congr ⟨fun h k v hget hplaced => ?_, fun h e he => ?_⟩
    ⟨fun h k hne => ?_, fun h k _ => ?_⟩
  · have hadmits := h (k, v) (OrderedMap.mem_entries.mpr hget)
    rwa [hplaced, Bool.not_true, Bool.false_or] at hadmits
  · rw [Bool.or_eq_true, Bool.not_eq_true']
    cases hplaced : spec.placed set e.1 with
    | false => exact .inl rfl
    | true => exact .inr (h e.1 e.2 (OrderedMap.mem_entries.mp he) hplaced)
  · have hkey : k ∈ set.entries.map Prod.fst ++ explode.entries.map Prod.fst := by
      rw [List.mem_append]
      unfold HttpTableSpec.queryValues at hne
      cases hset : set.get? k with
      | some v => exact .inl (List.mem_map_of_mem (OrderedMap.mem_entries.mpr hset))
      | none =>
          cases hexplode : explode.get? k with
          | some vals => exact .inr (List.mem_map_of_mem (OrderedMap.mem_entries.mpr hexplode))
          | none => simp [hset, hexplode] at hne
    have hany := h k hkey
    rw [Bool.or_eq_true, List.isEmpty_iff, List.any_eq_true] at hany
    exact hany.resolve_left hne
  · rw [Bool.or_eq_true, List.isEmpty_iff, List.any_eq_true]
    exact or_iff_not_imp_left.mpr (h k)

end Server

/-- The requests represent each filter of the conjunction, no request is sent twice, and a server
that honours the filters returns each selected row once. -/
structure BindingsExact (like : String → String → Bool) (spec : HttpTableSpec)
    (filters : List Expr) (nowEpoch : ℤ) (allowDefer : Bool) (b : Bindings) : Prop where
  represented : ∀ f ∈ filters, ∃ ask ∈ spec.asks f, spec.Represented b f ask.1 ask.2
  distinct : b.sets.Nodup
  rows : ∀ (ρ : Type) (s : Server ρ), s.Honours like spec filters → ∀ maxRows rows,
    scanBound spec maxRows none (s.answer spec) filters nowEpoch allowDefer = .ok (.rows rows) →
      rows.Nodup ∧ ∀ x, x ∈ rows ↔ x ∈ s.rows ∧ s.Selected like spec filters nowEpoch x

/-! ## The combinations of a fan-out -/

lemma expandFanout_nil (base : Params) : expandFanout base [] = [base] := rfl

lemma expandFanout_cons (base : Params) (e : String × List String)
    (fan : List (String × List String)) :
    expandFanout base (e :: fan) = e.2.flatMap fun v => expandFanout (base.insert e.1 v) fan := by
  have hfold : ∀ sets : List Params, fan.foldl
      (fun sets f => sets.flatMap fun s => f.2.map fun v => s.insert f.1 v) sets =
      sets.flatMap fun s => expandFanout s fan := by
    induction fan with
    | nil =>
        intro sets
        exact (List.flatMap_singleton' sets).symm
    | cons f fan ih =>
        intro sets
        rw [List.foldl_cons, ih, List.flatMap_assoc]
        refine List.flatMap_congr fun s _ => ?_
        unfold expandFanout
        rw [List.foldl_cons, ih]
        simp [expandFanout]
  unfold expandFanout
  rw [List.foldl_cons, hfold]
  simp [expandFanout, List.flatMap_map]

/-- A combination gives each fanned-out parameter a value of one of its lists. -/
lemma get?_of_mem_expandFanout {fan : List (String × List String)} {base set : Params}
    (h : set ∈ expandFanout base fan) (k : String) :
    (k ∉ fan.map Prod.fst ∧ set.get? k = base.get? k) ∨
      ∃ e ∈ fan, e.1 = k ∧ ∃ v ∈ e.2, set.get? k = some v := by
  induction fan generalizing base with
  | nil =>
      rw [expandFanout_nil, List.mem_singleton] at h
      exact .inl ⟨by simp, by rw [h]⟩
  | cons e fan ih =>
      rw [expandFanout_cons, List.mem_flatMap] at h
      obtain ⟨v, hv, hset⟩ := h
      rcases ih hset with ⟨hmem, hget⟩ | ⟨e', he', hk, hget⟩
      · by_cases hk : k = e.1
        · exact .inr ⟨e, List.mem_cons_self, hk.symm, v, hv,
            by rw [hget, hk, OrderedMap.get?_insert_self]⟩
        · refine .inl ⟨?_, by rw [hget, OrderedMap.get?_insert_of_ne _ hk]⟩
          rw [List.map_cons, List.mem_cons, not_or]
          exact ⟨hk, hmem⟩
      · exact .inr ⟨e', List.mem_cons_of_mem _ he', hk, hget⟩

/-- Every choice of values from the lists is a combination. -/
lemma exists_mem_expandFanout {fan : List (String × List String)} (choice : String → String)
    (h : ∀ e ∈ fan, choice e.1 ∈ e.2) (base : Params) :
    ∃ set ∈ expandFanout base fan, ∀ k,
      set.get? k = if k ∈ fan.map Prod.fst then some (choice k) else base.get? k := by
  induction fan generalizing base with
  | nil => exact ⟨base, List.mem_singleton_self _, fun k => by rw [if_neg (by simp)]⟩
  | cons e fan ih =>
      obtain ⟨set, hset, hget⟩ :=
        ih (fun e' he' => h e' (List.mem_cons_of_mem _ he')) (base.insert e.1 (choice e.1))
      refine ⟨set, ?_, fun k => ?_⟩
      · rw [expandFanout_cons, List.mem_flatMap]
        exact ⟨choice e.1, h e List.mem_cons_self, hset⟩
      · rw [hget, OrderedMap.get?_insert, List.map_cons]
        by_cases hk : k ∈ fan.map Prod.fst
        · rw [if_pos hk, if_pos (List.mem_cons_of_mem _ hk)]
        · rw [if_neg hk]
          by_cases heq : k = e.1
          · rw [if_pos heq, if_pos (heq ▸ List.mem_cons_self), heq]
          · rw [if_neg heq, if_neg (by simp only [List.mem_cons, not_or]; exact ⟨heq, hk⟩)]

/-- A value that is overwritten by a later list does not matter. -/
lemma expandFanout_insert {fan : List (String × List String)} {k : String}
    (h : k ∈ fan.map Prod.fst) (base : Params) (v w : String) :
    expandFanout (base.insert k v) fan = expandFanout (base.insert k w) fan := by
  induction fan generalizing base with
  | nil => cases h
  | cons e fan ih =>
      rw [expandFanout_cons, expandFanout_cons]
      refine List.flatMap_congr fun u _ => ?_
      by_cases hk : k = e.1
      · congr 1
        ext k' : 1
        rw [OrderedMap.get?_insert, OrderedMap.get?_insert, OrderedMap.get?_insert,
          OrderedMap.get?_insert, hk]
        split_ifs <;> rfl
      · have hcomm : ∀ x, (base.insert k x).insert e.1 u = (base.insert e.1 u).insert k x := by
          intro x
          ext k' : 1
          rw [OrderedMap.get?_insert, OrderedMap.get?_insert, OrderedMap.get?_insert,
            OrderedMap.get?_insert]
          split_ifs with h1 h2
          · exact absurd (h2.symm.trans h1) hk
          · rfl
          · rfl
          · rfl
        rw [hcomm, hcomm]
        exact ih ((List.mem_cons.mp h).resolve_left hk) _

lemma expandFanout_ne_nil {fan : List (String × List String)} (h : ∀ e ∈ fan, e.2 ≠ [])
    (base : Params) : expandFanout base fan ≠ [] := by
  induction fan generalizing base with
  | nil => simp [expandFanout_nil]
  | cons e fan ih =>
      obtain ⟨v, hv⟩ := List.exists_mem_of_ne_nil _ (h e List.mem_cons_self)
      rw [expandFanout_cons, ne_eq, List.flatMap_eq_nil_iff]
      exact fun hnil => ih (fun e' he' => h e' (List.mem_cons_of_mem _ he')) _ (hnil v hv)

lemma expandFanout_eq_nil {fan : List (String × List String)} {e : String × List String}
    (he : e ∈ fan) (hnil : e.2 = []) (base : Params) : expandFanout base fan = [] := by
  induction fan generalizing base with
  | nil => cases he
  | cons e' fan ih =>
      rw [expandFanout_cons]
      rcases List.mem_cons.mp he with rfl | hmem
      · rw [hnil, List.flatMap_nil]
      · rw [List.flatMap_eq_nil_iff]
        exact fun v _ => ih hmem _

/-- No combination occurs twice exactly when no list has a value twice and a parameter with
several lists has one value in all but the last. -/
lemma expandFanout_nodup_iff {fan : List (String × List String)} (h : ∀ e ∈ fan, e.2 ≠ [])
    (base : Params) : (expandFanout base fan).Nodup ↔
      (∀ e ∈ fan, e.2.Nodup) ∧ fan.Pairwise fun e e' => e.1 = e'.1 → e.2.length = 1 := by
  induction fan generalizing base with
  | nil => simp [expandFanout_nil]
  | cons e fan ih =>
      have htail : ∀ e' ∈ fan, e'.2 ≠ [] := fun e' he' => h e' (List.mem_cons_of_mem _ he')
      have hself : ∀ v, ¬ List.Disjoint (expandFanout (base.insert e.1 v) fan)
          (expandFanout (base.insert e.1 v) fan) := by
        intro v hdis
        obtain ⟨set, hset⟩ := List.exists_mem_of_ne_nil _ (expandFanout_ne_nil htail _)
        exact hdis hset hset
      rw [expandFanout_cons, List.nodup_flatMap, List.forall_mem_cons, List.pairwise_cons]
      constructor
      · rintro ⟨hinner, hdisjoint⟩
        obtain ⟨v, hv⟩ := List.exists_mem_of_ne_nil _ (h e List.mem_cons_self)
        obtain ⟨hnodup, hpairs⟩ := (ih htail _).mp (hinner v hv)
        refine ⟨⟨?_, hnodup⟩, fun e' he' heq => ?_, hpairs⟩
        · refine hdisjoint.imp fun {a b} hab => ?_
          rintro rfl
          exact hself a hab
        · have hkey : e.1 ∈ fan.map Prod.fst := heq ▸ List.mem_map_of_mem he'
          match hlist : e.2 with
          | [] => exact absurd hlist (h e List.mem_cons_self)
          | [_] => rfl
          | a :: b :: rest =>
              rw [hlist] at hdisjoint
              have hab := (List.pairwise_cons.mp hdisjoint).1 b List.mem_cons_self
              replace hab : List.Disjoint (expandFanout (base.insert e.1 a) fan)
                  (expandFanout (base.insert e.1 b) fan) := hab
              rw [expandFanout_insert hkey base a b] at hab
              exact absurd hab (hself b)
      · rintro ⟨⟨hnodup, hnodups⟩, hone, hpairs⟩
        refine ⟨fun v _ => (ih htail _).mpr ⟨hnodups, hpairs⟩, ?_⟩
        refine List.Pairwise.imp_of_mem (fun {a b} ha hb hne => ?_) hnodup
        have hkey : e.1 ∉ fan.map Prod.fst := by
          intro hmem
          obtain ⟨e', he', heq⟩ := List.mem_map.mp hmem
          obtain ⟨c, hc⟩ := List.length_eq_one_iff.mp (hone e' he' heq.symm)
          rw [hc, List.mem_singleton] at ha hb
          exact hne (ha.trans hb.symm)
        intro set hseta hsetb
        have hget : ∀ {x}, set ∈ expandFanout (base.insert e.1 x) fan →
            set.get? e.1 = some x := by
          intro x hset
          rcases get?_of_mem_expandFanout hset e.1 with ⟨_, hget⟩ | ⟨e', he', heq, _⟩
          · rw [hget, OrderedMap.get?_insert_self]
          · exact absurd (heq ▸ List.mem_map_of_mem he') hkey
        exact hne (Option.some.inj ((hget hseta).symm.trans (hget hsetb)))

end Http
end Pawrly
