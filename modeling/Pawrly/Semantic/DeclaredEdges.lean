import Pawrly.Semantic.Search
import Mathlib.Data.String.Basic

/-!
# Which declaration an edge of the graph comes from

`adjacency` goes through the models in the order of their names and keeps, for each pair of models,
the first edge that it meets: a relationship of the one, or the inversion of a relationship of the
other.  So the edge that is kept is the first declared one (`mem_adjacency_iff`), and a relationship
that a model declares loses against the inversion of one that comes from a model with a smaller name
(`declaredWins_iff`).
-/

namespace Pawrly
namespace Semantic

open Sql

/-! ## The edge that is kept -/

/-- The edge goes from `a` to `b`. -/
def joins (a b : String) (fe : String × Edge) : Bool := fe.1 = a && fe.2.target = b

lemma joins_iff {a b : String} {fe : String × Edge} :
    joins a b fe = true ↔ fe.1 = a ∧ fe.2.target = b := by
  simp [joins]

/-- Pushing edges does not change which one is found first. -/
lemma find?_foldl_pushEdge (a b : String) (es adj : List (String × Edge)) :
    (es.foldl pushEdge adj).find? (joins a b) = (adj ++ es).find? (joins a b) := by
  induction es generalizing adj with
  | nil => simp
  | cons fe es ih =>
      rw [List.foldl_cons, ih, pushEdge]
      split_ifs with hany
      · rw [List.find?_append, List.find?_append, List.find?_cons]
        cases hfe : joins a b fe with
        | false => rfl
        | true =>
            -- the edge is dropped, but one for the same pair is there already
            obtain ⟨rfl, rfl⟩ := joins_iff.mp hfe
            have hthere : (adj.find? (joins fe.1 fe.2.target)).isSome = true := by
              rw [List.find?_isSome]
              exact List.any_eq_true.mp hany
            obtain ⟨x, hx⟩ := Option.isSome_iff_exists.mp hthere
            simp [hx]
      · rw [List.append_assoc, List.singleton_append]

/-- The graph has one edge for each pair. -/
lemma foldl_pushEdge_unique {es adj : List (String × Edge)}
    (hadj : adj.Pairwise fun x y => ¬ (x.1 = y.1 ∧ x.2.target = y.2.target)) :
    (es.foldl pushEdge adj).Pairwise fun x y => ¬ (x.1 = y.1 ∧ x.2.target = y.2.target) := by
  induction es generalizing adj with
  | nil => exact hadj
  | cons fe es ih =>
      apply ih
      unfold pushEdge
      split_ifs with hany
      · exact hadj
      · rw [List.pairwise_append]
        refine ⟨hadj, List.pairwise_singleton _ _, fun x hx y hy hsame => hany ?_⟩
        rw [List.mem_singleton] at hy
        subst hy
        exact List.any_eq_true.mpr ⟨x, hx, by simpa using hsame⟩

lemma find?_of_unique {es : List (String × Edge)}
    (h : es.Pairwise fun x y => ¬ (x.1 = y.1 ∧ x.2.target = y.2.target)) {a b : String}
    {fe : String × Edge} :
    es.find? (joins a b) = some fe ↔ fe ∈ es ∧ fe.1 = a ∧ fe.2.target = b := by
  induction es with
  | nil => simp
  | cons x es ih =>
      rw [List.pairwise_cons] at h
      rw [List.find?_cons]
      cases hx : joins a b x with
      | false =>
          have hne : fe = x → ¬ (fe.1 = a ∧ fe.2.target = b) := by
            rintro rfl hc
            rw [joins_iff.mpr hc] at hx
            cases hx
          rw [ih h.2, List.mem_cons]
          constructor
          · exact fun hc => ⟨.inr hc.1, hc.2⟩
          · exact fun hc => ⟨hc.1.resolve_left fun heq => hne heq hc.2, hc.2⟩
      | true =>
          obtain ⟨ha, hb⟩ := joins_iff.mp hx
          constructor
          · intro heq
            obtain rfl := Option.some.inj heq
            exact ⟨List.mem_cons_self, ha, hb⟩
          · rintro ⟨hmem, hfa, hfb⟩
            rcases List.mem_cons.mp hmem with rfl | hmem
            · rfl
            · exact absurd ⟨ha.trans hfa.symm, hb.trans hfb.symm⟩ (h.1 fe hmem)

/-- **The edge from one model to another** is the first one that is declared, in the order of the
model names. -/
theorem mem_adjacency_iff {cat : SemanticCatalog} {a : String} {e : Edge} :
    (a, e) ∈ adjacency cat ↔ (declaredEdges cat).find? (joins a e.target) = some (a, e) := by
  have hunique : (adjacency cat).Pairwise fun x y => ¬ (x.1 = y.1 ∧ x.2.target = y.2.target) :=
    foldl_pushEdge_unique .nil
  have hfirst := find?_foldl_pushEdge a e.target (declaredEdges cat) []
  rw [List.nil_append] at hfirst
  rw [← hfirst]
  have hfind := @find?_of_unique _ hunique a e.target (a, e)
  rw [← adjacency, hfind]
  exact ⟨fun hmem => ⟨hmem, rfl, rfl⟩, fun hc => hc.1⟩

/-! ## The first declaration -/

/-- The first relationship that the model declares towards `b`. -/
def declaredTo (m : SemanticModel) (b : String) : Option Relationship :=
  m.relationships.find? fun rel => rel.targetModel = b

/-- The edge of a relationship in the direction in which it is declared. -/
def forwardEdge (m : SemanticModel) (rel : Relationship) : Edge :=
  ⟨rel.targetModel, rel.kind, ⟨m.name, rel.joinPredicate⟩⟩

/-- The inversion of a relationship. -/
def invertedEdge (m : SemanticModel) (rel : Relationship) : Edge :=
  ⟨m.name, rel.kind.invert, ⟨m.name, rel.joinPredicate⟩⟩

/-- The edges of the relationships of one model. -/
def edgesOf (cat : SemanticCatalog) (m : SemanticModel) : List (String × Edge) :=
  (m.relationships.filter fun rel => (cat.model rel.targetModel).isSome).flatMap (relationEdges m)

/-- When every relationship to `c`, and no other one, gives an edge of the pair, the first of them
gives the first edge. -/
lemma find?_edgesOf {cat : SemanticCatalog} {m : SemanticModel} {a b c : String}
    {f : Relationship → Edge} (hc : (cat.model c).isSome = true)
    (h : ∀ rel, (relationEdges m rel).find? (joins a b) =
      if rel.targetModel = c then some (a, f rel) else none) :
    (edgesOf cat m).find? (joins a b) = (declaredTo m c).map fun rel => (a, f rel) := by
  unfold edgesOf declaredTo
  induction m.relationships with
  | nil => rfl
  | cons rel rels ih =>
      by_cases ht : rel.targetModel = c
      · have hknown : (cat.model rel.targetModel).isSome = true := ht ▸ hc
        rw [List.filter_cons, if_pos hknown, List.flatMap_cons, List.find?_append, h rel, if_pos ht,
          List.find?_cons, decide_eq_true ht]
        rfl
      · rw [List.find?_cons, decide_eq_false ht, ← ih, List.filter_cons]
        split_ifs
        · rw [List.flatMap_cons, List.find?_append, h rel, if_neg ht, Option.none_or]
        · rfl

/-- A model's own edges to `b`: those of its relationships to `b`. -/
lemma find?_edgesOf_self {cat : SemanticCatalog} {m : SemanticModel} {b : String}
    (hb : (cat.model b).isSome = true) :
    (edgesOf cat m).find? (joins m.name b) =
      (declaredTo m b).map fun rel => (m.name, forwardEdge m rel) := by
  apply find?_edgesOf hb
  intro rel
  by_cases ht : rel.targetModel = b
  · simp [relationEdges, joins, forwardEdge, ht]
  · have hinv : ¬ (rel.targetModel = m.name ∧ m.name = b) := fun hc => ht (hc.1.trans hc.2)
    simp [relationEdges, joins, ht, hinv]

/-- Its edges from another model: the inversions of its relationships to that model. -/
lemma find?_edgesOf_inverted {cat : SemanticCatalog} {m : SemanticModel} {a : String}
    (ha : (cat.model a).isSome = true) (hne : a ≠ m.name) :
    (edgesOf cat m).find? (joins a m.name) =
      (declaredTo m a).map fun rel => (a, invertedEdge m rel) := by
  apply find?_edgesOf ha
  intro rel
  by_cases ht : rel.targetModel = a
  · simp [relationEdges, joins, invertedEdge, ht, hne.symm]
  · simp [relationEdges, joins, ht, hne.symm]

/-- A third model has no edges of the pair. -/
lemma find?_edgesOf_other {cat : SemanticCatalog} {m : SemanticModel} {a b : String}
    (ha : m.name ≠ a) (hb : m.name ≠ b) : (edgesOf cat m).find? (joins a b) = none := by
  rw [List.find?_eq_none]
  rintro fe hfe
  obtain ⟨rel, -, hfe⟩ := List.mem_flatMap.mp hfe
  rw [joins_iff]
  simp only [relationEdges, List.mem_cons, List.not_mem_nil, or_false] at hfe
  rcases hfe with rfl | rfl
  · exact fun hc => ha hc.1
  · exact fun hc => hb hc.2

/-- Among models in the order of their names, the edge comes from the first one that has any. -/
lemma findSome?_sorted {β : Type*} {g : SemanticModel → Option β} {l : List SemanticModel}
    (hsorted : l.Pairwise fun m m' => m.name ≤ m'.name) (hnodup : (l.map SemanticModel.name).Nodup)
    {m : SemanticModel} (hm : m ∈ l) {v : β} (hv : g m = some v)
    (hbefore : ∀ m' ∈ l, m'.name < m.name → g m' = none) : l.findSome? g = some v := by
  induction l with
  | nil => cases hm
  | cons x l ih =>
      rw [List.pairwise_cons] at hsorted
      rw [List.map_cons, List.nodup_cons] at hnodup
      rw [List.findSome?_cons]
      rcases List.mem_cons.mp hm with rfl | hml
      · rw [hv]
      · have hne : x.name ≠ m.name := fun heq => hnodup.1 (heq ▸ List.mem_map_of_mem hml)
        have hx : g x = none :=
          hbefore x List.mem_cons_self (lt_of_le_of_ne (hsorted.1 m hml) hne)
        rw [hx]
        exact ih hsorted.2 hnodup.2 hml fun m' hm' => hbefore m' (List.mem_cons_of_mem _ hm')

lemma find?_declaredEdges {cat : SemanticCatalog} {a b : String} {m : SemanticModel}
    (hm : m ∈ cat.models) {fe : String × Edge} (hfe : (edgesOf cat m).find? (joins a b) = some fe)
    (hbefore : ∀ m' ∈ cat.models, m'.name < m.name → (edgesOf cat m').find? (joins a b) = none) :
    (declaredEdges cat).find? (joins a b) = some fe := by
  have : Std.Total fun m m' : SemanticModel => m.name ≤ m'.name := ⟨fun m m' => le_total _ _⟩
  have : IsTrans SemanticModel fun m m' => m.name ≤ m'.name := ⟨fun _ _ _ => le_trans⟩
  have hperm := cat.models.perm_insertionSort fun m m' => m.name ≤ m'.name
  show ((cat.models.insertionSort fun a b => a.name ≤ b.name).flatMap (edgesOf cat)).find? _ = _
  rw [List.find?_flatMap]
  apply findSome?_sorted (cat.models.pairwise_insertionSort fun m m' => m.name ≤ m'.name)
    ((hperm.map SemanticModel.name).nodup_iff.mpr cat.models_nodup) (hperm.mem_iff.mpr hm) hfe
  intro m' hm' hlt
  exact hbefore m' (hperm.mem_iff.mp hm') hlt

/-! ## Declared edges and inverted ones -/

/-- The model itself declares the edge: a relationship with its end, its cardinality and its `ON`
text. -/
def Declares (m : SemanticModel) (e : Edge) : Prop :=
  ∃ rel ∈ m.relationships, rel.targetModel = e.target ∧ rel.kind = e.kind ∧
    (⟨m.name, rel.joinPredicate⟩ : OnClause).render = e.on.render

/-- The edge that is kept from `m` to `m'` is one that `m` declares. -/
def DeclaredWins (cat : SemanticCatalog) (m m' : SemanticModel) : Prop :=
  ∃ e, (m.name, e) ∈ adjacency cat ∧ e.target = m'.name ∧ Declares m e

lemma declares_forwardEdge {m : SemanticModel} {rel : Relationship} (h : rel ∈ m.relationships) :
    Declares m (forwardEdge m rel) := ⟨rel, h, rfl, rfl, rfl⟩

lemma declaredTo_spec {m : SemanticModel} {b : String} {rel : Relationship}
    (h : declaredTo m b = some rel) : rel ∈ m.relationships ∧ rel.targetModel = b := by
  have hb := List.find?_some h
  exact ⟨List.mem_of_find?_eq_some h, by simpa using hb⟩

section

variable {cat : SemanticCatalog} {m m' : SemanticModel}

lemma declaredWins_of_find? {e : Edge} (ht : e.target = m'.name)
    (h : (declaredEdges cat).find? (joins m.name m'.name) = some (m.name, e)) :
    DeclaredWins cat m m' ↔ Declares m e := by
  constructor
  · rintro ⟨e', he', ht', hdeclares⟩
    rw [mem_adjacency_iff, ht', h] at he'
    obtain rfl : e = e' := (Prod.mk.inj (Option.some.inj he')).2
    exact hdeclares
  · intro hdeclares
    rw [← ht] at h
    exact ⟨e, mem_adjacency_iff.mpr h, ht, hdeclares⟩

/-- Of the other models only the end of the pair has edges of it. -/
lemma eq_of_edgesOf {x : SemanticModel} (hm : m ∈ cat.models) (hm' : m' ∈ cat.models)
    (hx : x ∈ cat.models) (hedges : (edgesOf cat x).find? (joins m.name m'.name) ≠ none) :
    x = m ∨ x = m' := by
  by_contra hne
  rw [not_or] at hne
  apply hedges
  apply find?_edgesOf_other
  · exact fun heq => hne.1 (List.inj_on_of_nodup_map cat.models_nodup hx hm heq)
  · exact fun heq => hne.2 (List.inj_on_of_nodup_map cat.models_nodup hx hm' heq)

/-- **A declared edge wins** exactly when the model that declares it comes first by name, or the
other model declares nothing towards it, or the inversion of what the other model declares first is
an edge that it declares itself. -/
theorem declaredWins_iff (hm : m ∈ cat.models) (hm' : m' ∈ cat.models)
    (hdeclared : (declaredTo m m'.name).isSome = true) :
    DeclaredWins cat m m' ↔
      m.name ≤ m'.name ∨
        ∀ rel, declaredTo m' m.name = some rel → Declares m (invertedEdge m' rel) := by
  have hknown : (cat.model m.name).isSome = true := by
    rw [SemanticCatalog.model_of_mem hm]
    rfl
  have hknown' : (cat.model m'.name).isSome = true := by
    rw [SemanticCatalog.model_of_mem hm']
    rfl
  obtain ⟨rel, hrel⟩ := Option.isSome_iff_exists.mp hdeclared
  have hforward : (edgesOf cat m).find? (joins m.name m'.name) =
      some (m.name, forwardEdge m rel) := by
    rw [find?_edgesOf_self hknown', hrel]
    rfl
  have hdeclares : Declares m (forwardEdge m rel) := declares_forwardEdge (declaredTo_spec hrel).1
  -- nothing of the pair stands before `m` unless `m'` does
  have hown : (m'.name < m.name → declaredTo m' m.name = none) → DeclaredWins cat m m' := by
    intro hfirst
    refine (declaredWins_of_find? (declaredTo_spec hrel).2
      (find?_declaredEdges hm hforward fun x hx hlt => ?_)).mpr hdeclares
    by_contra hedges
    rcases eq_of_edgesOf hm hm' hx hedges with rfl | rfl
    · exact lt_irrefl _ hlt
    · apply hedges
      rw [find?_edgesOf_inverted hknown hlt.ne', hfirst hlt]
      rfl
  by_cases hle : m.name ≤ m'.name
  · exact iff_of_true (hown fun hlt => absurd hlt (not_lt.mpr hle)) (.inl hle)
  · have hlt : m'.name < m.name := not_le.mp hle
    rw [or_iff_right hle]
    cases hother : declaredTo m' m.name with
    | none => exact iff_of_true (hown fun _ => hother) (by simp)
    | some rel' =>
        have hinverted : (edgesOf cat m').find? (joins m.name m'.name) =
            some (m.name, invertedEdge m' rel') := by
          rw [find?_edgesOf_inverted hknown hlt.ne', hother]
          rfl
        rw [declaredWins_of_find? (e := invertedEdge m' rel') rfl
          (find?_declaredEdges hm' hinverted fun x hx hxlt => ?_)]
        · simp
        · by_contra hedges
          rcases eq_of_edgesOf hm hm' hx hedges with rfl | rfl
          · exact lt_asymm hlt hxlt
          · exact lt_irrefl _ hxlt

end

/-! ## Two models that declare each other -/

/-- A model with one relationship. -/
def relatedModel (name target predicate : String) (kind : RelationshipKind) : SemanticModel where
  name := name
  source := "shop." ++ name
  relationships := [{ name := target, kind := kind, targetModel := target, joinPredicate := predicate }]

def accountsModel : SemanticModel :=
  relatedModel "accounts" "orders" "this.id = orders.account_id" .oneToOne

def ordersModel : SemanticModel :=
  relatedModel "orders" "accounts" "this.billed_to = accounts.id" .manyToOne

def bothDeclare : SemanticCatalog := SemanticCatalog.new [accountsModel, ordersModel]

/-- The smaller name keeps its own edge. -/
theorem accounts_declaredWins : DeclaredWins bothDeclare accountsModel ordersModel :=
  (declaredWins_iff (by decide) (by decide) (by decide)).mpr (.inl (by decide))

/-- Orders are joined to accounts by what the accounts declare. -/
theorem orders_not_declaredWins :
    ¬ ∀ (cat : SemanticCatalog) (m m' : SemanticModel), m ∈ cat.models → m' ∈ cat.models →
      (declaredTo m m'.name).isSome = true → DeclaredWins cat m m' := by
  intro hall
  obtain ⟨e, he, ht, rel, hrel, -, hkind, -⟩ :=
    hall bothDeclare ordersModel accountsModel (by decide) (by decide) (by decide)
  have hedge : (declaredEdges bothDeclare).find? (joins "orders" "accounts") =
      some ("orders", invertedEdge accountsModel
        ⟨"orders", .oneToOne, "orders", "this.id = orders.account_id"⟩) := by decide
  rw [mem_adjacency_iff, ht] at he
  obtain rfl := (Prod.mk.inj (Option.some.inj (hedge.symm.trans he))).2
  rw [List.mem_singleton.mp hrel] at hkind
  cases hkind

end Semantic
end Pawrly
