import Pawrly.Semantic.Search

/-!
# The plan of the joins

What the breadth-first search, the walk up its parents and the rendered clause come to together
(`plansJoins`): depths are distances in the graph of the relationships, a model's fan-out and its
ambiguity are read off its way up and its neighbours, and the clause introduces the models of the
referenced ways up once each, parents first.
-/

namespace Pawrly
namespace Semantic

open Sql Routes

/-! ## The way up -/

/-- The search recorded `p` as the parent of `c`. -/
def ParentOf (reach : Reach) (c p : String) : Prop :=
  ∃ n, reach.lookup c = some n ∧ n.parent = some p

/-- `x` stands on the way from `m` up to the root, the root excluded. -/
def OnWayUp (reach : Reach) (root m x : String) : Prop :=
  Relation.ReflTransGen (ParentOf reach) m x ∧ x ≠ root

section

variable {reach : Reach} {root m x : String}

lemma ParentOf.unique {c p p' : String} (h : ParentOf reach c p) (h' : ParentOf reach c p') :
    p = p' := by
  obtain ⟨n, hn, hp⟩ := h
  obtain ⟨n', hn', hp'⟩ := h'
  rw [hn] at hn'
  obtain rfl := Option.some.inj hn'
  rw [hp] at hp'
  exact Option.some.inj hp'

lemma not_onWayUp_root (hroot : ∀ p, ¬ ParentOf reach root p) : ¬ OnWayUp reach root root x := by
  rintro ⟨hup, hne⟩
  rcases Relation.ReflTransGen.cases_head hup with rfl | ⟨p, hp, -⟩
  · exact hne rfl
  · exact hroot p hp

/-- The way up from a model starts with the model and goes on from its parent. -/
lemma onWayUp_iff {p : String} (hne : m ≠ root) (hp : ParentOf reach m p) :
    OnWayUp reach root m x ↔ x = m ∨ OnWayUp reach root p x := by
  constructor
  · rintro ⟨hup, hx⟩
    rcases Relation.ReflTransGen.cases_head hup with rfl | ⟨p', hp', hrest⟩
    · exact .inl rfl
    · obtain rfl := hp.unique hp'
      exact .inr ⟨hrest, hx⟩
  · rintro (rfl | ⟨hup, hx⟩)
    · exact ⟨.refl, hne⟩
    · exact ⟨.head hp hup, hx⟩

/-- The walk collects the way up. -/
lemma mem_ancestors_iff_wayUp (hroot : ∀ p, ¬ ParentOf reach root p) {fuel : ℕ} {chain : List String}
    (h : ancestors reach root fuel m = .ok chain) : x ∈ chain ↔ OnWayUp reach root m x := by
  induction chain generalizing fuel m with
  | nil =>
      have hm : m = root := by
        by_contra hne
        obtain ⟨_, _, _, _, _, hcons, _⟩ := ancestors_cons h hne
        cases hcons
      subst hm
      exact iff_of_false List.not_mem_nil (not_onWayUp_root hroot)
  | cons y up ih =>
      by_cases hm : m = root
      · subst hm
        cases ancestors_root h
      · obtain ⟨n, p, up', hn, hp, hcons, hup⟩ := ancestors_cons h hm
        obtain ⟨rfl, rfl⟩ := List.cons.inj hcons
        rw [List.mem_cons, ih hup, onWayUp_iff hm ⟨n, hn, hp⟩]

end

lemma root_has_no_parent (cat : SemanticCatalog) (root p : String) :
    ¬ ParentOf (reachability cat root) root p := by
  rintro ⟨n, hn, hp⟩
  obtain ⟨n', hn', -, -, hnone⟩ := (reachability_inv cat root).rootNode
  rw [hn] at hn'
  obtain rfl := Option.some.inj hn'
  rw [hp] at hnone
  cases hnone

/-! ## Fan-out -/

/-- The way up from the model crosses a `one_to_many` edge. -/
def CrossesMany (reach : Reach) (root m : String) : Prop :=
  ∃ x n, OnWayUp reach root m x ∧ reach.lookup x = some n ∧ n.kind = some .oneToMany

lemma fansOut_iff {cat : SemanticCatalog} {root m : String} {n : Node}
    (hn : (reachability cat root).lookup m = some n) :
    n.fansOut = true ↔ CrossesMany (reachability cat root) root m := by
  -- induction on the depth: the way up from a model is the model and the way up from its parent
  induction hdepth : n.depth generalizing m n with
  | zero =>
      by_cases hm : m = root
      · subst hm
        obtain ⟨n', hn', -, hfans, -⟩ := (reachability_inv cat m).rootNode
        rw [hn] at hn'
        obtain rfl := Option.some.inj hn'
        rw [hfans]
        refine iff_of_false (by decide) ?_
        rintro ⟨x, nx, hx, -⟩
        exact not_onWayUp_root (root_has_no_parent cat m) hx
      · obtain ⟨_, _, _, _, _, _, _, _, _, hd, _⟩ := (reachability_inv cat root).child m n hn hm
        omega
  | succ k ih =>
      have hm : m ≠ root := by
        rintro rfl
        obtain ⟨n', hn', hzero, -⟩ := (reachability_inv cat m).rootNode
        rw [hn] at hn'
        obtain rfl := Option.some.inj hn'
        omega
      obtain ⟨p, np, e, hp, hnp, -, -, hkind, -, hd, hfans⟩ :=
        (reachability_inv cat root).child m n hn hm
      have hparent : ∀ x, OnWayUp (reachability cat root) root m x ↔
          x = m ∨ OnWayUp (reachability cat root) root p x :=
        fun x => onWayUp_iff hm ⟨n, hn, hp⟩
      have hedge : e.fansOut = true ↔ n.kind = some .oneToMany := by
        rw [hkind]
        simp [Edge.fansOut]
      rw [hfans, Bool.or_eq_true, ih hnp (by omega), hedge]
      constructor
      · rintro (⟨x, nx, hx, hnx⟩ | hmany)
        · exact ⟨x, nx, (hparent x).mpr (.inr hx), hnx⟩
        · exact ⟨m, n, (hparent m).mpr (.inl rfl), hn, hmany⟩
      · rintro ⟨x, nx, hx, hnx, hmany⟩
        rcases (hparent x).mp hx with rfl | hx
        · rw [hn] at hnx
          obtain rfl := Option.some.inj hnx
          exact .inr hmany
        · exact .inl ⟨x, nx, hx, hnx, hmany⟩

/-! ## The needed models -/

/-- The walk up the parents ends: it fails only for a model that is not reached. -/
lemma neededModels_ok_iff {ord : SetOrder} {cat : SemanticCatalog} {root : String}
    {referenced : List String} :
    (∃ needed, neededModels ord (reachability cat root) referenced root = .ok needed) ↔
      ∀ m ∈ referenced, m ≠ root → (depthAt (reachability cat root) m).isSome = true := by
  have hchains : (∃ needed, neededModels ord (reachability cat root) referenced root = .ok needed) ↔
      ∃ chains, (referenced.filter fun m => m ≠ root).mapM (fun m =>
        ancestors (reachability cat root) root (ancestorFuel (reachability cat root) m) m) =
          .ok chains := by
    constructor
    · rintro ⟨needed, h⟩
      obtain ⟨chains, hchains, -⟩ := Fallible.bind_eq_ok.mp h
      exact ⟨chains, hchains⟩
    · rintro ⟨chains, h⟩
      exact ⟨_, Fallible.bind_eq_ok.mpr ⟨chains, h, rfl⟩⟩
  rw [hchains, Fallible.mapM_ok_iff]
  constructor
  · intro hall m hm hne
    obtain ⟨chain, hchain⟩ := hall m (List.mem_filter.mpr ⟨hm, by simpa using hne⟩)
    obtain ⟨n, _, _, hn, _⟩ := ancestors_cons hchain hne
    rw [depthAt_of_lookup hn]
    rfl
  · intro hall m hm
    obtain ⟨hmem, hne⟩ := List.mem_filter.mp hm
    obtain ⟨k, hk⟩ := Option.isSome_iff_exists.mp (hall m hmem (by simpa using hne))
    obtain ⟨n, hn, -⟩ := depthAt_eq_some.mp hk
    apply ancestors_ok (reachability_inv cat root) hn
    rw [ancestorFuel, hn]
    exact Nat.lt_succ_self _

section

variable {ord : SetOrder} {cat : SemanticCatalog} {root : String} {referenced needed : List String}

/-- The needed models are those of the referenced ways up. -/
lemma mem_needed_iff
    (h : neededModels ord (reachability cat root) referenced root = .ok needed) {x : String} :
    x ∈ needed ↔ ∃ m ∈ referenced, OnWayUp (reachability cat root) root m x := by
  have hroot := root_has_no_parent cat root
  rw [mem_neededModels h]
  constructor
  · rintro ⟨m, hm, -, chain, hchain, hx⟩
    exact ⟨m, hm, (mem_ancestors_iff_wayUp hroot hchain).mp hx⟩
  · rintro ⟨m, hm, hx⟩
    have hne : m ≠ root := by
      rintro rfl
      exact not_onWayUp_root hroot hx
    obtain ⟨chains, hchains, -⟩ := Fallible.bind_eq_ok.mp h
    obtain ⟨chain, -, hchain⟩ := Fallible.exists_of_mapM hchains
      (List.mem_filter.mpr ⟨hm, by simpa using hne⟩)
    exact ⟨m, hm, hne, chain, hchain, (mem_ancestors_iff_wayUp hroot hchain).mpr hx⟩

/-- The parent of a needed model stands before it. -/
lemma needed_parent_before
    (h : neededModels ord (reachability cat root) referenced root = .ok needed)
    {before after : List String} {x p : String} (hsplit : needed = before ++ x :: after)
    (hp : ParentOf (reachability cat root) x p) : p = root ∨ p ∈ before := by
  have hx : x ∈ needed := by
    rw [hsplit]
    exact List.mem_append_right _ List.mem_cons_self
  obtain ⟨hne, n, p', hn, hp', hor⟩ := needed_parent h hx
  obtain rfl := hp.unique ⟨n, hn, hp'⟩
  refine hor.imp_right fun hmem => ?_
  obtain ⟨q, np, _, hq, hnq, -, -, -, -, hd, -⟩ := (reachability_inv cat root).child x n hn hne
  rw [hp'] at hq
  obtain rfl := Option.some.inj hq
  have hdepth : nodeDepth (reachability cat root) x = nodeDepth (reachability cat root) p + 1 := by
    simp only [nodeDepth, hn, hnq, hd]
  have hsorted := needed_sorted h
  rw [hsplit] at hmem hsorted
  rcases List.mem_append.mp hmem with hmem | hmem
  · exact hmem
  · rcases List.mem_cons.mp hmem with rfl | hmem
    · omega
    · have hle := (List.pairwise_cons.mp (List.pairwise_append.mp hsorted).2.1).1 p hmem
      omega

/-! ## The rendered clause -/

/-- Every alias of the clause is a different one. -/
lemma renderFrom_nodup
    (h : neededModels ord (reachability cat root) referenced root = .ok needed) {f : FromClause}
    (hf : renderFrom cat root (reachability cat root) needed true = .ok f) : f.models.Nodup := by
  rw [FromClause.models, (renderFrom_joins hf).1, renderFrom_models hf, List.nodup_cons]
  exact ⟨fun hmem => (needed_parent h hmem).1 rfl, needed_nodup h⟩

/-- A join's parent is introduced before the join. -/
lemma renderFrom_parent_before
    (h : neededModels ord (reachability cat root) referenced root = .ok needed) {f : FromClause}
    (hf : renderFrom cat root (reachability cat root) needed true = .ok f)
    {before after : List Join} {j : Join} (hsplit : f.joins = before ++ j :: after) :
    j.parent = f.root ∨ j.parent ∈ before.map Join.model := by
  have hj : j ∈ f.joins := by
    rw [hsplit]
    exact List.mem_append_right _ List.mem_cons_self
  obtain ⟨hmem, n, hn, -, hparent⟩ := joinEdge_spec hf ⟨j, hj, rfl, rfl, rfl⟩
  obtain ⟨-, n', p, hn', hp, -⟩ := needed_parent h hmem
  rw [hn] at hn'
  obtain rfl := Option.some.inj hn'
  have hjp : j.parent = p := by
    rw [hparent, hp]
    rfl
  have hneeded : needed = before.map Join.model ++ j.model :: after.map Join.model := by
    rw [← renderFrom_models hf, hsplit, List.map_append, List.map_cons]
  rw [hjp, (renderFrom_joins hf).1]
  exact needed_parent_before h hneeded ⟨n, hn, hp⟩

end

/-! ## The plan -/

/-- `u` is related to `m` and one step nearer to the root. -/
def Precedes (cat : SemanticCatalog) (root u m : String) : Prop :=
  ∃ k, depthAt (reachability cat root) u = some k ∧
    depthAt (reachability cat root) m = some (k + 1) ∧ ∃ on, Relates cat u on m

/-- The joins of a query over `root` are planned along shortest routes. -/
structure PlansJoins (ord : SetOrder) (cat : SemanticCatalog) (root : String) : Prop where
  shortest : ∀ m k, depthAt (reachability cat root) m = some k ↔
    ∃ p, Shortest (Relates cat) root m p ∧ p.length = k
  parent : ∀ m n, (reachability cat root).lookup m = some n → m ≠ root →
    ∃ p e, n.parent = some p ∧ Precedes cat root p m ∧ (p, e) ∈ adjacency cat ∧ e.target = m ∧
      n.kind = some e.kind ∧ n.on = some e.on
  fansOut : ∀ m n, (reachability cat root).lookup m = some n →
    (n.fansOut = true ↔ CrossesMany (reachability cat root) root m)
  ambiguous : ∀ m n, (reachability cat root).lookup m = some n →
    (n.ambiguous = true ↔ ∃ u u', u ≠ u' ∧ Precedes cat root u m ∧ Precedes cat root u' m)
  terminates : ∀ referenced,
    (∃ needed, neededModels ord (reachability cat root) referenced root = .ok needed) ↔
      ∀ m ∈ referenced, m ≠ root → (depthAt (reachability cat root) m).isSome = true
  needed : ∀ referenced needed,
    neededModels ord (reachability cat root) referenced root = .ok needed →
      needed.Nodup ∧
      (∀ x, x ∈ needed ↔ ∃ m ∈ referenced, OnWayUp (reachability cat root) root m x) ∧
      (∀ before x after p, needed = before ++ x :: after →
        ParentOf (reachability cat root) x p → p = root ∨ p ∈ before) ∧
      ∀ f, renderFrom cat root (reachability cat root) needed true = .ok f →
        f.models = root :: needed ∧ f.models.Nodup ∧
        ∀ before j after, f.joins = before ++ j :: after →
          j.parent = root ∨ j.parent ∈ before.map Join.model

lemma precedes_iff_nearer {cat : SemanticCatalog} {root u m : String} :
    Precedes cat root u m ↔ Nearer (Relates cat) root u m := nearer_iff.symm

/-- **Joins are planned along shortest routes**, for every catalog and every root. -/
theorem plansJoins (ord : SetOrder) (cat : SemanticCatalog) (root : String) :
    PlansJoins ord cat root where
  shortest := fun m k => reachability_shortest
  parent := by
    intro m n hn hm
    obtain ⟨p, np, e, hp, hnp, he, rfl, hkind, hon, hd, -⟩ :=
      (reachability_inv cat root).child m n hn hm
    refine ⟨p, e, hp, ⟨np.depth, depthAt_of_lookup hnp, ?_, e.on, relates_of_adjacency he⟩, he, rfl,
      hkind, hon⟩
    rw [depthAt_of_lookup hn, hd]
  fansOut := fun m n hn => fansOut_iff hn
  ambiguous := by
    intro m n hn
    rw [ambiguous_iff_split hn]
    constructor
    · rintro ⟨u, u', hu, hu', hne⟩
      exact ⟨u, u', hne, precedes_iff_nearer.mpr hu, precedes_iff_nearer.mpr hu'⟩
    · rintro ⟨u, u', hne, hu, hu'⟩
      exact ⟨u, u', precedes_iff_nearer.mp hu, precedes_iff_nearer.mp hu', hne⟩
  terminates := fun referenced => neededModels_ok_iff
  needed := by
    intro referenced needed h
    refine ⟨needed_nodup h, fun x => mem_needed_iff h,
      fun before x after p hsplit hp => needed_parent_before h hsplit hp, fun f hf => ?_⟩
    have hroot := (renderFrom_joins hf).1
    refine ⟨?_, renderFrom_nodup h hf, fun before j after hsplit => ?_⟩
    · rw [FromClause.models, hroot, renderFrom_models hf]
    · rw [← hroot]
      exact renderFrom_parent_before h hf hsplit

end Semantic
end Pawrly
