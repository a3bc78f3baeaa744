import Pawrly.Semantic.Reach

/-!
# The join tree of a compiled `FROM`

`needed_models` walks from every referenced model up the parents of the reachability map, and
`render_from` joins the models it meets, parents before children.

The main facts: the models of the clause are the root and the needed models
(`renderFrom_models`), every referenced model is among them (`mem_needed_of_referenced`),
every needed model's parent stands before it (`needed_parent`), and the joins are the edges of
a rooted tree in the sense of `RootedTree` (`joinEdge_isRooted`).
-/

namespace Pawrly
namespace Semantic

open Sql

/-! ## Needed models -/

/-- The iteration order of a hash set: some permutation of its elements. -/
structure SetOrder where
  order : List String → List String
  perm : ∀ l, (order l).Perm l

/-- Iteration in insertion order. -/
def SetOrder.insertion : SetOrder := ⟨fun l => l, fun l => List.Perm.refl l⟩

/-- The walk from a model up to the root, the root excluded. -/
def ancestors (reach : Reach) (root : String) : ℕ → String → Except SemanticError (List String)
  | 0, cur => .error (.relationshipCycle cur)
  | fuel + 1, cur =>
      if cur = root then .ok []
      else
        match reach.lookup cur with
        | none => .error (.relationshipCycle cur)
        | some node =>
            match node.parent with
            | none => .error (.relationshipCycle cur)
            | some p => do
                let up ← ancestors reach root fuel p
                .ok (cur :: up)

/-- One turn for each level between the model and the root. -/
def ancestorFuel (reach : Reach) (m : String) : ℕ :=
  match reach.lookup m with
  | some n => n.depth + 1
  | none => 1

def nodeDepth (reach : Reach) (m : String) : ℕ :=
  match reach.lookup m with
  | some n => n.depth
  | none => 2 ^ 32 - 1

/-- The non-root models that connect `referenced` back to `root`, parents before children. -/
def neededModels (ord : SetOrder) (reach : Reach) (referenced : List String) (root : String) :
    Except SemanticError (List String) := do
  let chains ← (referenced.filter fun m => m ≠ root).mapM fun m =>
    ancestors reach root (ancestorFuel reach m) m
  .ok ((ord.order chains.flatten.dedup).insertionSort fun a b =>
    nodeDepth reach a ≤ nodeDepth reach b)

/-! ### The walk succeeds and stays inside the map -/

lemma ancestors_ok {adj : List (String × Edge)} {root : String} {reach : Reach}
    (hinv : ReachInv adj root reach) {m : String} {n : Node} (hn : reach.lookup m = some n)
    {fuel : ℕ} (hfuel : n.depth < fuel) :
    ∃ chain, ancestors reach root fuel m = .ok chain := by
  induction fuel generalizing m n with
  | zero => omega
  | succ fuel ih =>
      unfold ancestors
      by_cases hm : m = root
      · exact ⟨[], by rw [if_pos hm]⟩
      · obtain ⟨p, np, _, hp, hnp, _, _, _, _, hd, _⟩ := hinv.child m n hn hm
        obtain ⟨chain, hchain⟩ := ih hnp (by omega)
        refine ⟨m :: chain, ?_⟩
        rw [if_neg hm, hn]
        simp only [hp]
        rw [hchain]
        rfl

lemma ancestors_cons {reach : Reach} {root : String} {fuel : ℕ} {m : String}
    {chain : List String} (h : ancestors reach root fuel m = .ok chain) (hne : m ≠ root) :
    ∃ n p up, reach.lookup m = some n ∧ n.parent = some p ∧ chain = m :: up ∧
      ancestors reach root (fuel - 1) p = .ok up := by
  cases fuel with
  | zero => cases h
  | succ fuel =>
      unfold ancestors at h
      rw [if_neg hne] at h
      split at h
      · cases h
      · next n hn =>
          split at h
          · cases h
          · next p hp =>
              obtain ⟨up, hup, heq⟩ := Fallible.bind_eq_ok.mp h
              cases heq
              exact ⟨n, p, up, hn, hp, rfl, hup⟩

lemma ancestors_root {reach : Reach} {root : String} {fuel : ℕ} {chain : List String}
    (h : ancestors reach root fuel root = .ok chain) : chain = [] := by
  cases fuel with
  | zero => cases h
  | succ fuel =>
      rw [ancestors, if_pos rfl] at h
      cases h
      rfl

/-- Every model of the walk is reached, differs from the root and has its parent either at
the root or in the walk. -/
lemma ancestors_mem {reach : Reach} {root : String} {fuel : ℕ} {m : String}
    {chain : List String} (h : ancestors reach root fuel m = .ok chain) :
    ∀ x ∈ chain, x ≠ root ∧ ∃ n p, reach.lookup x = some n ∧ n.parent = some p ∧
      (p = root ∨ p ∈ chain) := by
  induction chain generalizing fuel m with
  | nil => intro x hx; cases hx
  | cons y up ih =>
      by_cases hm : m = root
      · subst hm
        cases ancestors_root h
      · obtain ⟨n, p, up', hn, hp, heq, hup⟩ := ancestors_cons h hm
        cases heq
        intro x hx
        rcases List.mem_cons.mp hx with rfl | hx
        · refine ⟨hm, n, p, hn, hp, ?_⟩
          by_cases hpr : p = root
          · exact .inl hpr
          · obtain ⟨_, _, up', _, _, heq, _⟩ := ancestors_cons hup hpr
            exact .inr (by simp [heq])
        · obtain ⟨hxr, n', p', hn', hp', hor⟩ := ih hup x hx
          refine ⟨hxr, n', p', hn', hp', ?_⟩
          rcases hor with h' | h'
          · exact .inl h'
          · exact .inr (List.mem_cons_of_mem _ h')

lemma mem_neededModels {ord : SetOrder} {reach : Reach} {referenced needed : List String}
    {root : String} (h : neededModels ord reach referenced root = .ok needed) {x : String} :
    x ∈ needed ↔ ∃ m ∈ referenced, m ≠ root ∧
      ∃ chain, ancestors reach root (ancestorFuel reach m) m = .ok chain ∧ x ∈ chain := by
  obtain ⟨chains, hchains, heq⟩ := Fallible.bind_eq_ok.mp h
  cases heq
  rw [List.mem_insertionSort, (ord.perm _).mem_iff, List.mem_dedup, List.mem_flatten]
  constructor
  · rintro ⟨chain, hmem, hx⟩
    obtain ⟨m, hm, hchain⟩ := Fallible.mem_of_mapM hchains hmem
    rw [List.mem_filter] at hm
    exact ⟨m, hm.1, by simpa using hm.2, chain, hchain, hx⟩
  · rintro ⟨m, hm, hne, chain, hchain, hx⟩
    obtain ⟨chain', hmem, hchain'⟩ := Fallible.exists_of_mapM hchains
      (List.mem_filter.mpr ⟨hm, by simpa using hne⟩)
    rw [hchain] at hchain'
    cases hchain'
    exact ⟨chain, hmem, hx⟩

/-- Every referenced model other than the root is joined. -/
lemma mem_needed_of_referenced {ord : SetOrder} {reach : Reach}
    {referenced needed : List String} {root : String}
    (h : neededModels ord reach referenced root = .ok needed) {m : String}
    (hm : m ∈ referenced) (hne : m ≠ root) : m ∈ needed := by
  obtain ⟨chains, hchains, _⟩ := Fallible.bind_eq_ok.mp h
  obtain ⟨chain, _, hchain⟩ := Fallible.exists_of_mapM hchains
    (List.mem_filter.mpr ⟨hm, by simpa using hne⟩)
  obtain ⟨_, _, up, _, _, heq, _⟩ := ancestors_cons hchain hne
  exact (mem_neededModels h).mpr ⟨m, hm, hne, chain, hchain, by simp [heq]⟩

/-- Every needed model is reached, differs from the root, and its parent is the root or
needed as well. -/
lemma needed_parent {ord : SetOrder} {reach : Reach} {referenced needed : List String}
    {root : String} (h : neededModels ord reach referenced root = .ok needed) {x : String}
    (hx : x ∈ needed) : x ≠ root ∧ ∃ n p, reach.lookup x = some n ∧ n.parent = some p ∧
      (p = root ∨ p ∈ needed) := by
  obtain ⟨m, hm, hne, chain, hchain, hxc⟩ := (mem_neededModels h).mp hx
  obtain ⟨hxr, n, p, hn, hp, hor⟩ := ancestors_mem hchain x hxc
  refine ⟨hxr, n, p, hn, hp, hor.imp_right fun hpc => ?_⟩
  exact (mem_neededModels h).mpr ⟨m, hm, hne, chain, hchain, hpc⟩

lemma needed_sorted {ord : SetOrder} {reach : Reach} {referenced needed : List String}
    {root : String} (h : neededModels ord reach referenced root = .ok needed) :
    needed.Pairwise fun a b => nodeDepth reach a ≤ nodeDepth reach b := by
  obtain ⟨chains, _, heq⟩ := Fallible.bind_eq_ok.mp h
  cases heq
  have : Std.Total fun a b => nodeDepth reach a ≤ nodeDepth reach b :=
    ⟨fun a b => Nat.le_total _ _⟩
  have : IsTrans String fun a b => nodeDepth reach a ≤ nodeDepth reach b :=
    ⟨fun a b c h1 h2 => Nat.le_trans h1 h2⟩
  exact List.pairwise_insertionSort _ _

lemma needed_nodup {ord : SetOrder} {reach : Reach} {referenced needed : List String}
    {root : String} (h : neededModels ord reach referenced root = .ok needed) :
    needed.Nodup := by
  obtain ⟨chains, _, heq⟩ := Fallible.bind_eq_ok.mp h
  cases heq
  exact ((List.perm_insertionSort _ _).trans (ord.perm _)).nodup_iff.mpr (List.nodup_dedup _)

/-! ## Rendering the clause -/

/-- One `JOIN` of the clause. -/
def renderJoin (cat : SemanticCatalog) (root : String) (reach : Reach) (m : String) :
    Except SemanticError Join :=
  match reach.lookup m with
  | none => .error (.relationshipCycle m)
  | some node =>
      match node.kind, node.on with
      | some kind, some on => do
          let table ← qualifiedTable cat m
          .ok { kind := kind, table := table, model := m, parent := node.parent.getD root, on := on }
      | _, _ => .error (.relationshipCycle m)

/-- Render the `FROM` clause from the reachability map; unaliased for a single model. -/
def renderFrom (cat : SemanticCatalog) (root : String) (reach : Reach) (needed : List String)
    (joined : Bool) : Except SemanticError FromClause := do
  let table ← qualifiedTable cat root
  if joined then do
    let joins ← needed.mapM (renderJoin cat root reach)
    .ok { root := root, table := table, aliased := true, joins := joins }
  else
    .ok { root := root, table := table, aliased := false }

lemma renderJoin_spec {cat : SemanticCatalog} {root : String} {reach : Reach} {m : String}
    {j : Join} (h : renderJoin cat root reach m = .ok j) :
    j.model = m ∧ ∃ n, reach.lookup m = some n ∧ n.kind = some j.kind ∧ n.on = some j.on ∧
      j.parent = n.parent.getD root := by
  unfold renderJoin at h
  split at h
  · cases h
  · next n hn =>
      split at h
      · next kind on hk hon =>
          obtain ⟨t, _, heq⟩ := Fallible.bind_eq_ok.mp h
          cases heq
          exact ⟨rfl, n, hn, hk, hon, rfl⟩
      · cases h

lemma renderFrom_joins {cat : SemanticCatalog} {root : String} {reach : Reach}
    {needed : List String} {joined : Bool} {f : FromClause}
    (h : renderFrom cat root reach needed joined = .ok f) :
    f.root = root ∧ f.aliased = joined ∧
      ((joined = true ∧ needed.mapM (renderJoin cat root reach) = .ok f.joins) ∨
        (joined = false ∧ f.joins = [])) := by
  obtain ⟨t, _, h⟩ := Fallible.bind_eq_ok.mp h
  cases joined with
  | true =>
      obtain ⟨joins, hj, heq⟩ := Fallible.bind_eq_ok.mp h
      cases heq
      exact ⟨rfl, rfl, .inl ⟨rfl, hj⟩⟩
  | false =>
      cases h
      exact ⟨rfl, rfl, .inr ⟨rfl, rfl⟩⟩

/-- The joined models are the needed ones, in their order. -/
lemma renderFrom_models {cat : SemanticCatalog} {root : String} {reach : Reach}
    {needed : List String} {f : FromClause}
    (h : renderFrom cat root reach needed true = .ok f) :
    f.joins.map Join.model = needed := by
  obtain ⟨_, _, ⟨_, hj⟩ | ⟨hc, _⟩⟩ := renderFrom_joins h
  · rw [Fallible.map_of_mapM hj (k := id) fun m j hmj => (renderJoin_spec hmj).1, List.map_id]
  · cases hc

/-- The edges of a clause's join tree. -/
def joinEdge (f : FromClause) (p c : String) (k : RelationshipKind) : Prop :=
  ∃ j ∈ f.joins, j.parent = p ∧ j.model = c ∧ j.kind = k

/-- What a join of a rendered clause records: the edge of the reachability map into its
model. -/
lemma joinEdge_spec {cat : SemanticCatalog} {root : String} {reach : Reach}
    {needed : List String} {joined : Bool} {f : FromClause}
    (h : renderFrom cat root reach needed joined = .ok f) {p c : String}
    {k : RelationshipKind} (he : joinEdge f p c k) :
    c ∈ needed ∧ ∃ n, reach.lookup c = some n ∧ n.kind = some k ∧ p = n.parent.getD root := by
  obtain ⟨j, hj, rfl, rfl, rfl⟩ := he
  obtain ⟨_, _, ⟨_, hjs⟩ | ⟨_, hnil⟩⟩ := renderFrom_joins h
  · obtain ⟨m, hm, hmj⟩ := Fallible.mem_of_mapM hjs hj
    obtain ⟨rfl, n, hn, hk, _, hp⟩ := renderJoin_spec hmj
    exact ⟨hm, n, hn, hk, hp⟩
  · rw [hnil] at hj
    cases hj

/-- The joins of a rendered clause form a rooted tree. -/
lemma joinEdge_isRooted {ord : SetOrder} {cat : SemanticCatalog} {root : String}
    {referenced needed : List String} {joined : Bool} {f : FromClause}
    (hneed : neededModels ord (reachability cat root) referenced root = .ok needed)
    (h : renderFrom cat root (reachability cat root) needed joined = .ok f) :
    RootedTree.IsRooted (joinEdge f) where
  unique_parent := by
    intro p p' c k k' he he'
    obtain ⟨_, n, hn, hk, hp⟩ := joinEdge_spec h he
    obtain ⟨_, n', hn', hk', hp'⟩ := joinEdge_spec h he'
    rw [hn] at hn'
    cases hn'
    rw [hk] at hk'
    cases hk'
    exact ⟨hp.trans hp'.symm, rfl⟩
  depth := by
    refine ⟨nodeDepth (reachability cat root), fun p c k he => ?_⟩
    obtain ⟨hc, n, hn, _, hp⟩ := joinEdge_spec h he
    obtain ⟨hcr, _⟩ := needed_parent hneed hc
    obtain ⟨p', np, _, hp', hnp, _, _, _, _, hd, _⟩ :=
      (reachability_inv cat root).child c n hn hcr
    rw [hp', Option.getD_some] at hp
    subst hp
    simp only [nodeDepth, hn, hnp, hd]

/-- Every joined model lies below the root of the clause. -/
lemma above_root {ord : SetOrder} {cat : SemanticCatalog} {root : String}
    {referenced needed : List String} {f : FromClause}
    (hneed : neededModels ord (reachability cat root) referenced root = .ok needed)
    (h : renderFrom cat root (reachability cat root) needed true = .ok f) {m : String}
    (hm : m ∈ f.models) : RootedTree.Above (joinEdge f) m root := by
  have hroot := (renderFrom_joins h).1
  have hmodels := renderFrom_models h
  -- induction on the depth of the model in the reachability map
  induction hdep : nodeDepth (reachability cat root) m using Nat.strong_induction_on
    generalizing m with
  | _ d ih =>
      by_cases hmr : m = root
      · rw [hmr]
        exact Relation.ReflTransGen.refl
      · have hmn : m ∈ needed := by
          rcases List.mem_cons.mp hm with hm | hm
          · exact absurd (hm.trans hroot) hmr
          · rwa [hmodels] at hm
        obtain ⟨_, n, p, hn, hp, hor⟩ := needed_parent hneed hmn
        obtain ⟨p', np, _, hp', hnp, _, _, _, _, hd, _⟩ :=
          (reachability_inv cat root).child m n hn hmr
        rw [hp] at hp'
        cases hp'
        obtain ⟨_, _, ⟨_, hjs⟩ | ⟨hc, _⟩⟩ := renderFrom_joins h
        · obtain ⟨j, hj, hmj⟩ := Fallible.exists_of_mapM hjs hmn
          obtain ⟨hjm, n', hn', _, _, hjp⟩ := renderJoin_spec hmj
          rw [hn] at hn'
          cases hn'
          rw [hp, Option.getD_some] at hjp
          have hpmem : p ∈ f.models := by
            rcases hor with rfl | hpn
            · exact List.mem_cons.mpr (.inl hroot.symm)
            · exact List.mem_cons_of_mem _ (hmodels ▸ hpn)
          have hlt : nodeDepth (reachability cat root) p < d := by
            rw [← hdep]
            simp only [nodeDepth, hn, hnp]
            omega
          have hup := ih _ hlt hpmem rfl
          exact Relation.ReflTransGen.head ⟨j.kind, j, hj, hjp, hjm, rfl⟩ hup
        · cases hc

end Semantic
end Pawrly
