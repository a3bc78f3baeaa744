import Pawrly.Semantic.JoinTree
import Pawrly.Lib.Routes

/-!
# What the search from a root finds

The search of `reachability` is breadth-first: its queue holds models of at most two
neighbouring depths (`Level`), and the depths and ambiguity flags of its nodes are determined by
the edges looked at so far (`Explored`).  With the queue empty this gives the depth of a model
as the length of its shortest routes, and its flag as their splitting at the last hop
(`reachability_shortest`, `ambiguous_iff_split`).
-/

namespace Pawrly
namespace Semantic

open Sql Routes

/-! ## The relationships of a catalog -/

/-- The models `a` and `b` are related under an `ON` text, by a relationship that one of them
declares. -/
def Relates (cat : SemanticCatalog) (a : String) (on : OnClause) (b : String) : Prop :=
  ∃ m rel, cat.model on.owner = some m ∧ rel ∈ m.relationships ∧
    rel.joinPredicate = on.predicate ∧ (cat.model rel.targetModel).isSome ∧
    ((a = on.owner ∧ b = rel.targetModel) ∨ (a = rel.targetModel ∧ b = on.owner))

/-- Relationships are told apart when one model declares both, with different predicates. -/
def Competing (on on' : OnClause) : Prop :=
  on.owner = on'.owner ∧ on.predicate ≠ on'.predicate

lemma SemanticCatalog.model_of_mem {cat : SemanticCatalog} {m : SemanticModel}
    (h : m ∈ cat.models) : cat.model m.name = some m := by
  obtain ⟨m', hm'⟩ : ∃ m', cat.model m.name = some m' :=
    Option.isSome_iff_exists.mp (List.find?_isSome.mpr ⟨m, h, by simp⟩)
  rw [hm', List.inj_on_of_nodup_map cat.models_nodup (List.mem_of_find?_eq_some hm') h
    (SemanticCatalog.name_of_model hm')]

lemma mem_declaredEdges {cat : SemanticCatalog} {a : String} {e : Edge} :
    (a, e) ∈ declaredEdges cat ↔ ∃ m ∈ cat.models, ∃ rel ∈ m.relationships,
      (cat.model rel.targetModel).isSome ∧ (a, e) ∈ relationEdges m rel := by
  simp only [declaredEdges, List.mem_flatMap, List.mem_insertionSort, List.mem_filter]
  constructor
  · rintro ⟨m, hm, rel, ⟨hrel, htarget⟩, h⟩
    exact ⟨m, hm, rel, hrel, htarget, h⟩
  · rintro ⟨m, hm, rel, hrel, htarget, h⟩
    exact ⟨m, hm, rel, ⟨hrel, htarget⟩, h⟩

lemma relates_of_mem_declaredEdges {cat : SemanticCatalog} {a : String} {e : Edge}
    (h : (a, e) ∈ declaredEdges cat) : Relates cat a e.on e.target := by
  obtain ⟨m, hm, rel, hrel, htarget, h⟩ := mem_declaredEdges.mp h
  have hmodel := SemanticCatalog.model_of_mem hm
  simp only [relationEdges, List.mem_cons, Prod.mk.injEq, List.not_mem_nil, or_false] at h
  rcases h with ⟨rfl, rfl⟩ | ⟨rfl, rfl⟩
  · exact ⟨m, rel, hmodel, hrel, rfl, htarget, .inl ⟨rfl, rfl⟩⟩
  · exact ⟨m, rel, hmodel, hrel, rfl, htarget, .inr ⟨rfl, rfl⟩⟩

lemma Relates.mem_declaredEdges {cat : SemanticCatalog} {a b : String} {on : OnClause}
    (h : Relates cat a on b) : ∃ e, (a, e) ∈ declaredEdges cat ∧ e.target = b := by
  obtain ⟨m, rel, hm, hrel, _, htarget, h⟩ := h
  have hmem := List.mem_of_find?_eq_some hm
  rw [← SemanticCatalog.name_of_model hm] at h
  rcases h with ⟨rfl, rfl⟩ | ⟨rfl, rfl⟩
  · exact ⟨_, Semantic.mem_declaredEdges.mpr
      ⟨m, hmem, rel, hrel, htarget, List.mem_cons_self⟩, rfl⟩
  · exact ⟨_, Semantic.mem_declaredEdges.mpr
      ⟨m, hmem, rel, hrel, htarget, List.mem_cons_of_mem _ List.mem_cons_self⟩, rfl⟩

/-- An edge between two models that are joined already is dropped, no other. -/
lemma foldl_pushEdge_covers (es adj : List (String × Edge)) :
    ∀ fe, fe ∈ adj ∨ fe ∈ es →
      ∃ e, (fe.1, e) ∈ es.foldl pushEdge adj ∧ e.target = fe.2.target := by
  induction es generalizing adj with
  | nil =>
      rintro fe (h | h)
      · exact ⟨fe.2, h, rfl⟩
      · cases h
  | cons e es ih =>
      have hkept : ∀ fe ∈ adj, fe ∈ pushEdge adj e := by
        intro fe h
        unfold pushEdge
        split_ifs
        · exact h
        · exact List.mem_append_left _ h
      rintro fe (h | h)
      · exact ih _ fe (.inl (hkept fe h))
      · rcases List.mem_cons.mp h with rfl | h
        · by_cases hany : adj.any (fun x => x.1 = fe.1 && x.2.target = fe.2.target) = true
          · obtain ⟨x, hx, hsame⟩ := List.any_eq_true.mp hany
            obtain ⟨h1, h2⟩ : x.1 = fe.1 ∧ x.2.target = fe.2.target := by simpa using hsame
            obtain ⟨e', he', ht⟩ := ih (pushEdge adj fe) x (.inl (hkept x hx))
            exact ⟨e', h1 ▸ he', ht.trans h2⟩
          · refine ih _ fe (.inl ?_)
            unfold pushEdge
            rw [if_neg hany]
            exact List.mem_append_right _ List.mem_cons_self
        · exact ih _ fe (.inr h)

/-- The graph that is searched joins the models that are related. -/
lemma adjacency_iff_relates {cat : SemanticCatalog} {a b : String} :
    (∃ e, (a, e) ∈ adjacency cat ∧ e.target = b) ↔ ∃ on, Relates cat a on b := by
  constructor
  · rintro ⟨e, he, rfl⟩
    rcases foldl_pushEdge_subset _ _ _ he with h | h
    · cases h
    · exact ⟨e.on, relates_of_mem_declaredEdges h⟩
  · rintro ⟨on, h⟩
    obtain ⟨e, he, rfl⟩ := h.mem_declaredEdges
    exact foldl_pushEdge_covers _ [] _ (.inr he)

lemma relates_of_adjacency {cat : SemanticCatalog} {a : String} {e : Edge}
    (h : (a, e) ∈ adjacency cat) : Relates cat a e.on e.target := by
  rcases foldl_pushEdge_subset _ _ _ h with h | h
  · cases h
  · exact relates_of_mem_declaredEdges h

/-! ## One edge -/

/-- What one edge out of `cur` does to the nodes: its end is new, or flagged, or left alone. -/
lemma visitEdge_cases (cur : String) (d : ℕ) (f : Bool) (s : Bfs) (e : Edge) :
    (s.nodes.lookup e.target = none ∧ (visitEdge cur d f s e).queue = s.queue ++ [e.target] ∧
      ∃ n : Node, n.depth = d + 1 ∧ n.parent = some cur ∧ n.ambiguous = false ∧
        (visitEdge cur d f s e).nodes = s.nodes ++ [(e.target, n)]) ∨
    ∃ n, s.nodes.lookup e.target = some n ∧ (visitEdge cur d f s e).queue = s.queue ∧
      ((n.depth = d + 1 ∧ n.parent ≠ some cur ∧
          (visitEdge cur d f s e).nodes = markAmbiguous e.target s.nodes) ∨
        (¬ (n.depth = d + 1 ∧ n.parent ≠ some cur) ∧
          (visitEdge cur d f s e).nodes = s.nodes)) := by
  unfold visitEdge
  split
  · next hnone => exact .inl ⟨hnone, rfl, _, rfl, rfl, rfl, rfl⟩
  · next n hn =>
      refine .inr ⟨n, hn, ?_, ?_⟩
      · split_ifs <;> rfl
      · split_ifs with h
        · exact .inl ⟨h.1, h.2, rfl⟩
        · exact .inr ⟨h, rfl⟩

/-- The depth a model was reached at. -/
def depthAt (nodes : Reach) (m : String) : Option ℕ := (nodes.lookup m).map Node.depth

lemma depthAt_eq_some {nodes : Reach} {m : String} {k : ℕ} :
    depthAt nodes m = some k ↔ ∃ n, nodes.lookup m = some n ∧ n.depth = k :=
  Option.map_eq_some_iff

lemma depthAt_of_lookup {nodes : Reach} {m : String} {n : Node} (h : nodes.lookup m = some n) :
    depthAt nodes m = some n.depth := by
  unfold depthAt
  rw [h]
  rfl

/-- Depths do not change; a new model is one step from `cur`. -/
lemma depthAt_visitEdge (cur : String) (d : ℕ) (f : Bool) (s : Bfs) (e : Edge) (m : String) :
    depthAt (visitEdge cur d f s e).nodes m =
      if m = e.target ∧ depthAt s.nodes m = none then some (d + 1) else depthAt s.nodes m := by
  unfold depthAt
  rcases visitEdge_cases cur d f s e with
    ⟨hnone, _, n, hd, _, _, hnodes⟩ | ⟨n, hn, _, ⟨_, _, hnodes⟩ | ⟨_, hnodes⟩⟩
  · rw [hnodes, List.lookup_append]
    by_cases hm : m = e.target
    · subst hm
      simp [hnone, hd]
    · rw [if_neg (fun h => hm h.1), List.lookup_cons, beq_eq_false_iff_ne.mpr hm]
      simp
  · rw [hnodes, lookup_markAmbiguous, if_neg (by rintro ⟨rfl, h⟩; simp [hn] at h),
      Option.map_map]
    refine congrArg (fun g => Option.map g _) (funext fun x => ?_)
    by_cases hm : m = e.target <;> simp [hm]
  · rw [hnodes, if_neg (by rintro ⟨rfl, h⟩; simp [hn] at h)]

lemma depthAt_visitEdge_of_some {cur : String} {d : ℕ} {f : Bool} {s : Bfs} {e : Edge}
    {m : String} {k : ℕ} (h : depthAt s.nodes m = some k) :
    depthAt (visitEdge cur d f s e).nodes m = some k := by
  rw [depthAt_visitEdge, if_neg (by simp [h]), h]

/-! ## The queue -/

/-- The queue is sorted by depth, from depth `d` on, and no model is deeper than `d + 1`. -/
structure Level (d : ℕ) (s : Bfs) : Prop where
  queued : ∀ m ∈ s.queue, ∃ k, depthAt s.nodes m = some k ∧ d ≤ k
  sorted : s.queue.Pairwise fun a b =>
    ∀ j k, depthAt s.nodes a = some j → depthAt s.nodes b = some k → j ≤ k
  bounded : ∀ m k, depthAt s.nodes m = some k → k ≤ d + 1

lemma Level.start (root : String) : Level 0 (Bfs.start root) where
  queued := by
    intro m hm
    rw [List.mem_singleton.mp hm]
    exact ⟨0, by simp [Bfs.start, depthAt, Node.root], Nat.zero_le _⟩
  sorted := List.pairwise_singleton _ _
  bounded := by
    intro m k h
    obtain ⟨n, hn, rfl⟩ := depthAt_eq_some.mp h
    by_cases hm : m = root
    · subst hm
      rw [Bfs.start, List.lookup_cons_self] at hn
      cases hn
      exact Nat.zero_le _
    · rw [Bfs.start, List.lookup_cons, beq_eq_false_iff_ne.mpr hm] at hn
      cases hn

/-- Taking the first model off the queue: the rest is at its depth or one below. -/
lemma Level.pop {d k : ℕ} {s : Bfs} {cur : String} {rest : List String} (h : Level d s)
    (hq : s.queue = cur :: rest) (hk : depthAt s.nodes cur = some k) :
    Level k { s with queue := rest } := by
  obtain ⟨k', hk', hle⟩ := h.queued cur (by simp [hq])
  rw [hk] at hk'
  cases hk'
  have hsorted := h.sorted
  rw [hq, List.pairwise_cons] at hsorted
  refine ⟨fun m hm => ?_, hsorted.2, fun m j hj => (h.bounded m j hj).trans (by omega)⟩
  obtain ⟨j, hj, _⟩ := h.queued m (by simp [hq, hm])
  exact ⟨j, hj, hsorted.1 m hm k j hk hj⟩

lemma Level.visitEdge {d : ℕ} {s : Bfs} (h : Level d s) (cur : String) (f : Bool) (e : Edge) :
    Level d (Semantic.visitEdge cur d f s e) := by
  have hbounded : ∀ m k, depthAt (Semantic.visitEdge cur d f s e).nodes m = some k →
      k ≤ d + 1 := by
    intro m k hk
    rw [depthAt_visitEdge] at hk
    split_ifs at hk with hnew
    · exact (Option.some.inj hk).ge
    · exact h.bounded m k hk
  have hqueued : ∀ m ∈ s.queue,
      ∃ k, depthAt (Semantic.visitEdge cur d f s e).nodes m = some k ∧ d ≤ k := by
    intro m hm
    obtain ⟨k, hk, hle⟩ := h.queued m hm
    exact ⟨k, depthAt_visitEdge_of_some hk, hle⟩
  have hsorted : s.queue.Pairwise fun a b => ∀ j k,
      depthAt (Semantic.visitEdge cur d f s e).nodes a = some j →
      depthAt (Semantic.visitEdge cur d f s e).nodes b = some k → j ≤ k := by
    refine h.sorted.imp_of_mem fun {a b} ha hb hab j k hj hk => ?_
    obtain ⟨j', hj', _⟩ := h.queued a ha
    obtain ⟨k', hk', _⟩ := h.queued b hb
    rw [depthAt_visitEdge_of_some hj'] at hj
    rw [depthAt_visitEdge_of_some hk'] at hk
    cases hj
    cases hk
    exact hab _ _ hj' hk'
  rcases visitEdge_cases cur d f s e with ⟨hnone, hqueue, _⟩ | ⟨_, _, hqueue, _⟩
  · have hnew : depthAt (Semantic.visitEdge cur d f s e).nodes e.target = some (d + 1) := by
      rw [depthAt_visitEdge, if_pos ⟨rfl, by rw [depthAt, hnone]; rfl⟩]
    refine ⟨fun m hm => ?_, ?_, hbounded⟩
    · rw [hqueue, List.mem_append, List.mem_singleton] at hm
      rcases hm with hm | rfl
      · exact hqueued m hm
      · exact ⟨d + 1, hnew, Nat.le_succ d⟩
    · rw [hqueue, List.pairwise_append]
      refine ⟨hsorted, List.pairwise_singleton _ _, fun a _ b hb j k hj hk => ?_⟩
      rw [List.mem_singleton] at hb
      subst hb
      rw [hnew] at hk
      cases hk
      exact hbounded a j hj
  · refine ⟨fun m hm => hqueued m (hqueue ▸ hm), ?_, hbounded⟩
    rw [hqueue]
    exact hsorted

/-! ## The edges looked at -/

/-- An edge of `V` comes to `m` from one step nearer, and not from its parent. -/
def SecondWay (nodes : Reach) (V : String × Edge → Prop) (m : String) (n : Node) : Prop :=
  ∃ fe, V fe ∧ fe.2.target = m ∧ n.parent ≠ some fe.1 ∧
    ∃ j, depthAt nodes fe.1 = some j ∧ n.depth = j + 1

/-- The nodes after the edges of `V` have been looked at: both ends of such an edge are reached,
the far one at most one step further, and a model is flagged when there is a second way. -/
structure Explored (nodes : Reach) (V : String × Edge → Prop) : Prop where
  met : ∀ fe, V fe → ∃ j k, depthAt nodes fe.1 = some j ∧ depthAt nodes fe.2.target = some k ∧
    k ≤ j + 1
  flagged : ∀ m n, nodes.lookup m = some n → (n.ambiguous = true ↔ SecondWay nodes V m n)

lemma Explored.start (root : String) : Explored (Bfs.start root).nodes fun _ => False where
  met := fun _ h => h.elim
  flagged := by
    intro m n hn
    by_cases hm : m = root
    · subst hm
      rw [Bfs.start, List.lookup_cons_self] at hn
      cases hn
      simp [Node.root, SecondWay]
    · rw [Bfs.start, List.lookup_cons, beq_eq_false_iff_ne.mpr hm] at hn
      cases hn

/-- The second ways once one more edge, out of `cur`, is looked at. -/
lemma Explored.secondWay_visitEdge {V : String × Edge → Prop} {d : ℕ} {s : Bfs} {cur : String}
    {f : Bool} {e : Edge} (h : Explored s.nodes V) (hcur : depthAt s.nodes cur = some d)
    (m : String) (n : Node) :
    SecondWay (Semantic.visitEdge cur d f s e).nodes (fun fe => V fe ∨ fe = (cur, e)) m n ↔
      SecondWay s.nodes V m n ∨ (e.target = m ∧ n.parent ≠ some cur ∧ n.depth = d + 1) := by
  unfold SecondWay
  constructor
  · rintro ⟨fe, hV | rfl, ht, hp, j, hj, hd⟩
    · obtain ⟨j', _, hj', _⟩ := h.met fe hV
      rw [depthAt_visitEdge_of_some hj'] at hj
      cases hj
      exact .inl ⟨fe, hV, ht, hp, _, hj', hd⟩
    · rw [depthAt_visitEdge_of_some hcur] at hj
      cases hj
      exact .inr ⟨ht, hp, hd⟩
  · rintro (⟨fe, hV, ht, hp, j, hj, hd⟩ | ⟨ht, hp, hd⟩)
    · exact ⟨fe, .inl hV, ht, hp, j, depthAt_visitEdge_of_some hj, hd⟩
    · exact ⟨(cur, e), .inr rfl, ht, hp, d, depthAt_visitEdge_of_some hcur, hd⟩

/-- Looking at one more edge. -/
lemma Explored.visitEdge {V : String × Edge → Prop} {d : ℕ} {s : Bfs} {cur : String} {f : Bool}
    {e : Edge} (h : Explored s.nodes V) (hlevel : Level d s)
    (hcur : depthAt s.nodes cur = some d) :
    Explored (Semantic.visitEdge cur d f s e).nodes fun fe => V fe ∨ fe = (cur, e) where
  met := by
    rintro fe (hV | rfl)
    · obtain ⟨j, k, hj, hk, hle⟩ := h.met fe hV
      exact ⟨j, k, depthAt_visitEdge_of_some hj, depthAt_visitEdge_of_some hk, hle⟩
    · cases hk : depthAt s.nodes e.target with
      | none =>
          refine ⟨d, d + 1, depthAt_visitEdge_of_some hcur, ?_, Nat.le_refl _⟩
          rw [depthAt_visitEdge, if_pos ⟨rfl, hk⟩]
      | some k =>
          exact ⟨d, k, depthAt_visitEdge_of_some hcur, depthAt_visitEdge_of_some hk,
            hlevel.bounded _ k hk⟩
  flagged := by
    intro m n hn
    rw [h.secondWay_visitEdge hcur]
    rcases visitEdge_cases cur d f s e with
      ⟨hnone, _, n', hd, hp, hamb, hnodes⟩ | ⟨n', hn', _, ⟨hd, hp, hnodes⟩ | ⟨hnot, hnodes⟩⟩
    · rw [hnodes] at hn
      rcases lookup_append_singleton hn with hold | ⟨rfl, rfl⟩
      · rw [h.flagged m n hold]
        refine ⟨.inl, fun hor => hor.resolve_right ?_⟩
        rintro ⟨rfl, _⟩
        rw [hnone] at hold
        cases hold
      · -- the new model: no edge looked at before leads to it, this one is from its parent
        rw [hamb]
        refine ⟨(fun hc => by cases hc), ?_⟩
        rintro (⟨fe, hV, ht, _⟩ | ⟨_, hne, _⟩)
        · obtain ⟨_, k, _, hk, _⟩ := h.met fe hV
          rw [ht, depthAt, hnone] at hk
          cases hk
        · exact absurd hp hne
    · rw [hnodes, lookup_markAmbiguous, Option.map_eq_some_iff] at hn
      obtain ⟨n₀, hn₀, rfl⟩ := hn
      by_cases hm : m = e.target
      · subst hm
        rw [hn'] at hn₀
        cases hn₀
        rw [if_pos rfl]
        exact ⟨fun _ => .inr ⟨rfl, hp, hd⟩, fun _ => rfl⟩
      · rw [if_neg hm, h.flagged m n₀ hn₀]
        exact ⟨.inl, fun hor => hor.resolve_right fun hc => hm hc.1.symm⟩
    · rw [hnodes] at hn
      rw [h.flagged m n hn]
      refine ⟨.inl, fun hor => hor.resolve_right ?_⟩
      rintro ⟨rfl, hp, hd⟩
      rw [hn] at hn'
      cases hn'
      exact hnot ⟨hd, hp⟩

/-- Looking at all edges out of `cur`. -/
lemma explored_visitEdges {V : String × Edge → Prop} {d : ℕ} {cur : String} (f : Bool)
    (es : List Edge) {s : Bfs} (hlevel : Level d s) (h : Explored s.nodes V)
    (hcur : depthAt s.nodes cur = some d) :
    Level d (es.foldl (Semantic.visitEdge cur d f) s) ∧
      Explored (es.foldl (Semantic.visitEdge cur d f) s).nodes
        fun fe => V fe ∨ (fe.1 = cur ∧ fe.2 ∈ es) := by
  induction es generalizing s V with
  | nil => simpa using ⟨hlevel, h⟩
  | cons e es ih =>
      obtain ⟨hlevel', h'⟩ := ih (hlevel.visitEdge cur f e) (h.visitEdge hlevel hcur)
        (depthAt_visitEdge_of_some hcur)
      refine ⟨hlevel', ?_⟩
      have hsame : (fun fe : String × Edge => V fe ∨ (fe.1 = cur ∧ fe.2 ∈ e :: es)) =
          fun fe => (V fe ∨ fe = (cur, e)) ∨ (fe.1 = cur ∧ fe.2 ∈ es) := by
        funext fe
        rw [List.mem_cons, Prod.ext_iff, eq_iff_iff]
        tauto
      rw [hsame]
      exact h'

/-- What the search keeps: the edges out of every model that is not queued have been looked
at. -/
structure Searching (adj : List (String × Edge)) (s : Bfs) : Prop where
  level : ∃ d, Level d s
  explored : ∃ V, Explored s.nodes V ∧ (∀ fe, V fe → fe ∈ adj) ∧
    ∀ m k, depthAt s.nodes m = some k → m ∈ s.queue ∨ ∀ e, (m, e) ∈ adj → V (m, e)

lemma Searching.start (adj : List (String × Edge)) (root : String) :
    Searching adj (Bfs.start root) where
  level := ⟨0, Level.start root⟩
  explored := by
    refine ⟨_, Explored.start root, fun _ h => h.elim, fun m k hk => .inl ?_⟩
    obtain ⟨n, hn, _⟩ := depthAt_eq_some.mp hk
    by_cases hm : m = root
    · exact List.mem_singleton.mpr hm
    · rw [Bfs.start, List.lookup_cons, beq_eq_false_iff_ne.mpr hm] at hn
      cases hn

/-- A model is queued when it is reached. -/
lemma mem_queue_visitEdges (cur : String) (d : ℕ) (f : Bool) (es : List Edge) (s : Bfs)
    (m : String) : (m ∈ s.queue → m ∈ (es.foldl (visitEdge cur d f) s).queue) ∧
      ∀ k, depthAt (es.foldl (visitEdge cur d f) s).nodes m = some k →
        depthAt s.nodes m = some k ∨ m ∈ (es.foldl (visitEdge cur d f) s).queue := by
  induction es generalizing s with
  | nil => exact ⟨id, fun k hk => .inl hk⟩
  | cons e es ih =>
      obtain ⟨hkept, hnew⟩ := ih (visitEdge cur d f s e)
      rw [List.foldl_cons]
      refine ⟨fun hm => hkept ?_, fun k hk => ?_⟩
      · rcases visitEdge_cases cur d f s e with ⟨_, hq, _⟩ | ⟨_, _, hq, _⟩
        · rw [hq]
          exact List.mem_append_left _ hm
        · rw [hq]
          exact hm
      · rcases hnew k hk with hk | hm
        · rcases visitEdge_cases cur d f s e with ⟨_, hq, _⟩ | ⟨n, hn, hq, _⟩
          · rw [depthAt_visitEdge] at hk
            split_ifs at hk with hcond
            · exact .inr (hkept (hq ▸ by simp [hcond.1]))
            · exact .inl hk
          · rw [depthAt_visitEdge, if_neg] at hk
            · exact .inl hk
            · rintro ⟨rfl, hnone⟩
              rw [depthAt_of_lookup hn] at hnone
              cases hnone
        · exact .inr hm

lemma Searching.bfsLoop {adj : List (String × Edge)} (fuel : ℕ) {s : Bfs}
    (h : Searching adj s) : Searching adj (Semantic.bfsLoop adj fuel s) := by
  induction fuel generalizing s with
  | zero => exact h
  | succ fuel ih =>
      unfold Semantic.bfsLoop
      split
      · exact h
      · next cur rest hq =>
          split
          · exact h
          · next n hn =>
              obtain ⟨⟨_, hlevel⟩, V, hV, hsub, hdone⟩ := h
              have hcur := depthAt_of_lookup hn
              have hpop : Level n.depth { s with queue := rest } := hlevel.pop hq hcur
              obtain ⟨hlevel', hV'⟩ :=
                explored_visitEdges n.fansOut (edgesFrom adj cur) hpop hV hcur
              refine ih ⟨⟨_, hlevel'⟩, _, hV', ?_, fun m k hk => ?_⟩
              · rintro ⟨a, e⟩ (h | ⟨rfl, he⟩)
                · exact hsub _ h
                · exact mem_edgesFrom.mp he
              · obtain ⟨hkept, hnew⟩ := mem_queue_visitEdges cur n.depth n.fansOut
                  (edgesFrom adj cur) { s with queue := rest } m
                rcases hnew k hk with hk | hm
                · by_cases hm : m = cur
                  · exact .inr fun e he => .inr ⟨hm, mem_edgesFrom.mpr (hm ▸ he)⟩
                  · refine (hdone m k hk).imp (fun hmem => hkept ?_) fun hall e he =>
                      .inl (hall e he)
                    rw [hq] at hmem
                    exact (List.mem_cons.mp hmem).resolve_left hm
                · exact .inl hm

/-! ## The search is done -/

/-- With the queue empty all edges out of reached models have been looked at. -/
lemma reachability_explored (cat : SemanticCatalog) (root : String) :
    Explored (reachability cat root) fun fe =>
      fe ∈ adjacency cat ∧ (depthAt (reachability cat root) fe.1).isSome := by
  obtain ⟨_, V, hV, hsub, hdone⟩ := Searching.bfsLoop (cat.models.length + 1)
    (Searching.start (adjacency cat) root)
  have hsame : V = fun fe =>
      fe ∈ adjacency cat ∧ (depthAt (reachability cat root) fe.1).isSome := by
    funext fe
    rw [eq_iff_iff]
    constructor
    · intro h
      obtain ⟨j, _, hj, _⟩ := hV.met fe h
      exact ⟨hsub fe h, Option.isSome_iff_exists.mpr ⟨j, hj⟩⟩
    · rintro ⟨hadj, hsome⟩
      obtain ⟨k, hk⟩ := Option.isSome_iff_exists.mp hsome
      rcases hdone fe.1 k hk with hm | hall
      · rw [bfsLoop_queue] at hm
        cases hm
      · exact hall fe.2 hadj
  rw [← hsame]
  exact hV

lemma depthAt_root (cat : SemanticCatalog) (root : String) :
    depthAt (reachability cat root) root = some 0 := by
  obtain ⟨n, hn, hd, _⟩ := (reachability_inv cat root).rootNode
  rw [depthAt_of_lookup hn, hd]

/-- No route is shorter than the depth of its end. -/
lemma depth_le_of_route {cat : SemanticCatalog} {root m : String}
    {p : List (String × OnClause)} (h : Route (Relates cat) root m p) :
    ∃ k, depthAt (reachability cat root) m = some k ∧ k ≤ p.length := by
  induction h with
  | nil => exact ⟨0, depthAt_root cat root, Nat.le_refl _⟩
  | @hop u v on p _ hedge ih =>
      obtain ⟨j, hj, hle⟩ := ih
      obtain ⟨e, he, rfl⟩ := adjacency_iff_relates.mpr ⟨on, hedge⟩
      obtain ⟨j', k, hj', hk, hle'⟩ := (reachability_explored cat root).met (u, e)
        ⟨he, by simp [hj]⟩
      rw [hj] at hj'
      cases hj'
      exact ⟨k, hk, hle'.trans (Nat.succ_le_succ hle)⟩

/-- The way up the search tree is a route as long as the depth. -/
lemma exists_route {cat : SemanticCatalog} {root m : String} {k : ℕ}
    (h : depthAt (reachability cat root) m = some k) :
    ∃ p, Route (Relates cat) root m p ∧ p.length = k := by
  induction k generalizing m with
  | zero =>
      obtain ⟨n, hn, hd⟩ := depthAt_eq_some.mp h
      by_cases hm : m = root
      · subst hm
        exact ⟨[], .nil, rfl⟩
      · obtain ⟨_, _, _, _, _, _, _, _, _, hdepth, _⟩ :=
          (reachability_inv cat root).child m n hn hm
        omega
  | succ k ih =>
      obtain ⟨n, hn, hd⟩ := depthAt_eq_some.mp h
      by_cases hm : m = root
      · subst hm
        rw [depthAt_root] at h
        cases h
      · obtain ⟨p, np, e, _, hnp, he, rfl, _, _, hdepth, _⟩ :=
          (reachability_inv cat root).child m n hn hm
        obtain ⟨q, hq, hlen⟩ := ih (m := p) (by rw [depthAt_of_lookup hnp]; congr 1; omega)
        exact ⟨_, hq.hop (relates_of_adjacency he), by rw [List.length_cons, hlen]⟩

/-- **The depth of a model** is the length of its shortest routes. -/
theorem reachability_shortest {cat : SemanticCatalog} {root m : String} {k : ℕ} :
    depthAt (reachability cat root) m = some k ↔
      ∃ p, Shortest (Relates cat) root m p ∧ p.length = k := by
  constructor
  · intro h
    obtain ⟨p, hp, hlen⟩ := exists_route h
    refine ⟨p, ⟨hp, fun p' hp' => ?_⟩, hlen⟩
    obtain ⟨k', hk', hle⟩ := depth_le_of_route hp'
    rw [h] at hk'
    cases hk'
    omega
  · rintro ⟨p, hp, rfl⟩
    obtain ⟨k, hk, hle⟩ := depth_le_of_route hp.1
    obtain ⟨p', hp', hlen⟩ := exists_route hk
    have := hp.2 p' hp'
    rw [hk]
    congr 1
    omega

/-- The last stops before a model: related to it and one step nearer. -/
lemma nearer_iff {cat : SemanticCatalog} {root u m : String} :
    Nearer (Relates cat) root u m ↔ ∃ k, depthAt (reachability cat root) u = some k ∧
      depthAt (reachability cat root) m = some (k + 1) ∧ ∃ on, Relates cat u on m := by
  constructor
  · rintro ⟨on, p, hp⟩
    refine ⟨p.length, reachability_shortest.mpr ⟨p, hp.tail, rfl⟩,
      reachability_shortest.mpr ⟨_, hp, rfl⟩, on, hp.1.edge_of_cons.2⟩
  · rintro ⟨k, hu, hm, on, hon⟩
    obtain ⟨p, hp, hlen⟩ := reachability_shortest.mp hu
    obtain ⟨q, hq, hqlen⟩ := reachability_shortest.mp hm
    refine ⟨on, p, hp.1.hop hon, fun p' hp' => ?_⟩
    have := hq.2 p' hp'
    rw [List.length_cons, hlen]
    omega

/-- **A flagged model** is one whose shortest routes do not all come from one model. -/
theorem ambiguous_iff_split {cat : SemanticCatalog} {root m : String} {n : Node}
    (hn : (reachability cat root).lookup m = some n) :
    n.ambiguous = true ↔ Split (Relates cat) root m := by
  have hdepth := depthAt_of_lookup hn
  rw [(reachability_explored cat root).flagged m n hn]
  constructor
  · rintro ⟨⟨u, e⟩, ⟨he, _⟩, rfl, hpar, j, hj, hd⟩
    rw [hd] at hdepth
    have hu : Nearer (Relates cat) root u e.target :=
      nearer_iff.mpr ⟨j, hj, hdepth, adjacency_iff_relates.mp ⟨e, he, rfl⟩⟩
    have hne : e.target ≠ root := by
      intro h
      rw [h, depthAt_root] at hdepth
      cases hdepth
    obtain ⟨p, np, e', hp, hnp, he', ht, _, _, hdp, _⟩ :=
      (reachability_inv cat root).child _ n hn hne
    have hpn : Nearer (Relates cat) root p e.target := by
      refine nearer_iff.mpr ⟨np.depth, depthAt_of_lookup hnp, ?_, adjacency_iff_relates.mp
        ⟨e', he', ht⟩⟩
      rw [hdepth]
      congr 1
      omega
    exact ⟨u, p, hu, hpn, fun h => hpar (h ▸ hp)⟩
  · rintro ⟨u, u', hu, hu', hne⟩
    have hsecond : ∀ w, Nearer (Relates cat) root w m → n.parent ≠ some w →
        SecondWay (reachability cat root) (fun fe => fe ∈ adjacency cat ∧
          (depthAt (reachability cat root) fe.1).isSome) m n := by
      intro w hw hpar
      obtain ⟨k, hk, hmk, hon⟩ := nearer_iff.mp hw
      obtain ⟨e, he, rfl⟩ := adjacency_iff_relates.mpr hon
      rw [hdepth] at hmk
      exact ⟨(w, e), ⟨he, by simp [hk]⟩, rfl, hpar, k, hk, Option.some.inj hmk⟩
    by_cases hpar : n.parent = some u
    · exact hsecond u' hu' fun h => hne (Option.some.inj (hpar.symm.trans h))
    · exact hsecond u hu hpar

end Semantic
end Pawrly
