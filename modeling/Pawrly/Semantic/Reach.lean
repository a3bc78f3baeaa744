import Pawrly.Semantic.Catalog
import Pawrly.Lib.Fallible
import Pawrly.Lib.RootedTree
import Mathlib.Data.List.Sort
import Mathlib.Data.List.Dedup

/-!
# Reachability from a root model

The relationship graph of a catalog, the breadth-first search of `reachability` and the join
tree that `needed_models` and `render_from` build from it.

The search keeps the parent, the edge and the cumulative fan-out of the first path that
reaches a model.  `ReachInv` is its invariant: every reached model other than the root has a
reached parent one level up, and its node records the edge from that parent.  Everything the
compiler's correctness needs of the search follows from it, and `bfsLoop_queue` shows that
the fuel of the model's loop empties the queue.

The set of needed models is a hash set in the source, so its iteration order is arbitrary: it
is a parameter (`SetOrder`) here.
-/

namespace Pawrly
namespace Semantic

open Sql

/-! ## The relationship graph -/

/-- One directed edge; `kind` is the cardinality in the direction of travel. -/
structure Edge where
  target : String
  kind : RelationshipKind
  on : OnClause
  deriving DecidableEq

/-- True when traversing the edge multiplies the source rows. -/
def Edge.fansOut (e : Edge) : Bool := e.kind = .oneToMany

/-- The forward and the inverted edge of a declared relationship. -/
def relationEdges (model : SemanticModel) (rel : Relationship) : List (String × Edge) :=
  let on : OnClause := ⟨model.name, rel.joinPredicate⟩
  [(model.name, ⟨rel.targetModel, rel.kind, on⟩),
    (rel.targetModel, ⟨model.name, rel.kind.invert, on⟩)]

/-- Keep at most one edge for each `(from, target)` pair. -/
def pushEdge (adj : List (String × Edge)) (fe : String × Edge) : List (String × Edge) :=
  if adj.any fun x => x.1 = fe.1 && x.2.target = fe.2.target then adj else adj ++ [fe]

/-- The edges of all relationships with a known target, in the order of the model names. -/
def declaredEdges (cat : SemanticCatalog) : List (String × Edge) :=
  (cat.models.insertionSort fun a b => a.name ≤ b.name).flatMap fun m =>
    (m.relationships.filter fun rel => (cat.model rel.targetModel).isSome).flatMap
      (relationEdges m)

/-- The bidirectional relationship graph. -/
def adjacency (cat : SemanticCatalog) : List (String × Edge) :=
  (declaredEdges cat).foldl pushEdge []

def edgesFrom (adj : List (String × Edge)) (src : String) : List Edge :=
  (adj.filter fun fe => fe.1 = src).map Prod.snd

lemma mem_edgesFrom {adj : List (String × Edge)} {src : String} {e : Edge} :
    e ∈ edgesFrom adj src ↔ (src, e) ∈ adj := by
  simp only [edgesFrom, List.mem_map, List.mem_filter, decide_eq_true_eq]
  constructor
  · rintro ⟨⟨s, e'⟩, ⟨hmem, rfl⟩, rfl⟩
    exact hmem
  · intro h
    exact ⟨(src, e), ⟨h, rfl⟩, rfl⟩

lemma foldl_pushEdge_subset (es adj : List (String × Edge)) :
    ∀ fe ∈ es.foldl pushEdge adj, fe ∈ adj ∨ fe ∈ es := by
  induction es generalizing adj with
  | nil => intro fe h; exact .inl h
  | cons e es ih =>
      intro fe h
      rcases ih (pushEdge adj e) fe h with h' | h'
      · unfold pushEdge at h'
        split_ifs at h'
        · exact .inl h'
        · rcases List.mem_append.mp h' with h' | h'
          · exact .inl h'
          · exact .inr (by simp [List.mem_singleton.mp h'])
      · exact .inr (List.mem_cons_of_mem _ h')

/-- Every edge leads to a model of the catalog, and its `ON` text is declared by one of its
ends. -/
lemma adjacency_spec {cat : SemanticCatalog} {src : String} {e : Edge}
    (h : (src, e) ∈ adjacency cat) :
    e.target ∈ cat.models.map SemanticModel.name ∧ (e.on.owner = src ∨ e.on.owner = e.target) := by
  rcases foldl_pushEdge_subset _ _ _ h with h | h
  · cases h
  · simp only [declaredEdges, List.mem_flatMap, List.mem_insertionSort, List.mem_filter] at h
    obtain ⟨m, hm, rel, ⟨_, htarget⟩, hfe⟩ := h
    obtain ⟨t, ht⟩ := Option.isSome_iff_exists.mp htarget
    have htmem : rel.targetModel ∈ cat.models.map SemanticModel.name := by
      rw [← SemanticCatalog.name_of_model ht]
      exact List.mem_map_of_mem (List.mem_of_find?_eq_some ht)
    simp only [relationEdges, List.mem_cons, Prod.mk.injEq, List.not_mem_nil, or_false] at hfe
    rcases hfe with ⟨rfl, rfl⟩ | ⟨rfl, rfl⟩
    · exact ⟨htmem, .inl rfl⟩
    · exact ⟨List.mem_map_of_mem hm, .inr rfl⟩

/-! ## The breadth-first search -/

/-- One reached model. -/
structure Node where
  depth : ℕ
  /-- Whether the path to this model crosses any `one_to_many` edge. -/
  fansOut : Bool
  parent : Option String
  on : Option OnClause
  kind : Option RelationshipKind
  /-- True when a second equal-length path makes the join ambiguous. -/
  ambiguous : Bool
  deriving DecidableEq

def Node.root : Node := ⟨0, false, none, none, none, false⟩

/-- The reached models. -/
abbrev Reach := List (String × Node)

/-- The state of the search: the nodes found so far and the queue. -/
structure Bfs where
  nodes : Reach
  queue : List String

/-- Flag a model that a second path of the same length reaches. -/
def markAmbiguous (target : String) (nodes : Reach) : Reach :=
  nodes.map fun p => (p.1, if p.1 = target then { p.2 with ambiguous := true } else p.2)

/-- One edge out of `cur`: a new model is recorded and queued, a known one may turn out
ambiguous. -/
def visitEdge (cur : String) (depth : ℕ) (fansOut : Bool) (s : Bfs) (e : Edge) : Bfs :=
  match s.nodes.lookup e.target with
  | none =>
      { nodes := s.nodes ++ [(e.target,
          { depth := depth + 1, fansOut := fansOut || e.fansOut, parent := some cur,
            on := some e.on, kind := some e.kind, ambiguous := false })],
        queue := s.queue ++ [e.target] }
  | some existing =>
      if existing.depth = depth + 1 ∧ existing.parent ≠ some cur then
        { s with nodes := markAmbiguous e.target s.nodes }
      else s

/-- The edges out of the model at the head of the queue. -/
def visitNode (adj : List (String × Edge)) (cur : String) (n : Node) (s : Bfs) : Bfs :=
  (edgesFrom adj cur).foldl (visitEdge cur n.depth n.fansOut) s

/-- The search loop; every turn takes one model off the queue. -/
def bfsLoop (adj : List (String × Edge)) : ℕ → Bfs → Bfs
  | 0, s => s
  | fuel + 1, s =>
      match s.queue with
      | [] => s
      | cur :: rest =>
          match s.nodes.lookup cur with
          | none => s
          | some n => bfsLoop adj fuel (visitNode adj cur n { s with queue := rest })

def Bfs.start (root : String) : Bfs := ⟨[(root, Node.root)], [root]⟩

/-- The fan-out-aware reachability map from `root`. -/
def reachability (cat : SemanticCatalog) (root : String) : Reach :=
  (bfsLoop (adjacency cat) (cat.models.length + 1) (Bfs.start root)).nodes

/-! ### The invariant of the search -/

/-- Every reached model other than the root has a reached parent one level up, and its node
records the edge from it. -/
structure ReachInv (adj : List (String × Edge)) (root : String) (nodes : Reach) : Prop where
  nodup : (nodes.map Prod.fst).Nodup
  rootNode : ∃ n, nodes.lookup root = some n ∧ n.depth = 0 ∧ n.fansOut = false ∧
    n.parent = none
  child : ∀ m n, nodes.lookup m = some n → m ≠ root →
    ∃ p np e, n.parent = some p ∧ nodes.lookup p = some np ∧ (p, e) ∈ adj ∧ e.target = m ∧
      n.kind = some e.kind ∧ n.on = some e.on ∧ n.depth = np.depth + 1 ∧
      n.fansOut = (np.fansOut || e.fansOut)

lemma lookup_map_snd (f : String → Node → Node) (m : String) (nodes : Reach) :
    (nodes.map fun p => (p.1, f p.1 p.2)).lookup m = (nodes.lookup m).map (f m) := by
  induction nodes with
  | nil => rfl
  | cons p nodes ih =>
      rw [List.map_cons, List.lookup_cons, List.lookup_cons]
      by_cases hm : m = p.1
      · simp [hm]
      · have hb : (m == p.1) = false := by simpa using hm
        rw [hb]
        exact ih

lemma lookup_markAmbiguous (t m : String) (nodes : Reach) :
    (markAmbiguous t nodes).lookup m =
      (nodes.lookup m).map fun n => if m = t then { n with ambiguous := true } else n :=
  lookup_map_snd (fun k n => if k = t then { n with ambiguous := true } else n) m nodes

lemma fst_markAmbiguous (t : String) (nodes : Reach) :
    (markAmbiguous t nodes).map Prod.fst = nodes.map Prod.fst := by
  unfold markAmbiguous
  rw [List.map_map]
  rfl

lemma lookup_eq_none_iff_fst {nodes : Reach} {m : String} :
    nodes.lookup m = none ↔ m ∉ nodes.map Prod.fst := by
  rw [List.lookup_eq_none_iff]
  simp only [List.mem_map, not_exists, not_and, bne_iff_ne, ne_eq]
  constructor
  · intro h p hp hpm
    exact h p hp hpm.symm
  · intro h p hp hpm
    exact h p hp hpm.symm

lemma lookup_append_of_some {nodes extra : Reach} {m : String} {n : Node}
    (h : nodes.lookup m = some n) : (nodes ++ extra).lookup m = some n := by
  rw [List.lookup_append, h]
  rfl

lemma lookup_append_singleton {nodes : Reach} {t m : String} {nt n : Node}
    (h : (nodes ++ [(t, nt)]).lookup m = some n) :
    nodes.lookup m = some n ∨ (m = t ∧ n = nt) := by
  rw [List.lookup_append] at h
  cases hm : nodes.lookup m with
  | some n' =>
      rw [hm] at h
      exact .inl h
  | none =>
      rw [hm] at h
      simp only [Option.none_or, List.lookup_cons, List.lookup_nil] at h
      by_cases hmt : m = t
      · subst hmt
        rw [beq_self_eq_true] at h
        exact .inr ⟨rfl, (Option.some.inj h).symm⟩
      · rw [beq_eq_false_iff_ne.mpr hmt] at h
        cases h

lemma ReachInv.start (adj : List (String × Edge)) (root : String) :
    ReachInv adj root (Bfs.start root).nodes where
  nodup := by simp [Bfs.start]
  rootNode := ⟨Node.root, by simp [Bfs.start], rfl, rfl, rfl⟩
  child := by
    intro m n h hne
    rw [Bfs.start, List.lookup_cons, beq_eq_false_iff_ne.mpr hne] at h
    cases h

/-- Flagging an ambiguity touches no tree field. -/
lemma ReachInv.markAmbiguous {adj : List (String × Edge)} {root : String} {nodes : Reach}
    (h : ReachInv adj root nodes) (t : String) : ReachInv adj root (markAmbiguous t nodes) where
  nodup := by
    rw [fst_markAmbiguous]
    exact h.nodup
  rootNode := by
    obtain ⟨n, hn, hd, hf, hp⟩ := h.rootNode
    refine ⟨_, by rw [lookup_markAmbiguous, hn]; rfl, ?_, ?_, ?_⟩
    · by_cases ht : root = t <;> simp [ht, hd]
    · by_cases ht : root = t <;> simp [ht, hf]
    · by_cases ht : root = t <;> simp [ht, hp]
  child := by
    intro m n hm hne
    rw [lookup_markAmbiguous, Option.map_eq_some_iff] at hm
    obtain ⟨n₀, hn₀, rfl⟩ := hm
    obtain ⟨p, np, e, hp, hnp, he, ht, hk, hon, hd, hf⟩ := h.child m n₀ hn₀ hne
    refine ⟨p, _, e, ?_, by rw [lookup_markAmbiguous, hnp]; rfl, he, ht, ?_, ?_, ?_, ?_⟩
    all_goals
      by_cases h1 : m = t <;> by_cases h2 : p = t <;> simp [h1, h2, hp, hk, hon, hd, hf]

/-- One edge out of a reached model keeps the invariant. -/
lemma ReachInv.visitEdge {adj : List (String × Edge)} {root cur : String} {s : Bfs} {n : Node}
    {e : Edge} (h : ReachInv adj root s.nodes) (hcur : ∃ n', s.nodes.lookup cur = some n' ∧
      n'.depth = n.depth ∧ n'.fansOut = n.fansOut) (he : (cur, e) ∈ adj) :
    ReachInv adj root (Semantic.visitEdge cur n.depth n.fansOut s e).nodes := by
  unfold Semantic.visitEdge
  split
  · next hnone =>
      refine ⟨?_, ?_, ?_⟩
      · rw [List.map_append, List.nodup_append]
        refine ⟨h.nodup, by simp, ?_⟩
        intro a ha b hb hab
        simp only [List.map_cons, List.map_nil, List.mem_singleton] at hb
        subst hb hab
        exact lookup_eq_none_iff_fst.mp hnone ha
      · obtain ⟨nr, hnr, hd, hf, hp⟩ := h.rootNode
        exact ⟨nr, lookup_append_of_some hnr, hd, hf, hp⟩
      · intro m n₁ hm hne
        rcases lookup_append_singleton hm with hm | ⟨rfl, rfl⟩
        · obtain ⟨p, np, e', hp, hnp, hrest⟩ := h.child m n₁ hm hne
          exact ⟨p, np, e', hp, lookup_append_of_some hnp, hrest⟩
        · obtain ⟨n', hn', hd, hf⟩ := hcur
          exact ⟨cur, n', e, rfl, lookup_append_of_some hn', he, rfl, rfl, rfl, by rw [hd],
            by rw [hf]⟩
  · next existing _ =>
      split_ifs
      · exact h.markAmbiguous e.target
      · exact h

/-- A reached model stays reached, with the depth and fan-out it was found with. -/
lemma visitEdge_lookup (cur : String) (d : ℕ) (f : Bool) (s : Bfs) (e : Edge) {m : String}
    {n : Node} (h : s.nodes.lookup m = some n) :
    ∃ n', (visitEdge cur d f s e).nodes.lookup m = some n' ∧ n'.depth = n.depth ∧
      n'.fansOut = n.fansOut := by
  unfold visitEdge
  split
  · exact ⟨n, lookup_append_of_some h, rfl, rfl⟩
  · split_ifs
    · refine ⟨_, by rw [lookup_markAmbiguous, h]; rfl, ?_, ?_⟩ <;>
        by_cases hm : m = e.target <;> simp [hm]
    · exact ⟨n, h, rfl, rfl⟩

lemma ReachInv.visitEdges {adj : List (String × Edge)} {root cur : String} {n : Node}
    {es : List Edge} (hes : ∀ e ∈ es, (cur, e) ∈ adj) {s : Bfs}
    (h : ReachInv adj root s.nodes) (hcur : ∃ n', s.nodes.lookup cur = some n' ∧
      n'.depth = n.depth ∧ n'.fansOut = n.fansOut) :
    ReachInv adj root (es.foldl (Semantic.visitEdge cur n.depth n.fansOut) s).nodes := by
  induction es generalizing s with
  | nil => exact h
  | cons e es ih =>
      refine ih (fun e' he' => hes e' (List.mem_cons_of_mem _ he'))
        (h.visitEdge hcur (hes e List.mem_cons_self)) ?_
      obtain ⟨n', hn', hd, hf⟩ := hcur
      obtain ⟨n'', hn'', hd', hf'⟩ := visitEdge_lookup cur n.depth n.fansOut s e hn'
      exact ⟨n'', hn'', hd'.trans hd, hf'.trans hf⟩

lemma ReachInv.bfsLoop {adj : List (String × Edge)} {root : String} (fuel : ℕ) {s : Bfs}
    (h : ReachInv adj root s.nodes) : ReachInv adj root (Semantic.bfsLoop adj fuel s).nodes := by
  induction fuel generalizing s with
  | zero => exact h
  | succ fuel ih =>
      unfold Semantic.bfsLoop
      split
      · exact h
      · next cur rest hq =>
          split
          · exact h
          · next n hn =>
              refine ih (ReachInv.visitEdges (fun e he => mem_edgesFrom.mp he) ?_ ?_)
              · exact h
              · exact ⟨n, hn, rfl, rfl⟩

/-- The reachability map satisfies the invariant of the search. -/
lemma reachability_inv (cat : SemanticCatalog) (root : String) :
    ReachInv (adjacency cat) root (reachability cat root) :=
  ReachInv.bfsLoop _ (ReachInv.start _ root)

/-! ### The fuel suffices -/

/-- What the loop keeps about its size: queued models are reached, each reached model was
queued once, and all of them are the root or models of the catalog. -/
structure BfsSize (names : List String) (root : String) (s : Bfs) (done : ℕ) : Prop where
  length : s.nodes.length = done + s.queue.length
  queued : ∀ m ∈ s.queue, (s.nodes.lookup m).isSome
  nodup : (s.nodes.map Prod.fst).Nodup
  known : ∀ m ∈ s.nodes.map Prod.fst, m = root ∨ m ∈ names

lemma BfsSize.visitEdge {names : List String} {root cur : String} {s : Bfs} {done d : ℕ}
    {f : Bool} {e : Edge} (h : BfsSize names root s done) (he : e.target ∈ names) :
    BfsSize names root (Semantic.visitEdge cur d f s e) done := by
  unfold Semantic.visitEdge
  split
  · next hnone =>
      refine ⟨?_, ?_, ?_, ?_⟩
      · have := h.length
        simp only [List.length_append, List.length_singleton]
        omega
      · intro m hm
        rw [List.lookup_append]
        rcases List.mem_append.mp hm with hm | hm
        · simp [h.queued m hm]
        · rw [List.mem_singleton.mp hm]
          simp
      · rw [List.map_append, List.nodup_append]
        refine ⟨h.nodup, by simp, ?_⟩
        intro a ha b hb hab
        simp only [List.map_cons, List.map_nil, List.mem_singleton] at hb
        subst hb hab
        exact lookup_eq_none_iff_fst.mp hnone ha
      · intro m hm
        rw [List.map_append, List.mem_append] at hm
        rcases hm with hm | hm
        · exact h.known m hm
        · simp only [List.map_cons, List.map_nil, List.mem_singleton] at hm
          exact .inr (hm ▸ he)
  · split_ifs
    · refine ⟨?_, ?_, ?_, ?_⟩
      · have := h.length
        simpa [markAmbiguous] using this
      · intro m hm
        rw [lookup_markAmbiguous, Option.isSome_map]
        exact h.queued m hm
      · rw [fst_markAmbiguous]
        exact h.nodup
      · rw [fst_markAmbiguous]
        exact h.known
    · exact h

lemma BfsSize.visitEdges {names : List String} {root : String} {done : ℕ} {s : Bfs}
    (h : BfsSize names root s done) (cur : String) (d : ℕ) (f : Bool) {es : List Edge}
    (hes : ∀ e ∈ es, e.target ∈ names) :
    BfsSize names root (es.foldl (Semantic.visitEdge cur d f) s) done := by
  induction es generalizing s with
  | nil => exact h
  | cons e es ih =>
      exact ih (h.visitEdge (hes e List.mem_cons_self))
        fun e' he' => hes e' (List.mem_cons_of_mem _ he')

/-- Running the loop either empties the queue or takes one model off it in every turn. -/
lemma BfsSize.bfsLoop {adj : List (String × Edge)} {names : List String} {root : String}
    (hadj : ∀ fe ∈ adj, fe.2.target ∈ names) (fuel : ℕ) {s : Bfs} {done : ℕ}
    (h : BfsSize names root s done) :
    (Semantic.bfsLoop adj fuel s).queue = [] ∨
      BfsSize names root (Semantic.bfsLoop adj fuel s) (done + fuel) := by
  induction fuel generalizing s done with
  | zero => exact .inr h
  | succ fuel ih =>
      unfold Semantic.bfsLoop
      split
      · next hq => exact .inl hq
      · next cur rest hq =>
          split
          · next hnone =>
              have := h.queued cur (by simp [hq])
              rw [hnone] at this
              cases this
          · next n hn =>
              have hpop : BfsSize names root { s with queue := rest } (done + 1) := by
                refine ⟨?_, fun m hm => h.queued m (by simp [hq, hm]), h.nodup, h.known⟩
                have := h.length
                rw [hq, List.length_cons] at this
                simp only
                omega
              have hvisit := hpop.visitEdges cur n.depth n.fansOut
                (fun e he => hadj (cur, e) (mem_edgesFrom.mp he))
              have := ih hvisit
              rwa [Nat.add_right_comm, Nat.add_assoc] at this

/-- The loop's fuel suffices: the search ends with an empty queue. -/
lemma bfsLoop_queue (cat : SemanticCatalog) (root : String) :
    (bfsLoop (adjacency cat) (cat.models.length + 1) (Bfs.start root)).queue = [] := by
  have hstart : BfsSize (cat.models.map SemanticModel.name) root (Bfs.start root) 0 := by
    refine ⟨rfl, ?_, by simp [Bfs.start], ?_⟩
    · intro m hm
      rw [List.mem_singleton.mp hm]
      simp [Bfs.start]
    · intro m hm
      simp only [Bfs.start, List.map_cons, List.map_nil, List.mem_singleton] at hm
      exact .inl hm
  have htargets : ∀ fe ∈ adjacency cat, fe.2.target ∈ cat.models.map SemanticModel.name := by
    rintro ⟨src, e⟩ hfe
    exact (adjacency_spec hfe).1
  rcases BfsSize.bfsLoop htargets (cat.models.length + 1) hstart with h | h
  · exact h
  · have hsub : ∀ m ∈ (bfsLoop (adjacency cat) (cat.models.length + 1)
        (Bfs.start root)).nodes.map Prod.fst,
        m ∈ root :: cat.models.map SemanticModel.name := by
      intro m hm
      rcases h.known m hm with rfl | hm
      · exact List.mem_cons_self
      · exact List.mem_cons_of_mem _ hm
    have hle := (List.subperm_of_subset h.nodup hsub).length_le
    have hlen := h.length
    simp only [List.length_map, List.length_cons] at hle
    exact List.eq_nil_of_length_eq_zero (by omega)

end Semantic
end Pawrly
