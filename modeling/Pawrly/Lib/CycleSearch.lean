import Mathlib.Tactic.Common
import Mathlib.Data.List.Nodup
import Mathlib.Data.List.Perm.Subperm
import Mathlib.Data.List.Chain
import Mathlib.Logic.Relation

/-!
# Finding cycles by depth-first search

A depth-first walk of a finite graph that collects the nodes where it meets its own stack.  It ends
(`visit_ends`), every node that it collects lies on a cycle (`search_sound`), and when it collects
none, the nodes it has finished, latest first, are a topological order (`search_topological`), so that
the graph has no cycle (`search_cyclic_iff`).
-/

namespace CycleSearch

variable {α : Type*} [DecidableEq α]

/-- The nodes finished so far, latest first, and the nodes found on a cycle. -/
structure State (α : Type*) where
  done : List α := []
  cyclic : List α := []

/-- The successors of a node that are nodes of the graph. -/
def successors (next : α → Option (List α)) (node : α) : List α :=
  ((next node).getD []).filter fun n => (next n).isSome

/-- The walk from one node; `visiting` is the stack above it. -/
def visit (next : α → Option (List α)) : ℕ → List α → State α → α → State α
  | 0, _, s, _ => s
  | fuel + 1, visiting, s, node =>
      if node ∈ s.done then s
      else if node ∈ visiting then { s with cyclic := node :: s.cyclic }
      else
        let s := (successors next node).foldl (visit next fuel (visiting ++ [node])) s
        { s with done := node :: s.done }

/-- The walk from all nodes; the stack never holds more nodes than there are. -/
def search (next : α → Option (List α)) (keys order : List α) : State α :=
  order.foldl (visit next (keys.length + 1) []) {}

/-- Every node stands before its successors. -/
inductive Topological (next : α → Option (List α)) : List α → Prop
  | nil : Topological next []
  | cons {n : α} {rest : List α} (succ : ∀ m ∈ successors next n, m ∈ rest) (fresh : n ∉ rest)
      (tail : Topological next rest) : Topological next (n :: rest)

variable {next : α → Option (List α)}

/-- Nothing on the stack is finished. -/
lemma visit_stack {fuel : ℕ} {visiting : List α} {s : State α} {node v : α}
    (hv : v ∈ visiting) (hs : v ∉ s.done) : v ∉ (visit next fuel visiting s node).done := by
  induction fuel generalizing visiting s node with
  | zero => exact hs
  | succ fuel ih =>
      unfold visit
      split_ifs with hdone hvisiting
      · exact hs
      · exact hs
      · have hfold : ∀ (l : List α) (t : State α), v ∉ t.done →
            v ∉ (l.foldl (visit next fuel (visiting ++ [node])) t).done := by
          intro l
          induction l with
          | nil => exact fun t ht => ht
          | cons m l ihl => exact fun t ht => ihl _ (ih (List.mem_append_left _ hv) ht)
        intro hmem
        rcases List.mem_cons.mp hmem with rfl | hmem
        · exact hvisiting hv
        · exact hfold _ s hs hmem

/-- What a walk does that meets no cycle: it finishes its node, and what is finished stays so
and stays in topological order. -/
structure Walked (next : α → Option (List α)) (keys : List α) (s s' : State α)
    (nodes : List α) : Prop where
  acyclic : s.cyclic = []
  known : s.done ⊆ keys → s'.done ⊆ keys
  kept : s.done ⊆ s'.done
  topological : Topological next s.done → Topological next s'.done
  finished : ∀ n ∈ nodes, n ∈ s'.done

omit [DecidableEq α] in
lemma Walked.trans {keys : List α} {s s' s'' : State α} {n : α} {nodes : List α}
    (h : Walked next keys s s' [n]) (h' : Walked next keys s' s'' nodes) :
    Walked next keys s s'' (n :: nodes) where
  acyclic := h.acyclic
  known := fun hs => h'.known (h.known hs)
  kept := fun _ hm => h'.kept (h.kept hm)
  topological := fun ht => h'.topological (h.topological ht)
  finished := by
    intro m hm
    rcases List.mem_cons.mp hm with rfl | hm
    · exact h'.kept (h.finished m List.mem_cons_self)
    · exact h'.finished m hm

omit [DecidableEq α] in
/-- A loop of walks. -/
lemma foldl_walked {keys : List α} {f : State α → α → State α} {nodes : List α}
    (hf : ∀ s, ∀ n ∈ nodes, (f s n).cyclic = [] → Walked next keys s (f s n) [n])
    {s : State α} (h : (nodes.foldl f s).cyclic = []) :
    Walked next keys s (nodes.foldl f s) nodes := by
  induction nodes generalizing s with
  | nil => exact ⟨h, id, fun _ hm => hm, id, fun n hn => by cases hn⟩
  | cons n nodes ih =>
      have hrest := ih (fun t m hm => hf t m (List.mem_cons_of_mem _ hm)) h
      exact (hf s n List.mem_cons_self hrest.acyclic).trans hrest

lemma visit_walked {keys : List α} (hkeys : ∀ n, (next n).isSome → n ∈ keys) {fuel : ℕ}
    {visiting : List α} (hnodup : visiting.Nodup) (hsub : visiting ⊆ keys)
    (hfuel : keys.length < fuel + visiting.length) {s : State α} {node : α}
    (hnode : node ∈ keys) (h : (visit next fuel visiting s node).cyclic = []) :
    Walked next keys s (visit next fuel visiting s node) [node] := by
  induction fuel generalizing visiting s node with
  | zero =>
      -- the stack cannot hold more nodes than the graph
      have hle := (List.subperm_of_subset hnodup hsub).length_le
      omega
  | succ fuel ih =>
      unfold visit at h ⊢
      split_ifs at h ⊢ with hdone hvisiting
      · exact ⟨h, id, fun _ hm => hm, id, fun n hn => by rwa [List.mem_singleton.mp hn]⟩
      · have hstack : (visiting ++ [node]).Nodup := by
          rw [List.nodup_append]
          refine ⟨hnodup, List.nodup_singleton _, fun a ha b hb hab => hvisiting ?_⟩
          rw [List.mem_singleton] at hb
          rwa [← hb, ← hab]
        have hstackSub : visiting ++ [node] ⊆ keys := by
          intro m hm
          rcases List.mem_append.mp hm with hm | hm
          · exact hsub hm
          · rwa [List.mem_singleton.mp hm]
        have hwalk : Walked next keys s ((successors next node).foldl
            (visit next fuel (visiting ++ [node])) s) (successors next node) := foldl_walked
          (fun t m hm hm' => ih hstack hstackSub
            (by rw [List.length_append, List.length_singleton]; omega)
            (hkeys m (List.mem_filter.mp hm).2) hm') h
        have hfresh : node ∉ ((successors next node).foldl
            (visit next fuel (visiting ++ [node])) s).done := by
          have hfold : ∀ (l : List α) (t : State α), node ∉ t.done →
              node ∉ (l.foldl (visit next fuel (visiting ++ [node])) t).done := by
            intro l
            induction l with
            | nil => exact fun t ht => ht
            | cons m l ihl =>
                exact fun t ht => ihl _ (visit_stack (List.mem_append_right _
                  List.mem_cons_self) ht)
          exact hfold _ s hdone
        refine ⟨hwalk.acyclic, fun hs => List.cons_subset.mpr ⟨hnode, hwalk.known hs⟩,
          fun m hm => List.mem_cons_of_mem _ (hwalk.kept hm),
          fun ht => .cons hwalk.finished hfresh (hwalk.topological ht), fun n hn => ?_⟩
        rw [List.mem_singleton.mp hn]
        exact List.mem_cons_self

/-- **A search that finds no cycle** finishes every node, in topological order. -/
theorem search_topological {keys order : List α} (hkeys : ∀ n, (next n).isSome → n ∈ keys)
    (horder : ∀ n ∈ order, n ∈ keys) (h : (search next keys order).cyclic = []) :
    Topological next (search next keys order).done ∧ (search next keys order).done ⊆ keys ∧
      ∀ n ∈ order, n ∈ (search next keys order).done := by
  have hwalk : Walked next keys {} (search next keys order) order :=
    foldl_walked (fun t n hn hn' => visit_walked hkeys List.nodup_nil (List.nil_subset _)
      (by simp) (horder n hn) hn') h
  exact ⟨hwalk.topological .nil, hwalk.known (List.nil_subset _), hwalk.finished⟩

omit [DecidableEq α] in
lemma Topological.nodup {l : List α} (h : Topological next l) : l.Nodup := by
  induction h with
  | nil => exact List.nodup_nil
  | cons _ fresh _ ih => exact List.nodup_cons.mpr ⟨fresh, ih⟩

/-! ## The walk ends -/

mutual

/-- A walk from one node, however deep it goes. -/
inductive Visits (next : α → Option (List α)) : List α → State α → α → State α → Prop
  | done {visiting : List α} {s : State α} {node : α} (h : node ∈ s.done) :
      Visits next visiting s node s
  | met {visiting : List α} {s : State α} {node : α} (hdone : node ∉ s.done)
      (h : node ∈ visiting) : Visits next visiting s node { s with cyclic := node :: s.cyclic }
  | finish {visiting : List α} {s s' : State α} {node : α} (hdone : node ∉ s.done)
      (hvisiting : node ∉ visiting)
      (h : VisitsAll next (visiting ++ [node]) s (successors next node) s') :
      Visits next visiting s node { s' with done := node :: s'.done }

/-- Walks from some nodes, one after the other. -/
inductive VisitsAll (next : α → Option (List α)) : List α → State α → List α → State α → Prop
  | nil {visiting : List α} {s : State α} : VisitsAll next visiting s [] s
  | cons {visiting nodes : List α} {s s' s'' : State α} {node : α}
      (h : Visits next visiting s node s') (hs : VisitsAll next visiting s' nodes s'') :
      VisitsAll next visiting s (node :: nodes) s''

end

omit [DecidableEq α] in
lemma foldl_visitsAll {f : State α → α → State α} {visiting nodes : List α}
    (hf : ∀ s, ∀ n ∈ nodes, Visits next visiting s n (f s n)) (s : State α) :
    VisitsAll next visiting s nodes (nodes.foldl f s) := by
  induction nodes generalizing s with
  | nil => exact .nil
  | cons n nodes ih =>
      exact .cons (hf s n List.mem_cons_self)
        (ih (fun t m hm => hf t m (List.mem_cons_of_mem _ hm)) (f s n))

/-- The fuel never runs out: the stack has each node of the graph at most once. -/
lemma visit_ends {keys : List α} (hkeys : ∀ n, (next n).isSome → n ∈ keys) {fuel : ℕ}
    {visiting : List α} (hnodup : visiting.Nodup) (hsub : visiting ⊆ keys)
    (hfuel : keys.length < fuel + visiting.length) (s : State α) {node : α} (hnode : node ∈ keys) :
    Visits next visiting s node (visit next fuel visiting s node) := by
  induction fuel generalizing visiting s node with
  | zero =>
      have hle := (List.subperm_of_subset hnodup hsub).length_le
      omega
  | succ fuel ih =>
      unfold visit
      split_ifs with hdone hvisiting
      · exact .done hdone
      · exact .met hdone hvisiting
      · refine .finish hdone hvisiting (foldl_visitsAll (fun t m hm => ?_) s)
        refine ih ?_ ?_ ?_ t (hkeys m (List.mem_filter.mp hm).2)
        · exact List.nodup_append.mpr ⟨hnodup, List.nodup_singleton _, fun a ha b hb hab =>
            hvisiting (by rwa [← List.mem_singleton.mp hb, ← hab])⟩
        · exact List.append_subset.mpr ⟨hsub, List.cons_subset.mpr ⟨hnode, List.nil_subset _⟩⟩
        · rw [List.length_append, List.length_singleton]
          omega

theorem search_ends {keys order : List α} (hkeys : ∀ n, (next n).isSome → n ∈ keys)
    (horder : ∀ n ∈ order, n ∈ keys) : VisitsAll next [] {} order (search next keys order) :=
  foldl_visitsAll (fun s n hn => visit_ends hkeys List.nodup_nil (List.nil_subset _) (by simp) s
    (horder n hn)) {}

/-! ## Cycles -/

/-- A step of the graph. -/
def Leads (next : α → Option (List α)) (a b : α) : Prop := b ∈ successors next a

def OnCycle (next : α → Option (List α)) (n : α) : Prop := Relation.TransGen (Leads next) n n

omit [DecidableEq α] in
/-- The stack leads from a node on it back to this node. -/
lemma onCycle_of_stack {visiting : List α} {node : α}
    (hchain : (visiting ++ [node]).IsChain (Leads next)) (h : node ∈ visiting) :
    OnCycle next node := by
  obtain ⟨as, bs, rfl⟩ := List.append_of_mem h
  have htrans : (as ++ node :: bs ++ [node]).Pairwise (Relation.TransGen (Leads next)) :=
    List.isChain_iff_pairwise.mp (hchain.imp fun _ _ => Relation.TransGen.single)
  rw [List.append_assoc, List.cons_append, List.pairwise_append] at htrans
  exact (List.pairwise_cons.mp htrans.2.1).1 node (List.mem_append_right _ List.mem_cons_self)

/-- What a walk collects lies on cycles, when its stack is a path to the node. -/
lemma visit_sound {fuel : ℕ} {visiting : List α} {s : State α} {node : α}
    (hchain : (visiting ++ [node]).IsChain (Leads next)) (hs : ∀ n ∈ s.cyclic, OnCycle next n) :
    ∀ n ∈ (visit next fuel visiting s node).cyclic, OnCycle next n := by
  induction fuel generalizing visiting s node with
  | zero => exact hs
  | succ fuel ih =>
      unfold visit
      split_ifs with hdone hvisiting
      · exact hs
      · intro n hn
        rcases List.mem_cons.mp hn with rfl | hn
        · exact onCycle_of_stack hchain hvisiting
        · exact hs n hn
      · have hfold : ∀ (l : List α) (t : State α), (∀ m ∈ l, Leads next node m) →
            (∀ n ∈ t.cyclic, OnCycle next n) →
            ∀ n ∈ (l.foldl (visit next fuel (visiting ++ [node])) t).cyclic, OnCycle next n := by
          intro l
          induction l with
          | nil => exact fun t _ ht => ht
          | cons m l ihl =>
              intro t hl ht
              refine ihl _ (fun k hk => hl k (List.mem_cons_of_mem _ hk)) (ih ?_ ht)
              refine hchain.append (List.isChain_singleton m) fun x hx y hy => ?_
              simp only [List.getLast?_concat, Option.mem_def, Option.some.injEq, List.head?_cons]
                at hx hy
              subst hx hy
              exact hl _ List.mem_cons_self
        exact hfold _ s (fun m hm => hm) hs

theorem search_sound {keys order : List α} {n : α} (h : n ∈ (search next keys order).cyclic) :
    OnCycle next n := by
  have hfold : ∀ (l : List α) (t : State α), (∀ n ∈ t.cyclic, OnCycle next n) →
      ∀ n ∈ (l.foldl (visit next (keys.length + 1) []) t).cyclic, OnCycle next n := by
    intro l
    induction l with
    | nil => exact fun t ht => ht
    | cons m l ih => exact fun t ht => ih _ (visit_sound (List.isChain_singleton m) ht)
  exact hfold order {} nofun n h

omit [DecidableEq α] in
lemma Topological.closed {l : List α} (h : Topological next l) {a b : α} (ha : a ∈ l)
    (hab : Relation.TransGen (Leads next) a b) : b ∈ l := by
  have hstep : ∀ a ∈ l, ∀ b, Leads next a b → b ∈ l := by
    clear ha hab
    induction h with
    | nil => exact nofun
    | cons succ _ _ ih =>
        intro a ha b hab
        rcases List.mem_cons.mp ha with rfl | ha
        · exact List.mem_cons_of_mem _ (succ b hab)
        · exact List.mem_cons_of_mem _ (ih a ha b hab)
  induction hab with
  | single hab => exact hstep _ ha _ hab
  | tail _ hbc ih => exact hstep _ ih _ hbc

omit [DecidableEq α] in
/-- A topological order has no node of a cycle. -/
lemma Topological.acyclic {l : List α} (h : Topological next l) {n : α} (hn : n ∈ l) :
    ¬ OnCycle next n := by
  induction h with
  | nil => cases hn
  | @cons m rest succ fresh tail ih =>
      rcases List.mem_cons.mp hn with rfl | hn
      · intro hcycle
        obtain ⟨b, hab, hbn⟩ := Relation.TransGen.head'_iff.mp hcycle
        rcases Relation.reflTransGen_iff_eq_or_transGen.mp hbn with rfl | hbn
        · exact fresh (succ _ hab)
        · exact fresh (tail.closed (succ b hab) hbn)
      · exact ih hn

/-- **The search finds a cycle** exactly when the graph has one, in whatever order it takes the
nodes. -/
theorem search_cyclic_iff {keys order : List α} (hkeys : ∀ n, (next n).isSome → n ∈ keys)
    (horder : ∀ n, n ∈ order ↔ n ∈ keys) :
    (search next keys order).cyclic ≠ [] ↔ ∃ n, OnCycle next n := by
  constructor
  · intro h
    obtain ⟨n, hn⟩ := List.exists_mem_of_ne_nil _ h
    exact ⟨n, search_sound hn⟩
  · rintro ⟨n, hn⟩ hnone
    obtain ⟨htopo, -, hfinished⟩ := search_topological hkeys (fun n hn => (horder n).mp hn) hnone
    obtain ⟨m, -, hmn⟩ := Relation.TransGen.tail'_iff.mp hn
    have hkey : n ∈ keys := hkeys n (List.mem_filter.mp hmn).2
    exact htopo.acyclic (hfinished n ((horder n).mpr hkey)) hn

end CycleSearch
