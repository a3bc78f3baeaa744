import Mathlib.Tactic.Common
import Mathlib.Logic.Relation
import Mathlib.Data.List.Forall2

/-!
# Shortest routes in a labelled multigraph

Routes along the labelled edges of a multigraph, up to a relation `D` that says which labels
are told apart.  `several_iff` says when a node has several shortest routes: when somewhere on
the way its routes split, or take one of two parallel edges that are told apart.
-/

namespace Routes

variable {α ε : Type*}

/-- A route from `r`: the hops back from its end, each with the node it starts at. -/
inductive Route (E : α → ε → α → Prop) (r : α) : α → List (α × ε) → Prop
  | nil : Route E r r []
  | hop {u v : α} {e : ε} {p : List (α × ε)} (before : Route E r u p) (edge : E u e v) :
      Route E r v ((u, e) :: p)

section

variable (E : α → ε → α → Prop) (D : ε → ε → Prop) (r : α)

def Shortest (v : α) (p : List (α × ε)) : Prop :=
  Route E r v p ∧ ∀ p', Route E r v p' → p.length ≤ p'.length

/-- The same route: through the same nodes, by edges that are not told apart. -/
def Same (p p' : List (α × ε)) : Prop :=
  List.Forall₂ (fun a b => a.1 = b.1 ∧ ¬ D a.2 b.2) p p'

/-- There are two different shortest routes. -/
def Several (v : α) : Prop :=
  ∃ p p', Shortest E r v p ∧ Shortest E r v p' ∧ ¬ Same D p p'

/-- There is exactly one shortest route. -/
def Unique (v : α) : Prop :=
  (∃ p, Shortest E r v p) ∧ ∀ p p', Shortest E r v p → Shortest E r v p' → Same D p p'

/-- `u` is the last node before `v` on a shortest route. -/
def Nearer (u v : α) : Prop := ∃ e p, Shortest E r v ((u, e) :: p)

/-- `x` lies on a shortest route to `v`. -/
def Through (v x : α) : Prop := Relation.ReflTransGen (fun b a => Nearer E r a b) v x

/-- The shortest routes to `x` do not all come from one node. -/
def Split (x : α) : Prop := ∃ u u', Nearer E r u x ∧ Nearer E r u' x ∧ u ≠ u'

/-- The last hop to `x` can be made by two edges that are told apart. -/
def Parallel (x : α) : Prop := ∃ u e e', Nearer E r u x ∧ E u e x ∧ E u e' x ∧ D e e'

end

variable {E : α → ε → α → Prop} {D : ε → ε → Prop} {r u v x : α} {e : ε}
  {p p' : List (α × ε)}

lemma unique_iff : Unique E D r v ↔ (∃ p, Shortest E r v p) ∧ ¬ Several E D r v := by
  unfold Unique Several
  push Not
  rfl

lemma Shortest.length_eq (h : Shortest E r v p) (h' : Shortest E r v p') :
    p.length = p'.length :=
  Nat.le_antisymm (h.2 p' h'.1) (h'.2 p h.1)

lemma Route.edge_of_cons (h : Route E r v ((u, e) :: p)) : Route E r u p ∧ E u e v := by
  cases h with
  | hop before edge => exact ⟨before, edge⟩

/-- A shortest route is shortest up to its last hop. -/
lemma Shortest.tail (h : Shortest E r v ((u, e) :: p)) : Shortest E r u p := by
  obtain ⟨hbefore, hedge⟩ := h.1.edge_of_cons
  refine ⟨hbefore, fun p' hp' => ?_⟩
  have hle := h.2 _ (hp'.hop hedge)
  simpa using hle

/-- Another shortest route to the node before, and another last edge, make a shortest route. -/
lemma Shortest.reroute (h : Shortest E r v ((u, e) :: p)) (h' : Shortest E r u p') {e' : ε}
    (hedge : E u e' v) : Shortest E r v ((u, e') :: p') := by
  refine ⟨h'.1.hop hedge, fun q hq => ?_⟩
  have hle := h.2 q hq
  have hlen := h.tail.length_eq h'
  simpa [hlen] using hle

lemma shortest_self (h : Shortest E r r p) : p = [] :=
  List.length_eq_zero_iff.mp (Nat.le_zero.mp (h.2 [] .nil))

lemma Nearer.through (h : Nearer E r u v) : Through E r v u :=
  Relation.ReflTransGen.single h

/-- Several shortest routes to a node go on to the nodes after it. -/
lemma Nearer.several (h : Nearer E r u v) (hu : Several E D r u) : Several E D r v := by
  obtain ⟨e, p, hp⟩ := h
  obtain ⟨q, q', hq, hq', hdiff⟩ := hu
  have hedge := hp.1.edge_of_cons.2
  refine ⟨_, _, hp.reroute hq hedge, hp.reroute hq' hedge, fun hsame => hdiff ?_⟩
  exact (List.forall₂_cons.mp hsame).2

lemma Through.several (h : Through E r v x) (hx : Several E D r x) : Several E D r v := by
  induction h using Relation.ReflTransGen.head_induction_on with
  | refl => exact hx
  | head hstep _ ih => exact hstep.several ih

lemma Split.several (h : Split E r x) : Several E D r x := by
  obtain ⟨u, u', ⟨e, p, hp⟩, ⟨e', p', hp'⟩, hne⟩ := h
  exact ⟨_, _, hp, hp', fun hsame => hne (List.forall₂_cons.mp hsame).1.1⟩

lemma Parallel.several (h : Parallel E D r x) : Several E D r x := by
  obtain ⟨u, e, e', ⟨_, p, hp⟩, he, he', hdiff⟩ := h
  exact ⟨_, _, hp.reroute hp.tail he, hp.reroute hp.tail he',
    fun hsame => (List.forall₂_cons.mp hsame).1.2 hdiff⟩

/-- Two different shortest routes differ at a split or at parallel edges. -/
lemma exists_of_not_same (hp : Shortest E r v p) (hp' : Shortest E r v p')
    (hdiff : ¬ Same D p p') : ∃ x, Through E r v x ∧ (Split E r x ∨ Parallel E D r x) := by
  induction p generalizing v p' with
  | nil =>
      have hnil : p' = [] := List.length_eq_zero_iff.mp (hp.length_eq hp').symm
      exact absurd (hnil ▸ List.Forall₂.nil) hdiff
  | cons a p ih =>
      obtain ⟨u, e⟩ := a
      match p', hp', hdiff with
      | [], hp', _ => exact absurd (hp.length_eq hp') (by simp)
      | (u', e') :: p', hp', hdiff =>
          by_cases hu : u = u'
          · subst hu
            by_cases hd : D e e'
            · exact ⟨v, .refl, .inr ⟨u, e, e', ⟨e, p, hp⟩, hp.1.edge_of_cons.2,
                hp'.1.edge_of_cons.2, hd⟩⟩
            · obtain ⟨x, hx, hor⟩ := ih hp.tail hp'.tail fun hsame =>
                hdiff (.cons ⟨rfl, hd⟩ hsame)
              exact ⟨x, Relation.ReflTransGen.head ⟨e, p, hp⟩ hx, hor⟩
          · exact ⟨v, .refl, .inl ⟨u, u', ⟨e, p, hp⟩, ⟨e', p', hp'⟩, hu⟩⟩

/-- **Several shortest routes** lead to a node exactly when, at some node on the way, they split
or have parallel last hops. -/
theorem several_iff :
    Several E D r v ↔ ∃ x, Through E r v x ∧ (Split E r x ∨ Parallel E D r x) := by
  constructor
  · rintro ⟨p, p', hp, hp', hdiff⟩
    exact exists_of_not_same hp hp' hdiff
  · rintro ⟨x, hx, hsplit | hpar⟩
    · exact hx.several hsplit.several
    · exact hx.several hpar.several

end Routes
