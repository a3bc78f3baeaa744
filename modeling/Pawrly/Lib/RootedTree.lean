import Mathlib.Tactic.Common
import Mathlib.Logic.Relation

/-!
# Walking a rooted tree outward from any of its nodes

A rooted tree is given by its labelled edges `E parent child label`: every node has at most
one edge from a parent, and a depth function grows by one along each edge.  Every edge may
also be travelled from child to parent, under the label `inv label`.

A *walk* from a node `m` is a simple path; the edges it may take next are the edges of the
tree *walked outward from `m`*.  `outward_iff` says which edges those are: the edges on the
way from `m` up to the root, travelled upwards, and every other edge, travelled downwards.
-/

namespace RootedTree

variable {α κ : Type*}

/-- The edges of a rooted tree: unique parents, and a depth that grows along every edge. -/
structure IsRooted (E : α → α → κ → Prop) : Prop where
  unique_parent : ∀ {p p' c k k'}, E p c k → E p' c k' → p = p' ∧ k = k'
  depth : ∃ d : α → ℕ, ∀ p c k, E p c k → d c = d p + 1

section

variable (E : α → α → κ → Prop) (inv : κ → κ)

/-- One step along an edge, downwards under its label or upwards under the inverted one. -/
inductive Step : α → α → κ → Prop
  | down {p c k} : E p c k → Step p c k
  | up {p c k} : E p c k → Step c p (inv k)

/-- A simple path from `m`: the node reached and the nodes visited. -/
inductive Walk (m : α) : α → List α → Prop
  | start : Walk m m [m]
  | step {u vis v k} : Walk m u vis → Step E inv u v k → v ∉ vis → Walk m v (v :: vis)

/-- The label `k` is met when the tree is walked outward from `m`. -/
def Outward (m : α) (k : κ) : Prop :=
  ∃ u vis v, Walk E inv m u vis ∧ Step E inv u v k ∧ v ∉ vis

/-- `a` lies on the way from `m` up to the root (or is `m`). -/
def Above (m a : α) : Prop := Relation.ReflTransGen (fun c p => ∃ k, E p c k) m a

end

variable {E : α → α → κ → Prop} {inv : κ → κ}

lemma depth_le_of_above {d : α → ℕ} (hd : ∀ p c k, E p c k → d c = d p + 1) {m a : α}
    (h : Above E m a) : d a ≤ d m := by
  induction h with
  | refl => exact Nat.le_refl _
  | tail _ hstep ih =>
      obtain ⟨k, hk⟩ := hstep
      have := hd _ _ _ hk
      omega

/-- The nodes above `m` are closed under taking the parent. -/
lemma Above.parent {m c p : α} {k : κ} (h : Above E m c) (he : E p c k) : Above E m p :=
  Relation.ReflTransGen.tail h ⟨k, he⟩

/-- A node above `m` other than `m` has a child above `m`. -/
lemma Above.child {m a : α} (h : Above E m a) (hne : a ≠ m) :
    ∃ c k, Above E m c ∧ E a c k := by
  cases h with
  | refl => exact absurd rfl hne
  | tail hc hstep =>
      obtain ⟨k, hk⟩ := hstep
      exact ⟨_, k, hc, hk⟩

/-- Two nodes above `m` with the same depth are equal. -/
lemma Above.eq_of_depth (hE : IsRooted E) {d : α → ℕ}
    (hd : ∀ p c k, E p c k → d c = d p + 1) {m a b : α}
    (ha : Above E m a) (hb : Above E m b) (hab : d a = d b) : a = b := by
  induction ha generalizing b with
  | refl =>
      cases hb with
      | refl => rfl
      | tail hc hstep =>
          obtain ⟨k, hk⟩ := hstep
          have h1 := depth_le_of_above hd hc
          have h2 := hd _ _ _ hk
          omega
  | tail ha' hstep ih =>
      obtain ⟨k, hk⟩ := hstep
      cases hb with
      | refl =>
          have h1 := depth_le_of_above hd ha'
          have h2 := hd _ _ _ hk
          omega
      | tail hb' hstep' =>
          obtain ⟨k', hk'⟩ := hstep'
          have h1 := hd _ _ _ hk
          have h2 := hd _ _ _ hk'
          have hcc := ih hb' (by omega)
          subst hcc
          exact (hE.unique_parent hk hk').1

/-- The state of a walk from `m`: still climbing, with every node from `m` up visited, or
past its turning point, below nodes that were visited. -/
lemma Walk.climbing_or_below (hE : IsRooted E) {m u : α} {vis : List α}
    (h : Walk E inv m u vis) :
    (Above E m u ∧ ∀ x, Above E m x → Above E x u → x ∈ vis) ∨
      (¬ Above E m u ∧ ∃ p k, E p u k ∧ p ∈ vis) := by
  obtain ⟨d, hd⟩ := hE.depth
  induction h with
  | start =>
      left
      refine ⟨Relation.ReflTransGen.refl, fun x hmx hxm => ?_⟩
      have h1 := depth_le_of_above hd hmx
      have h2 := depth_le_of_above hd hxm
      have hx : x = m := Above.eq_of_depth hE hd hmx Relation.ReflTransGen.refl (by omega)
      simp [hx]
  | @step u vis v k hw hs hv ih =>
      cases hs with
      | down he =>
          -- a step down leaves the way to the root: the child above `m` was visited
          right
          have hnot : ¬ Above E m v := by
            intro hmv
            rcases ih with ⟨_, hall⟩ | ⟨hnu, _⟩
            · exact hv (hall v hmv (Relation.ReflTransGen.single ⟨_, he⟩))
            · exact hnu (hmv.parent he)
          have hu : u ∈ vis := by
            cases hw with
            | start => exact List.mem_cons_self
            | step _ _ _ => exact List.mem_cons_self
          exact ⟨hnot, u, _, he, List.mem_cons_of_mem _ hu⟩
      | up he =>
          rcases ih with ⟨hmu, hall⟩ | ⟨_, p, k', hp, hpvis⟩
          · left
            refine ⟨hmu.parent he, fun x hmx hxv => ?_⟩
            by_cases hxv' : x = v
            · simp [hxv']
            · -- below `v` and above `m` there is only the way through `u`
              obtain ⟨c, k', hxc, hc⟩ := Above.child hxv (Ne.symm hxv')
              have hmc : Above E m c := hmx.trans hxc
              have hcu : c = u := by
                have h1 := hd _ _ _ he
                have h2 := hd _ _ _ hc
                exact Above.eq_of_depth hE hd hmc hmu (by omega)
              subst hcu
              exact List.mem_cons_of_mem _ (hall x hmx hxc)
          · -- going back up would revisit the parent
            have hpv := (hE.unique_parent hp he).1
            subst hpv
            exact absurd hpvis hv

/-- From `m` every node above it is reached by climbing. -/
lemma walk_of_above (inv : κ → κ) (hE : IsRooted E) {m a : α} (h : Above E m a) :
    ∃ vis, Walk E inv m a vis ∧ ∀ x ∈ vis, Above E m x ∧ Above E x a := by
  obtain ⟨d, hd⟩ := hE.depth
  induction h with
  | refl =>
      refine ⟨[m], .start, fun x hx => ?_⟩
      rw [List.mem_singleton] at hx
      subst hx
      exact ⟨Relation.ReflTransGen.refl, Relation.ReflTransGen.refl⟩
  | @tail b c hb hstep ih =>
      obtain ⟨k, hk⟩ := hstep
      obtain ⟨vis, hw, hvis⟩ := ih
      have hnot : c ∉ vis := by
        intro hc
        have h1 := depth_le_of_above hd (hvis c hc).2
        have h2 := hd _ _ _ hk
        omega
      refine ⟨c :: vis, hw.step (.up hk) hnot, fun x hx => ?_⟩
      rcases List.mem_cons.mp hx with rfl | hx
      · exact ⟨Relation.ReflTransGen.tail hb ⟨k, hk⟩, Relation.ReflTransGen.refl⟩
      · exact ⟨(hvis x hx).1, (hvis x hx).2.parent hk⟩

/-- From `m` every node below a common root is reached by a walk that visits only nodes above
`m` or above the node. -/
lemma walk_of_common (inv : κ → κ) (hE : IsRooted E) {m r x : α} (hm : Above E m r) (hx : Above E x r) :
    ∃ vis, Walk E inv m x vis ∧ ∀ y ∈ vis, Above E m y ∨ Above E x y := by
  obtain ⟨d, hd⟩ := hE.depth
  -- induction on the way from `x` up to the root
  induction hx using Relation.ReflTransGen.head_induction_on with
  | refl =>
      obtain ⟨vis, hw, hvis⟩ := walk_of_above inv hE hm
      exact ⟨vis, hw, fun y hy => .inl (hvis y hy).1⟩
  | @head c p hstep _ ih =>
      obtain ⟨k, hk⟩ := hstep
      by_cases hmc : Above E m c
      · obtain ⟨vis, hw, hvis⟩ := walk_of_above inv hE hmc
        exact ⟨vis, hw, fun y hy => .inl (hvis y hy).1⟩
      · obtain ⟨vis, hw, hvis⟩ := ih
        have hnot : c ∉ vis := by
          intro hc
          rcases hvis c hc with h | h
          · exact hmc h
          · have h1 := depth_le_of_above hd h
            have h2 := hd _ _ _ hk
            omega
        refine ⟨c :: vis, hw.step (.down hk) hnot, fun y hy => ?_⟩
        rcases List.mem_cons.mp hy with rfl | hy
        · exact .inr Relation.ReflTransGen.refl
        · rcases hvis y hy with h | h
          · exact .inl h
          · exact .inr (Relation.ReflTransGen.head ⟨k, hk⟩ h)

/-- **The edges walked outward from `m`**: upwards the edges into nodes above `m`, downwards
all others. -/
theorem outward_iff (hE : IsRooted E) {m r : α} (hm : Above E m r)
    (hall : ∀ p c k, E p c k → Above E p r) {k : κ} :
    Outward E inv m k ↔
      (∃ p c k', E p c k' ∧ Above E m c ∧ k = inv k') ∨
        (∃ p c, E p c k ∧ ¬ Above E m c) := by
  obtain ⟨d, hd⟩ := hE.depth
  constructor
  · rintro ⟨u, vis, v, hw, hs, hv⟩
    have hstate := hw.climbing_or_below hE
    cases hs with
    | down he =>
        right
        refine ⟨u, v, he, fun hmv => ?_⟩
        rcases hstate with ⟨_, hvis⟩ | ⟨hnu, _⟩
        · exact hv (hvis v hmv (Relation.ReflTransGen.single ⟨_, he⟩))
        · exact hnu (hmv.parent he)
    | up he =>
        left
        rcases hstate with ⟨hmu, _⟩ | ⟨_, p, k', hp, hpvis⟩
        · exact ⟨v, u, _, he, hmu, rfl⟩
        · have hpv := (hE.unique_parent hp he).1
          subst hpv
          exact absurd hpvis hv
  · rintro (⟨p, c, k', he, hmc, rfl⟩ | ⟨p, c, he, hmc⟩)
    · obtain ⟨vis, hw, hvis⟩ := walk_of_above inv hE hmc
      refine ⟨c, vis, p, hw, .up he, fun hp => ?_⟩
      have h1 := depth_le_of_above hd (hvis p hp).2
      have h2 := hd _ _ _ he
      omega
    · obtain ⟨vis, hw, hvis⟩ := walk_of_common inv hE hm (hall p c k he)
      refine ⟨p, vis, c, hw, .down he, fun hc => ?_⟩
      rcases hvis c hc with h | h
      · exact hmc h
      · have h1 := depth_le_of_above hd h
        have h2 := hd _ _ _ he
        omega

end RootedTree
