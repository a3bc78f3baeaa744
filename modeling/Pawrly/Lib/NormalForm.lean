import Mathlib.Tactic.Common
import Mathlib.Order.Lattice
import Mathlib.Order.BoundedOrder.Basic

/-!
# Disjunctive normal forms without negation

A normal form over operands `τ` is a list of alternatives, each a list of operands.  Under a
valuation of the operands in a bounded distributive lattice it has a value, the join over the
alternatives of the meets of their operands.

Writing two normal forms one after the other with a conjunction between them, where the
conjunction binds tighter than the disjunctions inside, does not conjoin them: it fuses the
last alternative of the first with the first alternative of the second (`merge`).
`mergeAll_value_iff` says exactly when a fused list still has the value of the conjunction.
-/

namespace NormalForm

variable {τ α : Type*}

/-! ## Meets and joins of lists -/

section

variable [DistribLattice α] [BoundedOrder α]

/-- The meet of a list. -/
def conj (vs : List α) : α := vs.foldr (· ⊓ ·) ⊤

/-- The join of a list. -/
def disj (vs : List α) : α := vs.foldr (· ⊔ ·) ⊥

@[simp] lemma conj_nil : conj ([] : List α) = ⊤ := rfl

@[simp] lemma conj_cons (v : α) (vs : List α) : conj (v :: vs) = v ⊓ conj vs := rfl

@[simp] lemma disj_nil : disj ([] : List α) = ⊥ := rfl

@[simp] lemma disj_cons (v : α) (vs : List α) : disj (v :: vs) = v ⊔ disj vs := rfl

lemma le_conj_iff {v : α} {vs : List α} : v ≤ conj vs ↔ ∀ x ∈ vs, v ≤ x := by
  induction vs with
  | nil => simp
  | cons x vs ih => simp [ih]

lemma disj_le_iff {v : α} {vs : List α} : disj vs ≤ v ↔ ∀ x ∈ vs, x ≤ v := by
  induction vs with
  | nil => simp
  | cons x vs ih => simp [ih]

lemma conj_le {vs : List α} {x : α} (h : x ∈ vs) : conj vs ≤ x := le_conj_iff.mp le_rfl x h

lemma le_disj {vs : List α} {x : α} (h : x ∈ vs) : x ≤ disj vs := disj_le_iff.mp le_rfl x h

lemma conj_append (vs vs' : List α) : conj (vs ++ vs') = conj vs ⊓ conj vs' := by
  induction vs with
  | nil => simp
  | cons x vs ih => rw [List.cons_append, conj_cons, ih, conj_cons, inf_assoc]

/-- The value of an alternative. -/
def altValue (ν : τ → α) (d : List τ) : α := conj (d.map ν)

/-- The value of a normal form. -/
def value (ν : τ → α) (D : List (List τ)) : α := disj (D.map (altValue ν))

@[simp] lemma value_nil (ν : τ → α) : value ν [] = ⊥ := rfl

lemma value_cons (ν : τ → α) (d : List τ) (D : List (List τ)) :
    value ν (d :: D) = altValue ν d ⊔ value ν D := rfl

lemma altValue_append (ν : τ → α) (d d' : List τ) :
    altValue ν (d ++ d') = altValue ν d ⊓ altValue ν d' := by
  rw [altValue, List.map_append, conj_append]
  rfl

/-- An alternative with more operands has a smaller value. -/
lemma altValue_anti (ν : τ → α) {d d' : List τ} (h : d ⊆ d') : altValue ν d' ≤ altValue ν d := by
  refine le_conj_iff.mpr fun x hx => ?_
  obtain ⟨o, ho, rfl⟩ := List.mem_map.mp hx
  exact conj_le (List.mem_map_of_mem (h ho))

lemma altValue_le_value (ν : τ → α) {D : List (List τ)} {d : List τ} (h : d ∈ D) :
    altValue ν d ≤ value ν D :=
  le_disj (List.mem_map_of_mem h)

end

/-! ## Fusing -/

/-- Fuse the last alternative of the first form with the first alternative of the second. -/
def merge : List (List τ) → List (List τ) → List (List τ)
  | [], B => B
  | [a], [] => [a]
  | [a], b :: B => (a ++ b) :: B
  | a :: a' :: A, B => a :: merge (a' :: A) B

/-- Fuse a list of forms. -/
def mergeAll : List (List (List τ)) → List (List τ)
  | [] => []
  | [C] => C
  | C :: C' :: Cs => merge C (mergeAll (C' :: Cs))

lemma merge_ne_nil {A B : List (List τ)} (h : A ≠ []) : merge A B ≠ [] := by
  match A, B, h with
  | [a], [], _ => simp [merge]
  | [a], b :: B, _ => simp [merge]
  | a :: a' :: A, B, _ => simp [merge]

lemma merge_cons_of_ne_nil {a : List τ} {A B : List (List τ)} (h : A ≠ []) :
    merge (a :: A) B = a :: merge A B := by
  match A, h with
  | a' :: A, _ => rfl

lemma mergeAll_ne_nil {Cs : List (List (List τ))} (hne : Cs ≠ []) (h : ∀ C ∈ Cs, C ≠ []) :
    mergeAll Cs ≠ [] := by
  match Cs, hne with
  | [C], _ => exact h C List.mem_cons_self
  | C :: C' :: Cs, _ => exact merge_ne_nil (h C List.mem_cons_self)

/-- Forms with a single alternative are fused into one alternative. -/
lemma mergeAll_singletons {ds : List (List τ)} (hne : ds ≠ []) :
    mergeAll (ds.map fun d => [d]) = [ds.flatten] := by
  match ds, hne with
  | [d], _ => simp [mergeAll]
  | d :: d' :: ds, _ =>
      have ih := mergeAll_singletons (List.cons_ne_nil d' ds)
      rw [List.map_cons, List.map_cons] at *
      rw [mergeAll, ih]
      simp [merge]

section

variable [DistribLattice α] [BoundedOrder α]

/-- The conjunction of two forms lies below their fusion. -/
lemma inf_le_merge (ν : τ → α) {A B : List (List τ)} (hA : A ≠ []) (hB : B ≠ []) :
    value ν A ⊓ value ν B ≤ value ν (merge A B) := by
  induction A with
  | nil => exact absurd rfl hA
  | cons a A ih =>
      cases A with
      | nil =>
          match B, hB with
          | b :: B, _ =>
              have hone : value ν [a] = altValue ν a := by
                rw [value_cons, value_nil]
                exact sup_of_le_left bot_le
              rw [merge, hone, value_cons, value_cons, altValue_append, inf_sup_left]
              exact sup_le_sup_left inf_le_right _
      | cons a' A =>
          have hrest := ih (by simp)
          rw [merge_cons_of_ne_nil (by simp), value_cons, value_cons, inf_sup_right]
          exact sup_le_sup inf_le_left hrest

/-- The conjunction of a list of forms lies below their fusion. -/
lemma conj_le_mergeAll (ν : τ → α) {Cs : List (List (List τ))} (hne : Cs ≠ [])
    (h : ∀ C ∈ Cs, C ≠ []) : conj (Cs.map (value ν)) ≤ value ν (mergeAll Cs) := by
  match Cs, hne with
  | [C], _ => simp [mergeAll]
  | C :: C' :: Cs, _ =>
      have hrest : ∀ D ∈ C' :: Cs, D ≠ [] := fun D hD => h D (List.mem_cons_of_mem _ hD)
      have ih := conj_le_mergeAll ν (List.cons_ne_nil C' Cs) hrest
      rw [List.map_cons, conj_cons, mergeAll]
      exact (inf_le_inf_left _ ih).trans
        (inf_le_merge ν (h C List.mem_cons_self) (mergeAll_ne_nil (by simp) hrest))

/-- Every alternative of the fusion contains an alternative of every fused form. -/
def Absorbed (Cs : List (List (List τ))) : Prop :=
  ∀ m ∈ mergeAll Cs, ∀ C ∈ Cs, ∃ d ∈ C, d ⊆ m

/-- **When fusing conjoins**: the fusion has the value of the conjunction under every
valuation exactly when each of its alternatives contains one of every fused form. -/
theorem mergeAll_value_iff [Nontrivial α] [DecidableEq τ] {Cs : List (List (List τ))}
    (hne : Cs ≠ []) (h : ∀ C ∈ Cs, C ≠ []) :
    (∀ ν : τ → α, value ν (mergeAll Cs) = conj (Cs.map (value ν))) ↔ Absorbed Cs := by
  constructor
  · intro heq m hm C hC
    by_contra hnot
    -- exactly the operands of the alternative are true
    let ν : τ → α := fun o => if o ∈ m then ⊤ else ⊥
    have htop : altValue ν m = ⊤ := by
      rw [eq_top_iff]
      refine le_conj_iff.mpr fun x hx => ?_
      obtain ⟨o, ho, rfl⟩ := List.mem_map.mp hx
      simp [ν, ho]
    have hmerged : value ν (mergeAll Cs) = ⊤ := by
      rw [eq_top_iff, ← htop]
      exact altValue_le_value ν hm
    have hCtop : ⊤ ≤ value ν C := by
      rw [← hmerged, heq ν]
      exact conj_le (List.mem_map_of_mem hC)
    have hCbot : value ν C ≤ ⊥ := by
      refine disj_le_iff.mpr fun x hx => ?_
      obtain ⟨d, hd, rfl⟩ := List.mem_map.mp hx
      have hout : ∃ o ∈ d, o ∉ m := by
        by_contra hall
        push Not at hall
        exact hnot ⟨d, hd, hall⟩
      obtain ⟨o, ho, hom⟩ := hout
      have hle : altValue ν d ≤ ν o := conj_le (List.mem_map_of_mem ho)
      simpa [ν, hom] using hle
    exact absurd (le_antisymm (hCtop.trans hCbot) bot_le) top_ne_bot
  · intro habs ν
    refine le_antisymm ?_ (conj_le_mergeAll ν hne h)
    refine disj_le_iff.mpr fun x hx => ?_
    obtain ⟨m, hm, rfl⟩ := List.mem_map.mp hx
    refine le_conj_iff.mpr fun y hy => ?_
    obtain ⟨C, hC, rfl⟩ := List.mem_map.mp hy
    obtain ⟨d, hd, hsub⟩ := habs m hm C hC
    exact (altValue_anti ν hsub).trans (altValue_le_value ν hd)

end

/-- Forms with a single alternative are absorbed. -/
lemma absorbed_singletons (ds : List (List τ)) : Absorbed (ds.map fun d => [d]) := by
  intro m hm C hC
  obtain ⟨d, hd, rfl⟩ := List.mem_map.mp hC
  rw [mergeAll_singletons (List.ne_nil_of_mem hd), List.mem_singleton] at hm
  subst hm
  exact ⟨d, List.mem_singleton_self d, fun o ho => List.mem_flatten.mpr ⟨d, hd, ho⟩⟩

end NormalForm
