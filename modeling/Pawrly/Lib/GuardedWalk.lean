import Mathlib.Data.Finset.Card
import Mathlib.Data.List.Chain
import Mathlib.Data.List.Nodup
import Mathlib.Tactic.Common

/-!
# Depth-first walks that meet no node twice

A walk follows the entries of each node in order, refuses to go on where a node has none to offer, and
stops at the first node that it has met before.  The steps that it would take without that stop are
its itinerary, to a given depth; `scan` goes through them up to the first one that ends the walk.

With depth enough for the nodes that are left, the walk is never cut short (`scan_ne_cut`).  A walk
that comes to its end has met every node of every chain below its root, each once (`nodup_of_done`);
so a graph with a cycle does not let it come to its end.
-/

namespace GuardedWalk

variable {P K : Type*}

/-- A step of a walk: to a node, to an entry that is refused, or beyond the depth. -/
inductive Step (K : Type*)
  | reach (k : K)
  | refuse
  | cut

/-- How a walk ends: with the nodes it has met, or at the step that ended it. -/
inductive Outcome (K : Type*)
  | done (seen : List K)
  | repeated
  | refused
  | cut

/-! ## Itineraries -/

section

variable (expand : P → Option (List (Option P))) (key : P → K)

/-- The steps below a node, to a depth.  An entry is a node, or refused. -/
def itinerary : ℕ → P → List (Step K)
  | 0, _ => [.cut]
  | depth + 1, p =>
      match expand p with
      | none => [.refuse]
      | some entries => entries.flatMap fun
          | none => [.refuse]
          | some q => .reach (key q) :: itinerary depth q

/-- The steps of one entry. -/
def entrySteps (depth : ℕ) : Option P → List (Step K)
  | none => [.refuse]
  | some q => .reach (key q) :: itinerary expand key depth q

variable {expand key}

lemma itinerary_of_none {p : P} (h : expand p = none) (depth : ℕ) :
    itinerary expand key (depth + 1) p = [.refuse] := by
  rw [itinerary, h]

lemma itinerary_of_some {p : P} {entries : List (Option P)} (h : expand p = some entries)
    (depth : ℕ) :
    itinerary expand key (depth + 1) p = entries.flatMap (entrySteps expand key depth) := by
  rw [itinerary, h]
  refine List.flatMap_congr fun entry _ => ?_
  cases entry <;> rfl

end

/-! ## Scanning -/

section

variable [DecidableEq K]

/-- Take steps, after the nodes that were met before. -/
def scan (seen : List K) : List (Step K) → Outcome K
  | [] => .done seen
  | .reach k :: steps => if k ∈ seen then .repeated else scan (k :: seen) steps
  | .refuse :: _ => .refused
  | .cut :: _ => .cut

/-- Go on with further steps, if the walk has not ended. -/
def Outcome.andThen (o : Outcome K) (steps : List (Step K)) : Outcome K :=
  match o with
  | .done seen => scan seen steps
  | .repeated => .repeated
  | .refused => .refused
  | .cut => .cut

lemma scan_append (seen : List K) (steps steps' : List (Step K)) :
    scan seen (steps ++ steps') = (scan seen steps).andThen steps' := by
  induction steps generalizing seen with
  | nil => rfl
  | cons step steps ih =>
      cases step with
      | reach k =>
          rw [List.cons_append, scan, scan]
          split_ifs
          · rfl
          · exact ih (k :: seen)
      | refuse => rfl
      | cut => rfl

/-- A walk that comes to its end has taken only steps to nodes, each of them new. -/
lemma scan_eq_done {seen seen' : List K} {steps : List (Step K)}
    (h : scan seen steps = .done seen') (hnodup : seen.Nodup) :
    ∃ ks : List K, steps = ks.map .reach ∧ seen' = ks.reverse ++ seen ∧ seen'.Nodup := by
  induction steps generalizing seen with
  | nil =>
      cases h
      exact ⟨[], rfl, rfl, hnodup⟩
  | cons step steps ih =>
      cases step with
      | reach k =>
          rw [scan] at h
          split_ifs at h with hmem
          obtain ⟨ks, hsteps, hseen, hnew⟩ := ih h (List.nodup_cons.mpr ⟨hmem, hnodup⟩)
          refine ⟨k :: ks, by rw [hsteps, List.map_cons], ?_, hnew⟩
          rw [hseen, List.reverse_cons, List.append_assoc, List.singleton_append]
      | refuse => cases h
      | cut => cases h

/-! ## Enough depth -/

/-- The nodes among some keys that were not met yet. -/
def unseen (keys : Finset K) (seen : List K) : ℕ := (keys \ seen.toFinset).card

lemma unseen_cons_lt {keys : Finset K} {seen : List K} {k : K} (hk : k ∈ keys) (hnew : k ∉ seen) :
    unseen keys (k :: seen) < unseen keys seen := by
  refine Finset.card_lt_card ⟨?_, fun hsub => ?_⟩
  · refine Finset.sdiff_subset_sdiff (Finset.Subset.refl keys) ?_
    rw [List.toFinset_cons]
    exact Finset.subset_insert _ _
  · have hmem : k ∈ keys \ (k :: seen).toFinset :=
      hsub (Finset.mem_sdiff.mpr ⟨hk, by simpa using hnew⟩)
    simp at hmem

lemma unseen_done_le {keys : Finset K} {seen seen' : List K} {steps : List (Step K)}
    (h : scan seen steps = .done seen') : unseen keys seen' ≤ unseen keys seen := by
  have hsub : ∀ k ∈ seen, k ∈ seen' := by
    induction steps generalizing seen with
    | nil =>
        cases h
        exact fun k hk => hk
    | cons step steps ih =>
        cases step with
        | reach k =>
            rw [scan] at h
            split_ifs at h
            exact fun k' hk' => ih h k' (List.mem_cons_of_mem _ hk')
        | refuse => cases h
        | cut => cases h
  refine Finset.card_le_card (Finset.sdiff_subset_sdiff (Finset.Subset.refl keys) fun k hk => ?_)
  rw [List.mem_toFinset] at hk ⊢
  exact hsub k hk

variable {expand : P → Option (List (Option P))} {key : P → K}

/-- A walk over finitely many keys is not cut short: every step down takes one that is new. -/
theorem scan_ne_cut {keys : Finset K}
    (hkeys : ∀ p entries q, expand p = some entries → some q ∈ entries → key q ∈ keys)
    {depth : ℕ} {p : P} {seen : List K} (hdepth : unseen keys seen < depth) :
    scan seen (itinerary expand key depth p) ≠ .cut := by
  induction depth generalizing p seen with
  | zero => omega
  | succ depth ih =>
      cases hexpand : expand p with
      | none =>
          rw [itinerary_of_none hexpand]
          simp [scan]
      | some entries =>
          rw [itinerary_of_some hexpand]
          -- The loop over the entries: what is unseen does not grow from one to the next.
          have hloop : ∀ rest : List (Option P), (∀ q, some q ∈ rest → key q ∈ keys) →
              ∀ seen : List K, unseen keys seen < depth + 1 →
                scan seen (rest.flatMap (entrySteps expand key depth)) ≠ .cut := by
            intro rest
            induction rest with
            | nil => intro _ seen _; simp [scan]
            | cons entry rest ihrest =>
                intro hmem seen hseen
                rw [List.flatMap_cons]
                cases entry with
                | none => simp [entrySteps, scan]
                | some q =>
                    rw [entrySteps, List.cons_append, scan]
                    split_ifs with hold
                    · simp
                    · have hlt := unseen_cons_lt (hmem q List.mem_cons_self) hold
                      have hbelow := @ih q (key q :: seen) (by omega)
                      rw [scan_append]
                      cases hscan : scan (key q :: seen) (itinerary expand key depth q) with
                      | done seen' =>
                          have hle : unseen keys seen' ≤ unseen keys (key q :: seen) :=
                            unseen_done_le hscan
                          exact ihrest (fun q' hq' => hmem q' (List.mem_cons_of_mem _ hq')) seen'
                            (by omega)
                      | repeated => simp [Outcome.andThen]
                      | refused => simp [Outcome.andThen]
                      | cut => exact absurd hscan hbelow
          exact hloop entries (fun q hq => hkeys p entries q hexpand hq) seen hdepth

/-! ## Chains -/

omit [DecidableEq K] in
/-- The steps below a node that only reach nodes hold the nodes of every chain below it. -/
lemma sublist_itinerary {R : P → P → Prop}
    (hR : ∀ p entries q, expand p = some entries → none ∉ entries → R p q → some q ∈ entries)
    {depth : ℕ} {p : P} (hclean : ∀ step ∈ itinerary expand key depth p, ∃ k, step = .reach k)
    {chain : List P} (hchain : List.IsChain R (p :: chain)) :
    (chain.map fun q => Step.reach (key q)).Sublist (itinerary expand key depth p) := by
  induction chain generalizing depth p with
  | nil => exact List.nil_sublist _
  | cons q chain ih =>
      obtain ⟨hpq, hrest⟩ := List.isChain_cons_cons.mp hchain
      cases depth with
      | zero =>
          obtain ⟨k, hk⟩ := hclean .cut List.mem_cons_self
          cases hk
      | succ depth =>
          cases hexpand : expand p with
          | none =>
              rw [itinerary_of_none hexpand] at hclean
              obtain ⟨k, hk⟩ := hclean .refuse List.mem_cons_self
              cases hk
          | some entries =>
              rw [itinerary_of_some hexpand] at hclean ⊢
              have hnone : none ∉ entries := by
                intro hmem
                obtain ⟨k, hk⟩ := hclean .refuse
                  (List.mem_flatMap.mpr ⟨none, hmem, List.mem_cons_self⟩)
                cases hk
              have hentry := hR p entries q hexpand hnone hpq
              have hbelow := ih (fun step hstep => hclean step
                (List.mem_flatMap.mpr ⟨some q, hentry, List.mem_cons_of_mem _ hstep⟩)) hrest
              have hsub : (entrySteps expand key depth (some q)).Sublist
                  (entries.flatMap (entrySteps expand key depth)) := by
                rw [List.flatMap_def]
                exact List.sublist_flatten_of_mem (List.mem_map_of_mem hentry)
              exact (hbelow.cons_cons _).trans hsub

/-- **A walk that comes to its end** has met the nodes of a chain below its root once each. -/
theorem nodup_of_done {R : P → P → Prop}
    (hR : ∀ p entries q, expand p = some entries → none ∉ entries → R p q → some q ∈ entries)
    {depth : ℕ} {p : P} {seen : List K}
    (hdone : scan [key p] (itinerary expand key depth p) = .done seen)
    {chain : List P} (hchain : List.IsChain R (p :: chain)) : ((p :: chain).map key).Nodup := by
  obtain ⟨ks, hsteps, rfl, hnodup⟩ := scan_eq_done hdone (List.nodup_singleton _)
  have hsub := @sublist_itinerary P K expand key R hR depth p
    (fun step hstep => by
      rw [hsteps] at hstep
      obtain ⟨k, _, rfl⟩ := List.mem_map.mp hstep
      exact ⟨k, rfl⟩) _ hchain
  rw [hsteps, ← Function.comp_def Step.reach key, ← List.map_map] at hsub
  have hkeys : (chain.map key).Sublist ks := by
    obtain ⟨l, hl, heq⟩ := List.sublist_map_iff.mp hsub
    have hinj : chain.map key = l :=
      List.map_injective_iff.mpr (fun a b hab => Step.reach.inj hab) heq
    rwa [hinj]
  rw [List.nodup_append, List.nodup_reverse] at hnodup
  obtain ⟨hks, _, hdisjoint⟩ := hnodup
  rw [List.map_cons, List.nodup_cons]
  refine ⟨fun hmem => ?_, hkeys.nodup hks⟩
  exact hdisjoint (key p) (List.mem_reverse.mpr (hkeys.subset hmem)) (key p)
    List.mem_cons_self rfl

end

end GuardedWalk
