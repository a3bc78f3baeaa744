import Mathlib.Tactic.Common

/-!
# Reading and writing along a path

The nodes of a tree are read and written one step at a time.  Where the steps obey the laws of a
lens (`Access.Lawful`), so do the paths: what was written is read back, a path that neither leads to
the written place nor through it reads what it read before, and writing what was read changes
nothing.
-/

namespace PathLens

/-- How the children of a node are read and written; a child that is missing on the way to a place
starts as `fresh`. -/
structure Access (σ ι : Type*) where
  get : σ → ι → Option σ
  put : σ → ι → σ → Option σ
  fresh : σ

namespace Access

variable {σ ι : Type*} (A : Access σ ι)

/-- The node that a path leads to. -/
def follow : List ι → σ → Option σ
  | [], s => some s
  | i :: p, s => (A.get s i).bind (follow p)

/-- Put a leaf at the end of a path. -/
def write (leaf : σ) : List ι → σ → Option σ
  | [], _ => some leaf
  | i :: p, s => (write leaf p ((A.get s i).getD A.fresh)).bind (A.put s i)

/-- The laws of one step, for nodes that are `ok`. -/
structure Lawful (ok : σ → Prop) : Prop where
  get_put : ∀ {s s' c i}, A.put s i c = some s' → A.get s' i = some c
  get_put_of_ne : ∀ {s s' c i j}, A.put s i c = some s' → j ≠ i → A.get s' j = A.get s j
  put_get : ∀ {s s' c i}, ok s → A.get s i = some c → A.put s i c = some s' → s' = s
  get_fresh : ∀ i, A.get A.fresh i = none
  ok_get : ∀ {s c i}, ok s → A.get s i = some c → ok c

variable {A}

@[simp] lemma follow_nil (s : σ) : A.follow [] s = some s := rfl

lemma follow_append (p q : List ι) (s : σ) :
    A.follow (p ++ q) s = (A.follow p s).bind (A.follow q) := by
  induction p generalizing s with
  | nil => rfl
  | cons i p ih =>
      simp only [List.cons_append, follow, Option.bind_assoc]
      exact Option.bind_congr fun c _ => ih c

lemma write_cons_eq_some {leaf s s' : σ} {i : ι} {p : List ι} :
    A.write leaf (i :: p) s = some s' ↔
      ∃ c, A.write leaf p ((A.get s i).getD A.fresh) = some c ∧ A.put s i c = some s' := by
  rw [write, Option.bind_eq_some_iff]

variable {ok : σ → Prop} (hA : A.Lawful ok)
include hA

/-- What was written is read back. -/
theorem Lawful.follow_write {leaf s s' : σ} {p : List ι} (h : A.write leaf p s = some s') :
    A.follow p s' = some leaf := by
  induction p generalizing s s' with
  | nil =>
      cases h
      rfl
  | cons i p ih =>
      obtain ⟨c, hc, hput⟩ := write_cons_eq_some.mp h
      rw [follow, hA.get_put hput, Option.bind_some]
      exact ih hc

lemma Lawful.follow_fresh {p : List ι} (h : p ≠ []) : A.follow p A.fresh = none := by
  cases p with
  | nil => exact absurd rfl h
  | cons i p => rw [follow, hA.get_fresh, Option.bind_none]

/-- A path that is neither a prefix nor an extension of the written one reads what it read. -/
theorem Lawful.follow_write_of_not_prefix {leaf s s' : σ} {p q : List ι}
    (h : A.write leaf p s = some s') (hpq : ¬ p <+: q) (hqp : ¬ q <+: p) :
    A.follow q s' = A.follow q s := by
  induction p generalizing q s s' with
  | nil => exact absurd List.nil_prefix hpq
  | cons i p ih =>
      obtain ⟨c, hc, hput⟩ := write_cons_eq_some.mp h
      cases q with
      | nil => exact absurd List.nil_prefix hqp
      | cons j q =>
          rw [follow, follow]
          by_cases hij : j = i
          · subst hij
            rw [List.cons_prefix_cons, not_and] at hpq hqp
            have hsame := ih hc (hpq rfl) (hqp rfl)
            rw [hA.get_put hput, Option.bind_some, hsame]
            cases hget : A.get s j with
            | some d => rfl
            | none =>
                -- the child was missing, so it was made from the fresh node
                refine hA.follow_fresh ?_
                rintro rfl
                exact hqp rfl List.nil_prefix
          · rw [hA.get_put_of_ne hput hij]

/-- Writing what was read changes nothing. -/
theorem Lawful.write_follow {leaf s s' : σ} {p : List ι} (hs : ok s)
    (hread : A.follow p s = some leaf) (h : A.write leaf p s = some s') : s' = s := by
  induction p generalizing s s' with
  | nil =>
      cases hread
      cases h
      rfl
  | cons i p ih =>
      obtain ⟨c, hc, hput⟩ := write_cons_eq_some.mp h
      obtain ⟨d, hget, hfollow⟩ := Option.bind_eq_some_iff.mp hread
      rw [hget, Option.getD_some] at hc
      have hsame : c = d := ih (hA.ok_get hs hget) hfollow hc
      exact hA.put_get hs hget (hsame ▸ hput)

end Access

end PathLens
