import Mathlib.Tactic.Common
import Mathlib.Data.List.TakeDrop

/-!
# Reading a list window by window

A reader asks for one page after the other, each a window of a fixed list, until a page is the last
one.  When every window starts where the one before it ended, the pages together are the rest of
the list (`collect_eq_drop`); two pieces tile the rest of a list only when they meet
(`window_append_drop_iff`).
-/

namespace Windows

universe u

variable {α : Type u}

/-- The elements of a list from a position on, at most a number of them. -/
def window (l : List α) (w : ℕ × ℕ) : List α := (l.drop w.1).take w.2

@[simp] lemma length_window (l : List α) (w : ℕ × ℕ) :
    (window l w).length = min w.2 (l.length - w.1) := by
  rw [window, List.length_take, List.length_drop]

/-- A window that reaches the end is the rest of the list. -/
lemma window_eq_drop_iff {l : List α} {w : ℕ × ℕ} :
    window l w = l.drop w.1 ↔ l.length ≤ w.1 + w.2 := by
  rw [window, List.take_eq_self_iff, List.length_drop]
  omega

/-- A window and the rest of the list from another position are the rest from the window on exactly
when the second piece starts where the first one ends, or both reach the end. -/
theorem window_append_drop_iff {l : List α} {w : ℕ × ℕ} {b : ℕ} :
    window l w ++ l.drop b = l.drop w.1 ↔
      b = w.1 + w.2 ∨ (l.length ≤ w.1 + w.2 ∧ l.length ≤ b) := by
  constructor
  · intro h
    have hlen := congrArg List.length h
    rw [List.length_append, length_window, List.length_drop, List.length_drop] at hlen
    omega
  · rintro (rfl | ⟨hw, hb⟩)
    · rw [← List.drop_drop]
      exact List.take_append_drop w.2 (l.drop w.1)
    · rw [List.drop_of_length_le hb, List.append_nil]
      exact window_eq_drop_iff.mpr hw

/-! ## Collecting pages -/

/-- The pages from one index on, put together, up to the first last page among the given number of
them. -/
def collect (page : ℕ → List α) (last : ℕ → Bool) : ℕ → ℕ → Option (List α)
  | 0, _ => none
  | k + 1, i =>
      if last i then some (page i)
      else (collect page last k (i + 1)).map (page i ++ ·)

lemma collect_isSome_iff (page : ℕ → List α) (last : ℕ → Bool) (k i : ℕ) :
    (collect page last k i).isSome ↔ ∃ j, i ≤ j ∧ j < i + k ∧ last j = true := by
  induction k generalizing i with
  | zero =>
      refine ⟨(fun h => by cases h), ?_⟩
      rintro ⟨j, hij, hji, -⟩
      omega
  | succ k ih =>
      unfold collect
      split_ifs with hlast
      · exact ⟨fun _ => ⟨i, i.le_refl, by omega, hlast⟩, fun _ => rfl⟩
      · rw [Option.isSome_map, ih]
        constructor
        · rintro ⟨j, hij, hji, hj⟩
          exact ⟨j, by omega, by omega, hj⟩
        · rintro ⟨j, hij, hji, hj⟩
          have hne : j ≠ i := fun h => hlast (h ▸ hj)
          exact ⟨j, by omega, by omega, hj⟩

/-- When every page after a last page is a last page too, only the final one counts. -/
lemma collect_isSome_iff_of_mono (page : ℕ → List α) {last : ℕ → Bool} (k : ℕ) {i : ℕ}
    (hmono : ∀ a b, i ≤ a → a ≤ b → last a = true → last b = true) :
    (collect page last k i).isSome ↔ 0 < k ∧ last (i + k - 1) = true := by
  rw [collect_isSome_iff]
  constructor
  · rintro ⟨j, hij, hji, hj⟩
    exact ⟨by omega, hmono j _ hij (by omega) hj⟩
  · rintro ⟨hk, hlast⟩
    exact ⟨i + k - 1, by omega, by omega, hlast⟩

/-- Windows that follow each other, up to one that reaches the end: together they are the rest of
the list.  A window may also be followed by pages that never end. -/
theorem collect_eq_drop {l : List α} {page : ℕ → List α} {last : ℕ → Bool} {w : ℕ → ℕ × ℕ} {k i : ℕ}
    {r : List α} (hpage : ∀ j, i ≤ j → page j = window l (w j))
    (hend : ∀ j, i ≤ j → last j = true → l.length ≤ (w j).1 + (w j).2)
    (hnext : ∀ j, i ≤ j → last j = false →
      (w (j + 1)).1 = (w j).1 + (w j).2 ∨ ∀ j', j < j' → last j' = false)
    (h : collect page last k i = some r) : r = l.drop (w i).1 := by
  induction k generalizing i r with
  | zero => cases h
  | succ k ih =>
      unfold collect at h
      split_ifs at h with hlast
      · rw [← Option.some.inj h, hpage i i.le_refl]
        exact window_eq_drop_iff.mpr (hend i i.le_refl hlast)
      · obtain ⟨rest, hrest, rfl⟩ := Option.map_eq_some_iff.mp h
        rw [hpage i i.le_refl]
        rcases hnext i i.le_refl (Bool.eq_false_iff.mpr hlast) with hmeet | hnever
        · rw [ih (fun j hj => hpage j (by omega)) (fun j hj => hend j (by omega))
            (fun j hj => hnext j (by omega)) hrest]
          exact window_append_drop_iff.mpr (.inl hmeet)
        · obtain ⟨j, hij, -, hj⟩ :=
            (collect_isSome_iff page last k (i + 1)).mp (Option.isSome_of_mem hrest)
          rw [hnever j (by omega)] at hj
          cases hj

end Windows
