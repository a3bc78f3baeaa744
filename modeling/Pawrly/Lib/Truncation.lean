import Mathlib

/-!
# Truncation

Rounding down to the points of a set.  Rounding to one set first changes nothing about rounding to
another one exactly when the points of the second are points of the first (`comp_eq_iff`), whatever the
sets are.  Where the points are the values of a strictly increasing sequence, the sequence at the
number of the interval rounds down (`roundsDown_of_index`).
-/

namespace Truncation

section

variable {α : Type*} [PartialOrder α]

/-- The greatest point of the set that is not above. -/
structure RoundsDown (A : Set α) (f : α → α) : Prop where
  mem : ∀ t, f t ∈ A
  le : ∀ t, f t ≤ t
  greatest : ∀ t, ∀ a ∈ A, a ≤ t → a ≤ f t

variable {A B : Set α} {f g : α → α}

lemma RoundsDown.eq_self_iff (hf : RoundsDown A f) {t : α} : f t = t ↔ t ∈ A := by
  constructor
  · intro h
    rw [← h]
    exact hf.mem t
  · intro h
    exact le_antisymm (hf.le t) (hf.greatest t t h le_rfl)

/-- **Rounding down twice**: to a set and then to another one is rounding down to the latter exactly
when it is a part of the former. -/
theorem comp_eq_iff (hf : RoundsDown A f) (hg : RoundsDown B g) :
    (∀ t, g (f t) = g t) ↔ B ⊆ A := by
  constructor
  · intro h b hb
    have hgb : g b = b := hg.eq_self_iff.mpr hb
    have hle : b ≤ f b := by
      calc b = g (f b) := by rw [h b, hgb]
        _ ≤ f b := hg.le (f b)
    exact hf.eq_self_iff.mp (le_antisymm (hf.le b) hle)
  · intro h t
    apply le_antisymm
    · exact hg.greatest t _ (hg.mem _) ((hg.le _).trans (hf.le t))
    · exact hg.greatest (f t) _ (hg.mem t) (hf.greatest t _ (h (hg.mem t)) (hg.le t))

end

/-! ## Sequences of points -/

section

variable {α : Type*} [LinearOrder α] {s : ℤ → α} {index : α → ℤ}

/-- A strictly increasing sequence, with the number of the interval of each value. -/
structure Intervals (s : ℤ → α) (index : α → ℤ) : Prop where
  mono : StrictMono s
  le : ∀ t, s (index t) ≤ t
  lt : ∀ t, t < s (index t + 1)

theorem roundsDown_of_index (h : Intervals s index) :
    RoundsDown (Set.range s) fun t => s (index t) where
  mem t := Set.mem_range_self _
  le := h.le
  greatest := by
    rintro t _ ⟨n, rfl⟩ hn
    have hlt : n < index t + 1 := h.mono.lt_iff_lt.mp (hn.trans_lt (h.lt t))
    exact h.mono.le_iff_le.mpr (Int.lt_add_one_iff.mp hlt)

/-- Every so many intervals make one. -/
lemma Intervals.coarsen (h : Intervals s index) {c : ℤ} (hc : 0 < c) :
    Intervals (fun n => s (c * n)) fun t => index t / c where
  mono m n hmn := h.mono (mul_lt_mul_of_pos_left hmn hc)
  le t := (h.mono.monotone (Int.mul_ediv_self_le hc.ne')).trans (h.le t)
  lt t := by
    have hlt : index t < c * (index t / c) + c := Int.lt_mul_ediv_self_add hc
    have hle : index t + 1 ≤ c * (index t / c + 1) := by
      calc index t + 1 ≤ c * (index t / c) + c := hlt
        _ = c * (index t / c + 1) := by ring
    exact (h.lt t).trans_le (h.mono.monotone hle)

end

/-- The values at the multiples of a unit, shifted. -/
lemma Intervals.scale {s index : ℤ → ℤ} (h : Intervals s index) {unit : ℤ} (hunit : 0 < unit)
    (shift : ℤ) :
    Intervals (fun n => s n * unit - shift) fun t => index ((t + shift) / unit) where
  mono m n hmn := sub_lt_sub_right (mul_lt_mul_of_pos_right (h.mono hmn) hunit) shift
  le t := by
    have hle := h.le ((t + shift) / unit)
    have hmul := (Int.le_ediv_iff_mul_le hunit).mp hle
    omega
  lt t := by
    have hlt := h.lt ((t + shift) / unit)
    have hmul := (Int.ediv_lt_iff_lt_mul hunit).mp hlt
    omega

/-- The integers themselves. -/
lemma intervals_id : Intervals (fun n : ℤ => n) fun t => t where
  mono := strictMono_id
  le := le_refl
  lt := Int.lt_succ

/-! ## Searching -/

/-- The last point of a sequence that is not above, from a first one on, with the steps that may be
taken. -/
def lastFrom (s : ℤ → ℤ) (t : ℤ) : ℕ → ℤ → ℤ
  | 0, n => n
  | left + 1, n => if s (n + 1) ≤ t then lastFrom s t left (n + 1) else n

lemma lastFrom_spec {s : ℤ → ℤ} {t : ℤ} {left : ℕ} {n : ℤ} (hle : s n ≤ t)
    (hlt : t < s (n + left + 1)) :
    s (lastFrom s t left n) ≤ t ∧ t < s (lastFrom s t left n + 1) := by
  induction left generalizing n with
  | zero =>
      rw [Nat.cast_zero, add_zero] at hlt
      exact ⟨hle, hlt⟩
  | succ left ih =>
      rw [lastFrom]
      split_ifs with hnext
      · refine ih hnext ?_
        rwa [add_right_comm n 1, add_assoc n, ← Nat.cast_succ]
      · exact ⟨hle, not_le.mp hnext⟩

end Truncation
