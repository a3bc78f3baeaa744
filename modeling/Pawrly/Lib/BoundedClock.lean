import Mathlib.Algebra.Order.Group.Unbundled.Int
import Mathlib.Tactic.Common

/-!
# Instants of a clock with a bounded range

A clock counts ticks from its epoch and represents the counts of an interval.  An instant carries
that it lies in the interval; moving it forward succeeds exactly when the result does.
-/

namespace BoundedClock

/-- A tick of a clock whose counts reach from `lo` to `hi`. -/
structure Instant (lo hi : ℤ) where
  ticks : ℤ
  lower : lo ≤ ticks
  upper : ticks ≤ hi
  deriving DecidableEq

namespace Instant

variable {lo hi : ℤ}

@[ext] lemma ext {t u : Instant lo hi} (h : t.ticks = u.ticks) : t = u := by
  cases t
  cases u
  simpa using h

/-- The instant that lies `d` ticks after another one. -/
def add? (t : Instant lo hi) (d : ℕ) : Option (Instant lo hi) :=
  if h : t.ticks + d ≤ hi then
    some ⟨t.ticks + d, t.lower.trans (Int.le_add_of_nonneg_right (Int.natCast_nonneg d)), h⟩
  else none

/-- The ticks from an instant to one that is not before it. -/
def since? (t u : Instant lo hi) : Option ℕ :=
  if u.ticks ≤ t.ticks then some (t.ticks - u.ticks).toNat else none

@[simp] lemma add?_isSome {t : Instant lo hi} {d : ℕ} :
    (t.add? d).isSome ↔ t.ticks + d ≤ hi := by
  unfold add?
  split_ifs with h <;> simp [h]

lemma add?_eq_some {t u : Instant lo hi} {d : ℕ} :
    t.add? d = some u ↔ u.ticks = t.ticks + d := by
  unfold add?
  split_ifs with h
  · constructor
    · intro hu
      cases hu
      rfl
    · intro hu
      exact congrArg some (ext hu.symm)
  · constructor
    · intro hu
      cases hu
    · intro hu
      exact absurd (hu ▸ u.upper) h

end Instant

end BoundedClock
