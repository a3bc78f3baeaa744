import Pawrly.Sql.Aggregate
import Pawrly.Lib.Calendar
import Mathlib.Data.Multiset.Filter

/-!
# Truncating timestamps to grains

`DATE_TRUNC` on timestamps in nanoseconds since 1970-01-01, in a zone at a fixed offset: hours and days
of the zone, weeks that start on Mondays, and the months, quarters and years of the proleptic
Gregorian calendar.  `TimeGrain::can_roll_up_to` (`pawrly-core/src/semantic.rs`) is the coarsening of
these truncations (`canRollUpTo_iff`).
-/

namespace Pawrly
namespace Semantic

open Truncation Calendar

def hourNanos : ℤ := 3600 * 10 ^ 9

def dayNanos : ℤ := 24 * hourNanos

namespace TimeGrain

/-- The timestamp at which a bucket starts, in a zone so many nanoseconds ahead; 1970-01-01 is a
Thursday. -/
def bucketStart (zone : ℤ) (grain : TimeGrain) (n : ℤ) : ℤ :=
  match grain with
  | hour => n * hourNanos - zone
  | day => n * dayNanos - zone
  | week => (n * 7 - 3) * dayNanos - zone
  | month => monthStart n * dayNanos - zone
  | quarter => monthStart (3 * n) * dayNanos - zone
  | year => monthStart (12 * n) * dayNanos - zone

/-- The bucket of a timestamp. -/
def bucketOf (zone : ℤ) (grain : TimeGrain) (t : ℤ) : ℤ :=
  let dayNumber := (t + zone) / dayNanos
  match grain with
  | hour => (t + zone) / hourNanos
  | day => dayNumber
  | week => (dayNumber + 3) / 7
  | month => monthOf dayNumber
  | quarter => monthOf dayNumber / 3
  | year => monthOf dayNumber / 12

/-- `DATE_TRUNC(grain, t)` in a zone. -/
def dateTrunc (zone : ℤ) (grain : TimeGrain) (t : ℤ) : ℤ :=
  bucketStart zone grain (bucketOf zone grain t)

/-! ## Buckets -/

lemma intervals_bucketStart (zone : ℤ) (grain : TimeGrain) :
    Intervals (bucketStart zone grain) (bucketOf zone grain) := by
  have hhour : 0 < hourNanos := by decide
  have hday : 0 < dayNanos := by decide
  cases grain with
  | hour => exact intervals_id.scale hhour zone
  | day => exact intervals_id.scale hday zone
  | week => exact (intervals_id.scale (by decide) 3).scale hday zone
  | month => exact intervals_month.scale hday zone
  | quarter => exact (intervals_month.coarsen (by decide)).scale hday zone
  | year => exact (intervals_month.coarsen (by decide)).scale hday zone

/-- Truncation rounds down to the starts of the buckets. -/
lemma dateTrunc_roundsDown (zone : ℤ) (grain : TimeGrain) :
    RoundsDown (Set.range (bucketStart zone grain)) (dateTrunc zone grain) :=
  roundsDown_of_index (intervals_bucketStart zone grain)

/-- In another zone everything is shifted. -/
lemma dateTrunc_zone (zone : ℤ) (grain : TimeGrain) (t : ℤ) :
    dateTrunc zone grain (t - zone) = dateTrunc 0 grain t - zone := by
  have hlocal : t - zone + zone = t + 0 := by ring
  cases grain <;> simp only [dateTrunc, bucketStart, bucketOf, hlocal, sub_zero]

/-! ## Coarser grains -/

/-- The starts of coarser buckets are starts of buckets. -/
lemma bucketStart_coarser (zone : ℤ) {p q : TimeGrain} (h : p.canRollUpTo q = true) :
    Set.range (bucketStart zone q) ⊆ Set.range (bucketStart zone p) := by
  rintro _ ⟨n, rfl⟩
  have hsame : ∀ g, bucketStart zone g n ∈ Set.range (bucketStart zone g) := fun g => ⟨n, rfl⟩
  have hhour : ∀ m, m * dayNanos - zone ∈ Set.range (bucketStart zone hour) := fun m =>
    ⟨24 * m, by simp only [bucketStart, dayNanos]; ring⟩
  have hday : ∀ m, m * dayNanos - zone ∈ Set.range (bucketStart zone day) := fun m => ⟨m, rfl⟩
  have hmonth : ∀ m, monthStart m * dayNanos - zone ∈ Set.range (bucketStart zone month) :=
    fun m => ⟨m, rfl⟩
  cases p with
  | hour =>
      cases q with
      | hour => exact hsame hour
      | day | week | month | quarter | year => exact hhour _
  | day =>
      cases q with
      | hour => cases h
      | day | week | month | quarter | year => exact hday _
  | week =>
      cases q with
      | week => exact hsame week
      | hour | day | month | quarter | year => cases h
  | month =>
      cases q with
      | hour | day | week => cases h
      | month | quarter | year => exact hmonth _
  | quarter =>
      cases q with
      | hour | day | week | month => cases h
      | quarter => exact hsame quarter
      | year =>
          refine ⟨4 * n, ?_⟩
          have htwelve : 3 * (4 * n) = 12 * n := by ring
          simp only [bucketStart, htwelve]
  | year =>
      cases q with
      | year => exact hsame year
      | hour | day | week | month | quarter => cases h

/-- A start of a bucket that is one for no grain which does not roll up to this one: one o'clock,
a Friday, a Monday, the first of February, of April and of January 1970. -/
def ownStart : TimeGrain → ℤ
  | hour => hourNanos
  | day => dayNanos
  | week => 4 * dayNanos
  | month => 31 * dayNanos
  | quarter => 90 * dayNanos
  | year => 0

lemma dateTrunc_ownStart (p q : TimeGrain) :
    dateTrunc 0 p (ownStart q) = ownStart q ↔ p.canRollUpTo q = true := by
  cases p <;> cases q <;> decide

lemma ownStart_mem_iff (zone : ℤ) (p q : TimeGrain) :
    ownStart q - zone ∈ Set.range (bucketStart zone p) ↔ p.canRollUpTo q = true := by
  rw [← (dateTrunc_roundsDown zone p).eq_self_iff, dateTrunc_zone, sub_left_inj,
    dateTrunc_ownStart]

lemma canRollUpTo_self (q : TimeGrain) : q.canRollUpTo q = true := by
  simp [canRollUpTo]

lemma bucketStart_coarser_iff (zone : ℤ) (p q : TimeGrain) :
    Set.range (bucketStart zone q) ⊆ Set.range (bucketStart zone p) ↔
      p.canRollUpTo q = true := by
  constructor
  · intro h
    exact (ownStart_mem_iff zone p q).mp (h ((ownStart_mem_iff zone q q).mpr (canRollUpTo_self q)))
  · exact bucketStart_coarser zone

lemma dateTrunc_dateTrunc_iff (zone : ℤ) (p q : TimeGrain) :
    (∀ t, dateTrunc zone q (dateTrunc zone p t) = dateTrunc zone q t) ↔
      p.canRollUpTo q = true :=
  (comp_eq_iff (dateTrunc_roundsDown zone p) (dateTrunc_roundsDown zone q)).trans
    (bucketStart_coarser_iff zone p q)

/-- **Coarsening grains**: one grain rolls up to another exactly when truncating to the one first
does not matter for truncating to the other, whatever the zone, and then the groups are those of
the truncated timestamps. -/
theorem canRollUpTo_iff (zone : ℤ) (p q : TimeGrain) :
    (p.canRollUpTo q = true ↔
      ∀ t, dateTrunc zone q (dateTrunc zone p t) = dateTrunc zone q t) ∧
    (p.canRollUpTo q = true → ∀ (ts : Multiset ℤ) (key : ℤ),
      ((ts.map (dateTrunc zone p)).filter fun t => dateTrunc zone q t = key) =
        (ts.filter fun t => dateTrunc zone q t = key).map (dateTrunc zone p)) := by
  refine ⟨(dateTrunc_dateTrunc_iff zone p q).symm, fun h ts key => ?_⟩
  have hsame := (dateTrunc_dateTrunc_iff zone p q).mpr h
  rw [Multiset.filter_map]
  congr 1
  exact Multiset.filter_congr fun t _ => by rw [Function.comp_apply, hsame t]

end TimeGrain

/-! ## The engine's truncation -/

open Sql

/-- An engine that truncates timestamps, numbers of nanoseconds, by the calendar of a zone. -/
def calendarFunctions (zone : ℤ) (atTimeZone : String → Value → Value)
    (cmp : CmpOp → Value → Literal → Bool) (like : Value → String → Bool) : Functions where
  trunc := fun grain v => match v with
    | some (.num t) => some (.num (TimeGrain.dateTrunc zone grain t.floor : ℤ))
    | _ => none
  atTimeZone := atTimeZone
  cmp := cmp
  like := like
  trunc_trunc := by
    intro p q v h
    cases v with
    | none => rfl
    | some d =>
        cases d with
        | num t => simp [(TimeGrain.dateTrunc_dateTrunc_iff zone p q).mpr h]
        | _ => rfl

end Semantic
end Pawrly
