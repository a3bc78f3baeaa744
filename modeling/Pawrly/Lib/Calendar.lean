import Pawrly.Lib.Truncation
import Mathlib.Tactic.IntervalCases

/-!
# The proleptic Gregorian calendar

Days are numbered from 1970-01-01, months from January of the year 0.  The first days of the months are
a strictly increasing sequence, and `monthOf` finds the month of a day (`intervals_month`).
-/

namespace Calendar

open Truncation

def isLeap (year : ℤ) : Bool := year % 4 = 0 && (year % 100 ≠ 0 || year % 400 = 0)

/-- The number of the first day of a year. -/
def yearStart (year : ℤ) : ℤ :=
  365 * (year - 1) + (year - 1) / 4 - (year - 1) / 100 + (year - 1) / 400 - 719162

/-- The days before a month, counted from 0, in a year without leap day. -/
def daysBefore (month : ℤ) : ℤ :=
  if month ≤ 0 then 0 else if month = 1 then 31 else if month = 2 then 59
  else if month = 3 then 90 else if month = 4 then 120 else if month = 5 then 151
  else if month = 6 then 181 else if month = 7 then 212 else if month = 8 then 243
  else if month = 9 then 273 else if month = 10 then 304 else 334

/-- The number of the first day of a month. -/
def monthStart (month : ℤ) : ℤ :=
  yearStart (month / 12) + daysBefore (month % 12) +
    if isLeap (month / 12) && 2 ≤ month % 12 then 1 else 0

/-- The year of a day: from an estimate by the mean length of a year, which is off by one at most. -/
def yearOf (day : ℤ) : ℤ :=
  let estimate := 400 * (day + 719162) / 146097 + 1
  if yearStart (estimate + 1) ≤ day then estimate + 1
  else if yearStart estimate ≤ day then estimate
  else estimate - 1

/-- The month of a day: January of its year, or one of the eleven behind. -/
def monthOf (day : ℤ) : ℤ := lastFrom monthStart day 11 (12 * yearOf day)

/-! ## Years -/

lemma yearStart_succ (year : ℤ) :
    yearStart (year + 1) = yearStart year + if isLeap year then 366 else 365 := by
  unfold yearStart isLeap
  simp only [Bool.and_eq_true, Bool.or_eq_true, decide_eq_true_eq]
  split_ifs <;> omega

lemma yearOf_spec (day : ℤ) : yearStart (yearOf day) ≤ day ∧ day < yearStart (yearOf day + 1) := by
  unfold yearOf
  dsimp only
  generalize hest : 400 * (day + 719162) / 146097 + 1 = estimate
  have hlow : yearStart (estimate - 1) ≤ day := by
    unfold yearStart
    omega
  have hhigh : day < yearStart (estimate + 2) := by
    unfold yearStart
    omega
  split_ifs with hnext hsame
  · exact ⟨hnext, by rwa [add_assoc]⟩
  · exact ⟨hsame, by omega⟩
  · exact ⟨hlow, by rw [sub_add_cancel]; omega⟩

/-! ## Months -/

lemma monthStart_of_year {month : ℤ} (hlow : 0 ≤ month) (hhigh : month < 12) (year : ℤ) :
    monthStart (12 * year + month) =
      yearStart year + daysBefore month + if isLeap year && 2 ≤ month then 1 else 0 := by
  have hdiv : (12 * year + month) / 12 = year := by omega
  have hmod : (12 * year + month) % 12 = month := by omega
  rw [monthStart, hdiv, hmod]

lemma monthStart_january (year : ℤ) : monthStart (12 * year) = yearStart year := by
  have h := monthStart_of_year le_rfl (by norm_num) year
  simpa [daysBefore] using h

lemma daysBefore_succ {month : ℤ} (hlow : 0 ≤ month) (hhigh : month < 11) :
    daysBefore month < daysBefore (month + 1) := by
  interval_cases month <;> decide

lemma monthStart_lt_succ (month : ℤ) : monthStart month < monthStart (month + 1) := by
  obtain ⟨year, m, rfl, hlow, hhigh⟩ : ∃ year m, month = 12 * year + m ∧ 0 ≤ m ∧ m < 12 :=
    ⟨month / 12, month % 12, by omega, by omega, by omega⟩
  by_cases hlast : m = 11
  · subst hlast
    have hnext : 12 * year + 11 + 1 = 12 * (year + 1) := by ring
    rw [hnext, monthStart_january, monthStart_of_year hlow hhigh, yearStart_succ]
    have hdec : daysBefore 11 = 334 := by decide
    rw [hdec]
    split_ifs <;> simp_all; omega
  · have hm : m < 11 := by omega
    have hdays := daysBefore_succ hlow hm
    rw [add_assoc, monthStart_of_year hlow hhigh, monthStart_of_year (by omega) (by omega)]
    have hleap : (if isLeap year && 2 ≤ m then 1 else 0 : ℤ) ≤
        if isLeap year && 2 ≤ m + 1 then 1 else 0 := by
      split_ifs with h h' <;> simp_all
      omega
    omega

/-- The months and their numbers. -/
theorem intervals_month : Intervals monthStart monthOf := by
  have hspec : ∀ day, monthStart (monthOf day) ≤ day ∧ day < monthStart (monthOf day + 1) := by
    intro day
    obtain ⟨hle, hlt⟩ := yearOf_spec day
    rw [← monthStart_january] at hle hlt
    refine lastFrom_spec hle ?_
    convert hlt using 2
    push_cast
    ring
  exact ⟨strictMono_int_of_lt_succ monthStart_lt_succ, fun day => (hspec day).1,
    fun day => (hspec day).2⟩

end Calendar
