import Mathlib.Data.Int.ConditionallyCompleteOrder
import Mathlib.Order.Bounds.Basic
import Mathlib.Order.Monotone.Basic
import Mathlib.Order.Interval.Set.Defs
import Mathlib.Tactic.IntervalCases

/-!
The proleptic Gregorian calendar in a time zone with a fixed offset. Days are
numbered from 1 January 1970, months from January of the year 0, and an instant
is a number of seconds since midnight UTC of day 0. The functions are total on
the integers, so that a date before the epoch needs no case of its own.

The results say which instant is the next of a kind: the next time a given hour
begins, and the next time a month has come to a given hour of its first day.
-/

namespace GameCluster.Lib.Calendar

/-- The number of the first day of a year. -/
def yearStart (y : ℤ) : ℤ :=
  365 * (y - 1970) + ((y - 1) / 4 - (y - 1) / 100 + (y - 1) / 400) - 477

def isLeap (y : ℤ) : Bool := y % 4 = 0 && (y % 100 ≠ 0 || y % 400 = 0)

/-- The days of a year before its month `k`, counted from 0. Month 12 stands for
the end of the year. -/
def daysBefore (leap : Bool) (k : ℤ) : ℤ :=
  [0, 31, 59, 90, 120, 151, 181, 212, 243, 273, 304, 334, 365].getD k.toNat 0 +
    if leap && 2 ≤ k then 1 else 0

/-- The number of the first day of a month. -/
def monthStart (m : ℤ) : ℤ := yearStart (m / 12) + daysBefore (isLeap (m / 12)) (m % 12)

/-- The year a day lies in. The mean length of a year gives it up to one. -/
def yearOf (d : ℤ) : ℤ :=
  let y := 400 * d / 146097 + 1970
  if d < yearStart y then y - 1 else if yearStart (y + 1) ≤ d then y + 1 else y

/-- The month of a year, counted from 0, that its day `r` lies in. -/
def monthIn (leap : Bool) (r : ℤ) : ℤ :=
  if daysBefore leap (r / 31 + 1) ≤ r then r / 31 + 1 else r / 31

/-- The month a day lies in. -/
def monthOf (d : ℤ) : ℤ :=
  12 * yearOf d + monthIn (isLeap (yearOf d)) (d - yearStart (yearOf d))

theorem isLeap_iff (y : ℤ) : isLeap y = true ↔ y % 4 = 0 ∧ (y % 100 ≠ 0 ∨ y % 400 = 0) := by
  simp [isLeap]

/-- A year is as long as its months. -/
theorem yearStart_succ (y : ℤ) : yearStart (y + 1) = yearStart y + daysBefore (isLeap y) 12 := by
  cases hleap : isLeap y with
  | true =>
    have h := (isLeap_iff y).mp hleap
    have hlen : daysBefore true 12 = 366 := rfl
    rw [hlen]
    unfold yearStart
    omega
  | false =>
    have h : ¬(y % 4 = 0 ∧ (y % 100 ≠ 0 ∨ y % 400 = 0)) := by
      rw [← isLeap_iff, hleap]
      exact Bool.false_ne_true
    have hlen : daysBefore false 12 = 365 := rfl
    rw [hlen]
    unfold yearStart
    omega

theorem yearOf_spec (d : ℤ) : yearStart (yearOf d) ≤ d ∧ d < yearStart (yearOf d + 1) := by
  unfold yearOf
  generalize hy : 400 * d / 146097 + 1970 = y
  have hlow : yearStart (y - 1) ≤ d := by
    unfold yearStart
    omega
  have hhigh : d < yearStart (y + 2) := by
    unfold yearStart
    omega
  dsimp only
  split
  · rename_i hlt
    refine ⟨hlow, ?_⟩
    rw [Int.sub_add_cancel]
    exact hlt
  · rename_i hge
    split
    · rename_i hle
      refine ⟨hle, ?_⟩
      rw [Int.add_assoc]
      exact hhigh
    · rename_i hlt
      exact ⟨Int.not_lt.mp hge, Int.not_le.mp hlt⟩

theorem daysBefore_lt_succ (leap : Bool) {k : ℤ} (hk : 0 ≤ k) (hk12 : k < 12) :
    daysBefore leap k < daysBefore leap (k + 1) := by
  interval_cases k <;> cases leap <;> decide

/-- A month has at most 31 days, and two of them more than 31. -/
theorem daysBefore_bounds (leap : Bool) {k : ℤ} (hk : 0 ≤ k) (hk11 : k ≤ 11) :
    daysBefore leap k ≤ 31 * k ∧ (k < 11 → 31 * k + 31 ≤ daysBefore leap (k + 2)) := by
  interval_cases k <;> cases leap <;> decide

theorem monthIn_spec (leap : Bool) {r : ℤ} (hr : 0 ≤ r) (hlen : r < daysBefore leap 12) :
    (0 ≤ monthIn leap r ∧ monthIn leap r < 12) ∧
      daysBefore leap (monthIn leap r) ≤ r ∧ r < daysBefore leap (monthIn leap r + 1) := by
  have hyear : daysBefore leap 12 ≤ 366 := by
    cases leap <;> decide
  obtain ⟨k, hk⟩ : ∃ k, r / 31 = k := ⟨_, rfl⟩
  obtain ⟨hlow, hhigh⟩ := daysBefore_bounds leap (k := k) (by omega) (by omega)
  unfold monthIn
  rw [hk]
  split
  · rename_i hle
    have hk11 : k < 11 := by
      by_contra hge
      obtain rfl : k = 11 := by omega
      exact absurd (hle.trans_lt hlen) (lt_irrefl _)
    rw [Int.add_assoc]
    refine ⟨by omega, hle, ?_⟩
    have hgap : 31 * k + 31 ≤ daysBefore leap (k + (1 + 1)) := hhigh hk11
    omega
  · rename_i hlt
    exact ⟨by omega, by omega, Int.not_le.mp hlt⟩

theorem monthStart_add (y : ℤ) {k : ℤ} (hk : 0 ≤ k) (hk12 : k < 12) :
    monthStart (12 * y + k) = yearStart y + daysBefore (isLeap y) k := by
  have hdiv : (12 * y + k) / 12 = y := by omega
  have hmod : (12 * y + k) % 12 = k := by omega
  rw [monthStart, hdiv, hmod]

/-- A month ends where the next one starts, also in December. -/
theorem monthStart_succ (y : ℤ) {k : ℤ} (hk : 0 ≤ k) (hk12 : k < 12) :
    monthStart (12 * y + k + 1) = yearStart y + daysBefore (isLeap y) (k + 1) := by
  by_cases hlast : k = 11
  · subst hlast
    have hnext : 12 * y + 11 + 1 = 12 * (y + 1) + 0 := by omega
    rw [hnext, monthStart_add (y + 1) (le_refl 0) (by decide), yearStart_succ]
    have hfirst : daysBefore (isLeap (y + 1)) 0 = 0 := by
      cases isLeap (y + 1) <;> rfl
    rw [hfirst, Int.add_zero]
    rfl
  · rw [Int.add_assoc]
    exact monthStart_add y (by omega) (by omega)

theorem monthStart_strictMono : StrictMono monthStart := by
  apply strictMono_int_of_lt_succ
  intro m
  have hm : m = 12 * (m / 12) + m % 12 := by omega
  have hlow : 0 ≤ m % 12 := by omega
  have hhigh : m % 12 < 12 := by omega
  rw [hm, monthStart_add _ hlow hhigh, monthStart_succ _ hlow hhigh]
  have := daysBefore_lt_succ (isLeap (m / 12)) hlow hhigh
  omega

theorem monthOf_spec (d : ℤ) : monthStart (monthOf d) ≤ d ∧ d < monthStart (monthOf d + 1) := by
  obtain ⟨hstart, hend⟩ := yearOf_spec d
  rw [yearStart_succ] at hend
  obtain ⟨⟨hlow, hhigh⟩, hle, hlt⟩ :=
    monthIn_spec (isLeap (yearOf d)) (r := d - yearStart (yearOf d)) (by omega) (by omega)
  rw [monthOf, monthStart_succ _ hlow hhigh, monthStart_add _ hlow hhigh]
  omega

theorem monthOf_monthStart (m : ℤ) : monthOf (monthStart m) = m := by
  obtain ⟨hle, hlt⟩ := monthOf_spec (monthStart m)
  have hlow := monthStart_strictMono.le_iff_le.mp hle
  have hhigh := monthStart_strictMono.lt_iff_lt.mp hlt
  omega

example : monthStart (monthOf 20772) = 20758 ∧ monthOf 20772 = 12 * 2026 + 10 := by
  decide

section Zone

variable (offset : ℤ)

/-- The day an instant lies in, by the clock of the zone. -/
def dayOf (s : ℤ) : ℤ := (s + offset) / 86400

def hourOf (s : ℤ) : ℤ := (s + offset) % 86400 / 3600

/-- The instant at which an hour of a day begins. -/
def instant (d h : ℤ) : ℤ := d * 86400 + h * 3600 - offset

def year (s : ℤ) : ℤ := monthOf (dayOf offset s) / 12

/-- The month of the year, counted from 1. -/
def month (s : ℤ) : ℤ := monthOf (dayOf offset s) % 12 + 1

/-- The day of the month, counted from 1. -/
def monthDay (s : ℤ) : ℤ := dayOf offset s - monthStart (monthOf (dayOf offset s)) + 1

/-- The instant of a date and an hour. A month or a day out of its usual range
counts on into the next or back into the last. -/
def date (y m d h : ℤ) : ℤ := instant offset (monthStart (12 * y + (m - 1)) + (d - 1)) h

/-- The same time of day on the date that is so many years, months and days on. -/
def addDate (s years months days : ℤ) : ℤ :=
  date offset (year offset s + years) (month offset s + months) (monthDay offset s + days) 0 +
    (s + offset) % 86400

/-- The instants at which a given hour begins on some day. -/
def daily (h : ℤ) : Set ℤ := Set.range fun d => instant offset d h

/-- The instants at which a given hour begins on the first day of some month. -/
def monthly (h : ℤ) : Set ℤ := Set.range fun m => instant offset (monthStart m) h

/-- The next instant of a daily kind is today's before its hour and tomorrow's
from then on. -/
theorem daily_next (s : ℤ) {h : ℤ} (hlow : 0 ≤ h) (hhigh : h < 24) :
    IsLeast {b | b ∈ daily offset h ∧ s < b}
      (if h ≤ hourOf offset s then instant offset (dayOf offset s) (h + 24)
        else instant offset (dayOf offset s) h) := by
  unfold hourOf dayOf instant
  constructor
  · split
    · refine ⟨⟨(s + offset) / 86400 + 1, ?_⟩, ?_⟩
      · simp only [instant]
        omega
      · omega
    · refine ⟨⟨(s + offset) / 86400, rfl⟩, ?_⟩
      omega
  · rintro b ⟨⟨d, rfl⟩, hb⟩
    simp only [instant] at hb ⊢
    split <;> omega

theorem date_first (s h : ℤ) :
    date offset (year offset s) (month offset s) 1 h =
      instant offset (monthStart (monthOf (dayOf offset s))) h := by
  have hmonth : 12 * year offset s + (month offset s - 1) = monthOf (dayOf offset s) := by
    unfold year month
    omega
  rw [date, hmonth, Int.sub_self, Int.add_zero]

/-- A month on from the first day of a month is the first day of the next. -/
theorem addDate_month (m : ℤ) {h : ℤ} (hlow : 0 ≤ h) (hhigh : h < 24) :
    addDate offset (instant offset (monthStart m) h) 0 1 0 =
      instant offset (monthStart (m + 1)) h := by
  have hday : dayOf offset (instant offset (monthStart m) h) = monthStart m := by
    unfold dayOf instant
    omega
  have hclock : (instant offset (monthStart m) h + offset) % 86400 = h * 3600 := by
    unfold instant
    omega
  have hmonth : 12 * (m / 12 + 0) + (m % 12 + 1 + 1 - 1) = m + 1 := by omega
  simp only [addDate, date, year, month, monthDay, hday, hclock, monthOf_monthStart, hmonth]
  unfold instant
  omega

/-- The next instant of a monthly kind is next month's, if this month's is not
still to come. -/
theorem monthly_next (s h : ℤ)
    (hpast : instant offset (monthStart (monthOf (dayOf offset s))) h ≤ s) (hh : 0 ≤ h) :
    IsLeast {b | b ∈ monthly offset h ∧ s < b}
      (instant offset (monthStart (monthOf (dayOf offset s) + 1)) h) := by
  obtain ⟨hstart, hend⟩ := monthOf_spec (dayOf offset s)
  constructor
  · refine ⟨⟨_, rfl⟩, ?_⟩
    unfold instant
    unfold dayOf at hend ⊢
    omega
  · rintro b ⟨⟨m, rfl⟩, hb⟩
    simp only at hb ⊢
    have hmonth : monthOf (dayOf offset s) < m := by
      rw [← monthStart_strictMono.lt_iff_lt]
      unfold instant at hpast hb
      omega
    have := monthStart_strictMono.monotone (Int.add_one_le_of_lt hmonth)
    unfold instant
    omega

end Zone

end GameCluster.Lib.Calendar
