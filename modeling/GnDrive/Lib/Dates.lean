/-
  GnDrive.Lib.Dates

  Dates of the proleptic Gregorian calendar and their days.

  `IsDate y m d` says that the month `m` of the year `y` has a day `d`.  The days and
  the dates are in bijection: `exists_date` gives each day its date, and `IsDate.year`,
  `IsDate.month` and `IsDate.dayOfMonth` read a date back from its day.  `nextDate` is
  the day after (`IsDate.next`).
-/

import GnDrive.Lib.Calendar

namespace GnDrive.Calendar

structure IsDate (y : Int) (m d : Nat) : Prop where
  first_month : 1 ≤ m
  last_month : m ≤ 12
  first_day : 1 ≤ d
  last_day : monthStart y m + d ≤ monthStart y (m + 1)

def dayOfDate (y : Int) (m d : Nat) : Int := monthStart y m + d - 1

/-- The first of the next month, or of the next year, comes after the last of a month. -/
def nextDate (y : Int) (m d : Nat) : Int × Nat × Nat :=
  if monthStart y m + d < monthStart y (m + 1) then (y, m, d + 1)
  else if m < 12 then (y, m + 1, 1)
  else (y + 1, 1, 1)

section

variable {y y' : Int} {m m' d d' : Nat}

theorem IsDate.bounds (h : IsDate y m d) :
    monthStart y m ≤ dayOfDate y m d ∧ dayOfDate y m d < monthStart y (m + 1) := by
  have hfirst := h.first_day
  have hlast := h.last_day
  unfold dayOfDate
  omega

theorem IsDate.year (h : IsDate y m d) : Calendar.year (dayOfDate y m d) = y := by
  obtain ⟨hlow, hhigh⟩ := h.bounds
  have hstart := monthStart_mono (y := y) h.first_month (Nat.le_succ_of_le h.last_month)
  have hend := monthStart_mono (y := y) (Nat.succ_le_succ h.last_month) (Nat.le_refl 13)
  rw [monthStart_one] at hstart
  rw [monthStart_thirteen] at hend
  exact year_eq_iff.mpr ⟨Int.le_trans hstart hlow, Int.lt_of_lt_of_le hhigh hend⟩

theorem IsDate.month (h : IsDate y m d) : Calendar.month (dayOfDate y m d) = m := by
  obtain ⟨hlow, hhigh⟩ := h.bounds
  have hlt := (month_lt_iff (n := dayOfDate y m d) (Nat.succ_le_succ h.last_month)).mpr
    (by rw [h.year]; exact hhigh)
  have hle : ¬ Calendar.month (dayOfDate y m d) < m := by
    rw [month_lt_iff (Nat.le_succ_of_le h.last_month), h.year]
    exact Int.not_lt.mpr hlow
  omega

theorem IsDate.dayOfMonth (h : IsDate y m d) : Calendar.dayOfMonth (dayOfDate y m d) = d := by
  unfold Calendar.dayOfMonth
  rw [h.year, h.month]
  unfold dayOfDate
  omega

/-- Different dates are different days. -/
theorem IsDate.inj (h : IsDate y m d) (h' : IsDate y' m' d')
    (heq : dayOfDate y m d = dayOfDate y' m' d') : y = y' ∧ m = m' ∧ d = d' := by
  refine ⟨?_, ?_, ?_⟩
  · rw [← h.year, heq, h'.year]
  · rw [← h.month, heq, h'.month]
  · rw [← h.dayOfMonth, heq, h'.dayOfMonth]

/-- Every day has its date. -/
theorem exists_date (n : Int) : IsDate (Calendar.year n) (Calendar.month n)
    (Calendar.dayOfMonth n) ∧
      dayOfDate (Calendar.year n) (Calendar.month n) (Calendar.dayOfMonth n) = n := by
  obtain ⟨hfirst, hlast, hlow, hhigh⟩ := month_bounds n
  have hday : (Calendar.dayOfMonth n : Int)
      = n - monthStart (Calendar.year n) (Calendar.month n) + 1 := by
    unfold Calendar.dayOfMonth
    omega
  refine ⟨⟨hfirst, hlast, by omega, by omega⟩, ?_⟩
  unfold dayOfDate
  omega

theorem monthStart_lt (hfirst : 1 ≤ m) (hlast : m ≤ 12) :
    monthStart y m < monthStart y (m + 1) := by
  have hall : ∀ leap, ∀ m < 13, 1 ≤ m → daysBefore leap m < daysBefore leap (m + 1) := by
    decide
  have := hall (isLeap y) m (Nat.lt_succ_of_le hlast) hfirst
  unfold monthStart
  omega

theorem isDate_first (hfirst : 1 ≤ m) (hlast : m ≤ 12) : IsDate y m 1 :=
  ⟨hfirst, hlast, Nat.le_refl 1, monthStart_lt hfirst hlast⟩

theorem IsDate.next (h : IsDate y m d) :
    IsDate (nextDate y m d).1 (nextDate y m d).2.1 (nextDate y m d).2.2 ∧
      dayOfDate (nextDate y m d).1 (nextDate y m d).2.1 (nextDate y m d).2.2
        = dayOfDate y m d + 1 := by
  have hlast := h.last_day
  unfold nextDate
  by_cases hday : monthStart y m + d < monthStart y (m + 1)
  · rw [if_pos hday]
    refine ⟨⟨h.first_month, h.last_month, Nat.le_add_left 1 d, ?_⟩, ?_⟩
    · show monthStart y m + ((d + 1 : Nat) : Int) ≤ monthStart y (m + 1)
      omega
    · show monthStart y m + ((d + 1 : Nat) : Int) - 1 = monthStart y m + d - 1 + 1
      omega
  · rw [if_neg hday]
    by_cases hmonth : m < 12
    · rw [if_pos hmonth]
      refine ⟨isDate_first (Nat.le_add_left 1 m) hmonth, ?_⟩
      show monthStart y (m + 1) + ((1 : Nat) : Int) - 1 = monthStart y m + d - 1 + 1
      omega
    · rw [if_neg hmonth]
      obtain rfl : m = 12 := by have := h.last_month; omega
      refine ⟨isDate_first (Nat.le_refl 1) (Nat.le_add_left 1 11), ?_⟩
      have hyear : monthStart y (12 + 1) = monthStart (y + 1) 1 := by
        rw [monthStart_thirteen, monthStart_one]
      show monthStart (y + 1) 1 + ((1 : Nat) : Int) - 1 = monthStart y 12 + d - 1 + 1
      omega

end

end GnDrive.Calendar
