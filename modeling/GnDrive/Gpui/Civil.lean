/-
  GnDrive.Gpui.Civil

  The civil calendar of the window (`format.rs`).

  `days_from_civil` and `civil_from_days` count in eras of 400 years that begin in
  March.  `daysFromCivil_eq` and `civilFromDays_date` connect the two to the days and
  dates of the calendar, the former for every month and day that fit their types: the
  day before 1 March cannot be written as 0 March in a build with overflow checks.

  `checked` tells whether arithmetic that leaves its type panics or wraps.
-/

import GnDrive.Lib.Dates
import GnDrive.Lib.Ints
import Mathlib.Order.Monotone.Basic
import Mathlib.Tactic.IntervalCases

namespace GnDrive.Gpui.History

open Calendar (IsDate dayOfDate monthStart nextDate yearStart)

-- ============================================================================
-- Machine integers
-- ============================================================================

inductive Panic where
  | overflow
  /-- A slice that begins or ends inside a character. -/
  | charBoundary
deriving DecidableEq

def addI64 (checked : Bool) (a b : Int) : Except Panic Int :=
  if IsI64 (a + b) then .ok (a + b)
  else if checked then .error .overflow
  else .ok ((a + b).bmod (2 ^ 64))

def addU64 (checked : Bool) (a b : Nat) : Except Panic Nat :=
  if a + b < 2 ^ 64 then .ok (a + b)
  else if checked then .error .overflow
  else .ok ((a + b) % 2 ^ 64)

def subU64 (checked : Bool) (a b : Nat) : Except Panic Nat :=
  if b ≤ a then .ok (a - b)
  else if checked then .error .overflow
  else .ok (a + 2 ^ 64 - b)

/-- `n as i64` of a `u64`. -/
def asI64 (n : Nat) : Int := if n < 2 ^ 63 then n else n - 2 ^ 64

section

variable {checked : Bool} {a b : Nat}

theorem subU64_ok (h : b ≤ a) : subU64 checked a b = .ok (a - b) := if_pos h

theorem subU64_wraps (h : a < b) : subU64 false a b = .ok (a + 2 ^ 64 - b) := by
  rw [subU64, if_neg (Nat.not_le.mpr h), if_neg Bool.false_ne_true]

theorem subU64_panics (h : a < b) : subU64 true a b = .error .overflow := by
  rw [subU64, if_neg (Nat.not_le.mpr h), if_pos rfl]

theorem addU64_ok (h : a + b < 2 ^ 64) : addU64 checked a b = .ok (a + b) := if_pos h

theorem addU64_wraps (h : 2 ^ 64 ≤ a + b) : addU64 false a b = .ok ((a + b) % 2 ^ 64) := by
  rw [addU64, if_neg (Nat.not_lt.mpr h), if_neg Bool.false_ne_true]

end

-- ============================================================================
-- The two directions
-- ============================================================================

def isLeap (year : Int) : Bool :=
  year.tmod 4 = 0 && (year.tmod 100 ≠ 0 || year.tmod 400 = 0)

def monthLen (year : Int) (month : Nat) : Nat :=
  match month with
  | 1 | 3 | 5 | 7 | 8 | 10 | 12 => 31
  | 4 | 6 | 9 | 11 => 30
  | 2 => if isLeap year then 29 else 28
  | _ => 0

/-- Days since the Unix epoch.  What is left plain cannot leave its type for an `i32`
    and two `u32`. -/
def daysFromCivil (checked : Bool) (year : Int) (month day : Nat) : Except Panic Int := do
  let y := year - (if month ≤ 2 then 1 else 0)
  let era := y / 400
  let yoe := (y - era * 400).toNat
  let mp := if 2 < month then month - 3 else month + 9
  let doy ← subU64 checked ((153 * mp + 2) / 5 + day) 1
  let doe ← addU64 checked (yoe * 365 + yoe / 4 - yoe / 100) doy
  return era * 146097 + asI64 doe - 719468

def civilFromDays (checked : Bool) (days : Int) : Except Panic (Int × Nat × Nat) := do
  let z ← addI64 checked days 719468
  let era := z / 146097
  let doe := (z - era * 146097).toNat
  let yoe := (doe - doe / 1460 + doe / 36524 - doe / 146096) / 365
  let y := yoe + era * 400
  let doy := doe - (365 * yoe + yoe / 4 - yoe / 100)
  let mp := (5 * doy + 2) / 153
  let day := doy - (153 * mp + 2) / 5 + 1
  let month := if mp < 10 then mp + 3 else mp - 9
  let year := if month ≤ 2 then y + 1 else y
  return (if IsI32 year then year else 0, month, day)

-- ============================================================================
-- Years of an era
-- ============================================================================

/-- The first day of a year of the era. -/
def eraYearStart (yoe : Nat) : Nat := 365 * yoe + yoe / 4 - yoe / 100 + yoe / 400

/-- The day of an era without the leap days before it. -/
def unleaped (doe : Nat) : Nat := doe - doe / 1460 + doe / 36524 - doe / 146096

theorem unleaped_mono {a b : Nat} (h : a ≤ b) (hb : b < 146097) : unleaped a ≤ unleaped b := by
  induction b, h using Nat.le_induction with
  | base => exact Nat.le_refl _
  | succ b _ ih =>
    refine Nat.le_trans (ih (Nat.lt_of_succ_lt hb)) ?_
    unfold unleaped
    omega

/-- On the first and on the last day of each year the estimate is right. -/
theorem unleaped_ends : ∀ yoe < 400, unleaped (eraYearStart yoe) / 365 = yoe ∧
    unleaped (eraYearStart (yoe + 1) - 1) / 365 = yoe := by
  decide +kernel

theorem eraYearStart_le {a b : Nat} (h : a ≤ b) : eraYearStart a ≤ eraYearStart b := by
  refine monotone_nat_of_le_succ (fun n => ?_) h
  unfold eraYearStart
  omega

/-- So it is right on all days. -/
theorem yearOfEra {doe : Nat} (h : doe < 146097) : unleaped doe / 365 < 400 ∧
    eraYearStart (unleaped doe / 365) ≤ doe ∧ doe < eraYearStart (unleaped doe / 365 + 1) := by
  have hlast : unleaped doe / 365 < 400 :=
    Nat.lt_succ_of_le (Nat.div_le_div_right (unleaped_mono (Nat.le_pred_of_lt h) (by decide)))
  refine ⟨hlast, ?_, ?_⟩
  · refine Nat.not_lt.mp fun hlt => ?_
    -- the day would be in the year before
    obtain ⟨yoe, hyoe⟩ : ∃ yoe, unleaped doe / 365 = yoe + 1 := by
      refine ⟨unleaped doe / 365 - 1, ?_⟩
      have hpos : unleaped doe / 365 ≠ 0 := by
        intro hzero
        rw [hzero] at hlt
        exact Nat.not_lt_zero _ hlt
      omega
    rw [hyoe] at hlt hlast
    have hend : eraYearStart (yoe + 1) ≤ 146097 := eraYearStart_le (Nat.le_of_lt hlast)
    have hbefore : doe ≤ eraYearStart (yoe + 1) - 1 := by omega
    have hle := Nat.div_le_div_right (c := 365) (unleaped_mono hbefore (by omega))
    rw [hyoe, (unleaped_ends yoe (Nat.lt_of_succ_lt hlast)).2] at hle
    omega
  · refine Nat.not_le.mp fun hle => ?_
    -- the day would be in the year after
    by_cases hnext : unleaped doe / 365 + 1 < 400
    · have hge := Nat.div_le_div_right (c := 365) (unleaped_mono hle h)
      rw [(unleaped_ends _ hnext).1] at hge
      omega
    · have hlen : unleaped doe / 365 + 1 = 400 := by omega
      rw [hlen] at hle
      exact absurd (Nat.lt_of_le_of_lt hle h) (by decide)

-- ============================================================================
-- Days of the calendar
-- ============================================================================

theorem isLeap_eq (y : Int) : isLeap y = Calendar.isLeap y := by
  have hiff : ∀ k : Int, y.tmod k = 0 ↔ y % k = 0 := fun k => by
    rw [← Int.dvd_iff_tmod_eq_zero, Int.dvd_iff_emod_eq_zero]
  simp only [isLeap, Calendar.isLeap, ne_eq, hiff]

/-- The length of a month is the distance of two starts. -/
theorem monthLen_eq {y : Int} {m : Nat} (hfirst : 1 ≤ m) (hlast : m ≤ 12) :
    (monthLen y m : Int) = monthStart y (m + 1) - monthStart y m := by
  have hall : ∀ leap, ∀ m < 13, 1 ≤ m →
      ((match m with
        | 1 | 3 | 5 | 7 | 8 | 10 | 12 => 31
        | 4 | 6 | 9 | 11 => 30
        | 2 => if leap then 29 else 28
        | _ => 0 : Nat) : Int) = Calendar.daysBefore leap (m + 1) - Calendar.daysBefore leap m := by
    decide
  have hlen := hall (Calendar.isLeap y) m (Nat.lt_succ_of_le hlast) hfirst
  unfold monthLen monthStart
  rw [isLeap_eq, hlen]
  omega

theorem isDate_iff {y : Int} {m d : Nat} :
    IsDate y m d ↔ 1 ≤ m ∧ m ≤ 12 ∧ 1 ≤ d ∧ d ≤ monthLen y m := by
  constructor
  · intro h
    have hlen := monthLen_eq (y := y) h.first_month h.last_month
    have hlast := h.last_day
    exact ⟨h.first_month, h.last_month, h.first_day, by omega⟩
  · rintro ⟨hfirst, hlast, hday, hle⟩
    have hlen := monthLen_eq (y := y) hfirst hlast
    exact ⟨hfirst, hlast, hday, by omega⟩

/-- 1 January 1970 in the numbering of the calendar. -/
def EPOCH : Int := 719162

/-- The days of a year that begins in March before the first of a month. -/
def marchDays (month : Nat) : Int :=
  ((153 * (if 2 < month then month - 3 else month + 9) + 2) / 5 : Nat)

/-- What `days_from_civil` computes, over the integers. -/
def civilDay (year : Int) (month : Nat) (day : Int) : Int :=
  yearStart (year + (if month ≤ 2 then 0 else 1)) + marchDays month + day - 1 - 719468

theorem yearStart_march (y : Int) :
    yearStart (y + 1) = y / 400 * 146097 + (365 * (y % 400) + y % 400 / 4 - y % 400 / 100) := by
  unfold yearStart
  omega

section

variable {checked : Bool} {era : Int} {start n : Nat}

/-- The last steps of `days_from_civil`: `start` is the first day of the year in its era,
    and `n` the number of the day in that year. -/
def dayInEra (checked : Bool) (era : Int) (start n : Nat) : Except Panic Int := do
  let doy ← subU64 checked n 1
  let doe ← addU64 checked start doy
  return era * 146097 + asI64 doe - 719468

theorem dayInEra_ok (hn : 1 ≤ n) (hfits : start + n < 2 ^ 63) :
    dayInEra checked era start n = .ok (era * 146097 + start + n - 1 - 719468) := by
  unfold dayInEra
  rw [subU64_ok hn]
  show (addU64 checked start (n - 1) >>= _) = _
  rw [addU64_ok (by omega)]
  refine congrArg Except.ok ?_
  unfold asI64
  rw [if_pos (by omega)]
  omega

/-- The day before the first of a year is the last of the year before. -/
theorem dayInEra_wraps (hfits : start < 2 ^ 63) :
    dayInEra false era start 0 = .ok (era * 146097 + start - 1 - 719468) := by
  obtain ⟨wrapped, hsub, hwrapped⟩ : ∃ w, subU64 false 0 1 = .ok w ∧ w + 1 = 2 ^ 64 :=
    ⟨_, subU64_wraps Nat.zero_lt_one, rfl⟩
  unfold dayInEra
  rw [hsub]
  show (addU64 false start wrapped >>= _) = _
  by_cases hfirst : start = 0
  · rw [addU64_ok (by omega)]
    refine congrArg Except.ok ?_
    unfold asI64
    rw [if_neg (by omega)]
    omega
  · have hmod : (start + wrapped) % 2 ^ 64 = start - 1 := by omega
    rw [addU64_wraps (by omega), hmod]
    refine congrArg Except.ok ?_
    unfold asI64
    rw [if_pos (by omega)]
    omega

end

/-- Only the first day of March has a place for a predecessor with the number 0. -/
theorem daysFromCivil_eq {checked : Bool} {y : Int} {m d : Nat} (hm : m < 2 ^ 32)
    (hd : d < 2 ^ 32) :
    daysFromCivil checked y m d =
      if checked = true ∧ m = 3 ∧ d = 0 then .error .overflow else .ok (civilDay y m d) := by
  -- the year that begins in March
  generalize hy' : y - (if m ≤ 2 then 1 else 0) = y'
  have hyear : y + (if m ≤ 2 then 0 else 1) = y' + 1 := by
    rw [← hy']
    split <;> omega
  have hyoe : ((y' - y' / 400 * 400).toNat : Int) = y' % 400 := by omega
  generalize hn : (y' - y' / 400 * 400).toNat = yoe at hyoe
  generalize hb : (153 * (if 2 < m then m - 3 else m + 9) + 2) / 5 = before
  have hmarch : before = 0 ↔ m = 3 := by
    rw [← hb]
    split <;> omega
  have hfits : before < 2 ^ 40 := by
    rw [← hb]
    split <;> omega
  have hstart := yearStart_march y'
  rw [← hyoe] at hstart
  have hdays : daysFromCivil checked y m d
      = dayInEra checked (y' / 400) (yoe * 365 + yoe / 4 - yoe / 100) (before + d) := by
    rw [← hb, ← hn, ← hy']
    rfl
  have hday : civilDay y m d = y' / 400 * 146097 + (yoe * 365 + yoe / 4 - yoe / 100 : Nat)
      + (before + d : Nat) - 1 - 719468 := by
    rw [civilDay, hyear, hstart, marchDays, hb]
    omega
  rw [hdays, hday]
  by_cases hzero : m = 3 ∧ d = 0
  · have hnone : before + d = 0 := by
      rw [hmarch.mpr hzero.1, hzero.2]
    rw [hnone]
    cases checked with
    | true =>
      rw [if_pos ⟨rfl, hzero⟩, dayInEra, subU64_panics Nat.zero_lt_one]
      rfl
    | false =>
      rw [if_neg (fun h => Bool.false_ne_true h.1), dayInEra_wraps (by omega)]
      refine congrArg Except.ok ?_
      omega
  · have hpos : 1 ≤ before + d := by
      by_contra hlt
      exact hzero ⟨hmarch.mp (by omega), by omega⟩
    rw [if_neg (fun h => hzero h.2), dayInEra_ok hpos (by omega)]

/-- The months of a year that begins in March, and those of the calendar. -/
theorem civilDay_eq {y : Int} {m : Nat} (hfirst : 1 ≤ m) (hlast : m ≤ 12) (d : Nat) :
    civilDay y m d = dayOfDate y m d - EPOCH := by
  have hyear := Calendar.yearStart_succ y
  have hall : ∀ leap, ∀ m < 13, 1 ≤ m →
      (if m ≤ 2 then 0 else if leap then 366 else 365 : Int) + marchDays m - 719468
        = Calendar.daysBefore leap m - 719162 := by
    decide
  have hmonth := hall (Calendar.isLeap y) m (Nat.lt_succ_of_le hlast) hfirst
  unfold civilDay dayOfDate monthStart EPOCH
  by_cases h : m ≤ 2
  · rw [if_pos h, Int.add_zero]
    rw [if_pos h] at hmonth
    omega
  · rw [if_neg h, hyear]
    rw [if_neg h] at hmonth
    omega

theorem day_le {y : Int} {m d : Nat} (h : IsDate y m d) : d ≤ 31 := by
  have hle := (isDate_iff.mp h).2.2.2
  have hall : monthLen y m ≤ 31 := by
    unfold monthLen
    split <;> first | decide | (split <;> decide)
  exact Nat.le_trans hle hall

theorem daysFromCivil_date {checked : Bool} {y : Int} {m d : Nat} (h : IsDate y m d) :
    daysFromCivil checked y m d = .ok (dayOfDate y m d - EPOCH) := by
  have hlen := day_le h
  have hlast := h.last_month
  have hday : ¬ (checked = true ∧ m = 3 ∧ d = 0) := by
    have := h.first_day
    omega
  rw [daysFromCivil_eq (by omega) (by omega), if_neg hday, civilDay_eq h.first_month hlast]

-- ============================================================================
-- From days to dates
-- ============================================================================

/-- The months of a year that begins in March, by their days. -/
theorem month_of_doy : ∀ doy < 366,
    let mp := (5 * doy + 2) / 153
    let month := if mp < 10 then mp + 3 else mp - 9
    1 ≤ month ∧ month ≤ 12 ∧ marchDays month = ((153 * mp + 2) / 5 : Nat) ∧
      (153 * mp + 2) / 5 ≤ doy ∧
      doy < (153 * mp + 2) / 5 + (if month = 2 then if doy = 365 then 29 else 28
        else if month = 4 ∨ month = 6 ∨ month = 9 ∨ month = 11 then 30 else 31) ∧
      (doy = 365 → month = 2) := by
  decide +kernel

theorem monthLen_two (y : Int) : monthLen y 2 = if isLeap y then 29 else 28 := rfl

theorem monthLen_of_ne_two {y : Int} {m : Nat} (hfirst : 1 ≤ m) (hlast : m ≤ 12) (hne : m ≠ 2) :
    monthLen y m = if m = 4 ∨ m = 6 ∨ m = 9 ∨ m = 11 then 30 else 31 := by
  interval_cases m <;> first | rfl | exact absurd rfl hne

theorem yearStart_era (era : Int) (yoe : Nat) :
    yearStart (yoe + era * 400 + 1) = era * 146097 + eraYearStart yoe := by
  unfold yearStart eraYearStart
  omega

/-- A year that begins in March has 366 days if the next one of the calendar is a leap
    year. -/
theorem eraYearStart_succ (era : Int) (yoe : Nat) :
    (eraYearStart (yoe + 1) : Int) =
      eraYearStart yoe + (if isLeap (yoe + era * 400 + 1) then 366 else 365) := by
  have hlow := yearStart_era era yoe
  have hhigh := yearStart_era era (yoe + 1)
  have hsucc := Calendar.yearStart_succ (yoe + era * 400 + 1)
  rw [← isLeap_eq] at hsucc
  have hnext : ((yoe + 1 : Nat) : Int) + era * 400 + 1 = yoe + era * 400 + 1 + 1 := by omega
  rw [hnext] at hhigh
  omega

/-- The date of a day of the era, by its year, which begins in March, and its place in
    that year. -/
theorem date_of_doy {era : Int} {yoe doy : Nat}
    (hdoy : eraYearStart yoe + doy < eraYearStart (yoe + 1)) :
    let mp := (5 * doy + 2) / 153
    let day := doy - (153 * mp + 2) / 5 + 1
    let month := if mp < 10 then mp + 3 else mp - 9
    let year := if month ≤ 2 then yoe + era * 400 + 1 else yoe + era * 400
    IsDate year month day ∧
      dayOfDate year month day = era * 146097 + (eraYearStart yoe + doy) - 719468 + EPOCH := by
  have hsucc := eraYearStart_succ era yoe
  have hlen : doy < 366 := by
    split at hsucc <;> omega
  have hleap : doy = 365 → isLeap (yoe + era * 400 + 1) = true := by
    intro hlast
    by_contra hleap
    rw [if_neg hleap] at hsucc
    omega
  obtain ⟨hfirst, hlast, hmarch, hle, hlt, hfeb⟩ := month_of_doy doy hlen
  intro mp day month year
  change 1 ≤ month at hfirst
  change month ≤ 12 at hlast
  change marchDays month = _ at hmarch
  have hyear : year + (if month ≤ 2 then 0 else 1) = yoe + era * 400 + 1 := by
    show (if month ≤ 2 then _ else _) + _ = _
    split <;> omega
  have hdate : IsDate year month day := by
    refine isDate_iff.mpr ⟨hfirst, hlast, Nat.le_add_left 1 _, ?_⟩
    by_cases htwo : month = 2
    · have hy : year = yoe + era * 400 + 1 := if_pos (Nat.le_of_eq htwo)
      have hbound : doy < (153 * mp + 2) / 5 + (if doy = 365 then 29 else 28) := by
        rwa [if_pos htwo] at hlt
      rw [htwo, monthLen_two, hy]
      by_cases h365 : doy = 365
      · rw [if_pos h365] at hbound
        rw [if_pos (hleap h365)]
        omega
      · rw [if_neg h365] at hbound
        have h28 : 28 ≤ if isLeap (yoe + era * 400 + 1) = true then 29 else 28 := by
          split <;> decide
        omega
    · rw [monthLen_of_ne_two hfirst hlast htwo]
      have hbound : doy < (153 * mp + 2) / 5
          + (if month = 4 ∨ month = 6 ∨ month = 9 ∨ month = 11 then 30 else 31) := by
        rwa [if_neg htwo] at hlt
      omega
  refine ⟨hdate, ?_⟩
  have hcivil := civilDay_eq (y := year) hfirst hlast day
  have hstart := yearStart_era era yoe
  rw [civilDay, hyear, hstart, hmarch] at hcivil
  have hday : ((153 * mp + 2) / 5 : Nat) + (day : Int) - 1 = doy := by
    show _ + ((doy - (153 * mp + 2) / 5 + 1 : Nat) : Int) - 1 = _
    omega
  omega

/-- What `civil_from_days` computes is the date of the day. -/
theorem civilFromDays_date {checked : Bool} {n : Int} (h : IsI64 (n + 719468)) :
    ∃ y m d, IsDate y m d ∧ dayOfDate y m d = n + EPOCH ∧
      civilFromDays checked n = .ok (if IsI32 y then y else 0, m, d) := by
  have hadd : addI64 checked n 719468 = .ok (n + 719468) := if_pos h
  generalize hz : n + 719468 = z at hadd
  generalize hera : z / 146097 = era
  have hdoe : ((z - era * 146097).toNat : Int) = z - era * 146097 := by omega
  have hlt : (z - era * 146097).toNat < 146097 := by omega
  generalize hdoe' : (z - era * 146097).toNat = doe at hdoe hlt
  obtain ⟨hyoe, hlow, hhigh⟩ := yearOfEra hlt
  generalize hyoe' : unleaped doe / 365 = yoe at hyoe hlow hhigh
  have hstart : 365 * yoe + yoe / 4 - yoe / 100 = eraYearStart yoe := by
    unfold eraYearStart
    omega
  obtain ⟨doy, rfl⟩ := Nat.exists_eq_add_of_le hlow
  obtain ⟨hdate, hday⟩ := @date_of_doy era _ _ hhigh
  refine ⟨_, _, _, hdate, ?_, ?_⟩
  · rw [hday]
    omega
  · unfold civilFromDays
    rw [hadd]
    show (Except.ok _ : Except Panic (Int × Nat × Nat)) = _
    rw [hera, hdoe', show (eraYearStart yoe + doy - (eraYearStart yoe + doy) / 1460
      + (eraYearStart yoe + doy) / 36524 - (eraYearStart yoe + doy) / 146096) / 365 = yoe
      from hyoe', hstart, Nat.add_sub_cancel_left]

/-- Of a 32-bit year. -/
theorem isI64_of_year {n : Int} (h : IsI32 (Calendar.year (n + EPOCH))) :
    IsI64 (n + 719468) := by
  obtain ⟨hlow, hhigh⟩ := Calendar.year_bounds (n + EPOCH)
  generalize Calendar.year (n + EPOCH) = y at h hlow hhigh
  obtain ⟨hmin, hmax⟩ := h
  unfold yearStart at hlow hhigh
  unfold EPOCH at hlow hhigh
  unfold IsI64
  omega

/-- `civil_from_days` and `days_from_civil` are inverse to each other on dates of 32-bit
    years, whose days are numbered one after another from 1 January 1970. -/
theorem civil_calendar (checked : Bool) :
    (∀ y m d, IsI32 y → IsDate y m d → ∃ n, daysFromCivil checked y m d = .ok n ∧
      civilFromDays checked n = .ok (y, m, d)) ∧
    (∀ n, IsI32 (Calendar.year (n + EPOCH)) → ∃ y m d,
      civilFromDays checked n = .ok (y, m, d) ∧ daysFromCivil checked y m d = .ok n) ∧
    (∀ y m d, IsI32 y → IsDate y m d → IsI32 (nextDate y m d).1 →
      ∃ n, daysFromCivil checked y m d = .ok n ∧
        daysFromCivil checked (nextDate y m d).1 (nextDate y m d).2.1 (nextDate y m d).2.2
          = .ok (n + 1)) ∧
    daysFromCivil checked 1970 1 1 = .ok 0 := by
  refine ⟨?_, ?_, ?_, ?_⟩
  · intro y m d hy h
    refine ⟨_, daysFromCivil_date h, ?_⟩
    have hn : dayOfDate y m d - EPOCH + EPOCH = dayOfDate y m d := Int.sub_add_cancel _ _
    have hfits : IsI64 (dayOfDate y m d - EPOCH + 719468) :=
      isI64_of_year (by rwa [hn, h.year])
    obtain ⟨y', m', d', h', hday, hcivil⟩ := @civilFromDays_date checked _ hfits
    obtain ⟨rfl, rfl, rfl⟩ := h'.inj h (hday.trans hn)
    rw [hcivil, if_pos hy]
  · intro n hn
    obtain ⟨y, m, d, h, hday, hcivil⟩ :=
      @civilFromDays_date checked _ (isI64_of_year hn)
    rw [← hday, h.year] at hn
    rw [if_pos hn] at hcivil
    refine ⟨y, m, d, hcivil, ?_⟩
    rw [daysFromCivil_date h, hday, Int.add_sub_cancel]
  · intro y m d _ h _
    obtain ⟨hdate, hday⟩ := h.next
    refine ⟨_, daysFromCivil_date h, ?_⟩
    rw [daysFromCivil_date hdate, hday]
    refine congrArg Except.ok ?_
    omega
  · rfl

end GnDrive.Gpui.History
