/-
  GnDrive.Lib.Calendar

  The proleptic Gregorian calendar over the integers.

  Days are numbered from 1 January of year 1, and seconds from the midnight
  that begins it, in both directions.  `year`, `month` and `dayOfMonth` read a
  day number; `monthStart y m` is the first day of a month.  What the calendar
  has to do with the order of days is `year_eq_iff` and `month_lt_iff`: a year
  and a month are the days between two starts.
-/

namespace GnDrive.Calendar

def isLeap (y : Int) : Bool := y % 4 = 0 && (y % 100 ≠ 0 || y % 400 = 0)

/-- The first day of the year `y`. -/
def yearStart (y : Int) : Int :=
  365 * (y - 1) + (y - 1) / 4 - (y - 1) / 100 + (y - 1) / 400

/-- Days of a year before the first of the month `m`; month 13 is the year
    after. -/
def daysBefore (leap : Bool) (m : Nat) : Int :=
  let february : Int := if leap then 29 else 28
  match m with
  | 0 | 1 => 0
  | 2 => 31
  | 3 => 31 + february
  | 4 => 62 + february
  | 5 => 92 + february
  | 6 => 123 + february
  | 7 => 153 + february
  | 8 => 184 + february
  | 9 => 215 + february
  | 10 => 245 + february
  | 11 => 276 + february
  | 12 => 306 + february
  | _ => 337 + february

def monthStart (y : Int) (m : Nat) : Int := yearStart y + daysBefore (isLeap y) m

/-- The year is estimated from its mean length and corrected by one. -/
def year (n : Int) : Int :=
  let y := 400 * n / 146097 + 1
  if n < yearStart y then y - 1
  else if yearStart (y + 1) ≤ n then y + 1
  else y

def month (n : Int) : Nat :=
  let before := daysBefore (isLeap (year n))
  let d := n - yearStart (year n)
  if d < before 2 then 1 else if d < before 3 then 2 else if d < before 4 then 3
  else if d < before 5 then 4 else if d < before 6 then 5 else if d < before 7 then 6
  else if d < before 8 then 7 else if d < before 9 then 8 else if d < before 10 then 9
  else if d < before 11 then 10 else if d < before 12 then 11 else 12

def dayOfMonth (n : Int) : Nat := (n - monthStart (year n) (month n) + 1).toNat

/-- Days since the last Sunday; 1 January of year 1 was a Monday. -/
def daysFromSunday (n : Int) : Nat := ((n + 1) % 7).toNat

/-! ## The seconds of a day -/

def dayOf (t : Int) : Int := t / 86400
def hour (t : Int) : Nat := (t % 86400 / 3600).toNat
def minute (t : Int) : Nat := (t % 3600 / 60).toNat
def second (t : Int) : Nat := (t % 60).toNat

/-- The second `h:m:s` of the day `n`. -/
def atTime (n : Int) (h m s : Nat) : Int := n * 86400 + h * 3600 + m * 60 + s

/-- The first second of the day `n`. -/
def midnight (n : Int) : Int := atTime n 0 0 0

-- ============================================================================
-- Years and months as intervals of days
-- ============================================================================

theorem isLeap_iff {y : Int} : isLeap y = true ↔ y % 4 = 0 ∧ (y % 100 ≠ 0 ∨ y % 400 = 0) := by
  simp [isLeap]

theorem yearStart_succ (y : Int) :
    yearStart (y + 1) = yearStart y + (if isLeap y then 366 else 365) := by
  unfold yearStart
  by_cases h : isLeap y = true
  · rw [if_pos h]
    have h' := isLeap_iff.mp h
    omega
  · rw [if_neg h]
    have h' := mt isLeap_iff.mpr h
    omega

theorem yearStart_lt (y : Int) : yearStart y < yearStart (y + 1) := by
  rw [yearStart_succ]
  split <;> omega

theorem yearStart_le {y y' : Int} (h : y ≤ y') : yearStart y ≤ yearStart y' := by
  unfold yearStart
  omega

theorem year_bounds (n : Int) : yearStart (year n) ≤ n ∧ n < yearStart (year n + 1) := by
  have hest : 146097 * (400 * n / 146097 + 1 - 1) ≤ 400 * n ∧
      400 * n < 146097 * (400 * n / 146097 + 1) := by omega
  unfold year
  generalize 400 * n / 146097 + 1 = y at hest
  have hbefore : yearStart (y - 1) ≤ n := by
    unfold yearStart
    omega
  have hafter : n < yearStart (y + 2) := by
    unfold yearStart
    omega
  simp only
  split
  · rw [show y - 1 + 1 = y by omega]
    omega
  · split
    · rw [show y + 1 + 1 = y + 2 by omega]
      omega
    · omega

/-- A year is the days between two starts. -/
theorem year_eq_iff {n y : Int} : year n = y ↔ yearStart y ≤ n ∧ n < yearStart (y + 1) := by
  obtain ⟨hlow, hhigh⟩ := year_bounds n
  constructor
  · rintro rfl
    exact ⟨hlow, hhigh⟩
  · rintro ⟨hlow', hhigh'⟩
    rcases Int.lt_trichotomy (year n) y with h | h | h
    · have := yearStart_le (show year n + 1 ≤ y by omega)
      omega
    · exact h
    · have := yearStart_le (show y + 1 ≤ year n by omega)
      omega

theorem year_mono {n n' : Int} (h : n ≤ n') : year n ≤ year n' := by
  refine Int.not_lt.mp fun hlt => ?_
  have hle := yearStart_le (show year n' + 1 ≤ year n by omega)
  have h₁ := (year_bounds n).1
  have h₂ := (year_bounds n').2
  omega

theorem daysBefore_mono {leap : Bool} {m m' : Nat} (h : m ≤ m') (h' : m' ≤ 13) :
    daysBefore leap m ≤ daysBefore leap m' := by
  have hall : ∀ leap, ∀ m' < 14, ∀ m < m' + 1, daysBefore leap m ≤ daysBefore leap m' := by
    decide
  exact hall leap m' (by omega) m (by omega)

theorem monthStart_mono {y : Int} {m m' : Nat} (h : m ≤ m') (h' : m' ≤ 13) :
    monthStart y m ≤ monthStart y m' := by
  have := @daysBefore_mono (isLeap y) m m' h h'
  unfold monthStart
  omega

theorem monthStart_one (y : Int) : monthStart y 1 = yearStart y := by
  show yearStart y + 0 = _
  omega

theorem monthStart_thirteen (y : Int) : monthStart y 13 = yearStart (y + 1) := by
  rw [yearStart_succ]
  unfold monthStart
  cases isLeap y <;> rfl

/-- The day `d` of a year is in the month `m`. -/
def InMonth (before : Nat → Int) (d : Int) (m : Nat) : Prop :=
  1 ≤ m ∧ m ≤ 12 ∧ before m ≤ d ∧ d < before (m + 1)

/-- A day that no month before `m` has is in `m`, or in a later one. -/
theorem InMonth.next {before : Nat → Int} {d : Int} {m k rest : Nat} (hlow : before m ≤ d)
    (hrest : before k ≤ d → InMonth before d rest) (hk : k = m + 1 := by rfl)
    (hm : 1 ≤ m := by decide) (hm' : m ≤ 12 := by decide) :
    InMonth before d (if d < before k then m else rest) := by
  subst hk
  by_cases h : d < before (m + 1)
  · rw [if_pos h]
    exact ⟨hm, hm', hlow, h⟩
  · rw [if_neg h]
    exact hrest (Int.not_lt.mp h)

/-- The month of a day lies between 1 and 12 and its start is not after the
    day, the next month's is. -/
theorem month_bounds (n : Int) : 1 ≤ month n ∧ month n ≤ 12 ∧
    monthStart (year n) (month n) ≤ n ∧ n < monthStart (year n) (month n + 1) := by
  obtain ⟨hlow, hhigh⟩ := year_bounds n
  rw [← monthStart_thirteen] at hhigh
  have hin : InMonth (daysBefore (isLeap (year n))) (n - yearStart (year n)) (month n) := by
    unfold month
    unfold monthStart at hhigh
    have hfirst : daysBefore (isLeap (year n)) 1 ≤ n - yearStart (year n) :=
      Int.sub_nonneg_of_le hlow
    refine .next hfirst fun h => .next h fun h => .next h fun h => .next h fun h => .next h fun h =>
      .next h fun h => .next h fun h => .next h fun h => .next h fun h => .next h fun h =>
      .next h fun h => ⟨by decide, by decide, h, ?_⟩
    show _ < daysBefore _ 13
    omega
  obtain ⟨hfirst, hlast, hstart, hend⟩ := hin
  unfold monthStart
  exact ⟨hfirst, hlast, by omega, by omega⟩

/-- A month is the days between two starts. -/
theorem month_lt_iff {n : Int} {m : Nat} (h : m ≤ 13) :
    month n < m ↔ n < monthStart (year n) m := by
  obtain ⟨-, hm, hlow, hhigh⟩ := month_bounds n
  constructor
  · intro hlt
    have := monthStart_mono (y := year n) (show month n + 1 ≤ m by omega) h
    omega
  · intro hlt
    refine Nat.not_le.mp fun hle => ?_
    have := monthStart_mono (y := year n) hle (by omega)
    omega

theorem month_mono {n n' : Int} (h : n ≤ n') (hy : year n = year n') : month n ≤ month n' := by
  obtain ⟨-, hm, hlow, -⟩ := month_bounds n
  refine Nat.not_lt.mp fun hlt => ?_
  have := (month_lt_iff (by omega)).mp hlt
  rw [hy] at hlow
  omega

-- ============================================================================
-- The second of a day
-- ============================================================================

theorem hour_lt (t : Int) : hour t < 24 := by
  unfold hour
  omega

theorem minute_lt (t : Int) : minute t < 60 := by
  unfold minute
  omega

end GnDrive.Calendar
