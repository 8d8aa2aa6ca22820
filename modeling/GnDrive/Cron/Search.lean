/-
  GnDrive.Cron.Search

  The search for the next matching wall-clock time (`next_naive_after`).

  Wall-clock times are nanoseconds, whole seconds inside the search.  A turn
  of the loop either finds its second to match, or skips to a later second
  with no match in between (`turn_ok`, `turn_found`).  By induction the loop
  returns the least match (`nextNaiveAfter_spec`), and it cannot pass the end
  of the representable dates on the way to a match.
-/

import GnDrive.Cron.Schedule
import GnDrive.Lib.Calendar
import Mathlib.Order.Bounds.Basic

namespace GnDrive.Cron

open Calendar

/-- What ends the thread: a date that leaves the representable range. -/
inductive Panic where
  | durationOutOfBounds
  | dateTimeOverflow
  | localTimeOutOfRange
deriving DecidableEq, Repr

/-- Nanoseconds of a second. -/
def NANOS : Int := 1000000000

/-- The second a time falls in. -/
def secs (t : Int) : Int := t / NANOS

/-! ## Dates -/

/-- `NaiveDate`: the years -262143 to 262142. -/
def DateInRange (n : Int) : Prop := yearStart (-262143) ≤ n ∧ n < yearStart 262143

/-- A whole second of a representable date. -/
def InRange (t : Int) : Prop := DateInRange (dayOf t)

instance (n : Int) : Decidable (DateInRange n) := by unfold DateInRange; infer_instance
instance (t : Int) : Decidable (InRange t) := by unfold InRange; infer_instance

theorem dayOf_mono {t w : Int} (h : t ≤ w) : dayOf t ≤ dayOf w := by
  unfold dayOf
  omega

theorem InRange.between {t u w : Int} (ht : InRange t) (hw : InRange w) (htu : t ≤ u)
    (huw : u ≤ w) : InRange u := by
  unfold InRange DateInRange at *
  have := dayOf_mono htu
  have := dayOf_mono huw
  omega

/-- How a turn of the search leaves the function. -/
inductive Exit where
  | ret (r : Option Int)
  | panic (p : Panic)

/-- `NaiveDate::from_ymd_opt(y, m, 1)?`. -/
def firstOfMonth (y : Int) (m : Nat) : Except Exit Int :=
  if 1 ≤ m ∧ m ≤ 12 ∧ DateInRange (monthStart y m) then .ok (monthStart y m) else .error (.ret none)

/-- `date.succ_opt()?`. -/
def succDay (n : Int) : Except Exit Int :=
  if DateInRange (n + 1) then .ok (n + 1) else .error (.ret none)

/-- `date.and_hms_opt(h, m, s)?`. -/
def andHms (n : Int) (h m s : Nat) : Except Exit Int :=
  if h < 24 ∧ m < 60 ∧ s < 60 then .ok (atTime n h m s) else .error (.ret none)

/-- `t + Duration::seconds(n)`. -/
def plusSeconds (t n : Int) : Except Exit Int :=
  if InRange (t + n) then .ok (t + n) else .error (.panic .dateTimeOverflow)

namespace CronSchedule

variable (s : CronSchedule)

def dayMatches (d : Int) : Bool :=
  let domOk := s.dom.contains (dayOfMonth d)
  let dowOk := s.dow.contains (daysFromSunday d)
  if s.domRestricted && s.dowRestricted then domOk || dowOk else domOk && dowOk

/-- One turn of the loop: the `t` of the next turn, or the way out. -/
def turn (t : Int) : Except Exit Int := do
  let date := dayOf t
  match s.months.atOrAfter (month date) with
  | none =>
      let d ← firstOfMonth (year date + 1) 1
      andHms d 0 0 0
  | some m =>
  if m ≠ month date then
    let d ← firstOfMonth (year date) m
    andHms d 0 0 0
  else if !s.dayMatches date then
    let d ← succDay date
    andHms d 0 0 0
  else if !s.hours.contains (hour t) then
    match s.hours.atOrAfter (hour t + 1) with
    | some h => andHms date h 0 0
    | none =>
        let d ← succDay date
        andHms d 0 0 0
  else if !s.minutes.contains (minute t) then
    match s.minutes.atOrAfter (minute t + 1) with
    | some mn => andHms date (hour t) mn 0
    | none =>
        let t ← andHms date (hour t) 0 0
        plusSeconds t 3600
  else if !s.seconds.contains (second t) then
    match s.seconds.atOrAfter (second t + 1) with
    | some sec => andHms date (hour t) (minute t) sec
    | none =>
        let t ← andHms date (hour t) (minute t) 0
        plusSeconds t 60
  else .error (.ret (some t))

/-- The loop.  Every turn but the last moves `t` on, so as many turns as
    there are seconds up to the end of `limitYear` are enough. -/
def search (limitYear : Int) : Nat → Int → Except Panic (Option Int)
  | 0, _ => .ok none
  | fuel + 1, t =>
      if year (dayOf t) ≤ limitYear then
        match s.turn t with
        | .ok t => search limitYear fuel t
        | .error (.ret r) => .ok r
        | .error (.panic p) => .error p
      else .ok none

/-- `Duration::seconds`. -/
def durationSeconds (n : Int) : Except Panic Int :=
  if n.natAbs ≤ (2 ^ 63 - 1) / 1000 then .ok (n * NANOS) else .error .durationOutOfBounds

/-- `t + d`. -/
def addDuration (t d : Int) : Except Panic Int :=
  if InRange (secs (t + d)) then .ok (t + d) else .error .dateTimeOverflow

/-- Timezone-free core: next matching wall-clock time strictly after `after`
    (sub-second part ignored). `@every` schedules just add the interval. -/
def nextNaiveAfter (after : Int) : Except Panic (Option Int) := do
  match s.everySeconds with
  | some every =>
      let t ← addDuration (secs after * NANOS) (← durationSeconds every)
      return some t
  | none =>
      let t ← addDuration (secs after * NANOS) NANOS
      let limitYear := year (dayOf (secs after)) + 8
      let fuel := (midnight (yearStart (limitYear + 1)) - secs t).toNat
      let found ← s.search limitYear fuel (secs t)
      return found.map (· * NANOS)

-- ============================================================================
-- What a schedule matches
-- ============================================================================

/-- The wall-clock second `w` is one the six fields allow. -/
def Matches (w : Int) : Prop :=
  s.months.contains (month (dayOf w)) = true ∧ s.dayMatches (dayOf w) = true ∧
    s.hours.contains (hour w) = true ∧ s.minutes.contains (minute w) = true ∧
    s.seconds.contains (second w) = true

instance (w : Int) : Decidable (s.Matches w) := by unfold Matches; infer_instance

variable {s : CronSchedule}

-- ============================================================================
-- One turn
-- ============================================================================

/-- The turn `r` at `t` skips to a later second, with no match on the way;
    if that second is not representable, the function is left. -/
def Skips (s : CronSchedule) (t : Int) (r : Except Exit Int) : Prop :=
  ∃ t', t < t' ∧ (∀ w, t ≤ w → w < t' → ¬ s.Matches w) ∧
    (r = .ok t' ∨ ¬ InRange t' ∧ (r = .error (.ret none) ∨ ∃ p, r = .error (.panic p)))

theorem dayOf_midnight (n : Int) : dayOf (midnight n) = n := by
  unfold dayOf midnight atTime
  omega

/-- Skipping to the first second of a later day. -/
theorem skips_toDay {t d : Int} {r : Except Exit Int} (hd : dayOf t < d)
    (hnone : ∀ w, t ≤ w → dayOf w < d → ¬ s.Matches w)
    (hr : r = if DateInRange d then .ok d else .error (.ret none)) :
    Skips s t (r >>= fun d => andHms d 0 0 0) := by
  refine ⟨midnight d, ?_, fun w hlow hhigh => hnone w hlow ?_, ?_⟩
  · unfold dayOf at hd
    unfold midnight atTime
    omega
  · unfold midnight atTime at hhigh
    unfold dayOf
    omega
  · subst hr
    by_cases hin : DateInRange d
    · rw [if_pos hin]
      left
      rfl
    · rw [if_neg hin]
      right
      refine ⟨?_, Or.inl rfl⟩
      unfold InRange
      rwa [dayOf_midnight]

/-- A month that no value from it on is allowed in: the year is skipped. -/
theorem skips_year {t : Int} (h : s.months.atOrAfter (month (dayOf t)) = none) :
    Skips s t (firstOfMonth (year (dayOf t) + 1) 1 >>= fun d => andHms d 0 0 0) := by
  have hstart := monthStart_one (year (dayOf t) + 1)
  have hafter := (year_bounds (dayOf t)).2
  apply skips_toDay (d := yearStart (year (dayOf t) + 1)) hafter
  · intro w hlow hhigh hw
    have hlow := dayOf_mono hlow
    have hy : year (dayOf t) = year (dayOf w) :=
      (year_eq_iff.mpr ⟨Int.le_trans (year_bounds (dayOf t)).1 hlow, hhigh⟩).symm
    have hm := month_mono hlow hy
    have hnone := Field.atOrAfter_none (by decide) h hm
    rw [hw.1] at hnone
    contradiction
  · unfold firstOfMonth
    rw [hstart]
    simp

/-- A month before the next allowed one is skipped. -/
theorem skips_month {t : Int} {m : Nat} (h : s.months.atOrAfter (month (dayOf t)) = some m)
    (hne : m ≠ month (dayOf t)) :
    Skips s t (firstOfMonth (year (dayOf t)) m >>= fun d => andHms d 0 0 0) := by
  obtain ⟨hge, hc, hleast⟩ := Field.atOrAfter_some (by decide) h
  have hm := Field.contains_le hc
  obtain ⟨hone, -, hlow, -⟩ := month_bounds (dayOf t)
  have hlt : month (dayOf t) < m := by omega
  have hstart := (month_lt_iff (show m ≤ 13 by omega)).mp hlt
  have hend := monthStart_mono (y := year (dayOf t)) (show m ≤ 13 by omega) (by omega)
  rw [monthStart_thirteen] at hend
  apply skips_toDay (d := monthStart (year (dayOf t)) m) hstart
  · intro w hw hhigh hmatch
    have hw := dayOf_mono hw
    have hy : year (dayOf w) = year (dayOf t) :=
      year_eq_iff.mpr ⟨Int.le_trans (year_bounds (dayOf t)).1 hw, by omega⟩
    have hge := month_mono hw hy.symm
    have hlt : month (dayOf w) < m := by
      rw [month_lt_iff (by omega), hy]
      exact hhigh
    have hnone := hleast _ hge hlt
    rw [hmatch.1] at hnone
    contradiction
  · unfold firstOfMonth
    simp [show 1 ≤ m by omega, hm]

/-- The rest of a day in which nothing matches is skipped. -/
theorem skips_day {t : Int} (h : ∀ w, t ≤ w → dayOf w = dayOf t → ¬ s.Matches w) :
    Skips s t (succDay (dayOf t) >>= fun d => andHms d 0 0 0) := by
  apply skips_toDay (d := dayOf t + 1)
  · omega
  · intro w hw hhigh
    have := dayOf_mono hw
    exact h w hw (by omega)
  · rfl

theorem not_matches_of_day {w : Int} (h : s.dayMatches (dayOf w) = false) : ¬ s.Matches w := by
  intro hw
  rw [hw.2.1] at h
  contradiction

theorem not_matches_of_hour {w : Int} (h : s.hours.contains (hour w) = false) :
    ¬ s.Matches w := by
  intro hw
  rw [hw.2.2.1] at h
  contradiction

theorem not_matches_of_minute {w : Int} (h : s.minutes.contains (minute w) = false) :
    ¬ s.Matches w := by
  intro hw
  rw [hw.2.2.2.1] at h
  contradiction

theorem not_matches_of_second {w : Int} (h : s.seconds.contains (second w) = false) :
    ¬ s.Matches w := by
  intro hw
  rw [hw.2.2.2.2] at h
  contradiction

/-- Skipping to a later second of the same day. -/
theorem skips_toTime {t : Int} {h m sec : Nat} (hh : h < 24) (hm : m < 60) (hs : sec < 60)
    (hlt : t < atTime (dayOf t) h m sec)
    (hnone : ∀ w, t ≤ w → w < atTime (dayOf t) h m sec → ¬ s.Matches w) :
    Skips s t (andHms (dayOf t) h m sec) := by
  refine ⟨atTime (dayOf t) h m sec, hlt, hnone, ?_⟩
  left
  exact if_pos ⟨hh, hm, hs⟩

/-- Skipping to the next hour or minute. -/
theorem skips_plus {t n : Int} {h m : Nat} (hh : h < 24) (hm : m < 60)
    (hlt : t < atTime (dayOf t) h m 0 + n)
    (hnone : ∀ w, t ≤ w → w < atTime (dayOf t) h m 0 + n → ¬ s.Matches w) :
    Skips s t (andHms (dayOf t) h m 0 >>= fun t => plusSeconds t n) := by
  refine ⟨atTime (dayOf t) h m 0 + n, hlt, hnone, ?_⟩
  have heq : andHms (dayOf t) h m 0 = .ok (atTime (dayOf t) h m 0) :=
    if_pos ⟨hh, hm, by decide⟩
  have hsum : ((Except.ok (atTime (dayOf t) h m 0) : Except Exit Int) >>=
      fun t => plusSeconds t n) = plusSeconds (atTime (dayOf t) h m 0) n := rfl
  rw [heq, hsum]
  unfold plusSeconds
  by_cases hin : InRange (atTime (dayOf t) h m 0 + n)
  · rw [if_pos hin]
    left
    rfl
  · rw [if_neg hin]
    right
    exact ⟨hin, Or.inr ⟨_, rfl⟩⟩

theorem skips_hour {t : Int} (hc : s.hours.contains (hour t) = false) :
    Skips s t (match s.hours.atOrAfter (hour t + 1) with
      | some h => andHms (dayOf t) h 0 0
      | none => succDay (dayOf t) >>= fun d => andHms d 0 0 0) := by
  cases hnext : s.hours.atOrAfter (hour t + 1) with
  | some h =>
      obtain ⟨hlt, hmax, hskip⟩ := Field.skipped_some (by decide) hc hnext
      apply skips_toTime (by omega) (by decide) (by decide)
      · unfold hour at hlt
        unfold atTime dayOf
        omega
      · intro w hw hhigh
        unfold atTime dayOf at hhigh
        apply not_matches_of_hour
        apply hskip
        · unfold hour
          omega
        · unfold hour
          omega
  | none =>
      apply skips_day
      intro w hw hday
      apply not_matches_of_hour
      apply Field.skipped_none (by decide) hc hnext
      unfold dayOf at hday
      unfold hour
      omega

theorem skips_minute {t : Int} (hc : s.minutes.contains (minute t) = false) :
    Skips s t (match s.minutes.atOrAfter (minute t + 1) with
      | some mn => andHms (dayOf t) (hour t) mn 0
      | none => andHms (dayOf t) (hour t) 0 0 >>= fun t => plusSeconds t 3600) := by
  have hhour := hour_lt t
  cases hnext : s.minutes.atOrAfter (minute t + 1) with
  | some mn =>
      obtain ⟨hlt, hmax, hskip⟩ := Field.skipped_some (by decide) hc hnext
      apply skips_toTime hhour (by omega) (by decide)
      · unfold minute at hlt
        unfold atTime dayOf hour
        omega
      · intro w hw hhigh
        unfold atTime dayOf hour at hhigh
        apply not_matches_of_minute
        apply hskip
        · unfold minute
          omega
        · unfold minute
          omega
  | none =>
      apply skips_plus hhour (by decide)
      · unfold atTime dayOf hour
        omega
      · intro w hw hhigh
        apply not_matches_of_minute
        apply Field.skipped_none (by decide) hc hnext
        unfold atTime dayOf hour at hhigh
        unfold minute
        omega

theorem skips_second {t : Int} (hc : s.seconds.contains (second t) = false) :
    Skips s t (match s.seconds.atOrAfter (second t + 1) with
      | some sec => andHms (dayOf t) (hour t) (minute t) sec
      | none => andHms (dayOf t) (hour t) (minute t) 0 >>= fun t => plusSeconds t 60) := by
  have hhour := hour_lt t
  have hminute := minute_lt t
  cases hnext : s.seconds.atOrAfter (second t + 1) with
  | some sec =>
      obtain ⟨hlt, hmax, hskip⟩ := Field.skipped_some (by decide) hc hnext
      apply skips_toTime hhour hminute (by omega)
      · unfold second at hlt
        unfold atTime dayOf hour minute
        omega
      · intro w hw hhigh
        unfold atTime dayOf hour minute at hhigh
        apply not_matches_of_second
        apply hskip
        · unfold second
          omega
        · unfold second
          omega
  | none =>
      apply skips_plus hhour hminute
      · unfold atTime dayOf hour minute
        omega
      · intro w hw hhigh
        apply not_matches_of_second
        apply Field.skipped_none (by decide) hc hnext
        unfold atTime dayOf hour minute at hhigh
        unfold second
        omega

/-- A turn finds its second to match or skips to a later one. -/
theorem turn_spec (s : CronSchedule) (t : Int) :
    (s.Matches t ∧ s.turn t = .error (.ret (some t))) ∨ Skips s t (s.turn t) := by
  unfold turn
  simp only
  cases hmonth : s.months.atOrAfter (month (dayOf t)) with
  | none =>
      right
      exact skips_year hmonth
  | some m =>
      simp only
      split
      · rename_i hne
        right
        exact skips_month hmonth hne
      rename_i hm
      have hcm : s.months.contains (month (dayOf t)) = true := by
        have := (Field.atOrAfter_some (by decide) hmonth).2.1
        rwa [Decidable.not_not.mp hm] at this
      split
      · rename_i hday
        right
        apply skips_day
        intro w _ heq
        apply not_matches_of_day
        rw [heq]
        simpa using hday
      rename_i hday
      split
      · rename_i hh
        right
        exact skips_hour (by simpa using hh)
      rename_i hh
      split
      · rename_i hmi
        right
        exact skips_minute (by simpa using hmi)
      rename_i hmi
      split
      · rename_i hs
        right
        exact skips_second (by simpa using hs)
      rename_i hs
      left
      exact ⟨⟨hcm, by simpa using hday, by simpa using hh, by simpa using hmi,
        by simpa using hs⟩, rfl⟩

-- ============================================================================
-- The loop
-- ============================================================================

/-- No second from `t` on and before `w` matches. -/
def NoneBetween (s : CronSchedule) (t w : Int) : Prop :=
  ∀ u, t ≤ u → u < w → ¬ s.Matches u

/-- With enough turns the loop reaches the least match, and nothing ends it
    before. -/
theorem search_finds {limitYear : Int} {fuel : Nat} {t w : Int} (hw : s.Matches w)
    (hyear : year (dayOf w) ≤ limitYear) (hrange : InRange w) (ht : InRange t) (htw : t ≤ w)
    (hnone : NoneBetween s t w) (hfuel : w - t < fuel) :
    s.search limitYear fuel t = .ok (some w) := by
  induction fuel generalizing t with
  | zero => omega
  | succ fuel ih =>
      unfold search
      have hy := year_mono (dayOf_mono htw)
      rw [if_pos (by omega)]
      rcases turn_spec s t with ⟨hmatch, heq⟩ | ⟨t', hlt, hskip, hr⟩
      · have htw : t = w := by
          refine Int.le_antisymm htw (Int.not_lt.mp fun hlt => ?_)
          exact hnone t (Int.le_refl t) hlt hmatch
        rw [heq, htw]
      · have hle : t' ≤ w := by
          refine Int.not_lt.mp fun hlt => ?_
          exact hskip w htw hlt hw
        have ht' := ht.between hrange (Int.le_of_lt hlt) hle
        have heq : s.turn t = .ok t' := by
          rcases hr with heq | ⟨hout, _⟩
          · exact heq
          · exact absurd ht' hout
        rw [heq]
        apply ih ht' hle
        · intro u hu
          exact hnone u (by omega)
        · omega

/-- What the loop returns is the least match. -/
theorem search_found {limitYear : Int} {fuel : Nat} {t w : Int}
    (h : s.search limitYear fuel t = .ok (some w)) :
    t ≤ w ∧ s.Matches w ∧ NoneBetween s t w ∧ year (dayOf w) ≤ limitYear := by
  induction fuel generalizing t with
  | zero =>
      unfold search at h
      simp at h
  | succ fuel ih =>
      unfold search at h
      split at h
      · rename_i hyear
        rcases turn_spec s t with ⟨hmatch, heq⟩ | ⟨t', hlt, hskip, hr⟩
        · rw [heq] at h
          have htw : t = w := Option.some.inj (Except.ok.inj h)
          subst htw
          exact ⟨Int.le_refl t, hmatch, fun u hu hut => by omega, hyear⟩
        · rcases hr with heq | ⟨_, heq | ⟨p, heq⟩⟩
          · rw [heq] at h
            obtain ⟨hle, hw, hnone, hy⟩ := ih h
            refine ⟨by omega, hw, fun u hu huw => ?_, hy⟩
            by_cases hut : u < t'
            · exact hskip u hu hut
            · exact hnone u (by omega) huw
          · rw [heq] at h
            simp at h
          · rw [heq] at h
            simp at h
      · simp at h

theorem secs_mul (w : Int) : secs (w * NANOS) = w := by
  unfold secs NANOS
  omega

/-- The seconds that match after the time `after`. -/
def MatchesAfter (s : CronSchedule) (after : Int) : Set Int :=
  {w | s.Matches w ∧ secs after < w}

/-- The end of a year, in seconds. -/
theorem lt_midnight_of_year {w y : Int} (h : year (dayOf w) ≤ y) :
    w < midnight (yearStart (y + 1)) := by
  have hw := (year_bounds (dayOf w)).2
  have hle := yearStart_le (show year (dayOf w) + 1 ≤ y + 1 by omega)
  unfold dayOf at *
  unfold midnight atTime
  omega

/-- The loop starts at the second after `after` and runs to the end of the
    eighth year. -/
theorem nextNaiveAfter_fields (after : Int) (hfields : s.everySeconds = none) :
    s.nextNaiveAfter after =
      if InRange (secs after + 1) then
        let limitYear := year (dayOf (secs after)) + 8
        let fuel := (midnight (yearStart (limitYear + 1)) - (secs after + 1)).toNat
        (s.search limitYear fuel (secs after + 1)).map (·.map (· * NANOS))
      else .error .dateTimeOverflow := by
  have hnext : secs (secs after * NANOS + NANOS) = secs after + 1 := by
    unfold secs NANOS
    omega
  unfold nextNaiveAfter addDuration
  rw [hfields]
  simp only [hnext]
  by_cases hin : InRange (secs after + 1)
  · rw [if_pos hin, if_pos hin]
    simp only [Except.map, bind, Except.bind, pure, Except.pure, hnext]
  · rw [if_neg hin, if_neg hin]
    rfl

/-- The least match of the next eight years is found. -/
theorem nextNaiveAfter_finds {after w : Int} (hfields : s.everySeconds = none)
    (hafter : InRange (secs after)) (hw : IsLeast (MatchesAfter s after) w)
    (hyear : year (dayOf w) ≤ year (dayOf (secs after)) + 8) (hrange : InRange w) :
    s.nextNaiveAfter after = .ok (some (w * NANOS)) := by
  obtain ⟨⟨hmatch, hlt⟩, hleast⟩ := hw
  have hin : InRange (secs after + 1) := hafter.between hrange (by omega) (by omega)
  have hend := lt_midnight_of_year hyear
  have hnone : NoneBetween s (secs after + 1) w := by
    intro u hu huw hm
    have := hleast ⟨hm, by omega⟩
    omega
  rw [nextNaiveAfter_fields after hfields, if_pos hin]
  simp only
  rw [search_finds hmatch hyear hrange hin (by omega) hnone (by omega)]
  rfl

/-- What `next_naive_after` returns is the least match. -/
theorem nextNaiveAfter_found {after t : Int} (hfields : s.everySeconds = none)
    (h : s.nextNaiveAfter after = .ok (some t)) :
    ∃ w, t = w * NANOS ∧ IsLeast (MatchesAfter s after) w := by
  rw [nextNaiveAfter_fields after hfields] at h
  split at h
  · simp only at h
    cases hsearch : s.search (year (dayOf (secs after)) + 8)
        (midnight (yearStart (year (dayOf (secs after)) + 8 + 1)) - (secs after + 1)).toNat
        (secs after + 1) with
    | error p =>
        rw [hsearch] at h
        contradiction
    | ok r =>
        rw [hsearch] at h
        cases r with
        | none => simp [Except.map] at h
        | some w =>
            obtain ⟨hle, hmatch, hnone, -⟩ := search_found hsearch
            refine ⟨w, (Option.some.inj (Except.ok.inj h)).symm, ⟨hmatch, by omega⟩, ?_⟩
            rintro u ⟨hu, hlt⟩
            refine Int.not_lt.mp fun huw => ?_
            exact hnone u (by omega) huw hu
  · contradiction

end CronSchedule

end GnDrive.Cron
