/-
  GnDrive.Cron.NextMatch

  What `next_naive_after` returns, and when it leaves the range of dates.

  `Candidates s after` are the whole seconds it looks for.  A turn that has no
  second of the same day to go to adds an hour or a minute; only in the last hour
  of all dates does that overflow (`turn_panic`), and only a schedule that allows
  this hour gets there (`turn_none`).
-/

import GnDrive.Cron.Search
import Mathlib.Data.Int.LeastGreatest

namespace GnDrive.Cron

open Calendar

/-- The last day of all. -/
def lastDay : Int := yearStart 262143 - 1

/-- Its last second. -/
def lastSecond : Int := midnight (yearStart 262143) - 1

theorem inRange_le {t : Int} (h : InRange t) : t ≤ lastSecond := by
  unfold InRange DateInRange dayOf at h
  unfold lastSecond midnight atTime
  omega

theorem inRange_of_le {t u : Int} (ht : InRange t) (htu : t ≤ u) (hu : u ≤ lastSecond) :
    InRange u := by
  unfold InRange DateInRange dayOf at *
  unfold lastSecond midnight atTime at hu
  omega

theorem year_lastDay : year lastDay = 262142 := by decide

theorem dayOf_le_lastDay {t : Int} (h : InRange t) : dayOf t ≤ lastDay := by
  unfold InRange DateInRange at h
  unfold lastDay
  omega

namespace CronSchedule

variable (s : CronSchedule)

/-- The seconds after `after` that match, up to the end of the eighth year after
    its own. -/
def Candidates (after : Int) : Set Int :=
  {w | s.Matches w ∧ after < w * NANOS ∧ InRange w ∧
    year (dayOf w) ≤ year (dayOf (secs after)) + 8}

/-- The last hour of all is one the schedule allows. -/
def AllowsLastHour : Prop :=
  s.months.contains (month lastDay) = true ∧ s.dayMatches lastDay = true ∧
    s.hours.contains 23 = true

instance : Decidable s.AllowsLastHour := by unfold AllowsLastHour; infer_instance

variable {s}

theorem lt_nanos_iff {after w : Int} : after < w * NANOS ↔ secs after < w := by
  unfold secs NANOS
  omega

-- ============================================================================
-- One turn
-- ============================================================================

theorem dayOf_atTime {n : Int} {h m sec : Nat} (hh : h < 24) (hm : m < 60) (hs : sec < 60) :
    dayOf (atTime n h m sec) = n := by
  unfold dayOf atTime
  omega

theorem andHms_eq {n : Int} {h m sec : Nat} (hh : h < 24) (hm : m < 60) (hs : sec < 60) :
    andHms n h m sec = .ok (atTime n h m sec) := if_pos ⟨hh, hm, hs⟩

/-- How a turn leaves a second: within the dates, or over their end, which depends
    on the last hour of all. -/
def Stays (s : CronSchedule) (t : Int) (r : Except Exit Int) : Prop :=
  (∀ t', r = .ok t' → InRange t') ∧ (r = .error (.ret none) → ¬ s.AllowsLastHour) ∧
    ∀ p, r = .error (.panic p) → dayOf t = lastDay ∧ s.AllowsLastHour

theorem stays_toTime {t : Int} {h m sec : Nat} (ht : InRange t) (hh : h < 24) (hm : m < 60)
    (hs : sec < 60) : Stays s t (andHms (dayOf t) h m sec) := by
  rw [andHms_eq hh hm hs]
  refine ⟨fun t' heq => ?_, fun heq => ?_, fun p heq => ?_⟩
  · obtain rfl := Except.ok.inj heq
    unfold InRange at ht ⊢
    rw [dayOf_atTime hh hm hs]
    exact ht
  · cases heq
  · cases heq

/-- The first second of a day that may lie behind the last. -/
theorem stays_toDay {t d : Int} {r : Except Exit Int}
    (hr : r = if DateInRange d then .ok d else .error (.ret none))
    (hover : ¬ DateInRange d → ¬ s.AllowsLastHour) :
    Stays s t (r >>= fun d => andHms d 0 0 0) := by
  subst hr
  by_cases hin : DateInRange d
  · rw [if_pos hin]
    have heq : ((.ok d : Except Exit Int) >>= fun d => andHms d 0 0 0) = .ok (midnight d) := rfl
    rw [heq]
    refine ⟨fun t' heq => ?_, fun heq => ?_, fun p heq => ?_⟩
    · obtain rfl := Except.ok.inj heq
      unfold InRange
      rw [dayOf_midnight]
      exact hin
    · cases heq
    · cases heq
  · rw [if_neg hin]
    refine ⟨fun t' heq => ?_, fun _ => hover hin, fun p heq => ?_⟩
    · cases heq
    · cases heq

theorem stays_plus {t n : Int} {h m : Nat} (hh : h < 24) (hm : m < 60)
    (hover : ¬ InRange (atTime (dayOf t) h m 0 + n) → dayOf t = lastDay ∧ s.AllowsLastHour) :
    Stays s t (andHms (dayOf t) h m 0 >>= fun t => plusSeconds t n) := by
  rw [andHms_eq hh hm (by decide)]
  have heq : ((.ok (atTime (dayOf t) h m 0) : Except Exit Int) >>= fun t => plusSeconds t n) =
      plusSeconds (atTime (dayOf t) h m 0) n := rfl
  rw [heq]
  unfold plusSeconds
  by_cases hin : InRange (atTime (dayOf t) h m 0 + n)
  · rw [if_pos hin]
    refine ⟨fun t' heq => ?_, fun heq => ?_, fun p heq => ?_⟩
    · obtain rfl := Except.ok.inj heq
      exact hin
    · cases heq
    · cases heq
  · rw [if_neg hin]
    refine ⟨fun t' heq => ?_, fun heq => ?_, fun p _ => hover hin⟩
    · cases heq
    · cases heq

/-- The day behind the last does not exist. -/
theorem stays_nextDay {t : Int} (ht : InRange t) (hover : dayOf t = lastDay → ¬ s.AllowsLastHour) :
    Stays s t (succDay (dayOf t) >>= fun d => andHms d 0 0 0) := by
  apply stays_toDay rfl
  intro hout
  apply hover
  have hle := dayOf_le_lastDay ht
  unfold InRange at ht
  unfold DateInRange at ht hout
  unfold lastDay at hle ⊢
  omega

theorem stays_year {t : Int} (h : s.months.atOrAfter (month (dayOf t)) = none) :
    Stays s t (firstOfMonth (year (dayOf t) + 1) 1 >>= fun d => andHms d 0 0 0) := by
  apply stays_toDay (d := monthStart (year (dayOf t) + 1) 1)
  · unfold firstOfMonth
    simp
  · rintro - ⟨hmonth, -, -⟩
    have hle : month (dayOf t) ≤ month lastDay := (month_bounds (dayOf t)).2.1
    rw [Field.atOrAfter_none (by decide) h hle] at hmonth
    cases hmonth

theorem stays_month {t : Int} {m : Nat} (ht : InRange t)
    (h : s.months.atOrAfter (month (dayOf t)) = some m) (hne : m ≠ month (dayOf t)) :
    Stays s t (firstOfMonth (year (dayOf t)) m >>= fun d => andHms d 0 0 0) := by
  obtain ⟨hge, hc, -⟩ := Field.atOrAfter_some (by decide) h
  have hm := Field.contains_le hc
  have hone := (month_bounds (dayOf t)).1
  have hlow := (month_lt_iff (show m ≤ 13 by omega)).mp (show month (dayOf t) < m by omega)
  have hhigh : monthStart (year (dayOf t)) m < yearStart (year (dayOf t) + 1) := by
    have hmono := monthStart_mono (y := year (dayOf t)) hm (by omega)
    have hlast : monthStart (year (dayOf t)) 12 < monthStart (year (dayOf t)) 13 := by
      unfold monthStart
      cases isLeap (year (dayOf t)) <;> simp [daysBefore]
    rw [monthStart_thirteen] at hlast
    omega
  have hyear : year (dayOf t) ≤ year lastDay := year_mono (dayOf_le_lastDay ht)
  rw [year_lastDay] at hyear
  have hend := yearStart_le (show year (dayOf t) + 1 ≤ 262143 by omega)
  have hin : DateInRange (monthStart (year (dayOf t)) m) := by
    unfold InRange at ht
    unfold DateInRange at ht ⊢
    omega
  apply stays_toDay (d := monthStart (year (dayOf t)) m)
  · unfold firstOfMonth
    simp [show 1 ≤ m by omega, hm]
  · exact fun hout => absurd hin hout

theorem stays_hour {t : Int} (ht : InRange t) (hc : s.hours.contains (hour t) = false) :
    Stays s t (match s.hours.atOrAfter (hour t + 1) with
      | some h => andHms (dayOf t) h 0 0
      | none => succDay (dayOf t) >>= fun d => andHms d 0 0 0) := by
  cases hnext : s.hours.atOrAfter (hour t + 1) with
  | some h =>
    obtain ⟨-, hmax, -⟩ := Field.skipped_some (by decide) hc hnext
    exact stays_toTime ht (by omega) (by decide) (by decide)
  | none =>
    apply stays_nextDay ht
    rintro - ⟨-, -, hhour⟩
    have hlt := hour_lt t
    rw [Field.skipped_none (by decide) hc hnext 23 (by omega)] at hhour
    cases hhour

/-- What a turn adds leaves the dates only in the last hour. -/
theorem allows_of_overflow {t n : Int} {m : Nat} (ht : InRange t) (hm : m < 60)
    (hn : (m : Int) * 60 + n ≤ 3600) (hmonth : s.months.contains (month (dayOf t)) = true)
    (hday : s.dayMatches (dayOf t) = true) (hhour : s.hours.contains (hour t) = true)
    (hn0 : 0 ≤ n) (hover : ¬ InRange (atTime (dayOf t) (hour t) m 0 + n)) :
    dayOf t = lastDay ∧ s.AllowsLastHour := by
  have hlt := hour_lt t
  have hle := dayOf_le_lastDay ht
  have hlast : dayOf t = lastDay ∧ hour t = 23 := by
    unfold InRange DateInRange at ht hover
    unfold lastDay at hle ⊢
    unfold atTime at hover
    unfold dayOf at hover ht hle ⊢
    omega
  rw [hlast.1] at hmonth hday
  rw [hlast.2] at hhour
  exact ⟨hlast.1, hmonth, hday, hhour⟩

theorem stays_minute {t : Int} (ht : InRange t)
    (hmonth : s.months.contains (month (dayOf t)) = true)
    (hday : s.dayMatches (dayOf t) = true) (hhour : s.hours.contains (hour t) = true)
    (hc : s.minutes.contains (minute t) = false) :
    Stays s t (match s.minutes.atOrAfter (minute t + 1) with
      | some mn => andHms (dayOf t) (hour t) mn 0
      | none => andHms (dayOf t) (hour t) 0 0 >>= fun t => plusSeconds t 3600) := by
  have hlt := hour_lt t
  cases hnext : s.minutes.atOrAfter (minute t + 1) with
  | some mn =>
    obtain ⟨-, hmax, -⟩ := Field.skipped_some (by decide) hc hnext
    exact stays_toTime ht hlt (by omega) (by decide)
  | none =>
    apply stays_plus hlt (by decide)
    exact allows_of_overflow ht (by decide) (by decide) hmonth hday hhour (by decide)

theorem stays_second {t : Int} (ht : InRange t)
    (hmonth : s.months.contains (month (dayOf t)) = true)
    (hday : s.dayMatches (dayOf t) = true) (hhour : s.hours.contains (hour t) = true)
    (hc : s.seconds.contains (second t) = false) :
    Stays s t (match s.seconds.atOrAfter (second t + 1) with
      | some sec => andHms (dayOf t) (hour t) (minute t) sec
      | none => andHms (dayOf t) (hour t) (minute t) 0 >>= fun t => plusSeconds t 60) := by
  have hlt := hour_lt t
  have hmin := minute_lt t
  cases hnext : s.seconds.atOrAfter (second t + 1) with
  | some sec =>
    obtain ⟨-, hmax, -⟩ := Field.skipped_some (by decide) hc hnext
    exact stays_toTime ht hlt hmin (by omega)
  | none =>
    apply stays_plus hlt hmin
    exact allows_of_overflow ht hmin (by omega) hmonth hday hhour (by decide)

theorem turn_stays (s : CronSchedule) {t : Int} (ht : InRange t) : Stays s t (s.turn t) := by
  unfold turn
  simp only
  cases hmonth : s.months.atOrAfter (month (dayOf t)) with
  | none => exact stays_year hmonth
  | some m =>
    simp only
    by_cases hm : m ≠ month (dayOf t)
    · rw [if_pos hm]
      exact stays_month ht hmonth hm
    have hcm : s.months.contains (month (dayOf t)) = true := by
      have hc := (Field.atOrAfter_some (by decide) hmonth).2.1
      rwa [Decidable.not_not.mp hm] at hc
    rw [if_neg hm]
    by_cases hday : s.dayMatches (dayOf t) = true
    · rw [if_neg (by simp [hday])]
      by_cases hhour : s.hours.contains (hour t) = true
      · rw [if_neg (by simp [hhour])]
        by_cases hminute : s.minutes.contains (minute t) = true
        · rw [if_neg (by simp [hminute])]
          by_cases hsecond : s.seconds.contains (second t) = true
          · rw [if_neg (by simp [hsecond])]
            refine ⟨fun t' heq => ?_, fun heq => ?_, fun p heq => ?_⟩
            · cases heq
            · cases heq
            · cases heq
          · rw [if_pos (by simp [hsecond])]
            exact stays_second ht hcm hday hhour (by simpa using hsecond)
        · rw [if_pos (by simp [hminute])]
          exact stays_minute ht hcm hday hhour (by simpa using hminute)
      · rw [if_pos (by simp [hhour])]
        exact stays_hour ht (by simpa using hhour)
    · rw [if_pos (by simp [hday])]
      apply stays_nextDay ht
      intro hlast hallows
      rw [hlast] at hday
      exact hday hallows.2.1

-- ============================================================================
-- The loop
-- ============================================================================

/-- Nothing matches from `t` to the end of the dates. -/
def NoneLeft (s : CronSchedule) (t : Int) : Prop := ∀ w, t ≤ w → InRange w → ¬ s.Matches w

theorem search_inRange {limitYear : Int} {fuel : Nat} {t w : Int} (ht : InRange t)
    (h : s.search limitYear fuel t = .ok (some w)) : InRange w := by
  induction fuel generalizing t with
  | zero =>
    unfold search at h
    simp at h
  | succ fuel ih =>
    have hstays := turn_stays s ht
    unfold search at h
    split at h
    · cases hturn : s.turn t with
      | ok t' =>
        rw [hturn] at h
        exact ih (hstays.1 t' hturn) h
      | error e =>
        rw [hturn] at h
        cases e with
        | panic p => simp at h
        | ret r =>
          obtain rfl : r = some w := Except.ok.inj h
          rcases turn_spec s t with ⟨-, heq⟩ | ⟨t', -, -, hr⟩
          · rw [hturn] at heq
            obtain rfl : w = t := by simpa using heq
            exact ht
          · rw [hturn] at hr
            simp at hr
    · simp at h

/-- What ends the search with a panic. -/
theorem search_panics {limitYear : Int} {fuel : Nat} {t : Int} {p : Panic} (ht : InRange t)
    (h : s.search limitYear fuel t = .error p) :
    s.AllowsLastHour ∧ NoneLeft s t ∧ 262142 ≤ limitYear := by
  induction fuel generalizing t with
  | zero =>
    unfold search at h
    simp at h
  | succ fuel ih =>
    have hstays := turn_stays s ht
    unfold search at h
    split at h
    · rename_i hyear
      rcases turn_spec s t with ⟨-, heq⟩ | ⟨t', hlt, hskip, hr⟩
      · rw [heq] at h
        cases h
      · rcases hr with heq | ⟨hout, heq | ⟨p', heq⟩⟩
        · rw [heq] at h
          obtain ⟨hallows, hnone, hlimit⟩ := ih (hstays.1 t' heq) h
          refine ⟨hallows, fun w hw hin => ?_, hlimit⟩
          by_cases hwt : w < t'
          · exact hskip w hw hwt
          · exact hnone w (by omega) hin
        · rw [heq] at h
          cases h
        · obtain ⟨hday, hallows⟩ := hstays.2.2 p' heq
          rw [hday, year_lastDay] at hyear
          refine ⟨hallows, fun w hw hin => hskip w hw ?_, hyear⟩
          have hle := inRange_le hin
          by_contra hge
          exact hout (inRange_of_le ht (by omega) (by omega))
    · cases h

theorem search_overflows {limitYear : Int} {fuel : Nat} {t : Int} (ht : InRange t)
    (hallows : s.AllowsLastHour) (hnone : NoneLeft s t) (hlimit : 262142 ≤ limitYear)
    (hfuel : lastSecond - t < fuel) : ∃ p, s.search limitYear fuel t = .error p := by
  induction fuel generalizing t with
  | zero =>
    have hle := inRange_le ht
    omega
  | succ fuel ih =>
    have hstays := turn_stays s ht
    have hyear : year (dayOf t) ≤ year lastDay := year_mono (dayOf_le_lastDay ht)
    rw [year_lastDay] at hyear
    unfold search
    rw [if_pos (by omega)]
    rcases turn_spec s t with ⟨hmatch, -⟩ | ⟨t', hlt, -, hr⟩
    · exact absurd hmatch (hnone t (Int.le_refl t) ht)
    · rcases hr with heq | ⟨-, heq | ⟨p, heq⟩⟩
      · rw [heq]
        exact ih (hstays.1 t' heq) (fun w hw => hnone w (by omega)) (by omega)
      · exact absurd hallows (hstays.2.1 heq)
      · rw [heq]
        exact ⟨p, rfl⟩

-- ============================================================================
-- The next match
-- ============================================================================

variable {after : Int}

theorem map_eq_ok {ε α β : Type} {f : α → β} {x : Except ε α} {b : β} :
    x.map f = .ok b ↔ ∃ a, x = .ok a ∧ f a = b := by
  cases x with
  | error e => simp [Except.map]
  | ok a => simp [Except.map]

theorem map_eq_error {ε α β : Type} {f : α → β} {x : Except ε α} {e : ε} :
    x.map f = .error e ↔ x = .error e := by
  cases x with
  | error e => simp [Except.map]
  | ok a => simp [Except.map]

/-- The search behind `after` runs over the end of the dates: it begins there, or it
    comes to the last hour with nothing left to match. -/
def RunsOver (s : CronSchedule) (v : Int) : Prop :=
  v = lastSecond ∨ s.AllowsLastHour ∧ NoneLeft s (v + 1) ∧ 262142 ≤ year (dayOf v) + 8

theorem candidates_eq (s : CronSchedule) (after w : Int) : w ∈ s.Candidates after ↔
    (s.Matches w ∧ secs after < w) ∧ InRange w ∧
      year (dayOf w) ≤ year (dayOf (secs after)) + 8 := by
  show (s.Matches w ∧ after < w * NANOS ∧ _) ↔ _
  rw [lt_nanos_iff, and_assoc]

theorem nextNaiveAfter_least (hfields : s.everySeconds = none) (h : InRange (secs after))
    (t : Int) : s.nextNaiveAfter after = .ok (some t) ↔
      ∃ w, t = w * NANOS ∧ IsLeast (s.Candidates after) w := by
  constructor
  · intro hnext
    obtain ⟨w, rfl, ⟨hw, hlt⟩, hleast⟩ := nextNaiveAfter_found hfields hnext
    refine ⟨w, rfl, ?_, fun u hu => ?_⟩
    · rw [candidates_eq]
      rw [nextNaiveAfter_fields after hfields] at hnext
      split at hnext
      · rename_i hin
        simp only at hnext
        obtain ⟨r, hsearch, hr⟩ := map_eq_ok.mp hnext
        obtain ⟨w', rfl, heq⟩ := Option.map_eq_some_iff.mp hr
        obtain rfl : w' = w := by
          unfold NANOS at heq
          omega
        exact ⟨⟨hw, hlt⟩, search_inRange hin hsearch, (search_found hsearch).2.2.2⟩
      · cases hnext
    · have hu := (candidates_eq s after u).mp hu
      exact hleast hu.1
  · rintro ⟨w, rfl, hw, hleast⟩
    obtain ⟨hmatch, hrange, hyear⟩ := (candidates_eq s after w).mp hw
    apply nextNaiveAfter_finds hfields h ⟨hmatch, fun u hu => ?_⟩ hyear hrange
    by_contra hlt
    have huw : u < w := by omega
    have hin : InRange u := h.between hrange (Int.le_of_lt hu.2) (Int.le_of_lt huw)
    have hyu := year_mono (dayOf_mono (Int.le_of_lt huw))
    have hle := hleast ((candidates_eq s after u).mpr ⟨hu, hin, by omega⟩)
    omega

theorem nextNaiveAfter_panics (hfields : s.everySeconds = none) (h : InRange (secs after)) :
    (∃ p, s.nextNaiveAfter after = .error p) ↔ RunsOver s (secs after) := by
  have hle := inRange_le h
  rw [nextNaiveAfter_fields after hfields]
  by_cases hin : InRange (secs after + 1)
  · have hlt := inRange_le hin
    rw [if_pos hin]
    simp only
    constructor
    · rintro ⟨p, hp⟩
      have hsearch := map_eq_error.mp hp
      obtain ⟨hallows, hnone, hlimit⟩ := search_panics hin hsearch
      exact .inr ⟨hallows, hnone, hlimit⟩
    · rintro (heq | ⟨hallows, hnone, hlimit⟩)
      · omega
      · have hend := yearStart_le (show (262143 : Int) ≤ year (dayOf (secs after)) + 8 + 1 by omega)
        have hfuel : lastSecond - (secs after + 1) <
            (midnight (yearStart (year (dayOf (secs after)) + 8 + 1)) - (secs after + 1)).toNat := by
          unfold lastSecond midnight atTime at *
          omega
        obtain ⟨p, hp⟩ := search_overflows hin hallows hnone hlimit hfuel
        exact ⟨p, by rw [hp]; rfl⟩
  · rw [if_neg hin]
    refine ⟨fun _ => .inl ?_, fun _ => ⟨_, rfl⟩⟩
    by_contra hne
    exact hin (inRange_of_le h (by omega) (by omega))

theorem nextNaiveAfter_none (hfields : s.everySeconds = none) (h : InRange (secs after)) :
    s.nextNaiveAfter after = .ok none ↔
      (∀ w, w ∉ s.Candidates after) ∧ ¬ RunsOver s (secs after) := by
  have hleast := nextNaiveAfter_least hfields h
  have hpanics := nextNaiveAfter_panics hfields h
  cases hnext : s.nextNaiveAfter after with
  | error p =>
    refine ⟨fun heq => (by cases heq), fun hno => absurd (hpanics.mp ⟨p, hnext⟩) hno.2⟩
  | ok r =>
    have hover : ¬ RunsOver s (secs after) := by
      intro hover
      obtain ⟨p, hp⟩ := hpanics.mpr hover
      rw [hnext] at hp
      cases hp
    cases r with
    | some t =>
      obtain ⟨w, -, hw⟩ := (hleast t).mp hnext
      exact ⟨fun heq => by simp at heq, fun hno => absurd hw.1 (hno.1 w)⟩
    | none =>
      refine ⟨fun _ => ⟨fun w hw => ?_, hover⟩, fun _ => rfl⟩
      obtain ⟨u, hu, hfirst⟩ := Int.exists_least_of_bdd (P := fun u => u ∈ s.Candidates after)
        ⟨secs after, fun u hu => Int.le_of_lt ((candidates_eq s after u).mp hu).1.2⟩ ⟨w, hw⟩
      have hfound := (hleast (u * NANOS)).mpr ⟨u, rfl, hu, hfirst⟩
      rw [hnext] at hfound
      simp at hfound

theorem nextNaiveAfter_every {every : Int} (hevery : s.everySeconds = some every)
    {r : Option Int} (h : s.nextNaiveAfter after = .ok r) :
    r = some ((secs after + every) * NANOS) := by
  unfold nextNaiveAfter durationSeconds addDuration at h
  rw [hevery] at h
  by_cases hfits : every.natAbs ≤ (2 ^ 63 - 1) / 1000
  · by_cases hin : InRange (secs (secs after * NANOS + every * NANOS))
    · simp only [if_pos hfits, if_pos hin, bind, Except.bind, pure, Except.pure] at h
      rw [← Except.ok.inj h, Int.add_mul]
    · simp only [if_pos hfits, if_neg hin, bind, Except.bind] at h
      cases h
  · simp only [if_neg hfits, bind, Except.bind] at h
    cases h

end CronSchedule

open CronSchedule (RunsOver)

/-- A schedule of six fields is next matched at the least of its candidates, and never
    if there is none; an interval is added to the second of the given time. -/
theorem next_match (s : CronSchedule) {after : Int} (h : InRange (secs after)) :
    (s.everySeconds = none →
      (∀ t, s.nextNaiveAfter after = .ok (some t) ↔
        ∃ w, t = w * NANOS ∧ IsLeast (s.Candidates after) w) ∧
      (¬ RunsOver s (secs after) →
        (s.nextNaiveAfter after = .ok none ↔ ∀ w, w ∉ s.Candidates after))) ∧
    ∀ every, s.everySeconds = some every → ∀ r, s.nextNaiveAfter after = .ok r →
      r = some ((secs after + every) * NANOS) := by
  refine ⟨fun hfields => ⟨CronSchedule.nextNaiveAfter_least hfields h, fun hover => ?_⟩, ?_⟩
  · rw [CronSchedule.nextNaiveAfter_none hfields h]
    exact and_iff_left hover
  · intro every hevery r hr
    exact CronSchedule.nextNaiveAfter_every hevery hr

/-- Noon of each day. -/
theorem next_match_noon : ∃ s, CronSchedule.parse (fun _ => none) "0 12 * * *".toList = .ok s ∧
    ∀ t, s.nextNaiveAfter 0 = .ok (some t) ↔
      ∃ w, t = w * NANOS ∧ IsLeast (s.Candidates 0) w := by
  have hrun : ((CronSchedule.parse (fun _ => none) "0 12 * * *".toList).toOption.any
      (·.everySeconds.isNone)) = true := by decide +kernel
  cases hparse : CronSchedule.parse (fun _ => none) "0 12 * * *".toList with
  | error e =>
    rw [hparse] at hrun
    cases hrun
  | ok s =>
    rw [hparse] at hrun
    have hfields : s.everySeconds = none := Option.isNone_iff_eq_none.mp hrun
    have hrange : InRange (secs 0) := by decide +kernel
    exact ⟨s, rfl, ((next_match s hrange).1 hfields).1⟩

/-- An interval of five seconds, whose fields allow every second, and the last second
    of all, behind which a date overflows. -/
theorem other_match :
    (∃ s, CronSchedule.parse (fun _ => some 5) "@every 5s".toList = .ok s ∧
      s.nextNaiveAfter 0 = .ok (some (5 * NANOS)) ∧ 1 ∈ s.Candidates 0) ∧
    ∃ s, CronSchedule.parse (fun _ => none) "* * * * *".toList = .ok s ∧
      s.nextNaiveAfter (lastSecond * NANOS) = .error .dateTimeOverflow ∧
      ∀ w, w ∉ s.Candidates (lastSecond * NANOS) := by
  refine ⟨⟨everySchedule 5, rfl, rfl, ?_⟩, ?_⟩
  · exact ⟨by decide +kernel, by decide, by decide +kernel, by decide +kernel⟩
  · have hrun : (match CronSchedule.parse (fun _ => none) "* * * * *".toList with
        | .ok s => decide (s.nextNaiveAfter (lastSecond * NANOS) = .error .dateTimeOverflow)
        | .error _ => false) = true := by decide +kernel
    cases hparse : CronSchedule.parse (fun _ => none) "* * * * *".toList with
    | error e =>
      rw [hparse] at hrun
      cases hrun
    | ok s =>
      rw [hparse] at hrun
      refine ⟨s, rfl, of_decide_eq_true hrun, fun w hw => ?_⟩
      obtain ⟨⟨-, hlt⟩, hin, -⟩ := (CronSchedule.candidates_eq s _ w).mp hw
      rw [CronSchedule.secs_mul] at hlt
      have hle := inRange_le hin
      omega

end GnDrive.Cron
