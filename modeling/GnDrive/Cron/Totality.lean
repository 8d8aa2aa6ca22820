/-
  GnDrive.Cron.Totality

  Which fire times are computed without a panic.

  `Passes z s d v u k` says that a search that stands at the wall-clock second `v`
  comes to `u` behind `k` candidates that are not after `d`; it panics if one of the
  first 64 searches runs over the end of the dates.  An interval panics if it is no
  duration or leads out of the dates.
-/

import GnDrive.Cron.NextMatch
import GnDrive.Cron.Runner

namespace GnDrive.Cron

open Calendar CronSchedule

variable {z : Zone} {s : CronSchedule} {d : Int}

theorem candidates_congr {after after' : Int} (h : secs after = secs after') :
    s.Candidates after = s.Candidates after' := by
  ext w
  rw [candidates_eq, candidates_eq, h]

/-- The candidates that `next_after` passes over. -/
inductive Passes (z : Zone) (s : CronSchedule) (d : Int) : Int → Int → Nat → Prop
  | here (v : Int) : Passes z s d v v 0
  | next {v w u : Int} {k : Nat} : IsLeast (s.Candidates (v * NANOS)) w → ¬ z.After w d →
      Passes z s d w u k → Passes z s d v u (k + 1)

/-- The fire time behind `d` lies within durations and dates. -/
def Fits (z : Zone) (s : CronSchedule) (d : Int) : Prop :=
  match s.everySeconds with
  | some every =>
      every.natAbs ≤ (2 ^ 63 - 1) / 1000 ∧ InRange (secs (base z d + every * NANOS))
  | none =>
      InRange (z.clock d) ∧
        ∀ v k, Passes z s d (z.clock d) v k → k < 64 → ¬ RunsOver s v

/-- Where an entry is parked that has no further fire. -/
def Parks (now : Int) : Prop := InRange (secs (now + 36500 * 86400 * NANOS))

theorem tries_panics (hfields : s.everySeconds = none) {n : Nat} {cursor : Int}
    (h : InRange (secs cursor)) : (∃ p, s.tries z d n cursor = .error p) ↔
      ∃ v k, Passes z s d (secs cursor) v k ∧ k < n ∧ RunsOver s v := by
  induction n generalizing cursor with
  | zero => simp [tries]
  | succ n ih =>
    have hover := nextNaiveAfter_panics hfields h
    have hleast := nextNaiveAfter_least hfields h
    have hcongr : s.Candidates (secs cursor * NANOS) = s.Candidates cursor :=
      candidates_congr (secs_mul _)
    -- the first search panics, or a later one does
    have hsplit : (∃ v k, Passes z s d (secs cursor) v k ∧ k < n + 1 ∧ RunsOver s v) ↔
        RunsOver s (secs cursor) ∨ ∃ w, IsLeast (s.Candidates cursor) w ∧ ¬ z.After w d ∧
          ∃ v k, Passes z s d w v k ∧ k < n ∧ RunsOver s v := by
      constructor
      · rintro ⟨v, k, hpass, hk, hrun⟩
        cases hpass with
        | here => exact .inl hrun
        | next hw hafter hrest =>
          rw [hcongr] at hw
          exact .inr ⟨_, hw, hafter, v, _, hrest, by omega, hrun⟩
      · rintro (hrun | ⟨w, hw, hafter, v, k, hpass, hk, hrun⟩)
        · exact ⟨_, 0, .here _, by omega, hrun⟩
        · rw [← hcongr] at hw
          exact ⟨v, k + 1, .next hw hafter hpass, by omega, hrun⟩
    rw [hsplit]
    cases hnext : s.nextNaiveAfter cursor with
    | error p =>
      refine ⟨fun _ => .inl (hover.mp ⟨p, hnext⟩), fun _ => ⟨p, ?_⟩⟩
      rw [tries, hnext]
    | ok r =>
      have hnot : ¬ RunsOver s (secs cursor) := by
        intro hrun
        obtain ⟨p, hp⟩ := hover.mpr hrun
        rw [hnext] at hp
        cases hp
      cases r with
      | none =>
        have hnone := ((nextNaiveAfter_none hfields h).mp hnext).1
        rw [tries, hnext]
        constructor
        · rintro ⟨p, hp⟩
          cases hp
        · rintro (hrun | ⟨w, hw, -⟩)
          · exact absurd hrun hnot
          · exact absurd hw.1 (hnone w)
      | some cand =>
        obtain ⟨c, rfl, hc⟩ := (hleast cand).mp hnext
        have hin : InRange (secs (c * NANOS)) := by
          rw [secs_mul]
          exact hc.1.2.2.1
        obtain ⟨hfound, hskip⟩ := tries_succ (z := z) (d := d) (n := n) hnext
        by_cases hafter : z.After c d
        · obtain ⟨t, ht, hlt⟩ := hafter
          have hres : z.resolveLocal (c * NANOS) = some (t * NANOS) := by
            rw [resolveLocal_mul, ht]
            rfl
          rw [hfound _ hres hlt]
          constructor
          · rintro ⟨p, hp⟩
            cases hp
          · rintro (hrun | ⟨w, hw, hnotafter, -⟩)
            · exact absurd hrun hnot
            · obtain rfl := hw.unique hc
              exact absurd ⟨t, ht, hlt⟩ hnotafter
        · rw [hskip hafter, ih hin, secs_mul]
          constructor
          · rintro ⟨v, k, hpass, hk, hrun⟩
            exact .inr ⟨c, hc, hafter, v, k, hpass, hk, hrun⟩
          · rintro (hrun | ⟨w, hw, -, hrest⟩)
            · exact absurd hrun hnot
            · obtain rfl := hw.unique hc
              exact hrest

theorem error_not_ok {ε α : Type} {e : ε} : ¬ ∃ a, (Except.error e : Except ε α) = .ok a := by
  rintro ⟨a, ha⟩
  cases ha

/-- The next fire time is computed exactly if it fits. -/
theorem nextAfter_ok_iff (z : Zone) (s : CronSchedule) (d : Int) :
    (∃ r, s.nextAfter z d = .ok r) ↔ Fits z s d := by
  unfold nextAfter Fits
  cases hevery : s.everySeconds with
  | some every =>
    simp only
    unfold durationSeconds addDuration
    by_cases hfits : every.natAbs ≤ (2 ^ 63 - 1) / 1000
    · by_cases hin : InRange (secs (base z d + every * NANOS))
      · simp only [if_pos hfits, if_pos hin, bind, Except.bind, pure, Except.pure]
        exact ⟨fun _ => ⟨hfits, hin⟩, fun _ => ⟨_, rfl⟩⟩
      · simp only [if_pos hfits, if_neg hin, bind, Except.bind]
        exact ⟨fun hok => absurd hok error_not_ok, fun h => absurd h.2 hin⟩
    · simp only [if_neg hfits, bind, Except.bind]
      exact ⟨fun hok => absurd hok error_not_ok, fun h => absurd h.1 hfits⟩
  | none =>
    simp only
    by_cases hclock : InRange (z.clock d)
    · obtain ⟨n, hn, hsecs⟩ := naiveLocal_of_inRange hclock
      have hpanics := tries_panics (z := z) (d := d) (n := 64) hevery
        (show InRange (secs n) by rwa [hsecs])
      rw [hsecs] at hpanics
      simp only [hn, bind, Except.bind]
      cases htries : s.tries z d 64 n with
      | ok r =>
        refine ⟨fun _ => ⟨hclock, fun v k hpass hk hrun => ?_⟩, fun _ => ⟨r, rfl⟩⟩
        obtain ⟨p, hp⟩ := hpanics.mpr ⟨v, k, hpass, hk, hrun⟩
        rw [htries] at hp
        cases hp
      | error p =>
        obtain ⟨v, k, hpass, hk, hrun⟩ := hpanics.mp ⟨p, htries⟩
        exact ⟨fun hok => absurd hok error_not_ok, fun h => absurd hrun (h.2 v k hpass hk)⟩
    · unfold Zone.naiveLocal
      simp only [if_neg hclock, bind, Except.bind]
      exact ⟨fun hok => absurd hok error_not_ok, fun h => absurd h.1 hclock⟩

variable {H : Type}

theorem tick_ok_iff (z : Zone) (now : Int) (e : Entry H) :
    (∃ r, e.tick z now = .ok r) ↔ (e.nextFire ≤ now → Fits z e.schedule now ∧ Parks now) := by
  have hfits := nextAfter_ok_iff z e.schedule now
  unfold Entry.tick
  by_cases hdue : e.nextFire ≤ now
  · rw [if_pos hdue]
    unfold addDuration
    cases hnext : e.schedule.nextAfter z now with
    | error p =>
      rw [hnext] at hfits
      exact ⟨fun hok => absurd hok error_not_ok,
        fun h => absurd (hfits.mpr (h hdue).1) error_not_ok⟩
    | ok next =>
      have hfit := hfits.mp ⟨next, hnext⟩
      by_cases hparks : Parks now
      · have hin : InRange (secs (now + 36500 * 86400 * NANOS)) := hparks
        simp only [if_pos hin, bind, Except.bind, pure, Except.pure]
        exact ⟨fun _ _ => ⟨hfit, hparks⟩, fun _ => ⟨_, rfl⟩⟩
      · have hout : ¬ InRange (secs (now + 36500 * 86400 * NANOS)) := hparks
        simp only [if_neg hout, bind, Except.bind]
        exact ⟨fun hok => absurd hok error_not_ok, fun h => absurd (h hdue).2 hparks⟩
  · rw [if_neg hdue]
    exact ⟨fun _ h => absurd h hdue, fun _ => ⟨_, rfl⟩⟩

theorem tickAt_ok_iff (z : Zone) (now : Int) (entries : List (String × Entry H)) :
    (∃ r, tickAt z now entries = .ok r) ↔
      ∀ p ∈ entries, p.2.nextFire ≤ now → Fits z p.2.schedule now ∧ Parks now := by
  induction entries with
  | nil => exact ⟨fun _ p hp => (by cases hp), fun _ => ⟨_, rfl⟩⟩
  | cons p rest ih =>
    obtain ⟨id, e⟩ := p
    rw [List.forall_mem_cons, ← ih, ← tick_ok_iff z now e, tickAt]
    cases htick : e.tick z now with
    | error p => exact ⟨fun hok => absurd hok error_not_ok, fun hok => absurd hok.1 error_not_ok⟩
    | ok r =>
      cases hrest : tickAt z now rest with
      | error p => exact ⟨fun hok => absurd hok error_not_ok, fun hok => absurd hok.2 error_not_ok⟩
      | ok q => exact ⟨fun _ => ⟨⟨r, rfl⟩, q, rfl⟩, fun _ => ⟨_, rfl⟩⟩

/-- Computing the next fire time of a schedule and adding it panic exactly unless that
    time fits; a tick panics exactly if the next fire time of an entry that is due does
    not fit, or the clock is within a hundred years of the last date. -/
theorem never_panics_iff (z : Zone) (s : CronSchedule) :
    (∀ d, (∃ r, s.nextAfter z d = .ok r) ↔ Fits z s d) ∧
    (∀ (runner : Runner) id d, (runner.step z (.add id s d)).isSome ↔ Fits z s d) ∧
    ∀ (entries : List (String × Entry Nat)) now, (∃ r, tickAt z now entries = .ok r) ↔
      ∀ p ∈ entries, p.2.nextFire ≤ now → Fits z p.2.schedule now ∧ Parks now := by
  refine ⟨nextAfter_ok_iff z s, fun runner id d => ?_, fun entries now => ?_⟩
  · rw [← nextAfter_ok_iff]
    cases hnext : s.nextAfter z d with
    | error p => simp [Runner.step, hnext]
    | ok r =>
      cases r with
      | none => simp [Runner.step, hnext]
      | some next => simp [Runner.step, hnext]
  · exact tickAt_ok_iff z now entries

/-- An interval of so many hours is cut to the largest number of seconds, which is no
    duration; one of a hundred billion hours leads out of the dates. -/
theorem long_interval :
    (∃ s, CronSchedule.parse (fun _ => some (2 ^ 63 - 1)) "@every 9999999999999999h".toList = .ok s ∧
      s.nextAfter utc 0 = .error .durationOutOfBounds ∧
      Runner.initial.step utc (.add "a" s 0) = none) ∧
    ∃ s, CronSchedule.parse (fun _ => some 360000000000000) "@every 100000000000h".toList = .ok s ∧
      s.nextAfter utc 0 = .error .dateTimeOverflow :=
  ⟨⟨everySchedule (2 ^ 63 - 1), rfl, rfl, rfl⟩, everySchedule 360000000000000, rfl, rfl⟩

end GnDrive.Cron
