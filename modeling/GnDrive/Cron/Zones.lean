/-
  GnDrive.Cron.Zones

  Fire times in a time zone (`next_after`, `tick_at`): wall-clock candidates
  are resolved to instants, and those in a gap or not after the given instant
  are passed over, 64 candidates at most.

  `Due z s d t` says that some wall-clock time the schedule matches within the
  search horizon resolves to the instant `t` after `d`.  `live_iff` says when
  the least of them is the one `next_after` returns: the candidates tried
  before its wall-clock time number at most 63 and none of them counts.
-/

import GnDrive.Cron.Search
import Mathlib

namespace GnDrive.Cron

open Calendar

/-- What a time zone makes of a wall-clock second: nothing in a gap, two
    instants in a fold. -/
inductive LocalResult where
  | none
  | single (t : Int)
  | ambiguous (earliest latest : Int)
deriving DecidableEq, Repr

def LocalResult.earliest : LocalResult → Option Int
  | none => Option.none
  | single t => some t
  | ambiguous earliest _ => some earliest

def LocalResult.unique : LocalResult → Option Int
  | single t => some t
  | _ => Option.none

/-- The offset of each instant and the instants of each wall-clock second. -/
structure Zone where
  offset : Int → Int
  ofLocal : Int → LocalResult
  /-- A second is resolved to an instant at which the clock shows it. -/
  clock_earliest : ∀ w t, (ofLocal w).earliest = some t → t + offset t = w

namespace Zone

variable (z : Zone)

/-- The second the clock shows at the instant `d`. -/
def clock (d : Int) : Int := secs d + z.offset (secs d)

/-- `date.naive_local()`. -/
def naiveLocal (d : Int) : Except Panic Int :=
  if InRange (z.clock d) then .ok (d + z.offset (secs d) * NANOS)
  else .error .localTimeOutOfRange

/-- Map a naive local time to a real instant. Ambiguous (fold) → earliest;
    nonexistent (gap) → `None`. -/
def resolveLocal (n : Int) : Option Int := (z.ofLocal (secs n)).earliest.map (· * NANOS)

/-- `date.with_nanosecond(0)`. -/
def withNanosecondZero (d : Int) : Option Int :=
  ((z.ofLocal (z.clock d)).unique.filter (InRange ·)).map (· * NANOS)

end Zone

namespace CronSchedule

variable (s : CronSchedule) (z : Zone)

/-- The bounded loop of `next_after`. -/
def tries (date : Int) : Nat → Int → Except Panic (Option Int)
  | 0, _ => .ok none
  | n + 1, cursor =>
      match s.nextNaiveAfter cursor with
      | .error p => .error p
      | .ok none => .ok none
      | .ok (some cand) =>
          match z.resolveLocal cand with
          | some dt => if dt > date then .ok (some dt) else tries date n cand
          | none => tries date n cand

/-- Where an `@every` interval starts. -/
def base (date : Int) : Int := (z.withNanosecondZero date).getD date

/-- Next fire time strictly after `date` (local time). -/
def nextAfter (date : Int) : Except Panic (Option Int) := do
  match s.everySeconds with
  | some every =>
      let t ← addDuration (base z date) (← durationSeconds every)
      return some t
  | none =>
      let cursor ← z.naiveLocal date
      s.tries z date 64 cursor

end CronSchedule

/-! ## The runner -/

structure Entry (H : Type) where
  schedule : CronSchedule
  handler : H
  nextFire : Int

variable {H : Type}

/-- One entry of a tick, and the handler to call if it is due. -/
def Entry.tick (z : Zone) (now : Int) (e : Entry H) : Except Panic (Entry H × Option H) :=
  if e.nextFire ≤ now then do
    let next ← e.schedule.nextAfter z now
    -- Mirror Swift: a schedule with no further fire parks far away.
    let parked ← CronSchedule.addDuration now (36500 * 86400 * NANOS)
    return ({ e with nextFire := next.getD parked }, some e.handler)
  else
    return (e, none)

/-- `CronRunner::tick_at`: the entries after the tick and the handlers fired. -/
def tickAt (z : Zone) (now : Int) :
    List (String × Entry H) → Except Panic (List (String × Entry H) × List H)
  | [] => .ok ([], [])
  | (id, e) :: rest => do
      let (e, fired) ← e.tick z now
      let (rest, more) ← tickAt z now rest
      return ((id, e) :: rest, fired.toList ++ more)

-- ============================================================================
-- What is due
-- ============================================================================

/-- The wall-clock second `w` resolves to an instant after `d`. -/
def Zone.After (z : Zone) (w d : Int) : Prop :=
  ∃ t, (z.ofLocal w).earliest = some t ∧ d < t * NANOS

/-- `t` is an instant after `d` at which `s` fires: a matching wall-clock time
    no later than the eighth year after `d`'s resolves to it, or it is the end
    of the `@every` interval. -/
def Due (z : Zone) (s : CronSchedule) (d t : Int) : Prop :=
  d < t ∧
    match s.everySeconds with
    | some every =>
        t = CronSchedule.base z d + every * NANOS ∧ InRange (secs t) ∧
          every.natAbs ≤ (2 ^ 63 - 1) / 1000
    | none =>
        ∃ w, s.Matches w ∧ InRange w ∧ year (dayOf w) ≤ year (dayOf (z.clock d)) + 8 ∧
          z.resolveLocal (w * NANOS) = some t

/-- If `s` fires at all after `d`, `next_after` returns the first time it does,
    and a tick at `d` gives that time to the entries of `s` it fires. -/
def Live (z : Zone) (s : CronSchedule) (d : Int) : Prop :=
  (∃ t, Due z s d t) →
    ∃ t, IsLeast {t | Due z s d t} t ∧ s.nextAfter z d = .ok (some t) ∧
      ∀ (H : Type) (entries entries' : List (String × Entry H)) (fired : List H),
        tickAt z d entries = .ok (entries', fired) →
        ∀ id e, (id, e) ∈ entries → e.schedule = s → e.nextFire ≤ d →
          (id, { e with nextFire := t }) ∈ entries'

/-- The matching wall-clock seconds strictly between two. -/
noncomputable def CronSchedule.between (s : CronSchedule) (v w : Int) : Finset Int :=
  (Finset.Ioo v w).filter s.Matches

/-- The wall-clock time of the first fire is reached: it lies after the time
    that the clock shows at `d`, at most 63 candidates lie between the two,
    and each of them is in a gap or resolves to `d` or before. -/
def Reached (z : Zone) (s : CronSchedule) (d : Int) : Prop :=
  s.everySeconds = none → ∀ w t, IsLeast {t | Due z s d t} t →
    z.resolveLocal (w * NANOS) = some t →
    InRange (z.clock d) ∧ z.clock d < w ∧ (s.between (z.clock d) w).card ≤ 63 ∧
      ∀ u ∈ s.between (z.clock d) w, ¬ z.After u d

-- ============================================================================
-- The candidates tried
-- ============================================================================

section Tries

variable {z : Zone} {s : CronSchedule} {d : Int}

theorem mem_between {v w u : Int} : u ∈ s.between v w ↔ (v < u ∧ u < w) ∧ s.Matches u := by
  unfold CronSchedule.between
  rw [Finset.mem_filter, Finset.mem_Ioo]

/-- Every candidate is one of those between the clock and the later ones. -/
theorem between_succ {v c w : Int} (hc : s.Matches c) (hvc : v < c) (hcw : c < w)
    (hnext : ∀ u, s.Matches u → v < u → c ≤ u) :
    (s.between v w).card = (s.between c w).card + 1 := by
  have hinsert : s.between v w = insert c (s.between c w) := by
    ext u
    rw [Finset.mem_insert, mem_between, mem_between]
    constructor
    · rintro ⟨⟨hvu, huw⟩, hu⟩
      have := hnext u hu hvu
      by_cases heq : u = c
      · exact Or.inl heq
      · exact Or.inr ⟨⟨by omega, huw⟩, hu⟩
    · rintro (rfl | ⟨⟨hcu, huw⟩, hu⟩)
      · exact ⟨⟨hvc, hcw⟩, hc⟩
      · exact ⟨⟨by omega, huw⟩, hu⟩
  rw [hinsert, Finset.card_insert_of_notMem]
  intro hmem
  have := (mem_between.mp hmem).1.1
  omega

/-- A match after `v` has a first one before it. -/
theorem exists_next {v w : Int} (hw : s.Matches w) (hvw : v < w) :
    ∃ c, s.Matches c ∧ v < c ∧ ∀ u, s.Matches u → v < u → c ≤ u := by
  obtain ⟨c, ⟨hc, hvc⟩, hleast⟩ := Int.exists_least_of_bdd
    (P := fun u => s.Matches u ∧ v < u) ⟨v, fun u hu => Int.le_of_lt hu.2⟩ ⟨w, hw, hvw⟩
  exact ⟨c, hc, hvc, fun u hu hvu => hleast u ⟨hu, hvu⟩⟩

theorem resolveLocal_mul (w : Int) :
    z.resolveLocal (w * NANOS) = (z.ofLocal w).earliest.map (· * NANOS) := by
  unfold Zone.resolveLocal
  rw [CronSchedule.secs_mul]

/-- What a candidate's answer does to the loop. -/
theorem tries_succ {n : Nat} {cursor c : Int}
    (hnext : s.nextNaiveAfter cursor = .ok (some (c * NANOS))) :
    (∀ t, z.resolveLocal (c * NANOS) = some t → d < t →
      s.tries z d (n + 1) cursor = .ok (some t)) ∧
    (¬ z.After c d → s.tries z d (n + 1) cursor = s.tries z d n (c * NANOS)) := by
  constructor
  · intro t ht hlt
    unfold CronSchedule.tries
    rw [hnext]
    simp only [ht]
    exact if_pos hlt
  · intro hafter
    rw [CronSchedule.tries, hnext]
    simp only [resolveLocal_mul]
    cases hw : (z.ofLocal c).earliest with
    | none => rfl
    | some t =>
        simp only [Option.map_some]
        rw [if_neg]
        intro hlt
        exact hafter ⟨t, hw, hlt⟩

/-- The least match after `v` in seconds. -/
theorem isLeast_next {v c : Int} (hc : s.Matches c) (hvc : secs v < c)
    (hleast : ∀ u, s.Matches u → secs v < u → c ≤ u) :
    IsLeast (s.MatchesAfter v) c :=
  ⟨⟨hc, hvc⟩, fun u hu => hleast u hu.1 hu.2⟩

/-- Enough tries reach `w`, when no candidate before it counts. -/
theorem tries_finds (hfields : s.everySeconds = none) {n : Nat} {cursor w t : Int}
    (hw : s.Matches w) (hrange : InRange w) (hcursor : InRange (secs cursor))
    (hyear : year (dayOf w) ≤ year (dayOf (secs cursor)) + 8) (hlt : secs cursor < w)
    (ht : z.resolveLocal (w * NANOS) = some t) (hdt : d < t)
    (hcard : (s.between (secs cursor) w).card < n)
    (hnone : ∀ u ∈ s.between (secs cursor) w, ¬ z.After u d) :
    s.tries z d n cursor = .ok (some t) := by
  induction n generalizing cursor with
  | zero => omega
  | succ n ih =>
      obtain ⟨c, hc, hvc, hleast⟩ := exists_next hw hlt
      have hcw := hleast w hw hlt
      have hcrange := hcursor.between hrange (Int.le_of_lt hvc) hcw
      have hyc := year_mono (dayOf_mono hcw)
      have hnext := CronSchedule.nextNaiveAfter_finds hfields hcursor
        (isLeast_next hc hvc hleast) (by omega) hcrange
      obtain ⟨hfound, hskip⟩ := tries_succ (z := z) (d := d) (n := n) hnext
      rcases Int.lt_or_eq_of_le hcw with hcw | heq
      · rw [hskip (hnone c (mem_between.mpr ⟨⟨hvc, hcw⟩, hc⟩))]
        have hcount := between_succ hc hvc hcw hleast
        have hym := year_mono (dayOf_mono (Int.le_of_lt hvc))
        apply ih
        · rwa [CronSchedule.secs_mul]
        · rw [CronSchedule.secs_mul]
          omega
        · rwa [CronSchedule.secs_mul]
        · rw [CronSchedule.secs_mul]
          omega
        · rw [CronSchedule.secs_mul]
          intro u hu
          obtain ⟨⟨hcu, huw⟩, hu⟩ := mem_between.mp hu
          exact hnone u (mem_between.mpr ⟨⟨by omega, huw⟩, hu⟩)
      · subst heq
        exact hfound t ht hdt

/-- What the tries return was reached, with no candidate before it that
    counts. -/
theorem tries_found (hfields : s.everySeconds = none) {n : Nat} {cursor t : Int}
    (h : s.tries z d n cursor = .ok (some t)) :
    ∃ w, z.resolveLocal (w * NANOS) = some t ∧ secs cursor < w ∧
      (s.between (secs cursor) w).card < n ∧
      ∀ u ∈ s.between (secs cursor) w, ¬ z.After u d := by
  induction n generalizing cursor with
  | zero =>
      unfold CronSchedule.tries at h
      simp at h
  | succ n ih =>
      cases hnext : s.nextNaiveAfter cursor with
      | error p =>
          unfold CronSchedule.tries at h
          rw [hnext] at h
          contradiction
      | ok r =>
      cases r with
      | none =>
          unfold CronSchedule.tries at h
          rw [hnext] at h
          simp at h
      | some cand =>
          obtain ⟨c, rfl, ⟨hc, hvc⟩, hleast⟩ := CronSchedule.nextNaiveAfter_found hfields hnext
          have hleast : ∀ u, s.Matches u → secs cursor < u → c ≤ u :=
            fun u hu hvu => hleast ⟨hu, hvu⟩
          obtain ⟨hfound, hskip⟩ := tries_succ (z := z) (d := d) (n := n) hnext
          by_cases hafter : z.After c d
          · obtain ⟨t', ht', hlt⟩ := hafter
            have hres : z.resolveLocal (c * NANOS) = some (t' * NANOS) := by
              rw [resolveLocal_mul, ht']
              rfl
            rw [hfound _ hres hlt] at h
            have heq : t' * NANOS = t := Option.some.inj (Except.ok.inj h)
            have hempty : s.between (secs cursor) c = ∅ := by
              rw [Finset.eq_empty_iff_forall_notMem]
              intro u hu
              obtain ⟨⟨hvu, huc⟩, hu⟩ := mem_between.mp hu
              have := hleast u hu hvu
              omega
            refine ⟨c, by rw [hres, heq], hvc, ?_, ?_⟩
            · rw [hempty]
              exact Nat.succ_pos n
            · rw [hempty]
              intro u hu
              exact absurd hu (Finset.notMem_empty u)
          · rw [hskip hafter] at h
            obtain ⟨w, hw, hcw, hcard, hnone⟩ := ih h
            rw [CronSchedule.secs_mul] at hcw hcard hnone
            refine ⟨w, hw, by omega, ?_, fun u hu => ?_⟩
            · rw [between_succ hc hvc hcw hleast]
              omega
            · obtain ⟨⟨hvu, huw⟩, hu⟩ := mem_between.mp hu
              by_cases heq : u = c
              · rwa [heq]
              · have := hleast u hu hvu
                exact hnone u (mem_between.mpr ⟨⟨by omega, huw⟩, hu⟩)

end Tries

-- ============================================================================
-- The tick
-- ============================================================================

/-- An entry a tick finds due is given the next fire time of its schedule. -/
theorem tick_due {z : Zone} {now t : Int} {e e' : Entry H} {fired : Option H}
    (hdue : e.nextFire ≤ now) (hnext : e.schedule.nextAfter z now = .ok (some t))
    (h : e.tick z now = .ok (e', fired)) : e' = { e with nextFire := t } := by
  unfold Entry.tick at h
  rw [if_pos hdue, hnext] at h
  unfold CronSchedule.addDuration at h
  split at h
  · exact (congrArg Prod.fst (Except.ok.inj h)).symm
  · contradiction

/-- A tick treats every entry. -/
theorem tickAt_mem {z : Zone} {now : Int} {entries entries' : List (String × Entry H)}
    {fired : List H} (h : tickAt z now entries = .ok (entries', fired)) {id : String}
    {e : Entry H} (he : (id, e) ∈ entries) :
    ∃ e' f, e.tick z now = .ok (e', f) ∧ (id, e') ∈ entries' := by
  induction entries generalizing entries' fired with
  | nil => exact absurd he List.not_mem_nil
  | cons head rest ih =>
      obtain ⟨hid, hd⟩ := head
      unfold tickAt at h
      cases htick : hd.tick z now with
      | error p =>
          rw [htick] at h
          contradiction
      | ok r =>
      obtain ⟨e', f⟩ := r
      cases hrest : tickAt z now rest with
      | error p =>
          rw [htick, hrest] at h
          contradiction
      | ok r =>
      obtain ⟨rest', more⟩ := r
      rw [htick, hrest] at h
      have hentries : (hid, e') :: rest' = entries' := congrArg Prod.fst (Except.ok.inj h)
      rw [← hentries]
      rcases List.mem_cons.mp he with heq | he
      · obtain ⟨rfl, rfl⟩ := Prod.mk.inj heq
        exact ⟨e', f, htick, List.mem_cons_self⟩
      · obtain ⟨e₁, f₁, htick₁, hmem⟩ := ih hrest he
        exact ⟨e₁, f₁, htick₁, List.mem_cons_of_mem _ hmem⟩

-- ============================================================================
-- The first fire
-- ============================================================================

/-- The first of the instants due. -/
theorem exists_first {z : Zone} {s : CronSchedule} {d : Int} (h : ∃ t, Due z s d t) :
    ∃ t, IsLeast {t | Due z s d t} t := by
  obtain ⟨t, ht, hleast⟩ := Int.exists_least_of_bdd (P := Due z s d)
    ⟨d, fun t ht => Int.le_of_lt ht.1⟩ h
  exact ⟨t, ht, fun u hu => hleast u hu⟩

theorem naiveLocal_of_inRange {z : Zone} {d : Int} (h : InRange (z.clock d)) :
    ∃ n, z.naiveLocal d = .ok n ∧ secs n = z.clock d := by
  refine ⟨_, if_pos h, ?_⟩
  unfold Zone.clock secs NANOS
  omega

/-- Two wall-clock times of one instant are the same. -/
theorem resolveLocal_inj {z : Zone} {v w t : Int} (hv : z.resolveLocal (v * NANOS) = some t)
    (hw : z.resolveLocal (w * NANOS) = some t) : v = w := by
  rw [resolveLocal_mul, Option.map_eq_some_iff] at hv hw
  obtain ⟨t₁, hv, h₁⟩ := hv
  obtain ⟨t₂, hw, h₂⟩ := hw
  have heq : t₁ = t₂ := by
    unfold NANOS at h₁ h₂
    omega
  rw [← z.clock_earliest v t₁ hv, ← z.clock_earliest w t₂ hw, heq]

/-- The first fire is returned when its wall-clock time is reached. -/
theorem nextAfter_of_reached {z : Zone} {s : CronSchedule} {d t : Int}
    (hreach : Reached z s d) (ht : IsLeast {t | Due z s d t} t) :
    s.nextAfter z d = .ok (some t) := by
  obtain ⟨hlt, hdue⟩ := ht.1
  unfold CronSchedule.nextAfter
  cases hevery : s.everySeconds with
  | some every =>
      rw [hevery] at hdue
      obtain ⟨heq, hrange, hduration⟩ := hdue
      have hd : CronSchedule.durationSeconds every = .ok (every * NANOS) := if_pos hduration
      have ha : CronSchedule.addDuration (CronSchedule.base z d) (every * NANOS) = .ok t := by
        rw [heq] at hrange ⊢
        exact if_pos hrange
      simp only [hd, bind, Except.bind, ha]
      rfl
  | none =>
      rw [hevery] at hdue
      obtain ⟨w, hw, hrange, hyear, hres⟩ := hdue
      obtain ⟨hclock, hcw, hcard, hnone⟩ := hreach hevery w t ht hres
      obtain ⟨n, hn, hsecs⟩ := naiveLocal_of_inRange hclock
      rw [← hsecs] at hclock hcw hcard hnone hyear
      simp only [hn, bind, Except.bind]
      exact tries_finds hevery hw hrange hclock hyear hcw hres hlt (by omega) hnone

/-- Only a wall-clock time that is reached is returned. -/
theorem reached_of_nextAfter {z : Zone} {s : CronSchedule} {d t : Int}
    (hnext : s.nextAfter z d = .ok (some t)) (ht : IsLeast {t | Due z s d t} t) :
    Reached z s d := by
  intro hevery w t' ht' hres
  rw [ht'.unique ht] at hres
  unfold CronSchedule.nextAfter at hnext
  rw [hevery] at hnext
  by_cases hclock : InRange (z.clock d)
  · obtain ⟨n, hn, hsecs⟩ := naiveLocal_of_inRange hclock
    simp only [hn, bind, Except.bind] at hnext
    obtain ⟨v, hv, hlt, hcard, hnone⟩ := tries_found hevery hnext
    rw [resolveLocal_inj hv hres, hsecs] at *
    exact ⟨hclock, hlt, by omega, hnone⟩
  · unfold Zone.naiveLocal at hnext
    rw [if_neg hclock] at hnext
    contradiction

/-- The first instant of summer time in Berlin, 2026-03-29T01:00:00Z. -/
def summer : Int := atTime (monthStart 2026 3 + 28) 1 0 0

/-- Winter time before it and summer time after it: 02:00 to 03:00 is a gap. -/
def berlin : Zone where
  offset t := if t < summer then 3600 else 7200
  ofLocal w :=
    if w < summer + 3600 then .single (w - 3600)
    else if w < summer + 7200 then .none
    else .single (w - 7200)
  clock_earliest := by
    intro w t h
    split at h
    · have := Option.some.inj h
      split <;> omega
    · split at h
      · contradiction
      · have := Option.some.inj h
        split <;> omega

end GnDrive.Cron
