/-
  GnDrive.Cron.Ticks

  What one tick of the runner does: the handlers of the entries that are due are
  called once each, and every entry has its next fire time behind the clock.

  `Zone.Lawful` is what a time zone promises: the instants of the time that a clock
  shows include the one at which it shows it.
-/

import GnDrive.Cron.Runner

namespace GnDrive.Cron

open CronSchedule

def LocalResult.instants : LocalResult → List Int
  | none => []
  | single t => [t]
  | ambiguous earliest latest => [earliest, latest]

def Zone.Lawful (z : Zone) : Prop := ∀ t, t ∈ (z.ofLocal (t + z.offset t)).instants

-- ============================================================================
-- Fire times
-- ============================================================================

section

variable {z : Zone} {s : CronSchedule} {d t : Int}

theorem tries_gt {n : Nat} {cursor : Int} (h : s.tries z d n cursor = .ok (some t)) : d < t := by
  induction n generalizing cursor with
  | zero =>
    unfold tries at h
    simp at h
  | succ n ih =>
    rw [tries] at h
    cases hnext : s.nextNaiveAfter cursor with
    | error p =>
      rw [hnext] at h
      cases h
    | ok r =>
      cases r with
      | none =>
        rw [hnext] at h
        simp at h
      | some cand =>
        rw [hnext] at h
        cases hres : z.resolveLocal cand with
        | none =>
          simp only [hres] at h
          exact ih h
        | some dt =>
          simp only [hres] at h
          by_cases hgt : dt > d
          · rw [if_pos hgt] at h
            obtain rfl := Option.some.inj (Except.ok.inj h)
            exact hgt
          · rw [if_neg hgt] at h
            exact ih h

/-- An interval starts within the second of the given time. -/
theorem base_gt (hz : z.Lawful) (d : Int) : d - NANOS < base z d := by
  unfold base Zone.withNanosecondZero
  have hlawful := hz (secs d)
  have hclock : z.clock d = secs d + z.offset (secs d) := rfl
  rw [hclock]
  cases hlocal : z.ofLocal (secs d + z.offset (secs d)) with
  | single u =>
    rw [hlocal] at hlawful
    obtain rfl := List.mem_singleton.mp hlawful
    by_cases hin : InRange (secs d)
    · simp [LocalResult.unique, Option.filter_some, hin]
      unfold secs NANOS
      omega
    · simp [LocalResult.unique, Option.filter_some, hin]
      unfold NANOS
      omega
  | none => simp [LocalResult.unique, NANOS]
  | ambiguous e l => simp [LocalResult.unique, NANOS]

theorem nextAfter_gt (hz : z.Lawful) (h : s.nextAfter z d = .ok (some t)) : d < t := by
  unfold nextAfter at h
  cases hevery : s.everySeconds with
  | some every =>
    have hpos := s.every_pos every hevery
    have hbase := base_gt hz d
    unfold durationSeconds addDuration at h
    simp only [hevery] at h
    by_cases hfits : every.natAbs ≤ (2 ^ 63 - 1) / 1000
    · by_cases hin : InRange (secs (base z d + every * NANOS))
      · simp only [if_pos hfits, if_pos hin, bind, Except.bind, pure, Except.pure] at h
        have heq := Option.some.inj (Except.ok.inj h)
        unfold NANOS at heq hbase
        omega
      · simp only [if_pos hfits, if_neg hin, bind, Except.bind] at h
        cases h
    · simp only [if_neg hfits, bind, Except.bind] at h
      cases h
  | none =>
    simp only [hevery] at h
    cases hlocal : z.naiveLocal d with
    | error p =>
      rw [hlocal] at h
      cases h
    | ok n =>
      rw [hlocal] at h
      exact tries_gt h

end

-- ============================================================================
-- One tick
-- ============================================================================

section

variable {z : Zone} {now : Int} {H : Type}

theorem tick_spec (hz : z.Lawful) {e e' : Entry H} {f : Option H}
    (h : e.tick z now = .ok (e', f)) :
    now < e'.nextFire ∧ f = if e.nextFire ≤ now then some e.handler else none := by
  unfold Entry.tick at h
  by_cases hdue : e.nextFire ≤ now
  · rw [if_pos hdue] at h ⊢
    cases hnext : e.schedule.nextAfter z now with
    | error p =>
      rw [hnext] at h
      cases h
    | ok next =>
      unfold addDuration at h
      by_cases hin : InRange (secs (now + 36500 * 86400 * NANOS))
      · simp only [hnext, if_pos hin, bind, Except.bind, pure, Except.pure] at h
        obtain ⟨rfl, rfl⟩ := Prod.mk.inj (Except.ok.inj h)
        refine ⟨?_, rfl⟩
        cases next with
        | some t => exact nextAfter_gt hz hnext
        | none =>
          show now < now + 36500 * 86400 * NANOS
          unfold NANOS
          omega
      · simp only [hnext, if_neg hin, bind, Except.bind] at h
        cases h
  · rw [if_neg hdue] at h ⊢
    obtain ⟨rfl, rfl⟩ := Prod.mk.inj (Except.ok.inj h)
    exact ⟨Int.not_le.mp hdue, rfl⟩

/-- The handlers of the entries that are due are collected, in the order of the map. -/
theorem tickAt_spec (hz : z.Lawful) {entries entries' : List (String × Entry H)} {fired : List H}
    (h : tickAt z now entries = .ok (entries', fired)) :
    (∀ p ∈ entries', now < p.2.nextFire) ∧
      fired = (entries.filter (·.2.nextFire ≤ now)).map (·.2.handler) := by
  induction entries generalizing entries' fired with
  | nil =>
    obtain ⟨rfl, rfl⟩ := Prod.mk.inj (Except.ok.inj h)
    exact ⟨fun p hp => (by cases hp), rfl⟩
  | cons p rest ih =>
    obtain ⟨id, e⟩ := p
    rw [tickAt] at h
    cases htick : e.tick z now with
    | error p =>
      rw [htick] at h
      cases h
    | ok r =>
      obtain ⟨e', f⟩ := r
      cases hrest : tickAt z now rest with
      | error p =>
        rw [htick, hrest] at h
        cases h
      | ok q =>
        obtain ⟨rest', more⟩ := q
        rw [htick, hrest] at h
        obtain ⟨rfl, rfl⟩ := Prod.mk.inj (Except.ok.inj h)
        obtain ⟨hlater, hfired⟩ := tick_spec hz htick
        obtain ⟨hall, hmore⟩ := ih hrest
        refine ⟨fun p hp => ?_, ?_⟩
        · rcases List.mem_cons.mp hp with rfl | hp
          · exact hlater
          · exact hall p hp
        · rw [hfired, hmore, List.filter_cons]
          by_cases hdue : e.nextFire ≤ now
          · simp [hdue]
          · simp [hdue]

end

-- ============================================================================
-- The calls of a tick
-- ============================================================================

namespace Runner

variable {z : Zone} {s s' t : Runner} {a : RunnerAct} {as : List RunnerAct}

/-- The handlers that a run begins to call, in order. -/
def callsAlong (z : Zone) : Runner → List RunnerAct → List Nat
  | _, [] => []
  | s, a :: as =>
      (s.calls a).toList ++
        match s.step z a with
        | some s' => callsAlong z s' as
        | none => []

/-- The tick thread goes through what it has collected. -/
def callsOnly : RunnerAct → Bool
  | .call _ => true
  | .finish => true
  | _ => false

/-- Each registration has a handler of its own. -/
structure Fresh (s : Runner) : Prop where
  distinct : s.handlers.Nodup
  below : ∀ h ∈ s.handlers, h < s.registered

theorem Fresh.remove (h : s.Fresh) (id : String) : (s.remove id).Fresh where
  distinct := h.distinct.sublist (List.filter_sublist.map _)
  below x hx := by
    obtain ⟨p, hp, rfl⟩ := List.mem_map.mp hx
    exact h.below _ (List.mem_map.mpr ⟨p, (List.mem_filter.mp hp).1, rfl⟩)

theorem Fresh.insert (h : s.Fresh) (id : String) (schedule : CronSchedule) (next : Int) :
    (s.insert id schedule next).Fresh := by
  have hr := h.remove id
  have hhandlers : (s.insert id schedule next).handlers =
      (s.remove id).handlers ++ [s.registered] := by
    simp [Runner.insert, handlers, Runner.remove]
  refine ⟨?_, fun x hx => ?_⟩
  · rw [hhandlers, List.nodup_append_comm]
    exact List.nodup_cons.mpr ⟨fun hmem => absurd (hr.below _ hmem) (Nat.lt_irrefl _), hr.distinct⟩
  · rw [hhandlers] at hx
    rcases List.mem_append.mp hx with hold | hnew
    · exact Nat.lt_succ_of_lt (hr.below x hold)
    · obtain rfl := List.mem_singleton.mp hnew
      exact Nat.lt_succ_self _

theorem Fresh.step (h : s.Fresh) (hs : s.step z a = some s') : s'.Fresh := by
  cases a with
  | tick now =>
    simp only [Runner.step] at hs
    split at hs
    · split at hs
      · rename_i entries fired htick
        obtain rfl := Option.some.inj hs
        have hhandlers : Runner.handlers { s with entries, fired } = s.handlers :=
          (tickAt_handlers htick).1
        exact ⟨hhandlers ▸ h.distinct, fun x hx => h.below x (hhandlers ▸ hx)⟩
      · cases hs
    · cases hs
  | call i =>
    simp only [Runner.step] at hs
    split at hs
    · obtain rfl := Option.some.inj hs
      exact ⟨h.distinct, h.below⟩
    · cases hs
  | finish =>
    simp only [Runner.step] at hs
    split at hs
    · obtain rfl := Option.some.inj hs
      exact ⟨h.distinct, h.below⟩
    · cases hs
  | add id schedule now =>
    simp only [Runner.step] at hs
    split at hs
    · obtain rfl := Option.some.inj hs
      exact h.insert id schedule _
    · obtain rfl := Option.some.inj hs
      exact h
    · cases hs
  | remove id =>
    obtain rfl := Option.some.inj hs
    exact h.remove id

theorem fresh_of_reachable (h : (runnerSystem z).Reachable s) : s.Fresh := by
  refine h.invariant ?_ fun _ _ _ hp hs => hp.step hs
  rintro _ rfl
  exact ⟨List.nodup_nil, by simp [Runner.handlers, Runner.initial]⟩

/-- Step lemma: a call takes one of the collected handlers. -/
theorem step_calls (ha : callsOnly a = true) (hs : s.step z a = some s') :
    s'.entries = s.entries ∧ ((s.calls a).toList ++ s'.fired).Perm s.fired := by
  cases a with
  | call i =>
    simp only [Runner.step] at hs
    split at hs
    · rename_i h hcalling hi
      obtain rfl := Option.some.inj hs
      refine ⟨rfl, ?_⟩
      obtain ⟨hlt, rfl⟩ := List.getElem?_eq_some_iff.mp hi
      simp only [Runner.calls, hi, Option.toList_some, List.singleton_append]
      exact List.getElem_cons_eraseIdx_perm hlt
    · cases hs
  | finish =>
    simp only [Runner.step] at hs
    split at hs
    · obtain rfl := Option.some.inj hs
      exact ⟨rfl, List.Perm.refl _⟩
    · cases hs
  | tick now => cases ha
  | add id schedule now => cases ha
  | remove id => cases ha

/-- Run lemma: what was collected is called, and what is left is still to be called. -/
theorem run_calls (has : ∀ a ∈ as, callsOnly a = true)
    (hrun : (runnerSystem z).runFrom s as = some t) :
    t.entries = s.entries ∧ (callsAlong z s as ++ t.fired).Perm s.fired := by
  induction as generalizing s with
  | nil =>
    obtain rfl := Option.some.inj hrun
    exact ⟨rfl, List.Perm.refl _⟩
  | cons a as ih =>
    rw [System.runFrom_cons] at hrun
    obtain ⟨s', hs', hrun⟩ := Option.bind_eq_some_iff.mp hrun
    have hstep : s.step z a = some s' := hs'
    obtain ⟨hentries, hperm⟩ := step_calls (has a List.mem_cons_self) hstep
    obtain ⟨hrest, hcalls⟩ := ih (fun b hb => has b (List.mem_cons_of_mem _ hb)) hrun
    refine ⟨hrest.trans hentries, ?_⟩
    simp only [callsAlong, hstep]
    rw [List.append_assoc]
    exact (hcalls.append_left _).trans hperm

end Runner

/-- Once a tick has called everything that it collected, each entry has its next fire
    time behind the clock, and the handlers called are those of the entries that were
    due, each once. -/
theorem tick_fires (z : Zone) (hz : z.Lawful) {s s' t : Runner} {now : Int} {as : List RunnerAct}
    (hreach : (runnerSystem z).Reachable s) (htick : s.step z (.tick now) = some s')
    (has : ∀ a ∈ as, Runner.callsOnly a = true) (hrun : (runnerSystem z).runFrom s' as = some t)
    (hdone : t.fired = []) :
    (∀ p ∈ t.entries, now < p.2.nextFire) ∧ (Runner.callsAlong z s' as).Nodup ∧
      (∀ h ∈ Runner.callsAlong z s' as, ∃ p ∈ s.entries, p.2.handler = h) ∧
      ∀ p ∈ s.entries, p.2.handler ∈ Runner.callsAlong z s' as ↔ p.2.nextFire ≤ now := by
  have hfresh := Runner.fresh_of_reachable hreach
  obtain ⟨hentries, hperm⟩ := Runner.run_calls has hrun
  rw [hdone, List.append_nil] at hperm
  simp only [Runner.step] at htick
  split at htick
  · split at htick
    · rename_i entries fired hcollect
      obtain rfl := Option.some.inj htick
      obtain ⟨hlater, hfired⟩ := tickAt_spec hz hcollect
      rw [hentries]
      have hmem : ∀ h, h ∈ Runner.callsAlong z { s with entries, fired } as ↔
          ∃ p ∈ s.entries, p.2.nextFire ≤ now ∧ p.2.handler = h := by
        intro h
        rw [hperm.mem_iff]
        show h ∈ fired ↔ _
        rw [hfired]
        simp [and_assoc]
      refine ⟨hlater, ?_, fun h hh => ?_, fun p hp => ?_⟩
      · refine hperm.nodup_iff.mpr ?_
        show fired.Nodup
        rw [hfired]
        exact hfresh.distinct.sublist (List.filter_sublist.map _)
      · obtain ⟨p, hp, -, heq⟩ := (hmem h).mp hh
        exact ⟨p, hp, heq⟩
      · rw [hmem]
        constructor
        · rintro ⟨q, hq, hdue, heq⟩
          obtain rfl := List.inj_on_of_nodup_map hfresh.distinct hq hp heq
          exact hdue
        · exact fun hdue => ⟨p, hp, hdue, rfl⟩
    · cases htick
  · cases htick

theorem utc_lawful : utc.Lawful := by
  intro t
  show t ∈ [t + 0]
  rw [Int.add_zero]
  exact List.mem_singleton.mpr rfl

/-- Two entries a second apart, and a tick at which only one of them is due. -/
theorem tick_fires_one : ∃ s s' t, (runnerSystem utc).Reachable s ∧ s.entries.length = 2 ∧
    s.step utc (.tick (5 * NANOS)) = some s' ∧
    (runnerSystem utc).runFrom s' [.call 0, .finish] = some t ∧ t.fired = [] ∧
    (∀ p ∈ t.entries, 5 * NANOS < p.2.nextFire) ∧
    ∀ p ∈ s.entries, p.2.handler ∈ Runner.callsAlong utc s' [.call 0, .finish] ↔
      p.2.nextFire ≤ 5 * NANOS := by
  have hrun : ((runnerSystem utc).runFrom .initial
      [.add "a" (everySchedule 1) 0, .add "b" (everySchedule 9) 0]).any (fun s =>
        s.entries.length == 2 && (s.step utc (.tick (5 * NANOS))).any fun s' =>
          ((runnerSystem utc).runFrom s' [.call 0, .finish]).any fun t => t.fired == []) = true := by
    decide +kernel
  obtain ⟨s, hs, hend⟩ := (Option.any_eq_true _ _).mp hrun
  simp only [Bool.and_eq_true, beq_iff_eq] at hend
  obtain ⟨hlen, hend⟩ := hend
  obtain ⟨s', hs', hend⟩ := (Option.any_eq_true _ _).mp hend
  obtain ⟨t, ht, hdone⟩ := (Option.any_eq_true _ _).mp hend
  have hreach := System.runFrom_reachable (.init rfl) hs
  have hdone := beq_iff_eq.mp hdone
  have hspec := tick_fires utc utc_lawful hreach hs' (by decide) ht hdone
  exact ⟨s, s', t, hreach, hlen, hs', ht, hdone, hspec.1, hspec.2.2.2⟩

end GnDrive.Cron
