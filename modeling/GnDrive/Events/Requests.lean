/-
  GnDrive.Events.Requests

  Requests for a snapshot of the runtime.

  A request that is pending always has a due time, and a snapshot follows every request
  (`snapshot_requests`).  An immediate request sets the due time only where none is
  scheduled: it does not pull forward what a throttled request has put off.
-/

import GnDrive.Events.Coalescing

namespace GnDrive.Events

def bridgeSystem (T : BridgeTimings) (level : LogLevel) : System Bridge BridgeAct where
  init b := b = .new T level
  step b
    | .bus m => some (b.onBusEvent T m)
    | .other a => some (b.step T a)

/-- The due time of the snapshot has come. -/
def Bridge.DueNow (b : Bridge) : Prop := b.due b.timers.runtimeDue = true

/-- An immediate request leaves a due time that has come. -/
def Prompt (T : BridgeTimings) (b : Bridge) : BridgeAct → Prop
  | .other (.request true) => (b.step T (.request true)).DueNow
  | _ => True

/-- An immediate request finds no snapshot put off. -/
def FindsNoneLater (b : Bridge) : BridgeAct → Prop
  | .other (.request true) => b.timers.runtimeScheduled = true → b.DueNow
  | _ => True

/-- What holds of the three variables in every state. -/
structure Bridge.Wakes (b : Bridge) : Prop where
  scheduled : b.timers.runtimeScheduled = b.timers.runtimePending
  due : b.timers.runtimeDue.isSome = b.timers.runtimePending

section

variable {T : BridgeTimings} {level : LogLevel} {b b' : Bridge} {a : BridgeAct} {d : Nat}

-- ============================================================================
-- One step
-- ============================================================================

structure Bridge.SameRequests (b b' : Bridge) : Prop where
  pending : b'.timers.runtimePending = b.timers.runtimePending
  scheduled : b'.timers.runtimeScheduled = b.timers.runtimeScheduled
  due : b'.timers.runtimeDue = b.timers.runtimeDue

theorem Bridge.SameRequests.refl (b : Bridge) : b.SameRequests b := ⟨rfl, rfl, rfl⟩

theorem Bridge.SameRequests.of_timers (h : b'.timers = b.timers) : b.SameRequests b' := by
  refine ⟨?_, ?_, ?_⟩ <;> rw [h]

theorem sameRequests_enqueueEvent (b : Bridge) (f : Frame) (droppable : Bool) (pc : TimerPc) :
    b.SameRequests { b.enqueueEvent f droppable with timer := pc } := by
  unfold Bridge.enqueueEvent
  split
  · exact ⟨rfl, rfl, rfl⟩
  · exact ⟨rfl, rfl, rfl⟩

/-- The timer thread changes them in one place. -/
theorem timerStep_sameRequests {snap : Snapshot} (hpc : ∀ h, b.timer ≠ .runtime true h) :
    b.SameRequests (b.timerStep T snap) := by
  unfold Bridge.timerStep
  cases hb : b.timer with
  | waiting =>
    dsimp only
    split
    · exact ⟨rfl, rfl, rfl⟩
    · split
      · exact ⟨rfl, rfl, rfl⟩
      · exact ⟨rfl, rfl, rfl⟩
  | progress run runtime heartbeat =>
    cases run with
    | true => exact ⟨rfl, rfl, rfl⟩
    | false => exact ⟨rfl, rfl, rfl⟩
  | flushing keys batch runtime heartbeat =>
    cases keys with
    | nil => exact ⟨rfl, rfl, rfl⟩
    | cons key keys =>
      dsimp only
      split
      · exact sameRequests_enqueueEvent b _ _ _
      · exact ⟨rfl, rfl, rfl⟩
  | runtime run heartbeat =>
    cases run with
    | true => exact absurd hb (hpc heartbeat)
    | false => exact ⟨rfl, rfl, rfl⟩
  | snapshot heartbeat => exact sameRequests_enqueueEvent b _ _ _
  | heartbeat run =>
    cases run with
    | true =>
      dsimp only
      split
      · exact sameRequests_enqueueEvent b _ _ _
      · exact ⟨rfl, rfl, rfl⟩
    | false => exact ⟨rfl, rfl, rfl⟩
  | stopped => exact ⟨rfl, rfl, rfl⟩

/-- Where it does, the pending request is taken up. -/
theorem timerStep_flush (T : BridgeTimings) (snap : Snapshot) {h : Bool} (hpc : b.timer = .runtime true h) :
    (b.timerStep T snap).timers.runtimePending = false ∧
      (b.timerStep T snap).timers.runtimeScheduled = false ∧
      (b.timerStep T snap).timers.runtimeDue = none ∧
      (b.timers.runtimePending = true → (b.timerStep T snap).timer = .snapshot h) := by
  unfold Bridge.timerStep
  rw [hpc]
  dsimp only
  split
  · exact ⟨rfl, rfl, rfl, fun _ => rfl⟩
  · rename_i hpending
    exact ⟨Bool.eq_false_iff.mpr hpending, rfl, rfl, fun h => absurd h hpending⟩

theorem onBusEvent_sameRequests {m : Message} : b.SameRequests (b.onBusEvent T m) := by
  unfold Bridge.onBusEvent
  split
  · exact ⟨rfl, rfl, rfl⟩
  · exact .refl b
  · exact .of_timers (Bridge.enqueueEvent_timers _ _ _)

theorem request_of_scheduled {immediate : Bool} (h : b.timers.runtimeScheduled = true) :
    b.requestRuntimeSnapshot T immediate =
      { b with timers := { b.timers with runtimePending := true } } := by
  unfold Bridge.requestRuntimeSnapshot
  dsimp only
  rw [if_pos h]

theorem request_of_unscheduled (T : BridgeTimings) (immediate : Bool)
    (h : b.timers.runtimeScheduled = false) :
    ∃ delay, (immediate = true → delay = 0) ∧
      b.requestRuntimeSnapshot T immediate =
        { b with timers := { b.timers with
            runtimePending := true
            runtimeScheduled := true
            runtimeDue := some (b.clock + delay) } } := by
  unfold Bridge.requestRuntimeSnapshot
  dsimp only
  rw [if_neg (by rw [h]; exact Bool.false_ne_true)]
  refine ⟨_, fun himmediate => ?_, rfl⟩
  rw [if_pos himmediate]

theorem step_sameRequests {a : Bridge.Act} (hrequest : ∀ immediate, a ≠ .request immediate)
    (hpc : ∀ snap h, a = .timer snap → b.timer ≠ .runtime true h) :
    b.SameRequests (b.step T a) := by
  cases a with
  | timer snap => exact timerStep_sameRequests fun h => hpc snap h rfl
  | request immediate => exact absurd rfl (hrequest immediate)
  | log record =>
    show b.SameRequests (b.onLogRecord record)
    unfold Bridge.onLogRecord
    split
    · exact .refl b
    · exact .of_timers (Bridge.enqueueEvent_timers _ _ _)
  | push name data => exact .of_timers (Bridge.enqueueEvent_timers _ _ _)
  | subscribe =>
    show b.SameRequests b.subscribe
    unfold Bridge.subscribe
    split
    · exact .refl b
    · exact ⟨rfl, rfl, rfl⟩
  | recv i => exact ⟨rfl, rfl, rfl⟩
  | pass ms => exact ⟨rfl, rfl, rfl⟩
  | shutdown =>
    show b.SameRequests b.shutdown
    unfold Bridge.shutdown
    split
    · exact .refl b
    · exact ⟨rfl, rfl, rfl⟩

-- ============================================================================
-- A pending request has a due time
-- ============================================================================

theorem Bridge.Wakes.same (h : b.Wakes) (hb : b.SameRequests b') : b'.Wakes where
  scheduled := by rw [hb.scheduled, hb.pending, h.scheduled]
  due := by rw [hb.due, hb.pending, h.due]

theorem Bridge.Wakes.request (h : b.Wakes) (immediate : Bool) :
    (b.requestRuntimeSnapshot T immediate).Wakes := by
  cases hscheduled : b.timers.runtimeScheduled with
  | true =>
    rw [request_of_scheduled hscheduled]
    exact ⟨hscheduled, h.due.trans (h.scheduled.symm.trans hscheduled)⟩
  | false =>
    obtain ⟨delay, -, hb⟩ := request_of_unscheduled T immediate hscheduled
    rw [hb]
    exact ⟨rfl, rfl⟩

theorem Bridge.Wakes.step (h : b.Wakes) (hs : (bridgeSystem T level).step b a = some b') :
    b'.Wakes := by
  cases a with
  | bus m =>
    obtain rfl := Option.some.inj hs
    exact h.same onBusEvent_sameRequests
  | other a =>
    obtain rfl := Option.some.inj hs
    by_cases hrequest : ∃ immediate, a = .request immediate
    · obtain ⟨immediate, rfl⟩ := hrequest
      exact h.request immediate
    by_cases hflush : ∃ snap h, a = .timer snap ∧ b.timer = .runtime true h
    · obtain ⟨snap, _, rfl, hpc⟩ := hflush
      obtain ⟨hpending, hscheduled, hdue, -⟩ := timerStep_flush T snap hpc
      show (b.timerStep T snap).Wakes
      refine ⟨?_, ?_⟩
      · rw [hscheduled, hpending]
      · rw [hdue, hpending]
        rfl
    · exact h.same (step_sameRequests (fun immediate heq => hrequest ⟨immediate, heq⟩)
        fun snap h heq hpc => hflush ⟨snap, h, heq, hpc⟩)

theorem wakes_of_reachableIf {ok : Bridge → BridgeAct → Prop}
    (h : (bridgeSystem T level).ReachableIf ok b) : b.Wakes := by
  refine System.ReachableIf.invariant (fun b hb => ?_) (fun b a b' hb _ hs => hb.step hs) h
  obtain rfl : b = _ := hb
  exact ⟨rfl, rfl⟩

-- ============================================================================
-- A snapshot follows every request
-- ============================================================================

/-- The request that is pending is due at `d`. -/
def Bridge.Pending (d : Nat) (b : Bridge) : Prop :=
  b.timers.runtimePending = true ∧ b.timers.runtimeDue = some d

/-- The timer thread is about to take a snapshot. -/
def Bridge.Taking (b : Bridge) : Prop := ∃ h, b.timer = .snapshot h

/-- A pending request stays as it is until it is taken up. -/
theorem Bridge.Pending.step (hwakes : b.Wakes) (h : b.Pending d)
    (hs : (bridgeSystem T level).step b a = some b') :
    b'.Pending d ∨ b'.Taking ∧ ∃ snap, a = .other (.timer snap) := by
  cases a with
  | bus m =>
    obtain rfl := Option.some.inj hs
    have hsame := onBusEvent_sameRequests (b := b) (T := T) (m := m)
    exact .inl ⟨hsame.pending.trans h.1, hsame.due.trans h.2⟩
  | other a =>
    obtain rfl := Option.some.inj hs
    by_cases hrequest : ∃ immediate, a = .request immediate
    · obtain ⟨immediate, rfl⟩ := hrequest
      refine .inl ?_
      show (b.requestRuntimeSnapshot T immediate).Pending d
      rw [request_of_scheduled (hwakes.scheduled.trans h.1)]
      exact ⟨rfl, h.2⟩
    by_cases hflush : ∃ snap h, a = .timer snap ∧ b.timer = .runtime true h
    · obtain ⟨snap, hb, rfl, hpc⟩ := hflush
      exact .inr ⟨⟨hb, (timerStep_flush T snap hpc).2.2.2 h.1⟩, snap, rfl⟩
    · have hsame := step_sameRequests (b := b) (T := T)
        (fun immediate heq => hrequest ⟨immediate, heq⟩)
        fun snap h heq hpc => hflush ⟨snap, h, heq, hpc⟩
      exact .inl ⟨hsame.pending.trans h.1, hsame.due.trans h.2⟩

/-- Nobody has shut the bridge down. -/
structure Bridge.Runs (b : Bridge) : Prop where
  stopping : b.stopping = false
  timer : b.timer ≠ .stopped

def NoShutdown (_ : Bridge) (a : BridgeAct) : Prop := a ≠ .other .shutdown

def BridgeAct.IsTimer (a : BridgeAct) : Prop := ∃ snap, a = .other (.timer snap)

/-- Only the timer thread moves the timer thread. -/
theorem timer_of_other (hs : (bridgeSystem T level).step b a = some b') (ha : ¬ a.IsTimer) :
    b'.timer = b.timer := by
  cases a with
  | bus m =>
    obtain rfl := Option.some.inj hs
    unfold Bridge.onBusEvent
    split
    · rfl
    · rfl
    · exact Bridge.enqueueEvent_timer _ _ _
  | other a =>
    obtain rfl := Option.some.inj hs
    exact (step_apart fun snap heq => ha ⟨snap, heq ▸ rfl⟩).timer

theorem timerStep_runs {snap : Snapshot} (h : b.Runs) : (b.timerStep T snap).timer ≠ .stopped := by
  have hstop := h.stopping
  unfold Bridge.timerStep
  cases hb : b.timer with
  | waiting =>
    dsimp only
    rw [if_neg (by rw [hstop]; exact Bool.false_ne_true)]
    split
    · exact TimerPc.noConfusion
    · rw [hb]
      exact TimerPc.noConfusion
  | progress run runtime heartbeat => cases run <;> exact TimerPc.noConfusion
  | flushing keys batch runtime heartbeat =>
    cases keys with
    | nil => exact TimerPc.noConfusion
    | cons key keys =>
      dsimp only
      split
      · exact TimerPc.noConfusion
      · exact TimerPc.noConfusion
  | runtime run heartbeat =>
    cases run with
    | true =>
      dsimp only
      split
      · exact TimerPc.noConfusion
      · exact TimerPc.noConfusion
    | false => exact TimerPc.noConfusion
  | snapshot heartbeat => exact TimerPc.noConfusion
  | heartbeat run =>
    cases run with
    | true =>
      dsimp only
      split
      · exact TimerPc.noConfusion
      · exact TimerPc.noConfusion
    | false => exact TimerPc.noConfusion
  | stopped => exact absurd hb h.timer

theorem Bridge.Runs.step (h : b.Runs) (hok : NoShutdown b a)
    (hs : (bridgeSystem T level).step b a = some b') : b'.Runs := by
  have hstopping : b'.stopping = false := by
    cases a with
    | bus m =>
      obtain rfl := Option.some.inj hs
      exact Bridge.onBusEvent_stopping.trans h.stopping
    | other a =>
      obtain rfl := Option.some.inj hs
      exact (Bridge.step_stopping fun heq => hok (heq ▸ rfl)).trans h.stopping
  refine ⟨hstopping, ?_⟩
  by_cases ha : a.IsTimer
  · obtain ⟨snap, rfl⟩ := ha
    obtain rfl := Option.some.inj hs
    exact timerStep_runs h
  · rw [timer_of_other hs ha]
    exact h.timer

theorem runs_of_reachableIf (h : (bridgeSystem T level).ReachableIf NoShutdown b) : b.Runs := by
  refine System.ReachableIf.invariant (fun b hb => ?_)
    (fun b a b' hb hok hs => hb.step hok hs) h
  obtain rfl : b = _ := hb
  exact ⟨rfl, TimerPc.noConfusion⟩

theorem step_clock (hs : (bridgeSystem T level).step b a = some b') : b.clock ≤ b'.clock := by
  have henqueue : ∀ f droppable, b.clock ≤ (b.enqueueEvent f droppable).clock := by
    intro f droppable
    unfold Bridge.enqueueEvent
    split <;> exact Nat.le_refl _
  cases a with
  | bus m =>
    obtain rfl := Option.some.inj hs
    unfold Bridge.onBusEvent
    split
    · exact Nat.le_refl _
    · exact Nat.le_refl _
    · exact henqueue _ _
  | other a =>
    obtain rfl := Option.some.inj hs
    cases a with
    | timer snap =>
      show b.clock ≤ (b.timerStep T snap).clock
      rcases Bridge.timerStep_cases (T := T) b snap with ⟨t, pc, hb⟩ | ⟨f, pc, hb⟩
      · exact Nat.le_of_eq (by rw [hb])
      · rw [hb]
        exact henqueue f false
    | request immediate =>
      show b.clock ≤ (b.requestRuntimeSnapshot T immediate).clock
      unfold Bridge.requestRuntimeSnapshot
      dsimp only
      by_cases hscheduled : b.timers.runtimeScheduled = true
      · exact Nat.le_of_eq (by rw [if_pos hscheduled])
      · exact Nat.le_of_eq (by rw [if_neg hscheduled])
    | log record =>
      show b.clock ≤ (b.onLogRecord record).clock
      unfold Bridge.onLogRecord
      split
      · exact Nat.le_refl _
      · exact henqueue _ _
    | push name data => exact henqueue _ _
    | subscribe =>
      show b.clock ≤ b.subscribe.clock
      unfold Bridge.subscribe
      split <;> exact Nat.le_refl _
    | recv i => exact Nat.le_refl _
    | pass ms => exact Nat.le_add_right _ _
    | shutdown =>
      show b.clock ≤ b.shutdown.clock
      unfold Bridge.shutdown
      split <;> exact Nat.le_refl _

/-! ## The way of the timer thread to the snapshot -/

section

variable {x : (bridgeSystem T level).Execution NoShutdown} {n : Nat} {pc : TimerPc}

/-- A pending request whose time has come, and where the timer thread is. -/
structure Bridge.Ready (d : Nat) (pc : TimerPc) (b : Bridge) : Prop where
  pending : b.Pending d
  due : d ≤ b.clock
  timer : b.timer = pc

/-- The timer thread comes to a snapshot. -/
def Takes (x : (bridgeSystem T level).Execution NoShutdown) (n : Nat) : Prop :=
  ∃ m, n ≤ m ∧ (x.state m).Taking

/-- The timer thread goes on from where it is. -/
theorem takes_of_turn {Q : TimerPc → Prop} (hfair : x.Fair BridgeAct.IsTimer)
    (hstep : ∀ (b : Bridge) snap, b.Ready d pc → b.Runs → Q (b.timerStep T snap).timer)
    (hnext : ∀ m pc', Q pc' → (x.state m).Ready d pc' → Takes x m)
    (h : (x.state n).Ready d pc) : Takes x n := by
  obtain ⟨m, hnm, ⟨snap, hsnap⟩, hm⟩ := x.turn_comes (P := Bridge.Ready d pc) hfair
    (fun b a b' hb hready ha _ hs =>
      ⟨(hready.pending.step (wakes_of_reachableIf hb) hs).resolve_right fun ht => ha ht.2,
        Nat.le_trans hready.due (step_clock hs), (timer_of_other hs ha).trans hready.timer⟩) h
  have hs := x.next m
  rcases hm.pending.step (wakes_of_reachableIf (x.reachable m)) hs with hpending | ⟨htaking, -⟩
  · have hstate : x.state (m + 1) = (x.state m).timerStep T snap := by
      rw [hsnap] at hs
      exact (Option.some.inj hs).symm
    have hQ := hstep _ snap hm (runs_of_reachableIf (x.reachable m))
    rw [← hstate] at hQ
    obtain ⟨k, hk, htaking⟩ := hnext (m + 1) _ hQ
      ⟨hpending, Nat.le_trans hm.due (step_clock hs), rfl⟩
    exact ⟨k, by omega, htaking⟩
  · exact ⟨m + 1, by omega, htaking⟩

theorem takes_of_runtime_true {h : Bool} (hfair : x.Fair BridgeAct.IsTimer)
    (hready : (x.state n).Ready d (.runtime true h)) : Takes x n := by
  refine takes_of_turn (Q := fun pc => pc = .snapshot h) hfair ?_ ?_ hready
  · intro b snap hb _
    exact (timerStep_flush T _ hb.timer).2.2.2 hb.pending.1
  · intro m pc' hpc hm
    exact ⟨m, Nat.le_refl m, h, hm.timer.trans hpc⟩

/-- The keys of a flush: the induction is on those that are left. -/
theorem takes_of_flushing {keys : List Key} {batch : Key → Option Message} {r h : Bool}
    (hfair : x.Fair BridgeAct.IsTimer)
    (hruntime : ∀ m, (x.state m).Ready d (.runtime r h) → Takes x m)
    (hready : (x.state n).Ready d (.flushing keys batch r h)) : Takes x n := by
  induction keys generalizing n batch with
  | nil =>
    refine takes_of_turn (Q := fun pc => pc = .runtime r h) hfair ?_ ?_ hready
    · intro b snap hb _
      unfold Bridge.timerStep
      rw [hb.timer]
    · intro m pc' hpc hm
      exact hruntime m (hpc ▸ hm)
  | cons key keys ih =>
    refine takes_of_turn (Q := fun pc => ∃ batch, pc = .flushing keys batch r h) hfair ?_ ?_ hready
    · intro b snap hb _
      unfold Bridge.timerStep
      rw [hb.timer]
      dsimp only
      split
      · exact ⟨_, rfl⟩
      · exact ⟨_, rfl⟩
    · rintro m pc' ⟨batch, rfl⟩ hm
      exact ih hm

theorem takes_of_progress {p r h : Bool} (hfair : x.Fair BridgeAct.IsTimer)
    (hruntime : ∀ m, (x.state m).Ready d (.runtime r h) → Takes x m)
    (hready : (x.state n).Ready d (.progress p r h)) : Takes x n := by
  refine takes_of_turn
    (Q := fun pc => pc = .runtime r h ∨ ∃ keys batch, pc = .flushing keys batch r h)
    hfair ?_ ?_ hready
  · intro b snap hb _
    unfold Bridge.timerStep
    rw [hb.timer]
    cases p with
    | true => exact .inr ⟨_, _, rfl⟩
    | false => exact .inl rfl
  · rintro m pc' (rfl | ⟨keys, batch, rfl⟩) hm
    · exact hruntime m hm
    · exact takes_of_flushing hfair hruntime hm

theorem takes_of_waiting (hfair : x.Fair BridgeAct.IsTimer)
    (hready : (x.state n).Ready d .waiting) : Takes x n := by
  refine takes_of_turn (Q := fun pc => ∃ p h, pc = .progress p true h) hfair ?_ ?_ hready
  · intro b snap hb hruns
    have hdue : b.due b.timers.runtimeDue = true := by
      rw [hb.pending.2]
      exact decide_eq_true hb.due
    unfold Bridge.timerStep
    rw [hb.timer]
    dsimp only
    rw [if_neg (by rw [hruns.stopping]; exact Bool.false_ne_true), hdue, if_pos (by simp)]
    exact ⟨_, _, rfl⟩
  · rintro m pc' ⟨p, h, rfl⟩ hm
    exact takes_of_progress hfair (fun k hk => takes_of_runtime_true hfair hk) hm

theorem takes_of_heartbeat {h : Bool} (hfair : x.Fair BridgeAct.IsTimer)
    (hready : (x.state n).Ready d (.heartbeat h)) : Takes x n := by
  refine takes_of_turn (Q := fun pc => pc = .waiting) hfair ?_ ?_ hready
  · intro b snap hb _
    unfold Bridge.timerStep
    rw [hb.timer]
    cases h with
    | true =>
      dsimp only
      split
      · rfl
      · rfl
    | false => rfl
  · rintro m pc' rfl hm
    exact takes_of_waiting hfair hm

/-- The pass of the timer thread may have begun before the time had come. -/
theorem takes_of_runtime {r h : Bool} (hfair : x.Fair BridgeAct.IsTimer)
    (hready : (x.state n).Ready d (.runtime r h)) : Takes x n := by
  cases r with
  | true => exact takes_of_runtime_true hfair hready
  | false =>
    refine takes_of_turn (Q := fun pc => pc = .heartbeat h) hfair ?_ ?_ hready
    · intro b snap hb _
      unfold Bridge.timerStep
      rw [hb.timer]
    · rintro m pc' rfl hm
      exact takes_of_heartbeat hfair hm

theorem takes_of_ready (hfair : x.Fair BridgeAct.IsTimer)
    (hready : (x.state n).Ready d (x.state n).timer) : Takes x n := by
  cases hpc : (x.state n).timer with
  | waiting => exact takes_of_waiting hfair (hpc ▸ hready)
  | progress p r h =>
    exact takes_of_progress hfair (fun m hm => takes_of_runtime hfair hm) (hpc ▸ hready)
  | flushing keys batch r h =>
    exact takes_of_flushing hfair (fun m hm => takes_of_runtime hfair hm) (hpc ▸ hready)
  | runtime r h => exact takes_of_runtime hfair (hpc ▸ hready)
  | snapshot h => exact ⟨n, Nat.le_refl n, h, hpc⟩
  | heartbeat h => exact takes_of_heartbeat hfair (hpc ▸ hready)
  | stopped => exact absurd hpc (runs_of_reachableIf (x.reachable n)).timer

/-- Time goes on. -/
def TimePasses (x : (bridgeSystem T level).Execution NoShutdown) : Prop :=
  ∀ t, ∃ n, t ≤ (x.state n).clock

theorem clock_mono (x : (bridgeSystem T level).Execution NoShutdown) {m n : Nat} (h : m ≤ n) :
    (x.state m).clock ≤ (x.state n).clock := by
  induction h with
  | refl => exact Nat.le_refl _
  | step _ ih => exact Nat.le_trans ih (step_clock (x.next _))

/-- A pending request waits for its time, unless it is taken up before. -/
theorem takes_of_pending (hfair : x.Fair BridgeAct.IsTimer) (htime : TimePasses x)
    (h : (x.state n).Pending d) : Takes x n := by
  have hwaits : ∀ j, Takes x n ∨ (x.state (n + j)).Pending d := by
    intro j
    induction j with
    | zero => exact .inr h
    | succ j ih =>
      rcases ih with htakes | hpending
      · exact .inl htakes
      · rcases hpending.step (wakes_of_reachableIf (x.reachable _)) (x.next _) with
          hpending' | ⟨htaking, -⟩
        · exact .inr hpending'
        · exact .inl ⟨n + j + 1, by omega, htaking⟩
  obtain ⟨k, hk⟩ := htime d
  rcases hwaits k with htakes | hpending
  · exact htakes
  · obtain ⟨m, hm, htaking⟩ := takes_of_ready hfair
      ⟨hpending, Nat.le_trans hk (clock_mono x (Nat.le_add_left k n)), rfl⟩
    exact ⟨m, by omega, htaking⟩

/-- The step takes a snapshot, which goes out to the clients. -/
def TakesSnapshot (x : (bridgeSystem T level).Execution NoShutdown) (m : Nat) : Prop :=
  ∃ snap, x.act m = .other (.timer snap) ∧ (x.state m).Taking ∧
    (x.state (m + 1)).frames = (x.state m).frames ++ [.snapshot snap]

theorem takesSnapshot_of_takes (hfair : x.Fair BridgeAct.IsTimer) (h : Takes x n) :
    ∃ m, n ≤ m ∧ TakesSnapshot x m := by
  obtain ⟨k, hnk, pc, hpc⟩ := h
  obtain ⟨m, hkm, ⟨snap, hsnap⟩, hm⟩ := x.turn_comes (P := fun b => b.timer = .snapshot pc) hfair
    (fun b a b' _ hb ha _ hs => (timer_of_other hs ha).trans hb) hpc
  refine ⟨m, Nat.le_trans hnk hkm, snap, hsnap, ⟨pc, hm⟩, ?_⟩
  have hs := x.next m
  rw [hsnap] at hs
  have hstate : x.state (m + 1) = (x.state m).timerStep T snap := (Option.some.inj hs).symm
  rw [hstate]
  unfold Bridge.timerStep Bridge.enqueueEvent
  rw [hm]
  dsimp only
  rw [if_neg (by rw [(runs_of_reachableIf (x.reachable m)).stopping]; exact Bool.false_ne_true)]
  rfl

theorem request_pending {immediate : Bool} (hact : x.act n = .other (.request immediate)) :
    ∃ d, (x.state (n + 1)).Pending d := by
  have hs := x.next n
  rw [hact] at hs
  have hpending : (x.state (n + 1)).timers.runtimePending = true := by
    rw [← Option.some.inj hs]
    show ((x.state n).requestRuntimeSnapshot T immediate).timers.runtimePending = true
    unfold Bridge.requestRuntimeSnapshot
    dsimp only
    split
    · rfl
    · rfl
  have hwakes := wakes_of_reachableIf (x.reachable (n + 1))
  obtain ⟨d, hd⟩ := Option.isSome_iff_exists.mp (hwakes.due.trans hpending)
  exact ⟨d, hpending, hd⟩

end

-- ============================================================================
-- Immediate requests
-- ============================================================================

theorem prompt_iff : Prompt T b a ↔ FindsNoneLater b a := by
  unfold Prompt FindsNoneLater
  split
  · show (b.requestRuntimeSnapshot T true).DueNow ↔ _
    cases hscheduled : b.timers.runtimeScheduled with
    | true =>
      rw [request_of_scheduled hscheduled]
      constructor
      · intro h _
        exact h
      · intro h
        exact h rfl
    | false =>
      obtain ⟨delay, hzero, hb⟩ := request_of_unscheduled T true hscheduled
      rw [hb, hzero rfl]
      exact iff_of_true (decide_eq_true (Nat.le_refl _)) fun h => nomatch h
  · exact Iff.rfl

end

/-- A pending request has a due time; a snapshot follows every request; and the immediate
    requests of a run all leave a due time that has come exactly if none of them finds a
    snapshot that was put off. -/
theorem snapshot_requests (T : BridgeTimings) (level : LogLevel) :
    (∀ b, (bridgeSystem T level).Reachable b → b.timers.runtimePending = true →
      b.timers.runtimeScheduled = true ∧ ∃ d, b.timers.runtimeDue = some d) ∧
    (∀ x : (bridgeSystem T level).Execution NoShutdown, x.Fair BridgeAct.IsTimer → TimePasses x →
      ∀ n immediate, x.act n = .other (.request immediate) →
        ∃ m, n < m ∧ TakesSnapshot x m) ∧
    ∀ as, (bridgeSystem T level).Meets (Prompt T) (.new T level) as ↔
      (bridgeSystem T level).Meets FindsNoneLater (.new T level) as := by
  refine ⟨fun b hb hpending => ?_, fun x hfair htime n immediate hact => ?_, fun as => ?_⟩
  · have hwakes := wakes_of_reachableIf hb
    exact ⟨hwakes.scheduled.trans hpending,
      Option.isSome_iff_exists.mp (hwakes.due.trans hpending)⟩
  · obtain ⟨d, hd⟩ := request_pending hact
    obtain ⟨m, hm, htakes⟩ := takesSnapshot_of_takes hfair (takes_of_pending hfair htime hd)
    exact ⟨m, hm, htakes⟩
  · have hprompt : Prompt T = FindsNoneLater := funext fun b => funext fun a => propext prompt_iff
    rw [hprompt]

/-- A request right after a snapshot is put off, and an immediate one after it. -/
theorem immediate_put_off :
    ¬ (bridgeSystem .default .info).Meets (Prompt .default) (.new .default .info)
      [.other (.request false), .other (.timer ⟨0, false⟩), .other (.timer ⟨0, false⟩),
        .other (.timer ⟨0, false⟩), .other (.request false), .other (.request true)] := by
  intro h
  have hlate := ((((((h.2 _ rfl).2 _ rfl).2 _ rfl).2 _ rfl).2 _ rfl)).1
  revert hlate
  unfold Prompt Bridge.DueNow
  decide

end GnDrive.Events
