/-
  GnDrive.Sync.BusyKey

  Mutual exclusion by busy key.

  A key is held from the moment a start call finds it free until the task
  thread is at the end of `Finish::drop`, first by the call and then by its
  task.  `stop` clears the whole set and does not wait for the holders, so
  after a stop and a start a call finds a key free that an old task or an old
  call still holds: two tasks run under it, and the end of the old one frees
  the key of the new one.  `busyKey_exclusive` says that nothing else breaks
  the exclusion; `busyExact_of_no_stop` says that without a stop the set is exact.
-/

import GnDrive.Sync.Engine

namespace GnDrive.Sync

inductive Holder where
  | task (t : TaskId)
  | call (c : Caller)

/-- The thread is between `spawn` and the end of `Finish::drop`. -/
def Task.unfinished (x : Task) : Bool := match x.pc with | .finished _ => false | _ => true

/-- The key a start call has reserved. -/
def CallPc.key : CallPc → Option Key
  | .reserved key | .admitted key _ => some key
  | _ => none

def Holds (e : Engine) (key : Key) : Holder → Prop
  | .task t => ∃ x, e.task t = some x ∧ x.unfinished = true ∧ x.key = key
  | .call c => (e.call c).key = some key

/-- A call that finds its key free finds it held by nobody. -/
def FindsNoHolder (e : Engine) : Act → Prop
  | .check c => ∀ key, e.call c = .checking key → e.busy key = false → ∀ h, ¬ Holds e key h
  | _ => True

/-- One holder a key. -/
def Exclusive (e : Engine) : Prop := ∀ key h h', Holds e key h → Holds e key h' → h = h'

-- ============================================================================
-- How a key gets a holder
-- ============================================================================

section

variable {e e' : Engine} {a : Act} {k : Key}

theorem Change.key_eq {t : TaskId} {x x' : Task} (h : Change e a t x x') : x'.key = x.key := by
  cases h with
  | own _ hadv =>
    cases hpc : x.pc with
    | calling =>
      simp only [Task.advance, hpc] at hadv
      split at hadv <;> cases hadv <;> rfl
    | finished st => simp [Task.advance, hpc] at hadv
    | _ =>
      simp only [Task.advance, hpc] at hadv
      cases hadv
      rfl
  | token => rfl
  | cancelled => rfl
  | taken => rfl

theorem Change.unfinished {t : TaskId} {x x' : Task} (h : Change e a t x x')
    (hx : x'.unfinished = true) : x.unfinished = true := by
  cases h with
  | own _ hadv =>
    cases hpc : x.pc with
    | finished st => simp [Task.advance, hpc] at hadv
    | _ => simp [Task.unfinished, hpc]
  | token => exact hx
  | cancelled => exact hx
  | taken => exact hx

/-- The two ways to a new holder: a call reserves a free key, and a call that
    holds the key hands it to its task. -/
theorem holds_step (hs : e.step a = some e') {h : Holder} (hh : Holds e' k h) :
    Holds e k h ∨
      (∃ c, h = .call c ∧ a = .check c ∧ e.call c = .checking k ∧ e.busy k = false) ∨
      ∃ c t, h = .task t ∧ a = .enter c t ∧ e.call c = .admitted k true ∧
        (e'.call c).key = none := by
  cases h with
  | task t =>
    obtain ⟨x', hx', hu, rfl⟩ := hh
    rcases step_task hs t with hsame | ⟨c, key, ha, hc, -, hnew⟩ | ⟨x, y, hx, hy, hchange⟩
    · exact .inl ⟨x', hsame ▸ hx', hu, rfl⟩
    · obtain rfl := Option.some.inj (hnew.symm.trans hx')
      refine .inr (.inr ⟨c, t, rfl, ha, hc, ?_⟩)
      -- the caller is back with the task's id
      rcases step_call hs c with ⟨-, hne⟩ | hcall
      · exact absurd ha (hne t)
      · cases hcall' : e'.call c with
        | reserved key' => rw [hcall'] at hcall; cases hcall with | reserved ha' => simp [ha] at ha'
        | admitted key' b => rw [hcall'] at hcall; cases hcall with | admitted _ ha' => simp [ha] at ha'
        | _ => rfl
    · obtain rfl := Option.some.inj (hy.symm.trans hx')
      exact .inl ⟨x, hx, hchange.unfinished hu, hchange.key_eq.symm⟩
  | call c =>
    rcases step_call hs c with ⟨hsame, -⟩ | hcall
    · exact .inl (by simpa [Holds, hsame] using hh)
    · simp only [Holds] at hh
      generalize e'.call c = pc at hh hcall
      cases hcall with
      | reserved ha hc hb =>
        obtain rfl := Option.some.inj hh
        exact .inr (.inl ⟨c, rfl, ha, hc, hb⟩)
      | admitted b ha hc =>
        obtain rfl := Option.some.inj hh
        exact .inl (by simp [Holds, hc, CallPc.key])
      | _ => cases hh

/-- Step lemma: the exclusion survives a call that finds its key free if
    nobody holds it. -/
theorem exclusive_step (hex : Exclusive e) (hok : FindsNoHolder e a) (hs : e.step a = some e') :
    Exclusive e' := by
  intro key h h' hh hh'
  have hcaller : ∀ {c}, e.call c = .admitted key true → Holds e key (.call c) := by
    intro c hc
    simp [Holds, hc, CallPc.key]
  rcases holds_step hs hh with hold | ⟨c, rfl, rfl, hc, hb⟩ | ⟨c, t, rfl, rfl, hc, hgone⟩
  · rcases holds_step hs hh' with hold' | ⟨c, rfl, rfl, hc, hb⟩ | ⟨c, t, rfl, rfl, hc, hgone⟩
    · exact hex key h h' hold hold'
    · exact absurd hold (hok key hc hb h)
    · obtain rfl := hex key h _ hold (hcaller hc)
      simp [Holds, hgone] at hh
  · rcases holds_step hs hh' with hold' | ⟨c', rfl, ha, -, -⟩ | ⟨c', t, rfl, ha, -, -⟩
    · exact absurd hold' (hok key hc hb h')
    · cases ha
      rfl
    · cases ha
  · rcases holds_step hs hh' with hold' | ⟨c', rfl, ha, -, -⟩ | ⟨c', t', rfl, ha, -, -⟩
    · obtain rfl := hex key h' _ hold' (hcaller hc)
      simp [Holds, hgone] at hh'
    · cases ha
    · cases ha
      rfl

-- ============================================================================
-- Without a stop
-- ============================================================================

/-- The busy set has every key that is held. -/
def BusyExact (e : Engine) : Prop := ∀ key h, Holds e key h → e.busy key = true

/-- Who can take a key out of the set, `stop` apart. -/
inductive Frees (e : Engine) (a : Act) (k : Key) : Prop where
  | refused (c : Caller) (t : TaskId) : a = .enter c t → e.call c = .admitted k false →
      Frees e a k
  | finished (t : TaskId) (answer : Answer) (x : Task) : a = .task t answer → e.task t = some x →
      x.releases = true → x.key = k → Frees e a k

theorem onTask_busy (e : Engine) (t : TaskId) (f : Task → Task) :
    (e.onTask t f).busy = e.busy := by
  unfold Engine.onTask
  split <;> rfl

theorem planeStep_busy (e : Engine) : e.planeStep.busy = e.busy := by
  unfold Engine.planeStep
  cases e.plane <;> rfl

theorem setBusy_busy (e : Engine) (key : Key) (b : Bool) (k : Key) :
    (e.setBusy key b).busy k = if k = key then b else e.busy k := by
  simp [Engine.setBusy, Function.update_apply]

/-- A key stays in the set until somebody frees it. -/
theorem busy_step (hs : e.step a = some e') (hstop : ∀ j, a ≠ .stopHarvest j)
    (hb : e.busy k = true) : e'.busy k = true ∨ Frees e a k := by
  cases a with
  | plane =>
    obtain rfl := Option.some.inj hs
    exact .inl (by rw [planeStep_busy]; exact hb)
  | start =>
    obtain rfl := Option.some.inj hs
    exact .inl hb
  | stopFlag j =>
    simp only [Engine.step] at hs
    split at hs <;> cases hs
    exact .inl hb
  | stopHarvest j => exact absurd rfl (hstop j)
  | stopCancel j u =>
    simp only [Engine.step] at hs
    split at hs
    · split at hs <;> cases hs
      exact .inl ((congrFun (onTask_busy e u _) k).trans hb)
    · split at hs <;> cases hs
      exact .inl ((congrFun (onTask_busy e u _) k).trans hb)
    · cases hs
  | stopDone j =>
    simp only [Engine.step] at hs
    split at hs <;> cases hs
    exact .inl hb
  | startSync c key found =>
    simp only [Engine.step] at hs
    split at hs <;> cases hs
    exact .inl hb
  | startPathSync c key paths =>
    simp only [Engine.step] at hs
    split at hs <;> cases hs
    exact .inl hb
  | check c =>
    simp only [Engine.step] at hs
    split at hs
    · split at hs <;> cases hs
      · exact .inl hb
      · refine .inl ((setBusy_busy e _ true k).trans ?_)
        split
        · rfl
        · exact hb
    · cases hs
  | takeAdmit c =>
    simp only [Engine.step] at hs
    split at hs
    · split at hs <;> cases hs
      exact .inl hb
    · cases hs
  | enter c u =>
    simp only [Engine.step] at hs
    split at hs
    · rename_i key hc
      cases hs
      by_cases hk : k = key
      · subst hk
        exact .inr (.refused c u rfl hc)
      · exact .inl ((setBusy_busy { e with admitHeld := false } key false k).trans (by
          rw [if_neg hk]; exact hb))
    · split at hs <;> cases hs
      refine .inl ((setBusy_busy { e with admitHeld := false, active := u :: e.active } _ true k).trans ?_)
      split
      · rfl
      · exact hb
    · cases hs
  | stopSync c u =>
    simp only [Engine.step] at hs
    split at hs
    · cases hs
    · split at hs <;> cases hs <;> exact .inl hb
  | cancel c =>
    simp only [Engine.step] at hs
    split at hs
    · cases hs
      exact .inl ((congrFun (onTask_busy e _ _) k).trans hb)
    · cases hs
      exact .inl ((congrFun (onTask_busy e _ _) k).trans hb)
    · cases hs
  | task u answer =>
    simp only [Engine.step] at hs
    split at hs
    · cases hs
    · rename_i x hu
      obtain ⟨y, -, rfl⟩ := Option.map_eq_some_iff.mp hs
      cases hrel : x.releases with
      | false =>
        rw [if_neg (by simp)]
        exact .inl hb
      | true =>
        by_cases hk : k = x.key
        · exact .inr (.finished u answer x rfl hu hrel hk.symm)
        · refine .inl ?_
          rw [if_pos rfl]
          exact (setBusy_busy (e.setTask u y) x.key false k).trans (by rw [if_neg hk]; exact hb)
  | take u =>
    simp only [Engine.step] at hs
    split at hs
    · cases hs
    · split at hs <;> cases hs
      exact .inl hb

/-- Whoever frees a key held it, and does not hold it any more. -/
theorem Frees.holder (h : Frees e a k) (hs : e.step a = some e') :
    ∃ h, Holds e k h ∧ ¬ Holds e' k h := by
  cases h with
  | refused c t ha hc =>
    subst ha
    refine ⟨.call c, by simp [Holds, hc, CallPc.key], ?_⟩
    simp only [Engine.step, hc] at hs
    cases hs
    simp [Holds, Engine.setCall, CallPc.key]
  | finished t answer x ha hx hrel hk =>
    subst ha
    cases hpc : x.pc with
    | releasing st =>
      refine ⟨.task t, ⟨x, hx, by simp [Task.unfinished, hpc], hk⟩, ?_⟩
      simp only [Engine.step, hx, Task.advance, hpc, Option.map_some, hrel, if_true] at hs
      cases hs
      rintro ⟨y, hy, hu, -⟩
      have hy' : y = { x with outcome := some st, pc := .finished st } := by
        simpa [Engine.setBusy, Engine.setTask, eq_comm] using hy
      rw [hy'] at hu
      cases hu
    | _ => simp [Task.releases, hpc] at hrel

theorem BusyExact.findsNoHolder (h : BusyExact e) : FindsNoHolder e a := by
  cases a with
  | check c =>
    intro key _ hb h₀ hh
    rw [h key h₀ hh] at hb
    cases hb
  | _ => trivial

/-- While no stop clears it, the set is exact. -/
theorem busyExact_step (hex : Exclusive e) (hbusy : BusyExact e) (hstop : ∀ j, a ≠ .stopHarvest j)
    (hs : e.step a = some e') : Exclusive e' ∧ BusyExact e' := by
  have hex' := exclusive_step hex hbusy.findsNoHolder hs
  refine ⟨hex', fun key h hh => ?_⟩
  rcases holds_step hs hh with hold | ⟨c, rfl, rfl, hc, hb⟩ | ⟨c, t, rfl, rfl, hc, -⟩
  · rcases busy_step hs hstop (hbusy key h hold) with hb | hf
    · exact hb
    · obtain ⟨h₀, hold₀, hgone⟩ := hf.holder hs
      obtain rfl := hex key h h₀ hold hold₀
      exact absurd hh hgone
  · simp only [Engine.step, hc, hb] at hs
    cases hs
    exact (setBusy_busy e key true key).trans (if_pos rfl)
  · simp only [Engine.step, hc] at hs
    split at hs <;> cases hs
    exact (setBusy_busy _ key true key).trans (if_pos rfl)

theorem exclusive_initial : Exclusive .initial := by
  intro key h h' hh _
  cases h with
  | task t => obtain ⟨x, hx, -⟩ := hh; cases hx
  | call c => cases hh

/-- `SyncEngine::stop` takes the tasks and clears the set. -/
def Act.harvests : Act → Bool
  | .stopHarvest _ => true
  | _ => false

/-- So a run in which no stop gets that far keeps the exclusion, and the set
    says exactly which keys are held. -/
theorem busyExact_of_no_stop {e : Engine}
    (h : engineSystem.ReachableIf (fun _ a => (!a.harvests) = true) e) :
    Exclusive e ∧ BusyExact e := by
  refine System.ReachableIf.invariant (P := fun e => Exclusive e ∧ BusyExact e) ?_
    (fun _ _ _ hp hok hs => busyExact_step hp.1 hp.2 (by rintro j rfl; cases hok) hs) h
  rintro _ rfl
  refine ⟨exclusive_initial, fun key h hh => ?_⟩
  cases h with
  | task t => obtain ⟨x, hx, -⟩ := hh; cases hx
  | call c => cases hh

/-- Such a run meets the condition of `busyKey_exclusive`. -/
theorem findsNoHolder_of_no_stop {e : Engine}
    (h : engineSystem.ReachableIf (fun _ a => (!a.harvests) = true) e) :
    engineSystem.ReachableIf FindsNoHolder e := by
  induction h with
  | init hi => exact .init hi
  | step h _ hs ih => exact .step ih (busyExact_of_no_stop h).2.findsNoHolder hs

end

/-- In every run in which a call that finds its key free finds it held by
    nobody, at most one task of a key is in its rclone call, and a task that
    is about to take the key out of the set is the only unfinished task that
    has it. -/
theorem busyKey_exclusive {e : Engine} (h : engineSystem.ReachableIf FindsNoHolder e) :
    (∀ t t' x x', e.task t = some x → e.task t' = some x' → x.pc = .calling → x'.pc = .calling →
      x.key = x'.key → t = t') ∧
    ∀ t t' x x' st, e.task t = some x → e.task t' = some x' → x.pc = .releasing st →
      x'.unfinished = true → x.key = x'.key → t = t' := by
  have hex : Exclusive e := by
    refine System.ReachableIf.invariant (P := Exclusive) ?_
      (fun _ _ _ hp hok hs => exclusive_step hp hok hs) h
    rintro _ rfl
    exact exclusive_initial
  have huniq : ∀ t t' x x', e.task t = some x → e.task t' = some x' → x.unfinished = true →
      x'.unfinished = true → x.key = x'.key → t = t' := by
    intro t t' x x' hx hx' hu hu' hkey
    have := hex x.key (.task t) (.task t') ⟨x, hx, hu, rfl⟩ ⟨x', hx', hu', hkey.symm⟩
    exact Holder.task.inj this
  constructor
  · intro t t' x x' hx hx' hpc hpc' hkey
    exact huniq t t' x x' hx hx' (by simp [Task.unfinished, hpc]) (by simp [Task.unfinished, hpc'])
      hkey
  · intro t t' x x' st hx hx' hpc hu' hkey
    exact huniq t t' x x' hx hx' (by simp [Task.unfinished, hpc]) hu' hkey

/-- A `start_path_sync` that gets in with task `t`, whose thread goes on to
    its client call. -/
def startedCall (n : Nat) (t : TaskId) : List Act :=
  [.startPathSync (.rpc n) "f:o" true, .check (.rpc n), .takeAdmit (.rpc n), .enter (.rpc n) t] ++
    List.replicate 3 (.task t .ok)

/-- A started engine with an attached data plane. -/
def startedEngine : List Act := List.replicate 4 .plane ++ [.start]

/-- A second start is turned away while the first task is in its call. -/
theorem busyKey_exclusive_busy :
    ∃ e, engineSystem.runFrom .initial (startedEngine ++ startedCall 0 0 ++
        [.startPathSync (.rpc 1) "f:o" true, .check (.rpc 1)]) = some e ∧
      e.call (.rpc 1) = .refused .profileBusy ∧
      (∀ t t' x x', e.task t = some x → e.task t' = some x' → x.pc = .calling →
        x'.pc = .calling → x.key = x'.key → t = t') ∧
      ∀ t t' x x' st, e.task t = some x → e.task t' = some x' → x.pc = .releasing st →
        x'.unfinished = true → x.key = x'.key → t = t' := by
  have hrun : (engineSystem.runIf (fun _ a => !a.harvests) .initial (startedEngine ++
      startedCall 0 0 ++ [.startPathSync (.rpc 1) "f:o" true, .check (.rpc 1)])).map
        (·.call (.rpc 1)) = some (.refused .profileBusy) := by
    decide +kernel
  obtain ⟨e, he, hcall⟩ := Option.map_eq_some_iff.mp hrun
  exact ⟨e, System.runFrom_of_runIf he, hcall,
    busyKey_exclusive (findsNoHolder_of_no_stop (System.runIf_reachableIf (.init rfl) he))⟩

/-- The first task is in its client call when the engine is stopped and
    started again, and a second task starts under the same key. -/
def restarted : List Act :=
  startedEngine ++ startedCall 0 0 ++
    [.stopFlag 0, .stopHarvest 0, .stopCancel 0 0, .stopCancel 0 0, .stopDone 0, .start] ++
    startedCall 1 1

/-- The key and the point of a task, whether `stop_sync` finds it, and whether
    its key is in the set. -/
structure KeyUse where
  key : Key
  pc : TaskPc
  active : Bool
  busy : Bool
deriving DecidableEq

def Engine.keyUse (e : Engine) (t : TaskId) : Option KeyUse :=
  (e.task t).map fun x => ⟨x.key, x.pc, e.active.contains t, e.busy x.key⟩

/-- The uses of their keys by two tasks after a run. -/
def keyUses (as : List Act) (t t' : TaskId) : Option (Option KeyUse × Option KeyUse) :=
  (engineSystem.runFrom .initial as).map fun e => (e.keyUse t, e.keyUse t')

/-- Both are in their client call; the first one's `Finish` takes the key of
    the second out of the set; and a third call gets in beside the second. -/
theorem busyKey_shared :
    keyUses restarted 0 1
      = some (some ⟨"f:o", .calling, false, true⟩, some ⟨"f:o", .calling, true, true⟩) ∧
    keyUses (restarted ++ List.replicate 7 (.task 0 (.error true))) 0 1
      = some (some ⟨"f:o", .releasing .cancelled, false, true⟩,
          some ⟨"f:o", .calling, true, true⟩) ∧
    keyUses (restarted ++ List.replicate 8 (.task 0 (.error true))) 0 1
      = some (some ⟨"f:o", .finished .cancelled, false, false⟩,
          some ⟨"f:o", .calling, true, false⟩) ∧
    keyUses (restarted ++ List.replicate 8 (.task 0 (.error true)) ++ startedCall 2 2) 1 2
      = some (some ⟨"f:o", .calling, true, true⟩, some ⟨"f:o", .calling, true, true⟩) := by
  decide +kernel

end GnDrive.Sync
