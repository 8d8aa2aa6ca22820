/-
  GnDrive.Sync.Shutdown

  `SyncEngine::stop` and the threads it joins.

  `stop` clears the run flag and joins the cron ticker under `life`; only then
  does it cancel the tasks, and join their threads.  The ticker runs a
  scheduled flow on itself, and `wait_task` does not look at the run flag, so
  the join can wait for a task that nothing is going to cancel.
  `stop_joins_quiet` says that it does not when `stop` finds the ticker outside
  such a wait.
-/

import GnDrive.Sync.Admit
import GnDrive.Sync.Leftover

namespace GnDrive.Sync

-- ============================================================================
-- The ticker and the threads that stop it
-- ============================================================================

/-- What a cron entry runs. -/
inductive Handler where
  | profile (key : Key)
  | flow (f : String)
deriving DecidableEq

/-- Where the cron thread is; `due` are the handlers it has still to run. -/
inductive TickerPc where
  | absent
  /-- In `recv_timeout`. -/
  | waiting
  | ticking (due : List Handler)
  /-- In `start_sync`, as the caller `rpc n`. -/
  | inSync (n : Nat) (due : List Handler)
  /-- In `execute`. -/
  | inFlow (f : String) (due : List Handler)
  | exited
deriving DecidableEq

inductive StopStage where
  | idle
  /-- Holds `life`, the run flag is cleared. -/
  | flagged
  /-- Joins the ticker. -/
  | joining
  | joined
  /-- Holds `admit`. -/
  | cancelling
  /-- Has still to join the threads of these tasks. -/
  | workers (ts : List TaskId)
deriving DecidableEq

/-- `life` is the stop that holds the mutex, `workers` the threads spawned for
    tasks that no stop has taken. -/
structure Shutdown where
  runs : FlowRuns
  life : Option Nat
  ticker : TickerPc
  stopSent : Bool
  stage : Nat → StopStage
  workers : List TaskId

inductive ShutdownAct where
  | run (fa : FlowAct)
  | start
  | tick (due : List Handler)
  /-- `found` and `ops` are what the store answers. -/
  | handle (n : Nat) (found : Bool) (ops : List Op)
  | tickerExit
  | stopFlag (j : Nat)
  | stopTicker (j : Nat)
  | joinTicker (j : Nat)
  | stopHarvest (j : Nat)
  | stopDone (j : Nat)
  | joinWorker (j : Nat)

/-- The steps of `start` and `stop` that are also steps on `life`, the ticker
    or the threads. -/
def FlowAct.ofLife : FlowAct → Bool
  | .engine .start | .engine (.stopFlag _) | .engine (.stopHarvest _) | .engine (.stopDone _) => true
  | _ => false

/-- The thread that a step of a call spawns. -/
def FlowRuns.spawned (r : FlowRuns) : FlowAct → List TaskId
  | .engine (.enter c t) => match r.engine.call c with | .admitted _ true => [t] | _ => []
  | _ => []

/-- The ticker returns from a handler when its call or its flow has ended. -/
def TickerPc.settle (r : FlowRuns) : TickerPc → TickerPc
  | .inSync n due => if r.engine.free (.rpc n) then .ticking due else .inSync n due
  | .inFlow f due => if r.flows.isRunning f then .inFlow f due else .ticking due
  | pc => pc

namespace Shutdown

abbrev engine (s : Shutdown) : Engine := s.runs.engine

def initial : Shutdown where
  runs := .initial
  life := none
  ticker := .absent
  stopSent := false
  stage _ := .idle
  workers := []

def setStage (s : Shutdown) (j : Nat) (stage : StopStage) : Shutdown :=
  { s with stage := Function.update s.stage j stage }

/-- The next handler of `tick_at`. -/
def handle (s : Shutdown) (n : Nat) (found : Bool) (ops : List Op) : Option Shutdown :=
  match s.ticker with
  | .ticking [] => some { s with ticker := .waiting }
  | .ticking (.profile key :: due) =>
      (s.runs.step (.engine (.startSync (.rpc n) key found))).map fun r =>
        { s with runs := r, ticker := TickerPc.settle r (.inSync n due) }
  | .ticking (.flow f :: due) =>
      match s.runs.step (.begin f ops) with
      | some r => some { s with runs := r, ticker := .inFlow f due }
      | none => some { s with ticker := .ticking due }
  | _ => none

def step (s : Shutdown) : ShutdownAct → Option Shutdown
  | .run fa =>
      if fa.ofLife then none
      else (s.runs.step fa).map fun r =>
        { s with runs := r, ticker := s.ticker.settle r, workers := s.workers ++ s.runs.spawned fa }
  | .start =>
      if s.life.isSome then none
      else if s.engine.running then some s
      else (s.runs.step (.engine .start)).map fun r =>
        { s with runs := r, ticker := if s.ticker = .absent then .waiting else s.ticker }
  | .tick due =>
      if s.ticker = .waiting && !s.stopSent then some { s with ticker := .ticking due } else none
  | .handle n found ops => s.handle n found ops
  | .tickerExit =>
      if s.ticker = .waiting && s.stopSent then some { s with ticker := .exited } else none
  | .stopFlag j =>
      if s.life.isSome then none
      else if s.stage j = .idle then
        (s.runs.step (.engine (.stopFlag j))).map fun r =>
          { s with runs := r, life := some j }.setStage j .flagged
      else none
  | .stopTicker j =>
      if s.stage j = .flagged then
        if s.ticker = .absent then some ({ s with life := none }.setStage j .joined)
        else some ({ s with stopSent := true }.setStage j .joining)
      else none
  | .joinTicker j =>
      if s.stage j = .joining && s.ticker = .exited then
        some ({ s with ticker := .absent, stopSent := false, life := none }.setStage j .joined)
      else none
  | .stopHarvest j =>
      if s.stage j = .joined then
        (s.runs.step (.engine (.stopHarvest j))).map fun r =>
          { s with runs := r }.setStage j .cancelling
      else none
  | .stopDone j =>
      if s.stage j = .cancelling then
        (s.runs.step (.engine (.stopDone j))).map fun r =>
          { s with runs := r, workers := [] }.setStage j (.workers s.workers)
      else none
  | .joinWorker j =>
      match s.stage j with
      | .workers [] => some (s.setStage j .idle)
      | .workers (t :: ts) =>
          if (s.engine.task t).all fun x => !x.unfinished then some (s.setStage j (.workers ts))
          else none
      | _ => none

end Shutdown

def shutdownSystem : System Shutdown ShutdownAct where
  init s := s = .initial
  step := Shutdown.step

/-- Every thread that a stop joins works for a task that has been cancelled or
    is done, or for no task. -/
structure QuietJoins (s : Shutdown) : Prop where
  ticker : ∀ j f due t, s.stage j = .joining → s.ticker = .inFlow f due →
    Awaited s.engine f t (s.runs.flows.pc f) → Ending s.engine t
  workers : ∀ j ts, s.stage j = .workers ts → ∀ t ∈ ts, Ending s.engine t

def Engine.ending (e : Engine) (t : TaskId) : Bool :=
  (e.task t).any fun x => x.token || !x.unfinished

/-- The flow waits for no task, or for one that is ending, and is not about to
    register one. -/
def endsAlone (e : Engine) (f : String) : FlowPc → Bool
  | .starting _ _ =>
      match e.call (.flow f) with
      | .admitted _ running => !running
      | .returned t => e.ending t
      | _ => true
  | .waiting _ t _ => e.ending t
  | _ => true

/-- A stop that comes to join the ticker finds it outside a flow, or in one
    that ends alone. -/
def findsTickerFree (s : Shutdown) : ShutdownAct → Bool
  | .stopTicker _ =>
      match s.ticker with
      | .inFlow f _ => endsAlone s.engine f (s.runs.flows.pc f)
      | _ => true
  | _ => true

-- ============================================================================
-- The engine after the run flag is cleared
-- ============================================================================

section

variable {e e' : Engine} {a : Act} {f : String} {t : TaskId} {r r' : FlowRuns} {m : Flows}
  {fa : FlowAct}

theorem onTask_running (e : Engine) (t : TaskId) (g : Task → Task) :
    (e.onTask t g).running = e.running := by
  unfold Engine.onTask
  split <;> rfl

theorem planeStep_running (e : Engine) : e.planeStep.running = e.running := by
  unfold Engine.planeStep
  cases e.plane <;> rfl

/-- Only `start` sets the run flag. -/
theorem running_step (hs : e.step a = some e') (hstart : a ≠ .start) (h : e.running = false) :
    e'.running = false := by
  cases a with
  | plane =>
    obtain rfl := Option.some.inj hs
    rw [planeStep_running, h]
  | start => exact absurd rfl hstart
  | stopFlag j =>
    simp only [Engine.step] at hs
    split at hs <;> cases hs
    rfl
  | stopHarvest j =>
    simp only [Engine.step] at hs
    split at hs
    · split at hs <;> cases hs
      exact h
    · cases hs
  | stopCancel j u =>
    simp only [Engine.step] at hs
    split at hs
    · split at hs <;> cases hs
      exact (onTask_running e u _).trans h
    · split at hs <;> cases hs
      exact (onTask_running e u _).trans h
    · cases hs
  | stopDone j | startSync c key found | startPathSync c key paths =>
    simp only [Engine.step] at hs
    split at hs <;> cases hs
    exact h
  | check c =>
    simp only [Engine.step] at hs
    split at hs
    · split at hs <;> cases hs <;> exact h
    · cases hs
  | takeAdmit c =>
    simp only [Engine.step] at hs
    split at hs
    · split at hs <;> cases hs
      exact h
    · cases hs
  | enter c u =>
    simp only [Engine.step] at hs
    split at hs
    · cases hs
      exact h
    · split at hs <;> cases hs
      exact h
    · cases hs
  | stopSync c u =>
    simp only [Engine.step] at hs
    split at hs
    · cases hs
    · split at hs <;> cases hs <;> exact h
  | cancel c =>
    simp only [Engine.step] at hs
    split at hs
    · cases hs
      exact (onTask_running e _ _).trans h
    · cases hs
      exact (onTask_running e _ _).trans h
    · cases hs
  | task u answer =>
    simp only [Engine.step] at hs
    split at hs
    · cases hs
    · obtain ⟨y, -, rfl⟩ := Option.map_eq_some_iff.mp hs
      split <;> exact h
  | take u =>
    simp only [Engine.step] at hs
    split at hs
    · cases hs
    · split at hs <;> cases hs
      exact h

/-- A call that takes the mutex reads the run flag. -/
theorem takeAdmit_running {c : Caller} (hs : e.step (.takeAdmit c) = some e') :
    ∃ key, e'.call c = .admitted key e.running := by
  simp only [Engine.step] at hs
  split at hs
  · rename_i key hc
    split at hs <;> cases hs
    exact ⟨key, setCall_self⟩
  · cases hs

theorem startPathSync_stopped {c : Caller} {key : Key} {paths : Bool}
    (hs : e.step (.startPathSync c key paths) = some e') (h : e.running = false) :
    e'.call c = .refused .notRunning := by
  simp only [Engine.step] at hs
  split at hs <;> cases hs
  rw [setCall_self, h]
  rfl

theorem ending_iff : e.ending t = true ↔ Ending e t := by
  unfold Engine.ending Ending
  rw [Option.any_eq_true]
  refine exists_congr fun x => and_congr_right fun _ => ?_
  rw [Bool.or_eq_true]
  refine or_congr_right ?_
  cases hpc : x.pc with
  | finished st => simp [Task.unfinished, hpc]
  | _ => simp [Task.unfinished, hpc]

-- ============================================================================
-- A flow that ends alone
-- ============================================================================

/-- `endsAlone`, whatever the thread is at. -/
structure EndsAlone (e : Engine) (f : String) (pc : FlowPc) : Prop where
  registers : ∀ key, e.call (.flow f) ≠ .admitted key true
  awaits : ∀ t, Awaited e f t pc → Ending e t

/-- A thread that awaits no task and is not about to register one. -/
theorem EndsAlone.of_call {pc : FlowPc} (hcall : ∀ key, e.call (.flow f) ≠ .admitted key true)
    (hpc : ∀ t, ¬ Awaited e f t pc) : EndsAlone e f pc :=
  ⟨hcall, fun t ht => absurd ht (hpc t)⟩

theorem Orderly.ends_alone (h : Orderly r) (hcheck : endsAlone r.engine f (r.flows.pc f) = true) :
    EndsAlone r.engine f (r.flows.pc f) where
  registers key hc := by
    obtain ⟨op, rest, hpc, -, -⟩ := (h.progress f).starting (.inr (.inr ⟨true, hc⟩))
    rw [hpc, endsAlone, hc] at hcheck
    cases hcheck
  awaits t ht := by
    cases hpc : r.flows.pc f with
    | starting op rest =>
      rw [hpc] at ht hcheck
      have hc : r.engine.call (.flow f) = .returned t := ht
      rw [endsAlone, hc] at hcheck
      exact ending_iff.mp hcheck
    | waiting op u rest =>
      rw [hpc] at ht hcheck
      obtain rfl : u = t := ht
      exact ending_iff.mp hcheck
    | _ =>
      rw [hpc] at ht
      exact ht.elim

/-- A step of the engine that the flow's thread does not begin. -/
theorem EndsAlone.engine_step {ops : List Op} {ts : List TaskId} {pc : FlowPc}
    (h : EndsAlone e f pc) (hprog : Progress e f ops ts pc) (hrun : e.running = false)
    (hs : e.step a = some e') (hown : a.byFlow = false) : EndsAlone e' f pc := by
  have hstarting : ∀ {P : Op → List Op → Prop}, (∃ op rest, pc = .starting op rest ∧ P op rest) →
      (∀ key, e'.call (.flow f) ≠ .admitted key true) → (∀ t, e'.call (.flow f) ≠ .returned t) →
      EndsAlone e' f pc := by
    rintro P ⟨op, rest, rfl, -⟩ hadm hret
    exact .of_call hadm hret
  cases step_flow_call hs hown f with
  | still hcall =>
    refine ⟨fun key hc => h.registers key (hcall ▸ hc), fun t ht => ?_⟩
    exact (h.awaits t (ht.of_call hcall.symm)).step hs
  | checked _ hc hc' =>
    have hpc := hprog.starting (.inl hc)
    rcases hc' with hc' | hc'
    · exact hstarting hpc (by simp [hc']) (by simp [hc'])
    · exact hstarting hpc (by simp [hc']) (by simp [hc'])
  | admitted ha hc =>
    subst ha
    obtain ⟨key, hkey⟩ := takeAdmit_running hs
    rw [hrun] at hkey
    exact hstarting (hprog.starting (.inr (.inl hc))) (by simp [hkey]) (by simp [hkey])
  | refused _ hc hc' =>
    exact hstarting (hprog.starting (.inr (.inr ⟨_, hc⟩))) (by simp [hc']) (by simp [hc'])
  | entered _ hc => exact absurd hc (h.registers _)
  | cancelled _ hc hc' =>
    obtain ⟨op, u, rfl, -⟩ := hprog.cancelling hc
    refine .of_call (fun key hadm => ?_) fun _ ht => ht
    rcases hc' with hfree | ⟨u, b, hcancel⟩
    · simp [Engine.free, hadm] at hfree
    · rw [hadm] at hcancel
      cases hcancel

theorem flow_running (hs : r.flows.step fa = some m) (hstart : fa ≠ .engine .start)
    (h : r.engine.running = false) : m.engine.running = false := by
  rcases (flow_step hs).1 with heng | ⟨a, ha, hfa⟩
  · rw [heng]
    exact h
  · refine running_step ha (fun has => ?_) h
    subst has
    rcases hfa with hfa | hfa
    · exact hstart hfa
    · cases hfa

/-- Step lemma: once the run flag is cleared, a flow that ends alone does so
    whatever the others do. -/
theorem EndsAlone.step (ho : Orderly r) (h : EndsAlone r.engine f (r.flows.pc f))
    (hrun : r.engine.running = false) (hs : r.flows.step fa = some m) :
    EndsAlone m.engine f (m.pc f) := by
  -- the thread goes on to a point where it awaits no task
  have hquiet : ∀ {e : Engine} {pc : FlowPc}, e.call (.flow f) = r.engine.call (.flow f) →
      (∀ t, ¬ Awaited e f t pc) → EndsAlone e f pc := by
    intro e pc hcall hpc
    exact .of_call (fun key hc => h.registers key (hcall ▸ hc)) hpc
  by_cases hbegin : ∃ ops, fa = .begin f ops
  · obtain ⟨ops, rfl⟩ := hbegin
    simp only [Flows.step] at hs
    split at hs <;> cases hs
    exact hquiet rfl (by simp [Flows.setPc, Awaited])
  by_cases hnext : fa = .next f
  · subst hnext
    simp only [Flows.step, Flows.runOps] at hs
    split at hs
    · cases hs
      exact hquiet rfl (by simp [Flows.setPc, Awaited])
    · split at hs
      · cases hs
        exact hquiet rfl (by simp [Flows.setPc, Awaited])
      · obtain ⟨e, he, rfl⟩ := Option.map_eq_some_iff.mp hs
        have hc : e.call (.flow f) = .refused .notRunning := startPathSync_stopped he hrun
        refine .of_call (fun key hadm => ?_) fun t ht => ?_
        · rw [show e.call (.flow f) = .admitted key true from hadm] at hc
          cases hc
        · simp [Flows.setPc, Flows.report, Awaited, hc] at ht
    · rename_i op rest hpc
      rw [hpc] at h
      split at hs
      · rename_i t hc
        cases hs
        refine ⟨h.registers, fun u hu => ?_⟩
        simp only [Flows.setPc, Function.update_self, Awaited] at hu
        subst hu
        exact h.awaits t hc
      · cases hs
        exact hquiet rfl (by simp [Flows.setPc, Flows.report, Awaited])
      · cases hs
    · obtain ⟨e, he, rfl⟩ := Option.map_eq_some_iff.mp hs
      refine .of_call (fun key hadm => ?_) (by simp [Flows.setPc, Awaited])
      have hadm : e.call (.flow f) = .admitted key true := hadm
      rcases (stopSync_step he).2 with hfree | ⟨u, b, hcancel⟩
      · simp [Engine.free, hadm] at hfree
      · rw [hadm] at hcancel
        cases hcancel
    · split at hs <;> cases hs <;>
        exact hquiet rfl (by simp [Flows.setPc, Flows.report, Awaited])
    · cases hs
  by_cases hgive : fa = .giveUp f
  · subst hgive
    simp only [Flows.step] at hs
    split at hs
    · split at hs <;> cases hs
      exact hquiet rfl (by simp [Flows.setPc, Awaited])
    · cases hs
  by_cases htake : fa = .take f
  · subst htake
    simp only [Flows.step] at hs
    split at hs
    · rename_i op t rest hpc
      split at hs
      · cases hs
      · rename_i st hst
        obtain ⟨e, he, rfl⟩ := Option.map_eq_some_iff.mp hs
        refine hquiet ?_ ?_
        · rw [(afterWait_spec _ f op t rest st).1]
          exact take_call he
        · cases st with
          | completed | cancelled => simp [Flows.afterWait, Flows.setPc, Flows.report, Awaited]
          | running | failed =>
            simp only [Flows.afterWait]
            split <;> simp [Flows.setPc, Flows.report, Awaited]
    · cases hs
  · obtain ⟨hpc, hcall⟩ := flow_others hs (fun ops hfa => hbegin ⟨ops, hfa⟩) hnext hgive htake
    rw [hpc]
    rcases hcall with hcall | ⟨a, rfl, hown, ha⟩
    · refine ⟨fun key hc => h.registers key (hcall ▸ hc), fun t ht => ?_⟩
      have hending := h.awaits t (ht.of_call hcall.symm)
      exact flow_engine_step (Ending · t) hs hending fun _ ha => hending.step ha
    · exact h.engine_step (ho.progress f) hrun ha hown

end

-- ============================================================================
-- The invariant
-- ============================================================================

/-- While a stop holds `life` the run flag is clear, and once it joins the
    ticker a flow on the ticker ends alone; a stop joins only tasks that are
    ending. -/
structure Shutdown.Inv (s : Shutdown) : Prop where
  orderly : Orderly s.runs
  harvested : Harvested s.engine
  spawned : ∀ t ∈ s.workers, ∃ x, s.engine.task t = some x
  life : ∀ j, s.stage j = .flagged ∨ s.stage j = .joining → s.life = some j
  flag : s.life ≠ none → s.engine.running = false
  joining : ∀ j f due, s.stage j = .joining → s.ticker = .inFlow f due →
    EndsAlone s.engine f (s.runs.flows.pc f)
  workers : ∀ j ts, s.stage j = .workers ts → ∀ t ∈ ts, Ending s.engine t

section

variable {s s' : Shutdown} {r r' : FlowRuns} {j : Nat} {fa : FlowAct}

theorem inv_initial : Shutdown.Inv .initial where
  orderly := orderly_initial
  harvested := harvested_initial
  spawned _ ht := by cases ht
  life _ h := by rcases h with h | h <;> cases h
  flag h := absurd rfl h
  joining _ _ _ h := by cases h
  workers _ _ h := by cases h

theorem task_kept {e e' : Engine} {a : Act} {t : TaskId} (hs : e.step a = some e')
    (hx : ∃ x, e.task t = some x) : ∃ x, e'.task t = some x := by
  obtain ⟨x, hx⟩ := hx
  obtain ⟨x', hx', -⟩ := RunsUnder.step ⟨x, hx, rfl⟩ hs
  exact ⟨x', hx'⟩

theorem settle_inFlow {pc : TickerPc} {f : String} {due : List Handler}
    (h : pc.settle r = .inFlow f due) : pc = .inFlow f due := by
  cases pc with
  | inFlow g due' =>
    simp only [TickerPc.settle] at h
    split at h
    · exact h
    · cases h
  | inSync n due' =>
    simp only [TickerPc.settle] at h
    split at h <;> cases h
  | _ => cases h

theorem setStage_stage (s : Shutdown) (j : Nat) (stage : StopStage) (i : Nat) :
    i ≠ j ∧ (s.setStage j stage).stage i = s.stage i ∨ i = j ∧ (s.setStage j stage).stage i = stage := by
  by_cases hi : i = j
  · subst hi
    exact .inr ⟨rfl, by simp [Shutdown.setStage]⟩
  · exact .inl ⟨hi, by simp [Shutdown.setStage, hi]⟩

/-- A spawned thread has a task. -/
theorem spawned_task {t : TaskId} (hs : s.runs.step fa = some r) (ht : t ∈ s.runs.spawned fa) :
    ∃ x, r.engine.task t = some x := by
  obtain ⟨m, hm, rfl⟩ := Option.map_eq_some_iff.mp hs
  unfold FlowRuns.spawned at ht
  split at ht
  · rename_i c u
    split at ht
    · rename_i key hc
      obtain rfl := List.mem_singleton.mp ht
      simp only [Flows.step] at hm
      split at hm
      · cases hm
      · obtain ⟨e, he, rfl⟩ := Option.map_eq_some_iff.mp hm
        exact ⟨_, (enter_spec he hc).1⟩
    · cases ht
  · cases ht

theorem stopFlag_running (hs : r.step (.engine (.stopFlag j)) = some r') :
    r'.engine.running = false := by
  obtain ⟨m, hm, rfl⟩ := Option.map_eq_some_iff.mp hs
  simp only [Flows.step, Act.byFlow] at hm
  obtain ⟨e, he, rfl⟩ := Option.map_eq_some_iff.mp hm
  simp only [Engine.step] at he
  split at he <;> cases he
  rfl

namespace Shutdown.Inv

/-- A step of the flows and the engine keeps what does not depend on the stop
    or on the ticker. -/
theorem run (h : s.Inv) (hs : s.runs.step fa = some r) :
    Orderly r ∧ Harvested r.engine ∧ (∀ t ∈ s.workers, ∃ x, r.engine.task t = some x) ∧
      ∀ j ts, s.stage j = .workers ts → ∀ t ∈ ts, Ending r.engine t := by
  have horderly := h.orderly.step hs
  obtain ⟨m, hm, rfl⟩ := Option.map_eq_some_iff.mp hs
  refine ⟨horderly, ?_, fun t ht => ?_, fun j ts hj t ht => ?_⟩
  · exact flow_engine_step Harvested hm h.harvested fun _ ha => h.harvested.step ha
  · have hx := h.spawned t ht
    exact flow_engine_step (fun e => ∃ x, e.task t = some x) hm hx fun _ ha => task_kept ha hx
  · have hending := h.workers j ts hj t ht
    exact flow_engine_step (Ending · t) hm hending fun _ ha => hending.step ha

theorem flag_run (h : s.Inv) (hs : s.runs.step fa = some r) (hstart : fa ≠ .engine .start)
    (hlife : s.life ≠ none) : r.engine.running = false := by
  obtain ⟨m, hm, rfl⟩ := Option.map_eq_some_iff.mp hs
  exact flow_running hm hstart (h.flag hlife)

theorem joining_run (h : s.Inv) (hs : s.runs.step fa = some r) {f : String} {due : List Handler}
    (hj : s.stage j = .joining) (ht : s.ticker = .inFlow f due) :
    EndsAlone r.engine f (r.flows.pc f) := by
  obtain ⟨m, hm, rfl⟩ := Option.map_eq_some_iff.mp hs
  have hrun : s.engine.running = false := h.flag (by simp [h.life j (.inr hj)])
  exact (h.joining j f due hj ht).step h.orderly hrun hm

/-- The ticker has begun a flow. -/
theorem joining_begin (h : s.Inv) {f : String} {ops : List Op}
    (hs : s.runs.step (.begin f ops) = some r) : EndsAlone r.engine f (r.flows.pc f) := by
  have hprog := (h.orderly.step hs).progress f
  obtain ⟨m, hm, rfl⟩ := Option.map_eq_some_iff.mp hs
  simp only [Flows.step] at hm
  split at hm <;> cases hm
  simp only [Flows.setPc, Function.update_self] at hprog ⊢
  refine .of_call (fun key hc => ?_) fun _ ht => ht
  have hfree := hprog.2
  rw [Engine.free, hc] at hfree
  cases hfree

/-- A stop that has cancelled its tasks takes only threads of ending ones. -/
theorem done_ending (h : s.Inv) (hs : s.runs.step (.engine (.stopDone j)) = some r) {t : TaskId}
    (ht : t ∈ s.workers) : Ending r.engine t := by
  obtain ⟨x, hx⟩ := h.spawned t ht
  obtain ⟨m, hm, rfl⟩ := Option.map_eq_some_iff.mp hs
  simp only [Flows.step, Act.byFlow] at hm
  obtain ⟨e, he, rfl⟩ := Option.map_eq_some_iff.mp hm
  have hj : s.engine.stop j = .cancelling [] none := by
    simp only [Engine.step] at he
    split at he
    · assumption
    · cases he
  exact (h.harvested.all_ending hj hx).step he

/-- A stop goes on, neither taking nor releasing `life`. -/
theorem setStage (h : s.Inv) {stage : StopStage}
    (hlife : stage = .flagged ∨ stage = .joining → s.life = some j)
    (hjoining : stage = .joining → ∀ f due, s.ticker = .inFlow f due →
      EndsAlone s.engine f (s.runs.flows.pc f))
    (hworkers : ∀ ts, stage = .workers ts → ∀ t ∈ ts, Ending s.engine t) :
    (s.setStage j stage).Inv where
  orderly := h.orderly
  harvested := h.harvested
  spawned := h.spawned
  life i hi := by
    rcases setStage_stage s j stage i with ⟨-, hst⟩ | ⟨rfl, hst⟩
    · exact h.life i (hst ▸ hi)
    · exact hlife (hst ▸ hi)
  flag := h.flag
  joining i f due hi ht := by
    rcases setStage_stage s j stage i with ⟨-, hst⟩ | ⟨-, hst⟩
    · exact h.joining i f due (hst ▸ hi) ht
    · exact hjoining (hst ▸ hi) f due ht
  workers i ts hi := by
    rcases setStage_stage s j stage i with ⟨-, hst⟩ | ⟨-, hst⟩
    · exact h.workers i ts (hst ▸ hi)
    · exact hworkers ts (hst ▸ hi)

/-- A stop that holds `life` gives it back. -/
theorem release (h : s.Inv) (hj : s.stage j = .flagged ∨ s.stage j = .joining) (pc : TickerPc)
    (sent : Bool) :
    ({ s with ticker := pc, stopSent := sent, life := none }.setStage j .joined).Inv := by
  have hlife := h.life j hj
  have hfree : ∀ i, ({ s with ticker := pc, stopSent := sent, life := none }.setStage j
      .joined).stage i = .flagged ∨ ({ s with ticker := pc, stopSent := sent, life := none }.setStage
      j .joined).stage i = .joining → False := by
    intro i hi
    rcases setStage_stage { s with ticker := pc, stopSent := sent, life := none } j .joined i with
      ⟨hne, hst⟩ | ⟨-, hst⟩
    · have hother := h.life i (hst ▸ hi)
      rw [hlife] at hother
      exact hne (Option.some.inj hother).symm
    · rw [hst] at hi
      rcases hi with hi | hi <;> cases hi
  refine ⟨h.orderly, h.harvested, h.spawned, fun i hi => (hfree i hi).elim,
    fun hl => absurd rfl hl, fun i _ _ hi _ => (hfree i (.inr hi)).elim, fun i ts hi => ?_⟩
  rcases setStage_stage { s with ticker := pc, stopSent := sent, life := none } j .joined i with
    ⟨-, hst⟩ | ⟨-, hst⟩
  · exact h.workers i ts (hst ▸ hi)
  · rw [hst] at hi
    cases hi

theorem step_run (h : s.Inv) (hs : s.runs.step fa = some r) (hlife : fa.ofLife = false) :
    Inv { s with
      runs := r, ticker := s.ticker.settle r, workers := s.workers ++ s.runs.spawned fa } := by
  obtain ⟨horderly, hharvested, hspawned, hworkers⟩ := h.run hs
  have hstart : fa ≠ .engine .start := by
    rintro rfl
    cases hlife
  refine ⟨horderly, hharvested, fun t ht => ?_, h.life, h.flag_run hs hstart,
    fun j f due hj ht => h.joining_run hs hj (settle_inFlow ht), hworkers⟩
  rcases List.mem_append.mp ht with ht | ht
  · exact hspawned t ht
  · exact spawned_task hs ht

/-- The ticker goes on, and not into a flow. -/
theorem setTicker (h : s.Inv) {pc : TickerPc} (hpc : ∀ f due, pc ≠ .inFlow f due) :
    Inv { s with ticker := pc } :=
  ⟨h.orderly, h.harvested, h.spawned, h.life, h.flag, fun _ f due _ ht => absurd ht (hpc f due),
    h.workers⟩

theorem step_handle (h : s.Inv) {n : Nat} {found : Bool} {ops : List Op}
    (hs : s.handle n found ops = some s') : s'.Inv := by
  unfold Shutdown.handle at hs
  split at hs
  · cases hs
    exact h.setTicker (by simp)
  · rename_i key due _
    obtain ⟨r, hr, rfl⟩ := Option.map_eq_some_iff.mp hs
    obtain ⟨horderly, hharvested, hspawned, hworkers⟩ := h.run hr
    refine ⟨horderly, hharvested, hspawned, h.life, h.flag_run hr (by simp),
      fun _ f due' _ ht => ?_, hworkers⟩
    have ht : TickerPc.settle r (.inSync n due) = .inFlow f due' := ht
    cases settle_inFlow ht
  · split at hs
    · rename_i f due _ r hr
      cases hs
      obtain ⟨horderly, hharvested, hspawned, hworkers⟩ := h.run hr
      refine ⟨horderly, hharvested, hspawned, h.life, h.flag_run hr (by simp),
        fun _ f due _ ht => ?_, hworkers⟩
      cases ht
      exact h.joining_begin hr
    · cases hs
      exact h.setTicker (by simp)
  · cases hs

theorem step (h : s.Inv) {a : ShutdownAct} (hok : findsTickerFree s a = true)
    (hs : s.step a = some s') : s'.Inv := by
  cases a with
  | run fa =>
    simp only [Shutdown.step] at hs
    split at hs
    · cases hs
    · rename_i hlife
      obtain ⟨r, hr, rfl⟩ := Option.map_eq_some_iff.mp hs
      exact h.step_run hr (by simpa using hlife)
  | start =>
    simp only [Shutdown.step] at hs
    split at hs
    · cases hs
    rename_i hlife
    have hnone : s.life = none := by simpa using hlife
    split at hs
    · cases hs
      exact h
    · obtain ⟨r, hr, rfl⟩ := Option.map_eq_some_iff.mp hs
      obtain ⟨horderly, hharvested, hspawned, hworkers⟩ := h.run hr
      refine ⟨horderly, hharvested, hspawned, h.life, fun hl => absurd hnone hl,
        fun j _ _ hj _ => ?_, hworkers⟩
      have hheld := h.life j (.inr hj)
      rw [hnone] at hheld
      cases hheld
  | tick due =>
    simp only [Shutdown.step] at hs
    split at hs <;> cases hs
    exact h.setTicker (by simp)
  | handle n found ops => exact h.step_handle hs
  | tickerExit =>
    simp only [Shutdown.step] at hs
    split at hs <;> cases hs
    exact h.setTicker (by simp)
  | stopFlag j =>
    simp only [Shutdown.step] at hs
    split at hs
    · cases hs
    rename_i hlife
    have hnone : s.life = none := by simpa using hlife
    have hnoone : ∀ i, s.stage i = .flagged ∨ s.stage i = .joining → False := by
      intro i hi
      have hheld := h.life i hi
      rw [hnone] at hheld
      cases hheld
    split at hs
    · obtain ⟨r, hr, rfl⟩ := Option.map_eq_some_iff.mp hs
      obtain ⟨horderly, hharvested, hspawned, hworkers⟩ := h.run hr
      have hflag : r.engine.running = false := stopFlag_running hr
      refine setStage (s := { s with runs := r, life := some j }) ⟨horderly, hharvested, hspawned,
        fun i hi => (hnoone i hi).elim, fun _ => hflag, fun i _ _ hi _ => (hnoone i (.inr hi)).elim,
        hworkers⟩ (fun _ => rfl) (by simp) (by simp)
    · cases hs
  | stopTicker j =>
    simp only [Shutdown.step] at hs
    split at hs
    · rename_i hj
      split at hs
      · cases hs
        exact h.release (.inl hj) s.ticker s.stopSent
      · cases hs
        refine setStage (s := { s with stopSent := true }) ⟨h.orderly, h.harvested, h.spawned, h.life,
          h.flag, h.joining, h.workers⟩ (fun _ => h.life j (.inl hj)) (fun _ f due ht => ?_) (by simp)
        have ht : s.ticker = .inFlow f due := ht
        rw [findsTickerFree, ht] at hok
        exact h.orderly.ends_alone hok
    · cases hs
  | joinTicker j =>
    simp only [Shutdown.step] at hs
    split at hs <;> cases hs
    rename_i hj
    rw [Bool.and_eq_true] at hj
    exact h.release (.inr (of_decide_eq_true hj.1)) .absent false
  | stopHarvest j =>
    simp only [Shutdown.step] at hs
    split at hs
    · obtain ⟨r, hr, rfl⟩ := Option.map_eq_some_iff.mp hs
      obtain ⟨horderly, hharvested, hspawned, hworkers⟩ := h.run hr
      exact setStage (s := { s with runs := r }) ⟨horderly, hharvested, hspawned, h.life,
        h.flag_run hr (by simp), fun _ _ _ hj ht => h.joining_run hr hj ht, hworkers⟩
        (by simp) (by simp) (by simp)
    · cases hs
  | stopDone j =>
    simp only [Shutdown.step] at hs
    split at hs
    · obtain ⟨r, hr, rfl⟩ := Option.map_eq_some_iff.mp hs
      obtain ⟨horderly, hharvested, hspawned, hworkers⟩ := h.run hr
      refine setStage (s := { s with runs := r, workers := [] }) ⟨horderly, hharvested, by simp,
        h.life, h.flag_run hr (by simp), fun _ _ _ hj ht => h.joining_run hr hj ht, hworkers⟩
        (by simp) (by simp) fun ts hts t ht => ?_
      cases hts
      exact h.done_ending hr ht
    · cases hs
  | joinWorker j =>
    simp only [Shutdown.step] at hs
    split at hs
    · cases hs
      exact h.setStage (by simp) (by simp) (by simp)
    · rename_i t ts hj
      split at hs <;> cases hs
      refine h.setStage (by simp) (by simp) fun ts' hts u hu => ?_
      cases hts
      exact h.workers j _ hj u (.tail _ hu)
    · cases hs

end Shutdown.Inv

theorem shutdown_inv
    (h : shutdownSystem.ReachableIf (fun s a => findsTickerFree s a = true) s) : s.Inv := by
  refine h.invariant ?_ fun _ _ _ hi hok hs => hi.step hok hs
  rintro _ rfl
  exact inv_initial

/-- When every stop finds the ticker outside a flow, or in one that neither
    waits for a running task nor is about to start one, no stop waits for
    uncancelled work. -/
theorem stop_joins_quiet
    (h : shutdownSystem.ReachableIf (fun s a => findsTickerFree s a = true) s) : QuietJoins s where
  ticker j f due t hj ht ha := ((shutdown_inv h).joining j f due hj ht).awaits t ha
  workers := (shutdown_inv h).workers

end

-- ============================================================================
-- A stop that comes during a scheduled flow
-- ============================================================================

/-- The ticker runs the scheduled flow "f", whose task is in its transfer. -/
def tickedFlow : List ShutdownAct :=
  [.start, .run (.engine .plane), .run (.engine .plane), .run (.engine .plane),
    .run (.engine .plane), .tick [.flow "f"], .handle 0 true [⟨"o", true⟩], .run (.next "f"),
    .run (.engine (.check (.flow "f"))), .run (.engine (.takeAdmit (.flow "f"))),
    .run (.engine (.enter (.flow "f") 0)), .run (.next "f")] ++
    List.replicate 3 (.run (.engine (.task 0 .ok)))

/-- The task is stopped first. -/
def cancelledFirst : List ShutdownAct :=
  tickedFlow ++ [.run (.engine (.stopSync (.rpc 0) 0)), .run (.engine (.cancel (.rpc 0))),
    .stopFlag 0, .stopTicker 0]

theorem stop_joins_quiet_cancelled :
    ∃ s, (s.stage 0 = .joining ∧ s.ticker = .inFlow "f" []) ∧ QuietJoins s := by
  have hrun : (shutdownSystem.runIf findsTickerFree .initial cancelledFirst).any (fun s =>
      decide (s.stage 0 = .joining ∧ s.ticker = .inFlow "f" [])) = true := by
    decide +kernel
  obtain ⟨s, hs, hend⟩ := (Option.any_eq_true _ _).mp hrun
  exact ⟨s, of_decide_eq_true hend, stop_joins_quiet (System.runIf_reachableIf (.init rfl) hs)⟩

/-- The stop comes first: it joins the ticker, and the task that the ticker
    waits for goes on. -/
theorem stop_joins_uncancelled :
    ¬ ∀ s, shutdownSystem.Reachable s → QuietJoins s := by
  intro hquiet
  have hrun : (shutdownSystem.runFrom .initial (tickedFlow ++ [.stopFlag 0, .stopTicker 0])).any
      (fun s => decide (s.stage 0 = .joining ∧ s.ticker = .inFlow "f" [] ∧
        s.runs.flows.pc "f" = .waiting ⟨"o", true⟩ 0 []) && !s.engine.ending 0) = true := by
    decide +kernel
  obtain ⟨s, hs, hend⟩ := (Option.any_eq_true _ _).mp hrun
  rw [Bool.and_eq_true] at hend
  obtain ⟨hstage, hticker, hpc⟩ := of_decide_eq_true hend.1
  have hwait : Awaited s.engine "f" 0 (s.runs.flows.pc "f") := by
    rw [hpc]
    rfl
  have hending := (hquiet s (System.runFrom_reachable (.init rfl) hs)).ticker 0 "f" [] 0 hstage
    hticker hwait
  rw [ending_iff.mpr hending] at hend
  cases hend.2

end GnDrive.Sync
