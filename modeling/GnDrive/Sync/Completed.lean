/-
  GnDrive.Sync.Completed

  Flows (`flow_engine.rs`) over the sync engine, and what `completed` means.

  `run_sync` makes the client call only if it finds a client in its slot; if
  it does not, it goes on as after a call that returned `Ok`.  A detach takes
  the client away while tasks and flows are running, and every later task is
  then reported `completed`.  `completed_transferred` says that a task that
  finds a client is reported `completed` only after its call, in its history
  row, its terminal event, what `wait_task` returns and its flow operation.

  A flow's thread runs its operations one after another through
  `start_path_sync` and `wait_task`; its calls into the engine are those of
  the caller `flow id`.
-/

import GnDrive.Sync.Engine

namespace GnDrive.Sync

-- ============================================================================
-- Flows
-- ============================================================================

/-- An operation; `paths` says whether both of its paths are given. -/
structure Op where
  id : String
  paths : Bool
deriving DecidableEq

inductive FlowPc where
  | idle
  /-- At the head of the loop over the operations. -/
  | top (ops : List Op)
  /-- In `start_path_sync`. -/
  | starting (op : Op) (rest : List Op)
  /-- In `wait_task`. -/
  | waiting (op : Op) (t : TaskId) (rest : List Op)
  /-- About to call `stop_sync`. -/
  | stopping (op : Op) (t : TaskId)
  | stopped (op : Op) (t : TaskId)
  | ended (st : Status)
deriving DecidableEq

/-- A `flow:execution` event of an operation, with the task it was run by. -/
structure Report where
  flow : String
  op : String
  task : Option TaskId
  status : Status
deriving DecidableEq

structure Flows where
  engine : Engine
  pc : String → FlowPc
  cancelled : String → Bool
  reports : List Report

inductive FlowAct where
  | engine (a : Act)
  | begin (f : String) (ops : List Op)
  | stop (f : String)
  | next (f : String)
  /-- `wait_task` finds the flow cancelled. -/
  | giveUp (f : String)
  /-- `wait_task` finds the outcome. -/
  | take (f : String)

/-- Calls that only the flow's own thread makes. -/
def Act.byFlow : Act → Bool
  | .startSync (.flow _) _ _ | .startPathSync (.flow _) _ _ | .stopSync (.flow _) _ => true
  | _ => false

def busyKey (f : String) (op : Op) : Key := f ++ ":" ++ op.id

namespace Flows

def setPc (m : Flows) (f : String) (pc : FlowPc) : Flows :=
  { m with pc := Function.update m.pc f pc }

def report (m : Flows) (r : Report) : Flows := { m with reports := m.reports ++ [r] }

/-- The flow has a run. -/
def isRunning (m : Flows) (f : String) : Bool :=
  match m.pc f with | .idle | .ended _ => false | _ => true

/-- The next step of `run_ops`, except in `wait_task`. -/
def runOps (m : Flows) (f : String) : Option Flows :=
  match m.pc f with
  | .top [] => some (m.setPc f (.ended .completed))
  | .top (op :: rest) =>
      if m.cancelled f then some (m.setPc f (.ended .cancelled))
      else (m.engine.step (.startPathSync (.flow f) (busyKey f op) op.paths)).map fun e =>
        ({ m with engine := e }.report ⟨f, op.id, none, .running⟩).setPc f (.starting op rest)
  | .starting op rest =>
      match m.engine.call (.flow f) with
      | .returned t => some (m.setPc f (.waiting op t rest))
      | .refused _ => some ((m.report ⟨f, op.id, none, .failed⟩).setPc f (.ended .failed))
      | _ => none
  | .stopping op t =>
      (m.engine.step (.stopSync (.flow f) t)).map fun e =>
        { m with engine := e }.setPc f (.stopped op t)
  | .stopped op t =>
      match m.engine.call (.flow f) with
      | .returned _ | .refused _ =>
          some ((m.report ⟨f, op.id, some t, .cancelled⟩).setPc f (.ended .cancelled))
      | _ => none
  | _ => none

/-- What `run_ops` makes of the outcome that `wait_task` returns. -/
def afterWait (m : Flows) (f : String) (op : Op) (t : TaskId) (rest : List Op) : Status → Flows
  | .completed => (m.report ⟨f, op.id, some t, .completed⟩).setPc f (.top rest)
  | .cancelled => m.setPc f (.stopping op t)
  | _ =>
      if m.cancelled f then m.setPc f (.stopping op t)
      else (m.report ⟨f, op.id, some t, .failed⟩).setPc f (.ended .failed)

def step (m : Flows) : FlowAct → Option Flows
  | .engine a =>
      if a.byFlow then none else (m.engine.step a).map fun e => { m with engine := e }
  | .begin f ops =>
      if m.isRunning f || !m.engine.flow || ops.isEmpty then none
      else some ({ m with cancelled := Function.update m.cancelled f false }.setPc f (.top ops))
  | .stop f =>
      if m.isRunning f then some { m with cancelled := Function.update m.cancelled f true }
      else none
  | .next f => m.runOps f
  | .giveUp f =>
      match m.pc f with
      | .waiting op t _ => if m.cancelled f then some (m.setPc f (.stopping op t)) else none
      | _ => none
  | .take f =>
      match m.pc f with
      | .waiting op t rest =>
          match (m.engine.task t).bind Task.outcome with
          | none => none
          | some st =>
              (m.engine.step (.take t)).map fun e => { m with engine := e }.afterWait f op t rest st
      | _ => none

end Flows

def flowSystem : System Flows FlowAct where
  init m := m = ⟨.initial, fun _ => .idle, fun _ => false, []⟩
  step := Flows.step

/-- The task finds the client attached when it reads the slot. -/
def findsClient (e : Engine) : Act → Bool
  | .task t _ => (e.task t).all fun x => x.pc != .readClient || e.client
  | _ => true

def flowFindsClient (m : Flows) : FlowAct → Bool
  | .engine a => findsClient m.engine a
  | _ => true

-- ============================================================================
-- Tasks
-- ============================================================================

/-- What the thread is about to record or has recorded. -/
def TaskPc.state : TaskPc → Option Status
  | .settling st | .publishing st | .ended st | .savingFinal st _ | .releasing st
  | .finished st => some st
  | _ => none

/-- Everything that can name `completed`. -/
def Task.NamesCompleted (x : Task) : Prop :=
  x.status = .completed ∨ x.pc.state = some .completed ∨ x.row = some .completed ∨
    .completed ∈ x.events ∨ x.outcome = some .completed

def Honest (x : Task) : Prop := x.NamesCompleted → x.transferred = true

section

variable {e e' : Engine} {a : Act} {t : TaskId} {x x' : Task} {answer : Answer}

theorem saveHistory_completed {store : Option Nat} {st : Status} {row : Option Status}
    (h : saveHistory e store st row = some .completed) : st = .completed ∨ row = some .completed := by
  unfold saveHistory at h
  split at h
  · exact .inl (Option.some.inj h)
  · exact .inr h

/-- A step of the thread that finds a client, or does not look for one, says
    `completed` for the first time only when the call has returned `Ok`. -/
theorem Honest.advance (h : Honest x) (hclient : x.pc = .readClient → e.client = true)
    (hs : x.advance e answer = some x') : Honest x' := by
  have hkeep : x'.transferred = x.transferred → (x'.NamesCompleted → x.NamesCompleted) →
      Honest x' := fun htr hnames hx' => htr.trans (h (hnames hx'))
  unfold Task.NamesCompleted at hkeep
  cases hpc : x.pc with
  | spawned | deciding _ | settling _ | ended _ =>
    simp only [Task.advance, hpc, Option.some.injEq] at hs
    subst hs
    refine hkeep rfl ?_
    simp only [hpc, TaskPc.state]
    grind
  | readClient =>
    simp only [Task.advance, hpc, hclient hpc, if_true, Option.some.injEq] at hs
    subst hs
    refine hkeep rfl ?_
    simp only [hpc, TaskPc.state]
    grind
  | calling =>
    cases answer with
    | ok =>
      simp only [Task.advance, hpc, Option.some.injEq] at hs
      subst hs
      exact fun _ => rfl
    | error c =>
      simp only [Task.advance, hpc, Option.some.injEq] at hs
      subst hs
      refine hkeep rfl ?_
      simp only [hpc, TaskPc.state]
      grind
  | savingRunning store | savingFinal _ store =>
    simp only [Task.advance, hpc, Option.some.injEq] at hs
    subst hs
    refine hkeep rfl ?_
    simp only [hpc, TaskPc.state]
    have := @saveHistory_completed e store
    grind
  | publishing st =>
    simp only [Task.advance, hpc, Option.some.injEq] at hs
    subst hs
    refine hkeep rfl ?_
    simp only [hpc, TaskPc.state, List.mem_append, List.mem_singleton]
    grind
  | finishing | releasing _ =>
    simp only [Task.advance, hpc, Option.some.injEq] at hs
    subst hs
    refine hkeep rfl ?_
    simp only [hpc, TaskPc.state]
    grind
  | finished st => simp [Task.advance, hpc] at hs

/-- Step lemma: a step that finds a client keeps every task honest. -/
theorem honest_step (h : ∀ t x, e.task t = some x → Honest x) (hok : findsClient e a = true)
    (hs : e.step a = some e') : ∀ t x, e'.task t = some x → Honest x := by
  refine step_tasks hs h (fun _ _ => ?_) ?_
  · rintro (hx | hx | hx | hx | hx) <;> cases hx
  intro t x x' hx hh hchange
  cases hchange with
  | own ha hadv =>
    subst ha
    refine hh.advance (fun hpc => ?_) hadv
    simpa [findsClient, hx, hpc] using hok
  | token => exact hh
  | cancelled =>
    refine fun hnames => hh ?_
    rcases hnames with hx | hx
    · cases hx
    · exact .inr hx
  | taken =>
    refine fun hnames => hh ?_
    rcases hnames with hx | hx | hx | hx | hx
    · exact .inl hx
    · exact .inr (.inl hx)
    · exact .inr (.inr (.inl hx))
    · exact .inr (.inr (.inr (.inl hx)))
    · cases hx

/-- A call that has returned `Ok` stays so. -/
theorem transferred_step (hs : e.step a = some e') (hx : e.task t = some x)
    (htr : x.transferred = true) : ∃ x', e'.task t = some x' ∧ x'.transferred = true := by
  rcases step_task hs t with h | ⟨-, -, -, -, hnone, -⟩ | ⟨y, x', hy, hx', hchange⟩
  · exact ⟨x, h.trans hx, htr⟩
  · rw [hnone] at hx
    cases hx
  · obtain rfl := Option.some.inj (hx.symm.trans hy)
    refine ⟨x', hx', ?_⟩
    cases hchange with
    | own _ hadv =>
      cases hpc : x.pc with
      | calling =>
        simp only [Task.advance, hpc] at hadv
        split at hadv <;> cases hadv
        · rfl
        · exact htr
      | finished st => simp [Task.advance, hpc] at hadv
      | _ =>
        simp only [Task.advance, hpc] at hadv
        cases hadv
        exact htr
    | token => exact htr
    | cancelled => exact htr
    | taken => exact htr

end

-- ============================================================================
-- Flow operations
-- ============================================================================

section

variable {m m' : Flows} {fa : FlowAct}

@[simp] theorem setPc_engine (m : Flows) (f : String) (pc : FlowPc) :
    (m.setPc f pc).engine = m.engine := rfl

@[simp] theorem setPc_reports (m : Flows) (f : String) (pc : FlowPc) :
    (m.setPc f pc).reports = m.reports := rfl

@[simp] theorem report_engine (m : Flows) (r : Report) : (m.report r).engine = m.engine := rfl

@[simp] theorem report_reports (m : Flows) (r : Report) :
    (m.report r).reports = m.reports ++ [r] := rfl

/-- The report names `completed` only for a task whose outcome says so. -/
def Backed (e : Engine) (r : Report) : Prop :=
  r.status = .completed → ∃ t x, r.task = some t ∧ e.task t = some x ∧ x.outcome = some .completed

theorem afterWait_spec (m : Flows) (f : String) (op : Op) (t : TaskId) (rest : List Op)
    (st : Status) : (m.afterWait f op t rest st).engine = m.engine ∧
      ((m.afterWait f op t rest st).reports = m.reports ∨
        ∃ r, (m.afterWait f op t rest st).reports = m.reports ++ [r] ∧
          (r.status = .completed → r.task = some t ∧ st = .completed)) := by
  cases st with
  | completed => exact ⟨rfl, .inr ⟨_, rfl, fun _ => ⟨rfl, rfl⟩⟩⟩
  | cancelled => exact ⟨rfl, .inl rfl⟩
  | running | failed =>
    cases hc : m.cancelled f with
    | true =>
      simp only [Flows.afterWait, hc, if_true]
      exact ⟨rfl, .inl rfl⟩
    | false =>
      simp only [Flows.afterWait, hc, Bool.false_eq_true, if_false]
      exact ⟨rfl, .inr ⟨_, rfl, nofun⟩⟩

/-- The steps of the engine that a flow's thread takes as part of its own. -/
def Act.byThread : Act → Bool
  | .startPathSync _ _ _ | .stopSync _ _ | .take _ => true
  | _ => false

theorem findsClient_of_byThread {e : Engine} {a : Act} (h : a.byThread = true) :
    findsClient e a = true := by
  cases a with
  | task t answer => cases h
  | _ => rfl

/-- A step of a flow takes at most one step of the engine, and reports at most
    one status. -/
theorem flow_step (hs : m.step fa = some m') :
    (m'.engine = m.engine ∨ ∃ a, m.engine.step a = some m'.engine ∧
      (fa = .engine a ∨ a.byThread = true)) ∧
    (m'.reports = m.reports ∨ ∃ r, m'.reports = m.reports ++ [r] ∧ Backed m.engine r) := by
  cases fa with
  | engine a =>
    simp only [Flows.step] at hs
    split at hs
    · cases hs
    · obtain ⟨e, he, rfl⟩ := Option.map_eq_some_iff.mp hs
      exact ⟨.inr ⟨a, he, .inl rfl⟩, .inl rfl⟩
  | begin f ops =>
    simp only [Flows.step] at hs
    split at hs <;> cases hs
    exact ⟨.inl rfl, .inl rfl⟩
  | stop f =>
    simp only [Flows.step] at hs
    split at hs <;> cases hs
    exact ⟨.inl rfl, .inl rfl⟩
  | next f =>
    simp only [Flows.step, Flows.runOps] at hs
    split at hs
    · cases hs
      exact ⟨.inl rfl, .inl rfl⟩
    · split at hs
      · cases hs
        exact ⟨.inl rfl, .inl rfl⟩
      · obtain ⟨e, he, rfl⟩ := Option.map_eq_some_iff.mp hs
        exact ⟨.inr ⟨_, he, .inr rfl⟩, .inr ⟨_, rfl, nofun⟩⟩
    · split at hs <;> cases hs
      · exact ⟨.inl rfl, .inl rfl⟩
      · exact ⟨.inl rfl, .inr ⟨_, rfl, nofun⟩⟩
    · obtain ⟨e, he, rfl⟩ := Option.map_eq_some_iff.mp hs
      exact ⟨.inr ⟨_, he, .inr rfl⟩, .inl rfl⟩
    · split at hs <;> cases hs <;> exact ⟨.inl rfl, .inr ⟨_, rfl, nofun⟩⟩
    · cases hs
  | giveUp f =>
    simp only [Flows.step] at hs
    split at hs
    · split at hs <;> cases hs
      exact ⟨.inl rfl, .inl rfl⟩
    · cases hs
  | take f =>
    simp only [Flows.step] at hs
    split at hs
    · rename_i op t rest hpc
      split at hs
      · cases hs
      · rename_i st hst
        obtain ⟨e, he, rfl⟩ := Option.map_eq_some_iff.mp hs
        obtain ⟨x, hx, hout⟩ := Option.bind_eq_some_iff.mp hst
        obtain ⟨heng, hrep⟩ := afterWait_spec { m with engine := e } f op t rest st
        refine ⟨.inr ⟨.take t, by rw [heng]; exact he, .inr rfl⟩, hrep.imp id ?_⟩
        rintro ⟨r, hr, hback⟩
        refine ⟨r, hr, fun hc => ?_⟩
        obtain ⟨htask, rfl⟩ := hback hc
        exact ⟨t, x, htask, hx, hout⟩
    · cases hs

/-- Every operation reported `completed` was run by a task whose call returned
    `Ok`. -/
def ReportsHonest (m : Flows) : Prop :=
  ∀ r ∈ m.reports, r.status = .completed →
    ∃ t x, r.task = some t ∧ m.engine.task t = some x ∧ x.transferred = true

/-- Step lemma for flows and tasks together. -/
theorem flows_honest_step (htasks : ∀ t x, m.engine.task t = some x → Honest x)
    (hreports : ReportsHonest m) (hok : flowFindsClient m fa = true) (hs : m.step fa = some m') :
    (∀ t x, m'.engine.task t = some x → Honest x) ∧ ReportsHonest m' := by
  obtain ⟨heng, hrep⟩ := flow_step hs
  have hstays : ∀ {t x}, m.engine.task t = some x → x.transferred = true →
      ∃ x', m'.engine.task t = some x' ∧ x'.transferred = true := by
    intro t x hx htr
    rcases heng with h | ⟨a, ha, -⟩
    · exact ⟨x, by rw [h]; exact hx, htr⟩
    · exact transferred_step ha hx htr
  constructor
  · rcases heng with h | ⟨a, ha, hclient⟩
    · rw [h]
      exact htasks
    · refine honest_step htasks ?_ ha
      rcases hclient with rfl | h
      · exact hok
      · exact findsClient_of_byThread h
  · have hold : ∀ r ∈ m.reports, r.status = .completed →
        ∃ t x, r.task = some t ∧ m'.engine.task t = some x ∧ x.transferred = true := by
      intro r hr hc
      obtain ⟨t, x, ht, hx, htr⟩ := hreports r hr hc
      obtain ⟨x', hx', htr'⟩ := hstays hx htr
      exact ⟨t, x', ht, hx', htr'⟩
    rcases hrep with h | ⟨r₀, h, hback⟩
    · intro r hr
      exact hold r (h ▸ hr)
    · intro r hr hc
      rcases List.mem_append.mp (h ▸ hr) with hr | hr
      · exact hold r hr hc
      · obtain rfl := List.mem_singleton.mp hr
        obtain ⟨t, x, ht, hx, hout⟩ := hback hc
        have htr : x.transferred = true := htasks t x hx (.inr (.inr (.inr (.inr hout))))
        obtain ⟨x', hx', htr'⟩ := hstays hx htr
        exact ⟨t, x', ht, hx', htr'⟩

end

/-- In every run of tasks, flows, stops and detaches in which each task finds
    the client attached when it reads the slot, a task's status, history row,
    terminal event and outcome, and the flow operation it runs, are
    `completed` only if the client call was made and returned `Ok`. -/
theorem completed_transferred {m : Flows}
    (h : flowSystem.ReachableIf (fun m fa => flowFindsClient m fa = true) m) :
    (∀ t x, m.engine.task t = some x → x.NamesCompleted → x.transferred = true) ∧
    ∀ r ∈ m.reports, r.status = .completed →
      ∃ t x, r.task = some t ∧ m.engine.task t = some x ∧ x.transferred = true := by
  refine System.ReachableIf.invariant (P := fun m : Flows =>
    (∀ t x, m.engine.task t = some x → Honest x) ∧ ReportsHonest m) ?_
    (fun _ _ _ hp hok hs => flows_honest_step hp.1 hp.2 hok hs) h
  rintro _ rfl
  refine ⟨fun t x hx => ?_, fun r hr => ?_⟩
  · cases hx
  · cases hr

/-- An attached engine and a flow whose only operation has been started as
    task `0`. -/
def startedFlow : List FlowAct :=
  List.replicate 4 (.engine .plane) ++ [.engine .start, .begin "f" [⟨"o", true⟩], .next "f",
    .engine (.check (.flow "f")), .engine (.takeAdmit (.flow "f")), .engine (.enter (.flow "f") 0),
    .next "f"]

def taskSteps (n : Nat) : List FlowAct := List.replicate n (.engine (.task 0 .ok))

/-- The last report, and the row, the events and the transfer of task `0`. -/
def Flows.ending (m : Flows) : Option Report × Option (Option Status × List Status × Bool) :=
  (m.reports.getLast?, (m.engine.task 0).map fun x => (x.row, x.events, x.transferred))

/-- An operation whose task finds the client. -/
theorem completed_transferred_flow :
    ∃ m, flowSystem.runFrom ⟨.initial, fun _ => .idle, fun _ => false, []⟩
        (startedFlow ++ taskSteps 10 ++ [.take "f"]) = some m ∧
      m.reports.getLast? = some ⟨"f", "o", some 0, .completed⟩ ∧
      ∀ r ∈ m.reports, r.status = .completed →
        ∃ t x, r.task = some t ∧ m.engine.task t = some x ∧ x.transferred = true := by
  have hrun : (flowSystem.runIf flowFindsClient ⟨.initial, fun _ => .idle, fun _ => false, []⟩
      (startedFlow ++ taskSteps 10 ++ [.take "f"])).map (·.reports.getLast?)
        = some (some ⟨"f", "o", some 0, .completed⟩) := by
    decide +kernel
  obtain ⟨m, hm, hlast⟩ := Option.map_eq_some_iff.mp hrun
  exact ⟨m, System.runFrom_of_runIf hm, hlast,
    (completed_transferred (System.runIf_reachableIf (.init rfl) hm)).2⟩

/-- A lock and an unlock between the running row and the client slot: no call
    is made, and the row, the event and the operation say `completed`. -/
theorem completed_without_call :
    (flowSystem.runFrom ⟨.initial, fun _ => .idle, fun _ => false, []⟩
        (startedFlow ++ taskSteps 2 ++ List.replicate 6 (.engine .plane) ++ taskSteps 7 ++
          [.take "f"])).map (·.ending)
      = some (some ⟨"f", "o", some 0, .completed⟩, some (some .completed, [.completed], false)) := by
  decide +kernel

end GnDrive.Sync
