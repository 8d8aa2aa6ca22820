/-
  GnDrive.Sync.RunEvents

  The run events of flows (`flow_engine.rs`) and boards (`board_engine.rs`).

  Both engines change their map of runs under a lock and publish the event
  about the change after releasing it: `begin` and `execute` register a run and
  then publish `running`, the run's thread removes it (or marks it done) and
  then publishes how it ended, and `FlowEngine::stop` marks it and then
  publishes `cancelling`.  Here each lock section and each publish is a step,
  of any number of threads; what `run_ops` and `run_board` do in between is any
  sequence of events of operations and edges with any final status.

  Events carry the run they are about, which the source does not have; the
  ids of operations and edges are never empty, so that the events of the run
  itself, which have an empty id, are told apart.
-/

import GnDrive.Lib.RunLog

namespace GnDrive.Sync.RunEvents

open RunLog (Entry Phase Point Runs phase)

inductive RunStatus where
  | running
  | cancelling
  | completed
  | failed
  | cancelled
deriving DecidableEq

def RunStatus.final : RunStatus → Bool
  | .completed | .failed | .cancelled => true
  | _ => false

/-- What `run_ops` returns. -/
abbrev FinalStatus := { st : RunStatus // st.final = true }

/-- An event of a flow or a board; `part` is the operation or the edge, or
    `none` for an event of the run itself. -/
structure RunEvent where
  owner : String
  run : Nat
  part : Option String
  status : RunStatus
deriving DecidableEq

def RunEvent.entry (ev : RunEvent) : Entry (String × RunStatus) RunStatus :=
  match ev.part with
  | some id => .other (id, ev.status)
  | none =>
      match ev.status with
      | .running => .started
      | .cancelling => .stopping
      | st => .ended st

/-- The events of the runs of one flow or board, as they were published. -/
def eventsOf (bus : List RunEvent) (owner : String) :
    List (Nat × Entry (String × RunStatus) RunStatus) :=
  (bus.filter fun ev => ev.owner = owner).map fun ev => (ev.run, ev.entry)

/-- The events of each run are `running`, at most one `cancelling` and one
    terminal event, and those of the next run come after them. -/
def WellOrdered (bus : List RunEvent) (owner : String) : Prop := (phase (eventsOf bus owner)).isSome

/-- The run has one `running` and one terminal event. -/
def StartedAndEndedOnce (bus : List RunEvent) (r : Nat) : Prop :=
  (bus.countP fun ev => ev.run == r && ev.entry.isStart) = 1 ∧
    (bus.countP fun ev => ev.run == r && ev.entry.isEnd) = 1

/-- A published event as an announcement. -/
def RunEvent.announcement (ev : RunEvent) : String × Nat × Entry (String × RunStatus) RunStatus :=
  (ev.owner, ev.run, ev.entry)

-- ============================================================================
-- Flows
-- ============================================================================

/-- An entry of `runs`. -/
structure FlowRun where
  id : Nat
  cancelled : Bool
  status : RunStatus
deriving DecidableEq

inductive FlowRunPc where
  /-- `begin` has registered the run. -/
  | begun
  | runOps
  /-- `run` has removed it. -/
  | removed (finalStatus : FinalStatus)
  | done
deriving DecidableEq

structure FlowEngine where
  runs : String → Option FlowRun
  lastStatus : String → Option RunStatus
  thread : Nat → Option (String × FlowRunPc)
  /-- Threads in `stop`, after its lock section. -/
  stopper : Nat → Option (String × Nat)
  bus : List RunEvent

inductive FlowStep where
  | begin (flow : String) (r : Nat)
  | publishRunning (r : Nat)
  | publishOp (r : Nat) (op : String) (st : RunStatus)
  | remove (r : Nat) (finalStatus : FinalStatus)
  | publishFinal (r : Nat)
  | stop (j : Nat) (flow : String)
  | publishCancelling (j : Nat)

namespace FlowEngine

def new : FlowEngine := ⟨fun _ => none, fun _ => none, fun _ => none, fun _ => none, []⟩

def publish (s : FlowEngine) (ev : RunEvent) : FlowEngine := { s with bus := s.bus ++ [ev] }

def setThread (s : FlowEngine) (r : Nat) (flow : String) (pc : FlowRunPc) : FlowEngine :=
  { s with thread := Function.update s.thread r (some (flow, pc)) }

def step (s : FlowEngine) : FlowStep → Option FlowEngine
  | .begin flow r =>
      if (s.runs flow).isSome || (s.thread r).isSome then none
      else some ({ s with
        runs := Function.update s.runs flow (some ⟨r, false, .running⟩),
        lastStatus := Function.update s.lastStatus flow none }.setThread r flow .begun)
  | .publishRunning r =>
      match s.thread r with
      | some (flow, .begun) => some ((s.setThread r flow .runOps).publish ⟨flow, r, none, .running⟩)
      | _ => none
  | .publishOp r op st =>
      match s.thread r with
      | some (flow, .runOps) => some (s.publish ⟨flow, r, some op, st⟩)
      | _ => none
  | .remove r finalStatus =>
      match s.thread r with
      | some (flow, .runOps) =>
          some ({ s with
            runs := Function.update s.runs flow none,
            lastStatus := Function.update s.lastStatus flow (some finalStatus.1) }.setThread r flow
              (.removed finalStatus))
      | _ => none
  | .publishFinal r =>
      match s.thread r with
      | some (flow, .removed st) => some ((s.setThread r flow .done).publish ⟨flow, r, none, st.1⟩)
      | _ => none
  | .stop j flow =>
      if (s.stopper j).isSome then none
      else (s.runs flow).map fun run =>
        { s with
          runs := Function.update s.runs flow (some { run with cancelled := true, status := .cancelling }),
          stopper := Function.update s.stopper j (some (flow, run.id)) }
  | .publishCancelling j =>
      (s.stopper j).map fun x =>
        { s with stopper := Function.update s.stopper j none }.publish ⟨x.1, x.2, none, .cancelling⟩

end FlowEngine

def flowEngineSystem : System FlowEngine FlowStep where
  init s := s = .new
  step := FlowEngine.step

/-- `running` is published only when no earlier run of the flow has its
    terminal event still to publish; `stop` finds a run that it has not stopped
    before, and publishes `cancelling` only after the run has published
    `running`; the terminal event is published only when no `stop` of the run
    has its `cancelling` still to publish. -/
def FlowInTurn (s : FlowEngine) : FlowStep → Prop
  | .publishRunning r => ∀ flow q st, s.thread r = some (flow, .begun) →
      s.thread q ≠ some (flow, .removed st)
  | .publishFinal r => ∀ j flow, s.stopper j ≠ some (flow, r)
  | .stop _ flow => ∀ run, s.runs flow = some run → run.cancelled = false
  | .publishCancelling j => ∀ flow r, s.stopper j = some (flow, r) →
      s.thread r ≠ some (flow, .begun)
  | _ => True

-- ============================================================================
-- Boards
-- ============================================================================

/-- How `run_board` fails. -/
inductive BoardEngineError where
  | missingNode
  | cancelled
  | failed
  | completedWithErrors
deriving DecidableEq

def finalStatus : Option BoardEngineError → RunStatus
  | none => .completed
  | some .cancelled => .cancelled
  | some _ => .failed

/-- An entry of `runs`; `cancelled` is the state of its token. -/
structure BoardRun where
  id : Nat
  cancelled : Bool
  done : Bool
  err : Option BoardEngineError
deriving DecidableEq

def BoardRun.setDone (run : BoardRun) (err : Option BoardEngineError) : BoardRun :=
  { run with done := true, err := err }

inductive BoardRunPc where
  /-- `execute` has registered the run. -/
  | inserted
  | runBoard
  /-- The thread has set `done`. -/
  | marked (err : Option BoardEngineError)
  | over
deriving DecidableEq

structure BoardEngine where
  runs : String → Option BoardRun
  thread : Nat → Option (String × BoardRunPc)
  bus : List RunEvent

inductive BoardStep where
  | execute (board : String) (r : Nat)
  | publishRunning (r : Nat)
  | publishEdge (r : Nat) (edge : String) (st : RunStatus)
  | setDone (r : Nat) (err : Option BoardEngineError)
  | publishFinal (r : Nat)
  | stop (board : String)

namespace BoardEngine

def new : BoardEngine := ⟨fun _ => none, fun _ => none, []⟩

def publish (s : BoardEngine) (ev : RunEvent) : BoardEngine := { s with bus := s.bus ++ [ev] }

def setThread (s : BoardEngine) (r : Nat) (board : String) (pc : BoardRunPc) : BoardEngine :=
  { s with thread := Function.update s.thread r (some (board, pc)) }

def step (s : BoardEngine) : BoardStep → Option BoardEngine
  | .execute board r =>
      if (s.runs board).any (fun run => !run.done) || (s.thread r).isSome then none
      else some ({ s with
        runs := Function.update s.runs board (some ⟨r, false, false, none⟩) }.setThread r board
          .inserted)
  | .publishRunning r =>
      match s.thread r with
      | some (board, .inserted) =>
          some ((s.setThread r board .runBoard).publish ⟨board, r, none, .running⟩)
      | _ => none
  | .publishEdge r edge st =>
      match s.thread r with
      | some (board, .runBoard) => some (s.publish ⟨board, r, some edge, st⟩)
      | _ => none
  | .setDone r err =>
      match s.thread r with
      | some (board, .runBoard) =>
          some ({ s with
            runs := Function.update s.runs board ((s.runs board).map (BoardRun.setDone · err)) }.setThread r
              board (.marked err))
      | _ => none
  | .publishFinal r =>
      match s.thread r with
      | some (board, .marked err) =>
          some ((s.setThread r board .over).publish ⟨board, r, none, finalStatus err⟩)
      | _ => none
  | .stop board =>
      match s.runs board with
      | some run =>
          if run.done then none
          else some { s with
            runs := Function.update s.runs board (some { run with cancelled := true }) }
      | none => none

end BoardEngine

def boardEngineSystem : System BoardEngine BoardStep where
  init s := s = .new
  step := BoardEngine.step

/-- `running` is published only when no earlier run of the board has its
    terminal event still to publish. -/
def BoardInTurn (s : BoardEngine) : BoardStep → Prop
  | .publishRunning r => ∀ board q err, s.thread r = some (board, .inserted) →
      s.thread q ≠ some (board, .marked err)
  | _ => True

-- ============================================================================
-- Both engines as registries of announced runs
-- ============================================================================

def FlowRunPc.point : FlowRunPc → Point RunStatus
  | .begun => .registered
  | .runOps => .running
  | .removed st => .ending st.1
  | .done => .over

def FlowEngine.registry (s : FlowEngine) : Runs String (String × RunStatus) RunStatus where
  live := Option.map (fun run => (run.id, run.cancelled)) ∘ s.runs
  run := Option.map (fun x => (x.1, x.2.point)) ∘ s.thread
  stops := s.stopper
  log := s.bus.map RunEvent.announcement

def BoardRunPc.point : BoardRunPc → Point RunStatus
  | .inserted => .registered
  | .runBoard => .running
  | .marked err => .ending (finalStatus err)
  | .over => .over

/-- A run that is done is not registered any more, and none is ever marked. -/
def BoardEngine.registry (s : BoardEngine) : Runs String (String × RunStatus) RunStatus where
  live := (Option.bind · fun run => if run.done then none else some (run.id, false)) ∘ s.runs
  run := Option.map (fun x => (x.1, x.2.point)) ∘ s.thread
  stops _ := none
  log := s.bus.map RunEvent.announcement

section

variable {s s' : FlowEngine} {a : FlowStep}

theorem flow_registry_setThread (s : FlowEngine) (r : Nat) (flow : String) (pc : FlowRunPc) :
    (s.setThread r flow pc).registry = s.registry.setRun r flow pc.point := by
  simp [FlowEngine.registry, FlowEngine.setThread, RunLog.Runs.setRun, Function.comp_update]

theorem flow_registry_publish (s : FlowEngine) (ev : RunEvent) :
    (s.publish ev).registry = s.registry.announce ev.owner ev.run ev.entry := by
  simp [FlowEngine.registry, FlowEngine.publish, RunLog.Runs.announce, RunEvent.announcement]

theorem flow_registry_run {r : Nat} {flow : String} {pt : Point RunStatus}
    (h : s.registry.run r = some (flow, pt)) : ∃ pc, s.thread r = some (flow, pc) ∧ pc.point = pt := by
  obtain ⟨⟨flow', pc⟩, hr, heq⟩ := Option.map_eq_some_iff.mp h
  cases heq
  exact ⟨pc, hr, rfl⟩

theorem flow_thread_run {r : Nat} {flow : String} {pc : FlowRunPc}
    (h : s.thread r = some (flow, pc)) : s.registry.run r = some (flow, pc.point) := by
  simp [FlowEngine.registry, h]

theorem entry_final {owner : String} {r : Nat} {st : RunStatus} (h : st.final = true) :
    RunEvent.entry ⟨owner, r, none, st⟩ = .ended st := by
  cases st with
  | running | cancelling => cases h
  | completed | failed | cancelled => rfl

/-- Every step of the flow engine is one of the registry. -/
theorem flow_registry_step (hs : s.step a = some s') :
    ∃ a', (FlowInTurn s a → RunLog.InTurn s.registry a') ∧
      s.registry.step a' = some s'.registry := by
  cases a with
  | begin flow r =>
    simp only [FlowEngine.step] at hs
    split at hs <;> cases hs
    rename_i hfree
    simp only [Bool.or_eq_true, not_or, Bool.not_eq_true, Option.isSome_eq_false_iff,
      Option.isNone_iff_eq_none] at hfree
    refine ⟨.register flow r, fun _ => trivial, ?_⟩
    rw [RunLog.step_register (by simp [FlowEngine.registry, hfree.1])
      (by simp [FlowEngine.registry, hfree.2]), flow_registry_setThread]
    simp [FlowEngine.registry, Function.comp_update, FlowRunPc.point]
  | publishRunning r =>
    simp only [FlowEngine.step] at hs
    split at hs <;> cases hs
    rename_i flow hr
    refine ⟨.started r, fun hok o q res ho hq => ?_, ?_⟩
    · obtain ⟨pc, hpc, hpt⟩ := flow_registry_run hq
      obtain rfl := (Prod.mk.inj (Option.some.inj ((flow_thread_run hr).symm.trans ho))).1
      cases pc with
      | removed st => exact hok flow q st hr hpc
      | _ => cases hpt
    · rw [RunLog.step_started (flow_thread_run hr), flow_registry_publish, flow_registry_setThread]
      rfl
  | publishOp r op st =>
    simp only [FlowEngine.step] at hs
    split at hs <;> cases hs
    rename_i flow hr
    refine ⟨.other r (op, st), fun _ => trivial, ?_⟩
    rw [RunLog.step_other (flow_thread_run hr), flow_registry_publish]
    rfl
  | remove r st =>
    simp only [FlowEngine.step] at hs
    split at hs <;> cases hs
    rename_i flow hr
    refine ⟨.finish r st.1, fun _ => trivial, ?_⟩
    rw [RunLog.step_finish (flow_thread_run hr), flow_registry_setThread]
    simp [FlowEngine.registry, Function.comp_update, FlowRunPc.point]
  | publishFinal r =>
    simp only [FlowEngine.step] at hs
    split at hs <;> cases hs
    rename_i flow st hr
    refine ⟨.ended r, fun hok => hok, ?_⟩
    rw [RunLog.step_ended (flow_thread_run hr), flow_registry_publish, flow_registry_setThread,
      entry_final st.2]
    rfl
  | stop j flow =>
    simp only [FlowEngine.step] at hs
    split at hs
    · cases hs
    rename_i hfree
    obtain ⟨run, hrun, rfl⟩ := Option.map_eq_some_iff.mp hs
    have hlive : s.registry.live flow = some (run.id, run.cancelled) := by
      simp [FlowEngine.registry, hrun]
    refine ⟨.stop j flow, fun hok r hr => ?_, ?_⟩
    · have hcancelled := (Prod.mk.inj (Option.some.inj (hlive.symm.trans hr))).2
      rw [hok run hrun] at hcancelled
      cases hcancelled
    · simp only [Bool.not_eq_true, Option.isSome_eq_false_iff, Option.isNone_iff_eq_none] at hfree
      rw [RunLog.step_stop hfree hlive]
      simp [FlowEngine.registry, Function.comp_update]
  | publishCancelling j =>
    obtain ⟨⟨flow, r⟩, hj, rfl⟩ := Option.map_eq_some_iff.mp hs
    refine ⟨.stopping j, fun hok o q ho hq => ?_, ?_⟩
    · obtain ⟨pc, hpc, hpt⟩ := flow_registry_run hq
      cases pc with
      | begun => exact hok o q ho hpc
      | _ => cases hpt
    · rw [RunLog.step_stopping hj, flow_registry_publish]
      rfl

end

section

variable {s s' : BoardEngine} {a : BoardStep}

theorem board_registry_setThread (s : BoardEngine) (r : Nat) (board : String) (pc : BoardRunPc) :
    (s.setThread r board pc).registry = s.registry.setRun r board pc.point := by
  simp [BoardEngine.registry, BoardEngine.setThread, RunLog.Runs.setRun, Function.comp_update]

theorem board_registry_publish (s : BoardEngine) (ev : RunEvent) :
    (s.publish ev).registry = s.registry.announce ev.owner ev.run ev.entry := by
  simp [BoardEngine.registry, BoardEngine.publish, RunLog.Runs.announce, RunEvent.announcement]

theorem board_registry_run {r : Nat} {board : String} {pt : Point RunStatus}
    (h : s.registry.run r = some (board, pt)) :
    ∃ pc, s.thread r = some (board, pc) ∧ pc.point = pt := by
  obtain ⟨⟨board', pc⟩, hr, heq⟩ := Option.map_eq_some_iff.mp h
  cases heq
  exact ⟨pc, hr, rfl⟩

theorem board_thread_run {r : Nat} {board : String} {pc : BoardRunPc}
    (h : s.thread r = some (board, pc)) : s.registry.run r = some (board, pc.point) := by
  simp [BoardEngine.registry, h]

theorem finalStatus_final (err : Option BoardEngineError) : (finalStatus err).final = true := by
  cases err with
  | none => rfl
  | some err => cases err <;> rfl

/-- Every step of the board engine is one of the registry, except that `stop`
    does not show there. -/
theorem board_registry_step (hs : s.step a = some s') :
    s'.registry = s.registry ∨ ∃ a', (BoardInTurn s a → RunLog.InTurn s.registry a') ∧
      s.registry.step a' = some s'.registry := by
  cases a with
  | execute board r =>
    simp only [BoardEngine.step] at hs
    split at hs <;> cases hs
    rename_i hfree
    simp only [Bool.or_eq_true, not_or, Bool.not_eq_true, Option.isSome_eq_false_iff,
      Option.isNone_iff_eq_none] at hfree
    have hlive : s.registry.live board = none := by
      cases hrun : s.runs board with
      | none => simp [BoardEngine.registry, hrun]
      | some run =>
        have hdone := hfree.1
        rw [hrun] at hdone
        simp only [Option.any_some, Bool.not_eq_false'] at hdone
        simp [BoardEngine.registry, hrun, hdone]
    refine .inr ⟨.register board r, fun _ => trivial, ?_⟩
    rw [RunLog.step_register hlive (by simp [BoardEngine.registry, hfree.2]),
      board_registry_setThread]
    simp [BoardEngine.registry, Function.comp_update, BoardRunPc.point]
  | publishRunning r =>
    simp only [BoardEngine.step] at hs
    split at hs <;> cases hs
    rename_i board hr
    refine .inr ⟨.started r, fun hok o q res ho hq => ?_, ?_⟩
    · obtain ⟨pc, hpc, hpt⟩ := board_registry_run hq
      obtain rfl := (Prod.mk.inj (Option.some.inj ((board_thread_run hr).symm.trans ho))).1
      cases pc with
      | marked err => exact hok board q err hr hpc
      | _ => cases hpt
    · rw [RunLog.step_started (board_thread_run hr), board_registry_publish,
        board_registry_setThread]
      rfl
  | publishEdge r edge st =>
    simp only [BoardEngine.step] at hs
    split at hs <;> cases hs
    rename_i board hr
    refine .inr ⟨.other r (edge, st), fun _ => trivial, ?_⟩
    rw [RunLog.step_other (board_thread_run hr), board_registry_publish]
    rfl
  | setDone r err =>
    simp only [BoardEngine.step] at hs
    split at hs <;> cases hs
    rename_i board hr
    refine .inr ⟨.finish r (finalStatus err), fun _ => trivial, ?_⟩
    rw [RunLog.step_finish (board_thread_run hr), board_registry_setThread]
    cases hrun : s.runs board with
    | none => simp [BoardEngine.registry, Function.comp_update, BoardRunPc.point]
    | some run =>
      simp [BoardEngine.registry, Function.comp_update, BoardRunPc.point, BoardRun.setDone]
  | publishFinal r =>
    simp only [BoardEngine.step] at hs
    split at hs <;> cases hs
    rename_i board err hr
    refine .inr ⟨.ended r, fun _ j o (h : none = some (o, r)) => Option.some_ne_none _ h.symm, ?_⟩
    rw [RunLog.step_ended (board_thread_run hr), board_registry_publish, board_registry_setThread,
      entry_final (finalStatus_final err)]
    rfl
  | stop board =>
    simp only [BoardEngine.step] at hs
    split at hs
    · rename_i run hrun
      split at hs <;> cases hs
      rename_i hdone
      refine .inl ?_
      simp [BoardEngine.registry, Function.comp_update, hdone, hrun]
    · cases hs

end

section

variable {s : FlowEngine} {b : BoardEngine}

theorem flow_registry (h : flowEngineSystem.ReachableIf FlowInTurn s) :
    RunLog.runSystem.ReachableIf RunLog.InTurn s.registry := by
  refine h.simulation ?_ fun s a s' hok hs => ?_
  · rintro _ rfl
    rfl
  · obtain ⟨a', hok', hs'⟩ := flow_registry_step hs
    exact .inr ⟨a', hok' hok, hs'⟩

theorem board_registry (h : boardEngineSystem.ReachableIf BoardInTurn b) :
    RunLog.runSystem.ReachableIf RunLog.InTurn b.registry := by
  refine h.simulation ?_ fun s a s' hok hs => ?_
  · rintro _ rfl
    rfl
  · exact (board_registry_step hs).imp id fun ⟨a', hok', hs'⟩ => ⟨a', hok' hok, hs'⟩

theorem logOf_announcements {rs : Runs String (String × RunStatus) RunStatus} {bus : List RunEvent}
    (h : rs.log = bus.map RunEvent.announcement) (owner : String) :
    rs.logOf owner = eventsOf bus owner := by
  simp only [Runs.logOf, eventsOf, h, List.filter_map, List.map_map]
  rfl

theorem count_announcements {rs : Runs String (String × RunStatus) RunStatus} {bus : List RunEvent}
    (h : rs.log = bus.map RunEvent.announcement)
    (kind : Entry (String × RunStatus) RunStatus → Bool) (r : Nat) :
    rs.count kind r = bus.countP fun ev => ev.run == r && kind ev.entry := by
  simp only [Runs.count, h, List.countP_map]
  rfl

/-- What holds of the registry holds of the events. -/
theorem events_ordered {rs : Runs String (String × RunStatus) RunStatus} {bus : List RunEvent}
    (h : RunLog.runSystem.ReachableIf RunLog.InTurn rs)
    (hlog : rs.log = bus.map RunEvent.announcement) :
    (∀ owner, WellOrdered bus owner) ∧
      ∀ r owner, rs.run r = some (owner, .over) → StartedAndEndedOnce bus r := by
  refine ⟨fun owner => ?_, fun r owner hr => ?_⟩
  · unfold WellOrdered
    rw [← logOf_announcements hlog owner]
    exact RunLog.logs_ordered h owner
  · unfold StartedAndEndedOnce
    rw [← count_announcements hlog, ← count_announcements hlog]
    exact RunLog.announced_once h.reachable hr

end

/-- In every run of starts, stops and finishes of flows and of boards whose
    steps are in turn the events of each flow and of each board are well
    ordered, and a run that is over has published its start and its end once. -/
theorem run_events_ordered {s : FlowEngine} {b : BoardEngine}
    (hs : flowEngineSystem.ReachableIf FlowInTurn s)
    (hb : boardEngineSystem.ReachableIf BoardInTurn b) :
    ((∀ flow, WellOrdered s.bus flow) ∧
      ∀ r flow, s.thread r = some (flow, .done) → StartedAndEndedOnce s.bus r) ∧
    (∀ board, WellOrdered b.bus board) ∧
      ∀ r board, b.thread r = some (board, .over) → StartedAndEndedOnce b.bus r := by
  obtain ⟨hflows, hdone⟩ := events_ordered (flow_registry hs) rfl
  obtain ⟨hboards, hover⟩ := events_ordered (board_registry hb) rfl
  exact ⟨⟨hflows, fun r flow hr => hdone r flow (flow_thread_run hr)⟩,
    hboards, fun r board hr => hover r board (board_thread_run hr)⟩

/-- A flow that is started, stopped and finished. -/
def stoppedRun : List FlowStep :=
  [.begin "f" 0, .publishRunning 0, .stop 0 "f", .publishCancelling 0,
    .remove 0 ⟨.cancelled, rfl⟩, .publishFinal 0]

/-- A board run that completes. -/
def completedRun : List BoardStep :=
  [.execute "b" 0, .publishRunning 0, .setDone 0 none, .publishFinal 0]

theorem run_events_ordered_stopped :
    ∃ s b, flowEngineSystem.runFrom .new stoppedRun = some s ∧
      boardEngineSystem.runFrom .new completedRun = some b ∧
      (s.bus.map (·.status) = [.running, .cancelling, .cancelled] ∧ WellOrdered s.bus "f") ∧
      b.bus.map (·.status) = [.running, .completed] ∧ WellOrdered b.bus "b" := by
  have hflow : flowEngineSystem.Meets FlowInTurn .new stoppedRun := by
    refine ⟨trivial, fun _ h => ?_⟩
    obtain rfl := Option.some.inj h
    refine ⟨fun flow q st _ hq => ?_, fun _ h => ?_⟩
    · simp only [FlowEngine.setThread, FlowEngine.new, Function.update_apply] at hq
      split at hq <;> cases hq
    obtain rfl := Option.some.inj h
    refine ⟨fun run hrun => ?_, fun _ h => ?_⟩
    · cases hrun
      rfl
    obtain rfl := Option.some.inj h
    refine ⟨fun flow r hr hrun => ?_, fun _ h => ?_⟩
    · cases hr
      cases hrun
    obtain rfl := Option.some.inj h
    refine ⟨trivial, fun _ h => ?_⟩
    obtain rfl := Option.some.inj h
    refine ⟨fun j flow hj => ?_, fun _ _ => trivial⟩
    simp [FlowEngine.setThread, FlowEngine.publish, FlowEngine.new] at hj
  have hboard : boardEngineSystem.Meets BoardInTurn .new completedRun := by
    refine ⟨trivial, fun _ h => ?_⟩
    obtain rfl := Option.some.inj h
    refine ⟨fun board q err _ hq => ?_, fun _ h => ?_⟩
    · simp only [BoardEngine.setThread, BoardEngine.new, Function.update_apply] at hq
      split at hq <;> cases hq
    obtain rfl := Option.some.inj h
    exact ⟨trivial, fun _ _ => ⟨trivial, fun _ _ => trivial⟩⟩
  have hs : flowEngineSystem.runFrom .new stoppedRun = some _ := rfl
  have hb : boardEngineSystem.runFrom .new completedRun = some _ := rfl
  obtain ⟨⟨hsf, -⟩, hbf, -⟩ := run_events_ordered
    (System.runFrom_reachableIf (.init rfl) hflow hs)
    (System.runFrom_reachableIf (.init rfl) hboard hb)
  exact ⟨_, _, hs, hb, ⟨rfl, hsf "f"⟩, rfl, hbf "b"⟩

/-- A flow that finishes between the two steps of a `stop`. -/
def overtakenStop : List FlowStep :=
  [.begin "f" 0, .publishRunning 0, .stop 0 "f", .remove 0 ⟨.cancelled, rfl⟩, .publishFinal 0,
    .publishCancelling 0]

/-- A board that is started again between `done` and the terminal event. -/
def overtakenEnd : List BoardStep :=
  [.execute "b" 0, .publishRunning 0, .setDone 0 none, .execute "b" 1, .publishRunning 1,
    .publishFinal 0]

theorem run_events_overtaken :
    (flowEngineSystem.runFrom .new overtakenStop).any (fun s =>
      decide (s.bus.map (·.status) = [.running, .cancelled, .cancelling]) &&
        (phase (eventsOf s.bus "f")).isNone) = true ∧
    (boardEngineSystem.runFrom .new overtakenEnd).any (fun b =>
      decide (b.bus.map (fun ev => (ev.run, ev.status)) =
        [(0, .running), (1, .running), (0, .completed)]) &&
        (phase (eventsOf b.bus "b")).isNone) = true := by
  decide +kernel

end GnDrive.Sync.RunEvents
