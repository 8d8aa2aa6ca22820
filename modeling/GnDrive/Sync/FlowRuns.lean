/-
  GnDrive.Sync.FlowRuns

  A flow's run and the tasks it starts.

  `FlowRuns` is the model of flows over the sync engine with ghost fields: the
  operations of each flow's latest run, the tasks that run has registered, in
  order, and the caller that registered each task.  `Progress` says how far the run's thread has come in
  its list; `flow_disciplined` draws from it that the operations are started in
  order and one at a time, each after its predecessor's task finished
  `completed`, and what the final status of a run says.
-/

import GnDrive.Sync.Completed
import GnDrive.Sync.Registry

namespace GnDrive.Sync

-- ============================================================================
-- Flows with the history of their latest run
-- ============================================================================

structure FlowRuns where
  flows : Flows
  /-- The operations of the latest run. -/
  ops : String → List Op
  /-- The tasks it has registered. -/
  tasks : String → List TaskId
  owner : TaskId → Option Caller

namespace FlowRuns

abbrev engine (s : FlowRuns) : Engine := s.flows.engine

def initial : FlowRuns where
  flows := ⟨.initial, fun _ => .idle, fun _ => false, []⟩
  ops _ := []
  tasks _ := []
  owner _ := none

def recordOps (s : FlowRuns) : FlowAct → String → List Op
  | .begin f ops => Function.update s.ops f ops
  | _ => s.ops

def recordTasks (s : FlowRuns) : FlowAct → String → List TaskId
  | .begin f _ => Function.update s.tasks f []
  | .engine (.enter (.flow f) t) =>
      match s.engine.call (.flow f) with
      | .admitted _ true => Function.update s.tasks f (s.tasks f ++ [t])
      | _ => s.tasks
  | _ => s.tasks

def recordOwner (s : FlowRuns) : FlowAct → TaskId → Option Caller
  | .engine (.enter c t) =>
      match s.engine.call c with
      | .admitted _ true => Function.update s.owner t (some c)
      | _ => s.owner
  | _ => s.owner

def step (s : FlowRuns) (fa : FlowAct) : Option FlowRuns :=
  (s.flows.step fa).map fun m => ⟨m, s.recordOps fa, s.recordTasks fa, s.recordOwner fa⟩

end FlowRuns

def runsSystem : System FlowRuns FlowAct where
  init s := s = .initial
  step := FlowRuns.step

-- ============================================================================
-- How far the thread of a run has come
-- ============================================================================

/-- `Finish` has recorded the outcome `st` of the task. -/
def FinishedAs (e : Engine) (t : TaskId) (st : Status) : Prop :=
  ∃ x, e.task t = some x ∧ x.pc = .finished st

def AllCompleted (e : Engine) (ts : List TaskId) : Prop := ∀ t ∈ ts, FinishedAs e t .completed

/-- The task runs under the busy key of the operation. -/
def RunsUnder (e : Engine) (key : Key) (t : TaskId) : Prop := ∃ x, e.task t = some x ∧ x.key = key

/-- The operations `rest` are still to come, and all others are completed. -/
def Remaining (e : Engine) (ops : List Op) (ts : List TaskId) (rest : List Op) : Prop :=
  ops.drop ts.length = rest ∧ AllCompleted e ts

/-- The task `t` of the operation `op` is the last one registered. -/
def Current (e : Engine) (f : String) (ops : List Op) (ts : List TaskId) (op : Op) (t : TaskId)
    (rest : List Op) : Prop :=
  ∃ before, ts = before ++ [t] ∧ Remaining e ops before (op :: rest) ∧
    RunsUnder e (busyKey f op) t

/-- What holds at each point of the thread of the flow `f`. -/
def Progress (e : Engine) (f : String) (ops : List Op) (ts : List TaskId) : FlowPc → Prop
  | .idle => ts = [] ∧ e.free (.flow f) = true
  | .top rest => Remaining e ops ts rest ∧ e.free (.flow f) = true
  | .starting op rest =>
      match e.call (.flow f) with
      | .checking key | .reserved key | .admitted key _ =>
          key = busyKey f op ∧ Remaining e ops ts (op :: rest)
      | .refused _ => Remaining e ops ts (op :: rest)
      | .returned t => Current e f ops ts op t rest
      | _ => False
  | .waiting op t rest => Current e f ops ts op t rest ∧ e.free (.flow f) = true
  | .stopping op t => (∃ rest, Current e f ops ts op t rest) ∧ e.free (.flow f) = true
  | .stopped op t =>
      (∃ rest, Current e f ops ts op t rest) ∧
        (e.free (.flow f) = true ∨ ∃ u b, e.call (.flow f) = .cancelling u b)
  | .ended st =>
      e.free (.flow f) = true ∧
      match st with
      | .completed => Remaining e ops ts []
      | .failed =>
          (∃ op rest, Remaining e ops ts (op :: rest) ∧ ∃ err, e.call (.flow f) = .refused err) ∨
          ∃ op t rest, Current e f ops ts op t rest ∧ FinishedAs e t .failed
      | .cancelled => (∃ rest, Remaining e ops ts rest) ∨ ∃ op t rest, Current e f ops ts op t rest
      | .running => False

-- ============================================================================
-- Steps of the engine
-- ============================================================================

section

variable {e e' : Engine} {a : Act} {f : String} {ops : List Op} {ts : List TaskId} {t : TaskId}
  {pc : FlowPc}

theorem FinishedAs.step {st : Status} (h : FinishedAs e t st) (hs : e.step a = some e') :
    FinishedAs e' t st := by
  obtain ⟨x, hx, hpc⟩ := h
  exact finished_step hs hx hpc

theorem AllCompleted.step (h : AllCompleted e ts) (hs : e.step a = some e') :
    AllCompleted e' ts := fun t ht => (h t ht).step hs

theorem RunsUnder.step {key : Key} (h : RunsUnder e key t) (hs : e.step a = some e') :
    RunsUnder e' key t := by
  obtain ⟨x, hx, rfl⟩ := h
  rcases step_task hs t with hsame | ⟨-, -, -, -, hnone, -⟩ | ⟨y, y', hy, hy', hchange⟩
  · exact ⟨x, hsame.trans hx, rfl⟩
  · rw [hnone] at hx
    cases hx
  · obtain rfl := Option.some.inj (hy.symm.trans hx)
    exact ⟨y', hy', hchange.key_eq⟩

theorem Remaining.step {rest : List Op} (h : Remaining e ops ts rest) (hs : e.step a = some e') :
    Remaining e' ops ts rest := ⟨h.1, h.2.step hs⟩

theorem Current.step {op : Op} {rest : List Op} (h : Current e f ops ts op t rest)
    (hs : e.step a = some e') : Current e' f ops ts op t rest := by
  obtain ⟨before, hts, hrem, hunder⟩ := h
  exact ⟨before, hts, hrem.step hs, hunder.step hs⟩

/-- A step of the engine that leaves the flow's caller where it is. -/
theorem Progress.step (h : Progress e f ops ts pc) (hs : e.step a = some e')
    (hcall : e'.call (.flow f) = e.call (.flow f)) : Progress e' f ops ts pc := by
  have hfree : e'.free (.flow f) = e.free (.flow f) := by
    unfold Engine.free
    rw [hcall]
  cases pc with
  | idle => exact ⟨h.1, hfree.trans h.2⟩
  | top rest => exact ⟨h.1.step hs, hfree.trans h.2⟩
  | starting op rest =>
    unfold Progress at h ⊢
    rw [hcall]
    cases hc : e.call (.flow f) with
    | checking key | reserved key =>
      rw [hc] at h
      exact ⟨h.1, h.2.step hs⟩
    | admitted key b =>
      rw [hc] at h
      exact ⟨h.1, h.2.step hs⟩
    | refused err =>
      rw [hc] at h
      exact h.step hs
    | returned t =>
      rw [hc] at h
      exact h.step hs
    | _ =>
      rw [hc] at h
      exact h
  | waiting op t rest => exact ⟨h.1.step hs, hfree.trans h.2⟩
  | stopping op t => exact ⟨h.1.imp fun _ hc => hc.step hs, hfree.trans h.2⟩
  | stopped op t =>
    refine ⟨h.1.imp fun _ hc => hc.step hs, ?_⟩
    rw [hfree, hcall]
    exact h.2
  | ended st =>
    refine ⟨hfree.trans h.1, ?_⟩
    cases st with
    | completed => exact h.2.step hs
    | failed =>
      rcases h.2 with ⟨op, rest, hrem, err, hc⟩ | ⟨op, t, rest, hcur, hfin⟩
      · exact .inl ⟨op, rest, hrem.step hs, err, hcall.trans hc⟩
      · exact .inr ⟨op, t, rest, hcur.step hs, hfin.step hs⟩
    | cancelled =>
      rcases h.2 with ⟨rest, hrem⟩ | ⟨op, t, rest, hcur⟩
      · exact .inl ⟨rest, hrem.step hs⟩
      · exact .inr ⟨op, t, rest, hcur.step hs⟩
    | running => exact h.2

/-- The steps a call takes inside the engine. -/
inductive CallStep (e : Engine) (a : Act) (c : Caller) (e' : Engine) : Prop where
  | still : e'.call c = e.call c → (∀ t, a ≠ .enter c t) → CallStep e a c e'
  | checked {key : Key} : a = .check c → e.call c = .checking key →
      (e'.call c = .refused .profileBusy ∨ e'.call c = .reserved key) → CallStep e a c e'
  | admitted {key : Key} {b : Bool} : a = .takeAdmit c → e.call c = .reserved key →
      e'.call c = .admitted key b → CallStep e a c e'
  | refused {t : TaskId} {key : Key} : a = .enter c t → e.call c = .admitted key false →
      e'.call c = .refused .notRunning → CallStep e a c e'
  | entered {t : TaskId} {key : Key} : a = .enter c t → e.call c = .admitted key true →
      e'.call c = .returned t → e'.task t = some (.new key) → CallStep e a c e'
  | cancelled {t : TaskId} {b : Bool} : a = .cancel c → e.call c = .cancelling t b →
      (e'.free c = true ∨ ∃ u b', e'.call c = .cancelling u b') → CallStep e a c e'

theorem setCall_other {c d : Caller} {pc : CallPc} (h : d ≠ c) :
    (e.setCall c pc).call d = e.call d := by
  rcases setCall_call e c d pc with ⟨-, h'⟩ | ⟨h', -⟩
  · exact h'
  · exact absurd h' h

theorem setCall_self {c : Caller} {pc : CallPc} : (e.setCall c pc).call c = pc := by
  simp [Engine.setCall]

/-- A step of the engine is a step of at most one call.  The flow's own calls
    begin only in its thread. -/
theorem step_flow_call (hs : e.step a = some e') (hown : a.byFlow = false) (f : String) :
    CallStep e a (.flow f) e' := by
  cases a with
  | plane =>
    obtain rfl := Option.some.inj hs
    exact .still (by rw [planeStep_call]) (by simp)
  | start =>
    obtain rfl := Option.some.inj hs
    exact .still rfl (by simp)
  | stopFlag j =>
    simp only [Engine.step] at hs
    split at hs <;> cases hs
    exact .still rfl (by simp)
  | stopHarvest j =>
    simp only [Engine.step] at hs
    split at hs
    · split at hs <;> cases hs
      exact .still rfl (by simp)
    · cases hs
  | stopCancel j u =>
    simp only [Engine.step] at hs
    split at hs
    · split at hs <;> cases hs
      exact .still (by simp) (by simp)
    · split at hs <;> cases hs
      exact .still (by simp) (by simp)
    · cases hs
  | stopDone j =>
    simp only [Engine.step] at hs
    split at hs <;> cases hs
    exact .still rfl (by simp)
  | startSync c key found =>
    have hne : Caller.flow f ≠ c := by
      rintro rfl
      cases hown
    simp only [Engine.step] at hs
    split at hs <;> cases hs
    exact .still (setCall_other hne) (by simp)
  | startPathSync c key paths =>
    have hne : Caller.flow f ≠ c := by
      rintro rfl
      cases hown
    simp only [Engine.step] at hs
    split at hs <;> cases hs
    exact .still (setCall_other hne) (by simp)
  | check c =>
    simp only [Engine.step] at hs
    split at hs
    · rename_i key hc
      by_cases hne : Caller.flow f = c
      · subst hne
        split at hs <;> cases hs
        · exact .checked rfl hc (.inl setCall_self)
        · exact .checked rfl hc (.inr setCall_self)
      · split at hs <;> cases hs <;> exact .still (setCall_other hne) (by simp)
    · cases hs
  | takeAdmit c =>
    simp only [Engine.step] at hs
    split at hs
    · rename_i key hc
      split at hs <;> cases hs
      by_cases hne : Caller.flow f = c
      · subst hne
        exact .admitted rfl hc setCall_self
      · exact .still (setCall_other hne) (by simp)
    · cases hs
  | enter c u =>
    simp only [Engine.step] at hs
    split at hs
    · rename_i key hc
      cases hs
      by_cases hne : Caller.flow f = c
      · subst hne
        exact .refused rfl hc setCall_self
      · exact .still (setCall_other hne) fun t h => hne (by cases h; rfl)
    · rename_i key hc
      split at hs <;> cases hs
      by_cases hne : Caller.flow f = c
      · subst hne
        exact .entered rfl hc setCall_self (by simp [Engine.setTask])
      · exact .still (setCall_other hne) fun t h => hne (by cases h; rfl)
    · cases hs
  | stopSync c u =>
    have hne : Caller.flow f ≠ c := by
      rintro rfl
      cases hown
    simp only [Engine.step] at hs
    split at hs
    · cases hs
    · split at hs <;> cases hs <;> exact .still (setCall_other hne) (by simp)
  | cancel c =>
    simp only [Engine.step] at hs
    split at hs
    · rename_i u hc
      cases hs
      by_cases hne : Caller.flow f = c
      · subst hne
        exact .cancelled rfl hc (.inr ⟨u, true, setCall_self⟩)
      · exact .still ((setCall_other hne).trans (by rw [onTask_call])) (by simp)
    · rename_i u hc
      cases hs
      by_cases hne : Caller.flow f = c
      · subst hne
        exact .cancelled rfl hc (.inl (by simp [Engine.free, setCall_self]))
      · exact .still ((setCall_other hne).trans (by rw [onTask_call])) (by simp)
    · cases hs
  | task u answer =>
    simp only [Engine.step] at hs
    split at hs
    · cases hs
    · obtain ⟨y, -, rfl⟩ := Option.map_eq_some_iff.mp hs
      refine .still ?_ (by simp)
      split <;> rfl
  | take u =>
    simp only [Engine.step] at hs
    split at hs
    · cases hs
    · split at hs <;> cases hs
      exact .still rfl (by simp)

/-- `start_path_sync` and `stop_sync` begin as steps of their caller alone. -/
theorem startPathSync_step {c : Caller} {key : Key} {paths : Bool}
    (hs : e.step (.startPathSync c key paths) = some e') :
    (∀ d, d ≠ c → e'.call d = e.call d) ∧
      (e'.call c = .checking key ∨ ∃ err, e'.call c = .refused err) := by
  simp only [Engine.step] at hs
  split at hs <;> cases hs
  refine ⟨fun d hd => setCall_other hd, ?_⟩
  rw [setCall_self]
  split_ifs
  · exact .inr ⟨_, rfl⟩
  · exact .inr ⟨_, rfl⟩
  · exact .inl rfl

theorem stopSync_step {c : Caller} (hs : e.step (.stopSync c t) = some e') :
    (∀ d, d ≠ c → e'.call d = e.call d) ∧
      (e'.free c = true ∨ ∃ u b, e'.call c = .cancelling u b) := by
  simp only [Engine.step] at hs
  split at hs
  · cases hs
  · split at hs <;> cases hs
    · exact ⟨fun d hd => setCall_other hd, .inr ⟨t, false, setCall_self⟩⟩
    · exact ⟨fun d hd => setCall_other hd, .inl (by simp [Engine.free, setCall_self])⟩

theorem take_call {c : Caller} (hs : e.step (.take t) = some e') : e'.call c = e.call c := by
  simp only [Engine.step] at hs
  split at hs
  · cases hs
  · split at hs <;> cases hs
    rfl

/-- A call of the flow that still holds or wants a busy key is that of the
    operation being started. -/
theorem Progress.starting (h : Progress e f ops ts pc) {key : Key}
    (hc : e.call (.flow f) = .checking key ∨ e.call (.flow f) = .reserved key ∨
      ∃ b, e.call (.flow f) = .admitted key b) :
    ∃ op rest, pc = .starting op rest ∧ key = busyKey f op ∧ Remaining e ops ts (op :: rest) := by
  have hbusy : e.free (.flow f) = false := by
    unfold Engine.free
    rcases hc with hc | hc | ⟨b, hc⟩ <;> rw [hc]
  have habsurd : e.free (.flow f) ≠ true := by
    rw [hbusy]
    decide
  cases pc with
  | starting op rest =>
    refine ⟨op, rest, rfl, ?_⟩
    unfold Progress at h
    rcases hc with hc | hc | ⟨b, hc⟩
    · rw [hc] at h
      exact h
    · rw [hc] at h
      exact h
    · rw [hc] at h
      exact h
  | stopped op t =>
    rcases h.2 with hfree | ⟨u, b, hcancel⟩
    · exact absurd hfree habsurd
    · rcases hc with hc | hc | ⟨b, hc⟩ <;> rw [hc] at hcancel <;> cases hcancel
  | ended st => exact absurd h.1 habsurd
  | idle => exact absurd h.2 habsurd
  | top rest => exact absurd h.2 habsurd
  | waiting op t rest => exact absurd h.2 habsurd
  | stopping op t => exact absurd h.2 habsurd

/-- A call of the flow to `stop_sync` is that of its `stopped` thread. -/
theorem Progress.cancelling (h : Progress e f ops ts pc) {b : Bool}
    (hc : e.call (.flow f) = .cancelling t b) :
    ∃ op u, pc = .stopped op u ∧ ∃ rest, Current e f ops ts op u rest := by
  have habsurd : e.free (.flow f) ≠ true := by simp [Engine.free, hc]
  cases pc with
  | stopped op u => exact ⟨op, u, rfl, h.1⟩
  | starting op rest =>
    unfold Progress at h
    rw [hc] at h
    exact h.elim
  | ended st => exact absurd h.1 habsurd
  | idle => exact absurd h.2 habsurd
  | top rest => exact absurd h.2 habsurd
  | waiting op t rest => exact absurd h.2 habsurd
  | stopping op t => exact absurd h.2 habsurd

theorem Remaining.next_op {op : Op} {rest : List Op} (h : Remaining e ops ts (op :: rest)) :
    ops[ts.length]? = some op := by
  have hhead := congrArg List.head? h.1
  rwa [List.head?_drop] at hhead

/-- The task that a start registers becomes the current one. -/
theorem Remaining.enter {op : Op} {rest : List Op} (h : Remaining e ops ts (op :: rest))
    (hs : e.step a = some e') (hnew : e'.task t = some (.new (busyKey f op))) :
    Current e' f ops (ts ++ [t]) op t rest :=
  ⟨ts, rfl, h.step hs, _, hnew, rfl⟩

/-- When the current task has finished `completed`, its operation is no longer
    among those to come. -/
theorem Current.completed {op : Op} {rest : List Op} (h : Current e f ops ts op t rest)
    (hfin : FinishedAs e t .completed) : Remaining e ops ts rest := by
  obtain ⟨before, rfl, ⟨hdrop, hall⟩, -⟩ := h
  constructor
  · rw [List.length_append, List.length_singleton, ← List.drop_drop, hdrop]
    rfl
  · intro u hu
    rcases List.mem_append.mp hu with hu | hu
    · exact hall u hu
    · rwa [List.mem_singleton.mp hu]

end

-- ============================================================================
-- What a recorded outcome can be
-- ============================================================================

section

variable {e e' : Engine} {a : Act} {x x' : Task}

/-- `Finish` does not record `running`. -/
def NeverRunning (x : Task) : Prop := x.pc ≠ .releasing .running ∧ x.pc ≠ .finished .running

theorem NeverRunning.advance {answer : Answer} (h : NeverRunning x)
    (hs : x.advance e answer = some x') : NeverRunning x' := by
  cases hpc : x.pc with
  | finishing =>
    simp only [Task.advance, hpc, Option.some.injEq] at hs
    subst hs
    refine ⟨fun hst => ?_, by simp⟩
    simp only [TaskPc.releasing.injEq] at hst
    split at hst
    · cases hst
    · rename_i hne
      exact hne (by rw [hst]; rfl)
  | releasing st =>
    simp only [Task.advance, hpc, Option.some.injEq] at hs
    subst hs
    refine ⟨by simp, fun hst => h.1 ?_⟩
    cases hst
    exact hpc
  | calling =>
    simp only [Task.advance, hpc] at hs
    split at hs <;> cases hs <;> exact ⟨by simp, by simp⟩
  | readClient =>
    simp only [Task.advance, hpc, Option.some.injEq] at hs
    subst hs
    cases hc : e.client <;> simp [NeverRunning]
  | finished st => simp [Task.advance, hpc] at hs
  | _ =>
    simp only [Task.advance, hpc, Option.some.injEq] at hs
    subst hs
    exact ⟨by simp, by simp⟩

theorem neverRunning_step (h : ∀ t x, e.task t = some x → NeverRunning x)
    (hs : e.step a = some e') : ∀ t x, e'.task t = some x → NeverRunning x := by
  refine step_tasks hs h (fun _ _ => ⟨by simp [Task.new], by simp [Task.new]⟩) fun t x x' _ hx hchange => ?_
  cases hchange with
  | own _ hadv => exact hx.advance hadv
  | token => exact hx
  | cancelled => exact hx
  | taken => exact hx

end

-- ============================================================================
-- Steps of the flows
-- ============================================================================

section

variable {m m' : Flows} {f : String} {ops : String → List Op}
  {ts : String → List TaskId}

theorem progress_setPc {pc : FlowPc}
    (hothers : ∀ g, g ≠ f → Progress m.engine g (ops g) (ts g) (m.pc g))
    (hf : Progress m.engine f (ops f) (ts f) pc) :
    ∀ g, Progress (m.setPc f pc).engine g (ops g) (ts g) ((m.setPc f pc).pc g) := by
  intro g
  by_cases hg : g = f
  · subst hg
    simpa [Flows.setPc] using hf
  · simpa [Flows.setPc, hg] using hothers g hg

/-- The calls that a flow's thread begins leave the other flows alone. -/
theorem progress_others {a : Act} {e e' : Engine} {pc : String → FlowPc}
    (h : ∀ g, Progress e g (ops g) (ts g) (pc g)) (hs : e.step a = some e')
    (hcalls : ∀ d, d ≠ Caller.flow f → e'.call d = e.call d) :
    ∀ g, g ≠ f → Progress e' g (ops g) (ts g) (pc g) := fun g hg =>
  (h g).step hs (hcalls _ fun hgf => hg (Caller.flow.inj hgf))

theorem progress_next (h : ∀ g, Progress m.engine g (ops g) (ts g) (m.pc g))
    (hs : m.runOps f = some m') : ∀ g, Progress m'.engine g (ops g) (ts g) (m'.pc g) := by
  have hf := h f
  unfold Flows.runOps at hs
  split at hs
  · rename_i hpc
    rw [hpc] at hf
    cases hs
    exact progress_setPc (fun g _ => h g) ⟨hf.2, hf.1⟩
  · rename_i op rest hpc
    rw [hpc] at hf
    split at hs
    · cases hs
      exact progress_setPc (fun g _ => h g) ⟨hf.2, .inl ⟨_, hf.1⟩⟩
    · obtain ⟨e, he, rfl⟩ := Option.map_eq_some_iff.mp hs
      obtain ⟨hcalls, hcall⟩ := startPathSync_step he
      refine progress_setPc (m := { m with engine := e }.report _) (progress_others h he hcalls) ?_
      show Progress e f (ops f) (ts f) (.starting op rest)
      unfold Progress
      rcases hcall with hc | ⟨err, hc⟩ <;> rw [hc]
      · exact ⟨rfl, hf.1.step he⟩
      · exact hf.1.step he
  · rename_i op rest hpc
    rw [hpc] at hf
    unfold Progress at hf
    split at hs
    · rename_i t hc
      cases hs
      rw [hc] at hf
      exact progress_setPc (fun g _ => h g) ⟨hf, by simp [Engine.free, hc]⟩
    · rename_i err hc
      cases hs
      rw [hc] at hf
      exact progress_setPc (m := m.report _) (fun g _ => h g)
        ⟨by simp [Engine.free, hc], .inl ⟨op, rest, hf, err, hc⟩⟩
    · cases hs
  · rename_i op t hpc
    rw [hpc] at hf
    obtain ⟨e, he, rfl⟩ := Option.map_eq_some_iff.mp hs
    obtain ⟨hcalls, hcall⟩ := stopSync_step he
    exact progress_setPc (m := { m with engine := e }) (progress_others h he hcalls)
      ⟨hf.1.imp fun _ hcur => hcur.step he, hcall⟩
  · rename_i op t hpc
    rw [hpc] at hf
    obtain ⟨rest, hcur⟩ := hf.1
    have hended : m.engine.free (.flow f) = true →
        Progress m.engine f (ops f) (ts f) (.ended .cancelled) := fun hfree =>
      ⟨hfree, .inr ⟨op, t, rest, hcur⟩⟩
    split at hs
    · rename_i u hc
      cases hs
      exact progress_setPc (m := m.report _) (fun g _ => h g) (hended (by simp [Engine.free, hc]))
    · rename_i err hc
      cases hs
      exact progress_setPc (m := m.report _) (fun g _ => h g) (hended (by simp [Engine.free, hc]))
    · cases hs
  · cases hs

/-- The flow's thread has the outcome of the current task. -/
theorem progress_afterWait {op : Op} {t : TaskId} {rest : List Op} {st : Status}
    (h : ∀ g, Progress m.engine g (ops g) (ts g) (m.pc g)) (hpc : m.pc f = .waiting op t rest)
    (hfin : FinishedAs m.engine t st) (hst : st ≠ .running) :
    ∀ g, Progress (m.afterWait f op t rest st).engine g (ops g) (ts g)
      ((m.afterWait f op t rest st).pc g) := by
  have hf := h f
  rw [hpc] at hf
  obtain ⟨hcur, hfree⟩ := hf
  cases st with
  | completed =>
    exact progress_setPc (m := m.report _) (fun g _ => h g) ⟨hcur.completed hfin, hfree⟩
  | cancelled => exact progress_setPc (fun g _ => h g) ⟨⟨rest, hcur⟩, hfree⟩
  | failed =>
    simp only [Flows.afterWait]
    split
    · exact progress_setPc (fun g _ => h g) ⟨⟨rest, hcur⟩, hfree⟩
    · exact progress_setPc (m := m.report _) (fun g _ => h g)
        ⟨hfree, .inr ⟨op, t, rest, hcur, hfin⟩⟩
  | running => exact absurd rfl hst

end

-- ============================================================================
-- Steps of the runs
-- ============================================================================

section

variable {s s' : FlowRuns} {m : Flows} {fa : FlowAct} {a : Act} {e e' : Engine} {f : String}

/-- The task of each position runs the operation of that position. -/
def InOrder (e : Engine) (f : String) (ops : List Op) (ts : List TaskId) : Prop :=
  ∀ (i : Nat) (t : TaskId), ts[i]? = some t → ∃ op, ops[i]? = some op ∧ RunsUnder e (busyKey f op) t

theorem InOrder.step {ops : List Op} {ts : List TaskId} (h : InOrder e f ops ts)
    (hs : e.step a = some e') : InOrder e' f ops ts := fun i t ht =>
  (h i t ht).imp fun _ hop => ⟨hop.1, hop.2.step hs⟩

theorem InOrder.length_le {ops : List Op} {ts : List TaskId} (h : InOrder e f ops ts) :
    ts.length ≤ ops.length := by
  by_contra hlt
  rw [Nat.not_le] at hlt
  obtain ⟨op, hop, -⟩ := h ops.length _ (List.getElem?_eq_getElem hlt)
  rw [List.getElem?_eq_none (Nat.le_refl _)] at hop
  cases hop

/-- The invariant of the runs. -/
structure Orderly (s : FlowRuns) : Prop where
  progress : ∀ f, Progress s.engine f (s.ops f) (s.tasks f) (s.flows.pc f)
  order : ∀ f, InOrder s.engine f (s.ops f) (s.tasks f)
  registered : Registered s.engine
  neverRunning : ∀ t x, s.engine.task t = some x → NeverRunning x

theorem orderly_initial : Orderly .initial where
  progress _ := ⟨rfl, rfl⟩
  order _ _ _ ht := by cases ht
  registered := registered_initial
  neverRunning _ _ hx := by cases hx

theorem recordTasks_engine (h : ∀ t, a ≠ .enter (.flow f) t) :
    s.recordTasks (.engine a) f = s.tasks f := by
  cases a with
  | enter c t =>
    cases c with
    | rpc n => rfl
    | flow g =>
      have hg : f ≠ g := fun hfg => h t (by rw [hfg])
      simp only [FlowRuns.recordTasks]
      cases s.engine.call (.flow g) with
      | admitted key b => cases b <;> simp [hg]
      | _ => rfl
  | _ => rfl

/-- A start of the flow by its own call is a start of the current operation. -/
theorem recordTasks_enter {t : TaskId} {key : Key}
    (hc : s.engine.call (.flow f) = .admitted key true) :
    s.recordTasks (.engine (.enter (.flow f) t)) f = s.tasks f ++ [t] := by
  simp [FlowRuns.recordTasks, hc]

theorem recordTasks_refused {t : TaskId} {key : Key}
    (hc : s.engine.call (.flow f) = .admitted key false) :
    s.recordTasks (.engine (.enter (.flow f) t)) f = s.tasks f := by
  simp [FlowRuns.recordTasks, hc]

/-- Step lemma for the engine's own steps. -/
theorem orderly_engine (h : Orderly s) (hown : a.byFlow = false) (hs : s.engine.step a = some e)
    (f : String) : Progress e f (s.ops f) (s.recordTasks (.engine a) f) (s.flows.pc f) ∧
      InOrder e f (s.ops f) (s.recordTasks (.engine a) f) := by
  have hprog := h.progress f
  cases step_flow_call hs hown f with
  | still hcall hne =>
    rw [recordTasks_engine hne]
    exact ⟨hprog.step hs hcall, (h.order f).step hs⟩
  | @checked key ha hc hc' =>
    obtain ⟨op, rest, hpc, hkey, hrem⟩ := hprog.starting (.inl hc)
    rw [recordTasks_engine (by rw [ha]; simp), hpc]
    refine ⟨?_, (h.order f).step hs⟩
    unfold Progress
    rcases hc' with hc' | hc' <;> rw [hc']
    · exact hrem.step hs
    · exact ⟨hkey, hrem.step hs⟩
  | @admitted key b ha hc hc' =>
    obtain ⟨op, rest, hpc, hkey, hrem⟩ := hprog.starting (.inr (.inl hc))
    rw [recordTasks_engine (by rw [ha]; simp), hpc]
    refine ⟨?_, (h.order f).step hs⟩
    unfold Progress
    rw [hc']
    exact ⟨hkey, hrem.step hs⟩
  | @refused t key ha hc hc' =>
    obtain ⟨op, rest, hpc, hkey, hrem⟩ := hprog.starting (.inr (.inr ⟨_, hc⟩))
    rw [ha, recordTasks_refused hc, hpc]
    refine ⟨?_, (h.order f).step hs⟩
    unfold Progress
    rw [hc']
    exact hrem.step hs
  | @entered t key ha hc hc' hnew =>
    obtain ⟨op, rest, hpc, hkey, hrem⟩ := hprog.starting (.inr (.inr ⟨_, hc⟩))
    rw [ha, recordTasks_enter hc, hpc]
    rw [hkey] at hnew
    constructor
    · unfold Progress
      rw [hc']
      exact hrem.enter hs hnew
    · intro i u hu
      rcases Nat.lt_or_ge i (s.tasks f).length with hi | hi
      · rw [List.getElem?_append_left hi] at hu
        exact (h.order f).step hs i u hu
      · rw [List.getElem?_append_right hi, List.getElem?_singleton] at hu
        split at hu <;> cases hu
        rename_i hlast
        refine ⟨op, ?_, _, hnew, rfl⟩
        rw [show i = (s.tasks f).length by omega]
        exact hrem.next_op
  | @cancelled t b ha hc hc' =>
    obtain ⟨op, u, hpc, rest, hcur⟩ := hprog.cancelling hc
    rw [recordTasks_engine (by rw [ha]; simp), hpc]
    exact ⟨⟨⟨rest, hcur.step hs⟩, hc'⟩, (h.order f).step hs⟩

theorem recordTasks_other (hfa : ∀ a, fa ≠ .engine a) (hbegin : ∀ ops, fa ≠ .begin f ops) :
    s.recordTasks fa f = s.tasks f := by
  cases fa with
  | engine a => exact absurd rfl (hfa a)
  | begin g ops =>
    have hg : f ≠ g := fun hfg => hbegin ops (by rw [hfg])
    simp [FlowRuns.recordTasks, hg]
  | _ => rfl

theorem recordOps_other (hbegin : ∀ ops, fa ≠ .begin f ops) : s.recordOps fa f = s.ops f := by
  cases fa with
  | begin g ops =>
    have hg : f ≠ g := fun hfg => hbegin ops (by rw [hfg])
    simp [FlowRuns.recordOps, hg]
  | _ => rfl

/-- A thread that is not in a run is not in a call either. -/
theorem Progress.not_running {ops : List Op} {ts : List TaskId}
    (h : Progress e f ops ts (m.pc f)) (hrun : m.isRunning f = false) :
    e.free (.flow f) = true := by
  unfold Flows.isRunning at hrun
  split at hrun
  · rename_i hpc
    rw [hpc] at h
    exact h.2
  · rename_i st hpc
    rw [hpc] at h
    exact h.1
  · cases hrun

/-- Step lemma for the points of the threads. -/
theorem progress_step (h : Orderly s) (hs : s.flows.step fa = some m) :
    ∀ f, Progress m.engine f (s.recordOps fa f) (s.recordTasks fa f) (m.pc f) := by
  cases fa with
  | engine a =>
    simp only [Flows.step] at hs
    split at hs
    · cases hs
    · rename_i hown
      obtain ⟨e, he, rfl⟩ := Option.map_eq_some_iff.mp hs
      exact fun f => (orderly_engine h (by simpa using hown) he f).1
  | begin f ops =>
    simp only [Flows.step] at hs
    split at hs
    · cases hs
    · rename_i hguard
      cases hs
      have hrun : s.flows.isRunning f = false := by
        simp only [Bool.or_eq_true, not_or, Bool.not_eq_true] at hguard
        exact hguard.1.1
      refine progress_setPc (m := { s.flows with cancelled := _ }) (fun g hg => ?_)
        ⟨⟨?_, ?_⟩, (h.progress f).not_running hrun⟩
      · simpa [FlowRuns.recordOps, FlowRuns.recordTasks, hg] using h.progress g
      · simp [FlowRuns.recordOps, FlowRuns.recordTasks]
      · simp [FlowRuns.recordTasks, AllCompleted]
  | stop f =>
    simp only [Flows.step] at hs
    split at hs <;> cases hs
    exact h.progress
  | next f => exact progress_next h.progress hs
  | giveUp f =>
    simp only [Flows.step] at hs
    split at hs
    · rename_i op t rest hpc
      split at hs <;> cases hs
      have hf := h.progress f
      rw [hpc] at hf
      exact progress_setPc (fun g _ => h.progress g) ⟨⟨rest, hf.1⟩, hf.2⟩
    · cases hs
  | take f =>
    simp only [Flows.step] at hs
    split at hs
    · rename_i op t rest hpc
      split at hs
      · cases hs
      · rename_i st hst
        obtain ⟨e, he, rfl⟩ := Option.map_eq_some_iff.mp hs
        obtain ⟨x, hx, hout⟩ := Option.bind_eq_some_iff.mp hst
        have hfin := h.registered.outcome t x hx st hout
        refine progress_afterWait (m := { s.flows with engine := e }) (fun g => ?_) hpc
          (FinishedAs.step ⟨x, hx, hfin⟩ he) fun hrun => (h.neverRunning t x hx).2 (hrun ▸ hfin)
        exact (h.progress g).step he (take_call he)
    · cases hs

theorem flow_engine_step (P : Engine → Prop) (hs : s.flows.step fa = some m)
    (h : P s.engine) (hstep : ∀ a, s.engine.step a = some m.engine → P m.engine) : P m.engine := by
  rcases (flow_step hs).1 with heng | ⟨a, ha, -⟩
  · rw [heng]
    exact h
  · exact hstep a ha

/-- What a step can do to the tasks of the flow's run. -/
inductive Registers (s : FlowRuns) (fa : FlowAct) (f : String) (ts : List TaskId) : Prop where
  | none : (∀ ops, fa ≠ .begin f ops) → ts = s.tasks f → Registers s fa f ts
  | begun {ops : List Op} : fa = .begin f ops → ts = [] → Registers s fa f ts
  /-- The start of `op`, which is next in the list, goes through. -/
  | next {t : TaskId} {op : Op} {rest : List Op} {key : Key} : fa = .engine (.enter (.flow f) t) →
      ts = s.tasks f ++ [t] → s.flows.pc f = .starting op rest →
      s.engine.call (.flow f) = .admitted key true →
      (s.ops f)[(s.tasks f).length]? = some op → AllCompleted s.engine (s.tasks f) →
      Registers s fa f ts

theorem registers (h : Orderly s) (hs : s.flows.step fa = some m) (f : String) :
    Registers s fa f (s.recordTasks fa f) := by
  cases fa with
  | engine a =>
    simp only [Flows.step] at hs
    split at hs
    · cases hs
    · rename_i hown
      obtain ⟨e, he, rfl⟩ := Option.map_eq_some_iff.mp hs
      cases step_flow_call he (by simpa using hown) f with
      | still _ hne => exact .none (by simp) (recordTasks_engine hne)
      | checked ha => exact .none (by simp) (recordTasks_engine (by rw [ha]; simp))
      | admitted ha => exact .none (by simp) (recordTasks_engine (by rw [ha]; simp))
      | cancelled ha => exact .none (by simp) (recordTasks_engine (by rw [ha]; simp))
      | refused ha hc =>
        rw [ha]
        exact .none (by simp) (recordTasks_refused hc)
      | entered ha hc =>
        obtain ⟨op, rest, hpc, -, hrem⟩ := (h.progress f).starting (.inr (.inr ⟨_, hc⟩))
        rw [ha]
        exact .next rfl (recordTasks_enter hc) hpc hc hrem.next_op hrem.2
  | begin g ops =>
    by_cases hg : g = f
    · subst hg
      exact .begun rfl (by simp [FlowRuns.recordTasks])
    · have hne : ∀ ops', FlowAct.begin g ops ≠ .begin f ops' := fun _ heq => hg (by cases heq; rfl)
      exact .none hne (recordTasks_other (by simp) hne)
  | stop g => exact .none (by simp) rfl
  | next g => exact .none (by simp) rfl
  | giveUp g => exact .none (by simp) rfl
  | take g => exact .none (by simp) rfl

/-- Step lemma for the order of the tasks. -/
theorem order_step (h : Orderly s) (hs : s.flows.step fa = some m) (f : String) :
    InOrder m.engine f (s.recordOps fa f) (s.recordTasks fa f) := by
  cases registers h hs f with
  | none hbegin hts =>
    rw [hts, recordOps_other hbegin]
    exact flow_engine_step (InOrder · f _ _) hs (h.order f) fun _ ha => (h.order f).step ha
  | begun _ hts =>
    rw [hts]
    intro i t ht
    cases ht
  | @next t op rest key hfa hts =>
    subst hfa
    simp only [Flows.step] at hs
    split at hs
    · cases hs
    · rename_i hown
      obtain ⟨e, he, rfl⟩ := Option.map_eq_some_iff.mp hs
      exact (orderly_engine h (by simpa using hown) he f).2

/-- Step lemma. -/
theorem Orderly.step (h : Orderly s) (hs : s.step fa = some s') : Orderly s' := by
  obtain ⟨m, hm, rfl⟩ := Option.map_eq_some_iff.mp hs
  exact ⟨progress_step h hm, order_step h hm,
    flow_engine_step Registered hm h.registered fun _ ha => h.registered.step ha,
    flow_engine_step (fun e => ∀ t x, e.task t = some x → NeverRunning x) hm h.neverRunning
      fun _ ha => neverRunning_step h.neverRunning ha⟩

theorem orderly (h : runsSystem.Reachable s) : Orderly s := by
  refine h.invariant ?_ fun _ _ _ ho hs => ho.step hs
  rintro _ rfl
  exact orderly_initial

end

-- ============================================================================
-- Run discipline
-- ============================================================================

/-- The thread is past an operation that was cancelled or could not start, or
    the run has ended. -/
def Stuck (e : Engine) (f : String) : FlowPc → Prop
  | .starting _ _ => ∃ err, e.call (.flow f) = .refused err
  | .stopping _ _ | .stopped _ _ | .ended _ => True
  | _ => False

/-- An operation of the flow's run has failed, was cancelled or could not
    start, or the run has ended. -/
def Blocked (s : FlowRuns) (f : String) : Prop :=
  (∃ t ∈ s.tasks f, ∃ st, st ≠ .completed ∧ FinishedAs s.engine t st) ∨
    Stuck s.engine f (s.flows.pc f)

structure Disciplined (s : FlowRuns) (f : String) : Prop where
  /-- The operations are started in list order. -/
  order : InOrder s.engine f (s.ops f) (s.tasks f)
  /-- Each after its predecessor's task has finished `completed`. -/
  gate : ∀ (i : Nat) (t : TaskId), (s.tasks f)[i]? = some t → i + 1 < (s.tasks f).length →
    FinishedAs s.engine t .completed
  starts : ∀ fa s', s.step fa = some s' → Registers s fa f (s'.tasks f)
  /-- None is started by the rest of the run, whatever it is. -/
  blocked : Blocked s f → ∀ as s', (∀ ops, FlowAct.begin f ops ∉ as) →
    runsSystem.runFrom s as = some s' → s'.tasks f = s.tasks f
  single : ∀ t ∈ s.tasks f, ∀ u ∈ s.tasks f, t ∈ s.engine.active → u ∈ s.engine.active → t = u
  completed : s.flows.pc f = .ended .completed →
    (s.tasks f).length = (s.ops f).length ∧ AllCompleted s.engine (s.tasks f)
  failed : s.flows.pc f = .ended .failed →
    (∃ t, (s.tasks f).getLast? = some t ∧ FinishedAs s.engine t .failed) ∨
      (s.tasks f).length < (s.ops f).length ∧ ∃ err, s.engine.call (.flow f) = .refused err

section

variable {s s' : FlowRuns} {m m' : Flows} {fa : FlowAct} {e : Engine} {f : String} {ops : List Op}
  {ts : List TaskId} {pc : FlowPc}

theorem FinishedAs.unique {t : TaskId} {st st' : Status} (h : FinishedAs e t st)
    (h' : FinishedAs e t st') : st = st' := by
  obtain ⟨x, hx, hpc⟩ := h
  obtain ⟨y, hy, hpc'⟩ := h'
  obtain rfl := Option.some.inj (hx.symm.trans hy)
  exact TaskPc.finished.inj (hpc.symm.trans hpc')

/-- Up to the last task every one is completed. -/
theorem Progress.before_last (h : Progress e f ops ts pc) :
    AllCompleted e ts ∨ ∃ before t, ts = before ++ [t] ∧ AllCompleted e before := by
  have hcur : ∀ {op t rest}, Current e f ops ts op t rest →
      ∃ before t, ts = before ++ [t] ∧ AllCompleted e before :=
    fun ⟨before, hts, hrem, _⟩ => ⟨before, _, hts, hrem.2⟩
  cases pc with
  | idle =>
    rw [h.1]
    exact .inl fun _ h => absurd h List.not_mem_nil
  | top rest => exact .inl h.1.2
  | starting op rest =>
    unfold Progress at h
    cases hc : e.call (.flow f) with
    | checking key | reserved key =>
      rw [hc] at h
      exact .inl h.2.2
    | admitted key b =>
      rw [hc] at h
      exact .inl h.2.2
    | refused err =>
      rw [hc] at h
      exact .inl h.2
    | returned t =>
      rw [hc] at h
      exact .inr (hcur h)
    | _ =>
      rw [hc] at h
      exact h.elim
  | waiting op t rest => exact .inr (hcur h.1)
  | stopping op t => exact .inr (hcur h.1.choose_spec)
  | stopped op t => exact .inr (hcur h.1.choose_spec)
  | ended st =>
    cases st with
    | completed => exact .inl h.2.2
    | failed =>
      rcases h.2 with ⟨op, rest, hrem, -⟩ | ⟨op, t, rest, hc, -⟩
      · exact .inl hrem.2
      · exact .inr (hcur hc)
    | cancelled =>
      rcases h.2 with ⟨rest, hrem⟩ | ⟨op, t, rest, hc⟩
      · exact .inl hrem.2
      · exact .inr (hcur hc)
    | running => exact h.2.elim

/-- Only the last task of a run can be unfinished. -/
theorem Orderly.gate (h : Orderly s) (f : String) (i : Nat) (t : TaskId)
    (ht : (s.tasks f)[i]? = some t) (hi : i + 1 < (s.tasks f).length) :
    FinishedAs s.engine t .completed := by
  rcases (h.progress f).before_last with hall | ⟨before, last, hts, hall⟩
  · exact hall t (List.mem_of_getElem? ht)
  · rw [hts, List.length_append, List.length_singleton] at hi
    rw [hts, List.getElem?_append_left (by omega)] at ht
    exact hall t (List.mem_of_getElem? ht)

theorem FinishedAs.not_active {t : TaskId} {st : Status} (h : Registered e)
    (hfin : FinishedAs e t st) : t ∉ e.active := by
  intro ht
  obtain ⟨x, hx, hpc⟩ := hfin
  obtain ⟨y, hy, hu⟩ := h.active t ht
  obtain rfl := Option.some.inj (hx.symm.trans hy)
  rw [Task.unfinished, hpc] at hu
  cases hu

theorem Orderly.single (h : Orderly s) (f : String) (t : TaskId) (ht : t ∈ s.tasks f) (u : TaskId)
    (hu : u ∈ s.tasks f) (hat : t ∈ s.engine.active) (hau : u ∈ s.engine.active) : t = u := by
  rcases (h.progress f).before_last with hall | ⟨before, last, hts, hall⟩
  · exact absurd hat ((hall t ht).not_active h.registered)
  · have hlast : ∀ v ∈ s.tasks f, v ∈ s.engine.active → v = last := by
      intro v hv hav
      rw [hts] at hv
      rcases List.mem_append.mp hv with hv | hv
      · exact absurd hav ((hall v hv).not_active h.registered)
      · exact List.mem_singleton.mp hv
    rw [hlast t ht hat, hlast u hu hau]

theorem setPc_other {g : String} {pc : FlowPc} (hg : g ≠ f) : (m.setPc g pc).pc f = m.pc f := by
  simp [Flows.setPc, hg.symm]

theorem afterWait_pc_other {g : String} {op : Op} {t : TaskId} {rest : List Op} {st : Status}
    (hg : g ≠ f) : (m.afterWait g op t rest st).pc f = m.pc f := by
  cases st with
  | completed => exact setPc_other hg
  | cancelled => exact setPc_other hg
  | running | failed =>
    simp only [Flows.afterWait]
    split <;> exact setPc_other hg

/-- The threads of the other flows leave a flow where it is. -/
theorem flow_others (hs : m.step fa = some m') (hbegin : ∀ ops, fa ≠ .begin f ops)
    (hnext : fa ≠ .next f) (hgive : fa ≠ .giveUp f) (htake : fa ≠ .take f) :
    m'.pc f = m.pc f ∧ (m'.engine.call (.flow f) = m.engine.call (.flow f) ∨
      ∃ a, fa = .engine a ∧ a.byFlow = false ∧ m.engine.step a = some m'.engine) := by
  cases fa with
  | engine a =>
    simp only [Flows.step] at hs
    split at hs
    · cases hs
    · rename_i hown
      obtain ⟨e, he, rfl⟩ := Option.map_eq_some_iff.mp hs
      exact ⟨rfl, .inr ⟨a, rfl, by simpa using hown, he⟩⟩
  | begin g ops =>
    have hg : g ≠ f := fun hgf => hbegin ops (by rw [hgf])
    simp only [Flows.step] at hs
    split at hs <;> cases hs
    exact ⟨setPc_other hg, .inl rfl⟩
  | stop g =>
    simp only [Flows.step] at hs
    split at hs <;> cases hs
    exact ⟨rfl, .inl rfl⟩
  | next g =>
    have hg : g ≠ f := fun hgf => hnext (by rw [hgf])
    have hcaller : Caller.flow f ≠ .flow g := fun hfg => hg (Caller.flow.inj hfg).symm
    simp only [Flows.step, Flows.runOps] at hs
    split at hs
    · cases hs
      exact ⟨setPc_other hg, .inl rfl⟩
    · split at hs
      · cases hs
        exact ⟨setPc_other hg, .inl rfl⟩
      · obtain ⟨e, he, rfl⟩ := Option.map_eq_some_iff.mp hs
        exact ⟨setPc_other hg, .inl ((startPathSync_step he).1 _ hcaller)⟩
    · split at hs <;> cases hs <;> exact ⟨setPc_other hg, .inl rfl⟩
    · obtain ⟨e, he, rfl⟩ := Option.map_eq_some_iff.mp hs
      exact ⟨setPc_other hg, .inl ((stopSync_step he).1 _ hcaller)⟩
    · split at hs <;> cases hs <;> exact ⟨setPc_other hg, .inl rfl⟩
    · cases hs
  | giveUp g =>
    have hg : g ≠ f := fun hgf => hgive (by rw [hgf])
    simp only [Flows.step] at hs
    split at hs
    · split at hs <;> cases hs
      exact ⟨setPc_other hg, .inl rfl⟩
    · cases hs
  | take g =>
    have hg : g ≠ f := fun hgf => htake (by rw [hgf])
    simp only [Flows.step] at hs
    split at hs
    · rename_i op t rest hpc
      split at hs
      · cases hs
      · rename_i st hst
        obtain ⟨e, he, rfl⟩ := Option.map_eq_some_iff.mp hs
        refine ⟨afterWait_pc_other hg, .inl ?_⟩
        rw [(afterWait_spec _ g op t rest st).1]
        exact take_call he
    · cases hs

theorem stuck_setPc {pc : FlowPc} (h : Stuck m.engine f pc) :
    Stuck (m.setPc f pc).engine f ((m.setPc f pc).pc f) := by
  simpa [Flows.setPc] using h

theorem Stuck.step (h : Stuck m.engine f (m.pc f)) (hs : m.step fa = some m')
    (hbegin : ∀ ops, fa ≠ .begin f ops) : Stuck m'.engine f (m'.pc f) := by
  by_cases hnext : fa = .next f
  · subst hnext
    simp only [Flows.step, Flows.runOps] at hs
    split at hs
    · rename_i hpc
      rw [hpc] at h
      exact h.elim
    · rename_i hpc
      rw [hpc] at h
      exact h.elim
    · rename_i hpc
      rw [hpc] at h
      obtain ⟨err, herr⟩ := h
      rw [herr] at hs
      cases hs
      exact stuck_setPc trivial
    · obtain ⟨e, he, rfl⟩ := Option.map_eq_some_iff.mp hs
      exact stuck_setPc trivial
    · split at hs <;> cases hs <;> exact stuck_setPc trivial
    · cases hs
  by_cases hwait : fa = .giveUp f ∨ fa = .take f
  · have hnot : ∀ op t rest, m.pc f ≠ .waiting op t rest := by
      intro op t rest hpc
      rw [hpc] at h
      exact h
    rcases hwait with rfl | rfl <;> simp [Flows.step] at hs
  · rw [not_or] at hwait
    obtain ⟨hpc, hcall⟩ := flow_others hs hbegin hnext hwait.1 hwait.2
    rw [hpc]
    cases hp : m.pc f with
    | starting op rest =>
      rw [hp] at h
      obtain ⟨err, herr⟩ := h
      refine ⟨err, ?_⟩
      rcases hcall with hcall | ⟨a, -, hown, ha⟩
      · exact hcall.trans herr
      · cases step_flow_call ha hown f with
        | still hcall => exact hcall.trans herr
        | checked _ hc | admitted _ hc | refused _ hc | entered _ hc | cancelled _ hc =>
          rw [herr] at hc
          cases hc
    | stopping op t => exact trivial
    | stopped op t => exact trivial
    | ended st => exact trivial
    | idle | top rest | waiting op t rest =>
      rw [hp] at h
      exact h.elim

/-- A step of another kind than `begin` leaves a blocked run blocked. -/
theorem Blocked.step (h : Orderly s) (hb : Blocked s f) (hs : s.step fa = some s')
    (hbegin : ∀ ops, fa ≠ .begin f ops) : s'.tasks f = s.tasks f ∧ Blocked s' f := by
  obtain ⟨m, hm, rfl⟩ := Option.map_eq_some_iff.mp hs
  have hts : s.recordTasks fa f = s.tasks f := by
    cases registers h hm f with
    | none _ hts => exact hts
    | begun hfa => exact absurd hfa (hbegin _)
    | next _ _ hpc hc _ hall =>
      rcases hb with ⟨t, ht, st, hst, hfin⟩ | hb
      · exact absurd (hfin.unique (hall t ht)) hst
      · rw [hpc] at hb
        obtain ⟨err, herr⟩ := hb
        rw [hc] at herr
        cases herr
  refine ⟨hts, ?_⟩
  rcases hb with ⟨t, ht, st, hst, hfin⟩ | hb
  · refine .inl ⟨t, (congrArg (t ∈ ·) hts).mpr ht, st, hst, ?_⟩
    exact flow_engine_step (FinishedAs · t st) hm hfin fun _ ha => hfin.step ha
  · exact .inr (hb.step hm hbegin)

/-- Run lemma for blocked runs. -/
theorem blocked_run {as : List FlowAct} (h : Orderly s) (hb : Blocked s f)
    (hbegin : ∀ ops, FlowAct.begin f ops ∉ as) (hs : runsSystem.runFrom s as = some s') :
    s'.tasks f = s.tasks f := by
  induction as generalizing s with
  | nil =>
    obtain rfl := Option.some.inj hs
    rfl
  | cons fa as ih =>
    obtain ⟨s₁, h₁, h₂⟩ := Option.bind_eq_some_iff.mp hs
    obtain ⟨hts, hb₁⟩ := hb.step h h₁ fun ops hfa => hbegin ops (by rw [hfa]; exact .head _)
    rw [← hts]
    exact ih (h.step h₁) hb₁ (fun ops hmem => hbegin ops (.tail _ hmem)) h₂

end

/-- In every run of flows, tasks, stops and detaches each flow keeps to the
    order of its operations. -/
theorem flow_disciplined {s : FlowRuns} (h : runsSystem.Reachable s) (f : String) : Disciplined s f := by
  have ho := orderly h
  have hprog := ho.progress f
  refine ⟨ho.order f, ho.gate f, fun fa s' hs => ?_, fun hb as s' hbegin hs => ?_,
    ho.single f, fun hpc => ?_, fun hpc => ?_⟩
  · obtain ⟨m, hm, rfl⟩ := Option.map_eq_some_iff.mp hs
    exact registers ho hm f
  · exact blocked_run ho hb hbegin hs
  · rw [hpc] at hprog
    obtain ⟨-, hdrop, hall⟩ := hprog
    exact ⟨Nat.le_antisymm (ho.order f).length_le (List.drop_eq_nil_iff.mp hdrop), hall⟩
  · rw [hpc] at hprog
    rcases hprog.2 with ⟨op, rest, hrem, err, hc⟩ | ⟨op, t, rest, ⟨before, hts, -⟩, hfin⟩
    · exact .inr ⟨(List.getElem?_eq_some_iff.mp hrem.next_op).1, err, hc⟩
    · exact .inl ⟨t, by rw [hts, List.getLast?_concat], hfin⟩

/-- The thread of "f" starts the operation it is at as task `t`. -/
def startedOp (t : TaskId) : List FlowAct :=
  [.next "f", .engine (.check (.flow "f")), .engine (.takeAdmit (.flow "f")),
    .engine (.enter (.flow "f") t), .next "f"]

/-- Two operations; the first transfers, the second fails. -/
def failedRun : List FlowAct :=
  List.replicate 4 (.engine .plane) ++ [.engine .start, .begin "f" [⟨"o", true⟩, ⟨"p", true⟩]] ++
    startedOp 0 ++ taskSteps 10 ++ [.take "f"] ++ startedOp 1 ++
    List.replicate 11 (.engine (.task 1 (.error false))) ++ [.take "f"]

theorem flow_disciplined_failed :
    ∃ s, runsSystem.runFrom .initial failedRun = some s ∧
      (s.flows.pc "f" = .ended .failed ∧ s.tasks "f" = [0, 1]) ∧ Disciplined s "f" := by
  have hrun : (runsSystem.runFrom .initial failedRun).any (fun s =>
      decide (s.flows.pc "f" = .ended .failed ∧ s.tasks "f" = [0, 1])) = true := by
    decide +kernel
  obtain ⟨s, hs, hend⟩ := (Option.any_eq_true _ _).mp hrun
  exact ⟨s, hs, of_decide_eq_true hend,
    flow_disciplined (System.runFrom_reachable (.init rfl) hs) "f"⟩

end GnDrive.Sync
