/-
  GnDrive.Sync.Engine

  The sync engine (`sync_engine.rs`) as a transition system: every thread that
  is in one of its functions, one step for each section under a lock or each
  access to a shared value.

  The threads are

    * callers of `start_sync`, `start_path_sync` and `stop_sync`,
    * callers of `SyncEngine::stop`; `start` is a single step,
    * one task thread for each task, from `spawn` to the end of `Finish::drop`,
    * the container, which opens and closes the data plane under its own lock
      (`open_data_plane`, `before_lock`) and attaches and detaches the engine.

  `life` and the cron driver are left out: `start` sets the run flag, and
  `stop` clears it before anything else.  The final join of `stop` is left out
  too; nothing waits for it.  So are progress events, statistics and the texts
  of errors.
-/

import GnDrive.Lib.System
import Mathlib.Logic.Function.Basic
import Mathlib.Tactic.SplitIfs

namespace GnDrive.Sync

/-- A busy key: a profile name, or `flowID:opID`. -/
abbrev Key := String

/-- Task ids are random and do not repeat. -/
abbrev TaskId := Nat

/-- What `status`, `state` and the terminal events name. -/
inductive Status where
  | running
  | completed
  | failed
  | cancelled
deriving DecidableEq, Repr

inductive SyncEngineError where
  | notRunning
  | storeNotReady
  | profileBusy
  | pathsRequired
  | taskNotFound
  | store
deriving DecidableEq, Repr

-- ============================================================================
-- Tasks
-- ============================================================================

/-- Where a task thread is in `run_sync`; `st` is the local `state`. -/
inductive TaskPc where
  | spawned
  /-- `save_history` of the running row has cloned the store slot. -/
  | savingRunning (store : Option Nat)
  /-- About to clone the client slot. -/
  | readClient
  | calling
  /-- The client returned an error. -/
  | deciding (errCancelled : Bool)
  /-- About to `set_status`. -/
  | settling (st : Status)
  /-- About to publish the terminal event. -/
  | publishing (st : Status)
  /-- About to save the final row. -/
  | ended (st : Status)
  | savingFinal (st : Status) (store : Option Nat)
  /-- In `Finish::drop`, about to read the status. -/
  | finishing
  | releasing (st : Status)
  | finished (st : Status)
deriving DecidableEq, Repr

/-- A `SyncTask` with its thread, its history row, the terminal events
    published for it, its entry in `outcomes`, and whether a client call for
    it has returned `Ok`. -/
structure Task where
  key : Key
  status : Status
  token : Bool
  pc : TaskPc
  row : Option Status
  events : List Status
  outcome : Option Status
  transferred : Bool
deriving DecidableEq, Repr

/-- `SyncTask::new`. -/
def Task.new (key : Key) : Task := ⟨key, .running, false, .spawned, none, [], none, false⟩

-- ============================================================================
-- Threads
-- ============================================================================

/-- Threads that call into the engine. -/
inductive Caller where
  | rpc (n : Nat)
  | flow (id : String)
deriving DecidableEq, Repr

inductive CallPc where
  | idle
  /-- Past the early checks of `start_sync` or `start_path_sync`. -/
  | checking (key : Key)
  /-- The busy key has been inserted. -/
  | reserved (key : Key)
  /-- Holds `admit` and has read the run flag. -/
  | admitted (key : Key) (running : Bool)
  /-- In `SyncTask::cancel`; the flag says whether the token is set. -/
  | cancelling (t : TaskId) (token : Bool)
  | returned (t : TaskId)
  | refused (e : SyncEngineError)
deriving DecidableEq

inductive StopPc where
  | idle
  /-- The run flag is cleared. -/
  | flagged
  /-- Holds `admit`; `now` is the task whose token is set. -/
  | cancelling (ts : List TaskId) (now : Option TaskId)
deriving DecidableEq, Repr

/-- Where the container is between opening and closing the data plane. -/
inductive PlanePc where
  | closed
  | storeOpen
  | storeAttached
  | clientAttached
  | ready
  | storeDetached
  | clientDetached
  | flowDetached
deriving DecidableEq, Repr

/-- `store`, `client` and `flow` are the slots of the sync engine and the flow
    engine; stores are numbered in the order they are opened. -/
structure Engine where
  running : Bool
  admitHeld : Bool
  busy : Key → Bool
  active : List TaskId
  task : TaskId → Option Task
  call : Caller → CallPc
  stop : Nat → StopPc
  store : Option Nat
  client : Bool
  flow : Bool
  openStore : Option Nat
  opened : Nat
  plane : PlanePc

/-- An engine that has not been started, without a data plane. -/
def Engine.initial : Engine where
  running := false
  admitHeld := false
  busy _ := false
  active := []
  task _ := none
  call _ := .idle
  stop _ := .idle
  store := none
  client := false
  flow := false
  openStore := none
  opened := 0
  plane := .closed

/-- What the rclone client returns. -/
inductive Answer where
  | ok
  | error (cancelled : Bool)
deriving DecidableEq, Repr

inductive Act where
  | plane
  | start
  | stopFlag (j : Nat)
  | stopHarvest (j : Nat)
  | stopCancel (j : Nat) (t : TaskId)
  | stopDone (j : Nat)
  /-- `found` says whether `get_profile` succeeds. -/
  | startSync (c : Caller) (key : Key) (found : Bool)
  /-- `paths` says whether both paths are given. -/
  | startPathSync (c : Caller) (key : Key) (paths : Bool)
  | check (c : Caller)
  | takeAdmit (c : Caller)
  | enter (c : Caller) (t : TaskId)
  | stopSync (c : Caller) (t : TaskId)
  | cancel (c : Caller)
  | task (t : TaskId) (answer : Answer)
  | take (t : TaskId)
deriving DecidableEq

-- ============================================================================
-- The task thread
-- ============================================================================

/-- `save_history` through a cloned slot: nothing without a store, and nothing
    but a warning when the store has been closed. -/
def saveHistory (e : Engine) (store : Option Nat) (st : Status) (row : Option Status) :
    Option Status :=
  if store.isSome && store == e.openStore then some st else row

/-- The next step of `run_sync` and `Finish::drop`. -/
def Task.advance (e : Engine) (answer : Answer) (x : Task) : Option Task :=
  match x.pc with
  | .spawned => some { x with pc := .savingRunning e.store }
  | .savingRunning store =>
      some { x with row := saveHistory e store .running x.row, pc := .readClient }
  | .readClient => some { x with pc := if e.client then .calling else .settling .completed }
  | .calling =>
      match answer with
      | .ok => some { x with transferred := true, pc := .settling .completed }
      | .error cancelled => some { x with pc := .deciding cancelled }
  | .deciding errCancelled =>
      let cancelled := x.token || x.status == .cancelled || errCancelled
      some { x with pc := .settling (if cancelled then .cancelled else .failed) }
  | .settling st => some { x with status := st, pc := .publishing st }
  | .publishing st => some { x with events := x.events ++ [st], pc := .ended st }
  | .ended st => some { x with pc := .savingFinal st e.store }
  | .savingFinal st store =>
      some { x with row := saveHistory e store st x.row, pc := .finishing }
  | .finishing =>
      let st := if x.status == .running then .failed else x.status
      some { x with status := st, pc := .releasing st }
  | .releasing st => some { x with outcome := some st, pc := .finished st }
  | .finished _ => none

/-- `Finish::drop` is about to take the task and its busy key out. -/
def Task.releases (x : Task) : Bool := match x.pc with | .releasing _ => true | _ => false

-- ============================================================================
-- Steps
-- ============================================================================

namespace Engine

def setTask (e : Engine) (t : TaskId) (x : Task) : Engine :=
  { e with task := Function.update e.task t (some x) }

def setCall (e : Engine) (c : Caller) (pc : CallPc) : Engine :=
  { e with call := Function.update e.call c pc }

def setStop (e : Engine) (j : Nat) (pc : StopPc) : Engine :=
  { e with stop := Function.update e.stop j pc }

def setBusy (e : Engine) (key : Key) (b : Bool) : Engine :=
  { e with busy := Function.update e.busy key b }

/-- Change a task object that the thread has a reference to. -/
def onTask (e : Engine) (t : TaskId) (f : Task → Task) : Engine :=
  match e.task t with
  | some x => e.setTask t (f x)
  | none => e

/-- A thread that is not in a call. -/
def free (e : Engine) (c : Caller) : Bool :=
  match e.call c with | .idle | .returned _ | .refused _ => true | _ => false

/-- The container's next step: `open_data_plane` up to `ready`, `before_lock`
    from there. -/
def planeStep (e : Engine) : Engine :=
  match e.plane with
  | .closed => { e with
      opened := e.opened + 1, openStore := some (e.opened + 1), plane := .storeOpen }
  | .storeOpen => { e with store := e.openStore, plane := .storeAttached }
  | .storeAttached => { e with client := true, plane := .clientAttached }
  | .clientAttached => { e with flow := true, plane := .ready }
  | .ready => { e with store := none, plane := .storeDetached }
  | .storeDetached => { e with client := false, plane := .clientDetached }
  | .clientDetached => { e with flow := false, plane := .flowDetached }
  | .flowDetached => { e with openStore := none, plane := .closed }

def step (e : Engine) : Act → Option Engine
  | .plane => some e.planeStep
  | .start => some { e with running := true }
  | .stopFlag j =>
      match e.stop j with
      | .idle => some ({ e with running := false }.setStop j .flagged)
      | _ => none
  | .stopHarvest j =>
      match e.stop j with
      | .flagged =>
          if e.admitHeld then none
          else some ({ e with admitHeld := true, active := [], busy := fun _ => false }.setStop j
            (.cancelling e.active none))
      | _ => none
  | .stopCancel j t =>
      match e.stop j with
      | .cancelling ts none =>
          if t ∈ ts then
            some ((e.onTask t fun x => { x with token := true }).setStop j
              (.cancelling ts (some t)))
          else none
      | .cancelling ts (some now) =>
          if t = now then
            some ((e.onTask t fun x => { x with status := .cancelled }).setStop j
              (.cancelling (ts.erase t) none))
          else none
      | _ => none
  | .stopDone j =>
      match e.stop j with
      | .cancelling [] none => some ({ e with admitHeld := false }.setStop j .idle)
      | _ => none
  | .startSync c key found =>
      if !e.free c then none
      else some (e.setCall c
        (if !e.running then .refused .notRunning
        else if e.store.isNone then .refused .storeNotReady
        else if !found then .refused .store
        else .checking key))
  | .startPathSync c key paths =>
      if !e.free c then none
      else some (e.setCall c
        (if !e.running then .refused .notRunning
        else if !paths then .refused .pathsRequired
        else .checking key))
  | .check c =>
      match e.call c with
      | .checking key =>
          if e.busy key then some (e.setCall c (.refused .profileBusy))
          else some ((e.setBusy key true).setCall c (.reserved key))
      | _ => none
  | .takeAdmit c =>
      match e.call c with
      | .reserved key =>
          if e.admitHeld then none
          else some ({ e with admitHeld := true }.setCall c (.admitted key e.running))
      | _ => none
  | .enter c t =>
      match e.call c with
      | .admitted key false =>
          some (({ e with admitHeld := false }.setBusy key false).setCall c
            (.refused .notRunning))
      | .admitted key true =>
          if (e.task t).isSome then none
          else some ((({ e with admitHeld := false, active := t :: e.active }.setBusy key true).setTask t
            (.new key)).setCall c (.returned t))
      | _ => none
  | .stopSync c t =>
      if !e.free c then none
      else if t ∈ e.active then some (e.setCall c (.cancelling t false))
      else some (e.setCall c (.refused .taskNotFound))
  | .cancel c =>
      match e.call c with
      | .cancelling t false =>
          some ((e.onTask t fun x => { x with token := true }).setCall c (.cancelling t true))
      | .cancelling t true =>
          some ((e.onTask t fun x => { x with status := .cancelled }).setCall c
            (.returned t))
      | _ => none
  | .task t answer =>
      match e.task t with
      | none => none
      | some x =>
          (x.advance e answer).map fun x' =>
            if x.releases then
              { (e.setTask t x').setBusy x.key false with active := e.active.erase t }
            else e.setTask t x'
  | .take t =>
      match e.task t with
      | none => none
      | some x => if x.outcome.isSome then some (e.setTask t { x with outcome := none }) else none

end Engine

def engineSystem : System Engine Act where
  init e := e = .initial
  step := Engine.step

-- ============================================================================
-- What a step can do to a task object
-- ============================================================================

/-- The task whose status the step overwrites with `cancelled`. -/
def Engine.cancels (e : Engine) : Act → Option TaskId
  | .cancel c => match e.call c with | .cancelling t true => some t | _ => none
  | .stopCancel j _ => match e.stop j with | .cancelling _ now => now | _ => none
  | _ => none

inductive Change (e : Engine) (a : Act) (t : TaskId) : Task → Task → Prop where
  | own {x x' : Task} {answer : Answer} :
      a = .task t answer → x.advance e answer = some x' → Change e a t x x'
  | token (x : Task) : Change e a t x { x with token := true }
  | cancelled (x : Task) : e.cancels a = some t → Change e a t x { x with status := .cancelled }
  | taken (x : Task) : Change e a t x { x with outcome := none }

section

variable {e e' : Engine} {a : Act}

@[simp] theorem setCall_task (e : Engine) (c : Caller) (pc : CallPc) :
    (e.setCall c pc).task = e.task := rfl

@[simp] theorem setStop_task (e : Engine) (j : Nat) (pc : StopPc) :
    (e.setStop j pc).task = e.task := rfl

@[simp] theorem setBusy_task (e : Engine) (key : Key) (b : Bool) :
    (e.setBusy key b).task = e.task := rfl

@[simp] theorem planeStep_task (e : Engine) : e.planeStep.task = e.task := by
  unfold Engine.planeStep
  cases e.plane <;> rfl

theorem setTask_task (e : Engine) (t u : TaskId) (x : Task) :
    (e.setTask t x).task u = e.task u ∨ u = t ∧ (e.setTask t x).task u = some x := by
  by_cases hu : u = t
  · subst hu
    exact .inr ⟨rfl, by simp [Engine.setTask]⟩
  · exact .inl (by simp [Engine.setTask, hu])

theorem onTask_task (e : Engine) (t u : TaskId) (f : Task → Task) :
    (e.onTask t f).task u = e.task u ∨
      u = t ∧ ∃ x, e.task t = some x ∧ (e.onTask t f).task u = some (f x) := by
  unfold Engine.onTask
  cases ht : e.task t with
  | none => exact .inl rfl
  | some x =>
    rcases setTask_task e t u (f x) with h | ⟨hu, h⟩
    · exact .inl h
    · exact .inr ⟨hu, x, rfl, h⟩

/-- A step leaves a task object alone, creates it, or puts it through one
    `Change`. -/
theorem step_task (hs : e.step a = some e') (t : TaskId) :
    e'.task t = e.task t ∨
      (∃ c key, a = .enter c t ∧ e.call c = .admitted key true ∧ e.task t = none ∧
        e'.task t = some (.new key)) ∨
      ∃ x x', e.task t = some x ∧ e'.task t = some x' ∧ Change e a t x x' := by
  cases a with
  | plane =>
    obtain rfl := Option.some.inj hs
    exact .inl (by rw [planeStep_task])
  | start =>
    obtain rfl := Option.some.inj hs
    exact .inl rfl
  | stopFlag j =>
    simp only [Engine.step] at hs
    split at hs <;> cases hs
    exact .inl rfl
  | stopHarvest j =>
    simp only [Engine.step] at hs
    split at hs
    · split at hs <;> cases hs
      exact .inl rfl
    · cases hs
  | stopCancel j u =>
    simp only [Engine.step] at hs
    split at hs
    · split at hs <;> cases hs
      rcases onTask_task e u t fun x => { x with token := true } with h | ⟨rfl, x, hx, h⟩
      · exact .inl h
      · exact .inr (.inr ⟨x, _, hx, h, .token x⟩)
    · rename_i ts now hj
      split at hs <;> cases hs
      rename_i hu
      rcases onTask_task e u t fun x => { x with status := .cancelled } with h | ⟨rfl, x, hx, h⟩
      · exact .inl h
      · exact .inr (.inr ⟨x, _, hx, h, .cancelled x (by simp [Engine.cancels, hj, hu])⟩)
    · cases hs
  | stopDone j =>
    simp only [Engine.step] at hs
    split at hs <;> cases hs
    exact .inl rfl
  | startSync c key found =>
    simp only [Engine.step] at hs
    split at hs <;> cases hs
    exact .inl rfl
  | startPathSync c key paths =>
    simp only [Engine.step] at hs
    split at hs <;> cases hs
    exact .inl rfl
  | check c =>
    simp only [Engine.step] at hs
    split at hs
    · split at hs <;> cases hs <;> exact .inl rfl
    · cases hs
  | takeAdmit c =>
    simp only [Engine.step] at hs
    split at hs
    · split at hs <;> cases hs
      exact .inl rfl
    · cases hs
  | enter c u =>
    simp only [Engine.step] at hs
    split at hs
    · cases hs
      exact .inl rfl
    · rename_i key hc
      split at hs <;> cases hs
      rename_i hu
      rcases setTask_task (({ e with admitHeld := false, active := u :: e.active }).setBusy key true)
        u t (.new key) with h | ⟨rfl, h⟩
      · exact .inl h
      · exact .inr (.inl ⟨c, key, rfl, hc, by simpa using hu, h⟩)
    · cases hs
  | stopSync c u =>
    simp only [Engine.step] at hs
    split at hs
    · cases hs
    · split at hs <;> cases hs <;> exact .inl rfl
  | cancel c =>
    simp only [Engine.step] at hs
    split at hs
    · rename_i u hc
      cases hs
      rcases onTask_task e u t fun x => { x with token := true } with h | ⟨rfl, x, hx, h⟩
      · exact .inl h
      · exact .inr (.inr ⟨x, _, hx, h, .token x⟩)
    · rename_i u hc
      cases hs
      rcases onTask_task e u t fun x => { x with status := .cancelled } with h | ⟨rfl, x, hx, h⟩
      · exact .inl h
      · exact .inr (.inr ⟨x, _, hx, h, .cancelled x (by simp [Engine.cancels, hc])⟩)
    · cases hs
  | task u answer =>
    simp only [Engine.step] at hs
    split at hs
    · cases hs
    · rename_i x hu
      obtain ⟨y, hy, rfl⟩ := Option.map_eq_some_iff.mp hs
      have htask : ∀ b : Bool, (if b = true then
          { (e.setTask u y).setBusy x.key false with active := e.active.erase u }
          else e.setTask u y).task = (e.setTask u y).task := by
        intro b
        cases b <;> rfl
      rw [htask]
      rcases setTask_task e u t y with h | ⟨rfl, h⟩
      · exact .inl h
      · exact .inr (.inr ⟨x, y, hu, h, .own rfl hy⟩)
  | take u =>
    simp only [Engine.step] at hs
    split at hs
    · cases hs
    · rename_i x hu
      split at hs <;> cases hs
      rcases setTask_task e u t { x with outcome := none } with h | ⟨rfl, h⟩
      · exact .inl h
      · exact .inr (.inr ⟨x, _, hu, h, .taken x⟩)

/-- What every new task has and every change preserves, every task has after
    the step. -/
theorem step_tasks {P : TaskId → Task → Prop} (hs : e.step a = some e')
    (hP : ∀ t x, e.task t = some x → P t x) (hnew : ∀ t key, P t (.new key))
    (hchange : ∀ t x x', e.task t = some x → P t x → Change e a t x x' → P t x') :
    ∀ t x, e'.task t = some x → P t x := by
  intro t x' hx'
  rcases step_task hs t with h | ⟨-, key, -, -, -, h⟩ | ⟨x, y, hx, h, hc⟩
  · exact hP t x' (h ▸ hx')
  · obtain rfl := Option.some.inj (h.symm.trans hx')
    exact hnew t key
  · obtain rfl := Option.some.inj (h.symm.trans hx')
    exact hchange t x _ hx (hP t x hx) hc

-- ============================================================================
-- What a step can do to a caller
-- ============================================================================

/-- Where a step can bring the caller `c`. -/
inductive CallChange (e : Engine) (a : Act) (c : Caller) : CallPc → Prop where
  | checking (key : Key) : CallChange e a c (.checking key)
  | reserved {key : Key} : a = .check c → e.call c = .checking key → e.busy key = false →
      CallChange e a c (.reserved key)
  | admitted {key : Key} (b : Bool) : a = .takeAdmit c → e.call c = .reserved key →
      CallChange e a c (.admitted key b)
  | cancelling (t : TaskId) (b : Bool) : CallChange e a c (.cancelling t b)
  | returned (t : TaskId) : CallChange e a c (.returned t)
  | refused (err : SyncEngineError) : CallChange e a c (.refused err)

@[simp] theorem setStop_call (e : Engine) (j : Nat) (pc : StopPc) :
    (e.setStop j pc).call = e.call := rfl

@[simp] theorem setBusy_call (e : Engine) (key : Key) (b : Bool) :
    (e.setBusy key b).call = e.call := rfl

@[simp] theorem setTask_call (e : Engine) (t : TaskId) (x : Task) :
    (e.setTask t x).call = e.call := rfl

@[simp] theorem onTask_call (e : Engine) (t : TaskId) (f : Task → Task) :
    (e.onTask t f).call = e.call := by
  unfold Engine.onTask
  split <;> rfl

@[simp] theorem planeStep_call (e : Engine) : e.planeStep.call = e.call := by
  unfold Engine.planeStep
  cases e.plane <;> rfl

theorem setCall_call (e : Engine) (c d : Caller) (pc : CallPc) :
    d ≠ c ∧ (e.setCall c pc).call d = e.call d ∨ d = c ∧ (e.setCall c pc).call d = pc := by
  by_cases hd : d = c
  · subst hd
    exact .inr ⟨rfl, by simp [Engine.setCall]⟩
  · exact .inl ⟨hd, by simp [Engine.setCall, hd]⟩

/-- A step leaves a caller where it is, or is one of the `CallChange`s; a
    caller that enters with a task does not stay. -/
theorem step_call (hs : e.step a = some e') (d : Caller) :
    e'.call d = e.call d ∧ (∀ t, a ≠ .enter d t) ∨ CallChange e a d (e'.call d) := by
  cases a with
  | plane =>
    obtain rfl := Option.some.inj hs
    exact .inl ⟨by rw [planeStep_call], nofun⟩
  | start =>
    obtain rfl := Option.some.inj hs
    exact .inl ⟨rfl, nofun⟩
  | stopFlag j =>
    simp only [Engine.step] at hs
    split at hs <;> cases hs
    exact .inl ⟨rfl, nofun⟩
  | stopHarvest j =>
    simp only [Engine.step] at hs
    split at hs
    · split at hs <;> cases hs
      exact .inl ⟨rfl, nofun⟩
    · cases hs
  | stopCancel j u =>
    simp only [Engine.step] at hs
    split at hs
    · split at hs <;> cases hs
      exact .inl ⟨by simp, nofun⟩
    · split at hs <;> cases hs
      exact .inl ⟨by simp, nofun⟩
    · cases hs
  | stopDone j =>
    simp only [Engine.step] at hs
    split at hs <;> cases hs
    exact .inl ⟨rfl, nofun⟩
  | startSync c key found =>
    simp only [Engine.step] at hs
    split at hs <;> cases hs
    rcases setCall_call e c d (if (!e.running) = true then .refused .notRunning
      else if e.store.isNone = true then .refused .storeNotReady
      else if (!found) = true then .refused .store else .checking key) with ⟨-, h⟩ | ⟨rfl, h⟩
    · exact .inl ⟨h, nofun⟩
    · rw [h]
      split_ifs
      · exact .inr (.refused _)
      · exact .inr (.refused _)
      · exact .inr (.refused _)
      · exact .inr (.checking key)
  | startPathSync c key paths =>
    simp only [Engine.step] at hs
    split at hs <;> cases hs
    rcases setCall_call e c d (if (!e.running) = true then .refused .notRunning
      else if (!paths) = true then .refused .pathsRequired else .checking key)
      with ⟨-, h⟩ | ⟨rfl, h⟩
    · exact .inl ⟨h, nofun⟩
    · rw [h]
      split_ifs
      · exact .inr (.refused _)
      · exact .inr (.refused _)
      · exact .inr (.checking key)
  | check c =>
    simp only [Engine.step] at hs
    split at hs
    · rename_i key hc
      split at hs
      · cases hs
        rcases setCall_call e c d (.refused .profileBusy) with ⟨-, h⟩ | ⟨rfl, h⟩
        · exact .inl ⟨h, nofun⟩
        · exact .inr (by rw [h]; exact .refused _)
      · rename_i hb
        cases hs
        rcases setCall_call (e.setBusy key true) c d (.reserved key) with ⟨-, h⟩ | ⟨rfl, h⟩
        · exact .inl ⟨h, nofun⟩
        · exact .inr (by rw [h]; exact .reserved rfl hc (by simpa using hb))
    · cases hs
  | takeAdmit c =>
    simp only [Engine.step] at hs
    split at hs
    · rename_i key hc
      split at hs <;> cases hs
      rcases setCall_call { e with admitHeld := true } c d (.admitted key e.running)
        with ⟨-, h⟩ | ⟨rfl, h⟩
      · exact .inl ⟨h, nofun⟩
      · exact .inr (by rw [h]; exact .admitted _ rfl hc)
    · cases hs
  | enter c u =>
    simp only [Engine.step] at hs
    split at hs
    · rename_i key hc
      cases hs
      rcases setCall_call ({ e with admitHeld := false }.setBusy key false) c d (.refused .notRunning)
        with ⟨hd, h⟩ | ⟨rfl, h⟩
      · exact .inl ⟨h, fun _ he => hd (by cases he; rfl)⟩
      · exact .inr (by rw [h]; exact .refused _)
    · rename_i key hc
      split at hs <;> cases hs
      rcases setCall_call (({ e with admitHeld := false, active := u :: e.active }.setBusy key
        true).setTask u (.new key)) c d (.returned u) with ⟨hd, h⟩ | ⟨rfl, h⟩
      · exact .inl ⟨h, fun _ he => hd (by cases he; rfl)⟩
      · exact .inr (by rw [h]; exact .returned _)
    · cases hs
  | stopSync c u =>
    simp only [Engine.step] at hs
    split at hs
    · cases hs
    · split at hs
      · cases hs
        rcases setCall_call e c d (.cancelling u false) with ⟨-, h⟩ | ⟨rfl, h⟩
        · exact .inl ⟨h, nofun⟩
        · exact .inr (by rw [h]; exact .cancelling _ _)
      · cases hs
        rcases setCall_call e c d (.refused .taskNotFound) with ⟨-, h⟩ | ⟨rfl, h⟩
        · exact .inl ⟨h, nofun⟩
        · exact .inr (by rw [h]; exact .refused _)
  | cancel c =>
    simp only [Engine.step] at hs
    split at hs
    · rename_i u hc
      cases hs
      rcases setCall_call (e.onTask u fun x => { x with token := true }) c d (.cancelling u true)
        with ⟨-, h⟩ | ⟨rfl, h⟩
      · exact .inl ⟨h.trans (by simp), nofun⟩
      · exact .inr (by rw [h]; exact .cancelling _ _)
    · rename_i u hc
      cases hs
      rcases setCall_call (e.onTask u fun x => { x with status := .cancelled }) c d (.returned u)
        with ⟨-, h⟩ | ⟨rfl, h⟩
      · exact .inl ⟨h.trans (by simp), nofun⟩
      · exact .inr (by rw [h]; exact .returned _)
    · cases hs
  | task u answer =>
    simp only [Engine.step] at hs
    split at hs
    · cases hs
    · obtain ⟨y, -, rfl⟩ := Option.map_eq_some_iff.mp hs
      refine .inl ⟨?_, nofun⟩
      split <;> rfl
  | take u =>
    simp only [Engine.step] at hs
    split at hs
    · cases hs
    · split at hs <;> cases hs
      exact .inl ⟨rfl, nofun⟩

end
end GnDrive.Sync
