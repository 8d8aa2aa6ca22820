/-
  GnDrive.Flows.Running

  Requests on flows and runs of flows.

  `ensure_flow_mutable` refuses a request while the flow is running, and
  `begin` loads the flow and then registers the run; the request's commit comes
  after its guard, and the registration after the load, with nothing held in
  between.  `running_flow_unedited` gives the condition under which no flow is
  changed while it runs and a run executes what is stored.

  Workers with requests on operations and `flows.save` are those of
  `GnDrive.Flows.Serial`; `flows.delete` and the threads of runs are added.
-/

import GnDrive.Flows.Order

namespace GnDrive.Flows

open Rpc (RpcError bind_eq_ok)

inductive FlowEngineError where
  | engineNotReady
  | alreadyRunning
  | emptyFlow
  | store (e : StoreError)

/-- Where a worker with `flows.delete` is. -/
inductive DeletePc where
  | idle
  | row (r : FlowRow)
  | loaded (id : Text)
  /-- Past `ensure_flow_mutable`. -/
  | mutable (id : Text)
  | deleted
  | failed (e : RpcError)

/-- Where a thread is that begins and runs a flow. -/
inductive StartPc where
  | idle
  | row (r : FlowRow)
  /-- `begin` has loaded the flow. -/
  | loaded (f : Flow)
  | running (id : Text)
  | finished
  | refused (e : FlowEngineError)

/-- A registered run, with the operations its thread executes. -/
structure Run where
  cancelled : Bool
  operations : List FlowOperation

def Run.cancel (run : Run) : Run := { run with cancelled := true }

structure Machine where
  workers : Workers
  deletes : Nat → DeletePc
  starts : Nat → StartPc
  runs : Text → Option Run

/-- `hub` says whether the runtime hub's snapshot shows the flow as running,
    `ready` whether the flow engine has a store and a sync engine. -/
inductive MachineAct where
  | query (i : Nat)
  | decide (i : Nat) (hub : Bool)
  | save (i : Nat)
  | delete (i : Nat) (hub : Bool)
  | start (k : Nat) (id : Text) (ready : Bool)
  | next (k : Nat)
  | stop (id : Text)

section

variable (J : JsonText) (jobs : List Request) (ids : List Text)

/-- The flow whose runs `ensure_flow_mutable` looks for. -/
def guarded (r : Request) : Pc → Option Text
  | .idle => (savedFlow J r).toOption.map (·.id)
  | .loaded f => some f.id
  | _ => none

namespace Machine

def isRunning (s : Machine) (id : Text) : Bool := (s.runs id).isSome

def setWorkers (s : Machine) (w : Workers) : Machine := { s with workers := w }

def setDb (s : Machine) (db : Db) : Machine := s.setWorkers { s.workers with db }

def setDelete (s : Machine) (i : Nat) (p : DeletePc) : Machine :=
  { s with deletes := Function.update s.deletes i p }

def setStart (s : Machine) (k : Nat) (p : StartPc) : Machine :=
  { s with starts := Function.update s.starts k p }

def setRun (s : Machine) (id : Text) (run : Option Run) : Machine :=
  { s with runs := Function.update s.runs id run }

/-- The next step of a worker that deletes the flow `id`. -/
def deleteStep (s : Machine) (i : Nat) (id : Text) (hub : Bool) : Option Machine :=
  match s.deletes i with
  | .idle =>
      match queryFlow s.workers.db id with
      | none => some (s.setDelete i (.failed (flowNotFound id)))
      | some r => some (s.setDelete i (.row r))
  | .row r => some (s.setDelete i (.loaded r.id))
  | .loaded id =>
      some (s.setDelete i (if s.isRunning id || hub then .failed (flowBusy id) else .mutable id))
  | .mutable id =>
      match deleteFlow id s.workers.db with
      | .error e => some (s.setDelete i (.failed (storeError e)))
      | .ok db => some ((s.setDb db).setDelete i .deleted)
  | _ => none

/-- `begin` from its first query on. -/
def startStep (s : Machine) (k : Nat) (id : Text) (ready : Bool) : Option Machine :=
  match s.starts k with
  | .idle =>
      if ready then
        match queryFlow s.workers.db id with
        | none => some (s.setStart k (.refused (.store .notFound)))
        | some r => some (s.setStart k (.row r))
      else some (s.setStart k (.refused .engineNotReady))
  | _ => none

/-- The next step of a thread that runs a flow. -/
def runStep (s : Machine) (k : Nat) : Option Machine :=
  match s.starts k with
  | .row r =>
      let f : Flow := { r with operations := listOperations J s.workers.db r.id }
      some (s.setStart k (if f.operations.isEmpty then .refused .emptyFlow else .loaded f))
  | .loaded f =>
      if s.isRunning f.id then some (s.setStart k (.refused .alreadyRunning))
      else some ((s.setRun f.id (some ⟨false, f.operations⟩)).setStart k (.running f.id))
  | .running id => some ((s.setRun id none).setStart k .finished)
  | _ => none

def step (s : Machine) : MachineAct → Option Machine
  | .query i => (workersStep J jobs s.workers (.query i)).map s.setWorkers
  | .decide i hub =>
      jobs[i]?.bind fun r =>
        let busy := (guarded J r (s.workers.pc i)).any s.isRunning || hub
        (workersStep J jobs s.workers (.decide i busy)).map s.setWorkers
  | .save i => (workersStep J jobs s.workers (.save i)).map s.setWorkers
  | .delete i hub => ids[i]?.bind fun id => s.deleteStep i id hub
  | .start k id ready => s.startStep k id ready
  | .next k => s.runStep J k
  | .stop id => some (s.setRun id ((s.runs id).map Run.cancel))

/-- The flow that the step is going to change in the store. -/
def commits (s : Machine) : MachineAct → Option Text
  | .save i =>
      match s.workers.pc i with
      | .ready _ f => some f.id
      | _ => none
  | .delete i _ =>
      match s.deletes i with
      | .mutable id => some id
      | _ => none
  | _ => none

end Machine

/-- One worker for each of `jobs` and for each of `ids`, and any number of
    threads that run a flow, over the store `db`. -/
def machineSystem (db : Db) : System Machine MachineAct where
  init s := s = ⟨⟨db, fun _ => .idle, []⟩, fun _ => .idle, fun _ => .idle, fun _ => none⟩
  step := Machine.step J jobs ids

/-- The stored operations of a flow. -/
def storedOperations (db : Db) (id : Text) : Option (List FlowOperation) :=
  (getFlow J db id).map (·.operations)

/-- A run is registered only when no request on the flow is between its guard
    and its commit, and the operations that `begin` has loaded are stored. -/
def RegistersStored (s : Machine) : MachineAct → Prop
  | .next k => ∀ f, s.starts k = .loaded f → s.runs f.id = none →
      (∀ a, s.commits a ≠ some f.id) ∧ storedOperations J s.workers.db f.id = some f.operations
  | _ => True

-- ============================================================================
-- One flow's request leaves the others alone
-- ============================================================================

variable {J jobs ids} {db db' : Db} {f g : Flow} {id : Text} {r : Request}

theorem upsertFlow_other {flows : List FlowRow} {now : Text} {row : FlowRow} (hne : id ≠ row.id) :
    (upsertFlow now row flows).find? (·.id = id) = flows.find? (·.id = id) := by
  unfold upsertFlow
  simp only
  split
  · rw [List.find?_map]
    have hcond : (fun r => decide (r.id = id)) ∘
        (fun r : FlowRow => if r.id = row.id then { row with
          canvasJson := if row.canvasJson = [] then "\x7b\x7d".toList else row.canvasJson
          createdAt := r.createdAt, updatedAt := now } else r) = fun r => decide (r.id = id) := by
      funext r
      simp only [Function.comp]
      split
      · rename_i h
        rw [h]
      · rfl
    rw [hcond]
    cases hfound : flows.find? (·.id = id) with
    | none => rfl
    | some found =>
      have hid : found.id = id := by simpa using List.find?_some hfound
      rw [Option.map_some, if_neg (by rw [hid]; exact hne)]
  · rw [List.find?_append, List.find?_singleton]
    simp [hne.symm]

theorem getFlow_congr (hrow : db'.flows.find? (·.id = id) = db.flows.find? (·.id = id))
    (hops : db'.operations.filter (·.flowId = id) = db.operations.filter (·.flowId = id)) :
    getFlow J db' id = getFlow J db id := by
  have hquery : queryFlow db' id = queryFlow db id := by
    unfold queryFlow
    rw [hrow]
  unfold getFlow
  rw [hquery]
  cases hfound : queryFlow db id with
  | none => rfl
  | some row =>
    have hid := queryFlow_id hfound
    simp only [Option.map_some, listOperations, hid, hops]

theorem getFlow_saveFlow_other {now : Text} (h : saveFlow J now f db = .ok db')
    (hne : id ≠ f.id) : getFlow J db' id = getFlow J db id := by
  obtain ⟨-, -, -, -, rfl⟩ := saveFlow_ok_iff.mp h
  refine getFlow_congr (upsertFlow_other hne) ?_
  have hnone : (f.operations.mapIdx (operationRow J f.id)).filter (·.flowId = id) = [] := by
    rw [List.filter_eq_nil_iff]
    intro row hrow
    obtain ⟨i, hi, rfl⟩ := List.mem_mapIdx.mp hrow
    simp [hne.symm]
  show (db.operations.filter (·.flowId ≠ f.id) ++
    f.operations.mapIdx (operationRow J f.id)).filter (·.flowId = id) = _
  rw [List.filter_append, hnone, List.append_nil, List.filter_filter]
  apply List.filter_congr
  intro row _
  by_cases hid : row.flowId = id
  · simp [hid, hne]
  · simp [hid]

theorem getFlow_deleteFlow_other {gone : Text} (h : deleteFlow gone db = .ok db')
    (hne : id ≠ gone) : getFlow J db' id = getFlow J db id := by
  unfold deleteFlow at h
  split at h
  · obtain rfl := Except.ok.inj h
    apply getFlow_congr
    · show (db.flows.filter (·.id ≠ gone)).find? (·.id = id) = _
      rw [List.find?_filter]
      congr 1
      funext row
      by_cases hid : row.id = id
      · simp [hid, hne]
      · simp [hid]
    · show (db.operations.filter (·.flowId ≠ gone)).filter (·.flowId = id) = _
      rw [List.filter_filter]
      apply List.filter_congr
      intro row _
      by_cases hid : row.flowId = id
      · simp [hid, hne]
      · simp [hid]
  · cases h

-- ============================================================================
-- The guard names the flow that is saved
-- ============================================================================

theorem edit_id (h : edit J r f = .ok g) : g.id = f.id := by
  unfold edit at h
  split at h
  · obtain ⟨_, -, h⟩ := bind_eq_ok h
    unfold createOperation at h
    obtain ⟨_, -, h⟩ := bind_eq_ok h
    obtain rfl := Except.ok.inj h
    rfl
  · obtain ⟨_, -, h⟩ := bind_eq_ok h
    obtain ⟨_, -, h⟩ := bind_eq_ok h
    unfold updateOperation at h
    obtain ⟨_, -, h⟩ := bind_eq_ok h
    obtain ⟨_, -, h⟩ := bind_eq_ok h
    obtain rfl := Except.ok.inj h
    rfl
  · obtain ⟨_, -, h⟩ := bind_eq_ok h
    unfold deleteOperation at h
    split at h
    · obtain rfl := Except.ok.inj h
      rfl
    · cases h
  · obtain ⟨_, -, h⟩ := bind_eq_ok h
    unfold reorderOperations at h
    simp only at h
    split at h
    · cases h
    · obtain ⟨_, -, h⟩ := bind_eq_ok h
      obtain rfl := Except.ok.inj h
      rfl
  · obtain rfl := Except.ok.inj h
    rfl

theorem query_not_ready {p p' : Pc} (h : query J r db p = some p') (base : Option Flow) :
    p' ≠ .ready base f := by
  rintro rfl
  unfold query at h
  split at h
  · split at h
    · cases h
    · split at h
      · cases h
      · split at h <;> cases h
  · cases h
  · split at h <;> cases h
  · cases h
  · cases h

/-- What is to be saved is the guarded flow, which was not running. -/
theorem decision_ready {busy : Bool} {p : Pc} {base : Option Flow}
    (h : decision J r busy p = some (.ready base f)) :
    busy = false ∧ guarded J r p = some f.id := by
  unfold decision at h
  split at h
  · split at h
    · split at h
      · cases h
      · rename_i g hg
        cases busy with
        | true => cases h
        | false =>
          cases h
          refine ⟨rfl, ?_⟩
          rw [guarded, hg]
          rfl
    · cases h
  · rename_i g
    cases busy with
    | true => cases h
    | false =>
      simp only [Bool.false_eq_true, if_false] at h
      split at h
      · cases h
      · rename_i g' hedit
        cases h
        exact ⟨rfl, congrArg some (edit_id hedit).symm⟩
  · cases h

-- ============================================================================
-- The invariant
-- ============================================================================

/-- What is past its guard is not running, and what is running is stored. -/
structure Machine.Unedited (J : JsonText) (s : Machine) : Prop where
  ready : ∀ i base f, s.workers.pc i = .ready base f → s.runs f.id = none
  mutable : ∀ i id, s.deletes i = .mutable id → s.runs id = none
  stored : ∀ id run, s.runs id = some run →
    storedOperations J s.workers.db id = some run.operations

variable {s s' : Machine} {a : MachineAct} {i : Nat}

namespace Machine.Unedited

theorem commits (h : s.Unedited J) (ha : s.commits a = some id) : s.runs id = none := by
  cases a with
  | save i =>
    simp only [Machine.commits] at ha
    split at ha
    · rename_i base f hpc
      obtain rfl := Option.some.inj ha
      exact h.ready i base f hpc
    · cases ha
  | delete i hub =>
    simp only [Machine.commits] at ha
    split at ha
    · rename_i gone hpc
      obtain rfl := Option.some.inj ha
      exact h.mutable i gone hpc
    · cases ha
  | _ => cases ha

/-- A worker goes on to a point at which no running flow is to be saved. -/
theorem goto (h : s.Unedited J) {p : Pc}
    (hp : ∀ base f, p = .ready base f → s.runs f.id = none) :
    (s.setWorkers (s.workers.goto i p)).Unedited J where
  ready j base f hj := by
    have hj : Function.update s.workers.pc i p j = .ready base f := hj
    by_cases hij : j = i
    · rw [hij, Function.update_self] at hj
      exact hp base f hj
    · rw [Function.update_of_ne hij] at hj
      exact h.ready j base f hj
  mutable := h.mutable
  stored := h.stored

theorem setDelete (h : s.Unedited J) {p : DeletePc}
    (hp : ∀ id, p = .mutable id → s.runs id = none) : (s.setDelete i p).Unedited J where
  ready := h.ready
  mutable j id hj := by
    have hj : Function.update s.deletes i p j = .mutable id := hj
    by_cases hij : j = i
    · rw [hij, Function.update_self] at hj
      exact hp id hj
    · rw [Function.update_of_ne hij] at hj
      exact h.mutable j id hj
  stored := h.stored

theorem setStart (h : s.Unedited J) (p : StartPc) : (s.setStart i p).Unedited J :=
  ⟨h.ready, h.mutable, h.stored⟩

/-- Another flow is changed in the store. -/
theorem setDb (h : s.Unedited J) (hid : s.runs id = none)
    (hother : ∀ other, other ≠ id → getFlow J db other = getFlow J s.workers.db other) :
    (s.setDb db).Unedited J where
  ready := h.ready
  mutable := h.mutable
  stored other run hrun := by
    have hrun : s.runs other = some run := hrun
    have hne : other ≠ id := by
      rintro rfl
      rw [hid] at hrun
      cases hrun
    show (getFlow J db other).map _ = _
    rw [hother other hne]
    exact h.stored other run hrun

/-- A run goes away or goes on with its operations. -/
theorem setRun (h : s.Unedited J) {run : Option Run}
    (hrun : ∀ r, run = some r → ∃ r₀, s.runs id = some r₀ ∧ r₀.operations = r.operations) :
    (s.setRun id run).Unedited J := by
  have hnone : ∀ other, s.runs other = none → Function.update s.runs id run other = none := by
    intro other hother
    by_cases hid : other = id
    · rw [hid, Function.update_self]
      cases hr : run with
      | none => rfl
      | some r =>
        obtain ⟨r₀, hr₀, -⟩ := hrun r hr
        rw [← hid, hother] at hr₀
        cases hr₀
    · rw [Function.update_of_ne hid, hother]
  refine ⟨fun i base f hi => hnone _ (h.ready i base f hi), fun i other hi =>
    hnone _ (h.mutable i other hi), fun other r hr => ?_⟩
  have hr : Function.update s.runs id run other = some r := hr
  by_cases hid : other = id
  · rw [hid, Function.update_self] at hr
    obtain ⟨r₀, hr₀, hops⟩ := hrun r hr
    rw [hid, ← hops]
    exact h.stored id r₀ hr₀
  · rw [Function.update_of_ne hid] at hr
    exact h.stored other r hr

/-- A run of what is stored begins, with no request past its guard. -/
theorem register (h : s.Unedited J) (hfree : ∀ a, s.commits a ≠ some f.id)
    (hstored : storedOperations J s.workers.db f.id = some f.operations) :
    (s.setRun f.id (some ⟨false, f.operations⟩)).Unedited J where
  ready i base g hi := by
    show Function.update s.runs f.id _ g.id = none
    rw [Function.update_of_ne]
    · exact h.ready i base g hi
    · intro hid
      apply hfree (.save i)
      simp only [Machine.commits]
      rw [show s.workers.pc i = .ready base g from hi, ← hid]
  mutable i id hi := by
    show Function.update s.runs f.id _ id = none
    rw [Function.update_of_ne]
    · exact h.mutable i id hi
    · intro hid
      apply hfree (.delete i false)
      simp only [Machine.commits]
      rw [show s.deletes i = .mutable id from hi, ← hid]
  stored id run hr := by
    have hr : Function.update s.runs f.id (some ⟨false, f.operations⟩) id = some run := hr
    by_cases hid : id = f.id
    · rw [hid, Function.update_self] at hr
      obtain rfl := Option.some.inj hr
      rw [hid]
      exact hstored
    · rw [Function.update_of_ne hid] at hr
      exact h.stored id run hr

theorem workers_step (h : s.Unedited J) {act : Act} {w : Workers}
    (hbusy : ∀ i busy r, act = .decide i busy → jobs[i]? = some r → busy = false →
      ∀ id, guarded J r (s.workers.pc i) = some id → s.runs id = none)
    (hs : workersStep J jobs s.workers act = some w) : (s.setWorkers w).Unedited J := by
  cases act with
  | query i =>
    obtain ⟨r, -, hs⟩ := Option.bind_eq_some_iff.mp hs
    obtain ⟨p, hp, hs⟩ := Option.bind_eq_some_iff.mp hs
    obtain rfl := Option.some.inj hs
    exact h.goto fun base f hready => absurd hready (query_not_ready hp base)
  | decide i busy =>
    obtain ⟨r, hr, hs⟩ := Option.bind_eq_some_iff.mp hs
    obtain ⟨p, hp, hs⟩ := Option.bind_eq_some_iff.mp hs
    obtain rfl := Option.some.inj hs
    apply h.goto
    rintro base f rfl
    obtain ⟨hfree, hguarded⟩ := decision_ready hp
    exact hbusy i busy r rfl hr hfree f.id hguarded
  | save i =>
    obtain ⟨r, -, hs⟩ := Option.bind_eq_some_iff.mp hs
    split at hs
    · rename_i base f hpc
      split at hs
      · obtain rfl := Option.some.inj hs
        exact h.goto (by simp)
      · rename_i db hsave
        obtain rfl := Option.some.inj hs
        have hdb : (s.setDb db).Unedited J := h.setDb (h.ready i base f hpc) fun other hne =>
          getFlow_saveFlow_other hsave hne
        have hgoto := hdb.goto (i := i) (p := .saved f.id) (by simp)
        exact ⟨hgoto.ready, hgoto.mutable, hgoto.stored⟩
    · cases hs

theorem delete_step (h : s.Unedited J) {hub : Bool} (hs : s.deleteStep i id hub = some s') :
    s'.Unedited J := by
  unfold Machine.deleteStep at hs
  split at hs
  · split at hs
    · obtain rfl := Option.some.inj hs
      exact h.setDelete (by simp)
    · obtain rfl := Option.some.inj hs
      exact h.setDelete (by simp)
  · obtain rfl := Option.some.inj hs
    exact h.setDelete (by simp)
  · rename_i gone _
    obtain rfl := Option.some.inj hs
    apply h.setDelete
    intro id hid
    split at hid
    · cases hid
    · rename_i hbusy
      cases hid
      cases hrun : s.runs gone with
      | none => rfl
      | some run => simp [Machine.isRunning, hrun] at hbusy
  · rename_i gone hpc
    split at hs
    · obtain rfl := Option.some.inj hs
      exact h.setDelete (by simp)
    · rename_i db hdel
      obtain rfl := Option.some.inj hs
      refine (h.setDb (h.mutable i gone hpc) fun other hne => ?_).setDelete (by simp)
      exact getFlow_deleteFlow_other hdel hne
  · cases hs

theorem run_step {k : Nat} (h : s.Unedited J) (hok : RegistersStored J s (.next k))
    (hs : s.runStep J k = some s') : s'.Unedited J := by
  unfold Machine.runStep at hs
  split at hs
  · obtain rfl := Option.some.inj hs
    exact h.setStart _
  · rename_i f hpc
    split at hs
    · obtain rfl := Option.some.inj hs
      exact h.setStart _
    · rename_i hrun
      obtain rfl := Option.some.inj hs
      have hnone : s.runs f.id = none := by simpa [Machine.isRunning] using hrun
      obtain ⟨hfree, hstored⟩ := hok f hpc hnone
      exact (h.register hfree hstored).setStart _
  · obtain rfl := Option.some.inj hs
    exact (h.setRun (by simp)).setStart _
  · cases hs

theorem step (h : s.Unedited J) (hok : RegistersStored J s a)
    (hs : s.step J jobs ids a = some s') : s'.Unedited J := by
  cases a with
  | query i =>
    obtain ⟨w, hw, rfl⟩ := Option.map_eq_some_iff.mp hs
    exact h.workers_step (by simp) hw
  | decide i hub =>
    obtain ⟨r, hr, hs⟩ := Option.bind_eq_some_iff.mp hs
    obtain ⟨w, hw, rfl⟩ := Option.map_eq_some_iff.mp hs
    refine h.workers_step (fun j busy r' hact hr' hfree id hid => ?_) hw
    cases hact
    obtain rfl := Option.some.inj (hr.symm.trans hr')
    -- the guard has looked at the runs of this very flow
    rw [hid] at hfree
    cases hrun : s.runs id with
    | none => rfl
    | some run => simp [Machine.isRunning, hrun] at hfree
  | save i =>
    obtain ⟨w, hw, rfl⟩ := Option.map_eq_some_iff.mp hs
    exact h.workers_step (by simp) hw
  | delete i hub =>
    obtain ⟨id, -, hs⟩ := Option.bind_eq_some_iff.mp hs
    exact h.delete_step hs
  | start k id ready =>
    simp only [Machine.step, Machine.startStep] at hs
    split at hs
    · split at hs
      · split at hs
        · obtain rfl := Option.some.inj hs
          exact h.setStart _
        · obtain rfl := Option.some.inj hs
          exact h.setStart _
      · obtain rfl := Option.some.inj hs
        exact h.setStart _
    · cases hs
  | next k => exact h.run_step hok hs
  | stop id =>
    obtain rfl := Option.some.inj hs
    apply h.setRun
    intro run hrun
    obtain ⟨r₀, hr₀, rfl⟩ := Option.map_eq_some_iff.mp hrun
    exact ⟨r₀, hr₀, rfl⟩

end Machine.Unedited

/-- In every run of requests, starts and stops in which runs are registered
    with what is stored and with no request past its guard, no flow is changed
    while it runs, and a run executes the operations that are stored. -/
theorem running_flow_unedited
    (h : (machineSystem J jobs ids db).ReachableIf (RegistersStored J) s) :
    (∀ a id, s.commits a = some id → s.runs id = none) ∧
      ∀ id run, s.runs id = some run →
        storedOperations J s.workers.db id = some run.operations := by
  have hinv : s.Unedited J := by
    apply h.invariant
    · rintro _ rfl
      exact ⟨by simp, by simp, by simp⟩
    · intro s a s' hs hok hstep
      exact hs.step hok hstep
  exact ⟨fun a id ha => hinv.commits ha, hinv.stored⟩

end

-- ============================================================================
-- Runs
-- ============================================================================

namespace Sample

/-- The store with the flow `f` and its operation `o`. -/
def dbWithOperation : Db :=
  { db with operations := [
      { id := "o".toList, flowId := "f".toList, sourceRemote := [], sourcePath := "/".toList
        targetRemote := [], targetPath := "/".toList, action := "push".toList
        syncConfig := "\x7b\x7d".toList, isExpanded := false, sortOrder := 0 }] }

def machine : Machine :=
  ⟨⟨dbWithOperation, fun _ => .idle, []⟩, fun _ => .idle, fun _ => .idle, fun _ => none⟩

/-- A thread's steps until its run is registered. -/
def register : List MachineAct := [.start 0 "f".toList true, .next 0, .next 0]

/-- The ids of the operations that a run executes, and of those stored. -/
def executed (s : Machine) : Option (List Text) :=
  (s.runs "f".toList).map fun run => run.operations.map (·.id)
def stored (s : Machine) : Option (List Text) :=
  (storedOperations json s.workers.db "f".toList).map fun ops => ops.map (·.id)

def refusedBusy : DeletePc → Bool
  | .failed e => e.code = "flow_busy"
  | _ => false

end Sample

/-- A flow that is started, and whose deletion is then refused. -/
theorem running_flow_unedited_started : ∃ s : Machine,
    (machineSystem Sample.json [] ["f".toList] Sample.dbWithOperation).runFrom Sample.machine
      (Sample.register ++ [.delete 0 false, .delete 0 false, .delete 0 false]) = some s ∧
    (Sample.executed s = some ["o".toList] ∧ Sample.refusedBusy (s.deletes 0) = true) ∧
    ∀ id run, s.runs id = some run →
      storedOperations Sample.json s.workers.db id = some run.operations := by
  have hrun : ((machineSystem Sample.json [] ["f".toList] Sample.dbWithOperation).runFrom
      Sample.machine (Sample.register ++ [.delete 0 false, .delete 0 false, .delete 0 false])).any
        (fun s => Sample.executed s = some ["o".toList] ∧
          Sample.refusedBusy (s.deletes 0) = true) = true := by
    decide +kernel
  obtain ⟨s, hs, hout⟩ := (Option.any_eq_true _ _).mp hrun
  refine ⟨s, hs, of_decide_eq_true hout, (running_flow_unedited
    (System.runFrom_reachableIf (.init rfl) ?_ hs)).2⟩
  refine ⟨trivial, fun _ h => ?_⟩
  obtain rfl := Option.some.inj h
  refine ⟨fun _ h => ?_, fun _ h => ?_⟩
  · cases h
  obtain rfl := Option.some.inj h
  refine ⟨fun f hf _ => ?_, fun _ _ => ?_⟩
  · cases hf
    refine ⟨fun a => ?_, rfl⟩
    cases a <;> simp [Machine.commits, Machine.setStart]
  · exact ⟨trivial, fun _ _ => ⟨trivial, fun _ _ => ⟨trivial, fun _ _ => trivial⟩⟩⟩

/-- A creation has passed its guard when a run of the flow is registered; it
    is committed all the same, and the run executes what is no longer stored. -/
theorem running_flow_edited : ∃ s s' : Machine,
    (machineSystem Sample.json [Sample.create "a"] [] Sample.dbWithOperation).Reachable s ∧
      s.commits (.save 0) = some "f".toList ∧ s.isRunning "f".toList = true ∧
      s.step Sample.json [Sample.create "a"] [] (.save 0) = some s' ∧ s'.workers.log = [0] ∧
      Sample.executed s' = some ["o".toList] ∧ Sample.stored s' = some ["o".toList, "a".toList] := by
  have hrun : ((machineSystem Sample.json [Sample.create "a"] [] Sample.dbWithOperation).runFrom
      Sample.machine ([.query 0, .query 0, .decide 0 false] ++ Sample.register)).any (fun s =>
        s.commits (.save 0) = some "f".toList ∧ s.isRunning "f".toList = true ∧
        (s.step Sample.json [Sample.create "a"] [] (.save 0)).any fun s' =>
          s'.workers.log = [0] ∧ Sample.executed s' = some ["o".toList] ∧
            Sample.stored s' = some ["o".toList, "a".toList]) = true := by
    decide +kernel
  obtain ⟨s, hs, hout⟩ := (Option.any_eq_true _ _).mp hrun
  obtain ⟨hcommits, hrunning, hstep⟩ := of_decide_eq_true hout
  obtain ⟨s', hs', hout'⟩ := (Option.any_eq_true _ _).mp hstep
  exact ⟨s, s', System.runFrom_reachable (.init rfl) hs, hcommits, hrunning, hs',
    of_decide_eq_true hout'⟩

end GnDrive.Flows
