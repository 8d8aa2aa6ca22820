/-
  GnDrive.Runtime.Mutable

  Which flows a snapshot shows as running.

  `ensure_flow_mutable` refuses an edit of a flow that the flow engine runs, and
  of one whose snapshot says `running` or `cancelling`.  The hub learns of syncs
  from their events, which name the busy key only: a sync under a key that can
  be split counts as one of a flow, and the record of that flow stays `running`
  after the sync has ended, if the flow engine has no status of the flow to lay
  over it.  `no_phantom_flow` says that this is the only way to a flow that is
  shown as running and is not.

  `Live` is the model of flows over the sync engine with the events these
  publish and the hub.  Published events wait to be heard, in any order and for
  any time; one that the bus drops waits for ever.  The engine's model has no
  actions and no statistics of tasks, so neither have the events and snapshots
  here.
-/

import GnDrive.Runtime.Hub
import GnDrive.Sync.BusyKey
import GnDrive.Sync.Completed

namespace GnDrive.Runtime

open Sync Events

-- ============================================================================
-- What the engines publish and report
-- ============================================================================

/-- The text of a status. -/
def statusName : Status → String
  | .running => "running"
  | .completed => "completed"
  | .failed => "failed"
  | .cancelled => "cancelled"

/-- `statuses` of the flow engine: the run's status, or that of the last run. -/
def statuses (m : Flows) (f : String) : Option String :=
  match m.pc f with
  | .idle => none
  | .ended st => some (statusName st)
  | _ => some (if m.cancelled f then "cancelling" else "running")

/-- `active_tasks` of the sync engine. -/
def activeTasks (e : Engine) : List TaskSnapshot :=
  e.active.filterMap fun t =>
    (e.task t).map fun x => ⟨toString t, x.key, "", statusName x.status, 0, 0⟩

def flowEvent (f op : String) (st : Status) (err : String) : BusEvent :=
  .flowExecution ⟨f, op, statusName st, if st = .failed then err else ""⟩

/-- The events of an operation that a step of `run_ops` reports, and the last
    one of the run. -/
def runEvents (m m' : Flows) (f err : String) : List BusEvent :=
  (m'.reports.drop m.reports.length).map (fun r => flowEvent f r.op r.status err) ++
    match m'.pc f with
    | .ended st => [flowEvent f "" st ""]
    | _ => []

def progressEvent (t : TaskId) (key : Sync.Key) (st : Status) (transferred total : Int) (err : String) :
    SyncProgressEvent :=
  ⟨toString t, key, "", statusName st, transferred, total, err⟩

/-- What a task publishes when it has ended. -/
def terminalEvents (t : TaskId) (key : Sync.Key) (err : String) : Status → List BusEvent
  | .completed =>
      [.syncProgress (progressEvent t key .completed 0 0 ""),
        .syncCompleted ⟨toString t, key, "", 0, 0, 0⟩]
  | st =>
      let err := if st = .failed then err else ""
      [.syncProgress (progressEvent t key st 0 0 err), .syncFailed (progressEvent t key st 0 0 err)]

def engineEvents (e : Engine) (err : String) : Act → List BusEvent
  | .enter c t =>
      match e.call c with
      | .admitted key true => [.syncStarted ⟨toString t, key, ""⟩]
      | _ => []
  | .task t _ =>
      match e.task t with
      | some x =>
          match x.pc with
          | .publishing st => terminalEvents t x.key err st
          | _ => []
      | none => []
  | _ => []

/-- What a step publishes; `err` is the message of an error. -/
def published (m m' : Flows) (err : String) : FlowAct → List BusEvent
  | .engine a => engineEvents m.engine err a
  | .begin f _ => [.flowExecution ⟨f, "", "running", ""⟩]
  | .stop f => [.flowExecution ⟨f, "", "cancelling", ""⟩]
  | .next f | .giveUp f | .take f => runEvents m m' f err

-- ============================================================================
-- The engines with the hub
-- ============================================================================

structure Live where
  flows : Flows
  pending : List BusEvent
  hub : Hub

inductive LiveAct where
  | flows (a : FlowAct) (err : String)
  /-- A call of `on_progress`, which a thread of the client makes. -/
  | progress (t : TaskId) (transferred total : Int)
  | hear (i : Nat)
  /-- Teardown of the data plane. -/
  | reset
  /-- The flow has been deleted. -/
  | forget (flowId : String)

namespace Live

def initial : Live := ⟨⟨.initial, fun _ => .idle, fun _ => false, []⟩, [], {}⟩

def publish (s : Live) (evs : List BusEvent) : Live := { s with pending := s.pending ++ evs }

def step (s : Live) : LiveAct → Option Live
  | .flows a err =>
      (s.flows.step a).map fun m => { s with flows := m }.publish (published s.flows m err a)
  | .progress t transferred total =>
      (s.flows.engine.task t).map fun x =>
        s.publish [.syncProgress (progressEvent t x.key .running transferred total "")]
  | .hear i =>
      (s.pending[i]?).map fun ev =>
        { s with pending := s.pending.eraseIdx i, hub := s.hub.onEvent ev }
  | .reset => some { s with hub := s.hub.reset }
  | .forget flowId => some { s with hub := s.hub.forget flowId }

def snapshot (s : Live) : FlowMap :=
  s.hub.snapshot (statuses s.flows) (activeTasks s.flows.engine)

def ensureFlowMutable (s : Live) (id : String) : Except Rpc.RpcError Unit :=
  if s.flows.isRunning id then .error (Flows.flowBusy id.toList)
  else if s.snapshot.status id == some "running" || s.snapshot.status id == some "cancelling" then
    .error (Flows.flowBusy id.toList)
  else .ok ()

end Live

def liveSystem : System Live LiveAct where
  init s := s = .initial
  step := Live.step

/-- The busy key of the sync that a step starts. -/
def actStarts : Act → Option Sync.Key
  | .startSync _ key _ | .startPathSync _ key _ => some key
  | _ => none

def flowsStart (m : Flows) : FlowAct → Option Sync.Key
  | .engine a => actStarts a
  | .next f =>
      match m.pc f with
      | .top (op :: _) => if m.cancelled f then none else some (Sync.busyKey f op)
      | _ => none
  | _ => none

/-- The flow that a step is about. -/
def actFlow : FlowAct → Option String
  | .engine _ => none
  | .begin f _ | .stop f | .next f | .giveUp f | .take f => some f

/-- A sync is started only under a key that is not split, or that is split into
    an operation of a flow that the flow engine has a status of. -/
def startsKnown (s : Live) : LiveAct → Bool
  | .flows a _ =>
      (flowsStart s.flows a).all fun key =>
        (splitBusyKey key).all fun fo => s.flows.pc fo.1 != .idle
  | _ => true

-- ============================================================================
-- Flows of which the flow engine has a status
-- ============================================================================

section

variable {m m' : Flows} {fa : FlowAct} {f : String}

/-- Where a flow's thread can be brought by a step. -/
def Begun (pc : FlowPc) : Prop := pc ≠ .idle ∧ pc ≠ .ended .running

theorem setPc_begun {g : String} {pc : FlowPc} (hpc : Begun pc) :
    (m.setPc g pc).pc f = m.pc f ∨ Begun ((m.setPc g pc).pc f) := by
  by_cases hf : f = g
  · subst hf
    exact .inr (by simpa [Flows.setPc] using hpc)
  · exact .inl (by simp [Flows.setPc, hf])

theorem afterWait_begun {g : String} {op : Op} {t : TaskId} {rest : List Op} {st : Status} :
    (m.afterWait g op t rest st).pc f = m.pc f ∨ Begun ((m.afterWait g op t rest st).pc f) := by
  unfold Flows.afterWait
  split
  · exact setPc_begun (m := m.report _) ⟨by simp, by simp⟩
  · exact setPc_begun ⟨by simp, by simp⟩
  · split
    · exact setPc_begun ⟨by simp, by simp⟩
    · exact setPc_begun (m := m.report _) ⟨by simp, by simp⟩

theorem runOps_begun {g : String} (hs : m.runOps g = some m') :
    m'.pc f = m.pc f ∨ Begun (m'.pc f) := by
  unfold Flows.runOps at hs
  split at hs
  · cases hs
    exact setPc_begun ⟨by simp, by simp⟩
  · split at hs
    · cases hs
      exact setPc_begun ⟨by simp, by simp⟩
    · obtain ⟨e, -, rfl⟩ := Option.map_eq_some_iff.mp hs
      exact setPc_begun (m := Flows.report _ _) ⟨by simp, by simp⟩
  · split at hs
    · cases hs
      exact setPc_begun ⟨by simp, by simp⟩
    · cases hs
      exact setPc_begun (m := m.report _) ⟨by simp, by simp⟩
    · cases hs
  · obtain ⟨e, -, rfl⟩ := Option.map_eq_some_iff.mp hs
    exact setPc_begun (m := { m with engine := e }) ⟨by simp, by simp⟩
  · split at hs
    · cases hs
      exact setPc_begun (m := m.report _) ⟨by simp, by simp⟩
    · cases hs
      exact setPc_begun (m := m.report _) ⟨by simp, by simp⟩
    · cases hs
  · cases hs

/-- No step takes a flow's thread back to `idle`, or ends it as `running`. -/
theorem flows_begun (hs : m.step fa = some m') : m'.pc f = m.pc f ∨ Begun (m'.pc f) := by
  cases fa with
  | engine a =>
    simp only [Flows.step] at hs
    split at hs
    · cases hs
    · obtain ⟨e, -, rfl⟩ := Option.map_eq_some_iff.mp hs
      exact .inl rfl
  | begin g ops =>
    simp only [Flows.step] at hs
    split at hs <;> cases hs
    exact setPc_begun (m := { m with cancelled := _ }) ⟨by simp, by simp⟩
  | stop g =>
    simp only [Flows.step] at hs
    split at hs <;> cases hs
    exact .inl rfl
  | next g => exact runOps_begun hs
  | giveUp g =>
    simp only [Flows.step] at hs
    split at hs
    · split at hs <;> cases hs
      exact setPc_begun ⟨by simp, by simp⟩
    · cases hs
  | take g =>
    simp only [Flows.step] at hs
    split at hs
    · split at hs
      · cases hs
      · obtain ⟨e, -, rfl⟩ := Option.map_eq_some_iff.mp hs
        exact afterWait_begun (m := { m with engine := e })
    · cases hs

theorem begun_kept (hs : m.step fa = some m') (hf : m.pc f ≠ .idle) : m'.pc f ≠ .idle := by
  rcases flows_begun (f := f) hs with heq | hbegun
  · rw [heq]
    exact hf
  · exact hbegun.1

/-- The flow that a step is about has been begun. -/
theorem begun_of_step (hs : m.step fa = some m') (hf : actFlow fa = some f) : m'.pc f ≠ .idle := by
  cases fa with
  | engine a => cases hf
  | begin g ops =>
    cases hf
    simp only [Flows.step] at hs
    split at hs <;> cases hs
    simp [Flows.setPc]
  | stop g | next g | giveUp g | take g =>
    cases hf
    refine begun_kept hs fun hidle => ?_
    simp [Flows.step, Flows.runOps, Flows.isRunning, hidle] at hs

end

-- ============================================================================
-- Where busy keys come from
-- ============================================================================

section

variable {e e' : Engine} {a : Act} {m m' : Flows} {fa : FlowAct} {key : Sync.Key}

/-- The key a start call is about. -/
def asked : CallPc → Option Sync.Key
  | .checking key | .reserved key | .admitted key _ => some key
  | _ => none

/-- A task or a start call of the engine has the key. -/
def Uses (e : Engine) (key : Sync.Key) : Prop :=
  (∃ t x, e.task t = some x ∧ x.key = key) ∨ ∃ c, asked (e.call c) = some key

/-- A call that is put somewhere else. -/
theorem asked_setCall {c d : Caller} {pc : CallPc} (hc : asked ((e.setCall c pc).call d) = some key) :
    asked (e.call d) = some key ∨ asked pc = some key := by
  rcases setCall_call e c d pc with ⟨-, heq⟩ | ⟨-, heq⟩ <;> rw [heq] at hc
  · exact .inl hc
  · exact .inr hc

/-- A call's key is that of the call before the step, or of the start. -/
theorem asked_step (hs : e.step a = some e') {d : Caller} (hd : asked (e'.call d) = some key) :
    (∃ c, asked (e.call c) = some key) ∨ actStarts a = some key := by
  have hkept : e'.call = e.call → ∃ c, asked (e.call c) = some key := fun heq => ⟨d, heq ▸ hd⟩
  have hset : ∀ {x : Engine} {c : Caller} {pc : CallPc}, e' = x.setCall c pc → x.call = e.call →
      (asked pc = some key → asked (e.call c) = some key) → ∃ c, asked (e.call c) = some key := by
    rintro x c pc rfl hx hpc
    rcases asked_setCall hd with h | h
    · exact ⟨d, hx ▸ h⟩
    · exact ⟨c, hpc h⟩
  cases a with
  | plane =>
    obtain rfl := Option.some.inj hs
    exact .inl (hkept (planeStep_call e))
  | start =>
    obtain rfl := Option.some.inj hs
    exact .inl (hkept rfl)
  | stopFlag j | stopDone j =>
    simp only [Engine.step] at hs
    split at hs <;> cases hs
    exact .inl (hkept rfl)
  | stopHarvest j =>
    simp only [Engine.step] at hs
    split at hs
    · split at hs <;> cases hs
      exact .inl (hkept rfl)
    · cases hs
  | stopCancel j u =>
    simp only [Engine.step] at hs
    split at hs
    · split at hs <;> cases hs
      exact .inl (hkept (by simp))
    · split at hs <;> cases hs
      exact .inl (hkept (by simp))
    · cases hs
  | startSync c k found =>
    simp only [Engine.step] at hs
    split at hs <;> cases hs
    rcases asked_setCall hd with h | h
    · exact .inl ⟨d, h⟩
    · split_ifs at h <;> first | exact .inr h | cases h
  | startPathSync c k paths =>
    simp only [Engine.step] at hs
    split at hs <;> cases hs
    rcases asked_setCall hd with h | h
    · exact .inl ⟨d, h⟩
    · split_ifs at h <;> first | exact .inr h | cases h
  | check c =>
    simp only [Engine.step] at hs
    split at hs
    · rename_i k hc
      split at hs <;> cases hs
      · exact .inl (hset rfl rfl fun h => by cases h)
      · exact .inl (hset rfl rfl fun h => by rw [hc]; exact h)
    · cases hs
  | takeAdmit c =>
    simp only [Engine.step] at hs
    split at hs
    · rename_i k hc
      split at hs <;> cases hs
      exact .inl (hset rfl rfl fun h => by rw [hc]; exact h)
    · cases hs
  | enter c u =>
    simp only [Engine.step] at hs
    split at hs
    · cases hs
      exact .inl (hset rfl rfl fun h => by cases h)
    · split at hs <;> cases hs
      exact .inl (hset rfl rfl fun h => by cases h)
    · cases hs
  | stopSync c u =>
    simp only [Engine.step] at hs
    split at hs
    · cases hs
    · split at hs <;> cases hs <;> exact .inl (hset rfl rfl fun h => by cases h)
  | cancel c =>
    simp only [Engine.step] at hs
    split at hs
    · cases hs
      exact .inl (hset rfl (by simp) fun h => by cases h)
    · cases hs
      exact .inl (hset rfl (by simp) fun h => by cases h)
    · cases hs
  | task u answer =>
    simp only [Engine.step] at hs
    split at hs
    · cases hs
    · obtain ⟨y, -, rfl⟩ := Option.map_eq_some_iff.mp hs
      refine .inl (hkept ?_)
      split <;> rfl
  | take u =>
    simp only [Engine.step] at hs
    split at hs
    · cases hs
    · split at hs <;> cases hs
      exact .inl (hkept rfl)

/-- The engine uses a new key only for a start. -/
theorem uses_step (hs : e.step a = some e') (huse : Uses e' key) :
    Uses e key ∨ actStarts a = some key := by
  rcases huse with ⟨t, x, hx, rfl⟩ | ⟨c, hc⟩
  · rcases step_task hs t with hsame | ⟨c, k, -, hcall, -, hnew⟩ | ⟨y, y', hy, hy', hchange⟩
    · exact .inl (.inl ⟨t, x, hsame ▸ hx, rfl⟩)
    · obtain rfl := Option.some.inj (hnew.symm.trans hx)
      exact .inl (.inr ⟨c, by rw [hcall]; rfl⟩)
    · obtain rfl := Option.some.inj (hy'.symm.trans hx)
      exact .inl (.inl ⟨t, y, hy, hchange.key_eq.symm⟩)
  · exact (asked_step hs hc).imp .inr id

/-- A step of flows takes at most one step of the engine, and starts the sync
    that this one starts. -/
theorem flows_engine (hs : m.step fa = some m') :
    m'.engine = m.engine ∨ ∃ a, m.engine.step a = some m'.engine ∧
      ∀ key, actStarts a = some key → flowsStart m fa = some key := by
  cases fa with
  | engine a =>
    simp only [Flows.step] at hs
    split at hs
    · cases hs
    · obtain ⟨e, he, rfl⟩ := Option.map_eq_some_iff.mp hs
      exact .inr ⟨a, he, fun _ => id⟩
  | begin f ops | stop f =>
    simp only [Flows.step] at hs
    split at hs <;> cases hs
    exact .inl rfl
  | next f =>
    simp only [Flows.step, Flows.runOps] at hs
    split at hs
    · cases hs
      exact .inl rfl
    · rename_i op rest hpc
      split at hs
      · cases hs
        exact .inl rfl
      · rename_i hcan
        obtain ⟨e, he, rfl⟩ := Option.map_eq_some_iff.mp hs
        exact .inr ⟨_, he, fun key hkey => by simpa [flowsStart, hpc, hcan, actStarts] using hkey⟩
    · split at hs <;> cases hs <;> exact .inl rfl
    · obtain ⟨e, he, rfl⟩ := Option.map_eq_some_iff.mp hs
      exact .inr ⟨_, he, fun key hkey => by cases hkey⟩
    · split at hs <;> cases hs <;> exact .inl rfl
    · cases hs
  | giveUp f =>
    simp only [Flows.step] at hs
    split at hs
    · split at hs <;> cases hs
      exact .inl rfl
    · cases hs
  | take f =>
    simp only [Flows.step] at hs
    split at hs
    · rename_i op t rest hpc
      split at hs
      · cases hs
      · obtain ⟨e, he, rfl⟩ := Option.map_eq_some_iff.mp hs
        refine .inr ⟨.take t, ?_, fun key hkey => by cases hkey⟩
        rw [(afterWait_spec _ f op t rest _).1]
        exact he
    · cases hs

end

-- ============================================================================
-- What the events name
-- ============================================================================

/-- The flow whose record an event changes. -/
def named (ev : BusEvent) : Option String :=
  match ev with
  | .flowExecution fe => some fe.flowId
  | ev => (syncOf ev).bind fun sync => (splitBusyKey sync.2.profileId).map (·.1)

section

variable {flows : FlowMap} {h : Hub} {ev : BusEvent} {f : String}

theorem onEntry_other {g : String} {k : FlowRuntime → FlowRuntime} (hne : f ≠ g) :
    flows.onEntry g k f = flows f := by
  simp [FlowMap.onEntry, hne]

/-- An event makes or changes the record of the flow that it names only. -/
theorem onEvent_other (hne : named ev ≠ some f) : (h.onEvent ev).flows f = h.flows f := by
  have hsync : (syncOf ev).bind (fun sync => (splitBusyKey sync.2.profileId).map (·.1)) ≠ some f →
      applySync h.flows ev f = h.flows f := by
    intro hev
    unfold applySync
    cases hs : syncOf ev with
    | none => rfl
    | some sync =>
      cases hk : splitBusyKey sync.2.profileId with
      | none => simp [hk]
      | some key =>
        simp only [hk]
        refine onEntry_other fun hf => hev ?_
        simp [hs, hk, hf]
  cases ev with
  | flowExecution fe =>
    simp only [Hub.onEvent]
    split
    · rfl
    · exact onEntry_other fun hf => hne (by rw [hf]; rfl)
  | syncStarted e => exact hsync hne
  | syncProgress p => exact hsync hne
  | syncCompleted e => exact hsync hne
  | syncFailed p => exact hsync hne
  | _ => rfl

end

-- ============================================================================
-- No phantom flow
-- ============================================================================

/-- Whatever can name a flow to the hub names one that the flow engine has a
    status of. -/
structure Attributed (s : Live) : Prop where
  keys : ∀ key, Uses s.flows.engine key → ∀ f o, splitBusyKey key = some (f, o) →
    s.flows.pc f ≠ .idle
  pending : ∀ ev ∈ s.pending, ∀ f, named ev = some f → s.flows.pc f ≠ .idle
  records : ∀ f, s.hub.flows f ≠ none → s.flows.pc f ≠ .idle
  ended : ∀ f, s.flows.pc f ≠ .ended .running

section

variable {s s' : Live} {a : LiveAct} {m m' : Flows} {fa : FlowAct} {e : Engine} {ev : BusEvent}
  {f err : String} {key : Sync.Key}

theorem attributed_initial : Attributed .initial where
  keys key huse := by
    rcases huse with ⟨t, x, hx, -⟩ | ⟨c, hc⟩
    · cases hx
    · cases hc
  pending ev hev := by cases hev
  records f hf := absurd rfl hf
  ended f hf := by cases hf

/-- A sync event names the flow of its busy key. -/
theorem named_of_sync {started : Bool} {p : SyncProgressEvent} (hs : syncOf ev = some (started, p))
    (hf : named ev = some f) : ∃ o, splitBusyKey p.profileId = some (f, o) := by
  have hsplit : (splitBusyKey p.profileId).map (·.1) = some f := by
    cases ev with
    | flowExecution fe => cases hs
    | _ => simpa only [named, hs, Option.bind_some] using hf
  obtain ⟨⟨g, o⟩, hkey, rfl⟩ := Option.map_eq_some_iff.mp hsplit
  exact ⟨o, hkey⟩

theorem terminalEvents_sync {t : TaskId} {st : Status} (hev : ev ∈ terminalEvents t key err st) :
    ∃ p, syncOf ev = some (false, p) ∧ p.profileId = key := by
  cases st <;> simp only [terminalEvents, List.mem_cons, List.not_mem_nil, or_false] at hev <;>
    rcases hev with rfl | rfl <;> exact ⟨_, rfl, rfl⟩

/-- The engine's events name flows of the keys it uses. -/
theorem named_engineEvents {a : Act} (hev : ev ∈ engineEvents e err a) (hf : named ev = some f) :
    ∃ key o, Uses e key ∧ splitBusyKey key = some (f, o) := by
  cases a with
  | enter c t =>
    simp only [engineEvents] at hev
    split at hev
    · rename_i key hc
      obtain rfl := List.mem_singleton.mp hev
      obtain ⟨o, hkey⟩ := named_of_sync rfl hf
      exact ⟨key, o, .inr ⟨c, by rw [hc]; rfl⟩, hkey⟩
    · cases hev
  | task t answer =>
    simp only [engineEvents] at hev
    split at hev
    · rename_i x hx
      split at hev
      · obtain ⟨p, hp, hprofile⟩ := terminalEvents_sync hev
        obtain ⟨o, hkey⟩ := named_of_sync hp hf
        exact ⟨x.key, o, .inl ⟨t, x, hx, rfl⟩, hprofile ▸ hkey⟩
      · cases hev
    · cases hev
  | _ => cases hev

/-- A flow's events name the flow. -/
theorem named_runEvents {g : String} (hev : ev ∈ runEvents m m' g err) (hf : named ev = some f) :
    g = f := by
  have hevent : ∃ op st msg, ev = flowEvent g op st msg := by
    rcases List.mem_append.mp hev with hev | hev
    · obtain ⟨r, -, rfl⟩ := List.mem_map.mp hev
      exact ⟨_, _, _, rfl⟩
    · split at hev
      · obtain rfl := List.mem_singleton.mp hev
        exact ⟨_, _, _, rfl⟩
      · cases hev
  obtain ⟨op, st, msg, rfl⟩ := hevent
  exact Option.some.inj hf

theorem Attributed.published (h : Attributed s) (hs : s.flows.step fa = some m')
    (hev : ev ∈ published s.flows m' err fa) (hf : named ev = some f) : m'.pc f ≠ .idle := by
  have hown : ∀ g, actFlow fa = some g → g = f → m'.pc f ≠ .idle := by
    rintro g hg rfl
    exact begun_of_step hs hg
  cases fa with
  | engine a =>
    obtain ⟨key, o, huse, hkey⟩ := named_engineEvents hev hf
    exact begun_kept hs (h.keys key huse f o hkey)
  | begin g ops | stop g =>
    obtain rfl := List.mem_singleton.mp hev
    exact hown g rfl (Option.some.inj hf)
  | next g | giveUp g | take g => exact hown g rfl (named_runEvents hev hf)

/-- Step lemma. -/
theorem Attributed.step (h : Attributed s) (hok : startsKnown s a = true)
    (hs : s.step a = some s') : Attributed s' := by
  cases a with
  | flows fa err =>
    obtain ⟨m, hm, rfl⟩ := Option.map_eq_some_iff.mp hs
    refine ⟨fun key huse f o hkey => ?_, fun ev hev f hf => ?_, fun f hf => ?_, fun f => ?_⟩
    · refine begun_kept hm ?_
      rcases flows_engine hm with heq | ⟨a, ha, hstart⟩
      · exact h.keys key (heq ▸ huse) f o hkey
      · rcases uses_step ha huse with huse | hnew
        · exact h.keys key huse f o hkey
        · simpa [startsKnown, hstart key hnew, hkey] using hok
    · rcases List.mem_append.mp hev with hev | hev
      · exact begun_kept hm (h.pending ev hev f hf)
      · exact h.published hm hev hf
    · exact begun_kept hm (h.records f hf)
    · rcases flows_begun (f := f) hm with heq | hbegun
      · exact fun hend => h.ended f (heq ▸ hend)
      · exact hbegun.2
  | progress t transferred total =>
    obtain ⟨x, hx, rfl⟩ := Option.map_eq_some_iff.mp hs
    refine ⟨h.keys, fun ev hev f hf => ?_, h.records, h.ended⟩
    rcases List.mem_append.mp hev with hev | hev
    · exact h.pending ev hev f hf
    · obtain rfl := List.mem_singleton.mp hev
      obtain ⟨o, hkey⟩ := named_of_sync rfl hf
      exact h.keys x.key (.inl ⟨t, x, hx, rfl⟩) f o hkey
  | hear i =>
    obtain ⟨ev, hev, rfl⟩ := Option.map_eq_some_iff.mp hs
    refine ⟨h.keys, fun u hu => h.pending u (List.mem_of_mem_eraseIdx hu), fun f hf => ?_, h.ended⟩
    by_cases hnamed : named ev = some f
    · exact h.pending ev (List.mem_of_getElem? hev) f hnamed
    · exact h.records f fun hnone => hf ((onEvent_other hnamed).trans hnone)
  | reset =>
    obtain rfl := Option.some.inj hs
    exact ⟨h.keys, h.pending, fun f hf => absurd rfl hf, h.ended⟩
  | forget g =>
    obtain rfl := Option.some.inj hs
    refine ⟨h.keys, h.pending, fun f hf => h.records f fun hnone => hf ?_, h.ended⟩
    simp only [Hub.forget]
    split
    · exact hnone
    · by_cases hfg : f = g
      · simp [hfg]
      · simp [hfg, hnone]

theorem attributed (h : liveSystem.ReachableIf (fun s a => startsKnown s a = true) s) :
    Attributed s :=
  h.invariant (by rintro _ rfl; exact attributed_initial) fun _ _ _ hp hok hs => hp.step hok hs

/-- Without a run and without tasks, the snapshot shows the status of the last
    run, or nothing. -/
theorem Attributed.snapshot_status (h : Attributed s) (hrun : s.flows.isRunning f = false)
    (htasks : ∀ t ∈ activeTasks s.flows.engine, ∀ o, splitBusyKey t.name ≠ some (f, o)) :
    s.snapshot.status f = none ∨
      ∃ st, st ≠ .running ∧ s.snapshot.status f = some (statusName st) := by
  have hoverlay : (activeTasks s.flows.engine).foldl applyTask
      (s.hub.withStatuses (statuses s.flows)) f = s.hub.withStatuses (statuses s.flows) f :=
    overlay_other htasks
  cases hpc : s.flows.pc f with
  | idle =>
    have hrecord : s.hub.flows f = none := by
      by_contra hne
      exact h.records f hne hpc
    refine .inl ?_
    simp [Live.snapshot, Hub.snapshot, FlowMap.status, hoverlay, Hub.withStatuses, statuses, hpc,
      hrecord]
  | ended st =>
    have hst : st ≠ .running := fun hst => h.ended f (by rw [hpc, hst])
    refine .inr ⟨st, hst, ?_⟩
    have hname : statusName st ≠ "" := by cases st <;> decide
    simp [Live.snapshot, Hub.snapshot, FlowMap.status, hoverlay, Hub.withStatuses, statuses, hpc,
      Hub.toFlowState, hname]
  | _ => simp [Flows.isRunning, hpc] at hrun

end

/-- In every run of profile syncs, path syncs and flows in which each sync is
    started under a key that names no flow, or one the flow engine has a status
    of, a flow that is not running and has no active task is shown neither as
    running nor as cancelling, and can be edited. -/
theorem no_phantom_flow {s : Live}
    (h : liveSystem.ReachableIf (fun s a => startsKnown s a = true) s) (f : String)
    (hrun : s.flows.isRunning f = false)
    (htasks : ∀ t ∈ activeTasks s.flows.engine, ∀ o, splitBusyKey t.name ≠ some (f, o)) :
    s.snapshot.status f ≠ some "running" ∧ s.snapshot.status f ≠ some "cancelling" ∧
      s.ensureFlowMutable f = .ok () := by
  have hshown : s.snapshot.status f ≠ some "running" ∧ s.snapshot.status f ≠ some "cancelling" := by
    rcases (attributed h).snapshot_status hrun htasks with hnone | ⟨st, hst, hsome⟩
    · rw [hnone]
      exact ⟨by simp, by simp⟩
    · rw [hsome]
      cases st with
      | running => exact absurd rfl hst
      | _ => exact ⟨by decide, by decide⟩
  refine ⟨hshown.1, hshown.2, ?_⟩
  unfold Live.ensureFlowMutable
  rw [if_neg (by simp [hrun]), if_neg (by simp [hshown.1, hshown.2])]

/-- Steps of the engines, and then `n` events heard. -/
def thenHeard (as : List FlowAct) (n : Nat) : List LiveAct :=
  as.map (.flows · "") ++ List.replicate n (.hear 0)

/-- A flow that has completed its run. -/
theorem no_phantom_flow_completed :
    ∃ s, liveSystem.Reachable s ∧ s.hub.rev = 7 ∧ s.ensureFlowMutable "f" = .ok () := by
  have hrun : (liveSystem.runIf startsKnown .initial
      (thenHeard (startedFlow ++ taskSteps 10 ++ [.take "f", .next "f"]) 7)).any (fun s =>
      s.hub.rev == 7 && !s.flows.isRunning "f" && (activeTasks s.flows.engine).isEmpty) = true := by
    decide +kernel
  obtain ⟨s, hs, hend⟩ := (Option.any_eq_true _ _).mp hrun
  simp only [Bool.and_eq_true, beq_iff_eq, Bool.not_eq_true', List.isEmpty_iff] at hend
  obtain ⟨⟨hrev, hidle⟩, hnone⟩ := hend
  have hreach := System.runIf_reachableIf (.init rfl) hs
  exact ⟨s, hreach.reachable, hrev,
    (no_phantom_flow hreach "f" hidle (by rw [hnone]; simp)).2.2⟩

/-- A profile named `f:x` is synced; its task and its events are gone, and the
    flow `f` is shown as running. -/
def syncedProfile : List LiveAct :=
  thenHeard (List.replicate 4 (.engine .plane) ++ [.engine .start,
    .engine (.startSync (.rpc 0) "f:x" true), .engine (.check (.rpc 0)),
    .engine (.takeAdmit (.rpc 0)), .engine (.enter (.rpc 0) 0)] ++ taskSteps 10) 3

theorem phantom_flow :
    ∃ s, liveSystem.Reachable s ∧ s.flows.isRunning "f" = false ∧ activeTasks s.flows.engine = [] ∧
      s.pending.length = 0 ∧ s.snapshot.status "f" = some "running" ∧
      (s.ensureFlowMutable "f").isOk = false := by
  have hrun : (liveSystem.runFrom .initial syncedProfile).any (fun s =>
      !s.flows.isRunning "f" && (activeTasks s.flows.engine).isEmpty && s.pending.isEmpty &&
        s.snapshot.status "f" == some "running" && !(s.ensureFlowMutable "f").isOk) = true := by
    decide +kernel
  obtain ⟨s, hs, hend⟩ := (Option.any_eq_true _ _).mp hrun
  simp only [Bool.and_eq_true, beq_iff_eq, Bool.not_eq_true', List.isEmpty_iff] at hend
  obtain ⟨⟨⟨⟨hidle, hnone⟩, hheard⟩, hshown⟩, hbusy⟩ := hend
  exact ⟨s, System.runFrom_reachable (.init rfl) hs, hidle, hnone, by rw [hheard]; rfl, hshown, hbusy⟩

end GnDrive.Runtime
