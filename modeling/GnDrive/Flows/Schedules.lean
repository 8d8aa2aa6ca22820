/-
  GnDrive.Flows.Schedules

  The cron entries of flows (`sync_engine.rs`, `cron.rs`).

  A request registers the schedule of its flow after it has committed, by a
  removal and an addition; `start` and `attach` do the same for every flow of a
  snapshot of the store.  No lock spans a commit and its registration.
  `entries_mirror_store` gives the condition under which the entries are those
  of the stored schedules whenever no registration is under way.

  The runner's map is `entries`; the time of the next fire, which the ticks move
  on, is left out of an entry.  The flow executor is set when the container is
  built.
-/

import GnDrive.Flows.Running
import GnDrive.Cron.Zones

namespace GnDrive.Flows

open Cron (CronSchedule Zone)

/-- Not newlines. -/
def trimWs (s : Text) : Text :=
  let ws (c : Char) : Bool := c = '\t' || Text.isWhitespace c && c ≠ '\n' && c ≠ '\r'
  (s.dropWhile ws).rdropWhile ws

def flowScheduleId (flowId : Text) : Text := "flow:".toList ++ trimWs flowId

/-- An entry of the runner; its handler triggers the flow `flowId`. -/
structure Job where
  schedule : CronSchedule
  flowId : Text

/-- A call that registers schedules: the worker of a request, or a call of the
    engine. -/
inductive Caller where
  | save (i : Nat)
  | delete (i : Nat)
  | engine (l : Nat)
  | thread
deriving DecidableEq

/-- Where a call is. -/
inductive SyncPc where
  | idle
  /-- `start`, with `life` held, before it looks for the store. -/
  | started
  /-- `attach`, before it asks whether the engine is running. -/
  | attached
  /-- `load_flow_schedules`, before it lists the flows. -/
  | listing
  /-- `sync_flow_schedule` for each of the flows, before the first removal. -/
  | sync (flows : List FlowRow)
  /-- The first one's job is removed; its new one is to be added. -/
  | adding (f : FlowRow) (schedule : CronSchedule) (rest : List FlowRow)
  | unregister (flowId : Text)
  /-- `stop`, with `life` held, before it drops the entries. -/
  | clearing

def SyncPc.isIdle : SyncPc → Bool
  | .idle => true
  | _ => false

structure Mirror where
  machine : Machine
  running : Bool
  attached : Bool
  /-- The call that holds the mutex `life`. -/
  life : Option Caller
  entries : Text → Option Job
  calls : Caller → SyncPc

inductive MirrorAct where
  | machine (a : MachineAct)
  | sync (c : Caller) (now : Int)
  | start (l : Nat)
  | stop (l : Nat)
  | attach (l : Nat)
  | detach

/-- The call that takes the step. -/
def MachineAct.caller : MachineAct → Caller
  | .query i | .decide i _ | .save i => .save i
  | .delete i _ => .delete i
  | .start _ _ _ | .next _ | .stop _ => .thread

def MirrorAct.caller : MirrorAct → Caller
  | .machine a => a.caller
  | .sync c _ => c
  | .start l | .stop l | .attach l => .engine l
  | .detach => .thread

/-- `ORDER BY sort_order, name`. -/
def FlowRow.before (a b : FlowRow) : Prop :=
  a.sortOrder < b.sortOrder ∨ a.sortOrder = b.sortOrder ∧ ¬ b.name < a.name

instance : DecidableRel FlowRow.before := fun a b => by
  unfold FlowRow.before
  infer_instance

/-- `list_flows`, whose operations nobody reads here. -/
def listFlows (db : Db) : List FlowRow := (db.flows.insertionSort FlowRow.before).map scanFlow

section

variable (J : JsonText) (jobs : List Request) (ids : List Text)
  (parseDuration : Text → Option Int) (z : Zone)

/-- The schedule of an enabled flow, if it has one that parses. -/
def parsed (f : FlowRow) : Option CronSchedule :=
  let cronExpr := trimWs f.scheduleCron
  if !f.scheduleEnabled || cronExpr.isEmpty then none
  else (CronSchedule.parse parseDuration cronExpr).toOption

/-- What a request that has just committed has to register. -/
def registration (m m' : Machine) : MachineAct → SyncPc
  | .save i =>
      match m.workers.pc i, m'.workers.pc i with
      | .ready _ f, .saved _ => .sync [f.toFlowRow]
      | _, _ => .idle
  | .delete i _ =>
      match m.deletes i, m'.deletes i with
      | .mutable id, .deleted => .unregister id
      | _, _ => .idle
  | _ => .idle

namespace Mirror

def setCall (s : Mirror) (c : Caller) (p : SyncPc) : Mirror :=
  { s with calls := Function.update s.calls c p }

def setEntry (s : Mirror) (key : Text) (j : Option Job) : Mirror :=
  { s with entries := Function.update s.entries key j }

/-- The call returns, and gives back `life` if it holds it. -/
def finish (s : Mirror) (c : Caller) : Mirror :=
  { s.setCall c .idle with life := if s.life = some c then none else s.life }

/-- The next step of a call, at the time `now`. -/
def syncStep (s : Mirror) (c : Caller) (now : Int) : Option Mirror :=
  match s.calls c with
  | .idle => none
  | .started => some (if s.attached then s.setCall c .listing else s.finish c)
  | .attached => some (if s.running then s.setCall c .listing else s.finish c)
  | .listing =>
      some (if s.attached then s.setCall c (.sync (listFlows s.machine.workers.db)) else s.finish c)
  | .sync [] => some (s.finish c)
  | .sync (f :: rest) =>
      if (trimWs f.id).isEmpty then some (s.setCall c (.sync rest))
      else
        let removed := s.setEntry (flowScheduleId f.id) none
        match parsed parseDuration f with
        | none => some (removed.setCall c (.sync rest))
        | some schedule => some (removed.setCall c (.adding f schedule rest))
  | .adding f schedule rest =>
      match schedule.nextAfter z now with
      | .error _ => none
      | .ok none => some (s.setCall c (.sync rest))
      | .ok (some _) =>
          some ((s.setEntry (flowScheduleId f.id) (some ⟨schedule, f.id⟩)).setCall c (.sync rest))
  | .unregister id => some ((s.setEntry (flowScheduleId id) none).finish c)
  | .clearing => some ({ s with entries := fun _ => none }.finish c)

def step (s : Mirror) : MirrorAct → Option Mirror
  | .machine a =>
      if (s.calls a.caller).isIdle then
        (s.machine.step J jobs ids a).map fun m =>
          { s with machine := m }.setCall a.caller (registration s.machine m a)
      else none
  | .sync c now => s.syncStep parseDuration z c now
  | .start l =>
      if (s.calls (.engine l)).isIdle && s.life.isNone then
        if s.running then some s
        else some ({ s with running := true, life := some (.engine l) }.setCall (.engine l) .started)
      else none
  | .stop l =>
      if (s.calls (.engine l)).isIdle && s.life.isNone then
        some ({ s with running := false, life := some (.engine l) }.setCall (.engine l) .clearing)
      else none
  | .attach l =>
      if (s.calls (.engine l)).isIdle then
        some ({ s with attached := true }.setCall (.engine l) .attached)
      else none
  | .detach => some { s with attached := false }

end Mirror

/-- The requests and runs of `machineSystem` and any number of calls of the
    engine, over the store `db`. -/
def mirrorSystem (db : Db) : System Mirror MirrorAct where
  init s := s =
    ⟨⟨⟨db, fun _ => .idle, []⟩, fun _ => .idle, fun _ => .idle, fun _ => none⟩,
      false, false, none, fun _ => none, fun _ => .idle⟩
  step := Mirror.step J jobs ids parseDuration z

def FlowRow.schedule (f : FlowRow) : Text × Bool × Text :=
  (f.id, f.scheduleEnabled, f.scheduleCron)

/-- Whatever is stored under the key of `f` has its id and its schedule. -/
def Current (db : Db) (f : FlowRow) : Prop :=
  ∀ g ∈ db.flows, flowScheduleId g.id = flowScheduleId f.id → g.schedule = f.schedule

/-- A call ends a registration of a flow only with the schedule that is stored
    (and only for an id that is not blank), one of a deleted flow only while no
    flow is stored under its key.  `fires` says which schedules have a next
    fire, at whatever time they are registered. -/
def InOrder (fires : CronSchedule → Bool) (s : Mirror) : MirrorAct → Prop
  | .sync c now =>
      match s.calls c with
      | .sync (f :: _) =>
          trimWs f.id ≠ [] ∧ (parsed parseDuration f = none → Current s.machine.workers.db f)
      | .adding f schedule _ =>
          Current s.machine.workers.db f ∧
          (∃ g ∈ s.machine.workers.db.flows, flowScheduleId g.id = flowScheduleId f.id) ∧
          ∀ next, schedule.nextAfter z now = .ok next → next.isSome = fires schedule
      | .unregister id =>
          ∀ g ∈ s.machine.workers.db.flows, flowScheduleId g.id ≠ flowScheduleId id
      | _ => True
  | _ => True

-- ============================================================================
-- What is owed
-- ============================================================================

/-- The call is going to remove the job under `key`. -/
def SyncPc.WillRemove (key : Text) : SyncPc → Prop
  | .sync flows => ∃ f ∈ flows, flowScheduleId f.id = key
  | .adding _ _ rest => ∃ f ∈ rest, flowScheduleId f.id = key
  | .unregister id => flowScheduleId id = key
  | _ => False

/-- The call has the job under `key` still to register. -/
def SyncPc.Owes (key : Text) (p : SyncPc) : Prop :=
  p.WillRemove key ∨ ∃ f schedule rest, p = .adding f schedule rest ∧ flowScheduleId f.id = key

/-- The call is going to list the flows. -/
def SyncPc.Loads : SyncPc → Prop
  | .started | .attached | .listing => True
  | _ => False

variable (fires : CronSchedule → Bool)

/-- What the registration of a flow comes to. -/
def job (f : FlowRow) : Option Job :=
  (parsed parseDuration f).bind fun schedule =>
    if fires schedule then some ⟨schedule, f.id⟩ else none

/-- Some flow is stored under `key`, and `j` is the job of each. -/
def Right (db : Db) (key : Text) (j : Job) : Prop :=
  (∃ g ∈ db.flows, flowScheduleId g.id = key) ∧
    ∀ g ∈ db.flows, flowScheduleId g.id = key → job parseDuration fires g = some j

/-- An entry is right or about to be removed, and once the flows have been
    loaded an entry that is missing or wrong is owed by some call. -/
structure Mirror.Inv (s : Mirror) : Prop where
  entries : ∀ key j, s.entries key = some j →
    Right parseDuration fires s.machine.workers.db key j ∨ ∃ c, (s.calls c).WillRemove key
  covered : s.running = true → s.attached = true → (∃ c, (s.calls c).Loads) ∨
    ∀ g ∈ s.machine.workers.db.flows,
      s.entries (flowScheduleId g.id) = job parseDuration fires g ∨
        ∃ c, (s.calls c).Owes (flowScheduleId g.id)
  adding : ∀ c f schedule rest, s.calls c = .adding f schedule rest →
    parsed parseDuration f = some schedule
  clearing : ∀ c, s.calls c = .clearing → s.life = some c ∧ s.running = false

variable {J jobs ids parseDuration z fires} {s s' : Mirror} {m m' : Machine} {a : MachineAct}
  {c : Caller} {p : SyncPc} {db db' : Db} {f g : FlowRow} {key : Text}

theorem job_congr (h : g.schedule = f.schedule) :
    job parseDuration fires g = job parseDuration fires f := by
  simp only [FlowRow.schedule, Prod.mk.injEq] at h
  simp only [job, parsed, h.1, h.2.1, h.2.2]

theorem job_of_parsed {schedule : CronSchedule} (h : parsed parseDuration f = some schedule) :
    job parseDuration fires f = if fires schedule then some ⟨schedule, f.id⟩ else none := by
  rw [job, h]
  rfl

/-- What other calls have to do, they have to do still. -/
theorem exists_update {calls : Caller → SyncPc} {Q : SyncPc → Prop} (hc : ¬ Q (calls c))
    (h : ∃ c', Q (calls c')) : ∃ c', Q (Function.update calls c p c') := by
  obtain ⟨c', hc'⟩ := h
  refine ⟨c', ?_⟩
  rwa [Function.update_of_ne]
  rintro rfl
  exact hc hc'

theorem mem_listFlows (h : g ∈ db.flows) : ∃ f ∈ listFlows db, f.id = g.id :=
  ⟨scanFlow g, List.mem_map_of_mem ((List.mem_insertionSort _).mpr h), rfl⟩

theorem not_owes_idle (h : p.isIdle = true) : ¬ p.Owes key := by
  cases p with
  | idle => simp [SyncPc.Owes, SyncPc.WillRemove]
  | _ => cases h

theorem not_willRemove_idle (h : p.isIdle = true) : ¬ p.WillRemove key :=
  fun hr => not_owes_idle h (.inl hr)

theorem not_loads_idle (h : p.isIdle = true) : ¬ p.Loads := by
  cases p with
  | idle => exact id
  | _ => cases h

-- ============================================================================
-- A step of a call
-- ============================================================================

namespace Mirror.Inv

/-- A call goes on to `p`.  Each entry after it is right, or removed later by
    the call, or was there before and not the call's to remove; and each stored
    flow has its job, or the call has it to register, or another call has. -/
theorem call (h : s.Inv parseDuration fires) (hcalls : s'.calls = Function.update s.calls c p)
    (hm : s'.machine = s.machine) (hrunning : s'.running = s.running)
    (hattached : s'.attached = s.attached)
    (hlife : ∀ c', c' ≠ c → s.life = some c' → s'.life = some c')
    (hentries : ∀ key j, s'.entries key = some j →
      Right parseDuration fires s.machine.workers.db key j ∨ p.WillRemove key ∨
        s.entries key = some j ∧ ¬ (s.calls c).WillRemove key)
    (hcovered : s.running = true → s.attached = true →
      p.Loads ∨ (∀ g ∈ s.machine.workers.db.flows, p.Owes (flowScheduleId g.id)) ∨
      ¬ (s.calls c).Loads ∧ ∀ g ∈ s.machine.workers.db.flows,
        s'.entries (flowScheduleId g.id) = job parseDuration fires g ∨
          p.Owes (flowScheduleId g.id) ∨
          (∃ c', c' ≠ c ∧ (s.calls c').Owes (flowScheduleId g.id)) ∨
          s'.entries (flowScheduleId g.id) = s.entries (flowScheduleId g.id) ∧
            ¬ (s.calls c).Owes (flowScheduleId g.id))
    (hadding : ∀ f schedule rest, p = .adding f schedule rest →
      parsed parseDuration f = some schedule)
    (hclearing : p ≠ .clearing) : s'.Inv parseDuration fires := by
  have hself : s'.calls c = p := by rw [hcalls, Function.update_self]
  have hother : ∀ c', c' ≠ c → s'.calls c' = s.calls c' := by
    intro c' hne
    rw [hcalls, Function.update_of_ne hne]
  refine ⟨fun key j hj => ?_, fun hrun hatt => ?_, fun c' f schedule rest hc' => ?_,
    fun c' hc' => ?_⟩
  · rw [hm]
    rcases hentries key j hj with hright | hp | ⟨hold, hnot⟩
    · exact .inl hright
    · exact .inr ⟨c, by rwa [hself]⟩
    · rcases h.entries key j hold with hright | hremove
      · exact .inl hright
      · rw [hcalls]
        exact .inr (exists_update hnot hremove)
  · rw [hrunning] at hrun
    rw [hattached] at hatt
    rw [hm]
    rcases hcovered hrun hatt with hp | hp | ⟨hnot, hall⟩
    · exact .inl ⟨c, by rwa [hself]⟩
    · exact .inr fun g hg => .inr ⟨c, by rw [hself]; exact hp g hg⟩
    rcases h.covered hrun hatt with hloads | hcov
    · rw [hcalls]
      exact .inl (exists_update hnot hloads)
    refine .inr fun g hg => ?_
    rcases hall g hg with hjob | hp | ⟨c', hne, hc'⟩ | ⟨hsame, hnotOwes⟩
    · exact .inl hjob
    · exact .inr ⟨c, by rwa [hself]⟩
    · exact .inr ⟨c', by rwa [hother c' hne]⟩
    · rcases hcov g hg with hjob | howes
      · exact .inl (hsame.trans hjob)
      · rw [hcalls]
        exact .inr (exists_update hnotOwes howes)
  · by_cases hne : c' = c
    · rw [hne, hself] at hc'
      exact hadding f schedule rest hc'
    · rw [hother c' hne] at hc'
      exact h.adding c' f schedule rest hc'
  · by_cases hne : c' = c
    · rw [hne, hself] at hc'
      exact absurd hc' hclearing
    · rw [hother c' hne] at hc'
      obtain ⟨hheld, hstopped⟩ := h.clearing c' hc'
      exact ⟨hlife c' hne hheld, hrunning.trans hstopped⟩

theorem finish_life (c' : Caller) (hne : c' ≠ c) (h : s.life = some c') :
    (s.finish c).life = some c' := by
  show (if s.life = some c then none else s.life) = some c'
  rw [if_neg, h]
  rw [h]
  exact fun heq => hne (Option.some.inj heq)

/-- A call goes on without an entry that changes. -/
theorem goOn (h : s.Inv parseDuration fires) (hentries : ∀ key, ¬ (s.calls c).WillRemove key)
    (hcovered : s.running = true → s.attached = true →
      p.Loads ∨ ∀ g ∈ s.machine.workers.db.flows, p.Owes (flowScheduleId g.id))
    (hadding : ∀ f schedule rest, p ≠ .adding f schedule rest) (hclearing : p ≠ .clearing) :
    (s.setCall c p).Inv parseDuration fires := by
  refine h.call rfl rfl rfl rfl (fun _ _ hl => hl) (fun key j hj => ?_) (fun hrun hatt => ?_)
    (fun f schedule rest hp => absurd hp (hadding f schedule rest)) hclearing
  · exact .inr (.inr ⟨hj, hentries key⟩)
  · rcases hcovered hrun hatt with hp | hp
    · exact .inl hp
    · exact .inr (.inl hp)

/-- A call returns that has nothing to register. -/
theorem back (h : s.Inv parseDuration fires) (hentries : ∀ key, ¬ (s.calls c).Owes key)
    (hcovered : s.running = true → s.attached = true → ¬ (s.calls c).Loads) :
    (s.finish c).Inv parseDuration fires := by
  refine h.call rfl rfl rfl rfl finish_life (fun key j hj => ?_) (fun hrun hatt => ?_)
    (by simp) (by simp)
  · exact .inr (.inr ⟨hj, fun hr => hentries key (.inl hr)⟩)
  · exact .inr (.inr ⟨hcovered hrun hatt, fun g _ => .inr (.inr (.inr ⟨rfl, hentries _⟩))⟩)

/-- `sync_flow_schedule` drops the entry of the flow; `p` is what is left. -/
theorem remove (h : s.Inv parseDuration fires) {rest : List FlowRow}
    (hc : s.calls c = .sync (f :: rest))
    (hp : ∀ key, p.WillRemove key ↔ ∃ g ∈ rest, flowScheduleId g.id = key)
    (howes : p.Owes (flowScheduleId f.id) ∨ job parseDuration fires f = none ∧
      Current s.machine.workers.db f)
    (hadding : ∀ f schedule rest, p = .adding f schedule rest →
      parsed parseDuration f = some schedule)
    (hclearing : p ≠ .clearing) :
    ((s.setEntry (flowScheduleId f.id) none).setCall c p).Inv parseDuration fires := by
  have hbefore : ∀ key, (s.calls c).WillRemove key → key ≠ flowScheduleId f.id → p.WillRemove key := by
    intro key hr hne
    rw [hc] at hr
    obtain ⟨g, hg, hkey⟩ := hr
    rcases List.mem_cons.mp hg with rfl | hg
    · exact absurd hkey.symm hne
    · exact (hp key).mpr ⟨g, hg, hkey⟩
  refine h.call rfl rfl rfl rfl (fun _ _ hl => hl) (fun key j hj => ?_) (fun hrun hatt => ?_)
    hadding hclearing
  · have hj : Function.update s.entries (flowScheduleId f.id) none key = some j := hj
    by_cases hkey : key = flowScheduleId f.id
    · rw [hkey, Function.update_self] at hj
      cases hj
    · rw [Function.update_of_ne hkey] at hj
      by_cases hr : (s.calls c).WillRemove key
      · exact .inr (.inl (hbefore key hr hkey))
      · exact .inr (.inr ⟨hj, hr⟩)
  · refine .inr (.inr ⟨by rw [hc]; exact id, fun g hg => ?_⟩)
    show Function.update s.entries _ none _ = _ ∨ _ ∨ _ ∨ Function.update s.entries _ none _ = _ ∧ _
    by_cases hkey : flowScheduleId g.id = flowScheduleId f.id
    · rcases howes with howes | ⟨hnone, hcurrent⟩
      · rw [hkey]
        exact .inr (.inl howes)
      · rw [hkey, Function.update_self, job_congr (hcurrent g hg hkey), hnone]
        exact .inl rfl
    · by_cases hr : (s.calls c).WillRemove (flowScheduleId g.id)
      · exact .inr (.inl (.inl (hbefore _ hr hkey)))
      · rw [Function.update_of_ne hkey]
        refine .inr (.inr (.inr ⟨rfl, ?_⟩))
        rintro (hr' | ⟨f', schedule, rest', hc', -⟩)
        · exact hr hr'
        · rw [hc] at hc'
          cases hc'

theorem not_owes_adding {schedule : CronSchedule} {rest : List FlowRow}
    (hc : s.calls c = .adding f schedule rest) (hr : ¬ (s.calls c).WillRemove key)
    (hkey : key ≠ flowScheduleId f.id) : ¬ (s.calls c).Owes key := by
  rintro (hr' | ⟨f', schedule', rest', hc', hkey'⟩)
  · exact hr hr'
  · rw [hc] at hc'
    cases hc'
    exact hkey hkey'.symm

/-- `cron.add` for the flow that is stored, which has a next fire. -/
theorem add (h : s.Inv parseDuration fires) {schedule : CronSchedule} {rest : List FlowRow}
    (hc : s.calls c = .adding f schedule rest) (hcurrent : Current s.machine.workers.db f)
    (hstored : ∃ g ∈ s.machine.workers.db.flows, flowScheduleId g.id = flowScheduleId f.id)
    (hfires : fires schedule = true) :
    ((s.setEntry (flowScheduleId f.id) (some ⟨schedule, f.id⟩)).setCall c (.sync rest)).Inv
      parseDuration fires := by
  have hjob : ∀ g ∈ s.machine.workers.db.flows, flowScheduleId g.id = flowScheduleId f.id →
      job parseDuration fires g = some ⟨schedule, f.id⟩ := by
    intro g hg hkey
    rw [job_congr (hcurrent g hg hkey), job_of_parsed (h.adding c f schedule rest hc), if_pos hfires]
  refine h.call rfl rfl rfl rfl (fun _ _ hl => hl) (fun key j hj => ?_) (fun hrun hatt => ?_)
    (by simp) (by simp)
  · have hj : Function.update s.entries _ (some ⟨schedule, f.id⟩) key = some j := hj
    by_cases hkey : key = flowScheduleId f.id
    · rw [hkey, Function.update_self] at hj
      obtain rfl := Option.some.inj hj
      rw [hkey]
      exact .inl ⟨hstored, hjob⟩
    · rw [Function.update_of_ne hkey] at hj
      by_cases hr : (s.calls c).WillRemove key
      · rw [hc] at hr
        exact .inr (.inl hr)
      · exact .inr (.inr ⟨hj, hr⟩)
  · refine .inr (.inr ⟨by rw [hc]; exact id, fun g hg => ?_⟩)
    show Function.update s.entries _ (some ⟨schedule, f.id⟩) _ = _ ∨ _ ∨ _ ∨
      Function.update s.entries _ (some ⟨schedule, f.id⟩) _ = _ ∧ _
    by_cases hkey : flowScheduleId g.id = flowScheduleId f.id
    · rw [hkey, Function.update_self, hjob g hg hkey]
      exact .inl rfl
    · by_cases hr : (s.calls c).WillRemove (flowScheduleId g.id)
      · rw [hc] at hr
        exact .inr (.inl (.inl hr))
      · rw [Function.update_of_ne hkey]
        exact .inr (.inr (.inr ⟨rfl, not_owes_adding hc hr hkey⟩))

/-- `cron.add` for the flow that is stored, which has no next fire. -/
theorem add_nothing (h : s.Inv parseDuration fires) {schedule : CronSchedule} {rest : List FlowRow}
    (hc : s.calls c = .adding f schedule rest) (hcurrent : Current s.machine.workers.db f)
    (hfires : fires schedule = false) : (s.setCall c (.sync rest)).Inv parseDuration fires := by
  refine h.call rfl rfl rfl rfl (fun _ _ hl => hl) (fun key j hj => ?_) (fun hrun hatt => ?_)
    (by simp) (by simp)
  · by_cases hr : (s.calls c).WillRemove key
    · rw [hc] at hr
      exact .inr (.inl hr)
    · exact .inr (.inr ⟨hj, hr⟩)
  · refine .inr (.inr ⟨by rw [hc]; exact id, fun g hg => ?_⟩)
    show s.entries _ = _ ∨ _
    by_cases hkey : flowScheduleId g.id = flowScheduleId f.id
    · cases hentry : s.entries (flowScheduleId g.id) with
      | none =>
        left
        rw [job_congr (hcurrent g hg hkey), job_of_parsed (h.adding c f schedule rest hc), hfires]
        rfl
      | some j =>
        rcases h.entries _ j hentry with hright | ⟨c', hr⟩
        · exact .inl (hright.2 g hg rfl).symm
        · by_cases hne : c' = c
          · rw [hne, hc] at hr
            exact .inr (.inl (.inl hr))
          · exact .inr (.inr (.inl ⟨c', hne, .inl hr⟩))
    · by_cases hr : (s.calls c).WillRemove (flowScheduleId g.id)
      · rw [hc] at hr
        exact .inr (.inl (.inl hr))
      · exact .inr (.inr (.inr ⟨rfl, not_owes_adding hc hr hkey⟩))

/-- The flow is not stored, and its entry is dropped. -/
theorem unregister (h : s.Inv parseDuration fires) {id : Text} (hc : s.calls c = .unregister id)
    (hgone : ∀ g ∈ s.machine.workers.db.flows, flowScheduleId g.id ≠ flowScheduleId id) :
    ((s.setEntry (flowScheduleId id) none).finish c).Inv parseDuration fires := by
  refine h.call rfl rfl rfl rfl finish_life (fun key j hj => ?_) (fun hrun hatt => ?_)
    (by simp) (by simp)
  · have hj : Function.update s.entries (flowScheduleId id) none key = some j := hj
    by_cases hkey : key = flowScheduleId id
    · rw [hkey, Function.update_self] at hj
      cases hj
    · rw [Function.update_of_ne hkey] at hj
      refine .inr (.inr ⟨hj, ?_⟩)
      rw [hc]
      exact fun hr => hkey (Eq.symm hr)
  · refine .inr (.inr ⟨by rw [hc]; exact fun hl => hl, fun g hg => .inr (.inr (.inr ⟨?_, ?_⟩))⟩)
    · exact Function.update_of_ne (hgone g hg) _ _
    · rw [hc]
      rintro (hr | ⟨f', schedule', rest', hc', -⟩)
      · exact hgone g hg (Eq.symm hr)
      · cases hc'

theorem sync_step {now : Int} (h : s.Inv parseDuration fires)
    (hok : InOrder parseDuration z fires s (.sync c now))
    (hs : s.syncStep parseDuration z c now = some s') : s'.Inv parseDuration fires := by
  simp only [InOrder] at hok
  unfold Mirror.syncStep at hs
  split at hs
  · cases hs
  · rename_i hc
    obtain rfl := Option.some.inj hs
    split
    · exact h.goOn (by simp [hc, SyncPc.WillRemove]) (fun _ _ => .inl trivial) (by simp) (by simp)
    · rename_i hatt
      exact h.back (by simp [hc, SyncPc.Owes, SyncPc.WillRemove]) fun _ hyes => absurd hyes hatt
  · rename_i hc
    obtain rfl := Option.some.inj hs
    split
    · exact h.goOn (by simp [hc, SyncPc.WillRemove]) (fun _ _ => .inl trivial) (by simp) (by simp)
    · rename_i hrun
      exact h.back (by simp [hc, SyncPc.Owes, SyncPc.WillRemove]) fun hyes => absurd hyes hrun
  · rename_i hc
    obtain rfl := Option.some.inj hs
    split
    · refine h.goOn (by simp [hc, SyncPc.WillRemove]) (fun _ _ => .inr fun g hg => .inl ?_)
        (by simp) (by simp)
      obtain ⟨f, hf, hid⟩ := mem_listFlows hg
      exact ⟨f, hf, by rw [hid]⟩
    · rename_i hatt
      exact h.back (by simp [hc, SyncPc.Owes, SyncPc.WillRemove]) fun _ hyes => absurd hyes hatt
  · rename_i hc
    obtain rfl := Option.some.inj hs
    exact h.back (by simp [hc, SyncPc.Owes, SyncPc.WillRemove]) (by simp [hc, SyncPc.Loads])
  · rename_i f rest hc
    rw [hc] at hok
    split at hs
    · rename_i hblank
      exact absurd (List.isEmpty_iff.mp hblank) hok.1
    simp only at hs
    split at hs
    · rename_i hparsed
      obtain rfl := Option.some.inj hs
      refine h.remove hc (fun _ => Iff.rfl) (.inr ⟨?_, hok.2 hparsed⟩) (by simp) (by simp)
      rw [job, hparsed]
      rfl
    · rename_i schedule hparsed
      obtain rfl := Option.some.inj hs
      refine h.remove hc (fun _ => Iff.rfl) (.inl (.inr ⟨f, schedule, rest, rfl, rfl⟩)) ?_ (by simp)
      rintro _ _ _ ⟨⟩
      exact hparsed
  · rename_i f schedule rest hc
    rw [hc] at hok
    obtain ⟨hcurrent, hstored, hnext⟩ := hok
    split at hs
    · cases hs
    · rename_i hnone
      obtain rfl := Option.some.inj hs
      exact h.add_nothing hc hcurrent (hnext none hnone).symm
    · rename_i t hsome
      obtain rfl := Option.some.inj hs
      exact h.add hc hcurrent hstored (hnext (some t) hsome).symm
  · rename_i id hc
    rw [hc] at hok
    obtain rfl := Option.some.inj hs
    exact h.unregister hc hok
  · rename_i hc
    obtain rfl := Option.some.inj hs
    refine h.call rfl rfl rfl rfl finish_life (fun key j hj => ?_) (fun hrun _ => ?_)
      (by simp) (by simp)
    · cases hj
    · rw [(h.clearing c hc).2] at hrun
      cases hrun

end Mirror.Inv

-- ============================================================================
-- A step of a request
-- ============================================================================

theorem mem_upsertFlow {now : Text} {row : FlowRow} {flows : List FlowRow} (hne : g.id ≠ row.id) :
    g ∈ upsertFlow now row flows ↔ g ∈ flows := by
  unfold upsertFlow
  simp only
  split
  · rw [List.mem_map]
    constructor
    · rintro ⟨old, hold, rfl⟩
      split at hne
      · exact absurd rfl hne
      · rename_i hid
        rwa [if_neg hid]
    · exact fun hg => ⟨g, hg, if_neg hne⟩
  · rw [List.mem_append, List.mem_singleton]
    constructor
    · rintro (hg | rfl)
      · exact hg
      · exact absurd rfl hne
    · exact .inl

theorem mem_saveFlow {r : Flow} {now : Text} (h : saveFlow J now r db = .ok db')
    (hne : g.id ≠ r.id) : g ∈ db'.flows ↔ g ∈ db.flows := by
  unfold saveFlow at h
  split at h
  · cases h
  simp only [bind, Except.bind] at h
  split at h
  · cases h
  obtain rfl := Except.ok.inj h
  exact mem_upsertFlow hne

theorem mem_deleteFlow {id : Text} (h : deleteFlow id db = .ok db') (hne : g.id ≠ id) :
    g ∈ db'.flows ↔ g ∈ db.flows := by
  unfold deleteFlow at h
  split at h
  · obtain rfl := Except.ok.inj h
    simp [hne]
  · cases h

/-- A request changes the rows of one flow at most, and then has its schedule
    to register. -/
theorem machine_flows (h : m.step J jobs ids a = some m') :
    m'.workers.db = m.workers.db ∨
      ∃ id, (registration m m' a).WillRemove (flowScheduleId id) ∧
        ∀ g : FlowRow, g.id ≠ id → (g ∈ m'.workers.db.flows ↔ g ∈ m.workers.db.flows) := by
  cases a with
  | query i =>
    obtain ⟨w, hw, rfl⟩ := Option.map_eq_some_iff.mp h
    obtain ⟨r, -, hw⟩ := Option.bind_eq_some_iff.mp hw
    obtain ⟨p, -, hw⟩ := Option.bind_eq_some_iff.mp hw
    obtain rfl := Option.some.inj hw
    exact .inl rfl
  | decide i hub =>
    obtain ⟨r, -, h⟩ := Option.bind_eq_some_iff.mp h
    obtain ⟨w, hw, rfl⟩ := Option.map_eq_some_iff.mp h
    obtain ⟨r, -, hw⟩ := Option.bind_eq_some_iff.mp hw
    obtain ⟨p, -, hw⟩ := Option.bind_eq_some_iff.mp hw
    obtain rfl := Option.some.inj hw
    exact .inl rfl
  | save i =>
    obtain ⟨w, hw, rfl⟩ := Option.map_eq_some_iff.mp h
    obtain ⟨r, -, hw⟩ := Option.bind_eq_some_iff.mp hw
    split at hw
    · rename_i base f hpc
      split at hw
      · obtain rfl := Option.some.inj hw
        exact .inl rfl
      · rename_i db hsave
        obtain rfl := Option.some.inj hw
        refine .inr ⟨f.id, ?_, fun g hne => mem_saveFlow hsave hne⟩
        have hsaved : Function.update m.workers.pc i (.saved f.id) i = .saved f.id :=
          Function.update_self ..
        simp only [registration, hpc, Machine.setWorkers, Workers.goto, hsaved]
        exact ⟨_, List.mem_singleton_self _, rfl⟩
    · cases hw
  | delete i hub =>
    obtain ⟨id, -, h⟩ := Option.bind_eq_some_iff.mp h
    unfold Machine.deleteStep at h
    split at h
    · split at h <;> cases h <;> exact .inl rfl
    · cases h
      exact .inl rfl
    · cases h
      exact .inl rfl
    · rename_i gone hpc
      split at h
      · cases h
        exact .inl rfl
      · rename_i db hdel
        obtain rfl := Option.some.inj h
        refine .inr ⟨gone, ?_, fun g hne => mem_deleteFlow hdel hne⟩
        have hdeleted : Function.update m.deletes i .deleted i = .deleted :=
          Function.update_self ..
        simp only [registration, hpc, Machine.setDelete, Machine.setDb, Machine.setWorkers, hdeleted]
        rfl
    · cases h
  | start k id ready =>
    simp only [Machine.step, Machine.startStep] at h
    split at h
    · split at h
      · split at h <;> cases h <;> exact .inl rfl
      · cases h
        exact .inl rfl
    · cases h
  | next k =>
    simp only [Machine.step, Machine.runStep] at h
    split at h
    · cases h
      exact .inl rfl
    · split at h <;> cases h <;> exact .inl rfl
    · cases h
      exact .inl rfl
    · cases h
  | stop id =>
    cases h
    exact .inl rfl

theorem registration_cases (m m' : Machine) (a : MachineAct) :
    (registration m m' a).isIdle = true ∨ (∃ flows, registration m m' a = .sync flows) ∨
      ∃ id, registration m m' a = .unregister id := by
  unfold registration
  split
  · split
    · exact .inr (.inl ⟨_, rfl⟩)
    · exact .inl rfl
  · split
    · exact .inr (.inr ⟨_, rfl⟩)
    · exact .inl rfl
  · exact .inl rfl

namespace Mirror.Inv

/-- A request takes a step, and registers what it has committed. -/
theorem machine_step (h : s.Inv parseDuration fires) (hidle : (s.calls a.caller).isIdle = true)
    (hm : s.machine.step J jobs ids a = some m) :
    Mirror.Inv parseDuration fires
      ({ s with machine := m }.setCall a.caller (registration s.machine m a)) := by
  have hkeep : ∀ {Q : SyncPc → Prop}, ¬ Q (s.calls a.caller) → (∃ c, Q (s.calls c)) →
      ∃ c, Q (Function.update s.calls a.caller (registration s.machine m a) c) := exists_update
  have hself : Function.update s.calls a.caller (registration s.machine m a) a.caller =
      registration s.machine m a := Function.update_self ..
  have hown : ∀ {Q : SyncPc → Prop}, Q (registration s.machine m a) →
      ∃ c, Q (Function.update s.calls a.caller (registration s.machine m a) c) := by
    intro Q hq
    refine ⟨a.caller, ?_⟩
    rwa [hself]
  -- what is stored under a key has changed only if the request is to register it
  have hflows : ∀ key, (registration s.machine m a).WillRemove key ∨
      ∀ g : FlowRow, flowScheduleId g.id = key →
        (g ∈ m.workers.db.flows ↔ g ∈ s.machine.workers.db.flows) := by
    intro key
    rcases machine_flows hm with hdb | ⟨id, hremove, hother⟩
    · exact .inr fun g _ => by rw [hdb]
    · by_cases hkey : flowScheduleId id = key
      · exact .inl (hkey ▸ hremove)
      · refine .inr fun g hg => hother g ?_
        rintro rfl
        exact hkey hg
  refine ⟨fun key j hj => ?_, fun hrun hatt => ?_, fun c f schedule rest hc => ?_, fun c hc => ?_⟩
  · rcases hflows key with hremove | hsame
    · exact .inr (hown hremove)
    rcases h.entries key j hj with ⟨⟨g, hg, hkey⟩, hall⟩ | hr
    · exact .inl ⟨⟨g, (hsame g hkey).mpr hg, hkey⟩,
        fun g hg hkey => hall g ((hsame g hkey).mp hg) hkey⟩
    · exact .inr (hkeep (not_willRemove_idle hidle) hr)
  · rcases h.covered hrun hatt with hloads | hcov
    · exact .inl (hkeep (not_loads_idle hidle) hloads)
    refine .inr fun g hg => ?_
    rcases hflows (flowScheduleId g.id) with hremove | hsame
    · exact .inr (hown (Q := SyncPc.Owes _) (.inl hremove))
    rcases hcov g ((hsame g rfl).mp hg) with hjob | howes
    · exact .inl hjob
    · exact .inr (hkeep (not_owes_idle hidle) howes)
  · have hc : Function.update s.calls a.caller (registration s.machine m a) c = _ := hc
    by_cases hne : c = a.caller
    · rw [hne, hself] at hc
      rcases registration_cases s.machine m a with hr | ⟨flows, hr⟩ | ⟨id, hr⟩ <;> rw [hc] at hr <;>
        cases hr
    · rw [Function.update_of_ne hne] at hc
      exact h.adding c f schedule rest hc
  · have hc : Function.update s.calls a.caller (registration s.machine m a) c = _ := hc
    by_cases hne : c = a.caller
    · rw [hne, hself] at hc
      rcases registration_cases s.machine m a with hr | ⟨flows, hr⟩ | ⟨id, hr⟩ <;> rw [hc] at hr <;>
        cases hr
    · rw [Function.update_of_ne hne] at hc
      exact h.clearing c hc

/-- A call of the engine begins. -/
theorem engine_step (h : s.Inv parseDuration fires) {running attached : Bool}
    {life : Option Caller} (hidle : (s.calls c).isIdle = true)
    (hcovered : running = true → attached = true → p.Loads)
    (hlife : life = s.life ∧ running = s.running ∨ s.life = none)
    (hp : ∀ f schedule rest, p ≠ .adding f schedule rest)
    (hclearing : p = .clearing → life = some c ∧ running = false) :
    Mirror.Inv parseDuration fires
      ({ s with running := running, attached := attached, life := life }.setCall c p) := by
  refine ⟨fun key j hj => ?_, fun hrun hatt => .inl ⟨c, ?_⟩, fun c' f schedule rest hc' => ?_,
    fun c' hc' => ?_⟩
  · rcases h.entries key j hj with hright | hr
    · exact .inl hright
    · exact .inr (exists_update (not_willRemove_idle hidle) hr)
  · show (Function.update s.calls c p c).Loads
    rw [Function.update_self]
    exact hcovered hrun hatt
  · have hc' : Function.update s.calls c p c' = _ := hc'
    by_cases hne : c' = c
    · rw [hne, Function.update_self] at hc'
      exact absurd hc' (hp f schedule rest)
    · rw [Function.update_of_ne hne] at hc'
      exact h.adding c' f schedule rest hc'
  · have hc' : Function.update s.calls c p c' = _ := hc'
    by_cases hne : c' = c
    · rw [hne, Function.update_self] at hc'
      rw [hne]
      exact hclearing hc'
    · rw [Function.update_of_ne hne] at hc'
      obtain ⟨hheld, hstopped⟩ := h.clearing c' hc'
      rcases hlife with ⟨hl, hr⟩ | hnone
      · exact ⟨hl.trans hheld, hr.trans hstopped⟩
      · rw [hnone] at hheld
        cases hheld

theorem step {act : MirrorAct} (h : s.Inv parseDuration fires)
    (hok : InOrder parseDuration z fires s act)
    (hs : s.step J jobs ids parseDuration z act = some s') : s'.Inv parseDuration fires := by
  cases act with
  | machine a =>
    simp only [Mirror.step] at hs
    split at hs
    · rename_i hidle
      obtain ⟨m, hm, rfl⟩ := Option.map_eq_some_iff.mp hs
      exact h.machine_step hidle hm
    · cases hs
  | sync c now => exact h.sync_step hok hs
  | start l =>
    simp only [Mirror.step] at hs
    split at hs
    · rename_i hfree
      simp only [Bool.and_eq_true, Option.isNone_iff_eq_none] at hfree
      split at hs
      · obtain rfl := Option.some.inj hs
        exact h
      · obtain rfl := Option.some.inj hs
        exact h.engine_step hfree.1 (fun _ _ => trivial) (.inr hfree.2) (by simp) (by simp)
    · cases hs
  | stop l =>
    simp only [Mirror.step] at hs
    split at hs
    · rename_i hfree
      simp only [Bool.and_eq_true, Option.isNone_iff_eq_none] at hfree
      obtain rfl := Option.some.inj hs
      exact h.engine_step hfree.1 (by simp) (.inr hfree.2) (by simp) (by simp)
    · cases hs
  | attach l =>
    simp only [Mirror.step] at hs
    split at hs
    · rename_i hidle
      obtain rfl := Option.some.inj hs
      exact h.engine_step hidle (fun _ _ => trivial) (.inl ⟨rfl, rfl⟩) (by simp) (by simp)
    · cases hs
  | detach =>
    obtain rfl := Option.some.inj hs
    exact ⟨h.entries, fun _ hatt => Bool.noConfusion hatt, h.adding, h.clearing⟩

end Mirror.Inv

theorem job_eq_some {e : Job} : job parseDuration fires f = some e ↔
    f.scheduleEnabled = true ∧
      CronSchedule.parse parseDuration (trimWs f.scheduleCron) = .ok e.schedule ∧
      fires e.schedule = true ∧ e.flowId = f.id := by
  obtain ⟨schedule, flowId⟩ := e
  unfold job parsed
  cases henabled : f.scheduleEnabled with
  | false => simp
  | true =>
    cases hblank : trimWs f.scheduleCron with
    | nil => simp [CronSchedule.parse, Text.trim]
    | cons ch cs =>
      cases hparse : CronSchedule.parse parseDuration (ch :: cs) with
      | error e => simp [hparse, Except.toOption]
      | ok sch =>
        simp only [hparse, Except.toOption]
        grind

/-- Only the call that takes a step goes on. -/
theorem calls_other {act : MirrorAct} (hne : c ≠ act.caller)
    (hs : s.step J jobs ids parseDuration z act = some s') : s'.calls c = s.calls c := by
  have hset : ∀ (t : Mirror) c' p, c' = act.caller →
      (t.setCall c' p).calls c = t.calls c := by
    rintro t c' p rfl
    exact Function.update_of_ne hne _ _
  cases act with
  | machine a =>
    simp only [Mirror.step] at hs
    split at hs
    · obtain ⟨m, -, rfl⟩ := Option.map_eq_some_iff.mp hs
      exact hset _ _ _ rfl
    · cases hs
  | sync c' now =>
    simp only [Mirror.step, Mirror.syncStep] at hs
    split at hs
    · cases hs
    · cases hs
      split <;> exact hset _ _ _ rfl
    · cases hs
      split <;> exact hset _ _ _ rfl
    · cases hs
      split <;> exact hset _ _ _ rfl
    · cases hs
      exact hset _ _ _ rfl
    · split at hs
      · cases hs
        exact hset _ _ _ rfl
      · split at hs <;> cases hs <;> exact hset _ _ _ rfl
    · split at hs <;> cases hs <;> exact hset _ _ _ rfl
    · cases hs
      exact hset _ _ _ rfl
    · cases hs
      exact hset _ _ _ rfl
  | start l =>
    simp only [Mirror.step] at hs
    split at hs
    · split at hs <;> cases hs
      · rfl
      · exact hset _ _ _ rfl
    · cases hs
  | stop l =>
    simp only [Mirror.step] at hs
    split at hs
    · cases hs
      exact hset _ _ _ rfl
    · cases hs
  | attach l =>
    simp only [Mirror.step] at hs
    split at hs
    · cases hs
      exact hset _ _ _ rfl
    · cases hs
  | detach =>
    cases hs
    rfl

/-- In every run in which registrations end in the order of what is stored,
    once none is under way and the engine is running with a store attached, the
    runner's entries are those of the stored flows with an enabled schedule that
    parses and has a next fire. -/
theorem entries_mirror_store
    (h : (mirrorSystem J jobs ids parseDuration z db).ReachableIf (InOrder parseDuration z fires) s)
    (hidle : ∀ c, s.calls c = .idle) (hrun : s.running = true) (hatt : s.attached = true)
    (key : Text) (e : Job) :
    s.entries key = some e ↔ ∃ f ∈ s.machine.workers.db.flows, flowScheduleId f.id = key ∧
      f.scheduleEnabled = true ∧
      CronSchedule.parse parseDuration (trimWs f.scheduleCron) = .ok e.schedule ∧
      fires e.schedule = true ∧ e.flowId = f.id := by
  have hinv : s.Inv parseDuration fires := by
    apply h.invariant
    · rintro _ rfl
      refine ⟨fun _ _ hj => ?_, fun hrun => ?_, fun _ _ _ _ hc => ?_, fun _ hc => ?_⟩
      · cases hj
      · cases hrun
      · cases hc
      · cases hc
    · intro s a s' hs hok hstep
      exact hs.step hok hstep
  constructor
  · intro hentry
    rcases hinv.entries key e hentry with ⟨⟨g, hg, hkey⟩, hall⟩ | ⟨c, hr⟩
    · exact ⟨g, hg, hkey, job_eq_some.mp (hall g hg hkey)⟩
    · rw [hidle c] at hr
      exact hr.elim
  · rintro ⟨f, hf, rfl, hjob⟩
    rcases hinv.covered hrun hatt with ⟨c, hl⟩ | hcov
    · rw [hidle c] at hl
      exact hl.elim
    rcases hcov f hf with hentry | ⟨c, hr⟩
    · rw [hentry, job_eq_some]
      exact hjob
    · rw [hidle c] at hr
      exact absurd hr (not_owes_idle rfl)

end

-- ============================================================================
-- Runs
-- ============================================================================

namespace Sample

theorem utc_clock (w t : Int) (h : (Cron.LocalResult.single w).earliest = some t) :
    t + 0 = w := by
  obtain rfl := Option.some.inj h
  omega

def utc : Zone where
  offset _ := 0
  ofLocal w := .single w
  clock_earliest := utc_clock

/-- `flows.save` of the flow `f` with a schedule of every minute. -/
def saveScheduled : Request where
  method := .flowsSave
  params := [("flow".toList, .object [("id".toList, .string "f".toList),
    ("scheduleEnabled".toList, .bool true), ("scheduleCron".toList, .string "* * * * *".toList)])]
  uuids := []
  now := "2026-01-01 00:00:00".toList

def mirror : Mirror :=
  ⟨⟨⟨db, fun _ => .idle, []⟩, fun _ => .idle, fun _ => .idle, fun _ => none⟩,
    false, false, none, fun _ => none, fun _ => .idle⟩

def every : Text → Option Int := fun _ => none

/-- The engine starts, with a store attached, and loads the flows. -/
def startEngine : List MirrorAct :=
  [.attach 0, .sync (.engine 0) 0, .start 0] ++ List.replicate 4 (.sync (.engine 0) 0)

/-- A worker saves the flow, and registers its schedule. -/
def commit : List MirrorAct := [.machine (.decide 0 false), .machine (.save 0)]
def syncSaved : List MirrorAct := List.replicate 3 (.sync (.save 0) 0)

/-- The flow is deleted, and its job dropped. -/
def delete : List MirrorAct :=
  List.replicate 4 (.machine (.delete 0 false)) ++ [.sync (.delete 0) 0]

def callers : List Caller := [.save 0, .delete 0, .engine 0]

/-- All calls have returned, the engine is running and a store is attached;
    `scheduled` says whether the flow `f` has an entry, and `stored` whether
    there is a flow. -/
def settled (scheduled stored : Bool) (s : Mirror) : Bool :=
  callers.all (fun c => (s.calls c).isIdle) && s.running && s.attached &&
    (s.entries "flow:f".toList).isSome == scheduled &&
    s.machine.workers.db.flows.isEmpty == !stored

/-- The calls that have taken no step are idle too. -/
theorem idle_of_settled {jobs : List Request} {ids : List Text} {as : List MirrorAct} {s : Mirror}
    {scheduled stored : Bool}
    (hs : (mirrorSystem json jobs ids every utc db).runFrom mirror as = some s)
    (has : as.all (fun a => callers.contains a.caller) = true)
    (h : settled scheduled stored s = true) (c : Caller) : s.calls c = .idle := by
  have hidle : (s.calls c).isIdle = true := by
    by_cases hc : c ∈ callers
    · simp only [settled, Bool.and_eq_true] at h
      exact List.all_eq_true.mp h.1.1.1.1 c hc
    · have hframe : s.calls c = mirror.calls c := by
        refine System.runFrom_frame (v := fun t : Mirror => t.calls c) (fun a ha t t' ht => ?_) hs
        refine calls_other ?_ ht
        rintro rfl
        exact hc (List.contains_iff_mem.mp (List.all_eq_true.mp has a ha))
      rw [hframe]
      rfl
  cases hcall : s.calls c with
  | idle => rfl
  | _ =>
    rw [hcall] at hidle
    cases hidle

/-- `Current`, `InOrder`, with a next fire for every schedule. -/
def current (db : Db) (f : FlowRow) : Bool :=
  db.flows.all fun g => flowScheduleId g.id != flowScheduleId f.id || g.schedule == f.schedule

def inOrder (s : Mirror) : MirrorAct → Bool
  | .sync c now =>
      match s.calls c with
      | .sync (f :: _) =>
          !(trimWs f.id).isEmpty &&
            ((parsed every f).isSome || current s.machine.workers.db f)
      | .adding f schedule _ =>
          current s.machine.workers.db f &&
          s.machine.workers.db.flows.any (fun g => flowScheduleId g.id == flowScheduleId f.id) &&
          (schedule.nextAfter utc now).toOption.all Option.isSome
      | .unregister id =>
          s.machine.workers.db.flows.all fun g => flowScheduleId g.id != flowScheduleId id
      | _ => true
  | _ => true

theorem current_sound {db : Db} {f : FlowRow} (h : current db f = true) : Current db f := by
  intro g hg hkey
  simpa [hkey] using List.all_eq_true.mp h g hg

theorem inOrder_sound {s : Mirror} {a : MirrorAct} (h : inOrder s a = true) :
    InOrder every utc (fun _ => true) s a := by
  cases a with
  | sync c now =>
    simp only [inOrder] at h
    simp only [InOrder]
    split at h
    · rename_i f rest hc
      rw [Bool.and_eq_true] at h
      refine ⟨by simpa using h.1, fun hparsed => current_sound ?_⟩
      simpa [hparsed] using h.2
    · rename_i f schedule rest hc
      simp only [Bool.and_eq_true] at h
      refine ⟨current_sound h.1.1, by simpa using h.1.2, fun next hnext => ?_⟩
      simpa [hnext, Except.toOption] using h.2
    · simpa using h
    · trivial
  | _ => trivial

end Sample

/-- The engine starts, and the flow is saved with a schedule. -/
theorem entries_mirror_store_saved : ∃ s : Mirror,
    (s.entries "flow:f".toList).isSome = true ∧
    ∀ key e, s.entries key = some e ↔
      ∃ f ∈ s.machine.workers.db.flows, flowScheduleId f.id = key ∧ f.scheduleEnabled = true ∧
        CronSchedule.parse Sample.every (trimWs f.scheduleCron) = .ok e.schedule ∧
        e.flowId = f.id := by
  have hrun : ((mirrorSystem Sample.json [Sample.saveScheduled] ["f".toList] Sample.every Sample.utc
      Sample.db).runIf Sample.inOrder Sample.mirror
        (Sample.startEngine ++ Sample.commit ++ Sample.syncSaved)).any
          (Sample.settled true true) = true := by
    decide +kernel
  obtain ⟨s, hs, hout⟩ := (Option.any_eq_true _ _).mp hrun
  have hidle := Sample.idle_of_settled (System.runFrom_of_runIf hs) (by decide) hout
  simp only [Sample.settled, Bool.and_eq_true, beq_iff_eq] at hout
  have hreach := (System.runIf_reachableIf (.init rfl) hs).mono fun _ _ => Sample.inOrder_sound
  refine ⟨s, hout.1.2, fun key e => ?_⟩
  simpa using entries_mirror_store hreach hidle hout.1.1.1.2 hout.1.1.2 key e

/-- The flow is saved, then deleted; its schedule is registered after its job
    has been dropped, and the flow that is gone has an entry. -/
theorem deleted_flow_scheduled : ∃ s : Mirror,
    (mirrorSystem Sample.json [Sample.saveScheduled] ["f".toList] Sample.every Sample.utc
      Sample.db).Reachable s ∧
    (∀ c, s.calls c = .idle) ∧ s.running = true ∧ s.attached = true ∧
    s.machine.workers.db.flows = [] ∧ (s.entries "flow:f".toList).isSome = true := by
  have hrun : ((mirrorSystem Sample.json [Sample.saveScheduled] ["f".toList] Sample.every Sample.utc
      Sample.db).runFrom Sample.mirror
        (Sample.startEngine ++ Sample.commit ++ Sample.delete ++ Sample.syncSaved)).any
          (Sample.settled true false) = true := by
    decide +kernel
  obtain ⟨s, hs, hout⟩ := (Option.any_eq_true _ _).mp hrun
  have hidle := Sample.idle_of_settled hs (by decide) hout
  simp only [Sample.settled, Bool.and_eq_true, beq_iff_eq] at hout
  exact ⟨s, System.runFrom_reachable (.init rfl) hs, hidle, hout.1.1.1.2, hout.1.1.2,
    List.isEmpty_iff.mp hout.2, hout.1.2⟩

end GnDrive.Flows
