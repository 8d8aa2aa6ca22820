/-
  GnDrive.Container.Refusals

  The requests that take the data plane down before they ask the auth service
  (`auth_lock` and `auth_remove_password` in `dispatcher.rs`).

  `before_lock` empties the slots of the engines, clears the runtime and closes
  the store; tasks, runs and the entries of the cron runner stay.  When the
  service then refuses, or the plane does not open again after it, the request
  ends in an error with the store closed.  `refused_alone_iff` says when that
  cannot happen.

  Of `load_schedules` the half for flows is here (`sync_flow_schedule`).
-/

import GnDrive.Auth.Faults
import GnDrive.Board.Run
import GnDrive.Container.DataPlane
import GnDrive.Flows.Schedules
import GnDrive.Rpc.Params
import GnDrive.Runtime.Hub
import GnDrive.Sync.Engine

namespace GnDrive.Container.Refusals

open Auth AuthM
open DataPlane (AppError)
open Flows (Db FlowRow Job flowScheduleId listFlows parsed trimWs)

/-- What an engine holds of the data plane: the store, and whether it has a
    client. -/
structure Slots where
  store : Option Nat
  client : Bool
deriving DecidableEq

def Slots.empty : Slots := ⟨none, false⟩

/-- The data plane with the engines.  Stores are numbered as they are opened;
    `jobs` are the entries of the cron runner, `tasks` those of the sync engine,
    and a board or flow that runs has its run, cancelled or not. -/
structure Plane where
  store : Option Nat
  opened : Nat
  rclone : Bool
  sync : Slots
  board : Slots
  flow : Slots
  running : Bool
  jobs : Text → Option Job
  tasks : Sync.TaskId → Option Sync.Task
  boardRuns : Text → Option Board.Run
  flowRuns : Text → Option Bool
  hub : Runtime.Hub
  db : Db

structure App where
  state : State
  world : World
  plane : Plane

inductive Refusal where
  | params (e : Rpc.RpcError)
  | auth (e : AuthError)
  | app (e : AppError)

/-- How a request ends; `panicked` is a request whose thread dies. -/
inductive Outcome where
  | replied
  | refused (e : Refusal)
  | panicked

/-- What is outside the program when the plane is opened: what `Store::open`
    comes to, the rclone client, the time, the zone and durations. -/
structure Setting where
  opens : Except IoError Unit
  rclone : Bool
  now : Int
  zone : Cron.Zone
  parseDuration : Text → Option Int

section

variable (X : Crates) (keyStore : Bool) (g : Setting) (env : Env)

/-- `sync_flow_schedule`, from start to end. -/
def syncFlowSchedule (jobs : Text → Option Job) (f : FlowRow) :
    Except Cron.Panic (Text → Option Job) :=
  if (trimWs f.id).isEmpty then .ok jobs
  else
    let removed := Function.update jobs (flowScheduleId f.id) none
    match parsed g.parseDuration f with
    | none => .ok removed
    | some schedule => do
        match ← schedule.nextAfter g.zone g.now with
        | none => return removed
        | some _ => return Function.update removed (flowScheduleId f.id) (some ⟨schedule, f.id⟩)

def loadFlowSchedules (db : Db) (jobs : Text → Option Job) :
    Except Cron.Panic (Text → Option Job) :=
  (listFlows db).foldlM (syncFlowSchedule g) jobs

namespace Plane

/-- Close the data plane so auth can re-encrypt config safely. -/
def beforeLock (p : Plane) : Plane :=
  { p with
    sync := .empty, board := .empty, flow := .empty, hub := p.hub.reset, store := none
    rclone := false }

/-- Attach the engines to the store `n`. -/
def attach (p : Plane) (n : Nat) : Except Cron.Panic Plane := do
  let jobs ← if p.running then loadFlowSchedules g p.db p.jobs else pure p.jobs
  return { p with
    store := some n, rclone := true, jobs, sync := ⟨some n, true⟩, board := ⟨some n, true⟩
    flow := ⟨some n, true⟩ }

/-- The store that was opened last, put to use. -/
def connect (p : Plane) : Outcome × Plane :=
  match p.attach g p.opened with
  | .error _ => (.panicked, p)
  | .ok p => (.replied, p)

/-- Open store + rclone and attach them to the engines. -/
def openDataPlane (p : Plane) : Outcome × Plane :=
  if p.store.isSome then (.replied, p)
  else
    match g.opens with
    | .error e => (.refused (.app (.store e)), p)
    | .ok () =>
        let p := { p with opened := p.opened + 1 }
        if !g.rclone then (.refused (.app .rcloneMissing), p) else p.connect g

end Plane

/-- An operation of the auth service. -/
def App.auth (m : App) (x : AuthM Unit) : Except AuthError Unit × App :=
  let r := runAuth env x m.state m.world
  (r.1.1, { m with state := r.1.2, world := r.2 })

def App.beforeLock (m : App) : App := { m with plane := m.plane.beforeLock }

def App.afterUnlock (m : App) : Outcome × App :=
  let r := m.plane.openDataPlane g
  (r.1, { m with plane := r.2 })

def authLock (m : App) : Outcome × App :=
  match m.beforeLock.auth env (lock X keyStore) with
  | (.error e, m) => (.refused (.auth e), m)
  | (.ok (), m) => (.replied, m)

def authRemovePassword (p : Rpc.JsonDict) (m : App) : Outcome × App :=
  match p.requireString "password".toList with
  | .error e => (.refused (.params e), m)
  | .ok password =>
      match m.beforeLock.auth env (removePassword X (String.ofList password)) with
      | (.error e, m) => (.refused (.auth e), m)
      | (.ok (), m) => m.afterUnlock g

inductive Request where
  | lock
  | removePassword (p : Rpc.JsonDict)

def handle (m : App) : Request → Outcome × App
  | .lock => authLock X keyStore env m
  | .removePassword p => authRemovePassword X g env p m

/-- The store is the one that was open, the schedules are registered, and what
    runs has not been cancelled. -/
def Alone (p p' : Plane) : Prop :=
  p'.store = p.store ∧ p'.jobs = p.jobs ∧ p'.tasks = p.tasks ∧ p'.boardRuns = p.boardRuns ∧
    p'.flowRuns = p.flowRuns

/-- A request that is refused leaves an open data plane alone. -/
def RefusedAlone (m : App) (req : Request) : Prop :=
  let r := handle X keyStore g env m req
  m.plane.store.isSome = true → ∀ e, r.1 = .refused e → Alone m.plane r.2.plane

/-- The checks of `remove_password`. -/
def RemoveRejected (s : State) (password : String) : Prop :=
  s.authData.enabled = false ∨ s.unlocked = false ∨
    Argon2id.verify X.argon2 password s.authData.passwordHash = false

/-- When a request can be refused once the plane is down. -/
def RefusedLate (may : Site → Prop) (s : State) : Request → Prop
  | .lock => keyStore = true ∧ may .ksDelete
  | .removePassword p => ∃ password, p.requireString "password".toList = .ok password ∧
      (RemoveRejected X s (String.ofList password) ∨ g.opens ≠ .ok () ∨ g.rclone = false)

end

-- ============================================================================
-- The plane
-- ============================================================================

variable {X : Crates} {keyStore : Bool} {g : Setting} {env : Env} {may : Site → Prop} {s : State}
  {v : View} {m : App} {p : Plane}

/-- Only the store tells that the plane is down. -/
theorem alone_beforeLock_iff (p : Plane) : Alone p p.beforeLock ↔ p.store = none := by
  constructor
  · intro h
    exact h.1.symm
  · intro h
    exact ⟨h.symm, rfl, rfl, rfl, rfl⟩

theorem connect_ne_refused (p : Plane) (e : Refusal) : (p.connect g).1 ≠ .refused e := by
  unfold Plane.connect
  split <;> nofun

/-- A plane that is down opens unless the store or the client cannot be had,
    and stays down then. -/
theorem openDataPlane_refused (hp : p.store = none) :
    (g.opens ≠ .ok () ∨ g.rclone = false) ∧
      (∃ e, (p.openDataPlane g).1 = .refused e) ∧ (p.openDataPlane g).2.store = none ∨
    ¬ (g.opens ≠ .ok () ∨ g.rclone = false) ∧ ∀ e, (p.openDataPlane g).1 ≠ .refused e := by
  unfold Plane.openDataPlane
  rw [if_neg (by simp [hp])]
  cases g.opens with
  | error e => exact .inl ⟨.inl nofun, ⟨_, rfl⟩, hp⟩
  | ok u =>
    cases hr : g.rclone with
    | false => exact .inl ⟨.inr rfl, ⟨_, rfl⟩, hp⟩
    | true => exact .inr ⟨by simp, fun e => connect_ne_refused _ e⟩

-- ============================================================================
-- The service
-- ============================================================================

theorem auth_suspend_ok :
    ASpec env (fun _ => True) (suspend X) (fun r _ _ => r = .ok ()) s v := by
  refine auth_bind (auth_get trivial ?_)
  show ASpec env _ (if s.unlocked = true then lockInternal X else pure ()) _ s v
  split
  · refine auth_bind (auth_get trivial ?_)
    cases hk : s.encKey with
    | none =>
      simp only [hk]
      exact auth_pure trivial rfl
    | some key =>
      simp only [hk]
      refine auth_bind (auth_modify trivial (auth_bind (auth_io (spec_any fun _ _ => ?_))))
      exact auth_bind (auth_io (spec_utcNow trivial fun k => auth_modify trivial rfl))
  · exact auth_pure trivial rfl

/-- `lock` fails only when the remembered key cannot be deleted. -/
theorem auth_lock_ok (hks : keyStore = true → ¬ Faulty env (· = .ksDelete)) :
    ASpec env (fun _ => True) (lock X keyStore) (fun r _ _ => r = .ok ()) s v := by
  refine auth_bind (auth_mono (fun _ h => h) ?_ auth_suspend_ok)
  rintro r s' v' - rfl
  cases keyStore with
  | false => exact auth_attempt (spec_pure trivial rfl)
  | true =>
    exact auth_attempt (spec_bind (spec_ksDelete trivial trivial (spec_pure trivial rfl)
      fun k hk => absurd ⟨k, _, hk, rfl⟩ (hks rfl)))

theorem auth_lock_refused (hks : Dead env .ksDelete) :
    ASpec env (fun _ => True) (lock X true) (fun r _ _ => ∃ e, r = .error e) s v := by
  refine auth_bind (auth_mono (fun _ h => h) ?_ auth_suspend_ok)
  rintro r s' v' - rfl
  refine auth_attempt (spec_bind (spec_call (c := .ksDelete) trivial ?_))
  rintro w rfl
  have hf : env.fails w.tick .ksDelete = true := hks _ _ rfl
  simp only [exec, hf, if_true]
  exact ⟨trivial, spec_pure trivial ⟨_, rfl⟩⟩

/-- `remove_password` fails exactly when one of its checks does. -/
theorem auth_removePassword_refused_iff {password : String} :
    ASpec env (fun _ => True) (removePassword X password)
      (fun r _ _ => (∃ e, r = .error e) ↔ RemoveRejected X s password) s v := by
  have hrefused : ∀ e : AuthError, RemoveRejected X s password →
      ((∃ e', (Except.error e : Except AuthError Unit) = .error e') ↔
        RemoveRejected X s password) := fun e h => ⟨fun _ => h, fun _ => ⟨e, rfl⟩⟩
  refine auth_bind (auth_get trivial (auth_bind (auth_reject trivial (fun hen => ?_)
    fun h => hrefused _ (.inl (by simpa using h)))))
  refine auth_bind (auth_reject trivial (fun hu => ?_)
    fun h => hrefused _ (.inr (.inl (by simpa using h))))
  refine auth_bind (auth_reject trivial (fun hverify => ?_)
    fun h => hrefused _ (.inr (.inr (by simpa using h))))
  refine auth_bind (auth_io (spec_any fun _ _ => auth_bind (auth_io (spec_any fun _ _ =>
    auth_set trivial ?_))))
  refine ⟨fun ⟨e, he⟩ => (by cases he), ?_⟩
  rintro (h | h | h)
  · simp [h] at hen
  · simp [h] at hu
  · simp [h] at hverify

-- ============================================================================
-- The requests
-- ============================================================================

/-- An operation of the service does not reach the plane. -/
theorem App.auth_plane (env : Env) (m : App) (x : AuthM Unit) : (m.auth env x).2.plane = m.plane := rfl

/-- What a specification says of an operation. -/
theorem App.auth_spec {x : AuthM Unit} {Q : Except AuthError Unit → State → View → Prop}
    (hx : ASpec env (fun _ => True) x Q m.state m.world.view) :
    Q (m.auth env x).1 (m.auth env x).2.state (m.auth env x).2.world.view := auth_run hx

/-- `auth.lock` is refused exactly when the service refuses, and the store is
    closed then. -/
theorem authLock_refused (m : App) :
    (∀ e, (m.beforeLock.auth env (lock X keyStore)).1 = .error e →
      (∃ e', (authLock X keyStore env m).1 = .refused e') ∧
        (authLock X keyStore env m).2.plane.store = none) ∧
    ((m.beforeLock.auth env (lock X keyStore)).1 = .ok () →
      ∀ e, (authLock X keyStore env m).1 ≠ .refused e) := by
  unfold authLock
  have hplane := App.auth_plane env m.beforeLock (lock X keyStore)
  generalize m.beforeLock.auth env (lock X keyStore) = r at hplane ⊢
  obtain ⟨r, m'⟩ := r
  cases r with
  | error e => exact ⟨fun _ _ => ⟨⟨_, rfl⟩, by rw [show m'.plane = _ from hplane]; rfl⟩, nofun⟩
  | ok u => exact ⟨nofun, fun _ _ => nofun⟩

/-- `auth.removePassword` with a password is refused exactly when the service
    refuses or the plane does not open again, and the store is closed then. -/
theorem authRemovePassword_refused {q : Rpc.JsonDict} {password : Text} (g : Setting) (env : Env)
    (m : App)
    (hq : q.requireString "password".toList = .ok password) :
    (RemoveRejected X m.state (String.ofList password) ∨ g.opens ≠ .ok () ∨ g.rclone = false) ∧
      (∃ e, (authRemovePassword X g env q m).1 = .refused e) ∧
        (authRemovePassword X g env q m).2.plane.store = none ∨
    ¬ (RemoveRejected X m.state (String.ofList password) ∨ g.opens ≠ .ok () ∨ g.rclone = false) ∧
      ∀ e, (authRemovePassword X g env q m).1 ≠ .refused e := by
  unfold authRemovePassword
  rw [hq]
  have hplane := App.auth_plane env m.beforeLock (removePassword X (String.ofList password))
  have hrefused : (∃ e, (m.beforeLock.auth env
      (removePassword X (String.ofList password))).1 = .error e) ↔
        RemoveRejected X m.state (String.ofList password) :=
    App.auth_spec (m := m.beforeLock) auth_removePassword_refused_iff
  simp only
  generalize m.beforeLock.auth env (removePassword X (String.ofList password)) = r
    at hplane hrefused ⊢
  obtain ⟨r, m'⟩ := r
  have hdown : m'.plane.store = none := by rw [show m'.plane = _ from hplane]; rfl
  cases r with
  | error e => exact .inl ⟨.inl (hrefused.mp ⟨e, rfl⟩), ⟨_, rfl⟩, hdown⟩
  | ok u =>
    have haccepted : ¬ RemoveRejected X m.state (String.ofList password) := by
      intro h
      obtain ⟨e, he⟩ := hrefused.mpr h
      cases he
    rcases openDataPlane_refused (g := g) hdown with ⟨h, he, hclosed⟩ | ⟨h, hok⟩
    · exact .inl ⟨.inr h, he, hclosed⟩
    · exact .inr ⟨fun h' => h'.elim haccepted h, hok⟩

/-- Whatever calls may fail, a request that is refused leaves an open data
    plane alone exactly when it cannot be refused after `before_lock`. -/
theorem refused_alone_iff (X : Crates) (keyStore : Bool) (g : Setting) (may : Site → Prop)
    (s : State) (v : View) (p : Plane) (req : Request) :
    (∀ env, env.Within may → ∀ w, w.view = v →
      RefusedAlone X keyStore g env ⟨s, w, p⟩ req) ↔
      ¬ (p.store.isSome = true ∧ RefusedLate X keyStore g may s req) := by
  constructor
  · rintro halone ⟨hopen, hlate⟩
    have hstore : p.store ≠ none := by
      intro h
      rw [h] at hopen
      cases hopen
    cases req with
    | lock =>
      obtain ⟨rfl, hks⟩ := hlate
      have henv : (Env.failing [.ksDelete] (fun _ => 0) 0).Within may :=
        Env.failing_within (by simpa using hks)
      have hdead : Dead (Env.failing [.ksDelete] (fun _ => 0) 0) .ksDelete :=
        failing_dead (List.mem_singleton_self _)
      obtain ⟨e, he⟩ := App.auth_spec (m := App.beforeLock ⟨s, World.ofView v, p⟩)
        (auth_lock_refused (X := X) hdead)
      obtain ⟨⟨e', he'⟩, hclosed⟩ := (authLock_refused _).1 e he
      have hsame := (halone _ henv _ (World.view_ofView v) hopen e' he').1
      exact hstore (hsame.symm.trans hclosed)
    | removePassword q =>
      obtain ⟨password, hq, hlate⟩ := hlate
      have henv : (Env.failing [] (fun _ => 0) 0).Within may := Env.failing_within (by simp)
      rcases authRemovePassword_refused g (Env.failing [] (fun _ => 0) 0)
        ⟨s, World.ofView v, p⟩ hq with ⟨-, ⟨e, he⟩, hclosed⟩ | ⟨hnot, -⟩
      · have hsame := (halone _ henv _ (World.view_ofView v) hopen e he).1
        exact hstore (hsame.symm.trans hclosed)
      · exact hnot hlate
  · rintro hnot env henv w rfl hopen e he
    cases req with
    | lock =>
      have hks : keyStore = true → ¬ Faulty env (· = .ksDelete) := by
        intro hks hf
        refine hnot ⟨hopen, hks, hf.within henv ?_⟩
        rintro c rfl
        rfl
      have hok := App.auth_spec (m := App.beforeLock ⟨s, w, p⟩) (auth_lock_ok (X := X) hks)
      exact absurd he ((authLock_refused _).2 hok e)
    | removePassword q =>
      cases hq : q.requireString "password".toList with
      | error e' =>
        have hsame : handle X keyStore g env ⟨s, w, p⟩ (.removePassword q)
            = (.refused (.params e'), ⟨s, w, p⟩) := by
          show authRemovePassword X g env q _ = _
          unfold authRemovePassword
          rw [hq]
        show Alone p (handle X keyStore g env ⟨s, w, p⟩ (.removePassword q)).2.plane
        rw [hsame]
        exact ⟨rfl, rfl, rfl, rfl, rfl⟩
      | ok password =>
        rcases authRemovePassword_refused g env ⟨s, w, p⟩ hq with
          ⟨hlate, -, -⟩ | ⟨-, hok⟩
        · exact absurd ⟨hopen, password, hq, hlate⟩ hnot
        · exact absurd he (hok e)

/-- A data plane that is open, with nothing running. -/
def openPlane : Plane where
  store := some 1
  opened := 1
  rclone := true
  sync := ⟨some 1, true⟩
  board := ⟨some 1, true⟩
  flow := ⟨some 1, true⟩
  running := true
  jobs _ := none
  tasks _ := none
  boardRuns _ := none
  flowRuns _ := none
  hub := {}
  db := ⟨[], []⟩

/-- A service without a password refuses to remove one, and the store is
    closed. -/
theorem refused_not_alone : ¬ RefusedAlone Sample.crates false
    ⟨.ok (), true, 0, Flows.Sample.utc, fun _ => none⟩ (Sample.env 0)
    ⟨⟨true, none, .default, none⟩, World.ofView ⟨fun _ => none, none, []⟩, openPlane⟩
    (.removePassword [("password".toList, .string "abcd".toList)]) := by
  intro halone
  have hq : Rpc.JsonDict.requireString [("password".toList, .string "abcd".toList)]
      "password".toList = .ok "abcd".toList := by decide
  rcases authRemovePassword_refused ⟨.ok (), true, 0, Flows.Sample.utc, fun _ => none⟩ (Sample.env 0)
    ⟨⟨true, none, .default, none⟩, World.ofView ⟨fun _ => none, none, []⟩, openPlane⟩ hq with
    ⟨-, ⟨e, he⟩, hclosed⟩ | ⟨hnot, -⟩
  · have hsame := (halone rfl e he).1
    rw [show (openPlane.store : Option Nat) = some 1 from rfl] at hsame
    exact absurd (hsame.symm.trans hclosed) nofun
  · exact hnot (.inl (.inl rfl))

end GnDrive.Container.Refusals
