/-
  GnDrive.Auth.Sessions

  Every history of a config directory: starts of the process, the operations
  of the auth service, and the death of the process at any point of either.

  Each event has an environment of its own, so any call of any operation may
  fail.  An `unlock` that waits for its back-off delay gives the lock up:
  `asleep` holds the passwords of the calls that are waiting, and `wake` is
  the second lock section of one of them.

  `Host.Holds.of_runs` is the induction over these histories: it asks of every
  lock section what it keeps on the disk at each point, for the process may
  die there, and what it keeps of disk and memory at its end.
-/

import GnDrive.Auth.Operations
import GnDrive.Lib.System

namespace GnDrive.Auth.Sessions

open AuthM

/-- A config directory, the service of the running process, if any, and the
    passwords of its calls of `unlock` that sleep. -/
structure Host where
  world : World
  service : Option State
  asleep : List String

/-- The lock sections of the operations. -/
inductive Op where
  | setup (password : String)
  | unlock (password : String)
  | wake (password : String)
  | lock
  | suspend
  | changePassword (old new : String)
  | removePassword (password : String)
  | openPlaintextSession

inductive Event where
  | op (o : Op)
  | killed (o : Op) (n : Nat)
  | start
  | startKilled (n : Nat)
  | exit

structure Act where
  env : Env
  event : Event

section

variable (X : Crates) (keyStore : Bool)

/-- `unlock` up to its delay, or to its end if there is none: the password,
    if the call goes on later. -/
def unlockSection (password : String) : AuthM (Option String) := do
  match ← unlockCheck X with
  | .alreadyUnlocked => return none
  | .delay _ => return some password
  | .verify =>
      unlockVerify X keyStore password
      return none

/-- The program of a lock section. -/
def Op.prog : Op → AuthM (Option String)
  | .setup password => do setupPassword X keyStore password; return none
  | .unlock password => unlockSection X keyStore password
  | .wake password => do unlockAfterSleep X keyStore password; return none
  | .lock => do Auth.lock X keyStore; return none
  | .suspend => do Auth.suspend X; return none
  | .changePassword old new => do Auth.changePassword X keyStore old new; return none
  | .removePassword password => do Auth.removePassword X password; return none
  | .openPlaintextSession => do Auth.openPlaintextSession; return none

/-- A call goes on after its delay only if it sleeps. -/
def Op.enabled (asleep : List String) : Op → Bool
  | .wake password => password ∈ asleep
  | _ => true

/-- The calls that sleep after the section `o` has ended in `r`. -/
def Op.asleep (asleep : List String) (r : Except AuthError (Option String)) : Op → List String
  | .wake password => asleep.erase password
  | _ => match r with
    | .ok (some password) => password :: asleep
    | _ => asleep

def Host.step (h : Host) (a : Act) : Option Host :=
  match a.event, h.service with
  | .op o, some s =>
      if o.enabled h.asleep then
        let r := runAuth a.env (o.prog X keyStore) s h.world
        some ⟨r.2, some r.1.2, o.asleep h.asleep r.1.1⟩
      else none
  | .killed o n, some s =>
      if o.enabled h.asleep then
        some ⟨Prog.crashAt (exec a.env) n ((o.prog X keyStore).run.run s) h.world, none, []⟩
      else none
  | .exit, some _ => some ⟨h.world, none, []⟩
  | .start, none =>
      let r := Prog.run (exec a.env) (new X keyStore) h.world
      some ⟨r.2, some r.1, []⟩
  | .startKilled n, none =>
      some ⟨Prog.crashAt (exec a.env) n (new X keyStore) h.world, none, []⟩
  | _, _ => none

/-- Histories that begin with no process, on a disk of `start`. -/
def sessions (start : World → Prop) : System Host Act where
  init h := start h.world ∧ h.service = none ∧ h.asleep = []
  step := Host.step X keyStore

end

-- ============================================================================
-- The induction over histories
-- ============================================================================

section

variable {X : Crates} {keyStore : Bool} {start : World → Prop} {D : View → Prop}
  {P : State → View → Prop} {ok : Host → Act → Prop} {h h' : Host} {a : Act}

/-- `D` on the disk, and `P` on disk and memory while a process runs. -/
def Host.Holds (D : View → Prop) (P : State → View → Prop) (h : Host) : Prop :=
  D h.world.view ∧ ∀ s, h.service = some s → P s h.world.view

/-- Step lemma. -/
theorem Host.Holds.step (hh : h.Holds D P)
    (hnew : h.service = none → Spec a.env D (new X keyStore) P h.world.view)
    (hop : ∀ o s, (a.event = .op o ∨ ∃ n, a.event = .killed o n) → h.service = some s →
      ASpec a.env D (o.prog X keyStore) (fun _ s' v' => P s' v') s h.world.view)
    (hs : h.step X keyStore a = some h') : h'.Holds D P := by
  have hdead : ∀ w : World, D w.view → Host.Holds D P ⟨w, none, []⟩ :=
    fun w hw => ⟨hw, fun s hs => by cases hs⟩
  unfold Host.step at hs
  split at hs
  · rename_i o s hevent hservice
    have hspec := hop o s (.inl hevent) hservice
    split at hs
    · obtain rfl := Option.some.inj hs
      refine ⟨spec_run_inv hspec, fun s' hs' => ?_⟩
      obtain rfl := Option.some.inj hs'
      exact auth_run hspec
    · cases hs
  · rename_i o n s hevent hservice
    split at hs
    · obtain rfl := Option.some.inj hs
      exact hdead _ (spec_crash (hop o s (.inr ⟨n, hevent⟩) hservice) n)
    · cases hs
  · obtain rfl := Option.some.inj hs
    exact hdead _ hh.1
  · rename_i hservice
    obtain rfl := Option.some.inj hs
    refine ⟨spec_run_inv (hnew hservice), fun s' hs' => ?_⟩
    obtain rfl := Option.some.inj hs'
    exact spec_run (hnew hservice)
  · rename_i n _ hservice
    obtain rfl := Option.some.inj hs
    exact hdead _ (spec_crash (hnew hservice) n)
  · cases hs

/-- Run lemma: what every start and every lock section keeps holds in every
    history. -/
theorem Host.Holds.of_runs (hstart : ∀ w, start w → D w.view)
    (hnew : ∀ h a, ok h a → D h.world.view → h.service = none →
      Spec a.env D (new X keyStore) P h.world.view)
    (hop : ∀ h a o s, ok h a → (a.event = .op o ∨ ∃ n, a.event = .killed o n) →
      h.service = some s → D h.world.view → P s h.world.view →
      ASpec a.env D (o.prog X keyStore) (fun _ s' v' => P s' v') s h.world.view)
    (hreach : (sessions X keyStore start).ReachableIf ok h) : h.Holds D P := by
  refine System.ReachableIf.invariant ?_ (fun h a h' hh hok hs => ?_) hreach
  · rintro h₀ ⟨hdisk, hnone, -⟩
    refine ⟨hstart _ hdisk, fun s hs => ?_⟩
    rw [hnone] at hs
    cases hs
  · exact hh.step (hnew h a hok hh.1)
      (fun o s he hservice => hop h a o s hok he hservice hh.1 (hh.2 s hservice)) hs

/-- A section that does not sleep. -/
theorem auth_done {env : Env} {I : View → Prop} {x : AuthM Unit} {s : State} {v : View}
    (hx : ASpec env I x (fun _ s' v' => P s' v') s v) :
    ASpec env I (do x; return (none : Option String)) (fun _ s' v' => P s' v') s v := by
  refine auth_bind (auth_mono (fun _ h => h) ?_ hx)
  intro r s' v' hI hr
  cases r with
  | ok u => exact auth_pure hI hr
  | error e => exact hr

end
end GnDrive.Auth.Sessions
