/-
  GnDrive.Container.DataPlane

  RPC workers that open and close the data plane around the auth service.

  `AuthService` keeps the auth lock for one call, and `open_data_plane` and
  `before_lock` keep the container's for one.  A request makes its calls one
  after the other and holds neither lock in between: `auth.unlock` unlocks and
  then calls `after_unlock`, `auth.lock` calls `before_lock` and then locks.
  A step of the system is one call of one worker.

  `open_data_plane` looks at nothing but the store it may already have, so a
  worker that comes to `after_unlock` when another one has locked the files
  opens a new database beside the sealed one.  `Orderly` excludes this, the
  call that locks the service over a store opened since `before_lock`, the
  password change that seals the files under the open store, and the start of
  a locked service over plaintext files, which opens the store by design.
  `follows_of_orderly` says that there is nothing else.
-/

import GnDrive.Auth.Instance
import GnDrive.Auth.RateLimit
import GnDrive.Container.Recovery

namespace GnDrive.Container.DataPlane

open Auth AuthM

/-- Which call the request of a worker makes next. -/
inductive Pc where
  | idle
  | asleep (password : String)
  | afterUnlock
  | lockAuth
  | forgetKey
  | suspendAuth
  | removeAuth (password : String)
deriving DecidableEq

/-- A request begins, or makes its next call; `construct` is the end of
    `AppContainer::new`, and `query` a request that writes to the store. -/
inductive Move where
  | construct
  | unlock (password : String)
  | setup (password : String)
  | lock
  | close
  | changePassword (old new : String)
  | removePassword (password : String)
  | query (data : Bytes)
  | next

/-- What happens in a step: the worker, what its environment decides, whether
    the rclone client can be made, and the call. -/
structure Act where
  worker : Nat
  env : Env
  rclone : Bool
  move : Move

inductive AppError where
  | store (e : IoError)
  | rcloneMissing

structure Plane where
  serving : Bool
  state : State
  world : World
  storeOpen : Bool
  pc : Nat → Pc

section

variable (X : Crates) (keyStore portal : Bool) (schema : Bytes)

/-- The auth service as `AppContainer::new` makes it, with the password of the
    options. -/
def newAuth (unlockPassword : String) : Io (Except AuthError Unit × State) := do
  let st ← Auth.new X keyStore
  if unlockPassword = "" then return (.ok (), st)
  else (unlock X keyStore unlockPassword).run.run st

/-- Open store and rclone unless the store is open. -/
def openDataPlane (storeOpen rclone : Bool) : ExceptT AppError Io Unit := do
  if storeOpen then return ()
  else
    match ← ExceptT.lift (openStore schema).run with
    | .error e => throw (.store e)
    | .ok () => if rclone then return () else throw .rcloneMissing

/-- The end of `AppContainer::new`: whether the data plane is open. -/
def construct (auth : State) (rclone : Bool) : ExceptT AppError Io Bool := do
  if ← ExceptT.lift (canOpenDataPlane auth) then
    openDataPlane schema false rclone
    return true
  else return false

/-- `after_unlock`: whether the data plane is open after it. -/
def afterUnlock (storeOpen rclone : Bool) : Io Bool := do
  match ← (openDataPlane schema storeOpen rclone).run with
  | .error _ => return storeOpen
  | .ok () => return true

/-- The call a worker makes, which ends in the next one of its request and in
    whether the store is open. -/
def call (storeOpen rclone : Bool) : Move → Pc → Option (AuthM (Pc × Bool))
  | .unlock password, .idle => some do
      match ← unlockCheck X with
      | .alreadyUnlocked => return (.afterUnlock, storeOpen)
      | .delay _ => return (.asleep password, storeOpen)
      | .verify =>
          unlockVerify X keyStore password
          return (.afterUnlock, storeOpen)
  | .next, .asleep password => some do
      unlockAfterSleep X keyStore password
      return (.afterUnlock, storeOpen)
  | .setup password, .idle => some do
      setupPassword X keyStore password
      return (.afterUnlock, storeOpen)
  | .next, .afterUnlock => some do
      return (.idle, ← io (afterUnlock schema storeOpen rclone))
  -- `before_lock`
  | .lock, .idle => some (return (.lockAuth, false))
  | .close, .idle => some (return (.suspendAuth, false))
  | .removePassword password, .idle => some (return (.removeAuth password, false))
  | .next, .lockAuth => some do
      suspend X
      return (.forgetKey, storeOpen)
  | .next, .forgetKey => some do
      attempt (forgetRememberedKey keyStore)
      return (.idle, storeOpen)
  | .next, .suspendAuth => some do
      suspend X
      return (.idle, storeOpen)
  | .next, .removeAuth password => some do
      removePassword X password
      return (.afterUnlock, storeOpen)
  | .changePassword old new, .idle => some do
      changePassword X keyStore old new
      return (.idle, storeOpen)
  | .query data, .idle => some do
      if storeOpen then
        let _ ← io (writeAll (.file dbName) data)
      return (.idle, storeOpen)
  | _, _ => none

/-- A call that fails leaves the store as it is. -/
def openAfter (storeOpen : Bool) : Except AuthError (Pc × Bool) → Bool
  | .ok (_, storeOpen) => storeOpen
  | .error _ => storeOpen

/-- A call that fails ends its request. -/
def pcAfter : Except AuthError (Pc × Bool) → Pc
  | .ok (pc, _) => pc
  | .error _ => .idle

def Plane.after (m : Plane) (i : Nat) (r : (Except AuthError (Pc × Bool) × State) × World) :
    Plane where
  serving := m.serving
  state := r.1.2
  world := r.2
  storeOpen := openAfter m.storeOpen r.1.1
  pc := Function.update m.pc i (pcAfter r.1.1)

/-- Before `AppContainer::new` has returned there are no workers. -/
def step (m : Plane) (a : Act) : Option Plane :=
  match m.serving, a.move with
  | false, .construct =>
      match Prog.run (exec a.env) (construct schema m.state a.rclone).run m.world with
      | (.ok storeOpen, w) => some { m with serving := true, world := w, storeOpen := storeOpen }
      | (.error _, _) => none
  | true, move =>
      (call X keyStore schema m.storeOpen a.rclone move (m.pc a.worker)).map fun p =>
        m.after a.worker (runAuth a.env p m.state m.world)
  | false, _ => none

/-- Runs from `AppContainer::new` on any disk. -/
def planeSystem : System Plane Act where
  init m := m.serving = false ∧ m.storeOpen = false ∧ (∀ i, m.pc i = .idle) ∧
    (portal || !m.state.authData.enabled || m.state.unlocked) ∧
    ∃ env w unlockPassword, Prog.run (exec env) (newAuth X keyStore unlockPassword) w
      = ((.ok (), m.state), m.world)
  step := step X keyStore schema

/-- The database is not sealed, and it is open to the session. -/
def Unsealed (s : State) (v : View) : Prop :=
  v.files (.enc .gnDriveDb) = none ∧ (s.unlocked = true ∨ s.authData.enabled = false)

/-- The data plane follows the lock. -/
def Follows (m : Plane) : Prop := m.storeOpen = true → Unsealed m.state m.world.view

/-- The disk after `n` commands of a call. -/
def Plane.during (m : Plane) (a : Act) (p : AuthM (Pc × Bool)) (n : Nat) : World :=
  Prog.crashAt (exec a.env) n (p.run.run m.state) m.world

/-- The checks of `change_password`, which come before it does anything. -/
def ChangeRejected (s : State) (old new : String) : Prop :=
  s.authData.enabled = false ∨ s.unlocked = false ∨
    Argon2id.verify X.argon2 old s.authData.passwordHash = false ∨ new.length < 4

/-- A call that opens the store finds the database unsealed and the service
    open, and one that seals the database finds the store closed. -/
def CallOk (o rclone : Bool) (s : State) (v : View) : Move → Pc → Prop
  | .next, .afterUnlock => o = false → rclone = true → Unsealed s v
  | .next, .lockAuth | .next, .suspendAuth => o = true → s.encKey = none ∨ s.unlocked = false
  | .changePassword old new, .idle => o = true → ChangeRejected X s old new
  | _, _ => True

/-- The same for a step, the first one included. -/
def Orderly (m : Plane) (a : Act) : Prop :=
  (m.serving = false → (Prog.run (exec a.env) (canOpenDataPlane m.state) m.world).1 = true →
    a.rclone = true → Unsealed m.state m.world.view) ∧
  CallOk X m.storeOpen a.rclone m.state m.world.view a.move (m.pc a.worker)

instance (s : State) (v : View) : Decidable (Unsealed s v) :=
  inferInstanceAs (Decidable (_ ∧ (_ ∨ _)))

instance (s : State) (old new : String) : Decidable (ChangeRejected X s old new) :=
  inferInstanceAs (Decidable (_ ∨ _ ∨ _ ∨ _))

instance (o rclone : Bool) (s : State) (v : View) :
    ∀ move pc, Decidable (CallOk X o rclone s v move pc)
  | .next, .afterUnlock => inferInstanceAs (Decidable (_ → _ → Unsealed s v))
  | .next, .lockAuth | .next, .suspendAuth => inferInstanceAs (Decidable (_ → _ ∨ _))
  | .next, .idle | .next, .asleep _ | .next, .forgetKey | .next, .removeAuth _ => isTrue trivial
  | .changePassword old new, .idle =>
      inferInstanceAs (Decidable (_ → ChangeRejected X s old new))
  | .changePassword _ _, .asleep _ | .changePassword _ _, .afterUnlock
  | .changePassword _ _, .lockAuth | .changePassword _ _, .forgetKey
  | .changePassword _ _, .suspendAuth | .changePassword _ _, .removeAuth _ => isTrue trivial
  | .construct, _ | .unlock _, _ | .setup _, _ | .lock, _ | .close, _ | .removePassword _, _
  | .query _, _ => isTrue trivial

instance (m : Plane) (a : Act) : Decidable (Orderly X m a) :=
  inferInstanceAs (Decidable ((_ → _ → _ → Unsealed _ _) ∧ CallOk ..))

end

-- ============================================================================
-- What each call keeps
-- ============================================================================

section

variable {X : Crates} {keyStore portal : Bool} {schema : Bytes} {env : Env} {s s' : State}
  {v v' : View} {o rclone : Bool}

/-- Without a password the service is open and has no key. -/
def NoPassword (s : State) : Prop :=
  s.authData.enabled = false → s.unlocked = true ∧ s.encKey = none

theorem NoPassword.of_enabled (h : s.authData.enabled = true) : NoPassword s := by
  intro hdis
  rw [h] at hdis
  cases hdis

/-- The invariant, with `o` for whether the store is open. -/
def Kept (o : Bool) (s : State) (v : View) : Prop :=
  NoPassword s ∧ (o = true → Unsealed s v)

/-- No sealed database beside an open store, at any point. -/
abbrev NoneBeside (o : Bool) (v : View) : Prop := o = true → v.files (.enc .gnDriveDb) = none

theorem Kept.noneBeside (h : Kept o s v) : NoneBeside o v := fun ho => (h.2 ho).1

theorem Kept.closed (h : NoPassword s) : Kept false s v := ⟨h, fun ho => by cases ho⟩

/-- With the store open, a service with a password is unlocked. -/
theorem Kept.unlocked (h : Kept true s v) (hen : s.authData.enabled = true) :
    s.unlocked = true := by
  rcases (h.2 rfl).2 with hu | hdis
  · exact hu
  · rw [hen] at hdis
    cases hdis

/-- What happens to other files does not matter. -/
theorem Kept.of_files (h : Kept o s v)
    (hfiles : v'.files (.enc .gnDriveDb) = v.files (.enc .gnDriveDb)) : Kept o s v' :=
  ⟨h.1, fun ho => ⟨hfiles.trans (h.2 ho).1, (h.2 ho).2⟩⟩

/-- A call to the service, and then the worker's next call. -/
theorem auth_next {I : View → Prop} {x : AuthM Unit} {pc : Pc}
    (hx : ASpec env I x (fun _ s' v' => Kept o s' v') s v) :
    ASpec env I (do x; return (pc, o)) (fun r s' v' => Kept (openAfter o r) s' v') s v := by
  refine auth_bind (auth_mono (fun _ h => h) ?_ hx)
  intro r s' v' hI hk
  cases r with
  | ok u => exact auth_pure hI hk
  | error e => exact hk

theorem enabled_of_counted {password : String} {r : Except AuthError Unit}
    (h : Counted X password s s' r) : s'.authData.enabled = s.authData.enabled := by
  unfold Counted at h
  split at h
  · cases r with
    | ok u => rw [show s'.authData = s.authData.reset from h]; rfl
    | error e => rw [show s'.authData = s.authData from h]
  · split at h
    · obtain ⟨t, ht⟩ := h
      rw [ht]; rfl
    · rw [h]; rfl

/-- A password is verified for a locked service, and then the store is
    closed. -/
theorem auth_unlockVerify_kept {password : String} (hen : s.authData.enabled = true) :
    ASpec env (NoneBeside false) (unlockVerify X keyStore password)
      (fun _ s' v' => Kept false s' v') s v := by
  have hfree : ∀ v', True → NoneBeside false v' := fun _ _ ho => by cases ho
  refine auth_mono hfree ?_ auth_unlockVerify_counted
  intro r s' v' _ hcounted
  exact .closed (.of_enabled ((enabled_of_counted hcounted).trans hen))

theorem auth_unlockAfterSleep_kept {password : String} (h : Kept o s v) :
    ASpec env (NoneBeside o) (unlockAfterSleep X keyStore password)
      (fun _ s' v' => Kept o s' v') s v := by
  refine auth_bind (auth_get h.noneBeside ?_)
  show ASpec env _ (if s.unlocked = true then pure () else _) _ s v
  by_cases hu : s.unlocked = true
  · rw [if_pos hu]
    exact auth_pure h.noneBeside h
  · have hen : s.authData.enabled = true := by
      by_contra hdis
      exact hu (h.1 (by simpa using hdis)).1
    have ho : o = false := by
      by_contra ho
      obtain rfl : o = true := by simpa using ho
      exact hu (h.unlocked hen)
    subst ho
    rw [if_neg hu]
    exact auth_unlockVerify_kept hen

theorem auth_setupPassword_kept {password : String} (h : Kept o s v) :
    ASpec env (NoneBeside o) (setupPassword X keyStore password)
      (fun _ s' v' => Kept o s' v') s v := by
  refine auth_setupPassword h.noneBeside (fun _ => h) fun hdis hash salt key _ _ d hd => ?_
  have hu : s.unlocked = true := (h.1 hdis).1
  have hen : d.enabled = true := by rw [hd]
  have hsaved : (saved X v d).files (.enc .gnDriveDb) = v.files (.enc .gnDriveDb) := by
    simp [saved]
  have hbeside : NoneBeside o (saved X v d) := fun ho => hsaved.trans (h.2 ho).1
  -- a password is configured now, and the service stays open
  have hset : ∀ {k : Option Bytes} {v' : View},
      v'.files (.enc .gnDriveDb) = v.files (.enc .gnDriveDb) →
      Kept o { s with authData := d, encKey := k, unlocked := true } v' :=
    fun hv' => ⟨.of_enabled hen, fun ho => ⟨hv'.trans (h.2 ho).1, .inl rfl⟩⟩
  refine ⟨hbeside, fun _ _ => ?_, fun _ => ⟨hbeside, hset hsaved⟩, fun _ => hset hsaved⟩
  exact ⟨.of_enabled hen, fun ho => ⟨(h.2 ho).1, .inl hu⟩⟩

theorem auth_suspend_kept (h : Kept o s v)
    (hidle : o = true → s.encKey = none ∨ s.unlocked = false) :
    ASpec env (NoneBeside o) (suspend X) (fun _ s' v' => Kept o s' v') s v := by
  cases o with
  | false =>
    refine auth_mono (fun _ _ ho => by cases ho) ?_ (auth_suspend_state)
    rintro r s' v' - (rfl | ⟨key, t, -, hkey, rfl⟩)
    · exact .closed h.1
    · refine .closed fun hdis => ?_
      rw [(h.1 hdis).2] at hkey
      cases hkey
  | true =>
    refine auth_bind (auth_get h.noneBeside ?_)
    show ASpec env _ (if s.unlocked = true then lockInternal X else pure ()) _ s v
    rcases hidle rfl with hkey | hu
    · split
      · refine auth_bind (auth_get h.noneBeside ?_)
        simp only [hkey]
        exact auth_pure h.noneBeside h
      · exact auth_pure h.noneBeside h
    · rw [if_neg (by simp [hu])]
      exact auth_pure h.noneBeside h

theorem auth_removePassword_kept {password : String} (h : Kept o s v) :
    ASpec env (NoneBeside o) (removePassword X password) (fun _ s' v' => Kept o s' v') s v := by
  refine auth_removePassword h.noneBeside (fun _ => h) (fun n v' _ hv' ho => ?_)
    fun v' _ hfiles _ => ⟨fun _ => ⟨rfl, rfl⟩, fun ho => ⟨?_, .inl rfl⟩⟩
  · by_cases hn : Name.enc .gnDriveDb = n
    · rw [← hn, View.remove_files_self]
    · rw [View.remove_files_ne _ hn]
      exact hv' ho
  · rcases hfiles (.enc .gnDriveDb) with hsame | hnone
    · exact hsame.trans (h.2 ho).1
    · exact hnone

/-- The files are sealed under the new key and opened again, so the store must
    be closed. -/
theorem auth_reencrypt_kept {hash : String} {salt key : Bytes}
    (hstored : Argon2id.StoredKey X.argon2 hash salt key) (hen : s.authData.enabled = true) :
    ASpec env (NoneBeside false) (reencrypt X hash key) (fun _ s' v' => Kept false s' v') s v := by
  have hI : ∀ v', NoneBeside false v' := fun _ ho => by cases ho
  have hkept : ∀ {s' : State} {v' : View}, s'.authData.enabled = true → Kept false s' v' :=
    fun h => .closed (.of_enabled h)
  refine auth_reencrypt hstored.key_length (fun _ _ => hI _) (fun _ _ _ _ => ?_) fun v₁ _ _ => ?_
  · exact ⟨fun _ _ => hI _, fun _ _ _ => hkept hen, fun _ _ _ _ => hkept hen⟩
  · exact auth_commitChange (hI _) rfl
      (fun _ => ⟨fun _ _ => hI _, fun _ _ _ _ _ => hkept hen⟩) (hI _) (fun _ _ => hI _)
      (fun _ _ _ _ => hkept hen) fun _ _ _ => hkept hen

theorem auth_changePassword_kept {old new : String} (h : Kept o s v)
    (hrejected : o = true → ChangeRejected X s old new) :
    ASpec env (NoneBeside o) (changePassword X keyStore old new)
      (fun _ s' v' => Kept o s' v') s v := by
  cases o with
  | false =>
    refine auth_changePassword h.noneBeside (fun _ => h)
      (fun _ => ⟨(fun ho => by cases ho), fun _ => h.of_files rfl⟩) ?_
    intro hen _ _ v₁ _ hash salt key _ hstored _
    exact auth_reencrypt_kept hstored hen
  | true =>
    have hI : NoneBeside true v := h.noneBeside
    refine auth_bind (auth_get hI (auth_bind (auth_reject hI (fun hen => ?_) fun _ => h)))
    refine auth_bind (auth_reject hI (fun hu => ?_) fun _ => h)
    refine auth_bind (auth_reject hI (fun hver => ?_) fun _ => h)
    refine auth_bind (auth_reject hI (fun hlen => ?_) fun _ => h)
    exfalso
    simp only [Bool.not_eq_false', decide_eq_false_iff_not] at hen hu hver hlen
    rcases hrejected rfl with hen' | hu' | hver' | hlen'
    · rw [hen] at hen'; cases hen'
    · rw [hu] at hu'; cases hu'
    · rw [hver] at hver'; cases hver'
    · exact hlen hlen'

/-- Opening the store leaves a sealed database alone. -/
theorem spec_openStore_noneBeside {I : View → Prop} {Q : Except IoError Unit → View → Prop}
    (hI : ∀ v', v'.files (.enc .gnDriveDb) = v.files (.enc .gnDriveDb) → I v')
    (hQ : ∀ r v', v'.files (.enc .gnDriveDb) = v.files (.enc .gnDriveDb) → Q r v') :
    Spec env I (openStore schema).run Q v := by
  have hsame : ∀ v', Relation.ReflTransGen OpenStep v v' →
      v'.files (.enc .gnDriveDb) = v.files (.enc .gnDriveDb) := by
    intro v' hs
    refine steps_preserve (P := fun v' => v'.files (.enc .gnDriveDb) = v.files (.enc .gnDriveDb))
      ?_ rfl hs
    rintro v₁ v₂ h₁ ⟨data, rfl⟩
    rw [View.write_files_ne _ _ (by simp [dbName])]
    exact h₁
  refine spec_mono (fun v' hs => hI v' (hsame v' hs)) (fun r v' hs _ => hQ r v' (hsame v' hs)) ?_
    (Q := fun _ _ => True)
  exact spec_openStore (fun _ _ => trivial) (fun _ _ _ _ => trivial) fun _ _ _ _ => trivial

/-- A new store is opened on an unsealed database only. -/
theorem spec_openDataPlane_kept (h : Kept o s v)
    (hunsealed : o = false → rclone = true → Unsealed s v) :
    Spec env (NoneBeside o) (openDataPlane schema o rclone).run
      (fun r v' => Kept (match r with | .ok _ => true | .error _ => o) s v') v := by
  cases o with
  | true => exact spec_pure h.noneBeside h
  | false =>
    have hI : ∀ v', NoneBeside false v' := fun _ ho => by cases ho
    refine spec_except_bind (spec_bind (spec_openStore_noneBeside (fun _ _ => hI _) ?_))
    intro r v' hsame
    cases r with
    | error e => exact spec_pure (hI _) (spec_pure (hI _) (h.of_files hsame))
    | ok u =>
      refine spec_pure (hI _) ?_
      cases hr : rclone with
      | false => exact spec_pure (hI _) (h.of_files hsame)
      | true =>
        have hv := hunsealed rfl hr
        exact spec_pure (hI _) ⟨h.1, fun _ => ⟨hsame.trans hv.1, hv.2⟩⟩

theorem spec_afterUnlock_kept (h : Kept o s v)
    (hunsealed : o = false → rclone = true → Unsealed s v) :
    Spec env (NoneBeside o) (afterUnlock schema o rclone) (fun o' v' => Kept o' s v') v := by
  refine spec_bind (spec_mono (fun _ h => h) ?_ (spec_openDataPlane_kept h hunsealed))
  intro r v' hI hk
  cases r with
  | error e => exact spec_pure hI hk
  | ok u => exact spec_pure hI hk

/-- A request writes to the store, if it is open. -/
theorem auth_query_kept {data : Bytes} (h : Kept o s v) :
    ASpec env (NoneBeside o) (do
      if o then
        let _ ← io (writeAll (.file dbName) data)
      return (Pc.idle, o)) (fun r s' v' => Kept (openAfter o r) s' v') s v := by
  have hI : NoneBeside o v := h.noneBeside
  cases o with
  | false => exact auth_bind (auth_pure hI (auth_pure hI h))
  | true =>
    have hwritten : Kept true s (v.write dbName data) :=
      h.of_files (View.write_files_ne _ _ (by simp [dbName]))
    refine auth_bind (auth_io ?_)
    cases hdb : v.files dbName with
    | none => exact spec_writeAll_missing hI hdb fun _ => auth_pure hI h
    | some old =>
      have hI' : NoneBeside true (v.write dbName data) := hwritten.noneBeside
      exact spec_writeAll hI hdb hI' (auth_pure hI' hwritten) fun _ _ => auth_pure hI h

/-- Every call keeps the invariant, and its disk has no sealed database beside
    an open store at any point. -/
theorem auth_call_kept {move : Move} {pc : Pc} {p : AuthM (Pc × Bool)} (h : Kept o s v)
    (hok : CallOk X o rclone s v move pc)
    (hp : call X keyStore schema o rclone move pc = some p) :
    ASpec env (NoneBeside o) p (fun r s' v' => Kept (openAfter o r) s' v') s v := by
  have hI : NoneBeside o v := h.noneBeside
  -- `before_lock`, and requests that are over
  have hclosed : ∀ pc, ASpec env (NoneBeside o) (pure (pc, false))
      (fun r s' v' => Kept (openAfter o r) s' v') s v :=
    fun pc => auth_pure hI (.closed h.1)
  cases move with
  | construct => cases pc <;> cases hp
  | unlock password =>
    cases pc with
    | idle =>
      obtain rfl := Option.some.inj hp
      refine auth_bind (auth_unlockCheck hI (fun _ => h) (fun _ _ => auth_pure hI h)
        (fun _ _ _ _ => h) fun k hen hu _ => ?_)
      have ho : o = false := by
        by_contra ho
        obtain rfl : o = true := by simpa using ho
        rw [h.unlocked hen] at hu
        cases hu
      subst ho
      cases backoff s.authData.failedAttempts with
      | some secs => exact auth_pure hI (.closed (.of_enabled hen))
      | none => exact auth_next (auth_unlockVerify_kept hen)
    | _ => cases hp
  | setup password =>
    cases pc with
    | idle =>
      obtain rfl := Option.some.inj hp
      exact auth_next (auth_setupPassword_kept h)
    | _ => cases hp
  | lock =>
    cases pc with
    | idle =>
      obtain rfl := Option.some.inj hp
      exact hclosed _
    | _ => cases hp
  | close =>
    cases pc with
    | idle =>
      obtain rfl := Option.some.inj hp
      exact hclosed _
    | _ => cases hp
  | changePassword old new =>
    cases pc with
    | idle =>
      obtain rfl := Option.some.inj hp
      exact auth_next (auth_changePassword_kept h hok)
    | _ => cases hp
  | removePassword password =>
    cases pc with
    | idle =>
      obtain rfl := Option.some.inj hp
      exact hclosed _
    | _ => cases hp
  | query data =>
    cases pc with
    | idle =>
      obtain rfl := Option.some.inj hp
      exact auth_query_kept h
    | _ => cases hp
  | next =>
    cases pc with
    | idle => cases hp
    | asleep password =>
      obtain rfl := Option.some.inj hp
      exact auth_next (auth_unlockAfterSleep_kept h)
    | afterUnlock =>
      obtain rfl := Option.some.inj hp
      exact auth_bind (auth_io (spec_mono (fun _ h => h) (fun o' v' hI hk => auth_pure hI hk)
        (spec_afterUnlock_kept h hok)))
    | lockAuth =>
      obtain rfl := Option.some.inj hp
      exact auth_next (auth_suspend_kept h hok)
    | forgetKey =>
      obtain rfl := Option.some.inj hp
      exact auth_next (auth_attempt (spec_forgetRememberedKey hI (fun _ => h)
        (fun _ => ⟨hI, h.of_files rfl⟩) fun _ => h))
    | suspendAuth =>
      obtain rfl := Option.some.inj hp
      exact auth_next (auth_suspend_kept h hok)
    | removeAuth password =>
      obtain rfl := Option.some.inj hp
      exact auth_next (auth_removePassword_kept h)

theorem run_construct (s : State) (w : World) :
    Prog.run (exec env) (construct schema s rclone).run w =
      let r := Prog.run (exec env) (canOpenDataPlane s) w
      if r.1 then
        Prog.run (exec env) (do openDataPlane schema false rclone; return true :
          ExceptT AppError Io Bool).run r.2
      else (.ok false, r.2) := by
  show Prog.run (exec env) (Prog.bind (Prog.bind (canOpenDataPlane s) _) _) w = _
  rw [Prog.run_bind, Prog.run_bind]
  generalize Prog.run (exec env) (canOpenDataPlane s) w = r
  obtain ⟨b, w'⟩ := r
  cases b <;> rfl

/-- `AppContainer::new` opens the store on an unsealed database only. -/
theorem construct_kept {w w' : World} {o' : Bool} (h : Kept false s w.view)
    (hok : (Prog.run (exec env) (canOpenDataPlane s) w).1 = true → rclone = true →
      Unsealed s w.view)
    (hrun : Prog.run (exec env) (construct schema s rclone).run w = (.ok o', w')) :
    Kept o' s w'.view := by
  have hview : (Prog.run (exec env) (canOpenDataPlane s) w).2.view = w.view :=
    spec_run (I := fun _ => True) (Q := fun _ v' => v' = w.view)
      (spec_canOpenDataPlane trivial (fun _ => rfl) fun _ _ => rfl)
  rw [run_construct] at hrun
  generalize Prog.run (exec env) (canOpenDataPlane s) w = r at hok hview hrun
  obtain ⟨b, w₁⟩ := r
  have hkept : Kept false s w₁.view := by
    rw [show w₁.view = w.view from hview]
    exact h
  cases b with
  | false =>
    obtain ⟨rfl, rfl⟩ : false = o' ∧ w₁ = w' := by simpa using hrun
    exact hkept
  | true =>
    have hopened : Spec env (NoneBeside false) (do
        openDataPlane schema false rclone; return true : ExceptT AppError Io Bool).run
        (fun r v' => ∀ o', r = .ok o' → Kept o' s v') w₁.view := by
      refine spec_except_bind (spec_mono (fun _ h => h) ?_ (spec_openDataPlane_kept hkept
        fun _ hr => ?_))
      · intro r v' hI hk
        cases r with
        | error e => exact fun o' ho' => by cases ho'
        | ok u =>
          refine spec_pure hI fun o' ho' => ?_
          obtain rfl := Except.ok.inj ho'
          exact hk
      · rw [show w₁.view = w.view from hview]
        exact hok rfl hr
    have hpost := spec_run hopened
    simp only [if_true] at hrun
    rw [hrun] at hpost
    exact hpost o' rfl

-- ============================================================================
-- The service as it starts
-- ============================================================================

theorem spec_new_noPassword :
    Spec env (fun _ => True) (Auth.new X keyStore) (fun s _ => NoPassword s) v := by
  refine spec_new trivial fun d _ => ⟨fun _ _ => trivial, fun v' _ _ => ⟨?_, fun hen => ?_⟩⟩
  · exact fun _ _ => ⟨rfl, rfl⟩
  · have henabled : ∀ s' : State, s'.authData = d → NoPassword s' :=
      fun s' hs' => .of_enabled (hs' ▸ hen)
    refine spec_resumeRememberedKey trivial (henabled _ rfl) fun _ _ key _ => ?_
    refine ⟨fun _ _ => trivial, fun _ _ => ⟨trivial, henabled _ rfl, henabled _ rfl⟩, ?_⟩
    exact fun _ _ _ _ => henabled _ rfl

theorem auth_unlock_noPassword {password : String} (h : NoPassword s) :
    ASpec env (fun _ => True) (unlock X keyStore password) (fun _ s' _ => NoPassword s') s v := by
  refine auth_unlock trivial (fun _ => h) (fun _ _ => h) (fun _ _ _ _ => h) fun hen _ => ?_
  refine auth_mono (fun _ h => h) ?_ auth_unlockVerify_counted
  intro r s' v' _ hcounted
  exact .of_enabled ((enabled_of_counted hcounted).trans hen)

theorem newAuth_noPassword {w w' : World} {unlockPassword : String} {r : Except AuthError Unit}
    (hrun : Prog.run (exec env) (newAuth X keyStore unlockPassword) w = ((r, s), w')) :
    NoPassword s := by
  have hspec : Spec env (fun _ => True) (newAuth X keyStore unlockPassword)
      (fun r _ => NoPassword r.2) w.view := by
    refine spec_bind (spec_mono (fun _ h => h) ?_ spec_new_noPassword)
    intro s v _ hs
    show Spec env _ (if unlockPassword = "" then _ else _) _ v
    split
    · exact spec_pure trivial hs
    · exact auth_unlock_noPassword hs
  have hpost := spec_run hspec
  rw [hrun] at hpost
  exact hpost

-- ============================================================================
-- Runs
-- ============================================================================

/-- Before the container is made, no store is open. -/
def Inv (m : Plane) : Prop :=
  Kept m.storeOpen m.state m.world.view ∧ (m.serving = false → m.storeOpen = false)

/-- What holds of the call of a worker. -/
theorem call_kept {m : Plane} {a : Act} {p : AuthM (Pc × Bool)} (h : Inv m) (hok : Orderly X m a)
    (hp : call X keyStore schema m.storeOpen a.rclone a.move (m.pc a.worker) = some p) :
    ASpec a.env (NoneBeside m.storeOpen) p
      (fun r s' v' => Kept (openAfter m.storeOpen r) s' v') m.state m.world.view :=
  auth_call_kept h.1 hok.2 hp

/-- Step lemma: an orderly step keeps the invariant. -/
theorem inv_step {m m' : Plane} {a : Act} (h : Inv m) (hok : Orderly X m a)
    (hs : step X keyStore schema m a = some m') : Inv m' := by
  unfold step at hs
  split at hs
  · -- the container is made
    rename_i hserving hmove
    have hkept : Kept false m.state m.world.view := h.2 hserving ▸ h.1
    split at hs
    · rename_i o' w' hrun
      obtain rfl := Option.some.inj hs
      exact ⟨construct_kept hkept (hok.1 hserving) hrun, fun h => by cases h⟩
    · cases hs
  · -- a call of a worker
    rename_i hserving
    obtain ⟨p, hp, rfl⟩ := Option.map_eq_some_iff.mp hs
    refine ⟨auth_run (call_kept h hok hp), fun hno => ?_⟩
    rw [show m.serving = false from hno] at hserving
    cases hserving
  · cases hs

/-- In every orderly run of the workers, whenever the store is open there is
    no sealed database beside it and the service is unlocked or has no
    password; and no call of a worker seals it on the way. -/
theorem follows_of_orderly {X : Crates} {keyStore portal : Bool} {schema : Bytes} {m : Plane}
    (h : (planeSystem X keyStore portal schema).ReachableIf (Orderly X) m) :
    Follows m ∧ ∀ a p, Orderly X m a →
      call X keyStore schema m.storeOpen a.rclone a.move (m.pc a.worker) = some p →
      m.storeOpen = true → ∀ n, (m.during a p n).view.files (.enc .gnDriveDb) = none := by
  have hinv : Inv m := by
    refine System.ReachableIf.invariant (P := Inv) ?_ (fun m a m' hm ho hs => inv_step hm ho hs) h
    rintro m₀ ⟨-, hclosed, -, -, env, w, unlockPassword, hnew⟩
    refine ⟨?_, fun _ => hclosed⟩
    rw [hclosed]
    exact .closed (newAuth_noPassword hnew)
  refine ⟨hinv.1.2, fun a p hok hp hopen n => ?_⟩
  exact spec_crash (call_kept hinv hok hp) n hopen

end
/-- A first start: `gn-drive.db`, and no password. -/
def samplePlane : Plane where
  serving := false
  state := ⟨true, none, .default, none⟩
  world := (Prog.run (exec (Sample.env 1)) (newAuth Sample.crates true "")
    (Sample.world (fun f => if f = .gnDriveDb then some [7] else none) none)).2
  storeOpen := false
  pc _ := .idle

def sampleAct (worker : Nat) (move : Move) : Act := ⟨worker, Sample.env 1, true, move⟩

theorem samplePlane_init :
    (planeSystem Sample.crates true true [1]).init samplePlane :=
  ⟨rfl, rfl, fun _ => rfl, rfl, Sample.env 1,
    Sample.world (fun f => if f = .gnDriveDb then some [7] else none) none, "", rfl⟩

/-- A password is set up, and a worker unlocks the open service again. -/
def sampleSetup : List Act :=
  [sampleAct 0 .construct, sampleAct 0 (.setup "secret"), sampleAct 0 .next,
    sampleAct 0 (.unlock "secret")]

/-- The same, and the worker comes to `after_unlock`. -/
theorem follows_of_orderly_single :
    ∃ m, (planeSystem Sample.crates true true [1]).runFrom samplePlane
        (sampleSetup ++ [sampleAct 0 .next]) = some m ∧ m.storeOpen = true ∧ Follows m := by
  have hrun : ((planeSystem Sample.crates true true [1]).runIf
      (fun m a => decide (Orderly Sample.crates m a)) samplePlane
      (sampleSetup ++ [sampleAct 0 .next])).any (fun m => m.storeOpen) = true := by
    decide +kernel
  obtain ⟨m, hm, hopen⟩ := (Option.any_eq_true _ _).mp hrun
  have hreach := System.runIf_reachableIf (.init samplePlane_init) hm
  exact ⟨m, System.runFrom_of_runIf hm, hopen,
    (follows_of_orderly (hreach.mono fun _ _ h => of_decide_eq_true h)).1⟩

/-- Before it does, another worker locks the service: a new database is opened
    beside the sealed one, and the service is locked. -/
theorem overtaken :
    ∃ m, (planeSystem Sample.crates true true [1]).Reachable m ∧ ¬ Follows m ∧
      m.storeOpen = true ∧ (m.world.view.files (.enc .gnDriveDb)).isSome ∧
      m.world.view.files dbName = some [1] ∧
      m.state.unlocked = false ∧ m.state.authData.enabled = true := by
  have hrun : ((planeSystem Sample.crates true true [1]).runFrom samplePlane
      (sampleSetup ++ [sampleAct 1 .lock, sampleAct 1 .next, sampleAct 0 .next])).any (fun m =>
        decide (m.storeOpen = true ∧ (m.world.view.files (.enc .gnDriveDb)).isSome ∧
          m.world.view.files dbName = some [1] ∧ m.state.unlocked = false ∧
          m.state.authData.enabled = true)) = true := by
    decide +kernel
  obtain ⟨m, hm, hbeside⟩ := (Option.any_eq_true _ _).mp hrun
  obtain ⟨hopen, henc, hrest⟩ := of_decide_eq_true hbeside
  refine ⟨m, System.runFrom_reachable (.init samplePlane_init) hm, fun hfollows => ?_, hopen, henc,
    hrest⟩
  rw [(hfollows hopen).1] at henc
  cases henc

end GnDrive.Container.DataPlane
