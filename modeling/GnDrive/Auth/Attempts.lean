/-
  GnDrive.Auth.Attempts

  Sequential unlock attempts and restarts of the process.

  An attempt is one call of `unlock` with the two clock readings it can make
  and the calls that fail while it runs.  The run keeps a record of its
  attempts, newest first, from which `failures` and `lockedUntil` read off the
  consecutive failures and the lockout, without looking at the service.
  `Keeps` ties the counters in memory and those in `auth.json` to the record:
  it is kept by attempts and by restarts, so every attempt is answered as the
  record demands (`Desk.Ordered.run`).
-/

import GnDrive.Auth.Operations

namespace GnDrive.Auth.Restarts

open AuthM
open Relation (ReflTransGen)

-- ============================================================================
-- Attempts and restarts
-- ============================================================================

/-- One call of `unlock`: the clock at its lockout check and at its
    verification, and the calls that fail. -/
structure Attempt where
  password : String
  arrives : Time
  answered : Time
  fails : Cmd → Bool
  suffix : UInt64

/-- What the environment decides in a section of the attempt that reads the
    clock at `now`. -/
def Attempt.env (a : Attempt) (now : Time) : Env :=
  ⟨fun _ c => a.fails c, fun _ _ => 0, fun _ => a.suffix, fun _ => now⟩

/-- An attempt that was answered. -/
structure Outcome where
  attempt : Attempt
  locked : Bool
  delay : Option Nat
  result : Except AuthError Unit

/-- A service, the disk, and its record, newest first. -/
structure Desk where
  state : State
  world : World
  record : List Outcome

inductive Event where
  | attempt (a : Attempt)
  | restart (fails : Cmd → Bool)

def Event.isAttempt : Event → Bool
  | .attempt _ => true
  | .restart _ => false

section

variable (X : Crates) (keyStore : Bool)

/-- `unlock` with its two clock readings: what its first lock section demands,
    and how the call ends. -/
def unlockAt (a : Attempt) (s : State) (w : World) :
    Option Nat × (Except AuthError Unit × State) × World :=
  let r := runAuth (a.env a.arrives) (unlockCheck X) s w
  match r.1.1 with
  | .error e => (none, (.error e, r.1.2), r.2)
  | .ok .alreadyUnlocked => (none, (.ok (), r.1.2), r.2)
  | .ok (.delay secs) =>
      (some secs, runAuth (a.env a.answered)
        (do io (sleep secs); unlockAfterSleep X keyStore a.password) r.1.2 r.2)
  | .ok .verify =>
      (none, runAuth (a.env a.answered) (unlockVerify X keyStore a.password) r.1.2 r.2)

def Desk.step (m : Desk) : Event → Desk
  | .attempt a =>
      let r := unlockAt X keyStore a m.state m.world
      ⟨r.2.1.2, r.2.2, ⟨a, !m.state.unlocked, r.1, r.2.1.1⟩ :: m.record⟩
  | .restart fails =>
      let r := Prog.run (exec ⟨fun _ c => fails c, fun _ _ => 0, fun _ => 0, fun _ => 0⟩)
        (new X keyStore) m.world
      ⟨r.1, r.2, m.record⟩

def Desk.run (m : Desk) (es : List Event) : Desk := es.foldl (Desk.step X keyStore) m

end

/-- One attempt after the other on a clock that does not run back, with
    `auth.json` written by every attempt that saves it and read by every
    start. -/
def Sequential (now : Time) : List Event → Prop
  | [] => True
  | .attempt a :: es => now ≤ a.arrives ∧ a.arrives ≤ a.answered ∧
      (∀ c, SaveCmd c → a.fails c = false) ∧ Sequential a.answered es
  | .restart fails :: es => fails (.read authFile) = false ∧ Sequential now es

/-- The time of the last event, from `now` on. -/
def lastTime (now : Time) : List Event → Time
  | [] => now
  | .attempt a :: es => lastTime a.answered es
  | .restart _ :: es => lastTime now es

/-- With one clock reading for both, this is `unlock`. -/
theorem unlockAt_eq {X : Crates} {keyStore : Bool} {a : Attempt} (h : a.answered = a.arrives)
    (s : State) (w : World) :
    (unlockAt X keyStore a s w).2 =
      runAuth (a.env a.arrives) (unlock X keyStore a.password) s w := by
  have hbind : runAuth (a.env a.arrives) (unlock X keyStore a.password) s w =
      match (runAuth (a.env a.arrives) (unlockCheck X) s w) with
      | ((.error e, s'), w') => ((.error e, s'), w')
      | ((.ok .alreadyUnlocked, s'), w') => ((.ok (), s'), w')
      | ((.ok (.delay secs), s'), w') => runAuth (a.env a.arrives)
          (do io (sleep secs); unlockAfterSleep X keyStore a.password) s' w'
      | ((.ok .verify, s'), w') =>
          runAuth (a.env a.arrives) (unlockVerify X keyStore a.password) s' w' := by
    unfold unlock runAuth
    show Prog.run _ (Prog.bind ((unlockCheck X).run.run s) _) w = _
    rw [Prog.run_bind]
    generalize Prog.run (exec (a.env a.arrives)) ((unlockCheck X).run.run s) w = r
    obtain ⟨⟨r, s'⟩, w'⟩ := r
    cases r with
    | error e => rfl
    | ok gate => cases gate <;> rfl
  rw [hbind]
  unfold unlockAt
  rw [h]
  generalize runAuth (a.env a.arrives) (unlockCheck X) s w = r
  obtain ⟨⟨r, s'⟩, w'⟩ := r
  cases r with
  | error e => rfl
  | ok gate => cases gate <;> rfl

-- ============================================================================
-- What the record says
-- ============================================================================

/-- The end of a lockout that starts at `now`, as `auth.json` keeps it. -/
def lockoutEnd (now : Time) : Time :=
  now + LOCKOUT_DURATION_SECS * SECOND - (now + LOCKOUT_DURATION_SECS * SECOND) % 10 ^ 9

/-- Consecutive failures since the last accepted attempt or lockout.  An
    attempt on an open service is answered unchecked and counts for nothing. -/
def failures : List Outcome → Nat
  | [] => 0
  | o :: l =>
      match o.result with
      | .ok _ => if o.locked then 0 else failures l
      | .error .invalidPassword => if failures l = 9 then 0 else failures l + 1
      | .error _ => failures l

/-- The end of the lockout that the last tenth consecutive failure started. -/
def lockedUntil : List Outcome → Option Time
  | [] => none
  | o :: l =>
      match o.result with
      | .ok _ => if o.locked then none else lockedUntil l
      | .error .invalidPassword =>
          if failures l = 9 then some (lockoutEnd o.attempt.answered) else none
      | .error _ => lockedUntil l

/-- Seconds the lockout of the record has left at `now`. -/
def lockoutLeft (l : List Outcome) (now : Time) : Option Int :=
  (lockedUntil l).bind fun t => remainingUntil t now

/-- The delay before an attempt that follows `n` consecutive failures: none up
    to the third, then one second, doubled with every further failure. -/
def demanded (n : Nat) : Option Nat := if n < 3 then none else some (2 ^ (n - 3))

/-- An error other than a wrong password counts for nothing. -/
theorem counts_other {o : Outcome} {l : List Outcome} {e : AuthError} (ho : o.result = .error e)
    (hne : e ≠ .invalidPassword) :
    failures (o :: l) = failures l ∧ ∀ t, lockoutLeft (o :: l) t = lockoutLeft l t := by
  cases e with
  | invalidPassword => exact absurd rfl hne
  | _ => simp [failures, lockoutLeft, lockedUntil, ho]

theorem failures_lt (l : List Outcome) : failures l < 10 := by
  induction l with
  | nil => decide
  | cons o l ih =>
    unfold failures
    split
    · split <;> omega
    · split <;> omega
    · exact ih

/-- An attempt on a locked service is answered as the record before it
    demands: refused while a lockout runs, and else, after the delay, by its
    password. -/
def Limited (X : Crates) (hash : String) (o : Outcome) (l : List Outcome) : Prop :=
  match lockoutLeft l o.attempt.arrives with
  | some secs => o.delay = none ∧ o.result = .error (.locked secs)
  | none => o.delay = demanded (failures l) ∧ (∀ secs, o.result ≠ .error (.locked secs)) ∧
      (o.result = .error .invalidPassword ↔
        Argon2id.verify X.argon2 o.attempt.password hash = false)

-- ============================================================================
-- What an attempt does
-- ============================================================================

section

variable {env : Env} {X : Crates} {keyStore : Bool} {s : State} {v : View} {password : String}
  {a : Attempt} {w : World}

theorem runAuth_afterSleep {secs : Nat} (hu : s.unlocked = false) (w : World) :
    runAuth env (do io (sleep secs); unlockAfterSleep X keyStore password) s w =
      runAuth env (unlockVerify X keyStore password) s w.tock := by
  show Prog.run (exec env) ((if s.unlocked = true then pure () else
    unlockVerify X keyStore password : AuthM Unit).run.run s) w.tock = _
  rw [hu]
  rfl

/-- An attempt on a service with a password is answered at once, or it comes
    to a verification, after the delay, on a state whose lockout is cleared. -/
theorem unlockAt_cases (keyStore : Bool) (hen : s.authData.enabled = true) :
    (∃ w', w'.view = w.view ∧
      (s.unlocked = true ∧ unlockAt X keyStore a s w = (none, (.ok (), s), w') ∨
        s.unlocked = false ∧ ∃ secs, activeLockoutAt X.rfc3339 s.authData a.arrives = some secs ∧
          unlockAt X keyStore a s w = (none, (.error (.locked secs), s), w'))) ∨
    s.unlocked = false ∧ activeLockoutAt X.rfc3339 s.authData a.arrives = none ∧
      ∃ w', w'.view = w.view ∧ unlockAt X keyStore a s w =
        (backoff s.authData.failedAttempts, runAuth (a.env a.answered)
          (unlockVerify X keyStore a.password) { s with authData := s.authData.clearLockout } w') := by
  have hspec : ASpec (a.env a.arrives) (fun _ => True) (unlockCheck X) (fun r s' v' => v' = w.view ∧
      (s.unlocked = true ∧ r = .ok .alreadyUnlocked ∧ s' = s ∨
        s.unlocked = false ∧ (∃ secs, activeLockoutAt X.rfc3339 s.authData a.arrives = some secs ∧
          r = .error (.locked secs) ∧ s' = s) ∨
        s.unlocked = false ∧ activeLockoutAt X.rfc3339 s.authData a.arrives = none ∧
          r = .ok ((backoff s.authData.failedAttempts).elim .verify .delay) ∧
          s' = { s with authData := s.authData.clearLockout })) s w.view := by
    refine auth_unlockCheck trivial (fun hdis => ?_) (fun _ hu => ?_) (fun k secs hu hk => ?_)
      fun k _ hu hk => ?_
    · rw [hen] at hdis; cases hdis
    · exact ⟨rfl, .inl ⟨hu, rfl, rfl⟩⟩
    · exact ⟨rfl, .inr (.inl ⟨hu, secs, hk, rfl, rfl⟩)⟩
    · exact ⟨rfl, .inr (.inr ⟨hu, hk, rfl, rfl⟩)⟩
  have hpost := auth_run hspec
  unfold unlockAt
  generalize runAuth (a.env a.arrives) (unlockCheck X) s w = r at hpost ⊢
  obtain ⟨⟨r, s'⟩, w'⟩ := r
  obtain ⟨hview, ⟨hu, rfl, rfl⟩ | ⟨hu, secs, hl, rfl, rfl⟩ | ⟨hu, hl, rfl, rfl⟩⟩ := hpost
  · exact .inl ⟨w', hview, .inl ⟨hu, rfl⟩⟩
  · exact .inl ⟨w', hview, .inr ⟨hu, secs, hl, rfl⟩⟩
  · refine .inr ⟨hu, hl, ?_⟩
    cases backoff s.authData.failedAttempts with
    | none => exact ⟨w', hview, rfl⟩
    | some secs =>
      refine ⟨w'.tock, hview, ?_⟩
      exact congrArg (Prod.mk (some secs)) (runAuth_afterSleep
        (s := { s with authData := s.authData.clearLockout }) hu w')

-- ============================================================================
-- The counters and the record
-- ============================================================================

/-- The counters of `d` are those of the record, from the time `now` on. -/
structure Tracks (r : Rfc3339) (d : AuthData) (l : List Outcome) (now : Time) : Prop where
  counter : d.failedAttempts = failures l
  lockout : ∀ t, now ≤ t → activeLockoutAt r d t = lockoutLeft l t

/-- The reading of `auth.json` in a view. -/
abbrev onDisk (X : Crates) (v : View) : AuthData := readAs X (v.files .authJson)

/-- Memory and `auth.json` hold the counters of the record. -/
structure Keeps (X : Crates) (hash : String) (l : List Outcome) (now : Time) (s : State)
    (v : View) : Prop where
  enabled : s.authData.enabled = true
  passwordHash : s.authData.passwordHash = hash
  memory : Tracks X.rfc3339 s.authData l now
  diskEnabled : (onDisk X v).enabled = true
  diskHash : (onDisk X v).passwordHash = hash
  disk : Tracks X.rfc3339 (onDisk X v) l now
  agree : (onDisk X v).clearLockout = s.authData.clearLockout

theorem Tracks.later {r : Rfc3339} {d : AuthData} {l : List Outcome} {now now' : Time}
    (h : Tracks r d l now) (hle : now ≤ now') : Tracks r d l now' :=
  ⟨h.counter, fun t ht => h.lockout t (Int.le_trans hle ht)⟩

/-- A lockout that is over stays over. -/
theorem remainingUntil_none_of_le {t now now' : Time} (h : remainingUntil t now = none)
    (hle : now ≤ now') : remainingUntil t now' = none := by
  unfold remainingUntil at h ⊢
  have hms : ¬ 0 < (t - now).tdiv (10 ^ 6) := by
    intro hpos
    rw [if_neg (by omega)] at h
    cases h
  have hle' : (t - now').tdiv (10 ^ 6) ≤ (t - now).tdiv (10 ^ 6) :=
    Int.tdiv_le_tdiv (by decide) (by unfold Time at *; omega)
  rw [if_pos (by omega)]

theorem lockoutLeft_none_of_le {l : List Outcome} {now now' : Time}
    (h : lockoutLeft l now = none) (hle : now ≤ now') : lockoutLeft l now' = none := by
  unfold lockoutLeft at h ⊢
  cases hu : lockedUntil l with
  | none => rfl
  | some t =>
    rw [hu] at h
    exact remainingUntil_none_of_le h hle

/-- Clearing a lockout that is over changes nothing. -/
theorem Tracks.clearLockout {r : Rfc3339} {d : AuthData} {l : List Outcome} {now : Time}
    (h : Tracks r d l now) (hnone : activeLockoutAt r d now = none) :
    Tracks r d.clearLockout l now where
  counter := h.counter
  lockout t ht := by
    have hleft : lockoutLeft l now = none := (h.lockout now (Int.le_refl now)).symm.trans hnone
    rw [activeLockoutAt_of_empty rfl, lockoutLeft_none_of_le hleft ht]

/-- The delay is the one the record demands. -/
theorem Tracks.backoff {r : Rfc3339} {d : AuthData} {l : List Outcome} {now : Time}
    (h : Tracks r d l now) : backoff d.failedAttempts = demanded (failures l) := by
  have hlt := failures_lt l
  unfold Auth.backoff demanded MAX_ATTEMPTS_BEFORE_DELAY MAX_ATTEMPTS_BEFORE_LOCK
  rw [h.counter]
  by_cases h3 : failures l < 3
  · rw [if_neg (by omega), if_pos h3]
  · have hexp : ((failures l : Int) - 3).toNat = failures l - 3 := by omega
    rw [if_pos (by omega), if_neg h3, hexp]

-- ============================================================================
-- What a verification leaves
-- ============================================================================

/-- The errors of the passes over the files are those of `crypto`. -/
theorem spec_decryptConfigFiles_error {env : Env} {X : Crates} {key : Bytes} {v : View} :
    Spec env (fun _ => True) (decryptConfigFiles X key).run
      (fun r _ => ∀ e, r = .error e → ∃ c, e = .crypto c) v := by
  suffices h : ∀ (fs : List ConfigFile) (v : View),
      Spec env (fun _ => True) (fs.forM (decryptConfigFile X key)).run
        (fun r _ => ∀ e, r = .error e → ∃ c, e = .crypto c) v from h CONFIG_FILES v
  intro fs
  induction fs with
  | nil => exact fun v => spec_pure trivial fun e he => by cases he
  | cons f fs ih =>
    intro v
    have hround : Spec env (fun _ => True) (decryptConfigFile X key f).run
        (fun r _ => ∀ e, r = .error e → ∃ c, e = .crypto c) v := by
      refine spec_except_bind (spec_bind (spec_any fun there v₁ => spec_pure trivial ?_))
      cases there with
      | false => exact spec_pure trivial fun e he => by cases he
      | true =>
        refine spec_except_bind (spec_tryCrypto (spec_any fun r v₂ => ?_))
        cases r with
        | error c => exact fun e he => ⟨c, (Except.error.inj he).symm⟩
        | ok u => exact spec_bind (spec_any fun _ _ => spec_pure trivial fun e he => by cases he)
    refine spec_except_bind (spec_mono (fun _ h => h) ?_ hround)
    intro r v' _ hr
    cases r with
    | ok u => exact ih v'
    | error e => exact hr

/-- An accepted password resets the counters in memory and in `auth.json`, or,
    when the files cannot be decrypted, leaves both alone. -/
theorem auth_openWith_kept {env : Env} (hsave : ¬ Faulty env SaveCmd) {password : String} :
    ASpec env (fun _ => True) (openWith X keyStore password) (fun r s' v' =>
      match r with
      | .ok _ => s'.authData = s.authData.reset ∧ onDisk X v' = s.authData.reset
      | .error e => s' = s ∧ Frame v v' ∧ e ≠ .invalidPassword ∧ ∀ secs, e ≠ .locked secs) s v := by
  have hargon : ∀ e : Argon2id.Argon2Error, s = s ∧ Frame v v ∧
      AuthError.argon2 e ≠ .invalidPassword ∧ ∀ secs, AuthError.argon2 e ≠ .locked secs :=
    fun e => ⟨rfl, Frame.refl v, by simp, by simp⟩
  refine auth_bind (auth_get trivial (auth_bind (auth_argon trivial (fun salt _ => ?_)
    fun e _ => hargon e)))
  refine auth_bind (auth_argon trivial (fun key _ => ?_) fun e _ => hargon e)
  have hdec : Spec env (fun _ => True) (decryptConfigFiles X key).run
      (fun r v' => Frame v v' ∧ ∀ e, r = .error e → ∃ c, e = .crypto c) v := by
    refine spec_and ?_ spec_decryptConfigFiles_error
    exact spec_mono (fun _ _ => trivial)
      (fun _ _ hs _ => steps_frame (fun _ _ => DecStep.frame) hs) spec_decryptConfigFiles
  refine auth_bind (auth_attempt (spec_mono (fun _ h => h) ?_ hdec))
  rintro r v₁ - ⟨hframe, herr⟩
  cases r with
  | error e =>
    obtain ⟨c, rfl⟩ := herr e rfl
    exact ⟨rfl, hframe, by simp, by simp⟩
  | ok u =>
    refine auth_bind (auth_modify trivial (auth_bind (auth_get trivial (auth_bind (auth_io
      (spec_saveAuthData trivial trivial ?_ fun hf _ => absurd hf hsave))))))
    have hsaved : onDisk X (saved X v₁ s.authData.reset) = s.authData.reset := by
      rw [onDisk, saved, View.put_files_self, readAs_toVecPretty]
    refine auth_bind (auth_io (spec_rememberKey trivial (fun _ => ?_) fun _ => ⟨trivial, ?_⟩))
    · exact auth_modify trivial ⟨rfl, hsaved⟩
    · exact auth_modify trivial ⟨rfl, hsaved⟩

/-- The same data in memory and in `auth.json`. -/
theorem Keeps.of_saved {hash : String} {l : List Outcome} {now : Time} {d : AuthData}
    (hen : d.enabled = true) (hhash : d.passwordHash = hash) (h : Tracks X.rfc3339 d l now)
    (hs : s.authData = d) (hv : onDisk X v = d) : Keeps X hash l now s v where
  enabled := by rw [hs]; exact hen
  passwordHash := by rw [hs]; exact hhash
  memory := by rw [hs]; exact h
  diskEnabled := by rw [hv]; exact hen
  diskHash := by rw [hv]; exact hhash
  disk := by rw [hv]; exact h
  agree := by rw [hv, hs]

/-- The counters after a failed verification. -/
theorem tracks_failure {r : Rfc3339} {d d' : AuthData} {l : List Outcome} {now : Time}
    {o : Outcome} (h : Tracks r d l now) (hclear : d.lockoutUntil = "")
    (ho : o.result = .error .invalidPassword)
    (hd' : d' = d.bump ∧ d'.failedAttempts < MAX_ATTEMPTS_BEFORE_LOCK ∨
      MAX_ATTEMPTS_BEFORE_LOCK ≤ d.bump.failedAttempts ∧ d' = d.bump.lockOut r o.attempt.answered) :
    Tracks r d' (o :: l) o.attempt.answered := by
  have hlt := failures_lt l
  have hbump : d.bump.failedAttempts = failures l + 1 := by
    simp only [AuthData.bump, wrapI64, h.counter]
    exact Int.bmod_eq_of_le (by omega) (by omega)
  unfold MAX_ATTEMPTS_BEFORE_LOCK at hd'
  rcases hd' with ⟨rfl, hsmall⟩ | ⟨hlarge, rfl⟩
  · have hne : failures l ≠ 9 := by omega
    have hfail : failures (o :: l) = failures l + 1 := by simp [failures, ho, hne]
    have hleft : ∀ t, lockoutLeft (o :: l) t = none := by
      intro t
      simp [lockoutLeft, lockedUntil, ho, hne]
    refine ⟨by rw [hbump, hfail]; rfl, fun t _ => ?_⟩
    rw [hleft, activeLockoutAt_of_empty (d := d.bump) hclear]
  · have heq : failures l = 9 := by omega
    have hfail : failures (o :: l) = 0 := by simp [failures, ho, heq]
    refine ⟨by rw [hfail]; rfl, fun t _ => ?_⟩
    have hleft : lockoutLeft (o :: l) t = remainingUntil (lockoutEnd o.attempt.answered) t := by
      simp [lockoutLeft, lockedUntil, ho, heq]
    exact (activeLockoutAt_lockOut r d.bump o.attempt.answered t).trans hleft.symm

/-- A verification leaves the counters as the record with it demands. -/
theorem auth_unlockVerify_keeps (keyStore : Bool) (delay : Option Nat) {hash : String}
    {l : List Outcome} {now : Time} (hsave : ∀ c, SaveCmd c → a.fails c = false) (h : Keeps X hash l now s v)
    (hclear : s.authData.lockoutUntil = "") (hnow : now ≤ a.answered) :
    ASpec (a.env a.answered) (fun _ => True) (unlockVerify X keyStore a.password) (fun r s' v' =>
      Keeps X hash (⟨a, true, delay, r⟩ :: l) a.answered s' v' ∧
      (∀ secs, r ≠ .error (.locked secs)) ∧
      (r = .error .invalidPassword ↔ Argon2id.verify X.argon2 a.password hash = false) ∧
      ∀ e, r = .error e → s'.unlocked = s.unlocked ∧ v'.keychain = v.keychain) s v := by
  have hfaulty : ¬ Faulty (a.env a.answered) SaveCmd := by
    rintro ⟨k, c, hk, hc⟩
    have hfails : a.fails c = true := hk
    rw [hsave c hc] at hfails
    cases hfails
  refine auth_unlockVerify trivial (fun hver => ?_) fun hver => ?_
  · rw [h.passwordHash] at hver
    refine auth_recordFailure trivial fun d hd => ⟨trivial, ?_, fun hf => absurd hf hfaulty⟩
    have hd' : d.enabled = s.authData.enabled ∧ d.passwordHash = s.authData.passwordHash := by
      rcases hd with ⟨rfl, -⟩ | ⟨-, k, rfl⟩ <;> exact ⟨rfl, rfl⟩
    have htracks : Tracks X.rfc3339 d (⟨a, true, delay, .error .invalidPassword⟩ :: l) a.answered :=
      tracks_failure h.memory hclear rfl (hd.imp_right fun ⟨hle, k, hk⟩ => ⟨hle, hk⟩)
    have hsaved : onDisk X (saved X v d) = d := by
      rw [onDisk, saved, View.put_files_self, readAs_toVecPretty]
    exact ⟨.of_saved (hd'.1.trans h.enabled) (hd'.2.trans h.passwordHash) htracks rfl hsaved,
      by simp, by simp [hver], fun _ _ => ⟨rfl, rfl⟩⟩
  · rw [h.passwordHash] at hver
    refine auth_mono (fun _ h => h) ?_ (auth_openWith_kept hfaulty)
    rintro r s' v' - hr
    cases r with
    | ok u =>
      have htracks : Tracks X.rfc3339 s.authData.reset (⟨a, true, delay, .ok u⟩ :: l) a.answered :=
        ⟨by simp [AuthData.reset, failures], fun t _ => by
          simp [activeLockoutAt_of_empty, AuthData.reset, lockoutLeft, lockedUntil]⟩
      exact ⟨.of_saved (d := s.authData.reset) h.enabled h.passwordHash htracks hr.1 hr.2,
        by simp, by simp [hver], nofun⟩
    | error e =>
      obtain ⟨rfl, hframe, hne, hnl⟩ := hr
      have hv' : onDisk X v' = onDisk X v := by rw [onDisk, hframe.1]
      obtain ⟨hfail, hleft⟩ := counts_other (o := ⟨a, true, delay, .error e⟩) (l := l) rfl hne
      have htracks : ∀ {d}, Tracks X.rfc3339 d l now →
          Tracks X.rfc3339 d (⟨a, true, delay, .error e⟩ :: l) a.answered := fun ht =>
        ⟨by rw [hfail]; exact ht.counter,
          fun t hle => (ht.lockout t (Int.le_trans hnow hle)).trans (hleft t).symm⟩
      refine ⟨⟨h.enabled, h.passwordHash, htracks h.memory, by rw [hv']; exact h.diskEnabled,
        by rw [hv']; exact h.diskHash, by rw [hv']; exact htracks h.disk, by rw [hv']; exact h.agree⟩,
        ?_, ?_, fun _ _ => ⟨rfl, hframe.2⟩⟩
      · intro secs heq
        exact hnl secs (Except.error.inj heq)
      · simp only [hver, Bool.true_eq_false, iff_false]
        exact fun heq => hne (Except.error.inj heq)

-- ============================================================================
-- Runs
-- ============================================================================

/-- The counters are those of the record, and the record is as it demands. -/
structure Desk.Ordered (X : Crates) (hash : String) (now : Time) (m : Desk) : Prop where
  keeps : Keeps X hash m.record now m.state m.world.view
  limited : ∀ o l, o :: l <:+ m.record →
    (o.locked = true → Limited X hash o l) ∧ (o.locked = false → o.result = .ok ())

theorem limited_cons {hash : String} {o : Outcome} {l : List Outcome}
    (h : ∀ o l', o :: l' <:+ l →
      (o.locked = true → Limited X hash o l') ∧ (o.locked = false → o.result = .ok ()))
    (ho : (o.locked = true → Limited X hash o l) ∧ (o.locked = false → o.result = .ok ())) :
    ∀ o' l', o' :: l' <:+ o :: l →
      (o'.locked = true → Limited X hash o' l') ∧ (o'.locked = false → o'.result = .ok ()) := by
  intro o' l' hs
  rcases List.suffix_cons_iff.mp hs with heq | hs
  · obtain ⟨rfl, rfl⟩ := List.cons.inj heq
    exact ho
  · exact h o' l' hs

theorem Desk.step_attempt {m : Desk} {delay : Option Nat} {r : Except AuthError Unit × State}
    {w' : World} (h : unlockAt X keyStore a m.state m.world = (delay, r, w')) :
    m.step X keyStore (.attempt a) =
      ⟨r.2, w', ⟨a, !m.state.unlocked, delay, r.1⟩ :: m.record⟩ := by
  simp only [Desk.step, h]

/-- Step lemma: an attempt. -/
theorem Desk.Ordered.attempt {hash : String} {now : Time} {m : Desk} (h : m.Ordered X hash now)
    (harr : now ≤ a.arrives) (hans : a.arrives ≤ a.answered)
    (hsave : ∀ c, SaveCmd c → a.fails c = false) :
    (m.step X keyStore (.attempt a)).Ordered X hash a.answered := by
  have hnow : now ≤ a.answered := Int.le_trans harr hans
  rcases unlockAt_cases (X := X) (w := m.world) (a := a) keyStore h.keeps.enabled with
    ⟨w', hview, ⟨hu, heq⟩ | ⟨hu, secs, hl, heq⟩⟩ | ⟨hu, hl, w', hview, heq⟩
  · -- an open service
    rw [Desk.step_attempt heq]
    have hf : failures (⟨a, !m.state.unlocked, none, .ok ()⟩ :: m.record) = failures m.record := by
      simp [failures, hu]
    have hleft : ∀ t, lockoutLeft (⟨a, !m.state.unlocked, none, .ok ()⟩ :: m.record) t
        = lockoutLeft m.record t := by
      intro t
      simp [lockoutLeft, lockedUntil, hu]
    have ht : ∀ {d}, Tracks X.rfc3339 d m.record now →
        Tracks X.rfc3339 d (⟨a, !m.state.unlocked, none, .ok ()⟩ :: m.record) a.answered :=
      fun ht => ⟨by rw [hf]; exact ht.counter,
        fun t hle => (ht.lockout t (Int.le_trans hnow hle)).trans (hleft t).symm⟩
    refine ⟨⟨h.keeps.enabled, h.keeps.passwordHash, ht h.keeps.memory, ?_, ?_, ?_, ?_⟩,
      limited_cons h.limited ⟨by simp [hu], fun _ => rfl⟩⟩
    · simp only [onDisk, hview]; exact h.keeps.diskEnabled
    · simp only [onDisk, hview]; exact h.keeps.diskHash
    · simp only [onDisk, hview]; exact ht h.keeps.disk
    · simp only [onDisk, hview]; exact h.keeps.agree
  · -- refused under a lockout
    rw [Desk.step_attempt heq]
    obtain ⟨hf, hleft⟩ := counts_other
      (o := ⟨a, !m.state.unlocked, none, .error (.locked secs)⟩) (l := m.record) rfl (by simp)
    have ht : ∀ {d}, Tracks X.rfc3339 d m.record now → Tracks X.rfc3339 d
        (⟨a, !m.state.unlocked, none, .error (.locked secs)⟩ :: m.record) a.answered :=
      fun ht => ⟨by rw [hf]; exact ht.counter,
        fun t hle => (ht.lockout t (Int.le_trans hnow hle)).trans (hleft t).symm⟩
    have hrefused : lockoutLeft m.record a.arrives = some secs :=
      (h.keeps.memory.lockout _ harr).symm.trans hl
    refine ⟨⟨h.keeps.enabled, h.keeps.passwordHash, ht h.keeps.memory, ?_, ?_, ?_, ?_⟩,
      limited_cons h.limited ⟨fun _ => ?_, by simp [hu]⟩⟩
    · simp only [onDisk, hview]; exact h.keeps.diskEnabled
    · simp only [onDisk, hview]; exact h.keeps.diskHash
    · simp only [onDisk, hview]; exact ht h.keeps.disk
    · simp only [onDisk, hview]; exact h.keeps.agree
    · unfold Limited
      rw [hrefused]
      exact ⟨rfl, rfl⟩
  · -- verified
    rw [Desk.step_attempt heq]
    have hmem := h.keeps.memory.later harr
    have hkeeps : Keeps X hash m.record a.arrives
        { m.state with authData := m.state.authData.clearLockout } w'.view := by
      rw [hview]
      exact ⟨h.keeps.enabled, h.keeps.passwordHash, hmem.clearLockout hl,
        h.keeps.diskEnabled, h.keeps.diskHash, h.keeps.disk.later harr, h.keeps.agree⟩
    obtain ⟨hk, hnl, hiff, -⟩ := auth_run (auth_unlockVerify_keeps _ _ hsave hkeeps rfl hans)
    have hfree : lockoutLeft m.record a.arrives = none :=
      (h.keeps.memory.lockout _ harr).symm.trans hl
    rw [show (!m.state.unlocked) = true by rw [hu]; rfl]
    refine ⟨hk, limited_cons h.limited ⟨fun _ => ?_, nofun⟩⟩
    unfold Limited
    rw [hfree]
    exact ⟨hmem.backoff, hnl, hiff⟩

/-- Step lemma: a restart reads the counters back. -/
theorem Desk.Ordered.restart {hash : String} {now : Time} {m : Desk} {fails : Cmd → Bool}
    (h : m.Ordered X hash now) (hread : fails (.read authFile) = false) :
    (m.step X keyStore (.restart fails)).Ordered X hash now := by
  have hspec : Spec ⟨fun _ c => fails c, fun _ _ => 0, fun _ => 0, fun _ => 0⟩ (fun _ => True)
      (new X keyStore) (fun s' v' => s'.authData = onDisk X m.world.view ∧
        onDisk X v' = onDisk X m.world.view) m.world.view := by
    refine spec_new trivial fun d hd => ?_
    have hd : d = onDisk X m.world.view := by
      refine hd.resolve_right ?_
      rintro ⟨⟨k, c, hk, rfl⟩, -⟩
      have hfails : fails (.read authFile) = true := hk
      rw [hread] at hfails
      cases hfails
    refine ⟨fun _ _ => trivial, fun v₁ hs _ => ⟨fun hdis => ?_, fun _ => ?_⟩⟩
    · rw [hd, h.keeps.diskEnabled] at hdis; cases hdis
    have h₁ : onDisk X v₁ = onDisk X m.world.view := by
      rw [onDisk, (steps_frame (fun _ _ => RecStep.frame) hs).1]
    refine spec_resumeRememberedKey trivial ⟨hd, h₁⟩ fun _ _ key _ => ?_
    have hdec : ∀ v₂, ReflTransGen (DecStep X.aead key) v₁ v₂ →
        onDisk X v₂ = onDisk X m.world.view := by
      intro v₂ hs₂
      rw [onDisk, (steps_frame (fun _ _ => DecStep.frame) hs₂).1]
      exact h₁
    refine ⟨fun _ _ => trivial, fun v₂ hv₂ => ?_, fun v₂ _ hs₂ _ => ⟨hd, hdec v₂ hs₂⟩⟩
    have h₂ : onDisk X v₂ = onDisk X m.world.view := by
      rcases hv₂ with rfl | ⟨e, hs₂, -⟩
      · exact h₁
      · exact hdec v₂ hs₂
    exact ⟨trivial, ⟨hd, h₂⟩, hd, h₂⟩
  obtain ⟨hs', hv'⟩ := spec_run hspec
  exact ⟨.of_saved h.keeps.diskEnabled h.keeps.diskHash h.keeps.disk hs' hv', h.limited⟩

/-- Run lemma. -/
theorem Desk.Ordered.run {hash : String} {es : List Event} : ∀ {now : Time} {m : Desk},
    m.Ordered X hash now → Sequential now es →
      (m.run X keyStore es).Ordered X hash (lastTime now es) := by
  induction es with
  | nil => exact fun h _ => h
  | cons e es ih =>
    intro now m h hes
    cases e with
    | attempt a =>
      obtain ⟨harr, hans, hsave, hes⟩ := hes
      exact ih (h.attempt harr hans hsave) hes
    | restart fails => exact ih (h.restart hes.1) hes.2

end

end GnDrive.Auth.Restarts
