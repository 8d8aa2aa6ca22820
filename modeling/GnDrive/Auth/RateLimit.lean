/-
  GnDrive.Auth.RateLimit

  Concurrent `unlock` calls.

  Each RPC worker runs `unlock` on its own: it takes the lock, checks the
  lockout, and either verifies the password before it gives the lock up, or
  gives it up, sleeps its back-off delay, takes it again and verifies.  After
  the sleep only `unlocked` is looked at again.  A lockout that began while a
  call slept does not stop it: `rateLimit_iff` says that this is the only way
  to a verification under a lockout.  The count of failures is kept inside
  one lock section, so the bound of ten holds in every run.

  The system keeps a record of what the lock sections did, newest first.
-/

import GnDrive.Auth.Instance
import GnDrive.Auth.Operations
import GnDrive.Lib.System

namespace GnDrive.Auth

open AuthM

/-- What a lock section did.  `lockout` are the seconds a lockout in force at
    the time of the verification had left. -/
inductive Entry where
  | verified (accepted : Bool) (lockout : Option Int)
  | lockedOut
  | unlocked
deriving DecidableEq

/-- Where a worker is between two lock sections. -/
inductive Pc where
  | idle
  | asleep (password : String)
deriving DecidableEq

structure Workers where
  state : State
  world : World
  pc : Nat → Pc
  log : List Entry

/-- One worker takes the lock for the first or the second time, the app is
    locked, or time passes. -/
inductive Act where
  | call (i : Nat) (password : String)
  | wake (i : Nat)
  | lock
  | pass (n : Nat)

/-- Failed verifications since the last lockout or successful unlock. -/
def sinceReset : List Entry → Option Nat
  | [] => none
  | .verified true _ :: l => sinceReset l
  | .verified false _ :: l => (sinceReset l).map (· + 1)
  | .lockedOut :: _ | .unlocked :: _ => some 0

section

variable (X : Crates) (keyStore : Bool) (env : Env)

/-- What a section that verified `password` in state `s` and ended in `r` puts
    on record. -/
def entries (password : String) (s : State) (now : Time) (r : Except AuthError Unit) :
    List Entry :=
  let lockout := activeLockoutAt X.rfc3339 s.authData now
  if Argon2id.verify X.argon2 password s.authData.passwordHash then
    match r with
    | .ok _ => [.unlocked, .verified true lockout]
    | .error _ => [.verified true lockout]
  else if MAX_ATTEMPTS_BEFORE_LOCK ≤ s.authData.bump.failedAttempts then
    [.lockedOut, .verified false lockout]
  else [.verified false lockout]

/-- `unlock` from the password check to the end of the lock section. -/
def verifySection (password : String) (m : Workers) : Workers :=
  let r := runAuth env (unlockVerify X keyStore password) m.state m.world
  { m with
    state := r.1.2
    world := r.2
    log := entries X password m.state (env.now m.world.tick) r.1.1 ++ m.log }

/-- The first lock section of `unlock`. -/
def callSection (i : Nat) (password : String) (m : Workers) : Workers :=
  let r := runAuth env (unlockCheck X) m.state m.world
  let m' := { m with state := r.1.2, world := r.2 }
  match r.1.1 with
  | .error _ | .ok .alreadyUnlocked => m'
  | .ok (.delay _) => { m' with pc := Function.update m'.pc i (.asleep password) }
  | .ok .verify => verifySection X keyStore env password m'

/-- The lock section of `unlock` after its delay. -/
def wakeSection (password : String) (m : Workers) : Workers :=
  let r := runAuth env (unlockAfterSleep X keyStore password) m.state m.world
  { m with
    state := r.1.2
    world := r.2
    log := (if m.state.unlocked then []
      else entries X password m.state (env.now m.world.tick) r.1.1) ++ m.log }

def workersStep (m : Workers) : Act → Option Workers
  | .call i password =>
      match m.pc i with
      | .idle => some (callSection X keyStore env i password m)
      | .asleep _ => none
  | .wake i =>
      match m.pc i with
      | .idle => none
      | .asleep password =>
          some (wakeSection X keyStore env password
            { m with pc := Function.update m.pc i .idle })
  | .lock =>
      let r := runAuth env (lock X keyStore) m.state m.world
      some { m with state := r.1.2, world := r.2 }
  | .pass n => some { m with world := { m.world with tick := m.world.tick + n } }

/-- Runs of any number of workers from any state of the service. -/
def unlockSystem : System Workers Act where
  init m := m.log = [] ∧ ∀ i, m.pc i = .idle
  step := workersStep X keyStore env

/-- A call that has its lock back and finds the app still locked finds no
    lockout in force. -/
def FindsNoLockout (m : Workers) : Act → Prop
  | .wake i => m.pc i ≠ .idle → m.state.unlocked = false →
      activeLockoutAt X.rfc3339 m.state.authData (env.now m.world.tick) = none
  | _ => True

end

/-- No verification on record was made under a lockout. -/
def NoneUnderLockout (m : Workers) : Prop :=
  ∀ accepted lockout, .verified accepted lockout ∈ m.log → lockout = none

-- ============================================================================
-- What a lock section does to the counters
-- ============================================================================

section

variable {X : Crates} {keyStore : Bool} {env : Env} {v : View} {s : State} {password : String}

/-- What a verification does to the auth data. -/
def Counted (X : Crates) (password : String) (s s' : State) (r : Except AuthError Unit) : Prop :=
  if Argon2id.verify X.argon2 password s.authData.passwordHash then
    match r with
    | .ok _ => s'.authData = s.authData.reset
    | .error _ => s'.authData = s.authData
  else if MAX_ATTEMPTS_BEFORE_LOCK ≤ s.authData.bump.failedAttempts then
    ∃ now, s'.authData = s.authData.bump.lockOut X.rfc3339 now
  else s'.authData = s.authData.bump

theorem auth_openWith_data :
    ASpec env (fun _ => True) (openWith X keyStore password) (fun r s' _ =>
      match r with
      | .ok _ => s'.authData = s.authData.reset
      | .error _ => s'.authData = s.authData) s v := by
  refine auth_bind (auth_get trivial (auth_bind (auth_argon trivial (fun salt _ => ?_)
    fun _ _ => rfl)))
  refine auth_bind (auth_argon trivial (fun key _ => ?_) fun _ _ => rfl)
  refine auth_bind (auth_attempt (spec_any fun r v' => ?_))
  cases r with
  | error e => rfl
  | ok u =>
    refine auth_bind (auth_modify trivial (auth_bind (auth_get trivial (auth_bind (auth_io
      (spec_any fun _ _ => auth_bind (auth_io (spec_any fun _ _ => ?_))))))))
    exact auth_modify trivial rfl

theorem auth_unlockVerify_counted :
    ASpec env (fun _ => True) (unlockVerify X keyStore password) (fun r s' _ =>
      Counted X password s s' r) s v := by
  unfold Counted
  refine auth_unlockVerify trivial (fun hver => ?_) (fun hver => ?_)
  · simp only [hver, Bool.false_eq_true, if_false]
    refine auth_recordFailure trivial fun d hd => ?_
    rcases hd with ⟨rfl, hlt⟩ | ⟨hge, k, rfl⟩
    · rw [if_neg (by omega)]
      exact ⟨trivial, rfl, fun _ => rfl⟩
    · rw [if_pos hge]
      exact ⟨trivial, ⟨_, rfl⟩, fun _ => ⟨_, rfl⟩⟩
  · simp only [hver, if_true]
    exact auth_openWith_data

/-- The first lock section clears a lockout that is over, and counts nothing. -/
theorem auth_unlockCheck_data :
    ASpec env (fun _ => True) (unlockCheck X) (fun r s' _ =>
      s'.authData.failedAttempts = s.authData.failedAttempts ∧
      (r = .ok .verify → s'.authData.lockoutUntil = "")) s v := by
  refine auth_unlockCheck trivial (fun _ => ⟨rfl, nofun⟩) (fun _ _ => ⟨rfl, nofun⟩)
    (fun _ _ _ _ => ⟨rfl, nofun⟩) fun _ _ _ _ => ⟨rfl, fun _ => rfl⟩

theorem auth_lock_data :
    ASpec env (fun _ => True) (lock X keyStore) (fun _ s' _ => s'.authData = s.authData) s v := by
  refine auth_bind (auth_mono (fun _ h => h) ?_ auth_suspend_state)
  rintro r s' v' - hs'
  have hdata : s'.authData = s.authData := by
    rcases hs' with rfl | ⟨key, t, -, -, rfl⟩
    · rfl
    · rfl
  cases r with
  | error e => exact hdata
  | ok u => exact auth_attempt (spec_any fun _ _ => hdata)

-- ============================================================================
-- At most ten failures
-- ============================================================================

/-- The counter counts the failures since the last reset, and there were never
    more than ten of them. -/
structure CountInv (d : AuthData) (log : List Entry) : Prop where
  counter : ∀ n, sinceReset log = some n → d.failedAttempts = n ∧ n < 10
  bound : ∀ l, l <:+ log → ∀ n, sinceReset l = some n → n ≤ 10

theorem CountInv.cons {d d' : AuthData} {log : List Entry} {e : Entry} (h : CountInv d log)
    (hcounter : ∀ n, sinceReset (e :: log) = some n → d'.failedAttempts = n ∧ n < 10) :
    CountInv d' (e :: log) where
  counter := hcounter
  bound l hl n hn := by
    rcases List.suffix_cons_iff.mp hl with rfl | hl
    · exact (hcounter n hn).2.le
    · exact h.bound l hl n hn

/-- The tenth failure starts a lockout in the same section. -/
theorem CountInv.lockOut {d d' : AuthData} {log : List Entry} {lockout : Option Int}
    (h : CountInv d log) (hzero : d'.failedAttempts = 0) :
    CountInv d' (.lockedOut :: .verified false lockout :: log) where
  counter n hn := by
    obtain rfl : 0 = n := Option.some.inj hn
    exact ⟨hzero, by decide⟩
  bound l hl n hn := by
    rcases List.suffix_cons_iff.mp hl with rfl | hl
    · obtain rfl : 0 = n := Option.some.inj hn
      exact Nat.zero_le _
    · rcases List.suffix_cons_iff.mp hl with rfl | hl
      · obtain ⟨k, hk, rfl⟩ := Option.map_eq_some_iff.mp hn
        exact (h.counter k hk).2
      · exact h.bound l hl n hn

theorem CountInv.entries {s' : State} {log : List Entry} {now : Time} {r : Except AuthError Unit}
    (h : CountInv s.authData log) (hc : Counted X password s s' r) :
    CountInv s'.authData (entries X password s now r ++ log) := by
  unfold Counted at hc
  unfold Auth.entries
  cases hver : Argon2id.verify X.argon2 password s.authData.passwordHash with
  | true =>
    simp only [hver, if_true] at hc ⊢
    have haccepted : CountInv s.authData
        (.verified true (activeLockoutAt X.rfc3339 s.authData now) :: log) :=
      h.cons fun n hn => h.counter n hn
    cases r with
    | error e =>
      rw [show s'.authData = s.authData from hc]
      exact haccepted
    | ok u =>
      refine haccepted.cons fun n hn => ?_
      obtain rfl : 0 = n := Option.some.inj hn
      rw [show s'.authData = s.authData.reset from hc]
      exact ⟨rfl, by decide⟩
  | false =>
    simp only [hver, Bool.false_eq_true, if_false] at hc ⊢
    by_cases hmax : MAX_ATTEMPTS_BEFORE_LOCK ≤ s.authData.bump.failedAttempts
    · rw [if_pos hmax] at hc ⊢
      obtain ⟨t, ht⟩ := hc
      exact h.lockOut (by rw [ht]; rfl)
    · rw [if_neg hmax] at hc ⊢
      refine h.cons fun n hn => ?_
      obtain ⟨k, hk, rfl⟩ := Option.map_eq_some_iff.mp hn
      obtain ⟨hcount, hlt⟩ := h.counter k hk
      have hbump : s.authData.bump.failedAttempts = k + 1 := by
        simp only [AuthData.bump, wrapI64, hcount]
        exact Int.bmod_eq_of_le (by omega) (by omega)
      rw [hc, hbump]
      unfold MAX_ATTEMPTS_BEFORE_LOCK at hmax
      exact ⟨by simp, by omega⟩

theorem countInv_verifySection {m : Workers} (h : CountInv m.state.authData m.log) :
    CountInv (verifySection X keyStore env password m).state.authData
      (verifySection X keyStore env password m).log :=
  h.entries (auth_run auth_unlockVerify_counted)

theorem runAuth_unlockAfterSleep (password : String) (s : State) (w : World) :
    runAuth env (unlockAfterSleep X keyStore password) s w =
      if s.unlocked then ((.ok (), s), w)
      else runAuth env (unlockVerify X keyStore password) s w := by
  change Prog.run (exec env) ((if s.unlocked = true then pure () else
    unlockVerify X keyStore password : AuthM Unit).run.run s) w = _
  cases s.unlocked <;> rfl

theorem wakeSection_eq (password : String) (m : Workers) :
    wakeSection X keyStore env password m =
      if m.state.unlocked then m else verifySection X keyStore env password m := by
  unfold wakeSection
  rw [runAuth_unlockAfterSleep]
  cases hu : m.state.unlocked with
  | true => simp
  | false => simp [verifySection]

/-- A failed attempt leaves the hash and the lock alone. -/
theorem recordFailure_state (s : State) (w : World) :
    (runAuth env (recordFailure X) s w).1.2.authData.passwordHash = s.authData.passwordHash ∧
      (runAuth env (recordFailure X) s w).1.2.unlocked = s.unlocked := by
  have hspec : ASpec env (fun _ => True) (recordFailure X) (fun _ s' _ =>
      s'.authData.passwordHash = s.authData.passwordHash ∧ s'.unlocked = s.unlocked) s w.view := by
    refine auth_recordFailure trivial fun d hd => ?_
    have hhash : d.passwordHash = s.authData.passwordHash := by
      rcases hd with ⟨rfl, -⟩ | ⟨-, k, rfl⟩
      · rfl
      · rfl
    exact ⟨trivial, ⟨hhash, rfl⟩, fun _ => ⟨hhash, rfl⟩⟩
  exact auth_run hspec

/-- A worker that wakes up with a wrong password. -/
theorem wakeSection_wrong {m : Workers} (hu : m.state.unlocked = false)
    (h : Argon2id.verify X.argon2 password m.state.authData.passwordHash = false) :
    wakeSection X keyStore env password m =
      let r := runAuth env (recordFailure X) m.state m.world
      let lockout := activeLockoutAt X.rfc3339 m.state.authData (env.now m.world.tick)
      { m with
        state := r.1.2
        world := r.2
        log := (if MAX_ATTEMPTS_BEFORE_LOCK ≤ m.state.authData.bump.failedAttempts then
            [.lockedOut, .verified false lockout]
          else [.verified false lockout]) ++ m.log } := by
  have hrun : runAuth env (unlockVerify X keyStore password) m.state m.world =
      runAuth env (recordFailure X) m.state m.world := by
    change Prog.run (exec env) ((if !Argon2id.verify X.argon2 password
      m.state.authData.passwordHash then recordFailure X else openWith X keyStore password :
        AuthM Unit).run.run m.state) m.world = _
    rw [h]
    rfl
  rw [wakeSection_eq, hu, if_neg Bool.false_ne_true]
  unfold verifySection entries
  simp only [hrun, h, Bool.false_eq_true, if_false]

/-- The first lock section either leaves the record alone or is past a cleared
    lockout. -/
theorem callSection_cases (X : Crates) (keyStore : Bool) (env : Env) (i : Nat) (password : String) (m : Workers) :
    ∃ m₁ : Workers, m₁.log = m.log ∧
      m₁.state.authData.failedAttempts = m.state.authData.failedAttempts ∧
      (callSection X keyStore env i password m = m₁ ∨
        m₁.state.authData.lockoutUntil = "" ∧
        callSection X keyStore env i password m = verifySection X keyStore env password m₁) := by
  obtain ⟨hcount, hclear⟩ : (runAuth env (unlockCheck X) m.state m.world).1.2.authData.failedAttempts
      = m.state.authData.failedAttempts ∧ _ := auth_run auth_unlockCheck_data
  unfold callSection
  generalize runAuth env (unlockCheck X) m.state m.world = r at *
  obtain ⟨⟨r, s'⟩, w'⟩ := r
  cases r with
  | error e => exact ⟨{ m with state := s', world := w' }, rfl, hcount, .inl rfl⟩
  | ok gate =>
    cases gate with
    | alreadyUnlocked => exact ⟨{ m with state := s', world := w' }, rfl, hcount, .inl rfl⟩
    | delay secs => exact ⟨⟨s', w', Function.update m.pc i (.asleep password), m.log⟩, rfl, hcount,
        .inl rfl⟩
    | verify => exact ⟨{ m with state := s', world := w' }, rfl, hcount, .inr ⟨hclear rfl, rfl⟩⟩

theorem CountInv.of_counter {d d' : AuthData} {log : List Entry} (h : CountInv d log)
    (hd : d'.failedAttempts = d.failedAttempts) : CountInv d' log where
  counter n hn := hd ▸ h.counter n hn
  bound := h.bound

/-- Step lemma: every lock section keeps the count. -/
theorem countInv_step {m m' : Workers} {a : Act} (h : CountInv m.state.authData m.log)
    (hs : workersStep X keyStore env m a = some m') : CountInv m'.state.authData m'.log := by
  cases a with
  | call i password =>
    cases hp : m.pc i with
    | asleep q => simp [workersStep, hp] at hs
    | idle =>
      obtain rfl : callSection X keyStore env i password m = m' := by simpa [workersStep, hp] using hs
      obtain ⟨m₁, hlog, hcount, heq | ⟨-, heq⟩⟩ := callSection_cases X keyStore env i
        password m
      · rw [heq, hlog]
        exact h.of_counter hcount
      · rw [heq]
        exact countInv_verifySection (hlog ▸ h.of_counter hcount)
  | wake i =>
    cases hp : m.pc i with
    | idle => simp [workersStep, hp] at hs
    | asleep password =>
      obtain rfl : wakeSection X keyStore env password _ = m' := by
        simpa [workersStep, hp] using hs
      rw [wakeSection_eq]
      split
      · exact h
      · exact countInv_verifySection h
  | lock =>
    obtain rfl := Option.some.inj hs
    exact h.of_counter (by rw [auth_run auth_lock_data])
  | pass n =>
    obtain rfl := Option.some.inj hs
    exact h

-- ============================================================================
-- Verifications under a lockout
-- ============================================================================

theorem entries_underLockout {s : State} {now : Time} {r : Except AuthError Unit}
    {log : List Entry} :
    (∀ accepted lockout, .verified accepted lockout ∈ entries X password s now r ++ log →
        lockout = none) ↔
      (∀ accepted lockout, .verified accepted lockout ∈ log → lockout = none) ∧
        activeLockoutAt X.rfc3339 s.authData now = none := by
  have hmem : ∀ accepted lockout, .verified accepted lockout ∈ entries X password s now r ↔
      accepted = Argon2id.verify X.argon2 password s.authData.passwordHash ∧
        lockout = activeLockoutAt X.rfc3339 s.authData now := by
    intro accepted lockout
    unfold entries
    cases Argon2id.verify X.argon2 password s.authData.passwordHash with
    | true => cases r <;> simp
    | false => simp only [Bool.false_eq_true, if_false]; split <;> simp
  constructor
  · intro h
    exact ⟨fun a l hl => h a l (List.mem_append_right _ hl),
      h _ _ (List.mem_append_left _ ((hmem _ _).mpr ⟨rfl, rfl⟩))⟩
  · rintro ⟨hlog, hnone⟩ a l hl
    rcases List.mem_append.mp hl with hl | hl
    · rw [((hmem a l).mp hl).2, hnone]
    · exact hlog a l hl

/-- Step lemma: a step adds a verification under a lockout exactly when it is
    a call that comes back into one. -/
theorem noneUnderLockout_step {m m' : Workers} {a : Act}
    (hs : workersStep X keyStore env m a = some m') :
    NoneUnderLockout m' ↔ NoneUnderLockout m ∧ FindsNoLockout X env m a := by
  cases a with
  | call i password =>
    cases hp : m.pc i with
    | asleep q => simp [workersStep, hp] at hs
    | idle =>
      obtain rfl : callSection X keyStore env i password m = m' := by simpa [workersStep, hp] using hs
      obtain ⟨m₁, hlog, -, heq | ⟨hclear, heq⟩⟩ := callSection_cases X keyStore env i
        password m
      · rw [heq]
        simp [NoneUnderLockout, hlog, FindsNoLockout]
      · rw [heq]
        refine entries_underLockout.trans ?_
        simp [NoneUnderLockout, hlog, FindsNoLockout, activeLockoutAt_of_empty hclear]
  | wake i =>
    cases hp : m.pc i with
    | idle => simp [workersStep, hp] at hs
    | asleep password =>
      obtain rfl : wakeSection X keyStore env password _ = m' := by
        simpa [workersStep, hp] using hs
      rw [wakeSection_eq]
      cases hu : m.state.unlocked with
      | true => simp [NoneUnderLockout, FindsNoLockout, hu]
      | false =>
        refine entries_underLockout.trans ?_
        simp [NoneUnderLockout, FindsNoLockout, hp, hu]
  | lock =>
    obtain rfl := Option.some.inj hs
    simp [NoneUnderLockout, FindsNoLockout]
  | pass n =>
    obtain rfl := Option.some.inj hs
    simp [NoneUnderLockout, FindsNoLockout]

/-- In every run of concurrent calls, no password is verified under a lockout
    exactly when no call comes back from its delay into one; and in any case
    at most ten verifications fail between one lockout or successful unlock
    and the next. -/
theorem rateLimit_iff {X : Crates} {keyStore : Bool} {env : Env} {m m' : Workers} {as : List Act}
    (hinit : (unlockSystem X keyStore env).init m)
    (hrun : (unlockSystem X keyStore env).runFrom m as = some m') :
    (NoneUnderLockout m' ↔ (unlockSystem X keyStore env).Meets (FindsNoLockout X env) m as) ∧
    ∀ l, l <:+ m'.log → ∀ n, sinceReset l = some n → n ≤ 10 := by
  constructor
  · have hnone : NoneUnderLockout m := by simp [NoneUnderLockout, hinit.1]
    rw [System.runFrom_iff_meets (I := fun _ => True) (P := NoneUnderLockout)
      (fun _ _ _ _ _ => trivial)
      (fun _ _ _ _ hs => noneUnderLockout_step hs) trivial hrun]
    simp [hnone]
  · have hm : (unlockSystem X keyStore env).Reachable m' :=
      System.runFrom_reachable (.init hinit) hrun
    have hinv : CountInv m'.state.authData m'.log := by
      refine System.Reachable.invariant (P := fun m : Workers => CountInv m.state.authData m.log)
        (fun m₀ h₀ => ?_) (fun _ _ _ h hs => countInv_step h hs) hm
      rw [h₀.1]
      exact ⟨nofun, by simp [sinceReset]⟩
    exact hinv.bound

end

/-- One command a second. -/
def Sample.ticking : Env := { Sample.env 1 with now := fun k => k * SECOND }

/-- A locked service with failed attempts, and idle workers. -/
def Sample.lockedWorkers (failedAttempts : Int) : Workers where
  state := ⟨false, none, { Sample.authData "secret" 1 with failedAttempts := failedAttempts }, none⟩
  world := Sample.world (fun _ => none) none
  pc _ := .idle
  log := []

/-- The tenth attempt of a single worker comes back from its delay to no
    lockout. -/
theorem rateLimit_single :
    ∃ m', (unlockSystem Sample.crates true Sample.ticking).runFrom (Sample.lockedWorkers 9)
        [.call 0 "wrong", .pass 64, .wake 0] = some m' ∧
      NoneUnderLockout m' ∧ ∀ l, l <:+ m'.log → ∀ n, sinceReset l = some n → n ≤ 10 := by
  have hinit : (unlockSystem Sample.crates true Sample.ticking).init (Sample.lockedWorkers 9) :=
    ⟨rfl, fun _ => rfl⟩
  have hrun : (unlockSystem Sample.crates true Sample.ticking).runFrom (Sample.lockedWorkers 9)
      [.call 0 "wrong", .pass 64, .wake 0] = some _ := rfl
  obtain ⟨hiff, hbound⟩ := rateLimit_iff hinit hrun
  refine ⟨_, hrun, hiff.mpr ⟨trivial, ?_⟩, hbound⟩
  rintro m₁ h₁
  obtain rfl := Option.some.inj h₁
  refine ⟨trivial, ?_⟩
  rintro m₂ h₂
  obtain rfl := Option.some.inj h₂
  exact ⟨fun _ _ => rfl, fun _ _ => trivial⟩

/-- Two workers in their sleep, and a hash. -/
def Sample.asleep (hash : String) : Workers :=
  { Sample.lockedWorkers 9 with
    state := ⟨false, none, ⟨.default, true, 9, "", hash⟩, none⟩
    world := { (Sample.lockedWorkers 9).world with tick := 64 }
    pc := Function.update (Function.update (fun _ => .idle) 0 (.asleep "wrong")) 1
      (.asleep "guess") }

/-- They come back with wrong passwords. -/
theorem Sample.two_wrong {hash : String}
    (hwrong : Argon2id.verify Sample.argon2 "wrong" hash = false)
    (hguess : Argon2id.verify Sample.argon2 "guess" hash = false) :
    ∃ m', (unlockSystem Sample.crates true Sample.ticking).runFrom (Sample.asleep hash)
        [.wake 0, .wake 1] = some m' ∧
      m'.log = [.verified false (some 292), .lockedOut, .verified false none] := by
  -- the first to come back
  let m₁ : Workers :=
    { Sample.asleep hash with pc := Function.update (Sample.asleep hash).pc 0 .idle }
  have hfirst : wakeSection Sample.crates true Sample.ticking "wrong" m₁ = _ :=
    wakeSection_wrong rfl hwrong
  -- the second, once the first has started the lockout
  let m₂ : Workers := { wakeSection Sample.crates true Sample.ticking "wrong" m₁ with
    pc := Function.update m₁.pc 1 .idle }
  have hstate : m₂.state = ⟨false, none,
      AuthData.lockOut Sample.rfc3339 ⟨.default, true, 10, "", hash⟩ (64 * SECOND), none⟩ :=
    (congrArg Workers.state hfirst).trans rfl
  have htick : m₂.world.tick = 72 := (congrArg (·.world.tick) hfirst).trans rfl
  have hlog : m₂.log = [.lockedOut, .verified false none] := (congrArg (·.log) hfirst).trans rfl
  have hsecond : wakeSection Sample.crates true Sample.ticking "guess" m₂ = _ :=
    wakeSection_wrong (by rw [hstate]) (by rw [hstate]; exact hguess)
  have hcount : ¬MAX_ATTEMPTS_BEFORE_LOCK ≤ m₂.state.authData.bump.failedAttempts := by
    rw [hstate]
    show ¬MAX_ATTEMPTS_BEFORE_LOCK ≤ wrapI64 (0 + 1)
    decide
  have hleft : activeLockoutAt Sample.crates.rfc3339 m₂.state.authData (Sample.ticking.now 72) =
      some 292 := by
    rw [hstate]
    exact (activeLockoutAt_lockOut ..).trans (by decide +kernel)
  refine ⟨wakeSection Sample.crates true Sample.ticking "guess" m₂, rfl, ?_⟩
  rw [hsecond]
  dsimp only
  rw [if_neg hcount, hlog, htick, hleft]
  rfl

/-- Two workers sleep at once: the first to come back starts the lockout, and
    the second verifies a password under it. -/
theorem rateLimit_two :
    ∃ m', (unlockSystem Sample.crates true Sample.ticking).runFrom (Sample.lockedWorkers 9)
        [.call 0 "wrong", .call 1 "guess", .pass 64, .wake 0, .wake 1] = some m' ∧
      m'.log = [.verified false (some 292), .lockedOut, .verified false none] ∧
      ¬ NoneUnderLockout m' := by
  have hwrong : ∀ given, Sample.keyOf given 1 ≠ Sample.keyOf "secret" 1 →
      Argon2id.verify Sample.argon2 given (Sample.hashOf "secret" 1) = false :=
    fun given h => (Sample.verify_hashOf ..).trans (decide_eq_false h)
  have hasleep : (unlockSystem Sample.crates true Sample.ticking).runFrom (Sample.lockedWorkers 9)
      [.call 0 "wrong", .call 1 "guess", .pass 64] =
        some (Sample.asleep (Sample.hashOf "secret" 1)) := rfl
  obtain ⟨m', hrun, hlog⟩ := Sample.two_wrong (hwrong "wrong" (by decide +kernel))
    (hwrong "guess" (by decide +kernel))
  refine ⟨m', ?_, hlog, fun hnone => ?_⟩
  · rw [← hrun]
    refine (System.runFrom_append _ [_, _, _] _).trans ?_
    rw [hasleep, Option.bind_some]
  · have hunder := hnone false (some 292) (by rw [hlog]; exact List.mem_cons_self)
    cases hunder

end GnDrive.Auth
