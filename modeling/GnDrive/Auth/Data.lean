/-
  GnDrive.Auth.Data

  The data of the auth service (`auth.rs`): what `auth.json` holds, the state
  behind the lock, the errors, and the lockout arithmetic.
-/

import GnDrive.Argon2id
import GnDrive.Crypto

namespace GnDrive.Auth

open Argon2id (Argon2Error)
open Crypto (CryptoError)

def MAX_ATTEMPTS_BEFORE_DELAY : Int := 3
def MAX_ATTEMPTS_BEFORE_LOCK : Int := 10
def LOCKOUT_DURATION_SECS : Int := 5 * 60

/-- Nanoseconds in a second. -/
def SECOND : Int := 10 ^ 9

inductive AuthError where
  | notSetup
  | alreadyUnlocked
  | notUnlocked
  | invalidPassword
  | locked (retryAfterSecs : Int)
  | alreadySetup
  | passwordTooShort
  | crypto (e : CryptoError)
  | argon2 (e : Argon2Error)
  | keyStore (e : SecureStoreError)
  | io (e : IoError)
deriving DecidableEq, Repr

structure AppSettings where
  debugMode : Bool
  minimizeToTray : Bool
  notificationsEnabled : Bool
  startAtLogin : Bool
deriving DecidableEq, Repr

def AppSettings.default : AppSettings := ⟨false, false, false, false⟩

/-- The content of `auth.json`. -/
structure AuthData where
  appSettings : AppSettings
  enabled : Bool
  failedAttempts : Int
  lockoutUntil : String
  passwordHash : String
deriving DecidableEq, Repr

def AuthData.default : AuthData := ⟨.default, false, 0, "", ""⟩

/-- What the service keeps in memory, behind its lock. -/
structure State where
  unlocked : Bool
  encKey : Option Bytes
  authData : AuthData
  lockedAt : Option Time
deriving DecidableEq, Repr

/-- The crates the service is built on. -/
structure Crates where
  argon2 : Argon2
  aead : Aead
  json : SerdeJson AuthData
  rfc3339 : Rfc3339

-- ============================================================================
-- Lockout arithmetic
-- ============================================================================

/-- An `i64` sum. -/
def wrapI64 (x : Int) : Int := x.bmod (2 ^ 64)

/-- Seconds from `now` until `t`, rounded up; `none` when `t` is past. -/
def remainingUntil (t now : Time) : Option Int :=
  let ms := (t - now).tdiv (10 ^ 6)
  if ms ≤ 0 then none else some ((ms + 999) / 1000)

/-- `active_lockout_remaining` at the time `now`. -/
def activeLockoutAt (r : Rfc3339) (d : AuthData) (now : Time) : Option Int :=
  if d.lockoutUntil = "" then none
  else match r.parse d.lockoutUntil with
    | none => none
    | some t => remainingUntil t now

/-- `Some(ceil seconds remaining)` if `lockout_until` parses and is in the
    future. -/
def activeLockoutRemaining (r : Rfc3339) (d : AuthData) : Io (Option Int) :=
  if d.lockoutUntil = "" then return none
  else match r.parse d.lockoutUntil with
    | none => return none
    | some t => return remainingUntil t (← utcNow)

/-- The delay before the next attempt is checked, in seconds. -/
def backoff (failedAttempts : Int) : Option Nat :=
  if MAX_ATTEMPTS_BEFORE_DELAY ≤ failedAttempts ∧ failedAttempts < MAX_ATTEMPTS_BEFORE_LOCK then
    some (2 ^ (failedAttempts - MAX_ATTEMPTS_BEFORE_DELAY).toNat)
  else none

/-- `failed_attempts += 1`. -/
def AuthData.bump (d : AuthData) : AuthData :=
  { d with failedAttempts := wrapI64 (d.failedAttempts + 1) }

/-- The lockout that starts at `now`. -/
def AuthData.lockOut (r : Rfc3339) (d : AuthData) (now : Time) : AuthData :=
  { d with
    lockoutUntil := r.format (now + LOCKOUT_DURATION_SECS * SECOND)
    failedAttempts := 0 }

theorem activeLockoutAt_of_empty {r : Rfc3339} {d : AuthData} (h : d.lockoutUntil = "")
    (now : Time) : activeLockoutAt r d now = none := if_pos h

theorem activeLockoutAt_lockOut (r : Rfc3339) (d : AuthData) (now t : Time) :
    activeLockoutAt r (d.lockOut r now) t =
      let u := now + LOCKOUT_DURATION_SECS * SECOND
      remainingUntil (u - u % 10 ^ 9) t := by
  have hne : (d.lockOut r now).lockoutUntil ≠ "" := r.format_ne_empty _
  unfold activeLockoutAt
  rw [if_neg hne]
  unfold AuthData.lockOut
  rw [r.parse_format]

/-- The lockout is read off the clock at the time of the call. -/
theorem spec_activeLockoutRemaining {env : Env} {I : View → Prop} {v : View} {r : Rfc3339}
    {d : AuthData} {Q : Option Int → View → Prop} (hI : I v)
    (hQ : ∀ k, Q (activeLockoutAt r d (env.now k)) v) :
    Spec env I (activeLockoutRemaining r d) Q v := by
  unfold activeLockoutAt at hQ
  unfold activeLockoutRemaining
  split
  · rename_i h
    exact spec_pure hI (by simpa [h] using hQ 0)
  · rename_i h
    split
    · rename_i hp
      exact spec_pure hI (by simpa [h, hp] using hQ 0)
    · rename_i t hp
      exact spec_bind (spec_utcNow hI fun k => spec_pure hI (by simpa [h, hp] using hQ k))

/-! ## What a start reads -/

/-- The auth data of a process that reads `bytes` from `auth.json`. -/
def readAs (X : Crates) (bytes : Option Bytes) : AuthData :=
  (bytes.bind X.json.fromSlice).getD .default

theorem readAs_toVecPretty (X : Crates) (d : AuthData) :
    readAs X (some (X.json.toVecPretty d)) = d := by
  simp [readAs, X.json.fromSlice_toVecPretty]

end GnDrive.Auth
