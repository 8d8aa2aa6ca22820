/-
  GnDrive.Auth.Service

  `AuthService` (`auth.rs`), operation by operation.  An operation runs with
  the service's lock held, so it is a program on the world that carries the
  locked `State` and may end in an `AuthError`; the state changes made before
  an error stay (`AuthM`).

  `unlock` gives the lock up while it waits for its back-off delay.  Its two
  lock sections are `unlockCheck` and `unlockAfterSleep`, and `unlock` is
  their composition when nothing else runs in between.

  `keyStore` says whether the service was given a key store.
-/

import GnDrive.Auth.Data

namespace GnDrive.Auth

open Argon2id (Argon2Error)
open Crypto (CryptoError)

/-- Operations of the service. -/
abbrev AuthM := ExceptT AuthError (StateT State Io)

namespace AuthM

/-- A call that cannot fail, or whose failure is looked at by the caller. -/
def io {α : Type} (p : Io α) : AuthM α := ExceptT.lift (liftM p)

/-- `p?`. -/
def attempt {α : Type} (p : ExceptT AuthError Io α) : AuthM α := do
  match ← io p.run with
  | .ok a => pure a
  | .error e => throw e

/-- `r?` for a result of `argon2id`. -/
def argon {α : Type} (r : Except Argon2Error α) : AuthM α :=
  match r with
  | .ok a => pure a
  | .error e => throw (.argon2 e)

/-- `if c { return Err(e) }`. -/
def reject (c : Bool) (e : AuthError) : AuthM Unit := if c then throw e else pure ()

end AuthM

open AuthM

/-- `p?` in a function that returns an `AuthError`. -/
def tryCrypto {α : Type} (p : ExceptT CryptoError Io α) : ExceptT AuthError Io α :=
  ExceptT.mk do return (← p.run).mapError .crypto

def plainPath (f : ConfigFile) : Path := .file (.plain f)
def encPath (f : ConfigFile) : Path := .file (.enc f)
def authFile : Path := .file .authJson

variable (X : Crates) (keyStore : Bool)

-- ============================================================================
-- Internal
-- ============================================================================

def saveAuthData (data : AuthData) : ExceptT AuthError Io Unit := do
  let json := X.json.toVecPretty data
  Crypto.tryIo .io createDirAll
  Crypto.tryIo .io (Crypto.writeAtomic0600 .authJson json)

/-- Any config files still encrypted on disk (.enc)? -/
def hasEncryptedConfig : List ConfigFile → Io Bool
  | [] => return false
  | name :: names => do
      if ← pathExists (encPath name) then return true
      else hasEncryptedConfig names

/-- One round of `recover_from_crash`. -/
def recoverFile (enabled : Bool) (name : ConfigFile) : Io Unit := do
  if ← pathExists (plainPath name) then
    if ← pathExists (encPath name) then
      if enabled then
        removeFile (plainPath name)
        removeFile (.wal name)
        removeFile (.shm name)
      else
        removeFile (encPath name)

/-- If both plaintext and .enc exist: auth enabled → keep .enc; disabled →
    keep plaintext. -/
def recoverFromCrash (st : State) : Io Unit :=
  CONFIG_FILES.forM (recoverFile st.authData.enabled)

/-- One round of `encrypt_config_files`. -/
def encryptConfigFile (key : Bytes) (name : ConfigFile) : ExceptT AuthError Io Unit := do
  if ← ExceptT.lift (pathExists (plainPath name)) then
    tryCrypto (Crypto.encryptFile X.aead (.plain name) (.enc name) key)
    ExceptT.lift do
      removeFile (plainPath name)
      removeFile (.wal name)
      removeFile (.shm name)

def encryptConfigFiles (key : Bytes) : ExceptT AuthError Io Unit :=
  CONFIG_FILES.forM (encryptConfigFile X key)

/-- One round of `decrypt_config_files`. -/
def decryptConfigFile (key : Bytes) (name : ConfigFile) : ExceptT AuthError Io Unit := do
  if ← ExceptT.lift (pathExists (encPath name)) then
    tryCrypto (Crypto.decryptFile X.aead (.enc name) (.plain name) key)
    ExceptT.lift (removeFile (encPath name))

def decryptConfigFiles (key : Bytes) : ExceptT AuthError Io Unit :=
  CONFIG_FILES.forM (decryptConfigFile X key)

def cleanupEncryptedFiles : Io Unit := CONFIG_FILES.forM fun name => removeFile (encPath name)

def rememberKey (key : Bytes) : Io Unit := do
  if keyStore then
    let _ ← ksSet key

def forgetRememberedKey : ExceptT AuthError Io Unit :=
  if keyStore then ExceptT.mk do return (← ksDelete).mapError .keyStore
  else pure ()

def resumeRememberedKey (st : State) : Io State := do
  if keyStore then
    if ← hasEncryptedConfig CONFIG_FILES then
      match ← ksGet with
      | .error _ => return st
      | .ok key =>
          if key.length ≠ Argon2id.KEY_LENGTH then
            let _ ← ksDelete
            return st
          else
            match ← (decryptConfigFiles X key).run with
            | .error _ =>
                let _ ← ksDelete
                return st
            | .ok () => return { st with encKey := some key, unlocked := true, lockedAt := none }
    else return st
  else return st

-- ============================================================================
-- Operations
-- ============================================================================

/-- A process start. -/
def new : Io State := do
  let bytes ← readFile authFile
  let st : State := ⟨false, none, readAs X bytes.toOption, none⟩
  recoverFromCrash st
  if !st.authData.enabled then return { st with unlocked := true }
  else resumeRememberedKey X keyStore st

/-- Marks the app unlocked without a decryption key. -/
def openPlaintextSession : AuthM Unit := do
  let st ← get
  if !st.authData.enabled || st.unlocked then set { st with unlocked := true }
  else
    reject (← io (hasEncryptedConfig CONFIG_FILES)) .notUnlocked
    set { st with unlocked := true }

def setupPassword (password : String) : AuthM Unit := do
  reject (← get).authData.enabled .alreadySetup
  reject (password.length < 4) .passwordTooShort
  let salt ← io (randFill Argon2id.SALT_LENGTH)
  let hash ← argon (Argon2id.createHash X.argon2 password salt)
  let salt ← argon (Argon2id.extractSalt hash)
  let key ← argon (Argon2id.deriveKey X.argon2 password salt)
  modify fun st => { st with
    authData := ⟨st.authData.appSettings, true, 0, "", hash⟩ }
  attempt (saveAuthData X (← get).authData)
  io (rememberKey keyStore key)
  modify fun st => { st with encKey := some key, unlocked := true }

/-- How the first lock section of `unlock` ends. -/
inductive Gate where
  | alreadyUnlocked
  | delay (secs : Nat)
  | verify
deriving DecidableEq, Repr

/-- `unlock` up to the point where it may give up the lock to sleep. -/
def unlockCheck : AuthM Gate := do
  let st ← get
  reject (!st.authData.enabled) .notSetup
  if st.unlocked then return .alreadyUnlocked
  else
    match ← io (activeLockoutRemaining X.rfc3339 st.authData) with
    | some remaining => throw (.locked remaining)
    | none =>
        set { st with authData := { st.authData with lockoutUntil := "" } }
        match backoff st.authData.failedAttempts with
        | some secs => return .delay secs
        | none => return .verify

/-- The tenth failed attempt starts a lockout. -/
def checkAttempts : AuthM Unit := do
  if MAX_ATTEMPTS_BEFORE_LOCK ≤ (← get).authData.failedAttempts then
    let now ← io utcNow
    modify fun st => { st with authData := st.authData.lockOut X.rfc3339 now }

/-- A failed attempt: count it, and save the count if that works. -/
def recordFailure : AuthM Unit := do
  modify fun st => { st with authData := st.authData.bump }
  checkAttempts X
  let _ ← io (saveAuthData X (← get).authData).run
  throw .invalidPassword

/-- A password that was accepted: decrypt, and take the key. -/
def openWith (password : String) : AuthM Unit := do
  let salt ← argon (Argon2id.extractSalt (← get).authData.passwordHash)
  let key ← argon (Argon2id.deriveKey X.argon2 password salt)
  attempt (decryptConfigFiles X key)
  modify fun st => { st with
    authData := { st.authData with failedAttempts := 0, lockoutUntil := "" } }
  let _ ← io (saveAuthData X (← get).authData).run
  io (rememberKey keyStore key)
  modify fun st => { st with encKey := some key, unlocked := true, lockedAt := none }

/-- `unlock` from the password check on. -/
def unlockVerify (password : String) : AuthM Unit := do
  if !Argon2id.verify X.argon2 password (← get).authData.passwordHash then recordFailure X
  else openWith X keyStore password

/-- `unlock` once it has the lock back after its delay. -/
def unlockAfterSleep (password : String) : AuthM Unit := do
  if (← get).unlocked then return ()
  else unlockVerify X keyStore password

def unlock (password : String) : AuthM Unit := do
  match ← unlockCheck X with
  | .alreadyUnlocked => return ()
  | .delay secs =>
      io (sleep secs)
      unlockAfterSleep X keyStore password
  | .verify => unlockVerify X keyStore password

def lockInternal : AuthM Unit := do
  match (← get).encKey with
  | none => return ()
  | some key =>
      modify fun st => { st with encKey := none }
      let _ ← io (encryptConfigFiles X key).run
      let now ← io utcNow
      modify fun st => { st with unlocked := false, lockedAt := some now }

/-- Re-encrypt files before shutdown but keep the remembered key. -/
def suspend : AuthM Unit := do
  if (← get).unlocked then lockInternal X

/-- Re-encrypt files, remove remembered key, zero the key: what `suspend` does
    under the lock, then the key. -/
def lock : AuthM Unit := do
  suspend X
  attempt (forgetRememberedKey keyStore)

/-- `change_password` once the files are encrypted under the new key. -/
def commitChange (newHash : String) (newKey : Bytes) : AuthM Unit := do
  let oldHash := (← get).authData.passwordHash
  modify fun st => { st with authData := { st.authData with passwordHash := newHash } }
  match ← io (saveAuthData X (← get).authData).run with
  | .error e =>
      modify fun st => { st with authData := { st.authData with passwordHash := oldHash } }
      let _ ← io (decryptConfigFiles X newKey).run
      throw e
  | .ok () =>
      attempt (decryptConfigFiles X newKey)
      modify fun st => { st with encKey := some newKey }

/-- `change_password` from the encryption on. -/
def reencrypt (newHash : String) (newKey : Bytes) : AuthM Unit := do
  match ← io (encryptConfigFiles X newKey).run with
  | .error e =>
      -- Recover: decrypt with new key.
      match ← io (decryptConfigFiles X newKey).run with
      | .ok () => throw e
      | .error _ =>
          modify fun st => { st with encKey := none, unlocked := false }
          throw e
  | .ok () => commitChange X newHash newKey

def changePassword (old new : String) : AuthM Unit := do
  let st ← get
  reject (!st.authData.enabled) .notSetup
  reject (!st.unlocked) .notUnlocked
  reject (!Argon2id.verify X.argon2 old st.authData.passwordHash) .invalidPassword
  reject (new.length < 4) .passwordTooShort
  attempt (forgetRememberedKey keyStore)
  let salt ← io (randFill Argon2id.SALT_LENGTH)
  let newHash ← argon (Argon2id.createHash X.argon2 new salt)
  let newSalt ← argon (Argon2id.extractSalt newHash)
  let newKey ← argon (Argon2id.deriveKey X.argon2 new newSalt)
  reencrypt X newHash newKey

def removePassword (password : String) : AuthM Unit := do
  let st ← get
  reject (!st.authData.enabled) .notSetup
  reject (!st.unlocked) .notUnlocked
  reject (!Argon2id.verify X.argon2 password st.authData.passwordHash) .invalidPassword
  io cleanupEncryptedFiles
  io (removeFile authFile)
  set (⟨true, none, .default, st.lockedAt⟩ : State)

def setAppSettings (s : AppSettings) : AuthM Unit := do
  modify fun st => { st with authData := { st.authData with appSettings := s } }
  attempt (saveAuthData X (← get).authData)

end GnDrive.Auth
