/-
  GnDrive.Auth.Accepted

  What the operations come to once the key behind a password is known.

  A hash that the service stored reads back as the salt and the key it was made
  of, so that a run from there on does not look at its text any more.
-/

import GnDrive.Auth.Instance
import GnDrive.Auth.Logic

namespace GnDrive.Auth

open AuthM

section

variable (X : Crates) (keyStore : Bool)

/-- `setup_password` with the hash and the key. -/
def setupWith (hash : String) (key : Bytes) : AuthM Unit := do
  modify fun st => { st with authData := ⟨st.authData.appSettings, true, 0, "", hash⟩ }
  attempt (saveAuthData X (← get).authData)
  io (rememberKey keyStore key)
  modify fun st => { st with encKey := some key, unlocked := true }

/-- `unlock` with the key. -/
def openKey (key : Bytes) : AuthM Unit := do
  attempt (decryptConfigFiles X key)
  modify fun st => { st with
    authData := { st.authData with failedAttempts := 0, lockoutUntil := "" } }
  let _ ← io (saveAuthData X (← get).authData).run
  io (rememberKey keyStore key)
  modify fun st => { st with encKey := some key, unlocked := true, lockedAt := none }

/-- `remove_password` from the password check on. -/
def removeAll (lockedAt : Option Time) : AuthM Unit := do
  io cleanupEncryptedFiles
  io (removeFile authFile)
  set (⟨true, none, .default, lockedAt⟩ : State)

/-- `change_password` from the password check on. -/
def changeTo (new : String) : AuthM Unit := do
  reject (new.length < 4) .passwordTooShort
  attempt (forgetRememberedKey keyStore)
  let salt ← io (randFill Argon2id.SALT_LENGTH)
  let newKey ← argon (Argon2id.deriveKey X.argon2 new salt)
  reencrypt X (Argon2id.encodeHash salt newKey) newKey

variable {X keyStore} {s : State} {password new : String} {salt key : Bytes}

theorem argon_ok {α β : Type} (a : α) (f : α → AuthM β) : (argon (.ok a) >>= f) = f a := rfl

theorem argon_error {α β : Type} (e : Argon2id.Argon2Error) (f : α → AuthM β) :
    (argon (.error e) >>= f) = throw (.argon2 e) := rfl

/-- The hash, the salt read back from it and the key are all made of the salt. -/
theorem argon_hashed {α : Type} (f : String → Bytes → AuthM α) :
    (do let hash ← argon (Argon2id.createHash X.argon2 password salt)
        let salt ← argon (Argon2id.extractSalt hash)
        let key ← argon (Argon2id.deriveKey X.argon2 password salt)
        f hash key) =
      (do let key ← argon (Argon2id.deriveKey X.argon2 password salt)
          f (Argon2id.encodeHash salt key) key) := by
  rw [Argon2id.createHash_eq]
  cases hkey : Argon2id.deriveKey X.argon2 password salt with
  | error e => simp only [Except.map, argon_error]
  | ok key => simp only [Except.map, argon_ok, Argon2id.extractSalt_encodeHash, hkey]

theorem setupPassword_eq (X : Crates) (keyStore : Bool) (password : String) :
    setupPassword X keyStore password = (do
      reject (← get).authData.enabled .alreadySetup
      reject (password.length < 4) .passwordTooShort
      let salt ← io (randFill Argon2id.SALT_LENGTH)
      let key ← argon (Argon2id.deriveKey X.argon2 password salt)
      setupWith X keyStore (Argon2id.encodeHash salt key) key) := by
  unfold setupPassword
  simp only [argon_hashed]
  rfl

theorem changePassword_eq (X : Crates) (keyStore : Bool) (old new : String) :
    changePassword X keyStore old new = (do
      let st ← get
      reject (!st.authData.enabled) .notSetup
      reject (!st.unlocked) .notUnlocked
      reject (!Argon2id.verify X.argon2 old st.authData.passwordHash) .invalidPassword
      changeTo X keyStore new) := by
  unfold changePassword changeTo
  simp only [argon_hashed]

/-- The password of an open service is checked. -/
theorem changePassword_checked (hen : s.authData.enabled = true) (hu : s.unlocked = true)
    (h : Argon2id.StoredKey X.argon2 s.authData.passwordHash salt key)
    (hkey : Argon2id.deriveKey X.argon2 password salt = .ok key) :
    (changePassword X keyStore password new).run.run s = (changeTo X keyStore new).run.run s := by
  rw [changePassword_eq]
  change (do
    reject (!s.authData.enabled) .notSetup
    reject (!s.unlocked) .notUnlocked
    reject (!Argon2id.verify X.argon2 password s.authData.passwordHash) .invalidPassword
    changeTo X keyStore new : AuthM Unit).run.run s = _
  rw [hen, hu, h.verify_iff.mpr hkey]
  rfl

theorem removePassword_checked (hen : s.authData.enabled = true) (hu : s.unlocked = true)
    (h : Argon2id.StoredKey X.argon2 s.authData.passwordHash salt key)
    (hkey : Argon2id.deriveKey X.argon2 password salt = .ok key) :
    (removePassword X password).run.run s = (removeAll s.lockedAt).run.run s := by
  change (do
    reject (!s.authData.enabled) .notSetup
    reject (!s.unlocked) .notUnlocked
    reject (!Argon2id.verify X.argon2 password s.authData.passwordHash) .invalidPassword
    removeAll s.lockedAt : AuthM Unit).run.run s = _
  rw [hen, hu, h.verify_iff.mpr hkey]
  rfl

theorem openWith_checked (h : Argon2id.StoredKey X.argon2 s.authData.passwordHash salt key)
    (hkey : Argon2id.deriveKey X.argon2 password salt = .ok key) :
    (openWith X keyStore password).run.run s = (openKey X keyStore key).run.run s := by
  change (do
    let salt ← argon (Argon2id.extractSalt s.authData.passwordHash)
    let key ← argon (Argon2id.deriveKey X.argon2 password salt)
    openKey X keyStore key : AuthM Unit).run.run s = _
  rw [h.extractSalt_eq, argon_ok, hkey, argon_ok]

/-- The password of a locked service is checked. -/
theorem unlockVerify_checked (h : Argon2id.StoredKey X.argon2 s.authData.passwordHash salt key) :
    (unlockVerify X keyStore password).run.run s =
      if Argon2id.deriveKey X.argon2 password salt = .ok key then (openKey X keyStore key).run.run s
      else (recordFailure X).run.run s := by
  change (if !Argon2id.verify X.argon2 password s.authData.passwordHash then
    recordFailure X else openWith X keyStore password : AuthM Unit).run.run s = _
  by_cases hkey : Argon2id.deriveKey X.argon2 password salt = .ok key
  · rw [h.verify_iff.mpr hkey, if_pos hkey]
    exact openWith_checked h hkey
  · rw [Bool.eq_false_iff.mpr (mt h.verify_iff.mp hkey), if_neg hkey]
    rfl

end

namespace Sample

variable {X : Crates} {keyStore : Bool} {s : State} {password : String}

/-- A setup draws its salt first. -/
theorem setupPassword_drawn (hX : X.argon2 = argon2) (hen : s.authData.enabled = false)
    (hlen : 4 ≤ password.length) (b : UInt8) (w : World) :
    runAuth (env b) (setupPassword X keyStore password) s w =
      runAuth (env b) (setupWith X keyStore (hashOf password b) (keyOf password b)) s w.tock := by
  have hlong : decide (password.length < 4) = false := decide_eq_false (Nat.not_lt_of_le hlen)
  rw [setupPassword_eq, hX]
  change Prog.run (exec (env b)) ((do
    reject s.authData.enabled .alreadySetup
    reject (password.length < 4) .passwordTooShort
    let salt ← io (randFill Argon2id.SALT_LENGTH)
    let key ← argon (Argon2id.deriveKey argon2 password salt)
    setupWith X keyStore (Argon2id.encodeHash salt key) key : AuthM Unit).run.run s) w = _
  rw [hen, hlong]
  rfl

end Sample

end GnDrive.Auth
