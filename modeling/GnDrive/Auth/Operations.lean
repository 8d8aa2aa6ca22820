/-
  GnDrive.Auth.Operations

  One rule for each operation of the auth service: what it can do to the
  state and to the disk, with every early return and every call that can
  fail.  The claims about the service are proved from these rules; none of
  them opens an operation again.

  `auth_` rules speak of operations (`ASpec`), `spec_` rules of what they
  call (`Spec`).
-/

import GnDrive.Auth.ConfigFiles

namespace GnDrive.Auth

open AuthM
open Argon2id (StoredKey)
open Crypto (WritesTo spec_tryIo spec_writeAtomic0600)
open Relation (ReflTransGen)

variable {env : Env} {X : Crates} {keyStore : Bool} {I : View → Prop} {s : State} {v : View}

-- ============================================================================
-- auth.json and the key store
-- ============================================================================

/-- The commands by which saving `auth.json` can fail. -/
def SaveCmd (c : Cmd) : Prop := c = .createDirAll ∨ WritesTo .authJson c

/-- `auth.json` replaced by `d`. -/
def saved (X : Crates) (v : View) (d : AuthData) : View :=
  v.put .authJson (X.json.toVecPretty d)

theorem spec_saveAuthData {d : AuthData} {Q : Except AuthError Unit → View → Prop} (hI : I v)
    (hI' : I (saved X v d)) (hok : Q (.ok ()) (saved X v d))
    (hfail : Faulty env SaveCmd → ∀ e, Q (.error e) v) :
    Spec env I (saveAuthData X d).run Q v := by
  refine spec_except_bind (spec_tryIo (spec_createDirAll hI ?_ fun k hk =>
    hfail ⟨k, _, hk, .inl rfl⟩ _))
  exact spec_tryIo (spec_writeAtomic0600 hI hI' hok fun k c hk hc e =>
    hfail ⟨k, c, hk, .inr hc⟩ _)

theorem spec_rememberKey {key : Bytes} {Q : Unit → View → Prop} (hI : I v)
    (hskip : (keyStore = true → Faulty env (· = .ksSet key)) → Q () v)
    (hset : keyStore = true → I { v with keychain := some key } ∧
      Q () { v with keychain := some key }) :
    Spec env I (rememberKey keyStore key) Q v := by
  cases keyStore with
  | false => exact spec_pure hI (hskip nofun)
  | true =>
    obtain ⟨hI', hQ⟩ := hset rfl
    exact spec_bind (spec_ksSet hI hI' (spec_pure hI' hQ) fun k hk =>
      spec_pure hI (hskip fun _ => ⟨k, _, hk, rfl⟩))

theorem spec_forgetRememberedKey {Q : Except AuthError Unit → View → Prop} (hI : I v)
    (hnone : keyStore = false → Q (.ok ()) v)
    (hdel : keyStore = true → I { v with keychain := none } ∧
      Q (.ok ()) { v with keychain := none })
    (hfail : ∀ e, Q (.error e) v) :
    Spec env I (forgetRememberedKey keyStore).run Q v := by
  cases keyStore with
  | false => exact spec_pure hI (hnone rfl)
  | true =>
    obtain ⟨hI', hQ⟩ := hdel rfl
    exact spec_bind (spec_ksDelete hI hI' (spec_pure hI' hQ) fun k hk =>
      spec_pure hI (hfail _))

theorem spec_hasEncryptedConfig {Q : Bool → View → Prop} (hI : I v)
    (htrue : (∃ f, (v.files (.enc f)).isSome) → Q true v)
    (hfalse : ((∀ f, v.files (.enc f) = none) ∨
      Faulty env fun c => ∃ f, c = .pathExists (.file (.enc f))) → Q false v) :
    Spec env I (hasEncryptedConfig CONFIG_FILES) Q v := by
  suffices h : ∀ fs : List ConfigFile,
      ((∀ f, f ∉ fs → v.files (.enc f) = none) ∨
        Faulty env fun c => ∃ f, c = .pathExists (.file (.enc f))) →
      Spec env I (hasEncryptedConfig fs) Q v from
    h CONFIG_FILES (.inl fun f hf => absurd (mem_CONFIG_FILES f) hf)
  intro fs
  induction fs with
  | nil => exact fun h => spec_pure hI (hfalse (h.imp_left fun h f => h f (by simp)))
  | cons f fs ih =>
    intro h
    refine spec_bind (spec_pathExists hI ?_ fun k hk => ih (.inr ⟨k, _, hk, f, rfl⟩))
    cases henc : v.files (.enc f) with
    | some blob => exact spec_pure hI (htrue ⟨f, by simp [henc]⟩)
    | none =>
      refine ih (h.imp_left fun h g hg => ?_)
      by_cases hgf : g = f
      · exact hgf ▸ henc
      · exact h g (by simp [hgf, hg])

-- ============================================================================
-- A start
-- ============================================================================

/-- The key store entry is deleted, or that fails. -/
theorem spec_deleteAndStay {Q : State → View → Prop} (hI : I v)
    (hI' : I { v with keychain := none }) (hQ : Q s v) (hQ' : Q s { v with keychain := none }) :
    Spec env I (do let _ ← ksDelete; return s) Q v :=
  spec_bind (spec_ksDelete hI hI' (spec_pure hI' hQ') fun _ _ => spec_pure hI hQ)

/-- Only with a key store, something to decrypt and a key to do it with is
    there anything to resume. -/
theorem spec_resumeRememberedKey {Q : State → View → Prop} (hI : I v) (hstay : Q s v)
    (htry : keyStore = true → (∃ f, (v.files (.enc f)).isSome) → ∀ key, v.keychain = some key →
      (∀ v', ReflTransGen (DecStep X.aead key) v v' → I v') ∧
      (∀ v', (v' = v ∨ ∃ e, ReflTransGen (DecStep X.aead key) v v' ∧
          DecPost env X.aead key v (.error e) v') →
        I { v' with keychain := none } ∧ Q s v' ∧ Q s { v' with keychain := none }) ∧
      ∀ v', key.length = Argon2id.KEY_LENGTH → ReflTransGen (DecStep X.aead key) v v' →
        DecPost env X.aead key v (.ok ()) v' →
        Q { s with encKey := some key, unlocked := true, lockedAt := none } v') :
    Spec env I (resumeRememberedKey X keyStore s) Q v := by
  cases keyStore with
  | false => exact spec_pure hI hstay
  | true =>
  refine spec_bind (spec_hasEncryptedConfig hI (fun henc => ?_) fun _ => spec_pure hI hstay)
  refine spec_bind (spec_ksGet hI (fun key hkey => ?_) fun _ _ => spec_pure hI hstay)
  obtain ⟨hsteps, hforget, hopen⟩ := htry rfl henc key hkey
  show Spec env I (if key.length ≠ Argon2id.KEY_LENGTH then _ else _) Q v
  by_cases hlen : key.length = Argon2id.KEY_LENGTH
  · rw [if_neg (not_not_intro hlen)]
    refine spec_bind (spec_mono hsteps ?_ spec_decryptConfigFiles)
    intro r v' hs hpost
    have hI' := hsteps v' hs
    cases r with
    | ok u => exact spec_pure hI' (hopen v' hlen hs hpost)
    | error e =>
      obtain ⟨hIdel, hQ, hQdel⟩ := hforget v' (.inr ⟨e, hs, hpost⟩)
      exact spec_deleteAndStay hI' hIdel hQ hQdel
  · rw [if_pos hlen]
    obtain ⟨hIdel, hQ, hQdel⟩ := hforget v (.inl rfl)
    exact spec_deleteAndStay hI hIdel hQ hQdel

/-- A start reads `auth.json`, recovers, and is open when no password is
    configured; otherwise it may resume. -/
theorem spec_new {Q : State → View → Prop} (hI : I v)
    (hread : ∀ d, d = readAs X (v.files .authJson) ∨
        Faulty env (· = .read (.file .authJson)) ∧ d = .default →
      (∀ v', ReflTransGen (RecStep d.enabled) v v' → I v') ∧
      ∀ v', ReflTransGen (RecStep d.enabled) v v' → (∀ f, RecDone env d.enabled v v' f) →
        (d.enabled = false → Q ⟨true, none, d, none⟩ v') ∧
        (d.enabled = true →
          Spec env I (resumeRememberedKey X keyStore ⟨false, none, d, none⟩) Q v')) :
    Spec env I (new X keyStore) Q v := by
  have hrest : ∀ bytes : Except IoError Bytes,
      (readAs X bytes.toOption = readAs X (v.files .authJson) ∨
        Faulty env (· = .read (.file .authJson)) ∧ readAs X bytes.toOption = .default) →
      Spec env I (do
        let st : State := ⟨false, none, readAs X bytes.toOption, none⟩
        recoverFromCrash st
        if !st.authData.enabled then return { st with unlocked := true }
        else resumeRememberedKey X keyStore st) Q v := by
    intro bytes hb
    obtain ⟨hsteps, hend⟩ := hread _ hb
    refine spec_bind (spec_mono hsteps ?_ (spec_recoverFromCrash
      ⟨false, none, readAs X bytes.toOption, none⟩))
    rintro _ v' hs ⟨-, hdone⟩
    obtain ⟨hopen, hlocked⟩ := hend v' hs hdone
    cases he : (readAs X bytes.toOption).enabled with
    | false =>
      simp only [Bool.not_false, if_true]
      exact spec_pure (hsteps v' hs) (hopen he)
    | true =>
      simp only [Bool.not_true, Bool.false_eq_true, if_false]
      exact hlocked he
  refine spec_bind (spec_readFile hI ?_ ?_ ?_)
  · intro data hdata
    exact hrest (.ok data) (.inl (by rw [hdata]; rfl))
  · intro hnone
    exact hrest (.error .notFound) (.inl (by rw [hnone]; rfl))
  · intro k hk
    exact hrest (.error .other) (.inr ⟨⟨k, _, hk, rfl⟩, rfl⟩)

-- ============================================================================
-- Setup and unlock
-- ============================================================================

/-- The disk after an operation has tried to save `d` and to remember `key`. -/
def Recorded (env : Env) (X : Crates) (keyStore : Bool) (d : AuthData) (key : Bytes)
    (v v' : View) : Prop :=
  ∃ v₁, (v₁ = saved X v d ∨ v₁ = v ∧ Faulty env SaveCmd) ∧
    (v' = { v₁ with keychain := some key } ∧ keyStore = true ∨
      v' = v₁ ∧ (keyStore = true → Faulty env (· = .ksSet key)))

theorem auth_setupPassword {password : String} {Q : Except AuthError Unit → State → View → Prop}
    (hI : I v) (herr : ∀ e, Q (.error e) s v)
    (hset : s.authData.enabled = false → ∀ hash salt key, StoredKey X.argon2 hash salt key →
      Argon2id.deriveKey X.argon2 password salt = .ok key → ∀ d,
      d = ⟨s.authData.appSettings, true, 0, "", hash⟩ →
      I (saved X v d) ∧
      (Faulty env SaveCmd → ∀ e, Q (.error e) { s with authData := d } v) ∧
      (keyStore = true → I { saved X v d with keychain := some key } ∧
        Q (.ok ()) { s with authData := d, encKey := some key, unlocked := true }
          { saved X v d with keychain := some key }) ∧
      ((keyStore = true → Faulty env (· = .ksSet key)) →
        Q (.ok ()) { s with authData := d, encKey := some key, unlocked := true } (saved X v d))) :
    ASpec env I (setupPassword X keyStore password) Q s v := by
  refine auth_bind (auth_get hI (auth_bind (auth_reject hI (fun hdis => ?_) fun _ => herr _)))
  refine auth_bind (auth_reject hI (fun _ => ?_) fun _ => herr _)
  refine auth_bind (auth_io (spec_randFill hI fun k => ?_))
  generalize env.bytes k Argon2id.SALT_LENGTH = salt
  refine auth_bind (auth_argon hI (fun hash hhash => ?_) fun _ _ => herr _)
  obtain ⟨key, hkey, hstored⟩ := Argon2id.createHash_storedKey hhash
  refine auth_bind (auth_argon hI (fun salt' hsalt => ?_) fun _ _ => herr _)
  obtain rfl : salt = salt' := Except.ok.inj (hstored.extractSalt_eq.symm.trans hsalt)
  refine auth_bind (auth_argon hI (fun key' hkey' => ?_) fun _ _ => herr _)
  obtain rfl : key = key' := Except.ok.inj (hkey.symm.trans hkey')
  obtain ⟨hI₁, hfail, hks, hnoks⟩ := hset hdis hash salt key hstored hkey _ rfl
  refine auth_bind (auth_modify hI (auth_bind (auth_get hI (auth_bind (auth_attempt
    (spec_saveAuthData hI hI₁ ?_ hfail))))))
  refine auth_bind (auth_io (spec_rememberKey hI₁ (fun h => ?_) fun h => ?_))
  · exact auth_modify hI₁ (hnoks h)
  · exact ⟨(hks h).1, auth_modify (hks h).1 (hks h).2⟩

theorem auth_openPlaintextSession {Q : Except AuthError Unit → State → View → Prop} (hI : I v)
    (herr : Q (.error .notUnlocked) s v) (hopen : Q (.ok ()) { s with unlocked := true } v) :
    ASpec env I openPlaintextSession Q s v := by
  refine auth_bind (auth_get hI ?_)
  show ASpec env I (if (!s.authData.enabled || s.unlocked) = true then _ else _) Q s v
  split
  · exact auth_set hI hopen
  · have hrest : ∀ there, ASpec env I (do
        reject there .notUnlocked
        set { s with unlocked := true }) Q s v := fun there =>
      auth_bind (auth_reject hI (fun _ => auth_set hI hopen) fun _ => herr)
    exact auth_bind (auth_io (spec_hasEncryptedConfig hI (fun _ => hrest true)
      fun _ => hrest false))

/-- `lockout_until.clear()`. -/
def AuthData.clearLockout (d : AuthData) : AuthData := { d with lockoutUntil := "" }

/-- The auth data after a successful unlock. -/
def AuthData.reset (d : AuthData) : AuthData := { d with failedAttempts := 0, lockoutUntil := "" }

theorem auth_unlockCheck {Q : Except AuthError Gate → State → View → Prop} (hI : I v)
    (hsetup : s.authData.enabled = false → Q (.error .notSetup) s v)
    (halready : s.authData.enabled = true → s.unlocked = true → Q (.ok .alreadyUnlocked) s v)
    (hlocked : ∀ k secs, s.unlocked = false →
      activeLockoutAt X.rfc3339 s.authData (env.now k) = some secs →
      Q (.error (.locked secs)) s v)
    (hgate : ∀ k, s.authData.enabled = true → s.unlocked = false →
      activeLockoutAt X.rfc3339 s.authData (env.now k) = none →
      Q (.ok ((backoff s.authData.failedAttempts).elim .verify .delay))
        { s with authData := s.authData.clearLockout } v) :
    ASpec env I (unlockCheck X) Q s v := by
  refine auth_bind (auth_get hI (auth_bind (auth_reject hI (fun hen => ?_)
    fun hdis => hsetup (by simpa using hdis))))
  have hen : s.authData.enabled = true := by simpa using hen
  show ASpec env I (if s.unlocked = true then _ else _) Q s v
  by_cases hu : s.unlocked = true
  · rw [if_pos hu]
    exact auth_pure hI (halready hen hu)
  · rw [if_neg hu]
    have hu : s.unlocked = false := by simpa using hu
    refine auth_bind (auth_io (spec_activeLockoutRemaining hI fun k => ?_))
    cases hr : activeLockoutAt X.rfc3339 s.authData (env.now k) with
    | some secs => exact auth_throw hI (hlocked k secs hu hr)
    | none =>
      have hQ := hgate k hen hu hr
      refine auth_bind (auth_set hI ?_)
      cases hb : backoff s.authData.failedAttempts with
      | some secs =>
        rw [hb] at hQ
        exact auth_pure hI hQ
      | none =>
        rw [hb] at hQ
        exact auth_pure hI hQ

/-- A wrong password changes nothing but the counters and, in `auth.json`,
    their copy. -/
theorem auth_recordFailure {Q : Except AuthError Unit → State → View → Prop} (hI : I v)
    (hQ : ∀ d, (d = s.authData.bump ∧ d.failedAttempts < MAX_ATTEMPTS_BEFORE_LOCK ∨
        MAX_ATTEMPTS_BEFORE_LOCK ≤ s.authData.bump.failedAttempts ∧
        ∃ k, d = s.authData.bump.lockOut X.rfc3339 (env.now k)) →
      I (saved X v d) ∧ Q (.error .invalidPassword) { s with authData := d } (saved X v d) ∧
      (Faulty env SaveCmd → Q (.error .invalidPassword) { s with authData := d } v)) :
    ASpec env I (recordFailure X) Q s v := by
  have hsave : ∀ d, (d = s.authData.bump ∧ d.failedAttempts < MAX_ATTEMPTS_BEFORE_LOCK ∨
        MAX_ATTEMPTS_BEFORE_LOCK ≤ s.authData.bump.failedAttempts ∧
        ∃ k, d = s.authData.bump.lockOut X.rfc3339 (env.now k)) →
      ASpec env I (do
        let _ ← io (saveAuthData X (← get).authData).run
        throw (.invalidPassword : AuthError)) Q { s with authData := d } v := by
    intro d hd
    obtain ⟨hI', hok, hfail⟩ := hQ d hd
    refine auth_bind (auth_get hI (auth_bind (auth_io (spec_saveAuthData hI hI' ?_ fun hf e => ?_))))
    · exact auth_throw hI' hok
    · exact auth_throw hI (hfail hf)
  refine auth_bind (auth_modify hI (auth_bind (auth_bind (auth_get hI ?_))))
  show ASpec env I (if MAX_ATTEMPTS_BEFORE_LOCK ≤ s.authData.bump.failedAttempts then _ else _) _ _ v
  by_cases hmax : MAX_ATTEMPTS_BEFORE_LOCK ≤ s.authData.bump.failedAttempts
  · rw [if_pos hmax]
    refine auth_bind (auth_io (spec_utcNow hI fun k => auth_modify hI ?_))
    exact hsave _ (.inr ⟨hmax, k, rfl⟩)
  · rw [if_neg hmax]
    exact auth_pure hI (hsave _ (.inl ⟨rfl, by omega⟩))

/-- What an accepted password does, given the key behind the stored hash. -/
theorem auth_openWith {password : String} {salt key : Bytes}
    {Q : Except AuthError Unit → State → View → Prop} (hI : I v)
    (hstored : StoredKey X.argon2 s.authData.passwordHash salt key)
    (hkey : Argon2id.deriveKey X.argon2 password salt = .ok key)
    (hsteps : ∀ v', ReflTransGen (DecStep X.aead key) v v' → I v')
    (herr : ∀ v' e, ReflTransGen (DecStep X.aead key) v v' →
      DecPost env X.aead key v (.error e) v' → Q (.error e) s v')
    (hsave : ∀ v', ReflTransGen (DecStep X.aead key) v v' → I (saved X v' s.authData.reset))
    (hok : ∀ v' v₂, ReflTransGen (DecStep X.aead key) v v' →
      DecPost env X.aead key v (.ok ()) v' → Recorded env X keyStore s.authData.reset key v' v₂ →
      I v₂ ∧ Q (.ok ()) { s with
        authData := s.authData.reset, encKey := some key, unlocked := true, lockedAt := none } v₂) :
    ASpec env I (openWith X keyStore password) Q s v := by
  refine auth_bind (auth_get hI (auth_bind (auth_argon hI (fun salt' hsalt => ?_) fun e he => ?_)))
  swap
  · rw [hstored.extractSalt_eq] at he; cases he
  obtain rfl : salt = salt' := Except.ok.inj (hstored.extractSalt_eq.symm.trans hsalt)
  refine auth_bind (auth_argon hI (fun key' hkey' => ?_) fun e he => ?_)
  swap
  · rw [hkey] at he; cases he
  obtain rfl : key = key' := Except.ok.inj (hkey.symm.trans hkey')
  refine auth_bind (auth_attempt (spec_mono hsteps ?_ spec_decryptConfigFiles))
  intro r v' hs hpost
  have hI' := hsteps v' hs
  cases r with
  | error e => exact herr v' e hs hpost
  | ok u =>
    have hremember : ∀ v₁, I v₁ →
        (v₁ = saved X v' s.authData.reset ∨ v₁ = v' ∧ Faulty env SaveCmd) →
        ASpec env I (do
          io (rememberKey keyStore key)
          modify fun st => { st with encKey := some key, unlocked := true, lockedAt := none })
          Q { s with authData := s.authData.reset } v₁ := by
      intro v₁ hI₁ h₁
      refine auth_bind (auth_io (spec_rememberKey hI₁ (fun h => ?_) fun h => ?_))
      · exact auth_modify hI₁ (hok v' v₁ hs hpost ⟨v₁, h₁, .inr ⟨rfl, h⟩⟩).2
      · obtain ⟨hI₂, hQ⟩ := hok v' _ hs hpost ⟨v₁, h₁, .inl ⟨rfl, h⟩⟩
        exact ⟨hI₂, auth_modify hI₂ hQ⟩
    refine auth_bind (auth_modify hI' (auth_bind (auth_get hI' (auth_bind (auth_io
      (spec_saveAuthData hI' (hsave v' hs) ?_ fun hf e => ?_))))))
    · exact hremember _ (hsave v' hs) (.inl rfl)
    · exact hremember _ hI' (.inr ⟨rfl, hf⟩)

/-- Whatever the stored hash is, an accepted password that opens the files
    leaves the key that it derives from the salt of the hash. -/
theorem auth_openWith_state {password : String} :
    ASpec env (fun _ => True) (openWith X keyStore password) (fun r s' _ =>
      match r with
      | .ok _ => ∃ salt key, Argon2id.extractSalt s.authData.passwordHash = .ok salt ∧
          Argon2id.deriveKey X.argon2 password salt = .ok key ∧ s' = { s with
            authData := s.authData.reset, encKey := some key, unlocked := true, lockedAt := none }
      | .error _ => s' = s) s v := by
  refine auth_bind (auth_get trivial (auth_bind (auth_argon trivial (fun salt hsalt => ?_)
    fun _ _ => rfl)))
  refine auth_bind (auth_argon trivial (fun key hkey => ?_) fun _ _ => rfl)
  refine auth_bind (auth_attempt (spec_any fun r _ => ?_))
  cases r with
  | error e => rfl
  | ok u =>
    refine auth_bind (auth_modify trivial (auth_bind (auth_get trivial (auth_bind (auth_io
      (spec_any fun _ _ => ?_))))))
    exact auth_bind (auth_io (spec_any fun _ _ =>
      auth_modify trivial ⟨salt, key, hsalt, hkey, rfl⟩))

theorem auth_unlockVerify {password : String} {Q : Except AuthError Unit → State → View → Prop}
    (hI : I v)
    (hwrong : Argon2id.verify X.argon2 password s.authData.passwordHash = false →
      ASpec env I (recordFailure X) Q s v)
    (hright : Argon2id.verify X.argon2 password s.authData.passwordHash = true →
      ASpec env I (openWith X keyStore password) Q s v) :
    ASpec env I (unlockVerify X keyStore password) Q s v := by
  refine auth_bind (auth_get hI ?_)
  show ASpec env I (if (!Argon2id.verify X.argon2 password s.authData.passwordHash) = true
    then _ else _) Q s v
  cases hv : Argon2id.verify X.argon2 password s.authData.passwordHash with
  | false => exact hwrong hv
  | true => exact hright hv

/-- `unlock` when nothing else takes the lock during its delay. -/
theorem auth_unlock {password : String} {Q : Except AuthError Unit → State → View → Prop}
    (hI : I v)
    (hsetup : s.authData.enabled = false → Q (.error .notSetup) s v)
    (halready : s.authData.enabled = true → s.unlocked = true → Q (.ok ()) s v)
    (hlocked : ∀ k secs, s.unlocked = false →
      activeLockoutAt X.rfc3339 s.authData (env.now k) = some secs →
      Q (.error (.locked secs)) s v)
    (hverify : s.authData.enabled = true → s.unlocked = false →
      ASpec env I (unlockVerify X keyStore password) Q
        { s with authData := s.authData.clearLockout } v) :
    ASpec env I (unlock X keyStore password) Q s v := by
  refine auth_bind (auth_unlockCheck hI hsetup (fun hen hu => ?_) hlocked fun k hen hu _ => ?_)
  · exact auth_pure hI (halready hen hu)
  · cases backoff s.authData.failedAttempts with
    | none => exact hverify hen hu
    | some secs =>
      refine auth_bind (auth_io (spec_sleep hI ?_))
      refine auth_bind (auth_get hI ?_)
      show ASpec env I (if s.unlocked = true then _ else _) _ _ v
      rw [if_neg (by simp [hu])]
      exact hverify hen hu

-- ============================================================================
-- Lock
-- ============================================================================

theorem auth_suspend {Q : Except AuthError Unit → State → View → Prop} (hI : I v)
    (hstay : s.unlocked = false ∨ s.encKey = none → Q (.ok ()) s v)
    (hkey : ∀ key, s.unlocked = true → s.encKey = some key → key.length = 32)
    (hsteps : ∀ key v', s.encKey = some key → ReflTransGen (EncStep X.aead key) v v' → I v')
    (hlock : ∀ key r v' t, s.unlocked = true → s.encKey = some key →
      ReflTransGen (EncStep X.aead key) v v' → EncPost env X.aead key v r v' →
      Q (.ok ()) { s with encKey := none, unlocked := false, lockedAt := some t } v') :
    ASpec env I (suspend X) Q s v := by
  refine auth_bind (auth_get hI ?_)
  show ASpec env I (if s.unlocked = true then lockInternal X else pure ()) Q s v
  by_cases hu : s.unlocked = true
  · rw [if_pos hu]
    refine auth_bind (auth_get hI ?_)
    cases hk : s.encKey with
    | none =>
      simp only [hk]
      exact auth_pure hI (hstay (.inr hk))
    | some key =>
      simp only [hk]
      refine auth_bind (auth_modify hI ?_)
      refine auth_bind (auth_io (spec_mono (fun v' hs => hsteps key v' hk hs) ?_
        (spec_encryptConfigFiles (hkey key hu hk))))
      intro r v' hs hpost
      have hI' := hsteps key v' hk hs
      exact auth_bind (auth_io (spec_utcNow hI' fun k => auth_modify hI'
        (hlock key r v' (env.now k) hu hk hs hpost)))
  · rw [if_neg hu]
    exact auth_pure hI (hstay (.inl (by simpa using hu)))

/-- Whatever becomes of the files, the service is locked afterwards when it
    held a key, and else as it was. -/
theorem auth_suspend_state :
    ASpec env (fun _ => True) (suspend X) (fun _ s' _ =>
      s' = s ∨ ∃ key t, s.unlocked = true ∧ s.encKey = some key ∧
        s' = { s with encKey := none, unlocked := false, lockedAt := some t }) s v := by
  refine auth_bind (auth_get trivial ?_)
  show ASpec env _ (if s.unlocked = true then lockInternal X else pure ()) _ s v
  by_cases hu : s.unlocked = true
  · rw [if_pos hu]
    refine auth_bind (auth_get trivial ?_)
    cases hk : s.encKey with
    | none =>
      simp only [hk]
      exact auth_pure trivial (.inl rfl)
    | some key =>
      simp only [hk]
      refine auth_bind (auth_modify trivial (auth_bind (auth_io (spec_any fun _ _ => ?_))))
      exact auth_bind (auth_io (spec_utcNow trivial fun k => auth_modify trivial
        (.inr ⟨key, env.now k, hu, rfl, rfl⟩)))
  · rw [if_neg hu]
    exact auth_pure trivial (.inl rfl)

theorem auth_lock {Q : Except AuthError Unit → State → View → Prop}
    (hsuspend : ASpec env I (suspend X) (fun r s' v' => I v' ∧ (∀ e, r ≠ .error e) ∧
      (keyStore = false → Q (.ok ()) s' v') ∧
      (keyStore = true → I { v' with keychain := none } ∧
        Q (.ok ()) s' { v' with keychain := none }) ∧
      ∀ e, Q (.error e) s' v') s v) :
    ASpec env I (lock X keyStore) Q s v := by
  refine auth_bind (auth_mono (fun _ h => h) ?_ hsuspend)
  rintro r s' v' - ⟨hI', hr, hnone, hdel, hfail⟩
  cases r with
  | error e => exact absurd rfl (hr e)
  | ok u => exact auth_attempt (spec_forgetRememberedKey hI' hnone hdel hfail)

-- ============================================================================
-- Changing and removing the password
-- ============================================================================

theorem auth_commitChange {hash : String} {key : Bytes}
    {Q : Except AuthError Unit → State → View → Prop} {d : AuthData} (hI : I v)
    (hd : d = { s.authData with passwordHash := hash })
    (hfail : Faulty env SaveCmd → (∀ v', ReflTransGen (DecStep X.aead key) v v' → I v') ∧
      ∀ e r v', ReflTransGen (DecStep X.aead key) v v' → DecPost env X.aead key v r v' →
        Q (.error e) s v')
    (hI₁ : I (saved X v d))
    (hsteps : ∀ v', ReflTransGen (DecStep X.aead key) (saved X v d) v' → I v')
    (herr : ∀ e v', ReflTransGen (DecStep X.aead key) (saved X v d) v' →
      DecPost env X.aead key (saved X v d) (.error e) v' → Q (.error e) { s with authData := d } v')
    (hok : ∀ v', ReflTransGen (DecStep X.aead key) (saved X v d) v' →
      DecPost env X.aead key (saved X v d) (.ok ()) v' →
      Q (.ok ()) { s with authData := d, encKey := some key } v') :
    ASpec env I (commitChange X hash key) Q s v := by
  subst hd
  refine auth_bind (auth_get hI (auth_bind (auth_modify hI (auth_bind (auth_get hI
    (auth_bind (auth_io (spec_saveAuthData hI hI₁ ?_ fun hf e => ?_))))))))
  · refine auth_bind (auth_attempt (spec_mono hsteps ?_ spec_decryptConfigFiles))
    intro r v' hs hpost
    cases r with
    | error e => exact herr e v' hs hpost
    | ok u => exact auth_modify (hsteps v' hs) (hok v' hs hpost)
  · -- the old hash is put back and the files are decrypted with the new key
    obtain ⟨hsteps', hQ⟩ := hfail hf
    refine auth_bind (auth_modify hI (auth_bind (auth_io (spec_mono hsteps' ?_
      spec_decryptConfigFiles))))
    intro r v' hs hpost
    exact auth_throw (hsteps' v' hs) (hQ e r v' hs hpost)

theorem auth_reencrypt {hash : String} {key : Bytes}
    {Q : Except AuthError Unit → State → View → Prop} (hkey : key.length = 32)
    (hsteps : ∀ v', ReflTransGen (EncStep X.aead key) v v' → I v')
    (herr : ∀ e v₁, ReflTransGen (EncStep X.aead key) v v₁ →
      EncPost env X.aead key v (.error e) v₁ →
      (∀ v₂, ReflTransGen (DecStep X.aead key) v₁ v₂ → I v₂) ∧
      (∀ v₂, ReflTransGen (DecStep X.aead key) v₁ v₂ → DecPost env X.aead key v₁ (.ok ()) v₂ →
        Q (.error e) s v₂) ∧
      ∀ e' v₂, ReflTransGen (DecStep X.aead key) v₁ v₂ →
        DecPost env X.aead key v₁ (.error e') v₂ →
        Q (.error e) { s with encKey := none, unlocked := false } v₂)
    (hok : ∀ v₁, ReflTransGen (EncStep X.aead key) v v₁ → EncPost env X.aead key v (.ok ()) v₁ →
      ASpec env I (commitChange X hash key) Q s v₁) :
    ASpec env I (reencrypt X hash key) Q s v := by
  refine auth_bind (auth_io (spec_mono hsteps ?_ (spec_encryptConfigFiles hkey)))
  intro r v₁ hs hpost
  cases r with
  | ok u => exact hok v₁ hs hpost
  | error e =>
    obtain ⟨hI₂, hback, hlose⟩ := herr e v₁ hs hpost
    refine auth_bind (auth_io (spec_mono hI₂ ?_ spec_decryptConfigFiles))
    intro r' v₂ hs₂ hpost₂
    cases r' with
    | ok u => exact auth_throw (hI₂ v₂ hs₂) (hback v₂ hs₂ hpost₂)
    | error e' => exact auth_bind (auth_modify (hI₂ v₂ hs₂) (auth_throw (hI₂ v₂ hs₂)
        (hlose e' v₂ hs₂ hpost₂)))

/-- `change_password` up to the encryption: it stops without a change, or it
    has forgotten the remembered key and derived the new one. -/
theorem auth_changePassword {old new : String} {Q : Except AuthError Unit → State → View → Prop}
    (hI : I v) (herr : ∀ e, Q (.error e) s v)
    (hforget : keyStore = true → I { v with keychain := none } ∧
      ∀ e, Q (.error e) s { v with keychain := none })
    (hchange : s.authData.enabled = true → s.unlocked = true →
      Argon2id.verify X.argon2 old s.authData.passwordHash = true →
      ∀ v₁, (keyStore = false ∧ v₁ = v ∨ keyStore = true ∧ v₁ = { v with keychain := none }) →
      ∀ hash salt key, (∃ k, salt = env.bytes k Argon2id.SALT_LENGTH) →
        StoredKey X.argon2 hash salt key → Argon2id.deriveKey X.argon2 new salt = .ok key →
        ASpec env I (reencrypt X hash key) Q s v₁) :
    ASpec env I (changePassword X keyStore old new) Q s v := by
  refine auth_bind (auth_get hI (auth_bind (auth_reject hI (fun hen => ?_) fun _ => herr _)))
  refine auth_bind (auth_reject hI (fun hu => ?_) fun _ => herr _)
  refine auth_bind (auth_reject hI (fun hver => ?_) fun _ => herr _)
  refine auth_bind (auth_reject hI (fun _ => ?_) fun _ => herr _)
  have hrest : ∀ v₁, I v₁ → (∀ e, Q (.error e) s v₁) →
      (keyStore = false ∧ v₁ = v ∨ keyStore = true ∧ v₁ = { v with keychain := none }) →
      ASpec env I (do
        let salt ← io (randFill Argon2id.SALT_LENGTH)
        let newHash ← argon (Argon2id.createHash X.argon2 new salt)
        let newSalt ← argon (Argon2id.extractSalt newHash)
        let newKey ← argon (Argon2id.deriveKey X.argon2 new newSalt)
        reencrypt X newHash newKey) Q s v₁ := by
    intro v₁ hI₁ herr₁ h₁
    refine auth_bind (auth_io (spec_randFill hI₁ fun k => ?_))
    generalize hdrawn : env.bytes k Argon2id.SALT_LENGTH = salt
    refine auth_bind (auth_argon hI₁ (fun hash hhash => ?_) fun _ _ => herr₁ _)
    obtain ⟨key, hkey, hstored⟩ := Argon2id.createHash_storedKey hhash
    refine auth_bind (auth_argon hI₁ (fun salt' hsalt => ?_) fun _ _ => herr₁ _)
    obtain rfl : salt = salt' := Except.ok.inj (hstored.extractSalt_eq.symm.trans hsalt)
    refine auth_bind (auth_argon hI₁ (fun key' hkey' => ?_) fun _ _ => herr₁ _)
    obtain rfl : key = key' := Except.ok.inj (hkey.symm.trans hkey')
    exact hchange (by simpa using hen) (by simpa using hu) (by simpa using hver) v₁ h₁ hash salt
      key ⟨k, hdrawn.symm⟩ hstored hkey
  refine auth_bind (auth_attempt (spec_forgetRememberedKey hI (fun h => ?_) (fun h => ?_) herr))
  · exact hrest v hI herr (.inl ⟨h, rfl⟩)
  · exact ⟨(hforget h).1, hrest _ (hforget h).1 (hforget h).2 (.inr ⟨h, rfl⟩)⟩

/-- `remove_password` leaves the config files alone; the encrypted siblings
    and `auth.json` go if their removal works. -/
theorem auth_removePassword {password : String} {Q : Except AuthError Unit → State → View → Prop}
    (hI : I v) (herr : ∀ e, Q (.error e) s v)
    (hremove : ∀ n v', n = .authJson ∨ (∃ f, n = .enc f) → I v' → I (v'.remove n))
    (hQ : ∀ v', (∀ f, v'.files (.plain f) = v.files (.plain f)) →
      (∀ n, v'.files n = v.files n ∨ v'.files n = none) → v'.keychain = v.keychain →
      Q (.ok ()) ⟨true, none, .default, s.lockedAt⟩ v') :
    ASpec env I (removePassword X password) Q s v := by
  refine auth_bind (auth_get hI (auth_bind (auth_reject hI (fun _ => ?_) fun _ => herr _)))
  refine auth_bind (auth_reject hI (fun _ => ?_) fun _ => herr _)
  refine auth_bind (auth_reject hI (fun _ => ?_) fun _ => herr _)
  -- every removal only removes
  have hgone : ∀ {v' : View} {n : Name}, n = .authJson ∨ (∃ f, n = .enc f) →
      ((∀ f, v'.files (.plain f) = v.files (.plain f)) ∧
        (∀ n, v'.files n = v.files n ∨ v'.files n = none) ∧ v'.keychain = v.keychain) →
      (∀ f, (v'.remove n).files (.plain f) = v.files (.plain f)) ∧
        (∀ m, (v'.remove n).files m = v.files m ∨ (v'.remove n).files m = none) ∧
        (v'.remove n).keychain = v.keychain := by
    rintro v' n hn ⟨hp, hf, hk⟩
    refine ⟨fun f => ?_, fun m => ?_, hk⟩
    · rw [View.remove_files_ne _ (by rcases hn with rfl | ⟨f, rfl⟩ <;> simp)]
      exact hp f
    · by_cases hm : m = n
      · exact .inr (by rw [hm, View.remove_files_self])
      · rw [View.remove_files_ne _ hm]
        exact hf m
  have hlast : ∀ v', I v' → ((∀ f, v'.files (.plain f) = v.files (.plain f)) ∧
        (∀ n, v'.files n = v.files n ∨ v'.files n = none) ∧ v'.keychain = v.keychain) →
      ASpec env I (do
        io (removeFile authFile)
        set (⟨true, none, .default, s.lockedAt⟩ : State)) Q s v' := by
    intro v' hI' hv'
    have hrm := hremove .authJson v' (.inl rfl) hI'
    have hv'' := hgone (.inl rfl) hv'
    refine auth_bind (auth_io (spec_removeFile hI' hrm ?_ fun _ _ => ?_))
    · exact auth_set hrm (hQ _ hv''.1 hv''.2.1 hv''.2.2)
    · exact auth_set hI' (hQ _ hv'.1 hv'.2.1 hv'.2.2)
  suffices h : ∀ (fs : List ConfigFile) (v' : View), I v' →
      ((∀ f, v'.files (.plain f) = v.files (.plain f)) ∧
        (∀ n, v'.files n = v.files n ∨ v'.files n = none) ∧ v'.keychain = v.keychain) →
      Spec env I (fs.forM fun name => removeFile (encPath name))
        (fun _ v' => I v' ∧ (∀ f, v'.files (.plain f) = v.files (.plain f)) ∧
          (∀ n, v'.files n = v.files n ∨ v'.files n = none) ∧ v'.keychain = v.keychain) v' from
    auth_bind (auth_io (spec_mono (fun _ h => h) (fun _ v' _ hv' => hlast v' hv'.1 hv'.2)
      (h CONFIG_FILES v hI ⟨fun _ => rfl, fun _ => .inl rfl, rfl⟩)))
  intro fs
  induction fs with
  | nil => exact fun v' hI' hv' => spec_pure hI' ⟨hI', hv'⟩
  | cons f fs ih =>
    intro v' hI' hv'
    have hrm := hremove (.enc f) v' (.inr ⟨f, rfl⟩) hI'
    refine spec_bind (spec_removeFile hI' hrm ?_ fun _ _ => ih v' hI' hv')
    exact ih _ hrm (hgone (.inr ⟨f, rfl⟩) hv')

end GnDrive.Auth
