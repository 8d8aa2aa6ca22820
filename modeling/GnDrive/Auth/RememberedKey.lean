/-
  GnDrive.Auth.RememberedKey

  The key in the OS key store, over any history of a config directory whose
  files can be read and written; the key store may fail, and the process may
  die, at any point.

  `setup_password` and `unlock` put a key there, `lock` and `change_password`
  delete it and stop when that fails, and a start uses it.  `remove_password`
  leaves it where it is: the key outlives its password.  `remembered_of_runs`
  says that this is the only way to a key that does not belong to the
  password set up last.
-/

import GnDrive.Auth.Locking
import GnDrive.Auth.Recoverable

namespace GnDrive.Auth.Sessions

open AuthM
open Argon2id (StoredKey)
open Relation (ReflTransGen)

/-- The reading of `auth.json` in a view. -/
abbrev persisted (X : Crates) (v : View) : AuthData := readAs X (v.files .authJson)

/-- The password of `d` is set, and `key` is what it derives from the salt
    stored with it. -/
def KeyOf (X : Crates) (d : AuthData) (key : Bytes) : Prop :=
  d.enabled = true ∧
  (∃ password, Argon2id.verify X.argon2 password d.passwordHash = true) ∧
  ∀ password, Argon2id.verify X.argon2 password d.passwordHash = true →
    ∃ salt, Argon2id.extractSalt d.passwordHash = .ok salt ∧
      Argon2id.deriveKey X.argon2 password salt = .ok key

/-- No password is set up in the directory, and no key remembered for it. -/
def Unused (X : Crates) (w : World) : Prop :=
  (persisted X w.view).enabled = false ∧ w.keychain = none

/-- `remove_password` is refused, or there is no key to leave behind. -/
def RemoveOk (X : Crates) (s : State) (v : View) (password : String) : Prop :=
  v.keychain = none ∨ s.authData.enabled = false ∨ s.unlocked = false ∨
    Argon2id.verify X.argon2 password s.authData.passwordHash = false

/-- The files can be read and written, and a password is removed only when no
    key is remembered. -/
def KeyCared (X : Crates) (h : Host) (a : Act) : Prop :=
  a.env.NoFaults ∧ ∀ s password,
    (a.event = .op (.removePassword password) ∨
      ∃ n, a.event = .killed (.removePassword password) n) →
    h.service = some s → RemoveOk X s h.world.view password

/-- When the operation returns `Ok`, no key is remembered. -/
def ForgetsOnOk (env : Env) (x : AuthM Unit) (s : State) (w : World) : Prop :=
  (runAuth env x s w).1.1 = .ok () → (runAuth env x s w).2.keychain = none

section

variable {env : Env} {X : Crates} {keyStore : Bool} {s s' : State} {v v' : View}
  {salt key : Bytes}

-- ============================================================================
-- The invariant
-- ============================================================================

/-- The key store has the key behind the persisted hash or nothing, and
    nothing while no password is persisted. -/
structure DiskKey (X : Crates) (keyStore : Bool) (v : View) : Prop where
  hash : (persisted X v).enabled = true →
    ∃ salt key, StoredKey X.argon2 (persisted X v).passwordHash salt key ∧
      ∀ k, v.keychain = some k → k = key
  none : (persisted X v).enabled = false ∨ keyStore = false → v.keychain = none

/-- The service has the password that is persisted. -/
structure SameHash (X : Crates) (s : State) (v : View) : Prop where
  enabled : s.authData.enabled = (persisted X v).enabled
  hash : s.authData.enabled = true → s.authData.passwordHash = (persisted X v).passwordHash

/-- Disk and memory. -/
def KeyCare (X : Crates) (keyStore : Bool) (s : State) (v : View) : Prop :=
  DiskKey X keyStore v ∧ SameHash X s v

theorem persisted_of_frame (h : Frame v v') : persisted X v' = persisted X v := by
  rw [persisted, h.1]

theorem DiskKey.of_frame (h : DiskKey X keyStore v) (hf : Frame v v') : DiskKey X keyStore v' where
  hash := by
    rw [persisted_of_frame hf, hf.2]
    exact h.hash
  none := by
    rw [persisted_of_frame hf, hf.2]
    exact h.none

theorem SameHash.of_frame (h : SameHash X s v) (hf : Frame v v') : SameHash X s v' where
  enabled := by
    rw [persisted_of_frame hf]
    exact h.enabled
  hash := by
    rw [persisted_of_frame hf]
    exact h.hash

theorem KeyCare.of_frame (h : KeyCare X keyStore s v) (hf : Frame v v') : KeyCare X keyStore s v' :=
  ⟨h.1.of_frame hf, h.2.of_frame hf⟩

/-- Only the auth data of the service matters. -/
theorem KeyCare.of_authData (h : KeyCare X keyStore s v) (hs : s'.authData = s.authData) :
    KeyCare X keyStore s' v :=
  ⟨h.1, by rw [hs]; exact h.2.enabled, by rw [hs]; exact h.2.hash⟩

/-- A password, and nothing remembered. -/
theorem DiskKey.forgotten (h : DiskKey X keyStore v) :
    DiskKey X keyStore { v with keychain := Option.none } where
  hash hen := by
    obtain ⟨salt, key, hstored, -⟩ := h.hash hen
    exact ⟨salt, key, hstored, fun k hk => by cases hk⟩
  none _ := rfl

theorem KeyCare.forgotten (h : KeyCare X keyStore s v) :
    KeyCare X keyStore s { v with keychain := Option.none } := ⟨h.1.forgotten, h.2.1, h.2.2⟩

theorem persisted_saved (d : AuthData) : persisted X (saved X v d) = d := by
  rw [persisted, saved, View.put_files_self, readAs_toVecPretty]

/-- `auth.json` with the key behind its hash, which may be remembered. -/
theorem diskKey_saved {d : AuthData} (hstored : StoredKey X.argon2 d.passwordHash salt key)
    (hen : d.enabled = true) (hkeys : ∀ k, v.keychain = some k → k = key)
    (hnone : keyStore = false → v.keychain = none) : DiskKey X keyStore (saved X v d) where
  hash _ := ⟨salt, key, by rw [persisted_saved]; exact hstored, hkeys⟩
  none h := by
    rw [persisted_saved, hen] at h
    exact hnone (h.resolve_left (by simp))

theorem diskKey_remembered {d : AuthData} (hstored : StoredKey X.argon2 d.passwordHash salt key)
    (hen : d.enabled = true) (hstore : keyStore = true) :
    DiskKey X keyStore { saved X v d with keychain := some key } where
  hash _ := by
    refine ⟨salt, key, ?_, fun k hk => (Option.some.inj hk).symm⟩
    show StoredKey X.argon2 (persisted X (saved X v d)).passwordHash salt key
    rw [persisted_saved]
    exact hstored
  none h := by
    exfalso
    rcases h with hdis | hstore'
    · have hd : (persisted X (saved X v d)).enabled = false := hdis
      rw [persisted_saved, hen] at hd
      cases hd
    · rw [hstore] at hstore'
      cases hstore'

theorem sameHash_saved (s : State) : SameHash X s (saved X v s.authData) where
  enabled := by rw [persisted_saved]
  hash _ := by rw [persisted_saved]

/-- What the claim says of the key, from the invariant. -/
theorem DiskKey.keyOf (h : DiskKey X keyStore v) (hk : v.keychain = some key) :
    KeyOf X (persisted X v) key := by
  have hen : (persisted X v).enabled = true := by
    by_contra hdis
    rw [h.none (.inl (by simpa using hdis))] at hk
    cases hk
  obtain ⟨salt, key', hstored, hkeys⟩ := h.hash hen
  obtain rfl := hkeys key hk
  obtain ⟨password, hpassword⟩ := hstored.2
  exact ⟨hen, ⟨password, hstored.verify_iff.mpr hpassword⟩,
    fun p hp => ⟨salt, hstored.extractSalt_eq, hstored.verify_iff.mp hp⟩⟩

theorem KeyCare.keyOf (h : KeyCare X keyStore s v) (hk : v.keychain = some key) :
    KeyOf X s.authData key := by
  obtain ⟨hen, hset, hderives⟩ := h.1.keyOf hk
  have hens : s.authData.enabled = true := h.2.enabled.trans hen
  rw [KeyOf, h.2.hash hens]
  exact ⟨hens, hset, hderives⟩

-- ============================================================================
-- What each operation keeps
-- ============================================================================

theorem KeyCare.decSteps {a : Aead} {k : Bytes} (h : KeyCare X keyStore s v)
    (hs : ReflTransGen (DecStep a k) v v') : KeyCare X keyStore s v' :=
  h.of_frame (steps_frame (fun _ _ => DecStep.frame) hs)

theorem DiskKey.decSteps {a : Aead} {k : Bytes} (h : DiskKey X keyStore v)
    (hs : ReflTransGen (DecStep a k) v v') : DiskKey X keyStore v' :=
  h.of_frame (steps_frame (fun _ _ => DecStep.frame) hs)

theorem DiskKey.encSteps {a : Aead} {k : Bytes} (h : DiskKey X keyStore v)
    (hs : ReflTransGen (EncStep a k) v v') : DiskKey X keyStore v' :=
  h.of_frame (steps_frame (fun _ _ => EncStep.frame) hs)

/-- The counters are saved, with the password as it is. -/
theorem KeyCare.resaved {d : AuthData} (h : KeyCare X keyStore s v)
    (hen : s.authData.enabled = true) (hd : d.enabled = true)
    (hhash : d.passwordHash = s.authData.passwordHash) (hs' : s'.authData = d) :
    KeyCare X keyStore s' (saved X v d) := by
  obtain ⟨salt, key, hstored, hkeys⟩ := h.1.hash (h.2.enabled.symm.trans hen)
  rw [← h.2.hash hen, ← hhash] at hstored
  refine ⟨diskKey_saved hstored hd hkeys fun hno => h.1.none (.inr hno), ?_⟩
  rw [← hs']
  exact sameHash_saved s'

theorem auth_unlockVerify_keyCare {password : String} (henv : env.NoFaults)
    (h : KeyCare X keyStore s v) (hen : s.authData.enabled = true) :
    ASpec env (DiskKey X keyStore) (unlockVerify X keyStore password)
      (fun _ s' v' => KeyCare X keyStore s' v') s v := by
  have hsaves : ¬ Faulty env SaveCmd := not_faulty henv fun _ => onFiles_of_saveCmd
  refine auth_unlockVerify h.1 (fun _ => ?_) fun hver => ?_
  · refine auth_recordFailure h.1 fun d hd => ?_
    have hd' : d.enabled = true ∧ d.passwordHash = s.authData.passwordHash := by
      rcases hd with ⟨rfl, -⟩ | ⟨-, k, rfl⟩
      · exact ⟨hen, rfl⟩
      · exact ⟨hen, rfl⟩
    have hsaved : KeyCare X keyStore { s with authData := d } (saved X v d) :=
      h.resaved hen hd'.1 hd'.2 rfl
    exact ⟨hsaved.1, hsaved, fun hf => absurd hf hsaves⟩
  · obtain ⟨salt, key, hstored, hkeys⟩ := h.1.hash (h.2.enabled.symm.trans hen)
    rw [← h.2.hash hen] at hstored
    have hreset : ∀ (s' : State) {v' : View}, KeyCare X keyStore s v' →
        s'.authData = s.authData.reset →
        KeyCare X keyStore s' (saved X v' s.authData.reset) :=
      fun s' v' h' hs' => h'.resaved hen hen rfl hs'
    refine auth_openWith h.1 hstored (hstored.verify_iff.mp hver) (fun _ => h.1.decSteps)
      (fun _ _ hs _ => h.decSteps hs) (fun _ hs =>
        (hreset { s with authData := s.authData.reset } (h.decSteps hs) rfl).1) ?_
    rintro v' v₂ hs - ⟨v₁, rfl | ⟨-, hf⟩, hremember⟩
    · have hafter := hreset { s with
        authData := s.authData.reset, encKey := some key, unlocked := true, lockedAt := none }
        (h.decSteps hs) rfl
      rcases hremember with ⟨rfl, hstore⟩ | ⟨rfl, -⟩
      · have hdisk : DiskKey X keyStore { saved X v' s.authData.reset with keychain := some key } :=
          diskKey_remembered hstored hen hstore
        exact ⟨hdisk, hdisk, hafter.2.enabled, hafter.2.hash⟩
      · exact ⟨hafter.1, hafter⟩
    · exact absurd hf hsaves

theorem auth_setupPassword_keyCare {password : String} (henv : env.NoFaults)
    (h : KeyCare X keyStore s v) :
    ASpec env (DiskKey X keyStore) (setupPassword X keyStore password)
      (fun _ s' v' => KeyCare X keyStore s' v') s v := by
  refine auth_setupPassword h.1 (fun _ => h) fun hdis hash salt key hstored _ d hd => ?_
  have hnone : v.keychain = none := h.1.none (.inl (h.2.enabled.symm.trans hdis))
  have hen : d.enabled = true := by rw [hd]
  have hstored' : StoredKey X.argon2 d.passwordHash salt key := by
    rw [hd]
    exact hstored
  have hsaved : DiskKey X keyStore (saved X v d) := by
    refine diskKey_saved hstored' hen (fun k hk => ?_) fun _ => hnone
    rw [hnone] at hk
    cases hk
  have hremembered : keyStore = true →
      DiskKey X keyStore { saved X v d with keychain := some key } :=
    diskKey_remembered hstored' hen
  have hsame : SameHash X { s with authData := d } (saved X v d) :=
    sameHash_saved { s with authData := d }
  refine ⟨hsaved, fun hf => absurd hf (not_faulty henv fun _ => onFiles_of_saveCmd), fun hstore => ?_,
    fun _ => ⟨hsaved, hsame.1, hsame.2⟩⟩
  exact ⟨hremembered hstore, hremembered hstore, hsame.1, hsame.2⟩

theorem auth_suspend_keyCare (hfits : KeyFits s) (h : KeyCare X keyStore s v) :
    ASpec env (DiskKey X keyStore) (suspend X) (fun _ s' v' => KeyCare X keyStore s' v') s v := by
  refine auth_suspend h.1 (fun _ => h) (fun key _ hk => hfits.length key hk)
    (fun _ _ _ => h.1.encSteps) fun key r v' t _ _ hs _ => ?_
  exact (h.of_frame (steps_frame (fun _ _ => EncStep.frame) hs)).of_authData rfl

theorem auth_lock_keyCare (hfits : KeyFits s) (h : KeyCare X keyStore s v) :
    ASpec env (DiskKey X keyStore) (lock X keyStore) (fun _ s' v' => KeyCare X keyStore s' v')
      s v := by
  refine auth_bind (auth_mono (fun _ h => h) ?_ (auth_suspend_keyCare hfits h))
  intro r s' v' _ hr
  cases r with
  | error e => exact hr
  | ok u =>
    exact auth_attempt (spec_forgetRememberedKey hr.1 (fun _ => hr)
      (fun _ => ⟨hr.1.forgotten, hr.forgotten⟩) fun _ => hr)

/-- The key is gone before the password changes. -/
theorem auth_changePassword_keyCare {old new : String} (henv : env.NoFaults)
    (h : KeyCare X keyStore s v) :
    ASpec env (DiskKey X keyStore) (changePassword X keyStore old new)
      (fun _ s' v' => KeyCare X keyStore s' v') s v := by
  refine auth_changePassword h.1 (fun _ => h)
    (fun _ => ⟨h.1.forgotten, fun _ => h.forgotten⟩) ?_
  intro hen _ _ v₁ hv₁ hash salt key _ hstored _
  obtain ⟨hnone, h₁⟩ : v₁.keychain = none ∧ KeyCare X keyStore s v₁ := by
    rcases hv₁ with ⟨hno, rfl⟩ | ⟨-, rfl⟩
    · exact ⟨h.1.none (.inr hno), h⟩
    · exact ⟨rfl, h.forgotten⟩
  refine auth_reencrypt hstored.key_length (fun _ => h₁.1.encSteps) (fun e v₂ hs _ => ?_)
    fun v₂ hs _ => ?_
  · have h₂ : KeyCare X keyStore s v₂ := h₁.of_frame (steps_frame (fun _ _ => EncStep.frame) hs)
    exact ⟨fun _ => h₂.1.decSteps, fun _ hs' _ => h₂.decSteps hs',
      fun _ _ hs' _ => (h₂.decSteps hs').of_authData rfl⟩
  · have hframe : Frame v₁ v₂ := steps_frame (fun _ _ => EncStep.frame) hs
    have h₂ : KeyCare X keyStore s v₂ := h₁.of_frame hframe
    -- the new hash, with nothing remembered
    have hsaved : KeyCare X keyStore
        { s with authData := { s.authData with passwordHash := hash } }
        (saved X v₂ { s.authData with passwordHash := hash }) := by
      refine ⟨diskKey_saved hstored hen (fun k hk => ?_) fun _ => hframe.2.trans hnone,
        sameHash_saved { s with authData := { s.authData with passwordHash := hash } }⟩
      rw [hframe.2, hnone] at hk
      cases hk
    exact auth_commitChange h₂.1 rfl
      (fun hf => absurd hf (not_faulty henv fun _ => onFiles_of_saveCmd)) hsaved.1
      (fun _ => hsaved.1.decSteps) (fun _ _ hs' _ => hsaved.decSteps hs')
      fun _ hs' _ => (hsaved.decSteps hs').of_authData rfl

theorem persisted_none (hnone : v.files .authJson = none) : persisted X v = .default := by
  rw [persisted, hnone]
  rfl

/-- `remove_password` removes `auth.json`. -/
theorem auth_removePassword_authJson {password : String} (henv : env.NoFaults) :
    ASpec env Anything (removePassword X password)
      (fun r _ v' => r = .ok () → v'.files .authJson = none) s v := by
  have herr : ∀ e : AuthError, (Except.error e : Except AuthError Unit) = .ok () → v.files .authJson = none :=
    fun e he => by cases he
  refine auth_bind (auth_get trivial (auth_bind (auth_reject trivial (fun _ => ?_)
    fun _ => herr _)))
  refine auth_bind (auth_reject trivial (fun _ => ?_) fun _ => herr _)
  refine auth_bind (auth_reject trivial (fun _ => ?_) fun _ => herr _)
  refine auth_bind (auth_io (spec_any fun _ v' => ?_))
  refine auth_bind (auth_io (spec_removeFile trivial trivial ?_ fun k hk => ?_))
  · exact auth_set trivial fun _ => View.remove_files_self ..
  · rw [henv k _ rfl] at hk
    cases hk

/-- With nothing remembered, `auth.json` can go. -/
theorem auth_removePassword_keyCare {password : String} (h : KeyCare X keyStore s v)
    (hok : RemoveOk X s v password) (henv : env.NoFaults) :
    ASpec env (DiskKey X keyStore) (removePassword X password)
      (fun _ s' v' => KeyCare X keyStore s' v') s v := by
  have hI : DiskKey X keyStore v := h.1
  rcases hok with hnone | hrejected
  · have hgone : ∀ v' : View, v'.files .authJson = none → v'.keychain = none →
        DiskKey X keyStore v' := by
      intro v' hauth hkey
      refine ⟨fun hen => ?_, fun _ => hkey⟩
      rw [persisted_none hauth] at hen
      cases hen
    have hremove : ASpec env (fun v => DiskKey X keyStore v ∧ v.keychain = none)
        (removePassword X password) (fun r s' v' =>
          r = .ok () ∧ s' = ⟨true, none, .default, s.lockedAt⟩ ∨ s' = s ∧ v' = v) s v := by
      refine auth_removePassword ⟨hI, hnone⟩ (fun _ => .inr ⟨rfl, rfl⟩) ?_
        fun _ _ _ _ => .inl ⟨rfl, rfl⟩
      rintro n v' hn ⟨hv', hkey⟩
      refine ⟨?_, hkey⟩
      rcases hn with rfl | ⟨f, rfl⟩
      · exact hgone _ (View.remove_files_self ..) hkey
      · exact hv'.of_frame ⟨by simp, rfl⟩
    refine auth_mono (fun _ hv => hv.1) ?_ (auth_and hremove (auth_removePassword_authJson henv))
    rintro r s' v' ⟨hv', -⟩ ⟨⟨hr, rfl⟩ | ⟨rfl, rfl⟩, hauth⟩
    · refine ⟨hv', ?_, fun hen => by cases hen⟩
      rw [persisted_none (hauth hr)]
    · exact h
  · refine auth_bind (auth_get hI (auth_bind (auth_reject hI (fun hen => ?_) fun _ => h)))
    refine auth_bind (auth_reject hI (fun hu => ?_) fun _ => h)
    refine auth_bind (auth_reject hI (fun hver => ?_) fun _ => h)
    exfalso
    simp only [Bool.not_eq_false'] at hen hu hver
    simp [hen, hu, hver] at hrejected

theorem spec_new_keyCare (henv : env.NoFaults) (h : DiskKey X keyStore v) :
    Spec env (DiskKey X keyStore) (new X keyStore) (KeyCare X keyStore) v := by
  refine spec_new h fun d hd => ?_
  obtain rfl : d = persisted X v := hd.resolve_right fun hf =>
    not_faulty henv (by rintro _ rfl; rfl) hf.1
  have hrec : ∀ v', ReflTransGen (RecStep (persisted X v).enabled) v v' →
      DiskKey X keyStore v' ∧ persisted X v' = persisted X v := fun v' hs => by
    have hframe : Frame v v' := steps_frame (fun _ _ => RecStep.frame) hs
    exact ⟨h.of_frame hframe, persisted_of_frame hframe⟩
  refine ⟨fun v' hs => (hrec v' hs).1, fun v' hs _ => ?_⟩
  obtain ⟨h', hsame⟩ := hrec v' hs
  have hread : ∀ s' : State, s'.authData = persisted X v → KeyCare X keyStore s' v' :=
    fun s' hs' => ⟨h', by rw [hs', hsame], fun _ => by rw [hs', hsame]⟩
  refine ⟨fun _ => hread _ rfl, fun _ => ?_⟩
  refine spec_resumeRememberedKey h' (hread _ rfl) fun _ _ key _ => ⟨fun _ => h'.decSteps, ?_, ?_⟩
  · rintro v₁ (rfl | ⟨e, hs₁, -⟩)
    · exact ⟨h'.forgotten, hread _ rfl, (hread _ rfl).forgotten⟩
    · have h₁ := (hread ⟨false, none, persisted X v, none⟩ rfl).decSteps hs₁
      exact ⟨h₁.1.forgotten, h₁, h₁.forgotten⟩
  · exact fun v₁ _ hs₁ _ => (hread _ rfl).decSteps hs₁

/-- Every lock section of a history that takes care of the key. -/
theorem auth_op_keyCare (o : Op) (henv : env.NoFaults) (hfits : KeyFits s)
    (h : KeyCare X keyStore s v)
    (hok : ∀ password, o = .removePassword password → RemoveOk X s v password) :
    ASpec env (DiskKey X keyStore) (o.prog X keyStore) (fun _ s' v' => KeyCare X keyStore s' v')
      s v := by
  cases o with
  | setup password => exact auth_done (auth_setupPassword_keyCare henv h)
  | unlock password =>
    refine auth_bind (auth_unlockCheck h.1 (fun _ => h) (fun _ _ => auth_pure h.1 h)
      (fun _ _ _ _ => h) fun k hen _ _ => ?_)
    have hclear : KeyCare X keyStore { s with authData := s.authData.clearLockout } v :=
      ⟨h.1, h.2.enabled, h.2.hash⟩
    cases backoff s.authData.failedAttempts with
    | some secs => exact auth_pure h.1 hclear
    | none => exact auth_done (auth_unlockVerify_keyCare henv hclear hen)
  | wake password =>
    refine auth_done (auth_bind (auth_get h.1 ?_))
    show ASpec env _ (if s.unlocked = true then pure () else _) _ s v
    by_cases hu : s.unlocked = true
    · rw [if_pos hu]
      exact auth_pure h.1 h
    · rw [if_neg hu]
      exact auth_unlockVerify_keyCare henv h (hfits.enabled hu)
  | lock => exact auth_done (auth_lock_keyCare hfits h)
  | suspend => exact auth_done (auth_suspend_keyCare hfits h)
  | changePassword old new => exact auth_done (auth_changePassword_keyCare henv h)
  | removePassword password =>
    exact auth_done (auth_removePassword_keyCare h (hok password rfl) henv)
  | openPlaintextSession =>
    exact auth_done (auth_openPlaintextSession h.1 h (h.of_authData rfl))

-- ============================================================================
-- Histories
-- ============================================================================

theorem keyCare_of_runs {h : Host}
    (hreach : (sessions X keyStore (Unused X)).ReachableIf (KeyCared X) h) :
    h.Holds (DiskKey X keyStore) fun s v => KeyCare X keyStore s v ∧ KeyFits s := by
  refine Host.Holds.of_runs ?_ ?_ ?_ hreach
  · rintro w ⟨hdis, hnone⟩
    refine ⟨fun hen => ?_, fun _ => hnone⟩
    rw [hdis] at hen
    cases hen
  · exact fun h a hok hdisk _ => spec_and (spec_new_keyCare hok.1 hdisk) spec_new_keyFits
  · rintro h a o s ⟨henv, hremove⟩ hevent hservice - ⟨hcare, hfits⟩
    refine auth_and (auth_op_keyCare o henv hfits hcare fun password ho => ?_)
      (auth_op_keyFits o hfits)
    subst ho
    exact hremove s password hevent hservice

/-- `lock` returns `Ok` only when the key is forgotten. -/
theorem auth_lock_forgets (hnone : keyStore = false → v.keychain = none) (hfits : KeyFits s) :
    ASpec env Anything (lock X keyStore) (fun r _ v' => r = .ok () → v'.keychain = none) s v := by
  have hsuspend : ASpec env Anything (suspend X) (fun _ _ v' => v'.keychain = v.keychain) s v :=
    auth_suspend trivial (fun _ => rfl) (fun key _ hk => hfits.length key hk)
      (fun _ _ _ _ => trivial)
      fun _ _ _ _ _ _ hs _ => (steps_frame (fun _ _ => EncStep.frame) hs).2
  refine auth_bind (auth_mono (fun _ h => h) ?_ hsuspend)
  intro r s' v' _ hkeep
  cases r with
  | error e => exact fun hr => by cases hr
  | ok u =>
    refine auth_attempt (spec_forgetRememberedKey trivial (fun hno _ => hkeep.trans (hnone hno))
      (fun _ => ⟨trivial, fun _ => rfl⟩) fun e he => by cases he)

/-- Without a remembered key a start does not resume. -/
theorem spec_new_locked (hnone : v.keychain = none) :
    Spec env Anything (new X keyStore)
      (fun s _ => s.authData.enabled = true → s.unlocked = false) v := by
  refine spec_new trivial fun d _ => ⟨fun _ _ => trivial, fun v' hs _ => ⟨fun hdis hen => ?_,
    fun _ => ?_⟩⟩
  · rw [show d.enabled = true from hen] at hdis
    cases hdis
  · refine spec_resumeRememberedKey trivial (fun _ => rfl) fun _ _ key hkey => ?_
    rw [(steps_frame (fun _ _ => RecStep.frame) hs).2, hnone] at hkey
    cases hkey

/-- In every history that takes care of the key: a key in the key store is the
    one that the password set up last derives; after a `lock` or
    `remove_password` that returned `Ok` there is none; and while there is
    none no start opens a service that has a password. -/
theorem remembered_of_runs {X : Crates} {keyStore : Bool} {h : Host}
    (hreach : (sessions X keyStore (Unused X)).ReachableIf (KeyCared X) h) :
    (∀ key, h.world.keychain = some key → KeyOf X (persisted X h.world.view) key ∧
      ∀ s, h.service = some s → KeyOf X s.authData key) ∧
    (∀ s env, h.service = some s → env.NoFaults →
      ForgetsOnOk env (lock X keyStore) s h.world ∧
      ∀ password, RemoveOk X s h.world.view password →
        ForgetsOnOk env (removePassword X password) s h.world) ∧
    (h.world.keychain = none → ∀ env,
      let s := (Prog.run (exec env) (new X keyStore) h.world).1
      s.authData.enabled = true → s.unlocked = false) := by
  obtain ⟨hdisk, hmemory⟩ := keyCare_of_runs hreach
  refine ⟨fun key hkey => ⟨hdisk.keyOf hkey, fun s hs => (hmemory s hs).1.keyOf hkey⟩, ?_,
    fun hnone env => spec_run (spec_new_locked hnone)⟩
  intro s env hs henv
  obtain ⟨hcare, hfits⟩ := hmemory s hs
  refine ⟨auth_run (auth_lock_forgets (fun hno => hdisk.none (.inr hno)) hfits), ?_⟩
  intro password hok hr
  have hremove := auth_and (auth_removePassword_keyCare hcare hok henv)
    (auth_removePassword_authJson henv)
  obtain ⟨hafter, hgone⟩ := auth_run hremove
  refine hafter.1.none (.inl ?_)
  rw [persisted_none (hgone hr)]
  rfl

end

/-- An event that removes no password takes care of the key. -/
theorem keyCared_sampleAct {X : Crates} {h : Host} {e : Event}
    (hop : ∀ password, e ≠ .op (.removePassword password))
    (hkilled : ∀ password n, e ≠ .killed (.removePassword password) n) :
    KeyCared X h (sampleAct e) := by
  refine ⟨Sample.env_noFaults 1, ?_⟩
  rintro s password (he | ⟨n, he⟩) -
  · exact absurd he (hop password)
  · exact absurd he (hkilled password n)

/-- A key store that works, and no password. -/
abbrev unusedSessions : System Host Act := sessions Sample.plainCrates true (Unused Sample.plainCrates)

theorem unusedSessions_init : unusedSessions.init (sampleStart none) := ⟨⟨rfl, rfl⟩, rfl, rfl⟩

/-- A setup remembers the key of its password. -/
theorem remembered_after_setup :
    ∃ h key, unusedSessions.runFrom (sampleStart none)
        [sampleAct .start, sampleAct (.op (.setup "secret"))] = some h ∧
      h.world.keychain = some key ∧
      KeyOf Sample.plainCrates (persisted Sample.plainCrates h.world.view) key := by
  have hrun : (unusedSessions.runFrom (sampleStart none)
      [sampleAct .start, sampleAct (.op (.setup "secret"))]).any
        (fun h => h.world.keychain.isSome) = true := by
    decide +kernel
  obtain ⟨h, hh, hkey⟩ := (Option.any_eq_true _ _).mp hrun
  obtain ⟨key, hkey⟩ := Option.isSome_iff_exists.mp hkey
  have hcared : unusedSessions.Meets (KeyCared Sample.plainCrates) (sampleStart none)
      [sampleAct .start, sampleAct (.op (.setup "secret"))] :=
    ⟨keyCared_sampleAct nofun nofun, fun _ _ => ⟨keyCared_sampleAct nofun nofun, fun _ _ => trivial⟩⟩
  have hreach := System.runFrom_reachableIf (.init unusedSessions_init) hcared hh
  exact ⟨h, key, hh, hkey, ((remembered_of_runs hreach).1 key hkey).1⟩

/-- `remove_password` leaves it there. -/
theorem remembered_after_remove :
    ∃ h key, unusedSessions.runFrom (sampleStart none) [sampleAct .start,
        sampleAct (.op (.setup "secret")), sampleAct (.op (.removePassword "secret"))] = some h ∧
      h.world.keychain = some key ∧
      ¬ KeyOf Sample.plainCrates (persisted Sample.plainCrates h.world.view) key := by
  have hrun : (unusedSessions.runFrom (sampleStart none) [sampleAct .start,
      sampleAct (.op (.setup "secret")), sampleAct (.op (.removePassword "secret"))]).any (fun h =>
        h.world.keychain.isSome && (h.world.view.files .authJson).isNone) = true := by
    decide +kernel
  obtain ⟨h, hh, hleft⟩ := (Option.any_eq_true _ _).mp hrun
  obtain ⟨hkey, hnone⟩ := Bool.and_eq_true_iff.mp hleft
  obtain ⟨key, hkey⟩ := Option.isSome_iff_exists.mp hkey
  refine ⟨h, key, hh, hkey, fun hof => ?_⟩
  have hen := hof.1
  rw [persisted_none (Option.isNone_iff_eq_none.mp hnone)] at hen
  cases hen

end GnDrive.Auth.Sessions
