/-
  GnDrive.Auth.RoundTrip

  Lock after setup or unlock, then unlock again, on a file system whose calls
  do not fail.

  `encrypt_file` takes a file of any length, and the blob of an empty file is
  28 bytes long; `decrypt_file` refuses every blob of 28 bytes or less.  So
  the round trip works exactly when no config file is empty
  (`roundTrip_iff`), and one empty file keeps the whole app locked.
-/

import GnDrive.Auth.Accepted
import GnDrive.Auth.CrashSafety

namespace GnDrive.Auth

open Argon2id (StoredKey)
open Crypto (Sealed opens spec_encryptFile spec_decryptFile)

-- ============================================================================
-- One file
-- ============================================================================

/-- `encrypt_file` from `src` to `dst`, then `decrypt_file` from `dst` to
    `out`. -/
def encryptDecrypt (a : Aead) (src dst out : Name) (key : Bytes) :
    ExceptT Crypto.CryptoError Io Unit := do
  Crypto.encryptFile a src dst key
  Crypto.decryptFile a dst out key

section File

variable {env : Env} {a : Aead} {src dst out : Name} {key plain : Bytes} {v : View}

theorem spec_encryptDecrypt (henv : env.NoFaults) (hkey : key.length = 32)
    (hsrc : v.files src = some plain) :
    Spec env (fun _ => True) (encryptDecrypt a src dst out key).run
      (fun r v' => (r = .ok () → v'.files out = some plain) ∧ (r = .ok () ↔ plain ≠ [])) v := by
  have hnof : ∀ {k c n m}, env.fails k c = true → c = .read (.file n) ∨ Crypto.WritesTo m c →
      False := by
    intro k c n m hk hc
    refine not_faulty henv (P := fun c => c = .read (.file n) ∨ Crypto.WritesTo m c) ?_
      ⟨k, c, hk, hc⟩
    rintro c (rfl | hw)
    · rfl
    · exact onFiles_of_writesTo hw
  refine spec_except_bind (spec_encryptFile trivial hkey (fun _ _ _ _ => trivial) ?_
    (fun h => ?_) fun k c hk hc => (hnof hk hc).elim)
  · intro p blob hp hs
    obtain rfl : plain = p := Option.some.inj (hsrc.symm.trans hp)
    refine spec_decryptFile trivial (View.put_files_self ..) (fun _ _ => trivial) ?_ ?_
      fun k c hk hc => (hnof hk hc).elim
    · intro p ho
      obtain rfl := hs.opens_some ho
      refine ⟨fun _ => View.put_files_self .., fun _ hnil => ?_, fun _ => rfl⟩
      subst hnil
      rw [hs.opens_nil] at ho
      cases ho
    · intro ho
      refine ⟨nofun, nofun, fun hne => ?_⟩
      rw [hs.opens_eq hkey hne] at ho
      cases ho
  · rw [hsrc] at h; cases h

end File

-- ============================================================================
-- The whole config
-- ============================================================================

/-- The operation the round trip starts with. -/
inductive First where
  | setup
  | unlock

def First.prog (X : Crates) (keyStore : Bool) (password : String) : First → AuthM Unit
  | .setup => setupPassword X keyStore password
  | .unlock => Auth.unlock X keyStore password

/-- Where that operation is called: on a service without a password and with
    its files as plaintext, or on a locked one.  `c` are the contents. -/
def First.Start (X : Crates) (c : ConfigFile → Option Bytes) (s : State) (v : View) :
    First → Prop
  | .setup => s.authData.enabled = false ∧
      ∀ f, v.files (.plain f) = c f ∧ v.files (.enc f) = none
  | .unlock => s.authData.enabled = true ∧ s.unlocked = false ∧
      ∃ salt key, StoredKey X.argon2 s.authData.passwordHash salt key ∧ Kept X.aead key c v

/-- Lock and unlock after `s` and `w`: the result of the unlock and the world
    it leaves. -/
def lockUnlock (X : Crates) (keyStore : Bool) (env : Env) (password : String) (s : State)
    (w : World) : Except AuthError Unit × World :=
  let locked := runAuth env (lock X keyStore) s w
  let r := runAuth env (unlock X keyStore password) locked.1.2 locked.2
  (r.1.1, r.2)

/-- The unlock succeeds, and every file is as it was. -/
def Restored (c : ConfigFile → Option Bytes) (r : Except AuthError Unit × World) : Prop :=
  r.1 = .ok () ∧ ∀ f, r.2.view.files (.plain f) = c f ∧ r.2.view.files (.enc f) = none

/-- The service holds the key behind its hash, and all files are plaintext. -/
structure Open (X : Crates) (password : String) (salt key : Bytes)
    (c : ConfigFile → Option Bytes) (s : State) (v : View) : Prop where
  unlocked : s.unlocked = true
  enabled : s.authData.enabled = true
  encKey : s.encKey = some key
  noLockout : s.authData.lockoutUntil = ""
  stored : StoredKey X.argon2 s.authData.passwordHash salt key
  derives : Argon2id.deriveKey X.argon2 password salt = .ok key
  files : ∀ f, v.files (.plain f) = c f ∧ v.files (.enc f) = none

section

variable {env : Env} {X : Crates} {keyStore : Bool} {password : String}
  {c : ConfigFile → Option Bytes} {s : State} {v : View} {salt key : Bytes}

/-- After a setup or an unlock that succeeds the service is open. -/
theorem auth_first (henv : env.NoFaults) {first : First} (hstart : first.Start X c s v) :
    ASpec env (fun _ => True) (first.prog X keyStore password)
      (fun r s' v' => r = .ok () → ∃ salt key, Open X password salt key c s' v') s v := by
  cases first with
  | setup =>
    obtain ⟨-, hfiles⟩ := hstart
    refine auth_setupPassword trivial nofun fun _ hash salt key hstored hkey d hd => ?_
    have hopen : ∀ v', (∀ f, Same v v' f) → Open X password salt key c
        { s with authData := d, encKey := some key, unlocked := true } v' := by
      intro v' hs
      subst hd
      refine ⟨rfl, rfl, rfl, rfl, hstored, hkey, fun f => ?_⟩
      rw [(hs f).1, (hs f).2]
      exact hfiles f
    exact ⟨trivial, fun _ _ herr => (by cases herr), fun _ => ⟨trivial, fun _ => ⟨salt, key,
      hopen _ fun f => by simp [Same, saved]⟩⟩, fun _ _ => ⟨salt, key, hopen _ fun f => by simp [Same, saved]⟩⟩
  | unlock =>
    obtain ⟨hen, hlocked, salt, key, hstored, hkept⟩ := hstart
    refine auth_mono (J := fun _ => True) (fun _ _ => trivial) ?_
      (auth_unlock_locked (I := Kept X.aead key c) henv hkept
      (fun _ _ h hs => h.decStep hs) (fun _ d h _ _ => h.saved X d) (fun _ h => h.keychain _)
      hstored hen hlocked)
    rintro r s' v' - ⟨hkept', hen', hhash, hr⟩ rfl
    obtain ⟨hver, hu, hk, hlock, hfiles⟩ := hr
    refine ⟨salt, key, hu, hen'.trans hen, hk, hlock, hhash ▸ hstored, hstored.verify_iff.mp hver,
      fun f => ⟨hkept'.plain_eq (hfiles f).1, (hfiles f).1⟩⟩

/-- Locking an open service leaves every file encrypted under its key. -/
theorem auth_lock_open (keyStore : Bool) (henv : env.NoFaults) (ho : Open X password salt key c s v) :
    ASpec env (fun _ => True) (lock X keyStore) (fun _ s' v' =>
      s'.authData = s.authData ∧ s'.unlocked = false ∧ Kept X.aead key c v' ∧
      ∀ f, v'.files (.plain f) = none) s v := by
  have hkept : Kept X.aead key c v := by
    refine ⟨fun hp => ?_, fun he => ?_, fun hc => ?_⟩
    · rw [(ho.files _).1] at hp; exact hp
    · rw [(ho.files _).2] at he; cases he
    · exact .inl (by rw [(ho.files _).1, hc]; rfl)
  refine auth_lock (auth_suspend trivial (fun h => ?_) (fun k _ hk => ?_) (fun _ _ _ _ => trivial) ?_)
  · rw [ho.unlocked, ho.encKey] at h
    rcases h with h | h <;> cases h
  · rw [ho.encKey] at hk
    exact Option.some.inj hk ▸ ho.stored.key_length
  · intro k r v' t _ hk hs hpost
    obtain rfl : key = k := Option.some.inj (ho.encKey.symm.trans hk)
    have hkept' := hkept.encSteps hs
    have hplain : ∀ f, v'.files (.plain f) = none := fun f => ((hpost.all henv).2 f).1
    refine ⟨trivial, nofun, fun _ => ⟨rfl, rfl, hkept', hplain⟩, fun _ => ⟨trivial, ?_⟩,
      fun _ => ⟨rfl, rfl, hkept', hplain⟩⟩
    exact ⟨rfl, rfl, hkept'.keychain none, hplain⟩

/-- Unlocking again restores the files unless one of them is empty. -/
theorem auth_unlock_again (henv : env.NoFaults)
    (hstored : StoredKey X.argon2 s.authData.passwordHash salt key)
    (hkey : Argon2id.deriveKey X.argon2 password salt = .ok key)
    (hen : s.authData.enabled = true) (hlock : s.authData.lockoutUntil = "")
    (hu : s.unlocked = false) (hkept : Kept X.aead key c v)
    (hplain : ∀ f, v.files (.plain f) = none) :
    ASpec env (fun _ => True) (unlock X keyStore password)
      (fun r _ v' => (r = .ok () ∧ ∀ f, v'.files (.plain f) = c f ∧ v'.files (.enc f) = none) ↔
        ∀ f, c f ≠ some []) s v := by
  refine auth_mono (J := fun _ => True) (fun _ _ => trivial) ?_
    (auth_unlock_locked (I := Kept X.aead key c) henv hkept
    (fun _ _ h hs => h.decStep hs) (fun _ d h _ _ => h.saved X d) (fun _ h => h.keychain _)
    hstored hen hu)
  rintro r s' v' - ⟨hkept', -, -, hr⟩
  cases r with
  | ok u =>
    obtain ⟨-, -, -, -, hfiles⟩ := hr
    refine ⟨fun _ f hc => ?_, fun _ => ⟨rfl, fun f => ⟨hkept'.plain_eq (hfiles f).1, (hfiles f).1⟩⟩⟩
    -- an empty file is there as a blob that does not open
    rcases (hkept.present hc) with hp | he
    · rw [hplain] at hp; cases hp
    · obtain ⟨blob, hblob⟩ := Option.isSome_iff_exists.mp he
      obtain ⟨p, hc', hs⟩ := hkept.enc hblob
      obtain rfl : p = [] := Option.some.inj (hc'.symm.trans hc)
      rcases (hfiles f).2 with ⟨hnone, -⟩ | ⟨blob', p, hblob', ho, -⟩
      · rw [hnone] at hblob; cases hblob
      · obtain rfl := Option.some.inj (hblob.symm.trans hblob')
        rw [hs.opens_nil] at ho
        cases ho
  | error e =>
    refine ⟨nofun, fun hne => ?_⟩
    obtain ⟨-, -, ⟨k, hk⟩ | hver | ⟨f, blob, hblob, ho⟩⟩ := hr
    · exact absurd (activeLockoutAt_of_empty hlock _) hk
    · rw [hstored.verify_iff.mpr hkey] at hver; cases hver
    · obtain ⟨p, hc, hs⟩ := hkept.enc hblob
      rw [hs.opens_eq hstored.key_length fun hp => hne f (hp ▸ hc)] at ho
      cases ho

end

/-- The round trip restores every file, and leaves absent files absent,
    exactly when no config file is empty; for a single file, exactly when it
    is not empty. -/
theorem roundTrip_iff {env : Env} {X : Crates} {keyStore : Bool} {password : String} {first : First}
    {c : ConfigFile → Option Bytes} {s : State} {w : World} (henv : env.NoFaults)
    (hstart : first.Start X c s w.view)
    (hfirst : (runAuth env (first.prog X keyStore password) s w).1.1 = .ok ()) :
    (Restored c (lockUnlock X keyStore env password
        (runAuth env (first.prog X keyStore password) s w).1.2
        (runAuth env (first.prog X keyStore password) s w).2) ↔
      ∀ f, c f ≠ some []) ∧
    ∀ src dst out key plain, key.length = 32 → w.view.files src = some plain →
      let r := Prog.run (exec env) (encryptDecrypt X.aead src dst out key).run w
      (r.1 = .ok () ∧ r.2.view.files out = some plain) ↔ plain ≠ [] := by
  refine ⟨?_, fun src dst out key plain hkey hsrc => ?_⟩
  · obtain ⟨salt, key, ho⟩ := auth_run (auth_first henv hstart) hfirst
    obtain ⟨hauth, hu, hkept, hplain⟩ := auth_run (auth_lock_open keyStore henv ho)
    refine auth_run (auth_unlock_again henv ?_ ho.derives ?_ ?_ hu hkept hplain)
    · rw [hauth]; exact ho.stored
    · rw [hauth]; exact ho.enabled
    · rw [hauth]; exact ho.noLockout
  · have hfile : Spec env (fun _ => True) (encryptDecrypt X.aead src dst out key).run _ w.view :=
      spec_encryptDecrypt henv hkey hsrc
    obtain ⟨hout, hiff⟩ := spec_run hfile
    exact ⟨fun h => hiff.mp h.1, fun h => ⟨hiff.mpr h, hout (hiff.mpr h)⟩⟩

/-- Contents of which the first file is empty. -/
def Sample.emptyConf : ConfigFile → Option Bytes
  | .rcloneConf => some []
  | .gnDriveDb => some [7]

/-- A service without a password. -/
def Sample.fresh : State := ⟨true, none, .default, none⟩

theorem Sample.fresh_start (c : ConfigFile → Option Bytes) :
    First.setup.Start Sample.crates c Sample.fresh (Sample.world c none).view :=
  ⟨rfl, fun _ => ⟨Sample.world_plain .., Sample.world_enc ..⟩⟩

/-- The setup, with the hash and the key. -/
theorem Sample.setup_prog (c : ConfigFile → Option Bytes) :
    runAuth (Sample.env 1) (First.setup.prog Sample.crates true "secret") Sample.fresh
        (Sample.world c none) =
      runAuth (Sample.env 1) (setupWith Sample.crates true (Sample.hashOf "secret" 1)
        (Sample.keyOf "secret" 1)) Sample.fresh (Sample.world c none).tock :=
  Sample.setupPassword_drawn rfl rfl (by decide) 1 _

/-- Both files have content: the round trip restores them. -/
theorem roundTrip_nonempty :
    Restored (fun _ => some [7]) (lockUnlock Sample.crates true (Sample.env 1) "secret"
      (runAuth (Sample.env 1) (First.setup.prog Sample.crates true "secret") Sample.fresh
        (Sample.world (fun _ => some [7]) none)).1.2
      (runAuth (Sample.env 1) (First.setup.prog Sample.crates true "secret") Sample.fresh
        (Sample.world (fun _ => some [7]) none)).2) := by
  have hok : (runAuth (Sample.env 1) (First.setup.prog Sample.crates true "secret") Sample.fresh
      (Sample.world (fun _ => some [7]) none)).1.1 = .ok () := by
    rw [Sample.setup_prog]
    rfl
  have hiff := roundTrip_iff (Sample.env_noFaults 1) (Sample.fresh_start _) hok
  exact hiff.1.mpr (by simp)

theorem lockUnlock_result (X : Crates) (keyStore : Bool) (env : Env) (password : String) (s : State)
    (w : World) : (lockUnlock X keyStore env password s w).1 =
      (runAuth env (unlock X keyStore password) (runAuth env (lock X keyStore) s w).1.2
        (runAuth env (lock X keyStore) s w).2).1.1 := rfl

theorem Sample.unlock_checked {s : State} (hu : s.unlocked = false)
    (hauth : s.authData = Sample.authData "secret" 1) (w : World) :
    runAuth (Sample.env 1) (unlock Sample.crates true "secret") s w =
      runAuth (Sample.env 1) (openKey Sample.crates true (Sample.keyOf "secret" 1)) s w := by
  have hkey : Argon2id.deriveKey Sample.crates.argon2 "secret" (List.replicate 32 1) =
      .ok (Sample.keyOf "secret" 1) := Sample.deriveKey_eq "secret" 1
  -- the check does not look at the hash
  have hcheck : ∀ hash k t, runAuth (Sample.env 1) (unlock Sample.crates true "secret")
        ⟨false, k, ⟨.default, true, 0, "", hash⟩, t⟩ w =
      runAuth (Sample.env 1) (unlockVerify Sample.crates true "secret")
        ⟨false, k, ⟨.default, true, 0, "", hash⟩, t⟩ w := fun _ _ _ => rfl
  obtain ⟨u, k, d, t⟩ := s
  subst hu hauth
  refine (hcheck _ k t).trans ?_
  rw [runAuth, unlockVerify_checked (Sample.storedKey "secret" 1), if_pos hkey]
  rfl

/-- The service set up with an empty `rclone.conf`. -/
def Sample.emptySetup : (Except AuthError Unit × State) × World :=
  runAuth (Sample.env 1) (setupWith Sample.crates true (Sample.hashOf "secret" 1)
    (Sample.keyOf "secret" 1)) Sample.fresh (Sample.world Sample.emptyConf none).tock

theorem Sample.setup_empty : runAuth (Sample.env 1) (First.setup.prog Sample.crates true "secret")
    Sample.fresh (Sample.world Sample.emptyConf none) = Sample.emptySetup := Sample.setup_prog _

theorem Sample.emptySetup_ok : Sample.emptySetup.1.1 = .ok () := rfl

/-- The open service after a lock. -/
theorem Sample.emptySetup_locked :
    (runAuth (Sample.env 1) (lock Sample.crates true) Sample.emptySetup.1.2
      Sample.emptySetup.2).1.2.authData = Sample.authData "secret" 1 ∧
    (runAuth (Sample.env 1) (lock Sample.crates true) Sample.emptySetup.1.2
      Sample.emptySetup.2).1.2.unlocked = false := by
  have hfirst : ASpec (Sample.env 1) (fun _ => True)
      (First.setup.prog Sample.crates true "secret") _ Sample.fresh _ :=
    auth_first (Sample.env_noFaults 1) (Sample.fresh_start Sample.emptyConf)
  obtain ⟨salt, key, ho⟩ := auth_run hfirst (by rw [Sample.setup_empty]; exact Sample.emptySetup_ok)
  rw [Sample.setup_empty] at ho
  obtain ⟨hauth, hu, -⟩ := auth_run (auth_lock_open true (Sample.env_noFaults 1) ho)
  exact ⟨hauth, hu⟩

/-- Setup succeeds with an empty `rclone.conf`, and the unlock after the next
    lock fails, also for that file alone. -/
theorem roundTrip_empty :
    (runAuth (Sample.env 1) (First.setup.prog Sample.crates true "secret") Sample.fresh
        (Sample.world Sample.emptyConf none)).1.1 = .ok () ∧
    (lockUnlock Sample.crates true (Sample.env 1) "secret"
      (runAuth (Sample.env 1) (First.setup.prog Sample.crates true "secret") Sample.fresh
        (Sample.world Sample.emptyConf none)).1.2
      (runAuth (Sample.env 1) (First.setup.prog Sample.crates true "secret") Sample.fresh
        (Sample.world Sample.emptyConf none)).2).1 = .error (.crypto .decryptionFailed) ∧
    (Prog.run (exec (Sample.env 1)) (encryptDecrypt Sample.aead (.plain .rcloneConf)
      (.enc .rcloneConf) (.plain .rcloneConf) (List.replicate 32 1)).run
      (Sample.world Sample.emptyConf none)).1 = .error .decryptionFailed := by
  have hopen : (lockUnlock Sample.crates true (Sample.env 1) "secret"
      Sample.emptySetup.1.2 Sample.emptySetup.2).1 = .error (.crypto .decryptionFailed) := by
    obtain ⟨hauth, hu⟩ := Sample.emptySetup_locked
    rw [lockUnlock_result, Sample.unlock_checked hu hauth]
    decide +kernel
  rw [Sample.setup_empty]
  exact ⟨Sample.emptySetup_ok, hopen, by decide +kernel⟩

end GnDrive.Auth
