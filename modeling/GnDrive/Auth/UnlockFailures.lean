/-
  GnDrive.Auth.UnlockFailures

  What `unlock` leaves behind when it returns an error.

  `decrypt_config_files` opens the files one after the other and removes each
  sealed copy as it goes.  When `gn-drive.db.enc` then cannot be decrypted, or
  its content not written, `rclone.conf` stays open on the disk of a locked
  service.  `unlock_atomic_iff` says for every set of calls that may fail that
  there is nothing else.
-/

import GnDrive.Auth.Faults
import GnDrive.Auth.Instance

namespace GnDrive.Auth

open AuthM
open Crypto (opens)

variable {X : Crates} {keyStore : Bool} {may : Site → Prop} {env : Env} {password : String}
  {s : State} {v : View}

/-- A failed `unlock` leaves the config files and their sealed copies as they
    were, and the service as locked as it was. -/
def UnlockAtomic (env : Env) (X : Crates) (keyStore : Bool) (password : String) (s : State)
    (w : World) : Prop :=
  let r := runAuth env (unlock X keyStore password) s w
  ∀ e, r.1.1 = .error e →
    (∀ f, Same w.view r.2.view f) ∧
    r.1.2.unlocked = s.unlocked ∧ r.1.2.encKey = s.encKey ∧ r.1.2.lockedAt = s.lockedAt

/-- The password is right, `rclone.conf.enc` opens, and `gn-drive.db.enc` is
    there and may not. -/
def HalfOpens (X : Crates) (may : Site → Prop) (password : String) (s : State) (v : View) : Prop :=
  s.authData.enabled = true ∧ s.unlocked = false ∧
  Argon2id.verify X.argon2 password s.authData.passwordHash = true ∧
  ∃ salt key, Argon2id.extractSalt s.authData.passwordHash = .ok salt ∧
    Argon2id.deriveKey X.argon2 password salt = .ok key ∧
    (∃ blob plain, v.files (.enc .rcloneConf) = some blob ∧ opens X.aead key blob = some plain) ∧
    ∃ blob, v.files (.enc .gnDriveDb) = some blob ∧ Jams may X.aead key .gnDriveDb blob

-- ============================================================================
-- One run
-- ============================================================================

/-- What an accepted password comes to, by how the pass over the files ends. -/
theorem auth_openWith_pass :
    ASpec env (fun _ => True) (openWith X keyStore password) (fun r s' v' =>
      (∃ e, r = .error e) ∧ s' = s ∧ v' = v ∧
        (∀ salt key, Argon2id.extractSalt s.authData.passwordHash = .ok salt →
          Argon2id.deriveKey X.argon2 password salt ≠ .ok key) ∨
      ∃ salt key, Argon2id.extractSalt s.authData.passwordHash = .ok salt ∧
        Argon2id.deriveKey X.argon2 password salt = .ok key ∧
        match r with
        | .ok _ => ∃ v₁, DecPass env X.aead key v (.ok ()) v₁
        | .error e => s' = s ∧ DecPass env X.aead key v (.error e) v') s v := by
  refine auth_bind (auth_get trivial (auth_bind (auth_argon trivial (fun salt hsalt => ?_)
    fun e he => .inl ⟨⟨_, rfl⟩, rfl, rfl, fun salt key hsalt => by rw [he] at hsalt; cases hsalt⟩)))
  refine auth_bind (auth_argon trivial (fun key hkey => ?_) fun e he =>
    .inl ⟨⟨_, rfl⟩, rfl, rfl, fun salt' key hsalt' hkey => ?_⟩)
  · refine auth_bind (auth_attempt (spec_mono (fun _ _ => trivial) ?_ spec_decryptConfigFiles_pass))
    intro r v' _ hpass
    cases r with
    | error e => exact .inr ⟨salt, key, hsalt, hkey, rfl, hpass⟩
    | ok u =>
      refine auth_bind (auth_modify trivial (auth_bind (auth_get trivial (auth_bind (auth_io
        (spec_any fun _ _ => ?_))))))
      exact auth_bind (auth_io (spec_any fun _ _ =>
        auth_modify trivial (.inr ⟨salt, key, hsalt, hkey, v', hpass⟩)))
  · obtain rfl : salt = salt' := Except.ok.inj (hsalt.symm.trans hsalt')
    rw [he] at hkey
    cases hkey

/-- A pass that stops before it has opened a file has changed nothing. -/
theorem same_or_halfOpens {key : Bytes} {e : AuthError} {v' : View} (henv : env.Within may)
    (h : DecPass env X.aead key v (.error e) v') :
    (∀ f, Same v v' f) ∨
      (∃ blob plain, v.files (.enc .rcloneConf) = some blob ∧ opens X.aead key blob = some plain) ∧
      ∃ blob, v.files (.enc .gnDriveDb) = some blob ∧ Jams may X.aead key .gnDriveDb blob := by
  obtain ⟨ys, zs, hxs, hys, hzs, f, zs', rfl, hstop⟩ := h
  rcases split_CONFIG_FILES hxs with ⟨rfl, rfl, rfl⟩ | ⟨rfl, rfl, rfl⟩
  · refine .inl fun f => hzs f ?_
    rw [← List.nil_append (ConfigFile.rcloneConf :: _), ← hxs]
    exact mem_CONFIG_FILES f
  · have hdb : Same v v' .gnDriveDb := hzs _ (by simp)
    rcases (hys .rcloneConf (by simp)).1 with ⟨-, hsame⟩ | ⟨blob, plain, he, ho, -, -⟩
    · exact .inl fun f => by cases f <;> assumption
    · exact .inr ⟨⟨blob, plain, he, ho⟩, jams_of_stop henv hstop⟩

theorem auth_unlock_atomic (henv : env.Within may) (hnot : ¬ HalfOpens X may password s v) :
    ASpec env (fun _ => True) (unlock X keyStore password) (fun r s' v' =>
      ∀ e, r = .error e → (∀ f, Same v v' f) ∧
        s'.unlocked = s.unlocked ∧ s'.encKey = s.encKey ∧ s'.lockedAt = s.lockedAt) s v := by
  have hsame : ∀ f, Same v v f := Same.refl v
  refine auth_unlock trivial (fun _ _ _ => ⟨hsame, rfl, rfl, rfl⟩) (fun _ _ => nofun)
    (fun _ _ _ _ _ _ => ⟨hsame, rfl, rfl, rfl⟩) fun hen hu => ?_
  refine auth_unlockVerify trivial (fun _ => ?_) fun hverify => ?_
  · -- the wrong password
    refine auth_recordFailure trivial fun d _ => ⟨trivial, fun _ _ => ⟨fun f => ?_, rfl, rfl, rfl⟩,
      fun _ _ _ => ⟨hsame, rfl, rfl, rfl⟩⟩
    simp [Same, saved]
  · refine auth_mono (fun _ h => h) ?_ auth_openWith_pass
    rintro r s' v' - (⟨-, rfl, rfl, -⟩ | ⟨salt, key, hsalt, hkey, hend⟩) e rfl
    · exact ⟨hsame, rfl, rfl, rfl⟩
    · obtain ⟨rfl, hpass⟩ := hend
      rcases same_or_halfOpens henv hpass with h | ⟨hfirst, hsecond⟩
      · exact ⟨h, rfl, rfl, rfl⟩
      · exact absurd ⟨hen, hu, hverify, salt, key, hsalt, hkey, hfirst, hsecond⟩ hnot

/-- `rclone.conf.enc` opens and is removed, and then the pass stops at
    `gn-drive.db.enc`. -/
theorem auth_unlock_halfOpen {salt key blob plain blob' : Bytes}
    (hen : s.authData.enabled = true) (hu : s.unlocked = false)
    (hverify : Argon2id.verify X.argon2 password s.authData.passwordHash = true)
    (hsalt : Argon2id.extractSalt s.authData.passwordHash = .ok salt)
    (hkey : Argon2id.deriveKey X.argon2 password salt = .ok key)
    (he : v.files (.enc .rcloneConf) = some blob) (ho : opens X.aead key blob = some plain)
    (he' : v.files (.enc .gnDriveDb) = some blob')
    (hlook : ∀ f, Live env (.look (.enc f))) (hread : Live env (.read (.enc .rcloneConf)))
    (hwrite : Live env (.write (.plain .rcloneConf)))
    (hremove : Live env (.remove (.enc .rcloneConf)))
    (hclock : ∀ k, activeLockoutAt X.rfc3339 s.authData (env.now k) = none)
    (hjam : Jams (Dead env) X.aead key .gnDriveDb blob') :
    ASpec env (fun _ => True) (unlock X keyStore password) (fun r _ v' =>
      (∃ e, r = .error e) ∧ v'.files (.enc .rcloneConf) = none) s v := by
  refine auth_unlock trivial (fun h => ?_) (fun _ h => ?_) (fun k secs _ h => ?_) fun _ _ => ?_
  · rw [hen] at h; cases h
  · rw [hu] at h; cases h
  · rw [hclock k] at h; cases h
  refine auth_unlockVerify trivial (fun h => ?_) fun _ => ?_
  · have hwrong : Argon2id.verify X.argon2 password s.authData.passwordHash = false := h
    rw [hverify] at hwrong
    cases hwrong
  refine auth_mono (fun _ h => h) ?_ auth_openWith_pass
  have hnotend : ∀ v', ¬ DecEnd env X.aead key v v' .gnDriveDb :=
    fun v' => not_decEnd (hlook _) he' hjam
  rintro r s' v' - (⟨-, -, -, hno⟩ | ⟨salt', key', hsalt', hkey', hend⟩)
  · exact absurd hkey (hno salt key hsalt)
  · obtain rfl : salt = salt' := Except.ok.inj (hsalt.symm.trans hsalt')
    obtain rfl : key = key' := Except.ok.inj (hkey.symm.trans hkey')
    cases r with
    | ok u =>
      obtain ⟨v₁, hpass⟩ := hend
      exact absurd (hpass.all .gnDriveDb) (hnotend v₁)
    | error e =>
      obtain ⟨-, ys, zs, hxs, hys, -, f, zs', rfl, hstop⟩ := hend
      refine ⟨⟨e, rfl⟩, ?_⟩
      rcases split_CONFIG_FILES hxs with ⟨rfl, rfl, rfl⟩ | ⟨rfl, rfl, rfl⟩
      · -- it does not stop at the first file
        rcases hstop.1 with ⟨k, c, hk, rfl | hc⟩ | ⟨blob₁, he₁, ho₁⟩
        · rw [hread k _ rfl] at hk; cases hk
        · rw [hwrite k c (site_of_writesTo hc)] at hk; cases hk
        · obtain rfl : blob = blob₁ := Option.some.inj (he.symm.trans he₁)
          rw [ho] at ho₁; cases ho₁
      · rcases (hys .rcloneConf (by simp)).1 with ⟨h₀ | ⟨k, c, hk, rfl⟩, -⟩ |
          ⟨-, -, -, -, -, h₀ | ⟨-, k, c, hk, rfl⟩⟩
        · rw [he] at h₀; cases h₀
        · rw [hlook _ k _ rfl] at hk; cases hk
        · exact h₀
        · rw [hremove k _ rfl] at hk; cases hk

-- ============================================================================
-- Every failure point
-- ============================================================================

/-- The clock may stand past any lockout. -/
theorem exists_clock (r : Rfc3339) (d : AuthData) : ∃ t, activeLockoutAt r d t = none := by
  unfold activeLockoutAt
  by_cases hempty : d.lockoutUntil = ""
  · exact ⟨0, if_pos hempty⟩
  · simp only [if_neg hempty]
    cases r.parse d.lockoutUntil with
    | none => exact ⟨0, rfl⟩
    | some t => exact ⟨t, by simp [remainingUntil]⟩

/-- Whatever calls may fail, an `unlock` that fails leaves everything as it
    was exactly when it does not get past `rclone.conf.enc` only to stop at
    `gn-drive.db.enc`. -/
theorem unlock_atomic_iff (X : Crates) (keyStore : Bool) (may : Site → Prop) (password : String)
    (s : State) (v : View) :
    (∀ env, env.Within may → ∀ w, w.view = v → UnlockAtomic env X keyStore password s w) ↔
      ¬ HalfOpens X may password s v := by
  constructor
  · rintro hatomic ⟨hen, hu, hverify, salt, key, hsalt, hkey, ⟨blob, plain, he, ho⟩, blob', he', hjam⟩
    obtain ⟨t, ht⟩ := exists_clock X.rfc3339 s.authData
    -- fail as little as will stop the second file
    obtain ⟨sites, hmay, honly, hstuck⟩ := hjam.sites
    have hlive : ∀ x, x ≠ .read (.enc .gnDriveDb) → x ≠ .write (.plain .gnDriveDb) →
        Live (Env.failing sites (fun _ => 0) t) x :=
      fun x h₁ h₂ => failing_live fun hx => (honly x hx).elim h₁ h₂
    have hspec : ASpec (Env.failing sites (fun _ => 0) t) (fun _ => True)
        (unlock X keyStore password) (fun r _ v' =>
          (∃ e, r = .error e) ∧ v'.files (.enc .rcloneConf) = none) s (World.ofView v).view := by
      rw [World.view_ofView]
      exact auth_unlock_halfOpen hen hu hverify hsalt hkey he ho he' (fun f => hlive _ nofun nofun)
        (hlive _ (by simp) nofun) (hlive _ nofun (by simp)) (hlive _ nofun nofun) (fun _ => ht)
        (hstuck.mono fun _ => failing_dead)
    have hrun := auth_run hspec
    obtain ⟨⟨e, herr⟩, hgone⟩ := hrun
    have hsame := ((hatomic _ (Env.failing_within hmay) (World.ofView v) (World.view_ofView v)
      e herr).1 .rcloneConf).2
    rw [hgone, World.view_ofView, he] at hsame
    cases hsame
  · rintro hnot env henv w rfl e herr
    exact auth_run (auth_unlock_atomic henv hnot) e herr

/-- `rclone.conf` is sealed under the key of `abcd`, and `gn-drive.db.enc` is
    too short to be anything. -/
def corruptWorld : World where
  disk
    | .file (.enc .rcloneConf) => some ⟨0, List.replicate 12 0 ++
        Sample.aead.encrypt (Sample.keyOf "abcd" 7) (List.replicate 12 0) [1, 2, 3]⟩
    | .file (.enc .gnDriveDb) => some ⟨1, [0]⟩
    | _ => none
  keychain := none
  placed := []
  tick := 0

/-- Nothing fails, and `rclone.conf` stays open under a locked service. -/
theorem unlock_not_atomic : ¬ UnlockAtomic (Sample.env 0) Sample.crates false "abcd"
    ⟨false, none, Sample.authData "abcd" 7, none⟩ corruptWorld := by
  intro hatomic
  have hstored := Sample.storedKey "abcd" 7
  have hkey := Sample.deriveKey_eq "abcd" 7
  have hlive : ∀ x, Live (Sample.env 0) x := fun _ _ _ _ => rfl
  have hsealed : Crypto.Sealed Sample.aead (Sample.keyOf "abcd" 7) [1, 2, 3]
      (List.replicate 12 0 ++
        Sample.aead.encrypt (Sample.keyOf "abcd" 7) (List.replicate 12 0) [1, 2, 3]) :=
    ⟨_, by simp [Crypto.NONCE_LEN], rfl⟩
  have hspec : ASpec (Sample.env 0) (fun _ => True) (unlock Sample.crates false "abcd")
      (fun r _ v' => (∃ e, r = .error e) ∧ v'.files (.enc .rcloneConf) = none)
      ⟨false, none, Sample.authData "abcd" 7, none⟩ corruptWorld.view :=
    auth_unlock_halfOpen rfl rfl (hstored.verify_iff.mpr hkey) hstored.extractSalt_eq hkey rfl
      (hsealed.opens_eq hstored.key_length (by simp)) rfl (fun _ => hlive _) (hlive _) (hlive _)
      (hlive _) (fun _ => activeLockoutAt_of_empty rfl _)
      (.inl (show opens Sample.aead (Sample.keyOf "abcd" 7) [0] = none from rfl))
  obtain ⟨⟨e, herr⟩, hgone⟩ := auth_run hspec
  have hsame := ((hatomic e herr).1 .rcloneConf).2
  rw [hgone] at hsame
  cases hsame

end GnDrive.Auth
