/-
  GnDrive.Auth.MutationFailures

  What the operations that change the auth data leave in memory when they
  return an error.

  `remove_password` refuses before it does anything.  `setup_password` and
  `set_app_settings` change the record and then save it, and keep the change
  when the save fails.  `change_password` puts the old hash back when the save
  fails, but not when the files do not open again after it, and it gives up
  key and session when they do not open after a failed encryption.
-/

import GnDrive.Auth.Faults
import GnDrive.Auth.Instance

namespace GnDrive.Auth

open AuthM
open Argon2id (StoredKey)
open Crypto (Sealed opens)
open Relation (ReflTransGen)

variable {X : Crates} {keyStore : Bool} {may : Site → Prop} {env : Env} {password : String}
  {s : State} {v : View} {key : Bytes} {hash : String}

inductive Mutation where
  | setupPassword (password : String)
  | changePassword (old new : String)
  | removePassword (password : String)
  | setAppSettings (settings : AppSettings)

def Mutation.run (X : Crates) (keyStore : Bool) : Mutation → AuthM Unit
  | .setupPassword password => GnDrive.Auth.setupPassword X keyStore password
  | .changePassword old new => GnDrive.Auth.changePassword X keyStore old new
  | .removePassword password => GnDrive.Auth.removePassword X password
  | .setAppSettings settings => GnDrive.Auth.setAppSettings X settings

/-- An operation that fails leaves the memory of the service as it was. -/
def MutationAtomic (env : Env) (X : Crates) (keyStore : Bool) (m : Mutation) (s : State)
    (w : World) : Prop :=
  let r := runAuth env (m.run X keyStore) s w
  ∀ e, r.1.1 = .error e → r.1.2 = s

/-- Saving `auth.json` may fail. -/
def SaveFails (may : Site → Prop) : Prop := may .createDir ∨ may (.write .authJson)

/-- What may stand in `<f>.enc` once `f` has been through a round of
    `encrypt_config_files`: the file sealed, or what was there before if `f`
    is missing or overlooked. -/
def SealedAs (may : Site → Prop) (a : Aead) (key : Bytes) (v : View) (f : ConfigFile)
    (blob : Bytes) : Prop :=
  (∃ plain, v.files (.plain f) = some plain ∧ Sealed a key plain blob) ∨
  (v.files (.plain f) = none ∨ may (.look (.plain f))) ∧ v.files (.enc f) = some blob

/-- All files are encrypted, and one of them may not open again. -/
def JamsAfterAll (may : Site → Prop) (a : Aead) (key : Bytes) (v : View) : Prop :=
  ∃ f blob, SealedAs may a key v f blob ∧ Jams may a key f blob

/-- The encryption may stop at `f`, and then a file before it or the sealed
    copy of another one may not open. -/
def JamsAfterSome (may : Site → Prop) (a : Aead) (key : Bytes) (v : View) : Prop :=
  ∃ ys f zs, CONFIG_FILES = ys ++ f :: zs ∧ (v.files (.plain f)).isSome ∧
    (may (.read (.plain f)) ∨ may (.write (.enc f))) ∧
    ∃ g blob, Jams may a key g blob ∧
      (g ∈ ys ∧ SealedAs may a key v g blob ∨ g ∈ f :: zs ∧ v.files (.enc g) = some blob)

/-- When an operation can fail with its change half made. -/
def Tears (X : Crates) (may : Site → Prop) (s : State) (v : View) : Mutation → Prop
  | .setupPassword password =>
      s.authData.enabled = false ∧ 4 ≤ password.length ∧ SaveFails may ∧
      ∃ salt key, salt.length = Argon2id.SALT_LENGTH ∧
        Argon2id.deriveKey X.argon2 password salt = .ok key
  | .changePassword old new =>
      s.authData.enabled = true ∧ s.unlocked = true ∧
      Argon2id.verify X.argon2 old s.authData.passwordHash = true ∧ 4 ≤ new.length ∧
      ∃ salt key, salt.length = Argon2id.SALT_LENGTH ∧
        Argon2id.deriveKey X.argon2 new salt = .ok key ∧
        (Argon2id.encodeHash salt key ≠ s.authData.passwordHash ∧ JamsAfterAll may X.aead key v ∨
          JamsAfterSome may X.aead key v)
  | .removePassword _ => False
  | .setAppSettings settings => settings ≠ s.authData.appSettings ∧ SaveFails may

-- ============================================================================
-- Saving
-- ============================================================================

theorem spec_saveAuthData_dead {d : AuthData} {I : View → Prop}
    {Q : Except AuthError Unit → View → Prop}
    (h : Dead env .createDir ∨ Dead env (.write .authJson)) (hI : I v) (hQ : ∀ e, Q (.error e) v) :
    Spec env I (saveAuthData X d).run Q v := by
  rcases h with h | h
  · refine spec_except_bind (Crypto.spec_tryIo (spec_call (c := .createDirAll) hI ?_))
    rintro w rfl
    have hf : env.fails w.tick .createDirAll = true := h _ _ rfl
    simpa [exec, hf] using ⟨hI, hQ _⟩
  · refine spec_except_bind (Crypto.spec_tryIo (spec_createDirAll hI ?_ fun _ _ => hQ _))
    exact Crypto.spec_tryIo (spec_writeAtomic0600_dead h hI fun e => hQ _)

theorem auth_setAppSettings_atomic {settings : AppSettings} (henv : env.Within may)
    (hnot : ¬ (settings ≠ s.authData.appSettings ∧ SaveFails may)) :
    ASpec env (fun _ => True) (setAppSettings X settings)
      (fun r s' _ => ∀ e, r = .error e → s' = s) s v := by
  refine auth_bind (auth_modify trivial (auth_bind (auth_get trivial (auth_attempt
    (spec_saveAuthData trivial trivial (fun _ => nofun) fun hf e _ _ => ?_)))))
  have heq : settings = s.authData.appSettings := by
    by_contra hne
    exact hnot ⟨hne, hf.within_save henv⟩
  rw [heq]

theorem auth_setAppSettings_torn {settings : AppSettings}
    (h : Dead env .createDir ∨ Dead env (.write .authJson)) :
    ASpec env (fun _ => True) (setAppSettings X settings) (fun r s' _ =>
      (∃ e, r = .error e) ∧ s'.authData.appSettings = settings) s v :=
  auth_bind (auth_modify trivial (auth_bind (auth_get trivial (auth_attempt
    (spec_saveAuthData_dead h trivial fun e => ⟨⟨e, rfl⟩, rfl⟩)))))

-- ============================================================================
-- Setup
-- ============================================================================

theorem auth_setupPassword_atomic (henv : env.Within may)
    (hnot : ¬ Tears X may s v (.setupPassword password)) :
    ASpec env (fun _ => True) (setupPassword X keyStore password)
      (fun r s' _ => ∀ e, r = .error e → s' = s) s v := by
  refine auth_bind (auth_get trivial (auth_bind (auth_reject trivial (fun hdis => ?_)
    fun _ _ _ => rfl)))
  refine auth_bind (auth_reject trivial (fun hlen => ?_) fun _ _ _ => rfl)
  refine auth_bind (auth_io (spec_randFill trivial fun k => ?_))
  refine auth_bind (auth_argon trivial (fun hash hhash => ?_) fun _ _ _ _ => rfl)
  obtain ⟨key, hkey, hstored⟩ := Argon2id.createHash_storedKey hhash
  refine auth_bind (auth_argon trivial (fun salt' _ => ?_) fun _ _ _ _ => rfl)
  refine auth_bind (auth_argon trivial (fun key' _ => ?_) fun _ _ _ _ => rfl)
  refine auth_bind (auth_modify trivial (auth_bind (auth_get trivial (auth_bind (auth_attempt
    (spec_saveAuthData trivial trivial ?_ fun hf => ?_))))))
  · exact auth_bind (auth_io (spec_any fun _ _ => auth_modify trivial fun _ => nofun))
  · refine absurd ⟨hdis, ?_, hf.within_save henv, _, key, env.bytes_length k _, hkey⟩ hnot
    simpa using hlen

theorem auth_setupPassword_torn {salt : Bytes} (hdis : s.authData.enabled = false)
    (hlen : 4 ≤ password.length) (hkey : Argon2id.deriveKey X.argon2 password salt = .ok key)
    (hsalt : ∀ k, env.bytes k Argon2id.SALT_LENGTH = salt)
    (h : Dead env .createDir ∨ Dead env (.write .authJson)) :
    ASpec env (fun _ => True) (setupPassword X keyStore password) (fun r s' _ =>
      (∃ e, r = .error e) ∧ s'.authData.enabled = true) s v := by
  have hhash : Argon2id.createHash X.argon2 password salt = .ok (Argon2id.encodeHash salt key) := by
    rw [Argon2id.createHash_eq, hkey]
    rfl
  have hstored : StoredKey X.argon2 (Argon2id.encodeHash salt key) salt key := ⟨rfl, password, hkey⟩
  refine auth_bind (auth_get trivial (auth_bind (auth_reject trivial (fun _ => ?_) fun h => ?_)))
  swap
  · rw [hdis] at h; cases h
  refine auth_bind (auth_reject trivial (fun _ => ?_) fun h => ?_)
  swap
  · have hshort : password.length < 4 := by simpa using h
    omega
  refine auth_bind (auth_io (spec_randFill trivial fun k => ?_))
  rw [hsalt k]
  refine auth_bind (auth_argon trivial (fun hash' hhash' => ?_) fun e he => ?_)
  swap
  · rw [hhash] at he; cases he
  obtain rfl : Argon2id.encodeHash salt key = hash' := Except.ok.inj (hhash.symm.trans hhash')
  refine auth_bind (auth_argon trivial (fun salt' hsalt' => ?_) fun e he => ?_)
  swap
  · rw [hstored.extractSalt_eq] at he; cases he
  obtain rfl : salt = salt' := Except.ok.inj (hstored.extractSalt_eq.symm.trans hsalt')
  refine auth_bind (auth_argon trivial (fun key' _ => ?_) fun e he => ?_)
  swap
  · rw [hkey] at he; cases he
  exact auth_bind (auth_modify trivial (auth_bind (auth_get trivial (auth_bind (auth_attempt
    (spec_saveAuthData_dead h trivial fun e => ⟨⟨e, rfl⟩, rfl⟩))))))

-- ============================================================================
-- A change of the password
-- ============================================================================

/-- How `change_password` ends once the files are encrypted. -/
theorem auth_commitChange_pass :
    ASpec env (fun _ => True) (commitChange X hash key) (fun r s' _ =>
      Faulty env SaveCmd ∧ s' = s ∨
      ∃ v', DecPass env X.aead key
          (saved X v { s.authData with passwordHash := hash }) r v' ∧
        ∀ e, r = .error e → s' = { s with authData := { s.authData with passwordHash := hash } })
      s v := by
  refine auth_bind (auth_get trivial (auth_bind (auth_modify trivial (auth_bind (auth_get trivial
    (auth_bind (auth_io (spec_saveAuthData trivial trivial ?_ fun hf e => ?_))))))))
  · refine auth_bind (auth_attempt (spec_mono (fun _ _ => trivial) ?_ spec_decryptConfigFiles_pass))
    intro r v' _ hpass
    cases r with
    | error e => exact .inr ⟨v', hpass, fun _ _ => rfl⟩
    | ok u => exact auth_modify trivial (.inr ⟨v', hpass, fun _ => nofun⟩)
  · refine auth_bind (auth_modify trivial (auth_bind (auth_io (spec_any fun _ _ => ?_))))
    exact auth_throw trivial (.inl ⟨hf, rfl⟩)

/-- How `change_password` ends from the encryption on. -/
theorem auth_reencrypt_pass (hkey : key.length = 32) :
    ASpec env (fun _ => True) (reencrypt X hash key) (fun r s' _ =>
      (∃ v₁, EncPass env X.aead key v (.ok ()) v₁ ∧
        (Faulty env SaveCmd ∧ s' = s ∨
          ∃ v', DecPass env X.aead key
              (saved X v₁ { s.authData with passwordHash := hash }) r v' ∧
            ∀ e, r = .error e →
              s' = { s with authData := { s.authData with passwordHash := hash } })) ∨
      ∃ e v₁ v₂, EncPass env X.aead key v (.error e) v₁ ∧ r = .error e ∧
        (DecPass env X.aead key v₁ (.ok ()) v₂ ∧ s' = s ∨
          ∃ e', DecPass env X.aead key v₁ (.error e') v₂ ∧
            s' = { s with encKey := none, unlocked := false })) s v := by
  refine auth_bind (auth_io (spec_mono (fun _ _ => trivial) ?_ (spec_encryptConfigFiles_pass hkey)))
  intro r v₁ _ hpass
  cases r with
  | ok u =>
    exact auth_mono (fun _ h => h) (fun r s' v' _ h => .inl ⟨v₁, hpass, h⟩) auth_commitChange_pass
  | error e =>
    refine auth_bind (auth_io (spec_mono (fun _ _ => trivial) ?_ spec_decryptConfigFiles_pass))
    intro r' v₂ _ hpass₂
    cases r' with
    | ok u => exact auth_throw trivial (.inr ⟨e, v₁, v₂, hpass, rfl, .inl ⟨hpass₂, rfl⟩⟩)
    | error e' =>
      exact auth_bind (auth_modify trivial (auth_throw trivial
        (.inr ⟨e, v₁, v₂, hpass, rfl, .inr ⟨e', hpass₂, rfl⟩⟩)))

/-- What stands in `<f>.enc` after a round that ended well. -/
theorem sealedAs_of_end {v' : View} {f : ConfigFile} {blob : Bytes} (henv : env.Within may)
    (h : EncEnd env X.aead key v v' f) (he : v'.files (.enc f) = some blob) :
    SealedAs may X.aead key v f blob := by
  rcases h.1 with ⟨hmiss, hsame⟩ | ⟨plain, blob', hp, hs, he', -⟩
  · refine .inr ⟨hmiss.imp_right fun hf => ?_, hsame.2.symm.trans he⟩
    exact hf.within henv (by rintro c rfl; rfl)
  · obtain rfl : blob' = blob := Option.some.inj (he'.symm.trans he)
    exact .inl ⟨plain, hp, hs⟩

theorem jamsAfterAll_of_stop {d : AuthData} {e : AuthError} {v₁ v₂ : View}
    (henv : env.Within may) (h : EncPass env X.aead key v (.ok ()) v₁)
    (h' : DecPass env X.aead key (saved X v₁ d) (.error e) v₂) : JamsAfterAll may X.aead key v := by
  obtain ⟨-, -, -, -, -, f, -, -, hstop⟩ := h'
  obtain ⟨blob, he, hjam⟩ := jams_of_stop henv hstop
  exact ⟨f, blob, sealedAs_of_end henv (h.all f) (by simpa [saved] using he), hjam⟩

theorem jamsAfterSome_of_stop {e e' : AuthError} {v₁ v₂ : View} (henv : env.Within may)
    (h : EncPass env X.aead key v (.error e) v₁)
    (h' : DecPass env X.aead key v₁ (.error e') v₂) : JamsAfterSome may X.aead key v := by
  obtain ⟨ys, zs, hxs, hys, hzs, f, zs', rfl, hfault, hsome⟩ := h
  obtain ⟨-, -, -, -, -, g, -, -, hstop⟩ := h'
  obtain ⟨blob, he, hjam⟩ := jams_of_stop henv hstop
  refine ⟨ys, f, zs', hxs, hsome, hfault.within_enc henv, g, blob, hjam, ?_⟩
  have hg := mem_CONFIG_FILES g
  rw [hxs] at hg
  rcases List.mem_append.mp hg with hg | hg
  · exact .inl ⟨hg, sealedAs_of_end henv (hys g hg) he⟩
  · exact .inr ⟨hg, (hzs g hg).2.symm.trans he⟩

/-- A new password that is too short changes nothing. -/
theorem auth_changePassword_short {old new : String} (h : new.length < 4) :
    ASpec env (fun _ => True) (changePassword X keyStore old new) (fun _ s' _ => s' = s) s v := by
  refine auth_bind (auth_get trivial (auth_bind (auth_reject trivial (fun _ => ?_) fun _ => rfl)))
  refine auth_bind (auth_reject trivial (fun _ => ?_) fun _ => rfl)
  refine auth_bind (auth_reject trivial (fun _ => ?_) fun _ => rfl)
  refine auth_bind (auth_reject trivial (fun hlen => ?_) fun _ => rfl)
  have hlong : ¬ new.length < 4 := by simpa using hlen
  exact absurd h hlong

theorem auth_changePassword_atomic {old new : String} (henv : env.Within may)
    (hnot : ¬ Tears X may s v (.changePassword old new)) :
    ASpec env (fun _ => True) (changePassword X keyStore old new)
      (fun r s' _ => ∀ e, r = .error e → s' = s) s v := by
  by_cases hlen : new.length < 4
  · exact auth_mono (fun _ h => h) (fun _ _ _ _ h _ _ => h) (auth_changePassword_short hlen)
  refine auth_changePassword trivial (fun _ _ _ => rfl) (fun _ => ⟨trivial, fun _ _ _ => rfl⟩) ?_
  rintro hen hu hverify v₁ hv₁ hash salt key ⟨k, rfl⟩ ⟨rfl, -⟩ hkey
  have hfiles : v₁.files = v.files := by
    rcases hv₁ with ⟨-, rfl⟩ | ⟨-, rfl⟩ <;> rfl
  have hneither : ¬ (Argon2id.encodeHash (env.bytes k Argon2id.SALT_LENGTH) key ≠
      s.authData.passwordHash ∧ JamsAfterAll may X.aead key v ∨ JamsAfterSome may X.aead key v) :=
    fun h => hnot ⟨hen, hu, hverify, by omega, _, key, env.bytes_length k _, hkey, h⟩
  refine auth_mono (fun _ h => h) ?_ (auth_reencrypt_pass (Argon2id.deriveKey_length hkey))
  rintro r s' v' -
    (⟨v₂, henc, ⟨-, rfl⟩ | ⟨v₃, hdec, hs'⟩⟩ | ⟨e, v₂, v₃, henc, -, ⟨-, rfl⟩ | ⟨e', hdec, -⟩⟩) e₁ he₁
  · rfl
  · subst he₁
    rw [hs' e₁ rfl]
    by_cases hsame : Argon2id.encodeHash (env.bytes k Argon2id.SALT_LENGTH) key
        = s.authData.passwordHash
    · rw [hsame]
    · have hjams := jamsAfterAll_of_stop henv henc hdec
      simp only [JamsAfterAll, SealedAs, hfiles] at hjams
      exact absurd (.inl ⟨hsame, hjams⟩) hneither
  · rfl
  · have hjams := jamsAfterSome_of_stop henv henc hdec
    simp only [JamsAfterSome, SealedAs, hfiles] at hjams
    exact absurd (.inr hjams) hneither

-- ============================================================================
-- A change that tears
-- ============================================================================

/-- What the environment makes of a round of `encrypt_config_files` for `f`:
    afterwards `<f>.enc` is as good as `blob`. -/
def SealsTo (env : Env) (a : Aead) (key : Bytes) (v : View) (f : ConfigFile) (blob : Bytes) :
    Prop :=
  (∃ plain, v.files (.plain f) = some plain ∧ Sealed a key plain blob ∧
    Live env (.look (.plain f))) ∨
  (v.files (.plain f) = none ∨ Dead env (.look (.plain f))) ∧ v.files (.enc f) = some blob

/-- Calls that leave `<f>.enc` as good as `blob`. -/
theorem SealedAs.sites {f : ConfigFile} {blob : Bytes} (h : SealedAs may X.aead key v f blob) :
    ∃ sites : List Site, (∀ x ∈ sites, may x) ∧ (∀ x ∈ sites, x = .look (.plain f)) ∧
      ∀ (more : List Site) (salt : Nat → UInt8) (t : Time), .look (.plain f) ∉ more →
        SealsTo (Env.failing (sites ++ more) salt t) X.aead key v f blob := by
  rcases h with ⟨plain, hp, hs⟩ | ⟨hmiss, he⟩
  · exact ⟨[], by simp, by simp, fun more salt t hmore =>
      .inl ⟨plain, hp, hs, failing_live (by simpa using hmore)⟩⟩
  · by_cases hp : v.files (.plain f) = none
    · exact ⟨[], by simp, by simp, fun _ _ _ _ => .inr ⟨.inl hp, he⟩⟩
    · refine ⟨[.look (.plain f)], ?_, by simp, fun _ _ _ _ =>
        .inr ⟨.inr (failing_dead (by simp)), he⟩⟩
      simpa using hmiss.resolve_left hp

/-- Two sealed copies of one file open or do not open alike. -/
theorem Jams.of_sealed {f : ConfigFile} {plain blob blob' : Bytes} (hkey : key.length = 32)
    (h : Sealed X.aead key plain blob) (h' : Sealed X.aead key plain blob')
    (hjam : Jams may X.aead key f blob) : Jams may X.aead key f blob' := by
  rcases hjam with ho | hjam
  · refine .inl ?_
    by_cases hne : plain = []
    · subst hne
      exact h'.opens_nil
    · rw [h.opens_eq hkey hne] at ho
      cases ho
  · exact .inr hjam

theorem exists_jam_of_end {v₁ : View} {f : ConfigFile} {blob : Bytes} (hkey : key.length = 32)
    (hend : EncEnd env X.aead key v v₁ f) (h : SealsTo env X.aead key v f blob)
    (hjam : Jams (Dead env) X.aead key f blob) :
    ∃ blob', v₁.files (.enc f) = some blob' ∧ Jams (Dead env) X.aead key f blob' := by
  rcases h with ⟨plain, hp, hs, hlive⟩ | ⟨hmiss, he⟩
  · rcases hend.1 with ⟨h₀ | h₀, -⟩ | ⟨plain', blob', hp', hs', he', -⟩
    · rw [hp] at h₀; cases h₀
    · exact absurd h₀ (hlive.not_faulty (by rintro c rfl; rfl))
    · obtain rfl : plain = plain' := Option.some.inj (hp.symm.trans hp')
      exact ⟨blob', he', hjam.of_sealed hkey hs hs'⟩
  · rcases hmiss with hp | hdead
    · rcases hend.1 with ⟨-, hsame⟩ | ⟨plain, -, hp', -⟩
      · exact ⟨blob, hsame.2.trans he, hjam⟩
      · rw [hp] at hp'; cases hp'
    · exact ⟨blob, (hend.2.2 hdead).2.trans he, hjam⟩

/-- A pass that meets a sealed file that jams does not end well. -/
theorem not_decPass {v' : View} {f : ConfigFile} {blob : Bytes} (hlook : Live env (.look (.enc f)))
    (he : v.files (.enc f) = some blob) (hjam : Jams (Dead env) X.aead key f blob) :
    ¬ DecPass env X.aead key v (.ok ()) v' :=
  fun h => not_decEnd hlook he hjam (h.all f)

/-- Nor does one that cannot encrypt a file it sees. -/
theorem not_encPass {v' : View} {f : ConfigFile} (hlook : Live env (.look (.plain f)))
    (hsome : (v.files (.plain f)).isSome)
    (hdead : Dead env (.read (.plain f)) ∨ Dead env (.write (.enc f))) :
    ¬ EncPass env X.aead key v (.ok ()) v' :=
  fun h => hlook.not_faulty (by rintro c rfl; rfl) ((h.all f).2.1 hsome hdead)

/-- A pass stops only at a file that it cannot encrypt. -/
theorem encPass_error {v' : View} {e : AuthError} {f : ConfigFile}
    (hlive : ∀ g, g ≠ f → Live env (.read (.plain g)) ∧ Live env (.write (.enc g)))
    (h : EncPass env X.aead key v (.error e) v') :
    ∃ ys zs, CONFIG_FILES = ys ++ f :: zs ∧ (∀ g ∈ ys, EncEnd env X.aead key v v' g) ∧
      ∀ g ∈ f :: zs, Same v v' g := by
  obtain ⟨ys, zs, hxs, hys, hzs, g, zs', rfl, ⟨k, c, hk, hc⟩, -⟩ := h
  obtain rfl : g = f := by
    by_contra hne
    rcases hc with rfl | hc
    · rw [(hlive g hne).1 k _ rfl] at hk; cases hk
    · rw [(hlive g hne).2 k c (site_of_writesTo hc)] at hk; cases hk
  exact ⟨ys, zs', hxs, hys, hzs⟩

/-- The files are encrypted, the new hash is saved, and the files do not open
    again. -/
theorem auth_reencrypt_torn_all {f : ConfigFile} {blob : Bytes} (hkey : key.length = 32)
    (hplain : ∀ g, Live env (.read (.plain g)) ∧ Live env (.write (.enc g)))
    (hsave : Live env .createDir ∧ Live env (.write .authJson))
    (hlook : Live env (.look (.enc f))) (hseals : SealsTo env X.aead key v f blob)
    (hjam : Jams (Dead env) X.aead key f blob) :
    ASpec env (fun _ => True) (reencrypt X hash key) (fun r s' _ =>
      (∃ e, r = .error e) ∧ s'.authData.passwordHash = hash) s v := by
  refine auth_mono (fun _ h => h) ?_ (auth_reencrypt_pass hkey)
  rintro r s' v' -
    (⟨v₁, henc, ⟨⟨k, c, hk, hc⟩, -⟩ | ⟨v₂, hdec, hs'⟩⟩ | ⟨e, v₁, v₂, henc, -, -⟩)
  · rcases hc with rfl | hc
    · rw [hsave.1 k _ rfl] at hk; cases hk
    · rw [hsave.2 k c (site_of_writesTo hc)] at hk; cases hk
  · cases r with
    | error e => exact ⟨⟨e, rfl⟩, by rw [hs' e rfl]⟩
    | ok u =>
      obtain ⟨blob', he', hjam'⟩ := exists_jam_of_end hkey (henc.all f) hseals hjam
      exact absurd hdec (not_decPass hlook (by simpa [saved] using he') hjam')
  · obtain ⟨ys, zs, hxs, hys, hzs, g, zs', rfl, ⟨k, c, hk, rfl | hc⟩, -⟩ := henc
    · rw [(hplain g).1 k _ rfl] at hk; cases hk
    · rw [(hplain g).2 k c (site_of_writesTo hc)] at hk; cases hk

/-- The encryption stops at `f`, and the files do not open again. -/
theorem auth_reencrypt_torn_some {ys zs : List ConfigFile} {f g : ConfigFile} {blob : Bytes}
    (hkey : key.length = 32) (hxs : CONFIG_FILES = ys ++ f :: zs)
    (hsome : (v.files (.plain f)).isSome) (hplain : Live env (.look (.plain f)))
    (hdead : Dead env (.read (.plain f)) ∨ Dead env (.write (.enc f)))
    (hlive : ∀ g, g ≠ f → Live env (.read (.plain g)) ∧ Live env (.write (.enc g)))
    (hlook : Live env (.look (.enc g))) (hjam : Jams (Dead env) X.aead key g blob)
    (hseals : g ∈ ys ∧ SealsTo env X.aead key v g blob ∨
      g ∈ f :: zs ∧ v.files (.enc g) = some blob) :
    ASpec env (fun _ => True) (reencrypt X hash key) (fun r s' _ =>
      (∃ e, r = .error e) ∧ s'.unlocked = false) s v := by
  refine auth_mono (fun _ h => h) ?_ (auth_reencrypt_pass hkey)
  rintro r s' v' - (⟨v₁, henc, -⟩ | ⟨e, v₁, v₂, henc, rfl, hdec⟩)
  · exact absurd henc (not_encPass hplain hsome hdead)
  · obtain ⟨ys', zs', hxs', hys, hzs⟩ := encPass_error hlive henc
    have hsplit : ys' = ys ∧ zs' = zs := by
      rcases split_CONFIG_FILES hxs with ⟨rfl, rfl, rfl⟩ | ⟨rfl, rfl, rfl⟩ <;>
        rcases split_CONFIG_FILES hxs' with ⟨rfl, h, rfl⟩ | ⟨rfl, h, rfl⟩ <;>
        first | exact ⟨rfl, rfl⟩ | cases h
    obtain ⟨rfl, rfl⟩ := hsplit
    have hstuck : ∃ blob', v₁.files (.enc g) = some blob' ∧ Jams (Dead env) X.aead key g blob' := by
      rcases hseals with ⟨hg, hseals⟩ | ⟨hg, he⟩
      · exact exists_jam_of_end hkey (hys g hg) hseals hjam
      · exact ⟨blob, (hzs g hg).2.trans he, hjam⟩
    obtain ⟨blob', he', hjam'⟩ := hstuck
    rcases hdec with ⟨hpass, -⟩ | ⟨e', -, rfl⟩
    · exact absurd hpass (not_decPass hlook he' hjam')
    · exact ⟨⟨e, rfl⟩, rfl⟩

/-- A request that is not refused comes to the encryption, with the salt that
    the random source yields. -/
theorem auth_changePassword_reaches {old new : String} {salt : Bytes}
    {Q : Except AuthError Unit → State → View → Prop} (hen : s.authData.enabled = true)
    (hu : s.unlocked = true)
    (hverify : Argon2id.verify X.argon2 old s.authData.passwordHash = true)
    (hlen : 4 ≤ new.length) (hkey : Argon2id.deriveKey X.argon2 new salt = .ok key)
    (hsalt : ∀ k, env.bytes k Argon2id.SALT_LENGTH = salt) (hks : Live env .ksDelete)
    (h : ∀ v₁ : View, v₁.files = v.files →
      ASpec env (fun _ => True) (reencrypt X (Argon2id.encodeHash salt key) key) Q s v₁) :
    ASpec env (fun _ => True) (changePassword X keyStore old new) Q s v := by
  have hhash : Argon2id.createHash X.argon2 new salt = .ok (Argon2id.encodeHash salt key) := by
    rw [Argon2id.createHash_eq, hkey]
    rfl
  have hstored : StoredKey X.argon2 (Argon2id.encodeHash salt key) salt key := ⟨rfl, new, hkey⟩
  refine auth_bind (auth_get trivial (auth_bind (auth_reject trivial (fun _ => ?_) fun h => ?_)))
  swap
  · simp [hen] at h
  refine auth_bind (auth_reject trivial (fun _ => ?_) fun h => ?_)
  swap
  · simp [hu] at h
  refine auth_bind (auth_reject trivial (fun _ => ?_) fun h => ?_)
  swap
  · simp [hverify] at h
  refine auth_bind (auth_reject trivial (fun _ => ?_) fun h => ?_)
  swap
  · have hshort : new.length < 4 := by simpa using h
    omega
  have hrest : ∀ v₁ : View, v₁.files = v.files → ASpec env (fun _ => True) (do
        let salt ← io (randFill Argon2id.SALT_LENGTH)
        let newHash ← argon (Argon2id.createHash X.argon2 new salt)
        let newSalt ← argon (Argon2id.extractSalt newHash)
        let newKey ← argon (Argon2id.deriveKey X.argon2 new newSalt)
        reencrypt X newHash newKey) Q s v₁ := by
    intro v₁ h₁
    refine auth_bind (auth_io (spec_randFill trivial fun k => ?_))
    rw [hsalt k]
    refine auth_bind (auth_argon trivial (fun hash' hhash' => ?_) fun e he => ?_)
    swap
    · rw [hhash] at he; cases he
    obtain rfl : Argon2id.encodeHash salt key = hash' := Except.ok.inj (hhash.symm.trans hhash')
    refine auth_bind (auth_argon trivial (fun salt' hsalt' => ?_) fun e he => ?_)
    swap
    · rw [hstored.extractSalt_eq] at he; cases he
    obtain rfl : salt = salt' := Except.ok.inj (hstored.extractSalt_eq.symm.trans hsalt')
    refine auth_bind (auth_argon trivial (fun key' hkey' => ?_) fun e he => ?_)
    swap
    · rw [hkey] at he; cases he
    obtain rfl : key = key' := Except.ok.inj (hkey.symm.trans hkey')
    exact h v₁ h₁
  cases keyStore with
  | false => exact auth_bind (auth_attempt (spec_pure trivial (hrest v rfl)))
  | true =>
    refine auth_bind (auth_attempt (spec_bind (spec_ksDelete trivial trivial
      (spec_pure trivial (hrest _ rfl)) fun k hk => ?_)))
    rw [hks k _ rfl] at hk
    cases hk

-- ============================================================================
-- Every failure point
-- ============================================================================

/-- What a run that fails without restoring the memory shows. -/
theorem not_atomic_of_torn {m : Mutation} {P : State → Prop} (hs : ¬ P s)
    (h : ASpec env (fun _ => True) (m.run X keyStore)
      (fun r s' _ => (∃ e, r = .error e) ∧ P s') s v) :
    ¬ MutationAtomic env X keyStore m s (World.ofView v) := by
  intro hatomic
  rw [← World.view_ofView v] at h
  obtain ⟨⟨e, herr⟩, hP⟩ := auth_run h
  exact hs (hatomic e herr ▸ hP)

theorem bytes_salt {sites : List Site} {salt : Bytes} {t : Time}
    (hlen : salt.length = Argon2id.SALT_LENGTH) (k : Nat) :
    (Env.failing sites (yields salt) t).bytes k Argon2id.SALT_LENGTH = salt := by
  rw [← hlen]
  exact Env.failing_bytes k

/-- The call that makes a save fail. -/
theorem SaveFails.site (h : SaveFails may) :
    ∃ x, may x ∧ ∀ salt t, Dead (Env.failing [x] salt t) .createDir ∨
      Dead (Env.failing [x] salt t) (.write .authJson) := by
  rcases h with h | h
  · exact ⟨.createDir, h, fun _ _ => .inl (failing_dead (by simp))⟩
  · exact ⟨.write .authJson, h, fun _ _ => .inr (failing_dead (by simp))⟩

theorem exists_torn_all {old new : String} {salt : Bytes} (hen : s.authData.enabled = true)
    (hu : s.unlocked = true)
    (hverify : Argon2id.verify X.argon2 old s.authData.passwordHash = true)
    (hlen : 4 ≤ new.length) (hsalt : salt.length = Argon2id.SALT_LENGTH)
    (hkey : Argon2id.deriveKey X.argon2 new salt = .ok key)
    (hne : Argon2id.encodeHash salt key ≠ s.authData.passwordHash)
    (hjams : JamsAfterAll may X.aead key v) :
    ∃ env, env.Within may ∧
      ¬ MutationAtomic env X keyStore (.changePassword old new) s (World.ofView v) := by
  obtain ⟨f, blob, hseals, hjam⟩ := hjams
  obtain ⟨sites, hmay, honly, hto⟩ := hseals.sites
  obtain ⟨more, hmay', honly', hjam'⟩ := hjam.sites
  have hfails : ∀ x ∈ sites ++ more,
      x = .look (.plain f) ∨ x = .read (.enc f) ∨ x = .write (.plain f) := by
    intro x hx
    rcases List.mem_append.mp hx with hx | hx
    · exact .inl (honly x hx)
    · exact .inr (honly' x hx)
  have hlive : ∀ x, x ≠ .look (.plain f) → x ≠ .read (.enc f) → x ≠ .write (.plain f) →
      Live (Env.failing (sites ++ more) (yields salt) 0) x := by
    intro x h₁ h₂ h₃
    apply failing_live
    intro hx
    rcases hfails x hx with h | h | h
    · exact h₁ h
    · exact h₂ h
    · exact h₃ h
  refine ⟨Env.failing (sites ++ more) (yields salt) 0, Env.failing_within ?_, ?_⟩
  · intro x hx
    exact (List.mem_append.mp hx).elim (hmay x) (hmay' x)
  · refine not_atomic_of_torn (P := fun s' => s'.authData.passwordHash = Argon2id.encodeHash salt key)
      (fun h => hne h.symm) ?_
    refine auth_changePassword_reaches hen hu hverify hlen hkey (bytes_salt hsalt)
      (hlive _ nofun nofun nofun) fun v₁ h₁ => ?_
    refine auth_reencrypt_torn_all (Argon2id.deriveKey_length hkey)
      (fun g => ⟨hlive _ nofun (by simp) nofun, hlive _ nofun nofun (by simp)⟩)
      ⟨hlive _ nofun nofun nofun, hlive _ nofun nofun (by simp)⟩ (hlive _ (by simp) nofun nofun)
      ?_ (hjam'.mono fun x hx => failing_dead (List.mem_append_right _ hx))
    unfold SealsTo
    rw [h₁]
    exact hto more _ _ fun h => by rcases honly' _ h with h | h <;> cases h

theorem exists_torn_some {old new : String} {salt : Bytes} (hen : s.authData.enabled = true)
    (hu : s.unlocked = true)
    (hverify : Argon2id.verify X.argon2 old s.authData.passwordHash = true)
    (hlen : 4 ≤ new.length) (hsalt : salt.length = Argon2id.SALT_LENGTH)
    (hkey : Argon2id.deriveKey X.argon2 new salt = .ok key)
    (hjams : JamsAfterSome may X.aead key v) :
    ∃ env, env.Within may ∧
      ¬ MutationAtomic env X keyStore (.changePassword old new) s (World.ofView v) := by
  obtain ⟨ys, f, zs, hxs, hsome, hmay, g, blob, hjam, hseals⟩ := hjams
  obtain ⟨more, hmay', honly', hjam'⟩ := hjam.sites
  obtain ⟨x, hx, hxf⟩ : ∃ x, may x ∧ (x = .read (.plain f) ∨ x = .write (.enc f)) :=
    hmay.elim (fun h => ⟨_, h, .inl rfl⟩) fun h => ⟨_, h, .inr rfl⟩
  have hfg : g ∈ ys → g ≠ f := by
    rcases split_CONFIG_FILES hxs with ⟨rfl, rfl, rfl⟩ | ⟨rfl, rfl, rfl⟩ <;> simp +contextual
  -- what leaves the sealed copy of `g` as it has to be
  obtain ⟨sites, hmay₂, honly₂, hto⟩ : ∃ sites : List Site, (∀ y ∈ sites, may y) ∧
      (∀ y ∈ sites, y = .look (.plain g) ∧ g ≠ f) ∧
      ∀ salt t, g ∈ ys ∧ SealsTo (Env.failing (sites ++ x :: more) salt t) X.aead key v g blob ∨
        g ∈ f :: zs ∧ v.files (.enc g) = some blob := by
    rcases hseals with ⟨hg, hseals⟩ | hstale
    · obtain ⟨sites, h₁, h₂, h₃⟩ := hseals.sites
      refine ⟨sites, h₁, fun y hy => ⟨h₂ y hy, hfg hg⟩, fun salt t =>
        .inl ⟨hg, h₃ (x :: more) salt t ?_⟩⟩
      intro h
      rcases List.mem_cons.mp h with h | h
      · rcases hxf with rfl | rfl <;> cases h
      · rcases honly' _ h with h | h <;> cases h
    · exact ⟨[], by simp, by simp, fun _ _ => .inr hstale⟩
  have hfails : ∀ y ∈ sites ++ x :: more, (y = .look (.plain g) ∧ g ≠ f) ∨ y = x ∨
      y = .read (.enc g) ∨ y = .write (.plain g) := by
    intro y hy
    rcases List.mem_append.mp hy with hy | hy
    · exact .inl (honly₂ y hy)
    · exact .inr ((List.mem_cons.mp hy).imp_right (honly' y))
  have hlive : ∀ y, ¬ (y = .look (.plain g) ∧ g ≠ f) → y ≠ x → y ≠ .read (.enc g) →
      y ≠ .write (.plain g) → Live (Env.failing (sites ++ x :: more) (yields salt) 0) y := by
    intro y h₁ h₂ h₃ h₄
    apply failing_live
    intro hy
    rcases hfails y hy with h | h | h | h
    · exact h₁ h
    · exact h₂ h
    · exact h₃ h
    · exact h₄ h
  have hx_look : ∀ n, Site.look n ≠ x := by rintro n rfl; rcases hxf with h | h <;> cases h
  refine ⟨Env.failing (sites ++ x :: more) (yields salt) 0, Env.failing_within ?_, ?_⟩
  · intro y hy
    rcases List.mem_append.mp hy with hy | hy
    · exact hmay₂ y hy
    · rcases List.mem_cons.mp hy with rfl | hy
      · exact hx
      · exact hmay' y hy
  · refine not_atomic_of_torn (P := fun s' => s'.unlocked = false) (by simp [hu]) ?_
    refine auth_changePassword_reaches hen hu hverify hlen hkey (bytes_salt hsalt)
      (hlive _ (by simp) (by rcases hxf with rfl | rfl <;> simp) nofun nofun) fun v₁ h₁ => ?_
    have hdead : Dead (Env.failing (sites ++ x :: more) (yields salt) 0) (.read (.plain f)) ∨
        Dead (Env.failing (sites ++ x :: more) (yields salt) 0) (.write (.enc f)) := by
      rcases hxf with rfl | rfl
      · exact .inl (failing_dead (by simp))
      · exact .inr (failing_dead (by simp))
    refine auth_reencrypt_torn_some (g := g) (Argon2id.deriveKey_length hkey) hxs
      (h₁ ▸ hsome) (hlive _ ?_ (hx_look _) nofun nofun) hdead
      (fun g' hg' => ⟨hlive _ (by simp) ?_ (by simp) nofun, hlive _ (by simp) ?_ nofun (by simp)⟩)
      (hlive _ (by simp) (hx_look _) nofun nofun)
      (hjam'.mono fun y hy => failing_dead (by simp [hy])) ?_
    · rintro ⟨h, hne⟩
      cases h
      exact hne rfl
    · rcases hxf with rfl | rfl <;> simp [hg']
    · rcases hxf with rfl | rfl <;> simp [hg']
    · unfold SealsTo
      rw [h₁]
      exact hto _ _

/-- Whatever calls may fail, an operation that fails leaves the memory as it
    was exactly when it cannot stop with its change half made. -/
theorem mutation_atomic_iff (X : Crates) (keyStore : Bool) (may : Site → Prop) (m : Mutation)
    (s : State) (v : View) :
    (∀ env, env.Within may → ∀ w, w.view = v → MutationAtomic env X keyStore m s w) ↔
      ¬ Tears X may s v m := by
  constructor
  · intro hatomic htears
    suffices h : ∃ env, env.Within may ∧ ¬ MutationAtomic env X keyStore m s (World.ofView v) by
      obtain ⟨env, henv, hnot⟩ := h
      exact hnot (hatomic env henv _ (World.view_ofView v))
    cases m with
    | setupPassword password =>
      obtain ⟨hdis, hlen, hsave, salt, key, hsalt, hkey⟩ := htears
      obtain ⟨x, hx, hdead⟩ := hsave.site
      refine ⟨Env.failing [x] (yields salt) 0, Env.failing_within (by simpa using hx), ?_⟩
      exact not_atomic_of_torn (P := fun s' => s'.authData.enabled = true) (by simp [hdis])
        (auth_setupPassword_torn hdis hlen hkey (bytes_salt hsalt) (hdead _ _))
    | changePassword old new =>
      obtain ⟨hen, hu, hverify, hlen, salt, key, hsalt, hkey, ⟨hne, hjams⟩ | hjams⟩ := htears
      · exact exists_torn_all hen hu hverify hlen hsalt hkey hne hjams
      · exact exists_torn_some hen hu hverify hlen hsalt hkey hjams
    | removePassword password => exact htears.elim
    | setAppSettings settings =>
      obtain ⟨hne, hsave⟩ := htears
      obtain ⟨x, hx, hdead⟩ := hsave.site
      refine ⟨Env.failing [x] (fun _ => 0) 0, Env.failing_within (by simpa using hx), ?_⟩
      exact not_atomic_of_torn (P := fun s' => s'.authData.appSettings = settings)
        (fun h => hne h.symm) (auth_setAppSettings_torn (hdead _ _))
  · rintro hnot env henv w rfl
    cases m with
    | setupPassword password => exact auth_run (auth_setupPassword_atomic henv hnot)
    | changePassword old new => exact auth_run (auth_changePassword_atomic henv hnot)
    | removePassword password =>
      refine auth_run (I := fun _ => True) (Q := fun r s' _ => ∀ e, r = .error e → s' = s) ?_
      exact auth_removePassword trivial (fun _ _ _ => rfl) (fun _ _ _ _ => trivial)
        fun _ _ _ _ _ => nofun
    | setAppSettings settings => exact auth_run (auth_setAppSettings_atomic henv hnot)

/-- The config directory cannot be made, `auth.json` is not written, and the
    service takes itself to have a password. -/
theorem setup_not_atomic : ¬ MutationAtomic (Env.failing [.createDir] (fun _ => 7) 0)
    Sample.crates false (.setupPassword "abcd") ⟨true, none, .default, none⟩
    (World.ofView ⟨fun _ => none, none, []⟩) := by
  refine not_atomic_of_torn (P := fun s' => s'.authData.enabled = true) (by decide) ?_
  exact auth_setupPassword_torn rfl (by decide) (Sample.deriveKey_eq "abcd" 7) (fun _ => rfl)
    (.inl (failing_dead (by decide)))

end GnDrive.Auth
