/-
  GnDrive.Auth.Recoverable

  The content of the config files across the operations of the service, on a
  file system whose calls do not fail.

  `Kept a key c v` says that no content of `c` is lost in `v`: a plain file is
  the original, an encrypted one is the original sealed under `key`, and of
  every file one of the two is there.  Every step of every pass keeps it, so
  it holds at each point at which the process can die; `DiskOk` and `MemOk`
  add what the disk and the memory of a set-up service know of the password.
-/

import GnDrive.Auth.Operations

namespace GnDrive.Auth

open AuthM
open Argon2id (StoredKey)
open Crypto (Sealed WritesTo opens)
open Relation (ReflTransGen)

-- ============================================================================
-- A file system whose calls do not fail
-- ============================================================================

theorem not_faulty {env : Env} (henv : env.NoFaults) {P : Cmd → Prop}
    (hP : ∀ c, P c → c.onFiles = true) : ¬ Faulty env P := by
  rintro ⟨k, c, hk, hc⟩
  rw [henv k c (hP c hc)] at hk
  cases hk

theorem onFiles_of_writesTo {n : Name} {c : Cmd} (h : WritesTo n c) : c.onFiles = true := by
  obtain ⟨s, rfl | ⟨data, rfl⟩ | rfl | rfl | rfl⟩ := h <;> rfl

theorem onFiles_of_saveCmd {c : Cmd} (h : SaveCmd c) : c.onFiles = true := by
  rcases h with rfl | h
  · rfl
  · exact onFiles_of_writesTo h

theorem onFiles_of_encCmd {f : ConfigFile} {c : Cmd} (h : EncCmd f c) : c.onFiles = true := by
  rcases h with rfl | h
  · rfl
  · exact onFiles_of_writesTo h

theorem onFiles_of_decCmd {f : ConfigFile} {c : Cmd} (h : DecCmd f c) : c.onFiles = true := by
  rcases h with rfl | h
  · rfl
  · exact onFiles_of_writesTo h

section Passes

variable {env : Env} {a : Aead} {key : Bytes} {v v' : View} {r : Except AuthError Unit}

/-- Encrypting does not stop, and leaves no plaintext. -/
theorem EncPost.all (henv : env.NoFaults) (h : EncPost env a key v r v') :
    r = .ok () ∧ ∀ f, v'.files (.plain f) = none ∧
      (v.files (.plain f) = none ∧ Same v v' f ∨
        ∃ plain blob, v.files (.plain f) = some plain ∧ Sealed a key plain blob ∧
          v'.files (.enc f) = some blob) := by
  obtain ⟨ys, zs, hxs, hys, hzs, hr⟩ := h
  cases r with
  | error e =>
    obtain ⟨f, -, -, hf⟩ := hr
    exact absurd hf (not_faulty henv fun _ => onFiles_of_encCmd)
  | ok u =>
    refine ⟨rfl, fun f => ?_⟩
    have hf := mem_CONFIG_FILES f
    rw [hxs, show zs = [] from hr, List.append_nil] at hf
    rcases hys f hf with ⟨hnone | hfault, hsame⟩ | ⟨plain, blob, hp, hs, he, hnone | hfault⟩
    · exact ⟨hsame.1.trans hnone, .inl ⟨hnone, hsame⟩⟩
    · exact absurd hfault (not_faulty henv (by rintro _ rfl; rfl))
    · exact ⟨hnone, .inr ⟨plain, blob, hp, hs, he⟩⟩
    · exact absurd hfault (not_faulty henv (by rintro _ rfl; rfl))

/-- Decrypting goes through exactly when every encrypted file opens, and then
    leaves none. -/
theorem DecPost.all (henv : env.NoFaults) (h : DecPost env a key v r v') :
    match r with
    | .ok _ => ∀ f, v'.files (.enc f) = none ∧
        (v.files (.enc f) = none ∧ v'.files (.plain f) = v.files (.plain f) ∨
          ∃ blob plain, v.files (.enc f) = some blob ∧ opens a key blob = some plain ∧
            v'.files (.plain f) = some plain)
    | .error _ => ∃ f blob, v.files (.enc f) = some blob ∧ opens a key blob = none := by
  obtain ⟨ys, zs, hxs, hys, hzs, hr⟩ := h
  cases r with
  | error e =>
    obtain ⟨f, -, -, hf | ⟨blob, hblob⟩⟩ := hr
    · exact absurd hf (not_faulty henv fun _ => onFiles_of_decCmd)
    · exact ⟨f, blob, hblob⟩
  | ok u =>
    intro f
    have hf := mem_CONFIG_FILES f
    rw [hxs, show zs = [] from hr, List.append_nil] at hf
    rcases hys f hf with ⟨hnone | hfault, hsame⟩ | ⟨blob, plain, he, ho, hp, hnone | ⟨-, hfault⟩⟩
    · exact ⟨hsame.2.trans hnone, .inl ⟨hnone, hsame.1⟩⟩
    · exact absurd hfault (not_faulty henv (by rintro _ rfl; rfl))
    · exact ⟨hnone, .inr ⟨blob, plain, he, ho, hp⟩⟩
    · exact absurd hfault (not_faulty henv (by rintro _ rfl; rfl))

end Passes

-- ============================================================================
-- Contents
-- ============================================================================

/-- No content of `c` is lost in `v`; what is encrypted is under `key`. -/
structure Kept (a : Aead) (key : Bytes) (c : ConfigFile → Option Bytes) (v : View) : Prop where
  plain : ∀ {f p}, v.files (.plain f) = some p → c f = some p
  enc : ∀ {f blob}, v.files (.enc f) = some blob → ∃ p, c f = some p ∧ Sealed a key p blob
  present : ∀ {f p}, c f = some p →
    (v.files (.plain f)).isSome ∨ (v.files (.enc f)).isSome

namespace Kept

variable {a : Aead} {key : Bytes} {c : ConfigFile → Option Bytes} {v v' : View}

/-- Only the config files and their encrypted siblings matter. -/
theorem of_same (h : Kept a key c v) (hs : ∀ f, Same v v' f) : Kept a key c v' where
  plain hp := h.plain ((hs _).1 ▸ hp)
  enc he := h.enc ((hs _).2 ▸ he)
  present hc := by rw [(hs _).1, (hs _).2]; exact h.present hc

/-- A file without an encrypted sibling is the original. -/
theorem plain_eq (h : Kept a key c v) {f : ConfigFile} (he : v.files (.enc f) = none) :
    v.files (.plain f) = c f := by
  cases hc : c f with
  | none =>
    cases hp : v.files (.plain f) with
    | none => rfl
    | some p => rw [h.plain hp] at hc; cases hc
  | some p =>
    rcases h.present hc with hp | he'
    · obtain ⟨p', hp'⟩ := Option.isSome_iff_exists.mp hp
      rw [hp', ← h.plain hp', hc]
    · rw [he] at he'; cases he'

theorem put_enc (h : Kept a key c v) {f : ConfigFile} {p blob : Bytes} (hc : c f = some p)
    (hs : Sealed a key p blob) : Kept a key c (v.put (.enc f) blob) where
  plain hp := h.plain (by simpa using hp)
  enc {g b} he := by
    by_cases hg : g = f
    · subst hg
      obtain rfl : blob = b := by simpa using he
      exact ⟨p, hc, hs⟩
    · exact h.enc (by simpa [hg] using he)
  present {g q} hc := by
    by_cases hg : g = f
    · exact .inr (by simp [hg])
    · simpa [hg] using h.present hc

theorem put_plain (h : Kept a key c v) {f : ConfigFile} {p : Bytes} (hc : c f = some p) :
    Kept a key c (v.put (.plain f) p) where
  plain {g q} hp := by
    by_cases hg : g = f
    · subst hg
      obtain rfl : p = q := by simpa using hp
      exact hc
    · exact h.plain (by simpa [hg] using hp)
  enc he := h.enc (by simpa using he)
  present {g q} hc := by
    by_cases hg : g = f
    · exact .inl (by simp [hg])
    · simpa [hg] using h.present hc

theorem remove_plain (h : Kept a key c v) {f : ConfigFile} (he : (v.files (.enc f)).isSome) :
    Kept a key c (v.remove (.plain f)) where
  plain {g q} hp := by
    by_cases hg : g = f
    · subst hg; simp at hp
    · exact h.plain (by simpa [hg] using hp)
  enc he := h.enc (by simpa using he)
  present {g q} hc := by
    by_cases hg : g = f
    · exact .inr (by simpa [hg] using he)
    · simpa [hg] using h.present hc

theorem remove_enc (h : Kept a key c v) {f : ConfigFile} (hp : (v.files (.plain f)).isSome) :
    Kept a key c (v.remove (.enc f)) where
  plain hp := h.plain (by simpa using hp)
  enc {g b} he := by
    by_cases hg : g = f
    · subst hg; simp at he
    · exact h.enc (by simpa [hg] using he)
  present {g q} hc := by
    by_cases hg : g = f
    · exact .inl (by simpa [hg] using hp)
    · simpa [hg] using h.present hc

theorem encStep (h : Kept a key c v) (hs : EncStep a key v v') : Kept a key c v' := by
  cases hs with
  | place hp hs => exact h.put_enc (h.plain hp) hs
  | drop hp he hs => exact h.remove_plain (by simp [he])

theorem decStep (h : Kept a key c v) (hs : DecStep a key v v') : Kept a key c v' := by
  cases hs with
  | place he ho =>
    obtain ⟨p, hc, hs⟩ := h.enc he
    exact h.put_plain (hs.opens_some ho ▸ hc)
  | drop he ho hp _ => exact h.remove_enc (by simp [hp])

/-- Recovery with a password configured. -/
theorem recStep (h : Kept a key c v) (hs : RecStep true v v') : Kept a key c v' := by
  cases hs with
  | dropPlain _ hp he => exact h.remove_plain he
  | dropEnc hf => cases hf

theorem encSteps (h : Kept a key c v) (hs : ReflTransGen (EncStep a key) v v') :
    Kept a key c v' := steps_preserve (fun _ _ h hs => h.encStep hs) h hs

theorem decSteps (h : Kept a key c v) (hs : ReflTransGen (DecStep a key) v v') :
    Kept a key c v' := steps_preserve (fun _ _ h hs => h.decStep hs) h hs

theorem recSteps (h : Kept a key c v) (hs : ReflTransGen (RecStep true) v v') :
    Kept a key c v' := steps_preserve (fun _ _ h hs => h.recStep hs) h hs

theorem saved (h : Kept a key c v) (X : Crates) (d : AuthData) : Kept a key c (saved X v d) :=
  h.of_same fun f => by simp [Same, Auth.saved]

theorem keychain (h : Kept a key c v) (k : Option Bytes) : Kept a key c { v with keychain := k } :=
  h.of_same fun _ => ⟨rfl, rfl⟩

end Kept

-- ============================================================================
-- Unlocking a locked service
-- ============================================================================

section Unlock

variable {env : Env} {X : Crates} {keyStore : Bool} {I : View → Prop} {s : State} {v : View}
  {salt key : Bytes}

/-- How `unlock` can end on a locked service whose stored hash has the key
    `key` behind it. -/
def UnlockPost (env : Env) (X : Crates) (key : Bytes) (password : String) (s : State) (v : View)
    (r : Except AuthError Unit) (s' : State) (v' : View) : Prop :=
  s'.authData.enabled = s.authData.enabled ∧
  s'.authData.passwordHash = s.authData.passwordHash ∧
  match r with
  | .ok _ =>
      Argon2id.verify X.argon2 password s.authData.passwordHash = true ∧
      s'.unlocked = true ∧ s'.encKey = some key ∧ s'.authData.lockoutUntil = "" ∧
      ∀ f, v'.files (.enc f) = none ∧
        (v.files (.enc f) = none ∧ v'.files (.plain f) = v.files (.plain f) ∨
          ∃ blob plain, v.files (.enc f) = some blob ∧ opens X.aead key blob = some plain ∧
            v'.files (.plain f) = some plain)
  | .error _ =>
      s'.unlocked = false ∧ s'.encKey = s.encKey ∧
      ((∃ k, activeLockoutAt X.rfc3339 s.authData (env.now k) ≠ none) ∨
        Argon2id.verify X.argon2 password s.authData.passwordHash = false ∨
        ∃ f blob, v.files (.enc f) = some blob ∧ opens X.aead key blob = none)

theorem auth_unlock_locked {password : String} (henv : env.NoFaults) (hI : I v)
    (hdec : ∀ v v', I v → DecStep X.aead key v v' → I v')
    (hsave : ∀ v d, I v → d.enabled = s.authData.enabled →
      d.passwordHash = s.authData.passwordHash → I (saved X v d))
    (hks : ∀ v, I v → I { v with keychain := some key })
    (hstored : StoredKey X.argon2 s.authData.passwordHash salt key)
    (hen : s.authData.enabled = true) (hlocked : s.unlocked = false) :
    ASpec env I (unlock X keyStore password)
      (fun r s' v' => I v' ∧ UnlockPost env X key password s v r s' v') s v := by
  refine auth_unlock hI (fun h => ?_) (fun _ h => ?_) (fun k secs _ hk => ?_) fun _ _ => ?_
  · rw [hen] at h; cases h
  · rw [hlocked] at h; cases h
  · exact ⟨hI, rfl, rfl, hlocked, rfl, .inl ⟨k, by rw [hk]; simp⟩⟩
  refine auth_unlockVerify hI (fun hwrong => ?_) fun hright => ?_
  · refine auth_recordFailure hI fun d hd => ?_
    -- only the counters change
    have hd' : d.enabled = s.authData.enabled ∧ d.passwordHash = s.authData.passwordHash := by
      rcases hd with ⟨rfl, -⟩ | ⟨-, k, rfl⟩ <;> exact ⟨rfl, rfl⟩
    have hI' := hsave v d hI hd'.1 hd'.2
    exact ⟨hI', ⟨hI', hd'.1, hd'.2, hlocked, rfl, .inr (.inl hwrong)⟩,
      fun _ => ⟨hI, hd'.1, hd'.2, hlocked, rfl, .inr (.inl hwrong)⟩⟩
  · have hsteps : ∀ v', ReflTransGen (DecStep X.aead key) v v' → I v' :=
      fun v' hs => steps_preserve hdec hI hs
    refine auth_openWith hI hstored (hstored.verify_iff.mp hright) hsteps ?_ ?_ ?_
    · intro v' e hs hpost
      exact ⟨hsteps v' hs, rfl, rfl, hlocked, rfl, .inr (.inr (hpost.all henv))⟩
    · exact fun v' hs => hsave _ _ (hsteps v' hs) rfl rfl
    · rintro v' v₂ hs hpost ⟨v₁, hv₁, hv₂⟩
      have hfiles := hpost.all henv
      obtain ⟨rfl⟩ : v₁ = saved X v' _ := hv₁.resolve_right fun h =>
        not_faulty henv (fun _ => onFiles_of_saveCmd) h.2
      have hI₁ := hsave _ s.authData.reset (hsteps v' hs) rfl rfl
      have hI₂ : I v₂ := by
        rcases hv₂ with ⟨rfl, -⟩ | ⟨rfl, -⟩
        · exact hks _ hI₁
        · exact hI₁
      have hsame : ∀ f, Same v' v₂ f := by
        intro f
        rcases hv₂ with ⟨rfl, -⟩ | ⟨rfl, -⟩ <;> simp [Same, saved]
      refine ⟨hI₂, hI₂, rfl, rfl, hright, rfl, rfl, rfl, fun f => ?_⟩
      rw [(hsame f).1, (hsame f).2]
      exact hfiles f

end Unlock

-- ============================================================================
-- A set-up service
-- ============================================================================

/-- The disk of a service set up with `hash`, whose key is `key`. -/
structure DiskOk (X : Crates) (hash : String) (key : Bytes) (c : ConfigFile → Option Bytes)
    (v : View) : Prop where
  kept : Kept X.aead key c v
  enabled : (readAs X (v.files .authJson)).enabled = true
  passwordHash : (readAs X (v.files .authJson)).passwordHash = hash
  keychain : ∀ {k}, v.keychain = some k → k = key

/-- What that service has in memory. -/
structure MemOk (hash : String) (key : Bytes) (c : ConfigFile → Option Bytes) (s : State)
    (v : View) : Prop where
  enabled : s.authData.enabled = true
  passwordHash : s.authData.passwordHash = hash
  encKey : ∀ {k}, s.encKey = some k → k = key
  plain : s.unlocked = true → ∀ f, v.files (.plain f) = c f

section SetUp

variable {env : Env} {X : Crates} {keyStore : Bool} {hash : String} {salt key : Bytes}
  {c : ConfigFile → Option Bytes} {s : State} {v v' : View}

theorem DiskOk.of_frame (h : DiskOk X hash key c v) (hk : Kept X.aead key c v')
    (hf : Frame v v') : DiskOk X hash key c v' where
  kept := hk
  enabled := by rw [hf.1]; exact h.enabled
  passwordHash := by rw [hf.1]; exact h.passwordHash
  keychain hk' := h.keychain (hf.2 ▸ hk')

theorem DiskOk.encSteps (h : DiskOk X hash key c v)
    (hs : ReflTransGen (EncStep X.aead key) v v') : DiskOk X hash key c v' :=
  h.of_frame (h.kept.encSteps hs) (steps_frame (fun _ _ => EncStep.frame) hs)

theorem DiskOk.decSteps (h : DiskOk X hash key c v)
    (hs : ReflTransGen (DecStep X.aead key) v v') : DiskOk X hash key c v' :=
  h.of_frame (h.kept.decSteps hs) (steps_frame (fun _ _ => DecStep.frame) hs)

theorem DiskOk.recSteps (h : DiskOk X hash key c v) (hs : ReflTransGen (RecStep true) v v') :
    DiskOk X hash key c v' :=
  h.of_frame (h.kept.recSteps hs) (steps_frame (fun _ _ => RecStep.frame) hs)

theorem DiskOk.saved (h : DiskOk X hash key c v) {d : AuthData} (hen : d.enabled = true)
    (hhash : d.passwordHash = hash) : DiskOk X hash key c (saved X v d) where
  kept := h.kept.saved X d
  enabled := by simpa [Auth.saved, readAs_toVecPretty] using hen
  passwordHash := by simpa [Auth.saved, readAs_toVecPretty] using hhash
  keychain hk := h.keychain (by simpa [Auth.saved] using hk)

theorem DiskOk.setKeychain (h : DiskOk X hash key c v) {k : Option Bytes}
    (hk : k = none ∨ k = some key) : DiskOk X hash key c { v with keychain := k } where
  kept := h.kept.keychain k
  enabled := h.enabled
  passwordHash := h.passwordHash
  keychain hk' := by
    rcases hk with rfl | rfl
    · cases hk'
    · exact (Option.some.inj hk').symm

/-- A start finds the disk as it has to be and leaves it so, whenever the
    process is killed. -/
theorem spec_new_setUp (keyStore : Bool) (henv : env.NoFaults) (hd : DiskOk X hash key c v) :
    Spec env (DiskOk X hash key c) (new X keyStore)
      (fun s v' => DiskOk X hash key c v' ∧ MemOk hash key c s v') v := by
  refine spec_new hd fun d hd' => ?_
  obtain rfl : d = readAs X (v.files .authJson) := hd'.resolve_right fun h =>
    not_faulty henv (by rintro _ rfl; rfl) h.1
  simp only [hd.enabled]
  refine ⟨fun v' hs => hd.recSteps hs, fun v₁ hs _ => ⟨nofun, fun _ => ?_⟩⟩
  have hd₁ := hd.recSteps hs
  have hlocked : MemOk hash key c ⟨false, none, readAs X (v.files .authJson), none⟩ v₁ :=
    ⟨hd.enabled, hd.passwordHash, nofun, nofun⟩
  refine spec_resumeRememberedKey hd₁ ⟨hd₁, hlocked⟩ fun _ _ k hk => ?_
  obtain rfl := hd₁.keychain hk
  refine ⟨fun v' hs => hd₁.decSteps hs, fun v' hv' => ?_, fun v' _ hs hpost => ?_⟩
  · have hd₂ : DiskOk X hash k c v' := by
      rcases hv' with rfl | ⟨e, hs, -⟩
      · exact hd₁
      · exact hd₁.decSteps hs
    have hd₃ := hd₂.setKeychain (.inl rfl)
    exact ⟨hd₃, ⟨hd₂, { hlocked with plain := nofun }⟩, hd₃, { hlocked with plain := nofun }⟩
  · have hd₂ := hd₁.decSteps hs
    refine ⟨hd₂, hd.enabled, hd.passwordHash, fun hk' => (Option.some.inj hk').symm, fun _ f => ?_⟩
    exact hd₂.kept.plain_eq (hpost.all henv f).1

theorem auth_unlock_setUp {password : String} (henv : env.NoFaults)
    (hstored : StoredKey X.argon2 hash salt key) (hd : DiskOk X hash key c v)
    (hm : MemOk hash key c s v) :
    ASpec env (DiskOk X hash key c) (unlock X keyStore password)
      (fun r s' v' => (DiskOk X hash key c v' ∧ MemOk hash key c s' v') ∧
        (r = .ok () → ∀ f, v'.files (.plain f) = c f)) s v := by
  cases hu : s.unlocked with
  | true =>
    refine auth_unlock hd (fun _ => ⟨⟨hd, hm⟩, nofun⟩) (fun _ _ => ⟨⟨hd, hm⟩, fun _ => hm.plain hu⟩)
      (fun _ _ h => ?_) (fun _ h => ?_) <;> (rw [hu] at h; cases h)
  | false =>
    have hhash := hm.passwordHash
    have hstored' : StoredKey X.argon2 s.authData.passwordHash salt key := hhash ▸ hstored
    refine auth_mono (fun _ h => h) ?_ (auth_unlock_locked henv hd
      (fun v v' hv hs => hv.decSteps (.single hs))
      (fun v d hv hen hh => hv.saved (hen.trans hm.enabled) (hh.trans hhash))
      (fun v hv => hv.setKeychain (.inr rfl)) hstored' hm.enabled hu)
    rintro r s' v' - ⟨hd', hen, hh, hr⟩
    cases r with
    | error e =>
      obtain ⟨hu', hk', -⟩ := hr
      refine ⟨⟨hd', hen.trans hm.enabled, hh.trans hhash, fun hk => ?_, fun h => ?_⟩, nofun⟩
      · exact hm.encKey (hk' ▸ hk)
      · rw [hu'] at h; cases h
    | ok u =>
      obtain ⟨-, -, hk', -, hfiles⟩ := hr
      have hplain : ∀ f, v'.files (.plain f) = c f := fun f => hd'.kept.plain_eq (hfiles f).1
      refine ⟨⟨hd', hen.trans hm.enabled, hh.trans hhash, fun hk => ?_, fun _ => hplain⟩,
        fun _ => hplain⟩
      exact Option.some.inj (hk.symm.trans hk')

theorem auth_setupPassword_setUp {password : String} (hd : DiskOk X hash key c v)
    (hm : MemOk hash key c s v) :
    ASpec env (DiskOk X hash key c) (setupPassword X keyStore password)
      (fun _ s' v' => DiskOk X hash key c v' ∧ MemOk hash key c s' v') s v := by
  refine auth_setupPassword hd (fun _ => ⟨hd, hm⟩) fun hdis => ?_
  rw [hm.enabled] at hdis
  cases hdis

theorem auth_suspend_setUp (hstored : StoredKey X.argon2 hash salt key)
    (hd : DiskOk X hash key c v) (hm : MemOk hash key c s v) :
    ASpec env (DiskOk X hash key c) (suspend X)
      (fun r s' v' => r = .ok () ∧ DiskOk X hash key c v' ∧ MemOk hash key c s' v') s v := by
  refine auth_suspend hd (fun _ => ⟨rfl, hd, hm⟩) (fun k _ hk => ?_) (fun k v' hk hs => ?_) ?_
  · rw [hm.encKey hk]; exact hstored.key_length
  · exact hd.encSteps (hm.encKey hk ▸ hs)
  · intro k r v' t _ hk hs _
    exact ⟨rfl, hd.encSteps (hm.encKey hk ▸ hs), hm.enabled, hm.passwordHash, nofun, nofun⟩

theorem auth_lock_setUp (hstored : StoredKey X.argon2 hash salt key)
    (hd : DiskOk X hash key c v) (hm : MemOk hash key c s v) :
    ASpec env (DiskOk X hash key c) (lock X keyStore)
      (fun _ s' v' => DiskOk X hash key c v' ∧ MemOk hash key c s' v') s v := by
  refine auth_lock (auth_mono (fun _ h => h) ?_ (auth_suspend_setUp hstored hd hm))
  rintro r s' v' - ⟨rfl, hd', hm'⟩
  have hd'' := hd'.setKeychain (.inl rfl)
  have hm'' : MemOk hash key c s' { v' with keychain := none } := { hm' with plain := hm'.plain }
  exact ⟨hd', nofun, fun _ => ⟨hd', hm'⟩, fun _ => ⟨hd'', hd'', hm''⟩, fun _ => ⟨hd', hm'⟩⟩

end SetUp
end GnDrive.Auth
