/-
  GnDrive.Auth.Locking

  What `lock` has done when it returns `Ok`.

  `lock` seals the config files with the key of the session.  It returns `Ok`
  also when there is no key (a session opened on plaintext files stays
  unlocked, and plaintext in front of a locked service stays where it is) and
  when `encrypt_config_files` fails, which is only logged.  `lock_seals` says
  that these are all the ways to an `Ok` that leaves the service open or a
  file readable.
-/

import GnDrive.Auth.Instance
import GnDrive.Auth.Sessions

namespace GnDrive.Auth.Sessions

open AuthM
open Crypto (WritesTo)
open Relation (ReflTransGen)

section

variable {env : Env} {X : Crates} {keyStore : Bool} {s s' : State} {v v' : View} {key : Bytes}

-- ============================================================================
-- The key of a session
-- ============================================================================

/-- A key in memory has the length the cipher asks for; without a password
    there is none, and the service is open. -/
structure KeyFits (s : State) : Prop where
  length : ∀ key, s.encKey = some key → key.length = 32
  noPassword : s.authData.enabled = false → s.unlocked = true ∧ s.encKey = none

theorem KeyFits.of_enabled (hlen : ∀ key, s.encKey = some key → key.length = 32)
    (hen : s.authData.enabled = true) : KeyFits s where
  length := hlen
  noPassword hdis := by
    rw [hen] at hdis
    cases hdis

theorem KeyFits.of_none (hkey : s.encKey = none)
    (hopen : s.authData.enabled = false → s.unlocked = true) : KeyFits s where
  length key hk := by
    rw [hkey] at hk
    cases hk
  noPassword hdis := ⟨hopen hdis, hkey⟩

theorem KeyFits.of_some (hkey : s.encKey = some key) (hlen : key.length = 32)
    (hen : s.authData.enabled = true) : KeyFits s := by
  refine .of_enabled (fun key' hk => ?_) hen
  rw [← Option.some.inj (hkey.symm.trans hk)]
  exact hlen

/-- A service that is not open has a password. -/
theorem KeyFits.enabled (h : KeyFits s) (hu : ¬ s.unlocked = true) :
    s.authData.enabled = true := by
  by_contra hdis
  exact hu (h.noPassword (by simpa using hdis)).1

/-- No start and no lock section asks anything of the disk to keep it. -/
abbrev Anything : View → Prop := fun _ => True

theorem auth_unlockVerify_keyFits {password : String} (h : KeyFits s)
    (hen : s.authData.enabled = true) :
    ASpec env Anything (unlockVerify X keyStore password) (fun _ s' _ => KeyFits s') s v := by
  refine auth_unlockVerify trivial (fun _ => ?_) fun _ => ?_
  · refine auth_recordFailure trivial fun d hd => ?_
    have hcounted : KeyFits { s with authData := d } := by
      refine .of_enabled h.length ?_
      rcases hd with ⟨rfl, -⟩ | ⟨-, k, rfl⟩
      · exact hen
      · exact hen
    exact ⟨trivial, hcounted, fun _ => hcounted⟩
  · refine auth_mono (fun _ h => h) ?_ auth_openWith_state
    intro r s' v' _ hr
    cases r with
    | error e =>
      obtain rfl : s' = s := hr
      exact h
    | ok u =>
      obtain ⟨salt, key, -, hkey, rfl⟩ := hr
      exact .of_some rfl (Argon2id.deriveKey_length hkey) hen

theorem auth_changePassword_keyFits {old new : String} (h : KeyFits s) :
    ASpec env Anything (changePassword X keyStore old new) (fun _ s' _ => KeyFits s') s v := by
  refine auth_changePassword trivial (fun _ => h) (fun _ => ⟨trivial, fun _ => h⟩) ?_
  intro hen _ _ v₁ _ hash salt key _ hstored _
  have hlost : KeyFits { s with encKey := none, unlocked := false } :=
    .of_enabled (fun key hk => by cases hk) hen
  have hhash : KeyFits { s with authData := { s.authData with passwordHash := hash } } :=
    .of_enabled h.length hen
  refine auth_reencrypt hstored.key_length (fun _ _ => trivial) (fun _ _ _ _ => ?_) fun v₁ _ _ => ?_
  · exact ⟨fun _ _ => trivial, fun _ _ _ => h, fun _ _ _ _ => hlost⟩
  · exact auth_commitChange trivial rfl (fun _ => ⟨fun _ _ => trivial, fun _ _ _ _ _ => h⟩) trivial
      (fun _ _ => trivial) (fun _ _ _ _ => hhash)
      fun _ _ _ => .of_some rfl hstored.key_length hen

theorem auth_suspend_keyFits (h : KeyFits s) :
    ASpec env Anything (suspend X) (fun _ s' _ => KeyFits s') s v := by
  refine auth_mono (fun _ h => h) ?_ auth_suspend_state
  rintro r s' v' - (rfl | ⟨key, t, -, hkey, rfl⟩)
  · exact h
  · refine .of_none rfl fun hdis => ?_
    rw [(h.noPassword hdis).2] at hkey
    cases hkey

/-- Every lock section keeps it. -/
theorem auth_op_keyFits (o : Op) (h : KeyFits s) :
    ASpec env Anything (o.prog X keyStore) (fun _ s' _ => KeyFits s') s v := by
  cases o with
  | setup password =>
    refine auth_done (auth_setupPassword trivial (fun _ => h) ?_)
    intro _ hash salt key hstored _ d hd
    have hen : d.enabled = true := by rw [hd]
    have hset : KeyFits { s with authData := d, encKey := some key, unlocked := true } :=
      .of_some rfl hstored.key_length hen
    exact ⟨trivial, fun _ _ => .of_enabled h.length hen, fun _ => ⟨trivial, hset⟩, fun _ => hset⟩
  | unlock password =>
    refine auth_bind (auth_unlockCheck trivial (fun _ => h) (fun _ _ => auth_pure trivial h)
      (fun _ _ _ _ => h) fun k hen _ _ => ?_)
    have hclear : KeyFits { s with authData := s.authData.clearLockout } :=
      .of_enabled h.length hen
    cases backoff s.authData.failedAttempts with
    | some secs => exact auth_pure trivial hclear
    | none => exact auth_done (auth_unlockVerify_keyFits hclear hen)
  | wake password =>
    refine auth_done (auth_bind (auth_get trivial ?_))
    show ASpec env _ (if s.unlocked = true then pure () else _) _ s v
    by_cases hu : s.unlocked = true
    · rw [if_pos hu]
      exact auth_pure trivial h
    · rw [if_neg hu]
      exact auth_unlockVerify_keyFits h (h.enabled hu)
  | lock =>
    refine auth_done (auth_bind (auth_mono (fun _ h => h) ?_ (auth_suspend_keyFits h)))
    intro r s' v' _ hs'
    cases r with
    | error e => exact hs'
    | ok u => exact auth_attempt (spec_any fun _ _ => hs')
  | suspend => exact auth_done (auth_suspend_keyFits h)
  | changePassword old new => exact auth_done (auth_changePassword_keyFits h)
  | removePassword password =>
    exact auth_done (auth_removePassword trivial (fun _ => h) (fun _ _ _ _ => trivial)
      fun _ _ _ _ => .of_none rfl fun _ => rfl)
  | openPlaintextSession =>
    exact auth_done (auth_openPlaintextSession trivial h
      ⟨h.length, fun hdis => ⟨rfl, (h.noPassword hdis).2⟩⟩)

theorem spec_new_keyFits :
    Spec env Anything (new X keyStore) (fun s _ => KeyFits s) v := by
  refine spec_new trivial fun d _ => ⟨fun _ _ => trivial, fun v' _ _ => ⟨fun _ => ?_, fun hen => ?_⟩⟩
  · exact .of_none rfl fun _ => rfl
  · have hlocked : KeyFits ⟨false, none, d, none⟩ := .of_enabled (fun key hk => by cases hk) hen
    refine spec_resumeRememberedKey trivial hlocked fun _ _ key _ => ?_
    exact ⟨fun _ _ => trivial, fun _ _ => ⟨trivial, hlocked, hlocked⟩,
      fun _ hlen _ _ => .of_some rfl hlen hen⟩

theorem keyFits_of_reachable {start : World → Prop} {h : Host}
    (hreach : (sessions X keyStore start).Reachable h) :
    ∀ s, h.service = some s → KeyFits s :=
  (Host.Holds.of_runs (D := Anything) (P := fun s _ => KeyFits s) (fun _ _ => trivial)
    (fun _ _ _ _ _ => spec_new_keyFits)
    (fun _ _ o _ _ _ _ _ hfits => auth_op_keyFits o hfits) hreach).2

-- ============================================================================
-- Sealing the files
-- ============================================================================

/-- The commands by which `f` can stay on disk as plaintext. -/
def SealCmd (f : ConfigFile) (c : Cmd) : Prop :=
  c = .pathExists (.file (.plain f)) ∨ EncCmd f c ∨ c = .removeFile (.file (.plain f))

/-- The calls work that seal the files there are. -/
def SealsWork (env : Env) (v : View) : Prop :=
  ∀ f, (v.files (.plain f)).isSome → ¬ Faulty env (SealCmd f)

/-- A round leaves no plaintext, or one of its calls fails. -/
theorem spec_encryptConfigFile_gone (f : ConfigFile) (hkey : key.length = 32) :
    Spec env (ReflTransGen (EncStep X.aead key) v) (encryptConfigFile X key f).run
      (RoundPost (fun v v' f => v'.files (.plain f) = none ∨
          (v.files (.plain f)).isSome ∧ Faulty env (SealCmd f))
        (fun v f => (v.files (.plain f)).isSome ∧ Faulty env (SealCmd f)) f v) v := by
  cases hplain : v.files (.plain f) with
  | none =>
    -- nothing to seal
    have hskip : RoundPost (fun v v' f => v'.files (.plain f) = none ∨
          (v.files (.plain f)).isSome ∧ Faulty env (SealCmd f))
        (fun v f => (v.files (.plain f)).isSome ∧ Faulty env (SealCmd f)) f v (.ok ()) v :=
      ⟨fun g _ => Same.refl v g, .inl hplain⟩
    refine spec_except_bind (spec_bind (spec_pathExists .refl ?_ fun _ _ =>
      spec_pure .refl (spec_pure .refl hskip)))
    rw [hplain]
    exact spec_pure .refl (spec_pure .refl hskip)
  | some plain =>
    have hthere : (v.files (.plain f)).isSome := by rw [hplain]; rfl
    refine spec_mono (fun _ h => h) ?_ (spec_encryptConfigFile f hkey)
    rintro r v' - ⟨hother, hr⟩
    refine ⟨hother, ?_⟩
    cases r with
    | error e => exact ⟨hr.1, hthere, hr.2.mono fun c hc => .inr (.inl hc)⟩
    | ok u =>
      rcases hr with ⟨hnone | hfault, -⟩ | ⟨_, _, -, -, -, hgone | hfault⟩
      · rw [hplain] at hnone
        cases hnone
      · exact .inr ⟨hthere, hfault.mono fun c hc => .inl hc⟩
      · exact .inl hgone
      · exact .inr ⟨hthere, hfault.mono fun c hc => .inr (.inr hc)⟩

theorem spec_encryptConfigFiles_gone (hkey : key.length = 32) (hworks : SealsWork env v) :
    Spec env (ReflTransGen (EncStep X.aead key) v) (encryptConfigFiles X key).run
      (fun _ v' => ∀ f, v'.files (.plain f) = none) v := by
  refine spec_mono (fun _ h => h) ?_ (spec_pass
    (fun v f => spec_encryptConfigFile_gone (v := v) f hkey) ?_ ?_)
  · rintro r v' - ⟨ys, zs, hfiles, hdone, -, hend⟩
    cases r with
    | error e =>
      obtain ⟨f, -, -, hthere, hfault⟩ := hend
      exact absurd hfault (hworks f hthere)
    | ok u =>
      obtain rfl : zs = [] := hend
      intro f
      have hf := mem_CONFIG_FILES f
      rw [hfiles, List.append_nil] at hf
      rcases hdone f hf with hgone | ⟨hthere, hfault⟩
      · exact hgone
      · exact absurd hfault (hworks f hthere)
  · rintro v v₁ v₂ v₃ f hbefore hdone hafter
    rw [hafter.1, ← hbefore.1]
    exact hdone
  · rintro v v₁ f hbefore hfailed
    rw [← hbefore.1]
    exact hfailed

-- ============================================================================
-- Lock
-- ============================================================================

/-- The service is locked, and no config file is there as plaintext. -/
def LockedUp (s : State) (v : View) : Prop :=
  s.unlocked = false ∧ ∀ f, v.files (.plain f) = none

/-- An open session has a key; in front of a locked one there is no plaintext. -/
def CanLock (s : State) (v : View) : Prop :=
  if s.unlocked then s.encKey ≠ none else ∀ f, v.files (.plain f) = none

theorem auth_suspend_lockedUp (hfits : KeyFits s) :
    ASpec env Anything (suspend X) (fun _ s' v' =>
      (LockedUp s' v' → CanLock s v) ∧
      (CanLock s v → (s.unlocked = true → SealsWork env v) → LockedUp s' v')) s v := by
  refine auth_bind (auth_get trivial ?_)
  show ASpec env _ (if s.unlocked = true then lockInternal X else pure ()) _ s v
  by_cases hu : s.unlocked = true
  · rw [if_pos hu]
    refine auth_bind (auth_get trivial ?_)
    cases hk : s.encKey with
    | none =>
      -- a session without a key stays open
      have hcannot : ¬ CanLock s v := by
        rw [CanLock, if_pos hu]
        exact fun hsome => hsome hk
      simp only [hk]
      refine auth_pure trivial ⟨fun hlocked => ?_, fun hcan => absurd hcan hcannot⟩
      rw [hlocked.1] at hu
      cases hu
    | some key =>
      have hcan : CanLock s v := by
        rw [CanLock, if_pos hu, hk]
        exact Option.some_ne_none key
      simp only [hk]
      refine auth_bind (auth_modify trivial ?_)
      by_cases hworks : SealsWork env v
      · refine auth_bind (auth_io (spec_mono (fun _ _ => trivial) ?_
          (spec_encryptConfigFiles_gone (hfits.length key hk) hworks)))
        intro r v' _ hgone
        exact auth_bind (auth_io (spec_utcNow trivial fun _ =>
          auth_modify trivial ⟨fun _ => hcan, fun _ _ => ⟨rfl, hgone⟩⟩))
      · refine auth_bind (auth_io (spec_any fun _ _ => auth_bind (auth_io (spec_any fun _ _ => ?_))))
        exact auth_modify trivial ⟨fun _ => hcan, fun _ hw => absurd (hw hu) hworks⟩
  · rw [if_neg hu]
    have hiff : CanLock s v ↔ LockedUp s v := by
      have hlocked : s.unlocked = false := by simpa using hu
      rw [CanLock, if_neg hu, LockedUp]
      exact ⟨fun h => ⟨hlocked, h⟩, fun h => h.2⟩
    exact auth_pure trivial ⟨hiff.mpr, fun hcan _ => hiff.mp hcan⟩

theorem auth_lock_lockedUp (hfits : KeyFits s) :
    ASpec env Anything (lock X keyStore) (fun _ s' v' =>
      (LockedUp s' v' → CanLock s v) ∧
      (CanLock s v → (s.unlocked = true → SealsWork env v) → LockedUp s' v')) s v := by
  refine auth_bind (auth_mono (fun _ h => h) ?_ (auth_suspend_lockedUp hfits))
  intro r s' v' _ hr
  cases r with
  | error e => exact hr
  | ok u =>
    exact auth_attempt (spec_forgetRememberedKey trivial (fun _ => hr)
      (fun _ => ⟨trivial, hr⟩) fun _ => hr)

/-- In every state of every history, `lock` leaves the service locked and no
    plaintext on disk when an open session has a key and the calls that seal
    the files work, or when a locked one has no plaintext in front of it; and
    without that it leaves the service open or a file readable. -/
theorem lock_seals {X : Crates} {keyStore : Bool} {start : World → Prop} {h : Host} {s : State}
    (hreach : (sessions X keyStore start).Reachable h) (hs : h.service = some s) (env : Env) :
    let r := runAuth env (lock X keyStore) s h.world
    (CanLock s h.world.view → (s.unlocked = true → SealsWork env h.world.view) →
      LockedUp r.1.2 r.2.view) ∧
    (LockedUp r.1.2 r.2.view → CanLock s h.world.view) := by
  have hlock : ASpec env Anything (lock X keyStore) _ s h.world.view :=
    auth_lock_lockedUp (keyFits_of_reachable hreach s hs)
  exact ⟨(auth_run hlock).2, (auth_run hlock).1⟩

end

/-- A plaintext `gn-drive.db`, and `auth.json` if it is given. -/
def sampleStart (auth : Option AuthData) : Host where
  world := ⟨fun
    | .file (.plain .gnDriveDb) => some ⟨0, [7]⟩
    | .file .authJson => auth.map fun d => ⟨0, Sample.plainJson.toVecPretty d⟩
    | _ => none, none, [], 0⟩
  service := none
  asleep := []

abbrev sampleSessions : System Host Act := sessions Sample.plainCrates true fun _ => True

theorem sampleStart_init (auth : Option AuthData) : sampleSessions.init (sampleStart auth) :=
  ⟨trivial, rfl, rfl⟩

def sampleAct (e : Event) : Act := ⟨Sample.env 1, e⟩

/-- No file can be created. -/
def noCreate : Env := { Sample.env 1 with fails := fun _ c => c matches .createNew _ }

/-- The service `s` has a password, and its `lock` returns `Ok` and leaves
    `gn-drive.db` there as plaintext. -/
def LeavesPlaintext (env : Env) (h : Host) (s : State) : Prop :=
  let r := runAuth env (lock Sample.plainCrates true) s h.world
  s.authData.enabled = true ∧ r.1.1.isOk ∧ (r.2.view.files (.plain .gnDriveDb)).isSome

instance (env : Env) (h : Host) (s : State) : Decidable (LeavesPlaintext env h s) :=
  inferInstanceAs (Decidable (_ ∧ _ ∧ _))

theorem LeavesPlaintext.not_lockedUp {env : Env} {h : Host} {s : State}
    (hleaves : LeavesPlaintext env h s) :
    let r := runAuth env (lock Sample.plainCrates true) s h.world
    s.authData.enabled = true ∧ r.1.1.isOk ∧ ¬ LockedUp r.1.2 r.2.view := by
  obtain ⟨hen, hok, hplain⟩ := hleaves
  refine ⟨hen, hok, fun hlocked => ?_⟩
  rw [hlocked.2] at hplain
  cases hplain

/-- A password is set up, and `lock` seals the database. -/
theorem lock_seals_setup :
    ∃ h s, sampleSessions.Reachable h ∧ h.service = some s ∧ s.authData.enabled = true ∧
      let r := runAuth (Sample.env 1) (lock Sample.plainCrates true) s h.world
      LockedUp r.1.2 r.2.view := by
  have hrun : (sampleSessions.runFrom (sampleStart none) [sampleAct .start,
      sampleAct (.op (.setup "secret"))]).any (fun h => h.service.any fun s =>
        decide (s.unlocked = true ∧ s.encKey ≠ none ∧ s.authData.enabled = true)) = true := by
    decide +kernel
  obtain ⟨h, hh, hservice⟩ := (Option.any_eq_true _ _).mp hrun
  obtain ⟨s, hs, hopen⟩ := (Option.any_eq_true _ _).mp hservice
  obtain ⟨hu, hkey, hen⟩ := of_decide_eq_true hopen
  have hreach := System.runFrom_reachable (.init (sampleStart_init none)) hh
  refine ⟨h, s, hreach, hs, hen, (lock_seals hreach hs (Sample.env 1)).1 ?_ fun _ f _ hfault => ?_⟩
  · rw [CanLock, if_pos hu]
    exact hkey
  · obtain ⟨k, c, hk, -⟩ := hfault
    cases hk

/-- `lock` returns `Ok` in a session opened on plaintext files, and after a
    setup when the database cannot be sealed: both leave it there as
    plaintext. -/
theorem lock_unsealed :
    (∃ h s, sampleSessions.Reachable h ∧ h.service = some s ∧
      let r := runAuth (Sample.env 1) (lock Sample.plainCrates true) s h.world
      s.authData.enabled = true ∧ r.1.1.isOk ∧ ¬ LockedUp r.1.2 r.2.view) ∧
    ∃ h s, sampleSessions.Reachable h ∧ h.service = some s ∧
      let r := runAuth noCreate (lock Sample.plainCrates true) s h.world
      s.authData.enabled = true ∧ r.1.1.isOk ∧ ¬ LockedUp r.1.2 r.2.view := by
  have hplain : (sampleSessions.runFrom (sampleStart (some (Sample.authData "secret" 1)))
      [sampleAct .start, sampleAct (.op .openPlaintextSession)]).any (fun h =>
        h.service.any fun s => decide (LeavesPlaintext (Sample.env 1) h s)) = true := by
    decide +kernel
  have hsetup : (sampleSessions.runFrom (sampleStart none)
      [sampleAct .start, sampleAct (.op (.setup "secret"))]).any (fun h =>
        h.service.any fun s => decide (LeavesPlaintext noCreate h s)) = true := by
    decide +kernel
  obtain ⟨h₁, hh₁, hservice₁⟩ := (Option.any_eq_true _ _).mp hplain
  obtain ⟨s₁, hs₁, hleaves₁⟩ := (Option.any_eq_true _ _).mp hservice₁
  obtain ⟨h₂, hh₂, hservice₂⟩ := (Option.any_eq_true _ _).mp hsetup
  obtain ⟨s₂, hs₂, hleaves₂⟩ := (Option.any_eq_true _ _).mp hservice₂
  exact ⟨⟨h₁, s₁, System.runFrom_reachable (.init (sampleStart_init _)) hh₁, hs₁,
      (of_decide_eq_true hleaves₁).not_lockedUp⟩,
    h₂, s₂, System.runFrom_reachable (.init (sampleStart_init _)) hh₂, hs₂,
      (of_decide_eq_true hleaves₂).not_lockedUp⟩

end GnDrive.Auth.Sessions
