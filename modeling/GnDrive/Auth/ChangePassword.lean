/-
  GnDrive.Auth.ChangePassword

  A process that dies in the middle of `change_password`.

  The files are sealed under the new key first and `auth.json` is replaced
  after that, so between the two the disk holds files that no accepted
  password opens: recovery keeps the `.enc` and removes what plaintext is
  left.  Once the new `auth.json` is in place the new password opens the
  files, unless one of them is empty.  `changePassword_crash_iff` says which
  crashes are survived; the crash invariant it rests on is `CrashView`.
-/

import GnDrive.Auth.RoundTrip

namespace GnDrive.Auth

open AuthM
open Argon2id (StoredKey)
open Crypto (Sealed opens)
open Relation (ReflTransGen)

/-- The files put in place between two worlds of a run. -/
def placedSince (v v' : View) : List (Name × Bytes) := v'.placed.drop v.placed.length

theorem placedSince_append {v v' : View} {l : List (Name × Bytes)}
    (h : v'.placed = v.placed ++ l) : placedSince v v' = l := by
  rw [placedSince, h, List.drop_left]

/-- No `.enc` has been put in place, or `auth.json` has and no config file is
    empty. -/
def CrashCond (c : ConfigFile → Option Bytes) (l : List (Name × Bytes)) : Prop :=
  (∀ f blob, (.enc f, blob) ∉ l) ∨ (∃ json, (.authJson, json) ∈ l) ∧ ∀ f, c f ≠ some []

/-- After a restart, the old or the new password is accepted and brings every
    file back. -/
def Survives (X : Crates) (keyStore : Bool) (env : Env) (old new : String)
    (c : ConfigFile → Option Bytes) (w : World) : Prop :=
  let start := Prog.run (exec env) (Auth.new X keyStore) w
  ∃ password, (password = old ∨ password = new) ∧
    let r := runAuth env (unlock X keyStore password) start.1 start.2
    r.1.1 = .ok () ∧ ∀ f, r.2.view.files (.plain f) = c f

-- ============================================================================
-- What a restart makes of a disk
-- ============================================================================

section Restart

variable {env : Env} {X : Crates} {keyStore : Bool} {v v' : View} {salt key : Bytes}
  {c : ConfigFile → Option Bytes}

/-- A start does not resume: there is no key store, no key in it, or nothing
    to decrypt. -/
def NoResume (keyStore : Bool) (v : View) : Prop :=
  keyStore = false ∨ v.keychain = none ∨ ∀ f, v.files (.enc f) = none

theorem RecStep.enc_eq (h : RecStep true v v') (f : ConfigFile) :
    v'.files (.enc f) = v.files (.enc f) := by
  cases h with
  | dropPlain => simp
  | dropEnc h => cases h

theorem recSteps_enc_eq (hs : ReflTransGen (RecStep true) v v') (f : ConfigFile) :
    v'.files (.enc f) = v.files (.enc f) :=
  steps_preserve (P := fun v' => v'.files (.enc f) = v.files (.enc f))
    (fun _ _ hP hr => (hr.enc_eq f).trans hP) rfl hs

/-- With a password configured and no key to resume with, a start locks the
    app; recovery leaves the encrypted files. -/
theorem spec_new_locked (henv : env.NoFaults)
    (hen : (readAs X (v.files .authJson)).enabled = true) (hres : NoResume keyStore v) :
    Spec env (fun _ => True) (new X keyStore) (fun s v' =>
      s = ⟨false, none, readAs X (v.files .authJson), none⟩ ∧
      ∃ v₁, ReflTransGen (RecStep true) v v₁ ∧ ∀ f, Same v₁ v' f) v := by
  refine spec_new trivial fun d hd => ?_
  obtain rfl : d = readAs X (v.files .authJson) := hd.resolve_right fun h =>
    not_faulty henv (by rintro _ rfl; rfl) h.1
  simp only [hen]
  refine ⟨fun _ _ => trivial, fun v₁ hs _ => ⟨nofun, fun _ => ?_⟩⟩
  have hkc := (steps_frame (fun _ _ => RecStep.frame) hs).2
  refine spec_resumeRememberedKey trivial ⟨rfl, v₁, hs, Same.refl v₁⟩ fun hks ⟨f, hf⟩ k hk => ?_
  exfalso
  rcases hres with h | h | h
  · rw [hks] at h; cases h
  · rw [hkc, h] at hk; cases hk
  · rw [recSteps_enc_eq hs, h] at hf; cases hf

/-- An unlock after such a start. -/
theorem unlock_restarted (keyStore : Bool) (password : String) (w : World) {d : AuthData}
    (henv : env.NoFaults) (hstored : StoredKey X.argon2 d.passwordHash salt key) (hen : d.enabled = true) :
    let r := runAuth env (unlock X keyStore password) ⟨false, none, d, none⟩ w
    UnlockPost env X key password ⟨false, none, d, none⟩ w.view r.1.1 r.1.2 r.2.view :=
  (auth_run (auth_unlock_locked (I := fun _ => True) henv trivial (fun _ _ _ _ => trivial)
    (fun _ _ _ _ _ => trivial) (fun _ _ => trivial) hstored hen rfl)).2

/-- `password` is the one set up, and its key opens everything on disk. -/
def OpenableBy (X : Crates) (c : ConfigFile → Option Bytes) (password : String) (v : View) :
    Prop :=
  ∃ salt key, (readAs X (v.files .authJson)).enabled = true ∧
    StoredKey X.argon2 (readAs X (v.files .authJson)).passwordHash salt key ∧
    Argon2id.deriveKey X.argon2 password salt = .ok key ∧ Kept X.aead key c v ∧
    ∀ f blob, v.files (.enc f) = some blob → opens X.aead key blob ≠ none

/-- Some file does not open with the key of the password set up. -/
def Lost (X : Crates) (v : View) : Prop :=
  ∃ salt key, (readAs X (v.files .authJson)).enabled = true ∧
    StoredKey X.argon2 (readAs X (v.files .authJson)).passwordHash salt key ∧
    ∃ f blob, v.files (.enc f) = some blob ∧ opens X.aead key blob = none

theorem survives_of_openableBy {w : World} {old new password : String} (henv : env.NoFaults)
    (hlock : ∀ k, activeLockoutAt X.rfc3339 (readAs X (w.view.files .authJson)) (env.now k) = none)
    (hres : NoResume keyStore w.view) (hopen : OpenableBy X c password w.view)
    (hp : password = old ∨ password = new) : Survives X keyStore env old new c w := by
  obtain ⟨salt, key, hen, hstored, hkey, hkept, hall⟩ := hopen
  obtain ⟨hs, v₁, hrec, hsame⟩ := spec_run (spec_new_locked (X := X) henv hen hres)
  refine ⟨password, hp, ?_⟩
  rw [hs]
  generalize (Prog.run (exec env) (Auth.new X keyStore) w).2 = w₁ at hsame
  have hkept' := (hkept.recSteps hrec).of_same hsame
  have henc : ∀ f, w₁.view.files (.enc f) = w.view.files (.enc f) :=
    fun f => (hsame f).2.trans (recSteps_enc_eq hrec f)
  have hr := unlock_restarted keyStore password w₁ henv hstored hen
  generalize runAuth env (unlock X keyStore password) _ w₁ = r at hr
  obtain ⟨⟨r, s'⟩, w'⟩ := r
  obtain ⟨-, -, hr⟩ := hr
  cases r with
  | ok u =>
    obtain ⟨-, -, -, -, hfiles⟩ := hr
    refine ⟨rfl, fun f => ?_⟩
    rcases (hfiles f).2 with ⟨hnone, hsame'⟩ | ⟨blob, plain, hblob, ho, hplain⟩
    · exact hsame'.trans (hkept'.plain_eq hnone)
    · obtain ⟨p, hc, hsealed⟩ := hkept'.enc hblob
      rw [hplain, hsealed.opens_some ho, hc]
  | error e =>
    obtain ⟨-, -, ⟨k, hk⟩ | hver | ⟨f, blob, hblob, ho⟩⟩ := hr
    · exact absurd (hlock k) hk
    · rw [hstored.verify_iff.mpr hkey] at hver; cases hver
    · exact absurd ho (hall f blob ((henc f).symm.trans hblob))

theorem not_survives_of_lost {w : World} {old new : String} (henv : env.NoFaults)
    (hres : NoResume keyStore w.view) (hlost : Lost X w.view) :
    ¬ Survives X keyStore env old new c w := by
  obtain ⟨salt, key, hen, hstored, f, blob, hblob, ho⟩ := hlost
  obtain ⟨hs, v₁, hrec, hsame⟩ := spec_run (spec_new_locked (X := X) henv hen hres)
  rintro ⟨password, -, hok, -⟩
  rw [hs] at hok
  generalize (Prog.run (exec env) (Auth.new X keyStore) w).2 = w₁ at hsame hok
  have hr := (unlock_restarted keyStore password w₁ henv hstored hen).2.2
  rw [hok] at hr
  obtain ⟨-, -, -, -, hfiles⟩ := hr
  have hblob₁ : w₁.view.files (.enc f) = some blob := by
    rw [(hsame f).2, recSteps_enc_eq hrec f, hblob]
  rcases (hfiles f).2 with ⟨hnone, -⟩ | ⟨blob', plain, hblob', ho', -⟩
  · rw [hnone] at hblob₁; cases hblob₁
  · rw [Option.some.inj (hblob₁.symm.trans hblob'), ho'] at ho
    cases ho

end Restart
-- ============================================================================
-- The disk at a crash
-- ============================================================================

section Crash

variable {env : Env} {X : Crates} {keyStore : Bool} {v v' : View} {salt key newKey : Bytes}
  {c : ConfigFile → Option Bytes} {s : State} {old new : String}

/-- What is on disk before the change: the old password is set up, and every
    config file is plaintext. -/
structure ReadyToChange (X : Crates) (old : String) (salt key : Bytes)
    (c : ConfigFile → Option Bytes) (s : State) (v : View) : Prop where
  enabled : (readAs X (v.files .authJson)).enabled = true
  passwordHash : (readAs X (v.files .authJson)).passwordHash = s.authData.passwordHash
  stored : StoredKey X.argon2 s.authData.passwordHash salt key
  derives : Argon2id.deriveKey X.argon2 old salt = .ok key
  files : ∀ f, v.files (.plain f) = c f ∧ v.files (.enc f) = none

theorem ReadyToChange.kept (h : ReadyToChange X old salt key c s v) (k : Bytes) :
    Kept X.aead k c v where
  plain hp := (h.files _).1 ▸ hp
  enc he := by rw [(h.files _).2] at he; cases he
  present hc := .inl (by rw [(h.files _).1, hc]; rfl)

/-- The crash invariant of `change_password` from `v`: a crash is survived if
    the condition holds and lost otherwise. -/
def CrashView (X : Crates) (keyStore : Bool) (old new : String) (c : ConfigFile → Option Bytes)
    (s : State) (v v' : View) : Prop :=
  NoResume keyStore v' ∧
  ((readAs X (v'.files .authJson)).lockoutUntil = (readAs X (v.files .authJson)).lockoutUntil ∨
    (readAs X (v'.files .authJson)).lockoutUntil = s.authData.lockoutUntil) ∧
  (CrashCond c (placedSince v v') ∧
      (∃ password, (password = old ∨ password = new) ∧ OpenableBy X c password v') ∨
    ¬ CrashCond c (placedSince v v') ∧ Lost X v')

/-- Nothing has been put in place yet. -/
theorem CrashView.untouched (h : ReadyToChange X old salt key c s v)
    (hsame : ∀ f, Same v v' f) (hauth : v'.files .authJson = v.files .authJson)
    (hplaced : v'.placed = v.placed) : CrashView X keyStore old new c s v v' := by
  have henc : ∀ f, v'.files (.enc f) = none := fun f => (hsame f).2.trans (h.files f).2
  refine ⟨.inr (.inr henc), .inl (by rw [hauth]), .inl ⟨.inl fun f blob hmem => ?_, old, .inl rfl,
    salt, key, ?_, ?_, h.derives, (h.kept key).of_same hsame, fun f blob hblob => ?_⟩⟩
  · rw [placedSince_append (l := []) (by simpa using hplaced)] at hmem
    cases hmem
  · rw [hauth]; exact h.enabled
  · rw [hauth, h.passwordHash]; exact h.stored
  · rw [henc] at hblob; cases hblob

/-- What encrypting has put in place since `v`: `.enc` files, all of them
    still there. -/
structure EncLog (v v' : View) (l : List (Name × Bytes)) : Prop where
  placed : v'.placed = v.placed ++ l
  only : ∀ e ∈ l, ∃ f, e.1 = .enc f
  there : ∀ f blob, (.enc f, blob) ∈ l → (v'.files (.enc f)).isSome
  logged : ∀ f blob, v'.files (.enc f) = some blob → (.enc f, blob) ∈ l

theorem EncLog.step {a : Aead} {v₀ : View} {l : List (Name × Bytes)} (h : EncLog v₀ v l)
    (hs : EncStep a key v v') : ∃ l', EncLog v₀ v' l' := by
  cases hs with
  | @place f _ blob hp _ =>
    refine ⟨l ++ [(.enc f, blob)], by simp [h.placed], fun e he => ?_, fun g b hb => ?_,
      fun g b hb => ?_⟩
    · rcases List.mem_append.mp he with he | he
      · exact h.only e he
      · exact ⟨f, by rw [List.mem_singleton.mp he]⟩
    · by_cases hg : g = f
      · simp [hg]
      · simpa [hg] using h.there g b (by simpa [hg] using hb)
    · by_cases hg : g = f
      · subst hg
        obtain rfl : blob = b := by simpa using hb
        simp
      · exact List.mem_append_left _ (h.logged g b (by simpa [hg] using hb))
  | @drop f _ _ hp he _ =>
    exact ⟨l, h.placed, h.only, fun g b hb => by simpa using h.there g b hb,
      fun g b hb => h.logged g b (by simpa using hb)⟩

theorem encLog_of_steps {a : Aead} (henc : ∀ f, v.files (.enc f) = none)
    (hs : ReflTransGen (EncStep a key) v v') : ∃ l, EncLog v v' l :=
  steps_preserve (P := fun v' => ∃ l, EncLog v v' l) (fun _ _ ⟨_, h⟩ hr => h.step hr)
    ⟨[], by simp, by simp, by simp, fun f b hb => by rw [henc] at hb; cases hb⟩ hs

/-- While the files are being encrypted the old `auth.json` is in place. -/
theorem CrashView.encrypting {v₁ : View} (h : ReadyToChange X old salt key c s v)
    (hrej : X.aead.Rejects key newKey) (hsame : ∀ f, Same v v₁ f)
    (hauth : v₁.files .authJson = v.files .authJson) (hplaced : v₁.placed = v.placed)
    (hks : keyStore = false ∨ v₁.keychain = none)
    (hs : ReflTransGen (EncStep X.aead newKey) v₁ v') : CrashView X keyStore old new c s v v' := by
  have henc₁ : ∀ f, v₁.files (.enc f) = none := fun f => (hsame f).2.trans (h.files f).2
  obtain ⟨l, hl⟩ := encLog_of_steps henc₁ hs
  have hframe := steps_frame (fun _ _ => EncStep.frame) hs
  have hkept : Kept X.aead newKey c v' := ((h.kept newKey).of_same hsame).encSteps hs
  have hsince : placedSince v v' = l := placedSince_append (by rw [hl.placed, hplaced])
  have hauth' : v'.files .authJson = v.files .authJson := hframe.1.trans hauth
  cases l with
  | nil =>
    -- no file has been renamed: the plaintext is all there
    have henc : ∀ f, v'.files (.enc f) = none := by
      intro f
      cases hf : v'.files (.enc f) with
      | none => rfl
      | some blob => cases hl.logged f blob hf
    refine CrashView.untouched h (fun f => ⟨?_, ?_⟩) hauth' (by simpa [hplaced] using hl.placed)
    · rw [hkept.plain_eq (henc f), (h.files f).1]
    · rw [henc, (h.files f).2]
  | cons e l =>
    obtain ⟨f, hf⟩ := hl.only e (by simp)
    obtain ⟨blob, hblob⟩ := Option.isSome_iff_exists.mp
      (hl.there f e.2 (by rw [← hf]; exact List.mem_cons_self))
    refine ⟨?_, .inl (by rw [hauth']), .inr ⟨?_, salt, key, ?_, ?_, f, blob, hblob, ?_⟩⟩
    · rcases hks with hks | hks
      · exact .inl hks
      · exact .inr (.inl (hframe.2.trans hks))
    · rw [hsince]
      rintro (hno | ⟨⟨json, hjson⟩, -⟩)
      · exact hno f e.2 (by rw [← hf]; exact List.mem_cons_self)
      · obtain ⟨g, hg⟩ := hl.only _ hjson
        cases hg
    · rw [hauth']; exact h.enabled
    · rw [hauth', h.passwordHash]; exact h.stored
    · obtain ⟨p, -, hsealed⟩ := hkept.enc hblob
      exact hsealed.opens_rejected hrej

theorem DecStep.placed_prefix {a : Aead} (h : DecStep a key v v') : v.placed <+: v'.placed := by
  cases h <;> simp

theorem decSteps_placed_prefix {a : Aead} (hs : ReflTransGen (DecStep a key) v v') :
    v.placed <+: v'.placed :=
  steps_preserve (P := fun v' => v.placed <+: v'.placed) (fun _ _ h hr => h.trans hr.placed_prefix)
    (List.prefix_refl _) hs

/-- A file that was empty stays behind encrypted. -/
theorem decSteps_enc_nil {a : Aead} {f : ConfigFile} {blob : Bytes}
    (hb : v.files (.enc f) = some blob) (hsealed : Sealed a newKey [] blob)
    (hs : ReflTransGen (DecStep a key) v v') : v'.files (.enc f) = some blob := by
  refine steps_preserve (P := fun v' => v'.files (.enc f) = some blob) ?_ hb hs
  intro v₁ v₂ hb' hr
  cases hr with
  | place => simpa using hb'
  | @drop g _ blob' he ho _ _ =>
    have hne : f ≠ g := by
      rintro rfl
      obtain rfl := Option.some.inj (hb'.symm.trans he)
      rw [hsealed.opens_nil] at ho
      cases ho
    simpa [hne] using hb'

/-- Once the new `auth.json` is in place. -/
theorem CrashView.decrypting {v₁ v₂ : View} {hash : String} {salt' : Bytes} {d : AuthData}
    (h : ReadyToChange X old salt key c s v) (henv : env.NoFaults) (hsame : ∀ f, Same v v₁ f)
    (hplaced : v₁.placed = v.placed) (hks : keyStore = false ∨ v₁.keychain = none)
    (hd : d = { s.authData with passwordHash := hash }) (hen : s.authData.enabled = true)
    (hstored : StoredKey X.argon2 hash salt' newKey)
    (hkey : Argon2id.deriveKey X.argon2 new salt' = .ok newKey)
    (hs : ReflTransGen (EncStep X.aead newKey) v₁ v₂)
    (hpost : EncPost env X.aead newKey v₁ (.ok ()) v₂)
    (hs' : ReflTransGen (DecStep X.aead newKey) (saved X v₂ d) v') :
    CrashView X keyStore old new c s v v' := by
  obtain ⟨l, hl⟩ := encLog_of_steps (fun f => (hsame f).2.trans (h.files f).2) hs
  have hframe := steps_frame (fun _ _ => EncStep.frame) hs
  have hframe' := steps_frame (fun _ _ => DecStep.frame) hs'
  have hkept : Kept X.aead newKey c v' :=
    ((((h.kept newKey).of_same hsame).encSteps hs).saved X d).decSteps hs'
  have hread : readAs X (v'.files .authJson) = d := by
    rw [hframe'.1]
    simp [saved, readAs_toVecPretty]
  have hres : NoResume keyStore v' := by
    rcases hks with hks | hks
    · exact .inl hks
    · exact .inr (.inl (hframe'.2.trans (by simpa [saved] using hframe.2.trans hks)))
  have hstored' : StoredKey X.argon2 (readAs X (v'.files .authJson)).passwordHash salt' newKey := by
    rw [hread, hd]; exact hstored
  have hen' : (readAs X (v'.files .authJson)).enabled = true := by rw [hread, hd]; exact hen
  have hprefix := decSteps_placed_prefix hs'
  have hmem : ∀ e ∈ l ++ [(Name.authJson, X.json.toVecPretty d)], e ∈ placedSince v v' := by
    obtain ⟨l', hl'⟩ := hprefix
    rw [placedSince_append (l := l ++ (Name.authJson, X.json.toVecPretty d) :: l')
      (by rw [← hl']; simp [saved, hl.placed, hplaced])]
    intro e he
    rcases List.mem_append.mp he with he | he
    · exact List.mem_append_left _ he
    · exact List.mem_append_right _ (by rw [List.mem_singleton.mp he]; exact List.mem_cons_self)
  refine ⟨hres, .inr (by rw [hread, hd]), ?_⟩
  by_cases hne : ∀ f, c f ≠ some []
  · refine .inl ⟨.inr ⟨⟨_, hmem _ (List.mem_append_right _ List.mem_cons_self)⟩, hne⟩, new, .inr rfl,
      salt', newKey, hen', hstored', hkey, hkept, fun f blob hblob => ?_⟩
    obtain ⟨p, hc, hsealed⟩ := hkept.enc hblob
    rw [hsealed.opens_eq hstored.key_length fun hp => hne f (hp ▸ hc)]
    simp
  · obtain ⟨f, hf⟩ := not_forall.mp hne
    have hf : c f = some [] := not_not.mp hf
    -- the empty file was sealed, and its blob does not open
    obtain ⟨-, ⟨hnone, -⟩ | ⟨plain, blob, hplain, hsealed, hblob⟩⟩ := (hpost.all henv).2 f
    · rw [(hsame f).1, (h.files f).1, hf] at hnone; cases hnone
    · rw [(hsame f).1, (h.files f).1, hf] at hplain
      obtain rfl := Option.some.inj hplain
      have hblob' : v'.files (.enc f) = some blob :=
        decSteps_enc_nil (by simpa [saved] using hblob) hsealed hs'
      refine .inr ⟨?_, salt', newKey, hen', hstored', f, blob, hblob', hsealed.opens_nil⟩
      rintro (hno | ⟨-, hne'⟩)
      · exact hno f blob (hmem _ (List.mem_append_left _ (hl.logged f blob hblob)))
      · exact hne hne'

/-- The crash invariant holds throughout `change_password`. -/
theorem auth_changePassword_crash (keyStore : Bool) (h : ReadyToChange X old salt key c s v) (henv : env.NoFaults)
    (hrej : ∀ k newKey, Argon2id.deriveKey X.argon2 new (env.bytes k Argon2id.SALT_LENGTH)
      = .ok newKey → X.aead.Rejects key newKey) :
    ASpec env (CrashView X keyStore old new c s v) (changePassword X keyStore old new)
      (fun _ _ _ => True) s v := by
  have hstart : CrashView X keyStore old new c s v v :=
    CrashView.untouched h (Same.refl v) rfl rfl
  refine auth_changePassword hstart (fun _ => trivial) (fun _ => ⟨?_, fun _ => trivial⟩) ?_
  · exact CrashView.untouched h (fun _ => ⟨rfl, rfl⟩) rfl rfl
  intro hen _ _ v₁ hv₁ hash salt' newKey ⟨k, hk⟩ hstored hkey
  obtain ⟨hsame, hauth, hplaced, hks⟩ : (∀ f, Same v v₁ f) ∧
      v₁.files .authJson = v.files .authJson ∧ v₁.placed = v.placed ∧
      (keyStore = false ∨ v₁.keychain = none) := by
    rcases hv₁ with ⟨hf, rfl⟩ | ⟨-, rfl⟩
    · exact ⟨Same.refl v₁, rfl, rfl, .inl hf⟩
    · exact ⟨fun _ => ⟨rfl, rfl⟩, rfl, rfl, .inr rfl⟩
  have hsteps : ∀ v', ReflTransGen (EncStep X.aead newKey) v₁ v' →
      CrashView X keyStore old new c s v v' :=
    fun v' hs => CrashView.encrypting h (hrej k newKey (hk ▸ hkey)) hsame hauth hplaced hks hs
  refine auth_reencrypt hstored.key_length hsteps ?_ ?_
  · intro e v₂ _ hpost
    cases (hpost.all henv).1
  · intro v₂ hs hpost
    have hdec : ∀ v', ReflTransGen (DecStep X.aead newKey)
        (saved X v₂ { s.authData with passwordHash := hash }) v' →
        CrashView X keyStore old new c s v v' := fun v' hs' =>
      CrashView.decrypting h henv hsame hplaced hks rfl hen hstored hkey hs hpost hs'
    refine auth_commitChange (hsteps v₂ hs) rfl (fun hf => ?_) (hdec _ .refl) hdec
      (fun _ _ _ _ => trivial) (fun _ _ _ => trivial)
    exact absurd hf (not_faulty henv fun _ => onFiles_of_saveCmd)

theorem survives_iff_of_crashView {env' : Env} {w w' : World} (henv' : env'.NoFaults)
    (hlock : ∀ d : AuthData, d = readAs X (w.view.files .authJson) ∨ d = s.authData →
      ∀ k, activeLockoutAt X.rfc3339 d (env'.now k) = none)
    (h : CrashView X keyStore old new c s w.view w'.view) :
    Survives X keyStore env' old new c w' ↔ CrashCond c (placedSince w.view w'.view) := by
  obtain ⟨hres, hlockout, ⟨hcond, password, hp, hopen⟩ | ⟨hcond, hlost⟩⟩ := h
  · refine ⟨fun _ => hcond, fun _ => survives_of_openableBy henv' (fun k => ?_) hres hopen hp⟩
    -- only the lockout field decides
    have hcongr : ∀ d d' : AuthData, d.lockoutUntil = d'.lockoutUntil →
        activeLockoutAt X.rfc3339 d (env'.now k) = activeLockoutAt X.rfc3339 d' (env'.now k) := by
      intro d d' hd
      unfold activeLockoutAt
      rw [hd]
    rcases hlockout with hl | hl
    · rw [hcongr _ _ hl]; exact hlock _ (.inl rfl) k
    · rw [hcongr _ _ hl]; exact hlock _ (.inr rfl) k
  · exact ⟨fun hsurv => absurd hsurv (not_survives_of_lost henv' hres hlost),
      fun hc => absurd hc hcond⟩

end Crash

/-- A process that dies after the `n`-th command of `change_password` is
    survived, by the old or the new password, exactly when no `.enc` had been
    put in place by then, or `auth.json` had and no config file is empty. -/
theorem changePassword_crash_iff {env env' : Env} {X : Crates} {keyStore : Bool}
    {old new : String} {salt key : Bytes} {c : ConfigFile → Option Bytes} {s : State} {w : World}
    (henv : env.NoFaults) (henv' : env'.NoFaults)
    (hready : ReadyToChange X old salt key c s w.view)
    (hrej : ∀ k newKey, Argon2id.deriveKey X.argon2 new (env.bytes k Argon2id.SALT_LENGTH)
      = .ok newKey → X.aead.Rejects key newKey)
    (hlock : ∀ d : AuthData, d = readAs X (w.view.files .authJson) ∨ d = s.authData →
      ∀ k, activeLockoutAt X.rfc3339 d (env'.now k) = none) (n : Nat) :
    let w' := Prog.crashAt (exec env) n ((changePassword X keyStore old new).run.run s) w
    Survives X keyStore env' old new c w' ↔ CrashCond c (placedSince w.view w'.view) :=
  survives_iff_of_crashView henv' hlock (spec_crash (auth_changePassword_crash keyStore hready henv hrej) n)

/-- The process dies after `n` commands of a change from "secret" to
    "topsecret". -/
def Sample.crashed (n : Nat) : World :=
  Prog.crashAt (exec (Sample.env 2)) n
    ((changePassword Sample.crates true "secret" "topsecret").run.run
      ⟨true, some (Sample.keyOf "secret" 1), Sample.authData "secret" 1, none⟩)
    (Sample.world (fun _ => some [7]) (some (Sample.authData "secret" 1)))

theorem Sample.crashed_eq (n : Nat) : Sample.crashed n =
    Prog.crashAt (exec (Sample.env 2)) n ((changeTo Sample.crates true "topsecret").run.run
        ⟨true, some (Sample.keyOf "secret" 1), Sample.authData "secret" 1, none⟩)
      (Sample.world (fun _ => some [7]) (some (Sample.authData "secret" 1))) := by
  rw [Sample.crashed, changePassword_checked rfl rfl (Sample.storedKey "secret" 1)
    (Sample.deriveKey_eq "secret" 1)]

theorem Sample.placedSince_world (c : ConfigFile → Option Bytes) (d : Option AuthData) (w : World) :
    placedSince (Sample.world c d).view w.view = w.placed := List.drop_zero

theorem Sample.readyToChange :
    ReadyToChange Sample.crates "secret" (List.replicate 32 1) (Sample.keyOf "secret" 1)
      (fun _ => some [7])
      ⟨true, some (Sample.keyOf "secret" 1), Sample.authData "secret" 1, none⟩
      (Sample.world (fun _ => some [7]) (some (Sample.authData "secret" 1))).view where
  enabled := congrArg AuthData.enabled (Sample.readAs_world _ _)
  passwordHash := congrArg AuthData.passwordHash (Sample.readAs_world _ _)
  stored := Sample.storedKey "secret" 1
  derives := Sample.deriveKey_eq _ _
  files _ := ⟨Sample.world_plain .., Sample.world_enc ..⟩

theorem Sample.rejects (k : Nat) (newKey : Bytes)
    (h : Argon2id.deriveKey Sample.crates.argon2 "topsecret"
      ((Sample.env 2).bytes k Argon2id.SALT_LENGTH) = .ok newKey) :
    Sample.crates.aead.Rejects (Sample.keyOf "secret" 1) newKey := by
  obtain rfl : Sample.keyOf "topsecret" 2 = newKey := Except.ok.inj h
  exact Sample.rejects_of_tag_ne (by decide +kernel)

theorem Sample.noLockout (d : AuthData)
    (h : d = readAs Sample.crates ((Sample.world (fun _ => some [7])
      (some (Sample.authData "secret" 1))).view.files .authJson) ∨ d = Sample.authData "secret" 1)
    (k : Nat) : activeLockoutAt Sample.crates.rfc3339 d ((Sample.env 1).now k) = none := by
  rw [Sample.readAs_world, or_self] at h
  subst h
  rfl

/-- The change that is not interrupted is survived. -/
theorem changePassword_uninterrupted :
    Survives Sample.crates true (Sample.env 1) "secret" "topsecret" (fun _ => some [7])
      (Sample.crashed 100) := by
  have hnames : Name.authJson ∈ (Sample.crashed 100).placed.map Prod.fst := by
    rw [Sample.crashed_eq]
    decide +kernel
  have hiff : _ ↔ CrashCond _ (placedSince _ (Sample.crashed 100).view) :=
    changePassword_crash_iff (Sample.env_noFaults 2) (Sample.env_noFaults 1)
      Sample.readyToChange Sample.rejects Sample.noLockout 100
  rw [Sample.placedSince_world] at hiff
  obtain ⟨⟨n, json⟩, hmem, rfl⟩ := List.mem_map.mp hnames
  exact hiff.mpr (.inr ⟨⟨json, hmem⟩, by simp⟩)

/-- The process dies right after the first `.enc` has been put in place:
    neither password brings the files back. -/
theorem changePassword_interrupted :
    (Sample.crashed 11).placed.map Prod.fst = [.enc .rcloneConf] ∧
    ¬ Survives Sample.crates true (Sample.env 1) "secret" "topsecret" (fun _ => some [7])
      (Sample.crashed 11) := by
  have hnames : (Sample.crashed 11).placed.map Prod.fst = [.enc .rcloneConf] := by
    rw [Sample.crashed_eq]
    decide +kernel
  refine ⟨hnames, fun hsurv => ?_⟩
  have hview := spec_crash (auth_changePassword_crash true Sample.readyToChange
    (Sample.env_noFaults 2) Sample.rejects) 11
  have hcond := (survives_iff_of_crashView (Sample.env_noFaults 1) Sample.noLockout hview).mp hsurv
  rw [Sample.placedSince_world] at hcond
  have hmem : ∀ n, (∃ data, (n, data) ∈ (Sample.crashed 11).placed) ↔ n = .enc .rcloneConf := by
    intro n
    rw [← List.mem_singleton, ← hnames, List.mem_map]
    exact ⟨fun ⟨data, h⟩ => ⟨_, h, rfl⟩, fun ⟨⟨_, data⟩, h, rfl⟩ => ⟨data, h⟩⟩
  rcases hcond with hno | ⟨hauth, -⟩
  · obtain ⟨blob, hblob⟩ := (hmem (.enc .rcloneConf)).mpr rfl
    exact hno _ blob hblob
  · cases (hmem .authJson).mp hauth

end GnDrive.Auth
