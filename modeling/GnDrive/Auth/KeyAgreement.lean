/-
  GnDrive.Auth.KeyAgreement

  The key in memory, the persisted hash and the encrypted files, over any
  sequence of operations and restarts and under any pattern of file-system
  failures.

  The three are changed by different steps, each of which can fail alone.
  Two operations can pull them apart: `setup_password` with an `.enc` of an
  earlier password still on disk, and `change_password` when its decryption
  does not bring back every file, since the new hash is saved before and the
  new key taken after it.  `keyAgrees_of_runs` shows that nothing else can:
  `KeyInv` is kept by every call that avoids the two.
-/

import GnDrive.Auth.Accepted
import GnDrive.Auth.ChangePassword

namespace GnDrive.Auth

open AuthM
open Argon2id (StoredKey)
open Crypto (Sealed opens)
open Relation (ReflTransGen)

-- ============================================================================
-- The system
-- ============================================================================

inductive Request where
  | setup (password : String)
  | unlock (password : String)
  | lock
  | suspend
  | changePassword (old new : String)
  | removePassword (password : String)
  | restart

/-- A request together with what the environment decides while it is served:
    any call on the config directory may fail, the key store works. -/
structure Call where
  request : Request
  env : Env
  keyStoreWorks : ∀ k c, c.onFiles = false → env.fails k c = false

/-- A running service and the disk. -/
structure Running where
  state : State
  world : World

def Request.prog (X : Crates) (keyStore : Bool) : Request → AuthM Unit
  | .setup password => setupPassword X keyStore password
  | .unlock password => Auth.unlock X keyStore password
  | .lock => Auth.lock X keyStore
  | .suspend => Auth.suspend X
  | .changePassword old new => Auth.changePassword X keyStore old new
  | .removePassword password => Auth.removePassword X password
  | .restart => do set (← io (Auth.new X keyStore))

def Running.step (X : Crates) (keyStore : Bool) (m : Running) (call : Call) : Running :=
  let r := runAuth call.env (call.request.prog X keyStore) m.state m.world
  ⟨r.1.2, r.2⟩

/-- No password is configured, nothing is encrypted, no key is remembered. -/
def Fresh (X : Crates) (m : Running) : Prop :=
  m.state = ⟨true, none, .default, none⟩ ∧
  (readAs X (m.world.view.files .authJson)).enabled = false ∧
  (∀ f, m.world.view.files (.enc f) = none) ∧ m.world.view.keychain = none

def keySystem (X : Crates) (keyStore : Bool) : System Running Call where
  init := Fresh X
  step m call := some (m.step X keyStore call)

/-- The commands `change_password` depends on to bring the files back. -/
def BringBackCmd (v : View) (c : Cmd) : Prop :=
  ∃ f, c = .pathExists (.file (.plain f)) ∧ (v.files (.enc f)).isSome ∨
    c = .pathExists (.file (.enc f)) ∨ DecCmd f c ∨ c = .removeFile (.file (.enc f))

/-- `change_password` from `v` finds every encrypted file beside its plaintext
    and no file empty, and the calls its decryption rests on work. -/
structure BringsBack (env : Env) (v : View) : Prop where
  beside : ∀ f, (v.files (.enc f)).isSome → (v.files (.plain f)).isSome
  nonempty : ∀ f, v.files (.plain f) ≠ some []
  works : ¬ Faulty env (BringBackCmd v)

/-- The calls that keep key, hash and files together: a first password is set
    up with no `.enc` on disk, and a change that is accepted brings the files
    back. -/
def Call.Ok (X : Crates) (m : Running) (call : Call) : Prop :=
  match call.request with
  | .setup _ => m.state.authData.enabled = false → ∀ f, m.world.view.files (.enc f) = none
  | .changePassword old _ => m.state.authData.enabled = true → m.state.unlocked = true →
      Argon2id.verify X.argon2 old m.state.authData.passwordHash = true →
      BringsBack call.env m.world.view
  | _ => True

/-- If the service holds a key, it is the one that every accepted password
    derives from the stored hash, and every encrypted file is under it. -/
def KeyAgrees (X : Crates) (m : Running) : Prop :=
  ∀ key, m.state.encKey = some key →
    let hash := (readAs X (m.world.view.files .authJson)).passwordHash
    hash = m.state.authData.passwordHash ∧
    (∃ password, Argon2id.verify X.argon2 password hash = true) ∧
    (∀ password, Argon2id.verify X.argon2 password hash = true →
      ∃ salt, Argon2id.extractSalt hash = .ok salt ∧
        Argon2id.deriveKey X.argon2 password salt = .ok key) ∧
    ∀ f blob, m.world.view.files (.enc f) = some blob → ∃ plain, Sealed X.aead key plain blob

-- ============================================================================
-- The invariant
-- ============================================================================

section

variable {env : Env} {X : Crates} {keyStore : Bool} {s s' : State} {v v' : View} {key : Bytes}

/-- Every encrypted file is under `key`. -/
def EncsUnder (a : Aead) (key : Bytes) (v : View) : Prop :=
  ∀ f blob, v.files (.enc f) = some blob → ∃ plain, Sealed a key plain blob

/-- `v'` has no encrypted file that `v` does not have. -/
def FewerEncs (v v' : View) : Prop :=
  ∀ f blob, v'.files (.enc f) = some blob → v.files (.enc f) = some blob

theorem EncsUnder.fewer {a : Aead} (h : EncsUnder a key v) (hf : FewerEncs v v') :
    EncsUnder a key v' := fun f blob hb => h f blob (hf f blob hb)

theorem FewerEncs.trans {v₁ v₂ : View} (h : FewerEncs v v₁) (h' : FewerEncs v₁ v₂) :
    FewerEncs v v₂ := fun f blob hb => h f blob (h' f blob hb)

theorem fewerEncs_of_same (h : ∀ f, v'.files (.enc f) = v.files (.enc f)) : FewerEncs v v' :=
  fun f _ hb => (h f).symm.trans hb

theorem fewerEncs_decSteps {a : Aead} (hs : ReflTransGen (DecStep a key) v v') :
    FewerEncs v v' := by
  refine steps_preserve (P := FewerEncs v) ?_ (fun _ _ hb => hb) hs
  intro v₁ v₂ h hr f blob hb
  refine h f blob ?_
  cases hr with
  | place => simpa using hb
  | @drop g =>
    by_cases hg : f = g
    · subst hg; simp at hb
    · simpa [hg] using hb

theorem fewerEncs_recSteps {enabled : Bool} (hs : ReflTransGen (RecStep enabled) v v') :
    FewerEncs v v' := by
  refine steps_preserve (P := FewerEncs v) ?_ (fun _ _ hb => hb) hs
  intro v₁ v₂ h hr f blob hb
  refine h f blob ?_
  cases hr with
  | dropPlain => simpa using hb
  | @dropEnc g =>
    by_cases hg : f = g
    · subst hg; simp at hb
    · simpa [hg] using hb

theorem EncsUnder.encSteps {a : Aead} (h : EncsUnder a key v)
    (hs : ReflTransGen (EncStep a key) v v') : EncsUnder a key v' := by
  refine steps_preserve (P := EncsUnder a key) ?_ h hs
  intro v₁ v₂ h hr f blob hb
  cases hr with
  | @place g plain b hp hsealed =>
    by_cases hg : f = g
    · subst hg
      obtain rfl : b = blob := by simpa using hb
      exact ⟨plain, hsealed⟩
    · exact h f blob (by simpa [hg] using hb)
  | drop => exact h f blob (by simpa using hb)

/-- The hash of `d` has a key behind it, and every encrypted file is under it. -/
def Backed (X : Crates) (d : AuthData) (key : Bytes) (v : View) : Prop :=
  (∃ salt, StoredKey X.argon2 d.passwordHash salt key) ∧ EncsUnder X.aead key v

/-- Memory, `auth.json`, key store and encrypted files belong together.  The
    hash in memory differs from the persisted one only after a `setup` whose
    save failed, and then nothing is encrypted. -/
structure KeyInv (X : Crates) (keyStore : Bool) (s : State) (v : View) : Prop where
  memory : s.authData.enabled = true → ∃ key, Backed X s.authData key v ∧
    ∀ k, s.encKey = some k → k = key
  disabled : s.authData.enabled = false → s.encKey = none ∧ s.unlocked = true
  persisted : (readAs X (v.files .authJson)).enabled = true →
    ∃ key, Backed X (readAs X (v.files .authJson)) key v ∧
      ∀ k, keyStore = true → v.keychain = some k → k = key
  agree : s.authData.enabled = true →
    (readAs X (v.files .authJson)).enabled = true ∧
      (readAs X (v.files .authJson)).passwordHash = s.authData.passwordHash ∨
    s.encKey = none ∧ s.unlocked = true ∧ ∀ f, v.files (.enc f) = none

theorem Backed.key_unique {d d' : AuthData} {k k' : Bytes} (h : Backed X d k v)
    (h' : Backed X d' k' v') (hd : d.passwordHash = d'.passwordHash) : k = k' := by
  obtain ⟨salt, hs⟩ := h.1
  obtain ⟨salt', hs'⟩ := h'.1
  exact (hs.key_unique (hd ▸ hs')).2

theorem KeyInv.keyAgrees {m : Running} (h : KeyInv X keyStore m.state m.world.view) :
    KeyAgrees X m := by
  intro key hkey
  have hen : m.state.authData.enabled = true := by
    cases hen : m.state.authData.enabled with
    | true => rfl
    | false => rw [(h.disabled hen).1] at hkey; cases hkey
  obtain ⟨k, ⟨⟨salt, hstored⟩, hencs⟩, hk⟩ := h.memory hen
  obtain rfl := hk key hkey
  rcases h.agree hen with ⟨-, hhash⟩ | ⟨hnone, -⟩
  · rw [hhash]
    refine ⟨rfl, ?_, fun p hp => ⟨salt, hstored.extractSalt_eq, hstored.verify_iff.mp hp⟩, hencs⟩
    obtain ⟨p, hp⟩ := hstored.2
    exact ⟨p, hstored.verify_iff.mpr hp⟩
  · rw [hnone] at hkey; cases hkey

/-- Fewer encrypted files and a forgotten key do no harm. -/
theorem KeyInv.of_fewer (h : KeyInv X keyStore s v) (hf : FewerEncs v v')
    (hauth : v'.files .authJson = v.files .authJson)
    (hkc : v'.keychain = v.keychain ∨ v'.keychain = none) : KeyInv X keyStore s v' where
  memory hen := by
    obtain ⟨key, ⟨hs, he⟩, hk⟩ := h.memory hen
    exact ⟨key, ⟨hs, he.fewer hf⟩, hk⟩
  disabled := h.disabled
  persisted hen := by
    rw [hauth] at hen ⊢
    obtain ⟨key, ⟨hs, he⟩, hk⟩ := h.persisted hen
    refine ⟨key, ⟨hs, he.fewer hf⟩, fun k hks hkc' => ?_⟩
    rcases hkc with hkc | hkc
    · exact hk k hks (hkc ▸ hkc')
    · rw [hkc] at hkc'; cases hkc'
  agree hen := by
    rw [hauth]
    refine (h.agree hen).imp_right fun ⟨h₁, h₂, h₃⟩ => ⟨h₁, h₂, fun f => ?_⟩
    cases hb : v'.files (.enc f) with
    | none => rfl
    | some blob => rw [← hf f blob hb]; exact h₃ f

-- ============================================================================
-- Bringing the files back
-- ============================================================================

/-- What is in `ys ++ zs` after `g` of `zs`, read as another split, is in `zs`. -/
theorem mem_of_split {xs ys zs ys' zs' : List ConfigFile} {f g : ConfigFile} (hnodup : xs.Nodup)
    (h : xs = ys ++ zs) (h' : xs = ys' ++ g :: zs') (hg : g ∉ ys) (hf : f ∈ g :: zs') :
    f ∉ ys := by
  rw [h', List.nodup_append] at hnodup
  intro hfy
  rcases List.append_eq_append_iff.mp (h.symm.trans h') with ⟨l, hl, -⟩ | ⟨l, hl, hl'⟩
  · exact hnodup.2.2 f (by rw [hl]; exact List.mem_append_left _ hfy) f hf rfl
  · cases l with
    | nil =>
      rw [List.append_nil] at hl
      exact hnodup.2.2 f (hl ▸ hfy) f hf rfl
    | cons e l =>
      rw [List.cons_append, List.cons.injEq] at hl'
      exact hg (by rw [hl, hl'.1]; simp)

/-- A file in the middle of `change_password`: it has no `.enc`, or one under
    the new key that opens. -/
theorem encDone_opens {v₁ : View} {f : ConfigFile} (hkey : key.length = 32)
    (hb : BringsBack env v) (h : EncDone env X.aead key v v₁ f) :
    v₁.files (.enc f) = none ∨
      ∃ blob, v₁.files (.enc f) = some blob ∧ opens X.aead key blob ≠ none := by
  rcases h with ⟨hskip, hsame⟩ | ⟨plain, blob, hp, hs, he, -⟩
  · refine .inl (hsame.2.trans ?_)
    cases henc : v.files (.enc f) with
    | none => rfl
    | some blob =>
      have hsome : (v.files (.enc f)).isSome := by rw [henc]; rfl
      rcases hskip with hnone | hfault
      · have hbeside := hb.beside f hsome
        rw [hnone] at hbeside
        cases hbeside
      · exact absurd (hfault.mono fun _ hc => ⟨f, .inl ⟨hc, hsome⟩⟩) hb.works
  · refine .inr ⟨blob, he, ?_⟩
    rw [hs.opens_eq hkey fun hnil => hb.nonempty f (hnil ▸ hp)]
    simp

/-- Decrypting after an encryption that may have stopped half way: what stays
    encrypted was so before; nothing does if the encryption went through; and
    if something does not open, it was there before. -/
theorem bringBack {v₁ v₂ : View} {r r' : Except AuthError Unit} (hkey : key.length = 32)
    (hb : BringsBack env v) (henc : EncPost env X.aead key v r v₁)
    (hdec : DecPost env X.aead key v₁ r' v₂) :
    FewerEncs v v₂ ∧ (r = .ok () → r' = .ok () ∧ ∀ f, v₂.files (.enc f) = none) ∧
      (∀ e, r' = .error e → ∃ f, v.files (.enc f) ≠ none) := by
  obtain ⟨ys, zs, hxs, hys, hzs, hr⟩ := henc
  obtain ⟨ys', zs', hxs', hys', hzs', hr'⟩ := hdec
  -- a file that went through its round of decryption has no `.enc` left
  have hgone : ∀ f ∈ ys', v₂.files (.enc f) = none := by
    intro f hf
    rcases hys' f hf with ⟨hnone | hfault, hsame⟩ | ⟨-, -, -, -, -, hnone | ⟨-, hfault⟩⟩
    · exact hsame.2.trans hnone
    · exact absurd (hfault.mono fun _ hc => ⟨f, .inr (.inl hc)⟩) hb.works
    · exact hnone
    · exact absurd (hfault.mono fun _ hc => ⟨f, .inr (.inr (.inr hc))⟩) hb.works
  have hmem : ∀ f, f ∈ ys' ∨ f ∈ zs' := fun f =>
    List.mem_append.mp (hxs' ▸ mem_CONFIG_FILES f)
  cases r' with
  | ok u =>
    obtain rfl : zs' = [] := hr'
    have hall : ∀ f, v₂.files (.enc f) = none := fun f =>
      hgone f ((hmem f).resolve_right (by simp))
    refine ⟨fun f blob hblob => ?_, fun _ => ⟨rfl, hall⟩, nofun⟩
    rw [hall] at hblob
    cases hblob
  | error e =>
    obtain ⟨g, zs'', rfl, hfault | ⟨blob, hblob, ho⟩⟩ := hr'
    · exact absurd (hfault.mono fun _ hc => ⟨g, .inr (.inr (.inl hc))⟩) hb.works
    have hgy : g ∉ ys := by
      intro hgy
      rcases encDone_opens hkey hb (hys g hgy) with hnone | ⟨blob', hblob', ho'⟩
      · rw [hnone] at hblob; cases hblob
      · exact ho' (by rw [← Option.some.inj (hblob.symm.trans hblob'), ho])
    have hzs_of : ∀ f, f ∉ ys → f ∈ zs := fun f hf =>
      (List.mem_append.mp (hxs ▸ mem_CONFIG_FILES f)).resolve_left hf
    refine ⟨fun f b hfb => ?_, fun hok => ?_, fun _ _ => ⟨g, ?_⟩⟩
    · rcases hmem f with hf | hf
      · rw [hgone f hf] at hfb; cases hfb
      · have hfz := hzs_of f (mem_of_split nodup_CONFIG_FILES hxs hxs' hgy hf)
        rw [← (hzs f hfz).2, ← (hzs' f hf).2, hfb]
    · subst hok
      obtain rfl : zs = [] := hr
      cases hzs_of g hgy
    · rw [← (hzs g (hzs_of g hgy)).2, hblob]
      simp

-- ============================================================================
-- Step lemmas
-- ============================================================================

/-- The usual case of the invariant: the hash in memory is the persisted one. -/
structure Together (X : Crates) (keyStore : Bool) (salt key : Bytes) (s : State) (v : View) :
    Prop where
  enabled : s.authData.enabled = true
  stored : StoredKey X.argon2 s.authData.passwordHash salt key
  encs : EncsUnder X.aead key v
  encKey : ∀ {k}, s.encKey = some k → k = key
  persistedEnabled : (readAs X (v.files .authJson)).enabled = true
  persistedHash : (readAs X (v.files .authJson)).passwordHash = s.authData.passwordHash
  keychain : ∀ {k}, keyStore = true → v.keychain = some k → k = key

variable {salt : Bytes}

theorem Together.keyInv (h : Together X keyStore salt key s v) : KeyInv X keyStore s v where
  memory _ := ⟨key, ⟨⟨salt, h.stored⟩, h.encs⟩, fun _ hk => h.encKey hk⟩
  disabled hen := by rw [h.enabled] at hen; cases hen
  persisted _ := ⟨key, ⟨⟨salt, h.persistedHash ▸ h.stored⟩, h.encs⟩, fun _ => h.keychain⟩
  agree _ := .inl ⟨h.persistedEnabled, h.persistedHash⟩

/-- A service with a key, or a locked one, is in the usual case. -/
theorem KeyInv.together (h : KeyInv X keyStore s v) (hen : s.authData.enabled = true)
    (hs : s.encKey ≠ none ∨ s.unlocked = false) :
    ∃ salt key, Together X keyStore salt key s v := by
  obtain ⟨key, hbacked, hk⟩ := h.memory hen
  obtain ⟨⟨salt, hstored⟩, hencs⟩ := hbacked
  rcases h.agree hen with ⟨hen', hhash⟩ | ⟨hnone, hu, -⟩
  · obtain ⟨key', hbacked', hkc⟩ := h.persisted hen'
    obtain rfl : key' = key := hbacked'.key_unique ⟨⟨salt, hstored⟩, hencs⟩ hhash
    exact ⟨salt, key', hen, hstored, hencs, fun hk' => hk _ hk', hen', hhash, fun hks => hkc _ hks⟩
  · rcases hs with hs | hs
    · exact absurd hnone hs
    · rw [hu] at hs; cases hs

/-- Decrypting, or saving the same hash again, keeps everything together. -/
theorem Together.of_frame (h : Together X keyStore salt key s v) (s' : State)
    (hencs : EncsUnder X.aead key v') (hf : Frame v v')
    (hen : s'.authData.enabled = true)
    (hhash : s'.authData.passwordHash = s.authData.passwordHash)
    (hk : ∀ k, s'.encKey = some k → k = key) : Together X keyStore salt key s' v' where
  enabled := hen
  stored := hhash ▸ h.stored
  encs := hencs
  encKey := hk _
  persistedEnabled := by rw [hf.1]; exact h.persistedEnabled
  persistedHash := by rw [hf.1, hhash]; exact h.persistedHash
  keychain hks hkc := h.keychain hks (hf.2 ▸ hkc)

theorem Together.saved {d : AuthData} (h : Together X keyStore salt key s v)
    (hd : d.enabled = true) (hhash : d.passwordHash = s.authData.passwordHash) :
    Together X keyStore salt key { s with authData := d } (saved X v d) where
  enabled := hd
  stored := hhash ▸ h.stored
  encs f blob hb := h.encs f blob (by simpa [Auth.saved] using hb)
  encKey := h.encKey
  persistedEnabled := by simpa [Auth.saved, readAs_toVecPretty] using hd
  persistedHash := by simp [Auth.saved, readAs_toVecPretty]
  keychain hks hkc := h.keychain hks (by simpa [Auth.saved] using hkc)

theorem Together.setKeychain (h : Together X keyStore salt key s v) {k : Option Bytes}
    (hk : k = none ∨ k = some key) : Together X keyStore salt key s { v with keychain := k } where
  enabled := h.enabled
  stored := h.stored
  encs := h.encs
  encKey := h.encKey
  persistedEnabled := h.persistedEnabled
  persistedHash := h.persistedHash
  keychain _ hk' := by
    rcases hk with rfl | rfl
    · cases hk'
    · exact (Option.some.inj hk').symm

/-- An unlock counts a failure, stops while decrypting, or takes the key. -/
theorem auth_unlock_keyInv {password : String} (h : KeyInv X keyStore s v) :
    ASpec env (fun _ => True) (unlock X keyStore password)
      (fun _ s' v' => KeyInv X keyStore s' v') s v := by
  refine auth_unlock trivial (fun _ => h) (fun _ _ => h) (fun _ _ _ _ => h) fun hen hu => ?_
  obtain ⟨salt, key, ht⟩ := h.together hen (.inr hu)
  have ht' : Together X keyStore salt key { s with authData := s.authData.clearLockout } v :=
    ht.of_frame _ ht.encs (Frame.refl v) hen rfl fun _ => ht.encKey
  refine auth_unlockVerify trivial (fun _ => ?_) fun hright => ?_
  · refine auth_recordFailure trivial fun d hd => ?_
    have hd' : d.enabled = true ∧ d.passwordHash = s.authData.passwordHash := by
      rcases hd with ⟨rfl, -⟩ | ⟨-, k, rfl⟩ <;> exact ⟨hen, rfl⟩
    exact ⟨trivial, (ht'.saved hd'.1 hd'.2).keyInv, fun _ => Together.keyInv
      (ht'.of_frame _ ht.encs (Frame.refl v) hd'.1 hd'.2 fun _ => ht.encKey)⟩
  · have hencs : ∀ v', ReflTransGen (DecStep X.aead key) v v' → EncsUnder X.aead key v' :=
      fun v' hs => ht.encs.fewer (fewerEncs_decSteps hs)
    have hframe : ∀ {v'}, ReflTransGen (DecStep X.aead key) v v' → Frame v v' :=
      fun hs => steps_frame (fun _ _ => DecStep.frame) hs
    refine auth_openWith trivial ht'.stored (ht'.stored.verify_iff.mp hright)
      (fun _ _ => trivial) ?_ (fun _ _ => trivial) ?_
    · intro v' e hs _
      exact Together.keyInv
        (ht'.of_frame _ (hencs v' hs) (hframe hs) hen rfl fun _ => ht.encKey)
    · rintro v' v₂ hs - ⟨v₁, hv₁, hv₂⟩
      -- opened, saved or not, remembered or not
      have hopen : Together X keyStore salt key { s with
          authData := s.authData.reset, encKey := some key, unlocked := true, lockedAt := none } v' :=
        ht'.of_frame _ (hencs v' hs) (hframe hs) hen rfl fun _ hk => (Option.some.inj hk).symm
      have hopen₁ : Together X keyStore salt key { s with
          authData := s.authData.reset, encKey := some key, unlocked := true, lockedAt := none } v₁ := by
        rcases hv₁ with rfl | ⟨rfl, -⟩
        · exact hopen.saved hen rfl
        · exact hopen
      refine ⟨trivial, ?_⟩
      rcases hv₂ with ⟨rfl, -⟩ | ⟨rfl, -⟩
      · exact (hopen₁.setKeychain (.inr rfl)).keyInv
      · exact hopen₁.keyInv

theorem auth_setupPassword_keyInv {password : String}
    (hks : ∀ k c, c.onFiles = false → env.fails k c = false) (h : KeyInv X keyStore s v)
    (hencs : s.authData.enabled = false → ∀ f, v.files (.enc f) = none) :
    ASpec env (fun _ => True) (setupPassword X keyStore password)
      (fun _ s' v' => KeyInv X keyStore s' v') s v := by
  refine auth_setupPassword trivial (fun _ => h) fun hdis hash salt key hstored _ d hd => ?_
  subst hd
  replace hencs := hencs hdis
  have hunder : ∀ k, EncsUnder X.aead k v := fun k f blob hb => by rw [hencs] at hb; cases hb
  obtain ⟨hnone, hu⟩ := h.disabled hdis
  have hset : ∀ v', Frame (saved X v ⟨s.authData.appSettings, true, 0, "", hash⟩)
      { v' with keychain := (saved X v ⟨s.authData.appSettings, true, 0, "", hash⟩).keychain } →
      (∀ f, v'.files (.enc f) = none) →
      (∀ {k}, keyStore = true → v'.keychain = some k → k = key) →
      Together X keyStore salt key { s with
        authData := ⟨s.authData.appSettings, true, 0, "", hash⟩, encKey := some key,
        unlocked := true } v' := by
    intro v' hf hnoenc hkc
    have hauth : v'.files .authJson
        = some (X.json.toVecPretty ⟨s.authData.appSettings, true, 0, "", hash⟩) :=
      hf.1.trans (by simp [saved])
    refine ⟨rfl, hstored, fun f blob hb => ?_, fun hk => (Option.some.inj hk).symm, ?_, ?_, hkc⟩
    · rw [hnoenc] at hb; cases hb
    · rw [hauth, readAs_toVecPretty]
    · rw [hauth, readAs_toVecPretty]
  have hnoenc : ∀ f, (saved X v ⟨s.authData.appSettings, true, 0, "", hash⟩).files (.enc f) = none :=
    fun f => by simpa [saved] using hencs f
  refine ⟨trivial, fun _ e => ?_, fun _ => ⟨trivial, ?_⟩, fun hno => ?_⟩
  · -- the save failed: the new hash is in memory only
    refine ⟨fun _ => ⟨key, ⟨⟨salt, hstored⟩, hunder key⟩, fun k hk => ?_⟩,
      (fun hfalse => by cases hfalse), h.persisted, fun _ => .inr ⟨hnone, hu, hencs⟩⟩
    rw [hnone] at hk; cases hk
  · exact Together.keyInv (hset _ ⟨rfl, rfl⟩ hnoenc fun _ hk => (Option.some.inj hk).symm)
  · refine Together.keyInv (hset _ ⟨rfl, rfl⟩ hnoenc fun hks' => ?_)
    obtain ⟨k, c, hf, rfl⟩ := hno hks'
    rw [hks k _ rfl] at hf
    cases hf

theorem auth_suspend_keyInv (h : KeyInv X keyStore s v) :
    ASpec env (fun _ => True) (suspend X)
      (fun r s' v' => r = .ok () ∧ KeyInv X keyStore s' v') s v := by
  have htogether : ∀ {key}, s.encKey = some key →
      ∃ salt, Together X keyStore salt key s v := by
    intro key hk
    have hen : s.authData.enabled = true := by
      cases hen : s.authData.enabled with
      | true => rfl
      | false => rw [(h.disabled hen).1] at hk; cases hk
    obtain ⟨salt, key', ht⟩ := h.together hen (.inl (by rw [hk]; simp))
    obtain rfl := ht.encKey hk
    exact ⟨salt, ht⟩
  refine auth_suspend trivial (fun _ => ⟨rfl, h⟩) (fun key _ hk => ?_) (fun _ _ _ _ => trivial) ?_
  · obtain ⟨salt, ht⟩ := htogether hk
    exact ht.stored.key_length
  · intro key r v' t _ hk hs _
    obtain ⟨salt, ht⟩ := htogether hk
    exact ⟨rfl, Together.keyInv (ht.of_frame _ (ht.encs.encSteps hs)
      (steps_frame (fun _ _ => EncStep.frame) hs) ht.enabled rfl nofun)⟩

theorem auth_lock_keyInv (h : KeyInv X keyStore s v) :
    ASpec env (fun _ => True) (lock X keyStore)
      (fun _ s' v' => KeyInv X keyStore s' v') s v := by
  refine auth_lock (auth_mono (J := fun _ => True) (fun _ _ => trivial) ?_ (auth_suspend_keyInv h))
  rintro r s' v' - ⟨rfl, h'⟩
  exact ⟨trivial, nofun, fun _ => h', fun _ => ⟨trivial, h'.of_fewer (fun _ _ hb => hb) rfl (.inr rfl)⟩,
    fun _ => h'⟩

theorem auth_changePassword_keyInv {old new : String} (h : KeyInv X keyStore s v)
    (hb : s.authData.enabled = true → s.unlocked = true →
      Argon2id.verify X.argon2 old s.authData.passwordHash = true → BringsBack env v) :
    ASpec env (fun _ => True) (changePassword X keyStore old new)
      (fun _ s' v' => KeyInv X keyStore s' v') s v := by
  have hforgotten : KeyInv X keyStore s { v with keychain := none } :=
    h.of_fewer (fun _ _ hb => hb) rfl (.inr rfl)
  refine auth_changePassword trivial (fun _ => h) (fun _ => ⟨trivial, fun _ => hforgotten⟩) ?_
  intro hen hu hver v₁ hv₁ hash salt key _ hstored _
  replace hb := hb hen hu hver
  obtain ⟨h₁, hb₁, hkc⟩ : KeyInv X keyStore s v₁ ∧ BringsBack env v₁ ∧
      (keyStore = false ∨ v₁.keychain = none) := by
    rcases hv₁ with ⟨hf, rfl⟩ | ⟨-, rfl⟩
    · exact ⟨h, hb, .inl hf⟩
    · exact ⟨hforgotten, ⟨hb.beside, hb.nonempty, hb.works⟩, .inr rfl⟩
  have hkey := hstored.key_length
  refine auth_reencrypt hkey (fun _ _ => trivial) (fun e v₂ hs hpost => ?_) fun v₂ hs hpost => ?_
  · -- the encryption stopped; the files decrypted again are the new ones
    have hframe := steps_frame (fun _ _ => EncStep.frame) hs
    refine ⟨fun _ _ => trivial, fun v₃ hs' hpost' => ?_, fun e' v₃ hs' hpost' => ?_⟩
    · obtain ⟨hf, -, -⟩ := bringBack hkey hb₁ hpost hpost'
      have hframe' := hframe.trans (steps_frame (fun _ _ => DecStep.frame) hs')
      exact h₁.of_fewer hf hframe'.1 (.inl hframe'.2)
    · obtain ⟨hf, -, hold⟩ := bringBack hkey hb₁ hpost hpost'
      have hframe' := hframe.trans (steps_frame (fun _ _ => DecStep.frame) hs')
      have h₃ := h₁.of_fewer hf hframe'.1 (.inl hframe'.2)
      refine ⟨fun hen => ?_, fun hdis => ?_, h₃.persisted, fun hen => ?_⟩
      · obtain ⟨k, hk, -⟩ := h₃.memory hen
        exact ⟨k, hk, nofun⟩
      · rw [hen] at hdis; cases hdis
      · -- with something encrypted before, the hash in memory is persisted
        obtain ⟨f, hne⟩ := hold e' rfl
        rcases h₁.agree hen with hagree | ⟨-, -, hnone⟩
        · exact .inl (by rw [hframe'.1]; exact hagree)
        · exact absurd (hnone f) hne
  · have hframe := steps_frame (fun _ _ => EncStep.frame) hs
    have hback : ∀ {v' v₃ r}, (∀ f, Same v₂ v' f) → DecPost env X.aead key v' r v₃ →
        r = .ok () ∧ ∀ f, v₃.files (.enc f) = none := by
      intro v' v₃ r hsame hpost'
      have hpost₂ : EncPost env X.aead key v₁ (.ok ()) v' := by
        obtain ⟨ys, zs, hxs, hys, hzs, hr⟩ := hpost
        refine ⟨ys, zs, hxs, fun f hf => ?_, fun f hf => (hzs f hf).trans (hsame f), hr⟩
        rcases hys f hf with ⟨hskip, hs⟩ | ⟨p, b, hp, hse, he, hgone⟩
        · exact .inl ⟨hskip, hs.trans (hsame f)⟩
        · exact .inr ⟨p, b, hp, hse, (hsame f).2.trans he, by rw [(hsame f).1]; exact hgone⟩
      exact (bringBack hkey hb₁ hpost₂ hpost').2.1 rfl
    refine auth_commitChange trivial rfl (fun _ => ⟨fun _ _ => trivial, fun e r v₃ hs' hpost' => ?_⟩)
      trivial (fun _ _ => trivial) (fun e v₃ hs' hpost' => ?_) fun v₃ hs' hpost' => ?_
    · obtain ⟨-, hnone⟩ := hback (Same.refl v₂) hpost'
      have hframe' := hframe.trans (steps_frame (fun _ _ => DecStep.frame) hs')
      exact h₁.of_fewer (fun f blob hb => by rw [hnone] at hb; cases hb) hframe'.1 (.inl hframe'.2)
    · cases (hback (fun f => by simp [Same, saved]) hpost').1
    · obtain ⟨-, hnone⟩ := hback (fun f => by simp [Same, saved]) hpost'
      have hframe' := steps_frame (fun _ _ => DecStep.frame) hs'
      have hauth : readAs X (v₃.files .authJson) = { s.authData with passwordHash := hash } := by
        rw [hframe'.1]
        simp [saved, readAs_toVecPretty]
      have ht : Together X keyStore salt key { s with
          authData := { s.authData with passwordHash := hash }, encKey := some key } v₃ := by
        refine ⟨hen, hstored, fun f blob hb => ?_, fun hk => (Option.some.inj hk).symm,
          by rw [hauth]; exact hen, by rw [hauth], fun {k} hks hk => ?_⟩
        · rw [hnone] at hb; cases hb
        · have hk' : v₁.keychain = some k := by
            rw [← hframe.2, ← hk, hframe'.2]
            simp [saved]
          rcases hkc with hkc | hkc
          · rw [hks] at hkc; cases hkc
          · rw [hkc] at hk'; cases hk'
      exact ht.keyInv

theorem auth_removePassword_keyInv {password : String} (h : KeyInv X keyStore s v) :
    ASpec env (fun _ => True) (removePassword X password)
      (fun _ s' v' => KeyInv X keyStore s' v') s v := by
  refine auth_removePassword trivial (fun _ => h) (fun _ _ _ _ => trivial) fun v' _ hgone hkc => ?_
  have hfewer : FewerEncs v v' := by
    intro f blob hb
    rcases hgone (.enc f) with heq | hnone
    · rw [← heq, hb]
    · rw [hnone] at hb; cases hb
  refine ⟨nofun, fun _ => ⟨rfl, rfl⟩, fun hen => ?_, nofun⟩
  rcases hgone .authJson with heq | hnone
  · exact (h.of_fewer hfewer heq (.inl hkc)).persisted hen
  · rw [hnone] at hen; cases hen

theorem auth_restart_keyInv (h : KeyInv X keyStore s v) :
    ASpec env (fun _ => True) (do set (← io (Auth.new X keyStore)))
      (fun _ s' v' => KeyInv X keyStore s' v') s v := by
  refine auth_bind (auth_io (spec_mono (I := fun _ => True)
    (Q := fun s' v' => KeyInv X keyStore s' v') (fun _ _ => trivial)
    (fun s' v' _ h => auth_set trivial h) ?_))
  refine spec_new (I := fun _ => True) trivial fun d hd => ⟨fun _ _ => trivial, fun v₁ hs _ =>
    ⟨fun hdis => ?_, fun hen => ?_⟩⟩
  · have hframe := steps_frame (fun _ _ => RecStep.frame) hs
    have h₁ := h.of_fewer (fewerEncs_recSteps hs) hframe.1 (.inl hframe.2)
    refine ⟨fun hen => ?_, fun _ => ⟨rfl, rfl⟩, h₁.persisted, fun hen => ?_⟩ <;>
      (rw [hdis] at hen; cases hen)
  · have hframe := steps_frame (fun _ _ => RecStep.frame) hs
    have h₁ := h.of_fewer (fewerEncs_recSteps hs) hframe.1 (.inl hframe.2)
    obtain rfl : d = readAs X (v.files .authJson) := hd.resolve_right fun hf => by
      rw [hf.2] at hen; cases hen
    rw [← hframe.1] at hen ⊢
    obtain ⟨key, ⟨⟨salt, hstored⟩, hencs⟩, hkc⟩ := h₁.persisted hen
    have ht : Together X keyStore salt key ⟨false, none, readAs X (v₁.files .authJson), none⟩ v₁ :=
      ⟨hen, hstored, hencs, nofun, hen, rfl, fun hks => hkc _ hks⟩
    refine spec_resumeRememberedKey trivial ht.keyInv fun hks _ k hk => ?_
    obtain rfl := ht.keychain hks hk
    have ht' : ∀ {v'}, ReflTransGen (DecStep X.aead k) v₁ v' → ∀ s' : State,
        s'.authData = readAs X (v₁.files .authJson) → (∀ k', s'.encKey = some k' → k' = k) →
        Together X keyStore salt k s' v' := by
      intro v' hs' s' hd' hk'
      have hframe' := steps_frame (fun _ _ => DecStep.frame) hs'
      exact ht.of_frame s' (hencs.fewer (fewerEncs_decSteps hs')) hframe' (by rw [hd']; exact hen)
        (by rw [hd']) hk'
    refine ⟨fun _ _ => trivial, fun v' hv' => ?_, fun v' _ hs' _ => ?_⟩
    · have hs' : ReflTransGen (DecStep X.aead k) v₁ v' := by
        rcases hv' with rfl | ⟨e, hs', -⟩
        · exact .refl
        · exact hs'
      have ht'' := ht' hs' ⟨false, none, readAs X (v₁.files .authJson), none⟩ rfl nofun
      exact ⟨trivial, ht''.keyInv, (ht''.setKeychain (.inl rfl)).keyInv⟩
    · exact (ht' hs' _ rfl fun k' hk' => (Option.some.inj hk').symm).keyInv

theorem fresh_keyInv {m : Running} (h : Fresh X m) :
    KeyInv X keyStore m.state m.world.view := by
  obtain ⟨hs, hdis, -, -⟩ := h
  rw [hs]
  refine ⟨nofun, fun _ => ⟨rfl, rfl⟩, fun hen => ?_, nofun⟩
  rw [hdis] at hen; cases hen

/-- Step lemma: every call that meets the condition keeps the invariant. -/
theorem KeyInv.step {m : Running} {call : Call} (h : KeyInv X keyStore m.state m.world.view)
    (hok : call.Ok X m) :
    KeyInv X keyStore (m.step X keyStore call).state (m.step X keyStore call).world.view := by
  obtain ⟨request, env, hks⟩ := call
  cases request with
  | setup password => exact auth_run (auth_setupPassword_keyInv hks h hok)
  | unlock password => exact auth_run (auth_unlock_keyInv h)
  | lock => exact auth_run (auth_lock_keyInv h)
  | suspend => exact (auth_run (auth_suspend_keyInv h)).2
  | changePassword old new => exact auth_run (auth_changePassword_keyInv h hok)
  | removePassword password => exact auth_run (auth_removePassword_keyInv h)
  | restart => exact auth_run (auth_restart_keyInv h)

end

/-- A fresh service in front of the plain files `c`. -/
def Sample.running (c : ConfigFile → Option Bytes) : Running := ⟨Sample.fresh, Sample.world c none⟩

theorem Sample.running_fresh (c : ConfigFile → Option Bytes) :
    Fresh Sample.crates (Sample.running c) :=
  ⟨rfl, rfl, fun _ => Sample.world_enc .., rfl⟩

def Sample.call (request : Request) (b : UInt8) : Call := ⟨request, Sample.env b, fun _ _ _ => rfl⟩

end GnDrive.Auth
