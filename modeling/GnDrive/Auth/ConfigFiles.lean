/-
  GnDrive.Auth.ConfigFiles

  What the passes over the config files do, said once.

  `EncStep`, `DecStep` and `RecStep` are the changes `encrypt_config_files`,
  `decrypt_config_files` and `recover_from_crash` make to the disk, one
  renaming or removal at a time; whatever such steps preserve holds at every
  point at which the process can die.  `EncPost` and `DecPost` say where a
  pass can end: a prefix of the files has been through its round, the rest is
  as it was.
-/

import GnDrive.Auth.Logic
import Mathlib.Logic.Relation
import Mathlib.Data.List.Nodup

namespace GnDrive.Auth

open AuthM
open Crypto (Sealed WritesTo opens CryptoError spec_encryptFile spec_decryptFile)
open Relation (ReflTransGen)

/-- Some command of the given kind fails. -/
def Faulty (env : Env) (P : Cmd → Prop) : Prop := ∃ k c, env.fails k c = true ∧ P c

theorem Faulty.mono {env : Env} {P P' : Cmd → Prop} (h : Faulty env P) (hP : ∀ c, P c → P' c) :
    Faulty env P' := by
  obtain ⟨k, c, hk, hc⟩ := h
  exact ⟨k, c, hk, hP c hc⟩

/-- The file and its encrypted sibling are in `v'` as they are in `v`. -/
def Same (v v' : View) (f : ConfigFile) : Prop :=
  v'.files (.plain f) = v.files (.plain f) ∧ v'.files (.enc f) = v.files (.enc f)

theorem Same.refl (v : View) (f : ConfigFile) : Same v v f := ⟨rfl, rfl⟩

theorem Same.trans {v v₁ v₂ : View} {f : ConfigFile} (h : Same v v₁ f) (h' : Same v₁ v₂ f) :
    Same v v₂ f := ⟨h'.1.trans h.1, h'.2.trans h.2⟩

/-- What concerns neither config files nor their encrypted siblings is in `v'`
    as it is in `v`. -/
def Frame (v v' : View) : Prop :=
  v'.files .authJson = v.files .authJson ∧ v'.keychain = v.keychain

theorem Frame.refl (v : View) : Frame v v := ⟨rfl, rfl⟩

theorem Frame.trans {v v₁ v₂ : View} (h : Frame v v₁) (h' : Frame v₁ v₂) : Frame v v₂ :=
  ⟨h'.1.trans h.1, h'.2.trans h.2⟩

-- ============================================================================
-- Steps
-- ============================================================================

/-- One change to the disk by `encrypt_config_files`. -/
inductive EncStep (a : Aead) (key : Bytes) : View → View → Prop where
  | place {v : View} {f : ConfigFile} {plain blob : Bytes} :
      v.files (.plain f) = some plain → Sealed a key plain blob →
      EncStep a key v (v.put (.enc f) blob)
  | drop {v : View} {f : ConfigFile} {plain blob : Bytes} :
      v.files (.plain f) = some plain → v.files (.enc f) = some blob → Sealed a key plain blob →
      EncStep a key v (v.remove (.plain f))

/-- One change to the disk by `decrypt_config_files`. -/
inductive DecStep (a : Aead) (key : Bytes) : View → View → Prop where
  | place {v : View} {f : ConfigFile} {plain blob : Bytes} :
      v.files (.enc f) = some blob → opens a key blob = some plain →
      DecStep a key v (v.put (.plain f) plain)
  | drop {v : View} {f : ConfigFile} {plain blob : Bytes} :
      v.files (.enc f) = some blob → opens a key blob = some plain →
      v.files (.plain f) = some plain → (.plain f, plain) ∈ v.placed →
      DecStep a key v (v.remove (.enc f))

/-- One change to the disk by `recover_from_crash`. -/
inductive RecStep (enabled : Bool) : View → View → Prop where
  | dropPlain {v : View} {f : ConfigFile} : enabled = true →
      (v.files (.plain f)).isSome → (v.files (.enc f)).isSome →
      RecStep enabled v (v.remove (.plain f))
  | dropEnc {v : View} {f : ConfigFile} : enabled = false →
      (v.files (.plain f)).isSome → (v.files (.enc f)).isSome →
      RecStep enabled v (v.remove (.enc f))

/-- What every step preserves holds after any number of them. -/
theorem steps_preserve {R : View → View → Prop} {P : View → Prop}
    (h : ∀ v v', P v → R v v' → P v') {v v' : View} (hv : P v) (hs : ReflTransGen R v v') :
    P v' := by
  induction hs with
  | refl => exact hv
  | tail _ hr ih => exact h _ _ ih hr

theorem EncStep.frame {a : Aead} {key : Bytes} {v v' : View} (h : EncStep a key v v') :
    Frame v v' := by
  cases h <;> simp [Frame]

theorem DecStep.frame {a : Aead} {key : Bytes} {v v' : View} (h : DecStep a key v v') :
    Frame v v' := by
  cases h <;> simp [Frame]

theorem RecStep.frame {enabled : Bool} {v v' : View} (h : RecStep enabled v v') :
    Frame v v' := by
  cases h <;> simp [Frame]

theorem steps_frame {R : View → View → Prop} (h : ∀ v v', R v v' → Frame v v') {v v' : View}
    (hs : ReflTransGen R v v') : Frame v v' :=
  steps_preserve (P := Frame v) (fun _ _ hP hr => hP.trans (h _ _ hr)) (Frame.refl v) hs

-- ============================================================================
-- One round
-- ============================================================================

section

variable {env : Env} {X : Crates} {key : Bytes} {v : View}

/-- What a round of `encrypt_config_files` did to its file. -/
def EncDone (env : Env) (a : Aead) (key : Bytes) (v v' : View) (f : ConfigFile) : Prop :=
  ((v.files (.plain f) = none ∨ Faulty env (· = .pathExists (.file (.plain f)))) ∧ Same v v' f) ∨
  ∃ plain blob, v.files (.plain f) = some plain ∧ Sealed a key plain blob ∧
    v'.files (.enc f) = some blob ∧
    (v'.files (.plain f) = none ∨ Faulty env (· = .removeFile (.file (.plain f))))

/-- What a round of `decrypt_config_files` did to its file. -/
def DecDone (env : Env) (a : Aead) (key : Bytes) (v v' : View) (f : ConfigFile) : Prop :=
  ((v.files (.enc f) = none ∨ Faulty env (· = .pathExists (.file (.enc f)))) ∧ Same v v' f) ∨
  ∃ blob plain, v.files (.enc f) = some blob ∧ opens a key blob = some plain ∧
    v'.files (.plain f) = some plain ∧
    (v'.files (.enc f) = none ∨
      v'.files (.enc f) = some blob ∧ Faulty env (· = .removeFile (.file (.enc f))))

/-- The commands by which encrypting `f` can fail. -/
def EncCmd (f : ConfigFile) (c : Cmd) : Prop :=
  c = .read (.file (.plain f)) ∨ WritesTo (.enc f) c

/-- The commands by which decrypting `f` can fail. -/
def DecCmd (f : ConfigFile) (c : Cmd) : Prop :=
  c = .read (.file (.enc f)) ∨ WritesTo (.plain f) c

theorem spec_tryCrypto {α : Type} {I : View → Prop} {p : ExceptT CryptoError Io α}
    {Q : Except AuthError α → View → Prop}
    (hp : Spec env I p.run (fun r v => Q (r.mapError .crypto) v) v) :
    Spec env I (tryCrypto p).run Q v := by
  refine spec_bind (spec_mono (fun _ h => h) ?_ hp)
  intro r v' hI hr
  exact spec_pure hI hr

/-- Other files do not notice a change to `f`. -/
theorem same_put_enc {f g : ConfigFile} (h : g ≠ f) (blob : Bytes) :
    Same v (v.put (.enc f) blob) g := by simp [Same, h]

theorem same_put_plain {f g : ConfigFile} (h : g ≠ f) (plain : Bytes) :
    Same v (v.put (.plain f) plain) g := by simp [Same, h]

theorem same_remove_enc {f g : ConfigFile} (h : g ≠ f) : Same v (v.remove (.enc f)) g := by
  simp [Same, h]

theorem same_remove_plain {f g : ConfigFile} (h : g ≠ f) : Same v (v.remove (.plain f)) g := by
  simp [Same, h]

/-- The end of a round. -/
def RoundPost (Done : View → View → ConfigFile → Prop) (Failed : View → ConfigFile → Prop)
    (f : ConfigFile) (v : View) (r : Except AuthError Unit) (v' : View) : Prop :=
  (∀ g, g ≠ f → Same v v' g) ∧
  match r with
  | .ok _ => Done v v' f
  | .error _ => Same v v' f ∧ Failed v f

theorem spec_encryptConfigFile (f : ConfigFile) (hkey : key.length = 32) :
    Spec env (ReflTransGen (EncStep X.aead key) v) (encryptConfigFile X key f).run
      (RoundPost (EncDone env X.aead key) (fun _ f => Faulty env (EncCmd f)) f v) v := by
  have hsame : ∀ g, g ≠ f → Same v v g := fun g _ => Same.refl v g
  refine spec_except_bind (spec_bind (spec_pathExists .refl ?_ fun k hk => ?_))
  · refine spec_pure .refl ?_
    cases hplain : v.files (.plain f) with
    | none => exact spec_pure .refl ⟨hsame, .inl ⟨.inl hplain, Same.refl v f⟩⟩
    | some plain =>
      -- sealed beside the plaintext, then the plaintext goes
      have hput : ∀ {p blob}, v.files (.plain f) = some p → Sealed X.aead key p blob →
          ReflTransGen (EncStep X.aead key) v (v.put (.enc f) blob) :=
        fun hp hs => .single (.place hp hs)
      refine spec_except_bind (spec_tryCrypto (spec_encryptFile .refl hkey
        (fun _ _ => hput) ?_ (fun h => by rw [hplain] at h; cases h) ?_))
      · intro p blob hp hs
        have hdrop : EncStep X.aead key (v.put (.enc f) blob) ((v.put (.enc f) blob).remove (.plain f)) :=
          .drop (by simpa using hp) (by simp) hs
        have hrest : ∀ v', ReflTransGen (EncStep X.aead key) v v' →
            RoundPost (EncDone env X.aead key) (fun _ f => Faulty env (EncCmd f)) f v (.ok ()) v' →
            Spec env (ReflTransGen (EncStep X.aead key) v)
              (do removeFile (.wal f); removeFile (.shm f))
              (fun _ v' => RoundPost (EncDone env X.aead key) (fun _ f => Faulty env (EncCmd f))
                f v (.ok ()) v') v' := fun v' hI hQ =>
          spec_bind (spec_removeFile_of_ne (p := .wal f) nofun hI
            (spec_removeFile_of_ne (p := .shm f) nofun hI hQ))
        refine spec_bind (spec_mono (fun _ h => h) (fun _ _ hI hQ => spec_pure hI hQ) ?_)
        refine spec_bind (spec_removeFile (hput hp hs) ((hput hp hs).tail hdrop) ?_ ?_)
        · refine hrest _ ((hput hp hs).tail hdrop) ⟨fun g hg => ?_, .inr ⟨p, blob, hp, hs, ?_⟩⟩
          · exact (same_put_enc hg blob).trans (same_remove_plain hg)
          · simp
        · intro k hk
          refine hrest _ (hput hp hs) ⟨fun g hg => same_put_enc hg blob, .inr ⟨p, blob, hp, hs, ?_⟩⟩
          exact ⟨by simp, .inr ⟨k, _, hk, rfl⟩⟩
      · intro k c hk hc e
        exact ⟨hsame, Same.refl v f, k, c, hk, hc⟩
  · refine spec_pure .refl (spec_pure .refl ⟨hsame, .inl ⟨.inr ⟨k, _, hk, rfl⟩, Same.refl v f⟩⟩)

/-- Why a round of `decrypt_config_files` stops the pass. -/
def DecFailed (env : Env) (a : Aead) (key : Bytes) (v : View) (f : ConfigFile) : Prop :=
  Faulty env (DecCmd f) ∨ ∃ blob, v.files (.enc f) = some blob ∧ opens a key blob = none

theorem spec_decryptConfigFile (f : ConfigFile) :
    Spec env (ReflTransGen (DecStep X.aead key) v) (decryptConfigFile X key f).run
      (RoundPost (DecDone env X.aead key) (DecFailed env X.aead key) f v) v := by
  have hsame : ∀ g, g ≠ f → Same v v g := fun g _ => Same.refl v g
  refine spec_except_bind (spec_bind (spec_pathExists .refl ?_ fun k hk => ?_))
  · refine spec_pure .refl ?_
    cases henc : v.files (.enc f) with
    | none => exact spec_pure .refl ⟨hsame, .inl ⟨.inl henc, Same.refl v f⟩⟩
    | some blob =>
      have hput : ∀ {p}, opens X.aead key blob = some p →
          ReflTransGen (DecStep X.aead key) v (v.put (.plain f) p) :=
        fun hp => .single (.place henc hp)
      refine spec_except_bind (spec_tryCrypto (spec_decryptFile .refl henc
        (fun _ => hput) ?_ (fun h => ⟨hsame, Same.refl v f, .inr ⟨blob, henc, h⟩⟩) ?_))
      · intro p hp
        have hdrop : DecStep X.aead key (v.put (.plain f) p) ((v.put (.plain f) p).remove (.enc f)) :=
          .drop (by simpa using henc) hp (by simp) (by simp)
        refine spec_bind (spec_removeFile (hput hp) ((hput hp).tail hdrop) ?_ ?_)
        · refine spec_pure ((hput hp).tail hdrop) ⟨fun g hg => ?_, .inr ⟨blob, p, henc, hp, ?_⟩⟩
          · exact (same_put_plain hg p).trans (same_remove_enc hg)
          · simp
        · intro k hk
          refine spec_pure (hput hp) ⟨fun g hg => same_put_plain hg p, .inr ⟨blob, p, henc, hp, ?_⟩⟩
          exact ⟨by simp, .inr ⟨by simpa using henc, k, _, hk, rfl⟩⟩
      · intro k c hk hc e
        exact ⟨hsame, Same.refl v f, .inl ⟨k, c, hk, hc⟩⟩
  · refine spec_pure .refl (spec_pure .refl ⟨hsame, .inl ⟨.inr ⟨k, _, hk, rfl⟩, Same.refl v f⟩⟩)

/-- What a round of `recover_from_crash` did to its file. -/
def RecDone (env : Env) (enabled : Bool) (v v' : View) (f : ConfigFile) : Prop :=
  Same v v' f ∧ (v.files (.plain f) = none ∨ v.files (.enc f) = none ∨
    Faulty env fun c => c = .pathExists (.file (.plain f)) ∨ c = .pathExists (.file (.enc f)) ∨
      c = .removeFile (.file (.plain f)) ∨ c = .removeFile (.file (.enc f))) ∨
  (v.files (.plain f)).isSome ∧ (v.files (.enc f)).isSome ∧
    if enabled then v'.files (.plain f) = none ∧ v'.files (.enc f) = v.files (.enc f)
    else v'.files (.enc f) = none ∧ v'.files (.plain f) = v.files (.plain f)

theorem spec_recoverFile (enabled : Bool) (f : ConfigFile) :
    Spec env (ReflTransGen (RecStep enabled) v) (recoverFile enabled f)
      (fun _ v' => (∀ g, g ≠ f → Same v v' g) ∧ RecDone env enabled v v' f) v := by
  have hsame : ∀ g, g ≠ f → Same v v g := fun g _ => Same.refl v g
  have hleave : ∀ {k c}, env.fails k c = true →
      (c = .pathExists (.file (.plain f)) ∨ c = .pathExists (.file (.enc f)) ∨
        c = .removeFile (.file (.plain f)) ∨ c = .removeFile (.file (.enc f))) →
      RecDone env enabled v v f :=
    fun hk hc => .inl ⟨Same.refl v f, .inr (.inr ⟨_, _, hk, hc⟩)⟩
  refine spec_bind (spec_pathExists .refl ?_ fun k hk =>
    spec_pure .refl ⟨hsame, hleave hk (.inl rfl)⟩)
  cases hplain : (v.files (.plain f)).isSome with
  | false =>
    exact spec_pure .refl ⟨hsame, .inl ⟨Same.refl v f, .inl (by simpa using hplain)⟩⟩
  | true =>
  refine spec_bind (spec_pathExists .refl ?_ fun k hk =>
    spec_pure .refl ⟨hsame, hleave hk (.inr (.inl rfl))⟩)
  cases henc : (v.files (.enc f)).isSome with
  | false =>
    exact spec_pure .refl ⟨hsame, .inl ⟨Same.refl v f, .inr (.inl (by simpa using henc))⟩⟩
  | true =>
  cases enabled with
  | true =>
    have hdrop : ReflTransGen (RecStep true) v (v.remove (.plain f)) :=
      .single (.dropPlain rfl hplain henc)
    have hrest : ∀ v', ReflTransGen (RecStep true) v v' →
        (∀ g, g ≠ f → Same v v' g) ∧ RecDone env true v v' f →
        Spec env (ReflTransGen (RecStep true) v) (do removeFile (.wal f); removeFile (.shm f))
          (fun _ v' => (∀ g, g ≠ f → Same v v' g) ∧ RecDone env true v v' f) v' :=
      fun v' hI hQ => spec_bind (spec_removeFile_of_ne (p := .wal f) nofun hI
        (spec_removeFile_of_ne (p := .shm f) nofun hI hQ))
    refine spec_bind (spec_removeFile .refl hdrop ?_ fun k hk => ?_)
    · exact hrest _ hdrop ⟨fun g hg => same_remove_plain hg, .inr ⟨hplain, henc, by simp⟩⟩
    · exact hrest _ .refl ⟨hsame, hleave hk (.inr (.inr (.inl rfl)))⟩
  | false =>
    have hdrop : ReflTransGen (RecStep false) v (v.remove (.enc f)) :=
      .single (.dropEnc rfl hplain henc)
    refine spec_removeFile .refl hdrop ?_ fun k hk => ?_
    · exact ⟨fun g hg => same_remove_enc hg, .inr ⟨hplain, henc, by simp⟩⟩
    · exact ⟨hsame, hleave hk (.inr (.inr (.inr rfl)))⟩

-- ============================================================================
-- A pass over the files
-- ============================================================================

theorem nodup_CONFIG_FILES : CONFIG_FILES.Nodup := by decide

/-- The end of a pass: the files `ys` went through their round, the files `zs`
    are as they were; a pass that stops early stops at the first of `zs`. -/
def PassPost (Done : View → View → ConfigFile → Prop) (Failed : View → ConfigFile → Prop)
    (v : View) (r : Except AuthError Unit) (v' : View) : Prop :=
  ∃ ys zs, CONFIG_FILES = ys ++ zs ∧ (∀ f ∈ ys, Done v v' f) ∧ (∀ f ∈ zs, Same v v' f) ∧
    match r with
    | .ok _ => zs = []
    | .error _ => ∃ f zs', zs = f :: zs' ∧ Failed v f

/-- A pass whose rounds change the disk by steps of `R`, each for its own
    file. -/
theorem spec_pass {R : View → View → Prop} {Done : View → View → ConfigFile → Prop}
    {Failed : View → ConfigFile → Prop} {p : ConfigFile → ExceptT AuthError Io Unit}
    (hround : ∀ v f, Spec env (ReflTransGen R v) (p f).run (RoundPost Done Failed f v) v)
    (hdone : ∀ {v v₁ v₂ v₃ f}, Same v v₁ f → Done v₁ v₂ f → Same v₂ v₃ f → Done v v₃ f)
    (hfailed : ∀ {v v₁ f}, Same v v₁ f → Failed v₁ f → Failed v f) :
    Spec env (ReflTransGen R v) (CONFIG_FILES.forM p).run (PassPost Done Failed v) v := by
  suffices h : ∀ (zs ys : List ConfigFile) (v₁ : View), CONFIG_FILES = ys ++ zs →
      ReflTransGen R v v₁ → (∀ f ∈ ys, Done v v₁ f) → (∀ f ∈ zs, Same v v₁ f) →
      Spec env (ReflTransGen R v) (zs.forM p).run (PassPost Done Failed v) v₁ from
    h CONFIG_FILES [] v rfl .refl (by simp) fun f _ => Same.refl v f
  intro zs
  induction zs with
  | nil =>
    intro ys v₁ hxs hR hys _
    exact spec_pure hR ⟨ys, [], hxs, hys, by simp, rfl⟩
  | cons f zs ih =>
    intro ys v₁ hxs hR hys hzs
    have hnodup := nodup_CONFIG_FILES
    rw [hxs, List.nodup_append] at hnodup
    have hfz : f ∉ zs := (List.nodup_cons.mp hnodup.2.1).1
    have hfy : ∀ g ∈ ys, g ≠ f := fun g hg => hnodup.2.2 g hg f (by simp)
    refine spec_except_bind (spec_mono (fun v' hv' => hR.trans hv') ?_ (hround v₁ f))
    rintro r v₂ hR₂ ⟨hother, hr⟩
    cases r with
    | ok u =>
      refine ih (ys ++ [f]) v₂ (by simp [hxs]) (hR.trans hR₂) ?_ ?_
      · intro g hg
        rcases List.mem_append.mp hg with hg | hg
        · exact hdone (Same.refl v g) (hys g hg) (hother g (hfy g hg))
        · rw [List.mem_singleton.mp hg]
          exact hdone (hzs f (by simp)) hr (Same.refl v₂ f)
      · intro g hg
        exact (hzs g (by simp [hg])).trans (hother g (fun h => hfz (h ▸ hg)))
    | error e =>
      refine ⟨ys, f :: zs, hxs, ?_, ?_, f, zs, rfl, hfailed (hzs f (by simp)) hr.2⟩
      · exact fun g hg => hdone (Same.refl v g) (hys g hg) (hother g (hfy g hg))
      · intro g hg
        by_cases hgf : g = f
        · exact hgf ▸ (hzs f (by simp)).trans hr.1
        · exact (hzs g hg).trans (hother g hgf)

/-- Where `encrypt_config_files` can end. -/
abbrev EncPost (env : Env) (a : Aead) (key : Bytes) :=
  PassPost (EncDone env a key) fun _ f => Faulty env (EncCmd f)

/-- Where `decrypt_config_files` can end. -/
abbrev DecPost (env : Env) (a : Aead) (key : Bytes) :=
  PassPost (DecDone env a key) (DecFailed env a key)

/-- Rounds for other files come before and after. -/
theorem EncDone.of_same {a : Aead} {v v₁ v₂ v₃ : View} {f : ConfigFile} (h : Same v v₁ f)
    (hdone : EncDone env a key v₁ v₂ f) (h' : Same v₂ v₃ f) : EncDone env a key v v₃ f := by
  rcases hdone with ⟨h₀, h₁⟩ | ⟨plain, blob, hp, hs, he, hrm⟩
  · exact .inl ⟨by rw [← h.1]; exact h₀, (h.trans h₁).trans h'⟩
  · exact .inr ⟨plain, blob, h.1 ▸ hp, hs, h'.2.trans he, by rw [h'.1]; exact hrm⟩

theorem DecDone.of_same {a : Aead} {v v₁ v₂ v₃ : View} {f : ConfigFile} (h : Same v v₁ f)
    (hdone : DecDone env a key v₁ v₂ f) (h' : Same v₂ v₃ f) : DecDone env a key v v₃ f := by
  rcases hdone with ⟨h₀, h₁⟩ | ⟨blob, plain, he, ho, hp, hrm⟩
  · exact .inl ⟨by rw [← h.2]; exact h₀, (h.trans h₁).trans h'⟩
  · exact .inr ⟨blob, plain, h.2 ▸ he, ho, h'.1.trans hp, by rw [h'.2]; exact hrm⟩

theorem DecFailed.of_same {a : Aead} {v v₁ : View} {f : ConfigFile} (h : Same v v₁ f)
    (hfail : DecFailed env a key v₁ f) : DecFailed env a key v f := by
  rcases hfail with hf | ⟨blob, he, ho⟩
  · exact .inl hf
  · exact .inr ⟨blob, h.2 ▸ he, ho⟩

theorem spec_encryptConfigFiles (hkey : key.length = 32) :
    Spec env (ReflTransGen (EncStep X.aead key) v) (encryptConfigFiles X key).run
      (EncPost env X.aead key v) v :=
  spec_pass (fun _ f => spec_encryptConfigFile f hkey) EncDone.of_same fun _ h => h

theorem spec_decryptConfigFiles :
    Spec env (ReflTransGen (DecStep X.aead key) v) (decryptConfigFiles X key).run
      (DecPost env X.aead key v) v :=
  spec_pass (fun _ f => spec_decryptConfigFile f) DecDone.of_same DecFailed.of_same

theorem spec_recoverFromCrash (st : State) :
    Spec env (ReflTransGen (RecStep st.authData.enabled) v) (recoverFromCrash st)
      (fun _ v' => ReflTransGen (RecStep st.authData.enabled) v v' ∧
        ∀ f, RecDone env st.authData.enabled v v' f) v := by
  have hdone : ∀ {enabled v v₁ v₂ v₃ f}, Same v v₁ f → RecDone env enabled v₁ v₂ f →
      Same v₂ v₃ f → RecDone env enabled v v₃ f := by
    rintro enabled v v₁ v₂ v₃ f h (⟨h₁, h₀⟩ | ⟨hp, he, hrm⟩) h'
    · exact .inl ⟨(h.trans h₁).trans h', by rw [← h.1, ← h.2]; exact h₀⟩
    · exact .inr ⟨h.1 ▸ hp, h.2 ▸ he, by rw [h'.1, h'.2, ← h.1, ← h.2]; exact hrm⟩
  suffices h : ∀ (zs ys : List ConfigFile) (v₁ : View), CONFIG_FILES = ys ++ zs →
      ReflTransGen (RecStep st.authData.enabled) v v₁ →
      (∀ f ∈ ys, RecDone env st.authData.enabled v v₁ f) → (∀ f ∈ zs, Same v v₁ f) →
      Spec env (ReflTransGen (RecStep st.authData.enabled) v)
        (zs.forM (recoverFile st.authData.enabled))
        (fun _ v' => ReflTransGen (RecStep st.authData.enabled) v v' ∧
          ∀ f, RecDone env st.authData.enabled v v' f) v₁ from
    h CONFIG_FILES [] v rfl .refl (by simp) fun f _ => Same.refl v f
  intro zs
  induction zs with
  | nil =>
    intro ys v₁ hxs hR hys _
    refine spec_pure hR ⟨hR, fun f => hys f ?_⟩
    have hf := mem_CONFIG_FILES f
    rwa [hxs, List.append_nil] at hf
  | cons f zs ih =>
    intro ys v₁ hxs hR hys hzs
    have hnodup := nodup_CONFIG_FILES
    rw [hxs, List.nodup_append] at hnodup
    have hfz : f ∉ zs := (List.nodup_cons.mp hnodup.2.1).1
    have hfy : ∀ g ∈ ys, g ≠ f := fun g hg => hnodup.2.2 g hg f (by simp)
    refine spec_bind (spec_mono (fun v' hv' => hR.trans hv') ?_ (spec_recoverFile _ f))
    rintro _ v₂ hR₂ ⟨hother, hr⟩
    refine ih (ys ++ [f]) v₂ (by simp [hxs]) (hR.trans hR₂) ?_ ?_
    · intro g hg
      rcases List.mem_append.mp hg with hg | hg
      · exact hdone (Same.refl v g) (hys g hg) (hother g (hfy g hg))
      · rw [List.mem_singleton.mp hg]
        exact hdone (hzs f (by simp)) hr (Same.refl v₂ f)
    · intro g hg
      exact (hzs g (by simp [hg])).trans (hother g (fun h => hfz (h ▸ hg)))

end
end GnDrive.Auth
