/-
  GnDrive.Auth.Faults

  Which calls may fail.

  A `Site` is what a call is for: looking whether a file is there, reading it,
  writing it (every command of the atomic write), removing it.  `Env.Within may`
  says that an environment fails no call outside `may`, so that a statement
  about every environment within `may` is one about every failure point of
  that kind; `Env.failing` fails the calls at the given sites and no others.

  The rest sharpens what `GnDrive.Auth.ConfigFiles` says of a pass: a round
  that ends in an error has found its file, and a round whose reads or writes
  always fail does not end well.
-/

import GnDrive.Auth.Operations

namespace GnDrive

/-- What a call is for. -/
inductive Site where
  | look (n : Name)
  | read (n : Name)
  | write (n : Name)
  | remove (n : Name)
  | createDir
  | ksGet
  | ksSet
  | ksDelete
  | other
deriving DecidableEq

def Cmd.site : Cmd → Site
  | .pathExists (.file n) => .look n
  | .read (.file n) => .read n
  | .createNew (.tmp n _) | .writeAll (.tmp n _) _ | .syncAll (.tmp n _)
  | .setMode0600 (.tmp n _) | .rename (.tmp n _) _ => .write n
  | .removeFile (.file n) => .remove n
  | .createDirAll => .createDir
  | .ksGet => .ksGet
  | .ksSet _ => .ksSet
  | .ksDelete => .ksDelete
  | _ => .other

/-- Only calls at the given sites fail. -/
def Env.Within (may : Site → Prop) (env : Env) : Prop :=
  ∀ k c, env.fails k c = true → may c.site

/-- Calls at `sites` always fail and others never do; the random
    source repeats `salt`, and the clock stands at `t`. -/
def Env.failing (sites : List Site) (salt : Nat → UInt8) (t : Time) : Env where
  fails _ c := sites.contains c.site
  rand _ := salt
  suffix _ := 0
  now _ := t

theorem Env.failing_within {sites : List Site} {may : Site → Prop} {salt : Nat → UInt8} {t : Time}
    (h : ∀ x ∈ sites, may x) : (Env.failing sites salt t).Within may :=
  fun _ c hc => h c.site (List.contains_iff_mem.mp hc)

/-- A source that yields a given salt. -/
def yields (salt : Bytes) (i : Nat) : UInt8 := salt.getD i 0

theorem Env.failing_bytes {sites : List Site} {salt : Bytes} {t : Time} (k : Nat) :
    (Env.failing sites (yields salt) t).bytes k salt.length = salt := by
  unfold Env.bytes
  apply List.ext_getElem
  · simp
  · intro i h _
    have hi : i < salt.length := by simpa using h
    simp [Env.failing, yields, hi]

/-- Some world shows a given view. -/
def World.ofView (v : View) : World where
  disk
    | .file n => (v.files n).map (File.mk 0)
    | _ => none
  keychain := v.keychain
  placed := v.placed
  tick := 0

@[simp] theorem World.view_ofView (v : View) : (World.ofView v).view = v := by
  simp [World.view, World.ofView, Function.comp_def]

namespace Auth

open AuthM
open Crypto (Sealed WritesTo opens CryptoError writeAtomic0600 encryptFile decryptFile cipher
  spec_tryIo)
open Relation (ReflTransGen)

variable {env : Env} {X : Crates} {keyStore : Bool} {I : View → Prop} {s : State} {v : View}
  {may : Site → Prop} {key : Bytes}

-- ============================================================================
-- Sites of the faults
-- ============================================================================

theorem site_of_writesTo {n : Name} {c : Cmd} (h : WritesTo n c) : c.site = .write n := by
  obtain ⟨s, rfl | ⟨data, rfl⟩ | rfl | rfl | rfl⟩ := h <;> rfl

/-- A fault of an environment is one of those that may happen. -/
theorem Faulty.within {P : Cmd → Prop} {x : Site} (henv : env.Within may) (h : Faulty env P)
    (hsite : ∀ c, P c → c.site = x) : may x := by
  obtain ⟨k, c, hk, hc⟩ := h
  rw [← hsite c hc]
  exact henv k c hk

theorem Faulty.within_dec {f : ConfigFile} (henv : env.Within may) (h : Faulty env (DecCmd f)) :
    may (.read (.enc f)) ∨ may (.write (.plain f)) := by
  obtain ⟨k, c, hk, rfl | hc⟩ := h
  · exact .inl (henv k _ hk)
  · exact .inr (site_of_writesTo hc ▸ henv k c hk)

theorem Faulty.within_enc {f : ConfigFile} (henv : env.Within may) (h : Faulty env (EncCmd f)) :
    may (.read (.plain f)) ∨ may (.write (.enc f)) := by
  obtain ⟨k, c, hk, rfl | hc⟩ := h
  · exact .inl (henv k _ hk)
  · exact .inr (site_of_writesTo hc ▸ henv k c hk)

theorem Faulty.within_save (henv : env.Within may) (h : Faulty env SaveCmd) :
    may .createDir ∨ may (.write .authJson) := by
  obtain ⟨k, c, hk, rfl | hc⟩ := h
  · exact .inl (henv k _ hk)
  · exact .inr (site_of_writesTo hc ▸ henv k c hk)

-- ============================================================================
-- Calls that always fail
-- ============================================================================

/-- Every call at `x` fails. -/
def Dead (env : Env) (x : Site) : Prop := ∀ k c, c.site = x → env.fails k c = true

/-- No call at `x` fails. -/
def Live (env : Env) (x : Site) : Prop := ∀ k c, c.site = x → env.fails k c = false

theorem failing_dead {sites : List Site} {salt : Nat → UInt8} {t : Time} {x : Site}
    (h : x ∈ sites) : Dead (Env.failing sites salt t) x := by
  intro k c hc
  show sites.contains c.site = true
  rw [hc]
  exact List.contains_iff_mem.mpr h

theorem failing_live {sites : List Site} {salt : Nat → UInt8} {t : Time} {x : Site}
    (h : x ∉ sites) : Live (Env.failing sites salt t) x := by
  intro k c hc
  show sites.contains c.site = false
  rw [hc]
  exact Bool.eq_false_iff.mpr (mt List.contains_iff_mem.mp h)

theorem Live.not_faulty {P : Cmd → Prop} {x : Site} (h : Live env x)
    (hsite : ∀ c, P c → c.site = x) : ¬ Faulty env P := by
  rintro ⟨k, c, hk, hc⟩
  rw [h k c (hsite c hc)] at hk
  cases hk

theorem spec_pathExists_dead {n : Name} {Q : Bool → View → Prop} (h : Dead env (.look n)) (hI : I v)
    (hQ : Q false v) : Spec env I (pathExists (.file n)) Q v := by
  refine spec_call hI ?_
  rintro w rfl
  have hf : env.fails w.tick (.pathExists (.file n)) = true := h _ _ rfl
  simpa [exec, hf] using ⟨hI, hQ⟩

theorem spec_readFile_dead {n : Name} {Q : Except IoError Bytes → View → Prop}
    (h : Dead env (.read n)) (hI : I v) (hQ : Q (.error .other) v) :
    Spec env I (readFile (.file n)) Q v := by
  refine spec_call hI ?_
  rintro w rfl
  have hf : env.fails w.tick (.read (.file n)) = true := h _ _ rfl
  simpa [exec, hf] using ⟨hI, hQ⟩

theorem spec_writeAtomic0600_dead {n : Name} {data : Bytes} {Q : Except IoError Unit → View → Prop}
    (h : Dead env (.write n)) (hI : I v) (hQ : ∀ e, Q (.error e) v) :
    Spec env I (writeAtomic0600 n data) Q v := by
  refine spec_bind (spec_randU64 hI fun s => ?_)
  refine spec_bind (spec_except_bind (spec_call (c := .createNew (.tmp n s)) hI ?_))
  rintro w rfl
  have hf : env.fails w.tick (.createNew (.tmp n s)) = true := h _ _ rfl
  simp only [exec, hf, if_true, view_tock]
  exact ⟨hI, spec_bind (spec_removeFile_of_ne (p := .tmp n s) (fun f heq => by cases heq) hI (spec_pure hI (hQ _)))⟩

theorem spec_encryptFile_dead {src dst : Name} {Q : Except CryptoError Unit → View → Prop}
    (h : Dead env (.read src) ∨ Dead env (.write dst)) (hI : I v) (hQ : ∀ e, Q (.error e) v) :
    Spec env I (encryptFile X.aead src dst key).run Q v := by
  rcases h with h | h
  · exact spec_except_bind (spec_tryIo (spec_readFile_dead h hI (hQ _)))
  · have hrest : ∀ plain, Spec env I (do
        ExceptT.mk (pure (cipher key))
        let nonce ← ExceptT.lift (randFill Crypto.NONCE_LEN)
        Crypto.tryIo CryptoError.io
          (writeAtomic0600 dst (nonce ++ X.aead.encrypt key nonce plain)) :
          ExceptT CryptoError Io Unit).run Q v := by
      intro plain
      refine spec_except_bind (spec_pure hI ?_)
      cases cipher key with
      | error e => exact hQ e
      | ok u =>
        refine spec_except_bind (spec_bind (spec_randFill hI fun k => spec_pure hI ?_))
        exact spec_tryIo (spec_writeAtomic0600_dead h hI fun e => hQ _)
    exact spec_except_bind (spec_tryIo (spec_readFile hI (fun data _ => hrest data)
      (fun _ => hQ _) fun _ _ => hQ _))

/-- What is done with a blob that may not open. -/
theorem spec_opened {o : Option Bytes} {none' : ExceptT CryptoError Io Unit}
    {some' : Bytes → ExceptT CryptoError Io Unit} {Q : Except CryptoError Unit → View → Prop}
    (hnone : Spec env I none'.run Q v) (hsome : ∀ plain, Spec env I (some' plain).run Q v) :
    Spec env I (ExceptT.run (match o with | none => none' | some plain => some' plain)) Q v := by
  cases o with
  | none => exact hnone
  | some plain => exact hsome plain

theorem spec_decryptFile_dead {src dst : Name} {Q : Except CryptoError Unit → View → Prop}
    (h : Dead env (.read src) ∨ Dead env (.write dst)) (hI : I v) (hQ : ∀ e, Q (.error e) v) :
    Spec env I (decryptFile X.aead src dst key).run Q v := by
  rcases h with h | h
  · exact spec_except_bind (spec_tryIo (spec_readFile_dead h hI (hQ _)))
  · refine spec_except_bind (spec_tryIo (spec_readFile hI (fun blob _ => ?_)
      (fun _ => hQ _) fun _ _ => hQ _))
    show Spec env I _ _ v
    by_cases hlen : blob.length ≤ Crypto.NONCE_LEN + Crypto.TAG_LEN
    · rw [if_pos hlen]
      exact spec_pure hI (hQ _)
    · rw [if_neg hlen]
      refine spec_except_bind (spec_pure hI ?_)
      cases cipher key with
      | error e => exact hQ e
      | ok u =>
        exact spec_opened (spec_pure hI (hQ _)) fun plain =>
          spec_tryIo (spec_writeAtomic0600_dead h hI fun e => hQ _)

-- ============================================================================
-- Rounds and passes
-- ============================================================================

/-- A round of `encrypt_config_files` that ends well has not met a dead call,
    unless it overlooked its file. -/
def EncEnd (env : Env) (a : Aead) (key : Bytes) (v v' : View) (f : ConfigFile) : Prop :=
  EncDone env a key v v' f ∧
  ((v.files (.plain f)).isSome → Dead env (.read (.plain f)) ∨ Dead env (.write (.enc f)) →
    Faulty env (· = .pathExists (.file (.plain f)))) ∧
  (Dead env (.look (.plain f)) → Same v v' f)

/-- One that ends in an error has found its file. -/
def EncStop (env : Env) (v : View) (f : ConfigFile) : Prop :=
  Faulty env (EncCmd f) ∧ (v.files (.plain f)).isSome

def DecEnd (env : Env) (a : Aead) (key : Bytes) (v v' : View) (f : ConfigFile) : Prop :=
  DecDone env a key v v' f ∧ ((v.files (.enc f)).isSome →
    Dead env (.read (.enc f)) ∨ Dead env (.write (.plain f)) →
      Faulty env (· = .pathExists (.file (.enc f))))

def DecStop (env : Env) (a : Aead) (key : Bytes) (v : View) (f : ConfigFile) : Prop :=
  DecFailed env a key v f ∧ (v.files (.enc f)).isSome

theorem spec_encryptConfigFile_end (f : ConfigFile) :
    Spec env (fun _ => True) (encryptConfigFile X key f).run (fun r _ =>
      match r with
      | .ok _ => (v.files (.plain f)).isSome →
          Dead env (.read (.plain f)) ∨ Dead env (.write (.enc f)) →
            Faulty env (· = .pathExists (.file (.plain f)))
      | .error _ => (v.files (.plain f)).isSome) v := by
  refine spec_except_bind (spec_bind (spec_pathExists trivial ?_ fun k hk => ?_))
  · refine spec_pure trivial ?_
    cases hp : (v.files (.plain f)).isSome with
    | false => exact spec_pure trivial nofun
    | true =>
      by_cases hdead : Dead env (.read (.plain f)) ∨ Dead env (.write (.enc f))
      · exact spec_except_bind (spec_tryCrypto (spec_encryptFile_dead hdead trivial
          fun _ => rfl))
      · refine spec_except_bind (spec_tryCrypto (spec_any fun r _ => ?_))
        cases r with
        | error e => rfl
        | ok u => exact spec_bind (spec_any fun _ _ => spec_pure trivial fun _ hd =>
            absurd hd hdead)
  · exact spec_pure trivial (spec_pure trivial fun _ _ => ⟨k, _, hk, rfl⟩)

theorem spec_encryptConfigFile_unseen (f : ConfigFile) :
    Spec env (fun _ => True) (encryptConfigFile X key f).run
      (fun _ v' => Dead env (.look (.plain f)) → v' = v) v := by
  by_cases hdead : Dead env (.look (.plain f))
  · exact spec_except_bind (spec_bind (spec_pathExists_dead hdead trivial
      (spec_pure trivial (spec_pure trivial fun _ => rfl))))
  · exact spec_any fun _ _ hd => absurd hd hdead

theorem spec_decryptConfigFile_end (f : ConfigFile) :
    Spec env (fun _ => True) (decryptConfigFile X key f).run (fun r _ =>
      match r with
      | .ok _ => (v.files (.enc f)).isSome →
          Dead env (.read (.enc f)) ∨ Dead env (.write (.plain f)) →
            Faulty env (· = .pathExists (.file (.enc f)))
      | .error _ => (v.files (.enc f)).isSome) v := by
  refine spec_except_bind (spec_bind (spec_pathExists trivial ?_ fun k hk => ?_))
  · refine spec_pure trivial ?_
    cases hp : (v.files (.enc f)).isSome with
    | false => exact spec_pure trivial nofun
    | true =>
      by_cases hdead : Dead env (.read (.enc f)) ∨ Dead env (.write (.plain f))
      · exact spec_except_bind (spec_tryCrypto (spec_decryptFile_dead hdead trivial
          fun _ => rfl))
      · refine spec_except_bind (spec_tryCrypto (spec_any fun r _ => ?_))
        cases r with
        | error e => rfl
        | ok u => exact spec_bind (spec_any fun _ _ => spec_pure trivial fun _ hd =>
            absurd hd hdead)
  · exact spec_pure trivial (spec_pure trivial fun _ _ => ⟨k, _, hk, rfl⟩)

/-- Where `encrypt_config_files` can end. -/
abbrev EncPass (env : Env) (a : Aead) (key : Bytes) := PassPost (EncEnd env a key) (EncStop env)

/-- Where `decrypt_config_files` can end. -/
abbrev DecPass (env : Env) (a : Aead) (key : Bytes) :=
  PassPost (DecEnd env a key) (DecStop env a key)

theorem spec_encryptConfigFiles_pass (hkey : key.length = 32) :
    Spec env (ReflTransGen (EncStep X.aead key) v) (encryptConfigFiles X key).run
      (EncPass env X.aead key v) v := by
  refine spec_pass (fun v f => ?_) ?_ ?_
  · refine spec_mono (fun _ h => h) ?_
      (spec_and (spec_and (spec_encryptConfigFile f hkey) (spec_encryptConfigFile_end f))
        (spec_encryptConfigFile_unseen f))
    rintro r v' - ⟨⟨⟨hother, hr⟩, hend⟩, hunseen⟩
    cases r with
    | ok u => exact ⟨hother, hr, hend, fun hd => by rw [hunseen hd]; exact Same.refl v f⟩
    | error e => exact ⟨hother, hr.1, hr.2, hend⟩
  · rintro v v₁ v₂ v₃ f h ⟨hdone, hdead, hunseen⟩ h'
    exact ⟨hdone.of_same h h', h.1 ▸ hdead, fun hd => (h.trans (hunseen hd)).trans h'⟩
  · rintro v v₁ f h ⟨hf, hsome⟩
    exact ⟨hf, h.1 ▸ hsome⟩

theorem spec_decryptConfigFiles_pass :
    Spec env (ReflTransGen (DecStep X.aead key) v) (decryptConfigFiles X key).run
      (DecPass env X.aead key v) v := by
  refine spec_pass (fun v f => ?_) ?_ ?_
  · refine spec_mono (fun _ h => h) ?_
      (spec_and (spec_decryptConfigFile f) (spec_decryptConfigFile_end f))
    rintro r v' - ⟨⟨hother, hr⟩, hend⟩
    cases r with
    | ok u => exact ⟨hother, hr, hend⟩
    | error e => exact ⟨hother, hr.1, hr.2, hend⟩
  · rintro v v₁ v₂ v₃ f h ⟨hdone, hdead⟩ h'
    exact ⟨hdone.of_same h h', h.2 ▸ hdead⟩
  · rintro v v₁ f h ⟨hf, hsome⟩
    exact ⟨hf.of_same h, h.2 ▸ hsome⟩

/-- Where a pass over the two files can stop. -/
theorem split_CONFIG_FILES {ys zs : List ConfigFile} {f : ConfigFile}
    (h : CONFIG_FILES = ys ++ f :: zs) :
    ys = [] ∧ f = .rcloneConf ∧ zs = [.gnDriveDb] ∨ ys = [.rcloneConf] ∧ f = .gnDriveDb ∧ zs = [] := by
  unfold CONFIG_FILES at h
  match ys with
  | [] =>
    simp only [List.nil_append, List.cons.injEq] at h
    exact .inl ⟨rfl, h.1.symm, h.2.symm⟩
  | [g] =>
    simp only [List.cons_append, List.nil_append, List.cons.injEq] at h
    exact .inr ⟨by rw [h.1], h.2.1.symm, h.2.2.symm⟩
  | g :: g' :: ys =>
    simp at h

/-- Why a sealed file may keep a pass of `decrypt_config_files` from ending
    well. -/
def Jams (may : Site → Prop) (a : Aead) (key : Bytes) (f : ConfigFile) (blob : Bytes) : Prop :=
  opens a key blob = none ∨ may (.read (.enc f)) ∨ may (.write (.plain f))

/-- A pass stops only at a sealed file that jams. -/
theorem jams_of_stop {f : ConfigFile} (henv : env.Within may) (h : DecStop env X.aead key v f) :
    ∃ blob, v.files (.enc f) = some blob ∧ Jams may X.aead key f blob := by
  obtain ⟨hfail, hsome⟩ := h
  rcases hfail with hf | ⟨blob, he, ho⟩
  · obtain ⟨blob, he⟩ := Option.isSome_iff_exists.mp hsome
    exact ⟨blob, he, .inr (hf.within_dec henv)⟩
  · exact ⟨blob, he, .inl ho⟩

/-- Calls that make the file jam. -/
theorem Jams.sites {f : ConfigFile} {blob : Bytes} (h : Jams may X.aead key f blob) :
    ∃ sites : List Site, (∀ x ∈ sites, may x) ∧
      (∀ x ∈ sites, x = .read (.enc f) ∨ x = .write (.plain f)) ∧
      Jams (· ∈ sites) X.aead key f blob := by
  rcases h with h | h | h
  · exact ⟨[], by simp, by simp, .inl h⟩
  · exact ⟨[.read (.enc f)], by simpa using h, by simp, .inr (.inl (by simp))⟩
  · exact ⟨[.write (.plain f)], by simpa using h, by simp, .inr (.inr (by simp))⟩

theorem Jams.mono {may' : Site → Prop} {f : ConfigFile} {blob : Bytes}
    (h : Jams may X.aead key f blob) (hmay : ∀ x, may x → may' x) : Jams may' X.aead key f blob :=
  h.imp_right fun h => h.imp (hmay _) (hmay _)

/-- A sealed file that jams is not left behind by a pass that ends well. -/
theorem not_decEnd {v' : View} {f : ConfigFile} {blob : Bytes}
    (hlook : Live env (.look (.enc f))) (he : v.files (.enc f) = some blob)
    (hjam : Jams (Dead env) X.aead key f blob) : ¬ DecEnd env X.aead key v v' f := by
  rintro ⟨hdone, hdead⟩
  have hnolook : ¬ Faulty env (· = .pathExists (.file (.enc f))) :=
    hlook.not_faulty (by rintro c rfl; rfl)
  rcases hjam with ho | hd
  · rcases hdone with ⟨h₀ | h₀, -⟩ | ⟨blob', plain, he', ho', -⟩
    · rw [he] at h₀
      cases h₀
    · exact hnolook h₀
    · obtain rfl : blob = blob' := Option.some.inj (he.symm.trans he')
      rw [ho] at ho'
      cases ho'
  · exact hnolook (hdead (by rw [he]; rfl) hd)

/-- Every file has been through its round when a pass ends well. -/
theorem PassPost.all {Done : View → View → ConfigFile → Prop} {Failed : View → ConfigFile → Prop}
    {v' : View} (h : PassPost Done Failed v (.ok ()) v') (f : ConfigFile) : Done v v' f := by
  obtain ⟨ys, zs, hxs, hys, -, rfl⟩ := h
  apply hys
  rw [List.append_nil] at hxs
  exact hxs ▸ mem_CONFIG_FILES f

end Auth
end GnDrive
