/-
  GnDrive.Container.Recovery

  Process starts and data-plane opens in front of a config file that exists
  only as its `.enc`.

  `recover_from_crash` takes a plaintext beside an `.enc` for the copy to
  keep when no password is configured, and `auth.json` that is missing or
  does not parse reads as such.  The plaintext need not be the content of the
  `.enc`: `open_data_plane` creates `gn-drive.db` when it is not there, so a
  start that reads no password, opens the data plane and is followed by a
  second start removes the sealed database.  `sealed_kept_iff` says that this
  is the only way: the `.enc` is safe exactly when `auth.json` reads as
  enabled or the file is `rclone.conf`, which nothing creates.
-/

import GnDrive.Auth.CrashSafety

namespace GnDrive.Container

open Auth
open Crypto (opens)
open Relation (ReflTransGen)

/-- The path of `gn-drive.db`. -/
def dbName : Name := .plain .gnDriveDb

/-- `Store::open`: SQLite creates the file when it is missing, and the schema
    statements fill it.  What they do to a database that is there stays
    inside the file. -/
def openStore (schema : Bytes) : ExceptT IoError Io Unit := do
  if ← ExceptT.lift (pathExists (.file dbName)) then return ()
  else
    ExceptT.mk (createNew (.file dbName))
    ExceptT.mk (writeAll (.file dbName) schema)

/-- Unlocked, never-setup, or locked-with-plaintext can read sqlite/rclone
    now. -/
def canOpenDataPlane (auth : State) : Io Bool :=
  if !auth.authData.enabled || auth.unlocked then return true
  else return !(← hasEncryptedConfig CONFIG_FILES)

/-- The data plane as `AppContainer::new` opens it; opening the rclone client
    creates no file. -/
def openDataPlane (schema : Bytes) (auth : State) : ExceptT IoError Io Unit := do
  if ← ExceptT.lift (canOpenDataPlane auth) then openStore schema

/-- What happens next: starts, opens, and the death of the process at any
    point of either or in between. -/
inductive Event where
  | start
  | startKilled (n : Nat)
  | open
  | openKilled (n : Nat)
  | exit

section

variable (X : Crates) (keyStore : Bool) (env : Env) (schema : Bytes)

def step (m : Machine) : Event → Option Machine
  | .start =>
      if m.service.isSome then none
      else
        let r := Prog.run (exec env) (Auth.new X keyStore) m.world
        some ⟨r.2, some r.1⟩
  | .startKilled n =>
      if m.service.isSome then none
      else some ⟨Prog.crashAt (exec env) n (Auth.new X keyStore) m.world, none⟩
  | .open => m.service.map fun s =>
      ⟨(Prog.run (exec env) (openDataPlane schema s).run m.world).2, some s⟩
  | .openKilled n => m.service.map fun s =>
      ⟨Prog.crashAt (exec env) n (openDataPlane schema s).run m.world, none⟩
  | .exit => m.service.map fun _ => ⟨m.world, none⟩

/-- Runs from the disk `w`, with no process yet. -/
def startSystem (w : World) : System Machine Event where
  init m := m = ⟨w, none⟩
  step := step X keyStore env schema

/-- The `.enc` is still there, or its decrypted content has been written to
    the plaintext path. -/
def SealedKept (f : ConfigFile) (blob : Bytes) (v : View) : Prop :=
  v.files (.enc f) = some blob ∨
    ∃ key plain, opens X.aead key blob = some plain ∧ (.plain f, plain) ∈ v.placed

end

-- ============================================================================
-- What the steps can do
-- ============================================================================

section

variable {X : Crates} {keyStore : Bool} {env : Env} {schema : Bytes} {v v' : View}
  {f : ConfigFile} {blob : Bytes} {s : State}

/-- Opening the data plane creates `gn-drive.db` and nothing else. -/
def OpenStep (v v' : View) : Prop := ∃ data, v' = v.write dbName data

theorem spec_openStore {Q : Except IoError Unit → View → Prop}
    (hpresent : (v.files dbName).isSome → ∀ r, Q r v)
    (hfault : ¬ env.NoFaults → ∀ r v', ReflTransGen OpenStep v v' → Q r v')
    (hcreate : v.files dbName = none → ∀ v', ReflTransGen OpenStep v v' →
      (v'.files dbName).isSome → Q (.ok ()) v') :
    Spec env (ReflTransGen OpenStep v) (openStore schema).run Q v := by
  have hnof : ∀ {k c}, env.fails k c = true → c.onFiles = true → ¬ env.NoFaults := by
    intro k c hk hc henv
    rw [henv k c hc] at hk
    cases hk
  have hmake : ∀ hnone : v.files dbName = none ∨ ¬ env.NoFaults,
      Spec env (ReflTransGen OpenStep v) (do
        ExceptT.mk (createNew (.file dbName))
        ExceptT.mk (writeAll (.file dbName) schema) : ExceptT IoError Io Unit).run Q v := by
    intro hnone
    have h₁ : ReflTransGen OpenStep v (v.write dbName []) := .single ⟨_, rfl⟩
    have h₂ : ReflTransGen OpenStep v ((v.write dbName []).write dbName schema) := h₁.tail ⟨_, rfl⟩
    refine spec_except_bind (spec_createNew .refl h₁ ?_ fun k hk =>
      hfault (hnof hk rfl) _ _ .refl)
    refine spec_writeAll h₁ (View.write_files_self ..) h₂ ?_ fun k hk =>
      hfault (hnof hk rfl) _ _ h₁
    rcases hnone with hnone | hf
    · exact hcreate hnone _ h₂ (by simp)
    · exact hfault hf _ _ h₂
  refine spec_except_bind (spec_bind (spec_pathExists .refl ?_ fun k hk =>
    spec_pure .refl (hmake (.inr (hnof hk rfl)))))
  refine spec_pure .refl ?_
  cases hdb : v.files dbName with
  | some data => exact spec_pure .refl (hpresent (by rw [hdb]; rfl) _)
  | none => exact hmake (.inl hdb)

theorem spec_canOpenDataPlane {I : View → Prop} {Q : Bool → View → Prop} (hI : I v)
    (htrue : s.authData.enabled = false ∨ s.unlocked = true → Q true v)
    (helse : s.authData.enabled = true → ∀ b, Q b v) :
    Spec env I (canOpenDataPlane s) Q v := by
  unfold canOpenDataPlane
  cases hen : s.authData.enabled with
  | false => exact spec_pure hI (htrue (.inl hen))
  | true =>
    cases hu : s.unlocked with
    | true => exact spec_pure hI (htrue (.inr hu))
    | false =>
      exact spec_bind (spec_hasEncryptedConfig hI (fun _ => spec_pure hI (helse hen _))
        fun _ => spec_pure hI (helse hen _))

/-- An open that may go through creates nothing but `gn-drive.db`. -/
theorem spec_openDataPlane :
    Spec env (ReflTransGen OpenStep v) (openDataPlane schema s).run
      (fun _ v' => ReflTransGen OpenStep v v') v := by
  have hopen : Spec env (ReflTransGen OpenStep v) (openStore schema).run
      (fun _ v' => ReflTransGen OpenStep v v') v :=
    spec_openStore (fun _ _ => .refl) (fun _ _ _ hs => hs) fun _ _ hs _ => hs
  have hboth : ∀ b : Bool, Spec env (ReflTransGen OpenStep v)
      (if b = true then openStore schema else pure () : ExceptT IoError Io Unit).run
      (fun _ v' => ReflTransGen OpenStep v v') v := by
    intro b
    cases b with
    | true => exact hopen
    | false => exact spec_pure .refl .refl
  exact spec_except_bind (spec_bind (spec_canOpenDataPlane .refl
    (fun _ => spec_pure .refl (hboth true)) fun _ b => spec_pure .refl (hboth b)))

-- ============================================================================
-- What holds across starts and opens
-- ============================================================================

/-- A start keeps what recovery, decryption and forgetting the key keep. -/
theorem spec_new_keeps {P : View → Prop} (henv : env.NoFaults) (hv : P v)
    (hrec : ∀ v v', P v → RecStep (readAs X (v.files .authJson)).enabled v v' → P v')
    (hdec : ∀ key v v', P v → (readAs X (v.files .authJson)).enabled = true →
      DecStep X.aead key v v' → P v')
    (hforget : ∀ v, P v → P { v with keychain := none }) :
    Spec env P (Auth.new X keyStore) (fun _ v' => P v') v := by
  refine spec_new hv fun d hd => ?_
  obtain rfl : d = readAs X (v.files .authJson) := hd.resolve_right fun h =>
    not_faulty henv (by rintro _ rfl; rfl) h.1
  have hsteps : ∀ v', ReflTransGen (RecStep (readAs X (v.files .authJson)).enabled) v v' →
      P v' ∧ v'.files .authJson = v.files .authJson := by
    intro v' hs
    refine steps_preserve (P := fun v' => P v' ∧ v'.files .authJson = v.files .authJson) ?_
      ⟨hv, rfl⟩ hs
    rintro v₁ v₂ ⟨hP, hauth⟩ hr
    exact ⟨hrec v₁ v₂ hP (hauth ▸ hr), hr.frame.1.trans hauth⟩
  refine ⟨fun v' hs => (hsteps v' hs).1, fun v₁ hs _ => ⟨fun _ => (hsteps v₁ hs).1, fun hen => ?_⟩⟩
  obtain ⟨hv₁, hauth⟩ := hsteps v₁ hs
  refine spec_resumeRememberedKey hv₁ hv₁ fun _ _ key _ => ?_
  have hopen : ∀ v', ReflTransGen (DecStep X.aead key) v₁ v' → P v' := by
    intro v' hs'
    refine (steps_preserve (P := fun v' => P v' ∧ v'.files .authJson = v.files .authJson) ?_
      ⟨hv₁, hauth⟩ hs').1
    rintro v₂ v₃ ⟨hP, hauth₂⟩ hr
    exact ⟨hdec key v₂ v₃ hP (by rw [hauth₂]; exact hen) hr, hr.frame.1.trans hauth₂⟩
  refine ⟨hopen, fun v' hv' => ?_, fun v' _ hs' _ => hopen v' hs'⟩
  have hP : P v' := by
    rcases hv' with rfl | ⟨e, hs', -⟩
    · exact hv₁
    · exact hopen v' hs'
  exact ⟨hforget v' hP, hP, hforget v' hP⟩

/-- Run lemma: so does any sequence of starts and opens. -/
theorem keeps_of_reachable {P : View → Prop} {w : World} {m : Machine} (henv : env.NoFaults)
    (hw : P w.view)
    (hrec : ∀ v v', P v → RecStep (readAs X (v.files .authJson)).enabled v v' → P v')
    (hdec : ∀ key v v', P v → (readAs X (v.files .authJson)).enabled = true →
      DecStep X.aead key v v' → P v')
    (hforget : ∀ v, P v → P { v with keychain := none })
    (hopen : ∀ v v', P v → OpenStep v v' → P v')
    (h : (startSystem X keyStore env schema w).Reachable m) : P m.world.view := by
  refine System.Reachable.invariant (P := fun m : Machine => P m.world.view) ?_ ?_ h
  · rintro m rfl
    exact hw
  intro m e m' hm hs
  have hnew : Spec env P (Auth.new X keyStore) (fun _ v' => P v') m.world.view :=
    spec_new_keeps henv hm hrec hdec hforget
  have hdata : ∀ s, Spec env P (openDataPlane schema s).run (fun _ v' => P v') m.world.view :=
    fun s => spec_mono (fun v' hs' => steps_preserve hopen hm hs')
      (fun _ v' _ hs' => steps_preserve hopen hm hs') spec_openDataPlane
  cases e with
  | start =>
    obtain ⟨-, rfl⟩ : _ ∧ _ = m' := by simpa [startSystem, step] using hs
    exact spec_run hnew
  | startKilled n =>
    obtain ⟨-, rfl⟩ : _ ∧ _ = m' := by simpa [startSystem, step] using hs
    exact spec_crash hnew n
  | «open» =>
    obtain ⟨s, -, rfl⟩ := Option.map_eq_some_iff.mp hs
    exact spec_run (hdata s)
  | openKilled n =>
    obtain ⟨s, -, rfl⟩ := Option.map_eq_some_iff.mp hs
    exact spec_crash (hdata s) n
  | exit =>
    obtain ⟨s, -, rfl⟩ := Option.map_eq_some_iff.mp hs
    exact hm

theorem SealedKept.of_files (h : SealedKept X f blob v)
    (henc : v'.files (.enc f) = v.files (.enc f)) (hplaced : ∀ e ∈ v.placed, e ∈ v'.placed) :
    SealedKept X f blob v' :=
  h.imp (fun hb => henc.trans hb) fun ⟨key, plain, ho, hmem⟩ => ⟨key, plain, ho, hplaced _ hmem⟩

/-- With a password configured, only decryption removes an `.enc`, and it
    writes the content first. -/
theorem sealedKept_enabled {w : World} {m : Machine} (henv : env.NoFaults)
    (hen : (readAs X (w.view.files .authJson)).enabled = true)
    (hblob : w.view.files (.enc f) = some blob)
    (h : (startSystem X keyStore env schema w).Reachable m) :
    SealedKept X f blob m.world.view := by
  refine (keeps_of_reachable (P := fun v => (readAs X (v.files .authJson)).enabled = true ∧
    SealedKept X f blob v) henv ⟨hen, .inl hblob⟩ ?_ ?_ (fun v hv => hv) ?_ h).2
  · rintro v v' ⟨hen, hk⟩ hr
    rw [hen] at hr
    refine ⟨by rw [hr.frame.1]; exact hen, ?_⟩
    cases hr with
    | dropPlain => exact hk.of_files (by simp) (by simp)
    | dropEnc hf => cases hf
  · rintro key v v' ⟨hen, hk⟩ - hr
    refine ⟨by rw [hr.frame.1]; exact hen, ?_⟩
    cases hr with
    | place => exact hk.of_files (by simp) (by simp +contextual)
    | @drop g plain blob' he ho _ hmem =>
      by_cases hg : f = g
      · subst hg
        rcases hk with hb | hk
        · obtain rfl := Option.some.inj (hb.symm.trans he)
          exact .inr ⟨key, plain, ho, hmem⟩
        · exact .inr hk
      · exact hk.of_files (by simp [hg]) (by simp)
  · rintro v v' ⟨hen, hk⟩ ⟨data, rfl⟩
    exact ⟨by simpa [dbName] using hen, hk.of_files (by simp [dbName]) (by simp)⟩

/-- Without a password, an `.enc` stays while there is no plaintext beside it. -/
theorem sealedKept_rcloneConf {w : World} {m : Machine} (henv : env.NoFaults)
    (hdis : (readAs X (w.view.files .authJson)).enabled = false)
    (hplain : w.view.files (.plain .rcloneConf) = none)
    (hblob : w.view.files (.enc .rcloneConf) = some blob)
    (h : (startSystem X keyStore env schema w).Reachable m) :
    SealedKept X .rcloneConf blob m.world.view := by
  refine .inl (keeps_of_reachable (P := fun v => (readAs X (v.files .authJson)).enabled = false ∧
    v.files (.plain .rcloneConf) = none ∧ v.files (.enc .rcloneConf) = some blob) henv
    ⟨hdis, hplain, hblob⟩ ?_ ?_ (fun v hv => hv) ?_ h).2.2
  · rintro v v' ⟨hdis, hp, hb⟩ hr
    rw [hdis] at hr
    refine ⟨by rw [hr.frame.1]; exact hdis, ?_⟩
    cases hr with
    | dropPlain hf => cases hf
    | @dropEnc g _ hg _ =>
      have hne : ConfigFile.rcloneConf ≠ g := by
        rintro rfl
        rw [hp] at hg
        cases hg
      exact ⟨by simpa using hp, by simpa [hne] using hb⟩
  · rintro key v v' ⟨hdis, -⟩ hen -
    rw [hdis] at hen
    cases hen
  · rintro v v' ⟨hdis, hp, hb⟩ ⟨data, rfl⟩
    exact ⟨by simpa [dbName] using hdis, by simpa [dbName] using hp, by simpa [dbName] using hb⟩

-- ============================================================================
-- The sealed database
-- ============================================================================

theorem recSteps_placed {enabled : Bool} (hs : ReflTransGen (RecStep enabled) v v') :
    v'.placed = v.placed :=
  steps_preserve (P := fun v' => v'.placed = v.placed)
    (fun _ _ hP hr => by cases hr <;> simpa using hP) rfl hs

/-- A start that reads no password is open, and it removes the `.enc` of a
    file that has a plaintext. -/
theorem spec_new_disabled (X : Crates) (keyStore : Bool) (henv : env.NoFaults)
    (hdis : (readAs X (v.files .authJson)).enabled = false) :
    Spec env (fun _ => True) (Auth.new X keyStore) (fun s v' =>
      s.authData.enabled = false ∧ v'.placed = v.placed ∧
      v'.files .authJson = v.files .authJson ∧
      ∀ f, RecDone env false v v' f) v := by
  refine spec_new (I := fun _ => True) trivial fun d hd => ?_
  obtain rfl : d = readAs X (v.files .authJson) := hd.resolve_right fun h =>
    not_faulty henv (by rintro _ rfl; rfl) h.1
  rw [hdis]
  exact ⟨fun _ _ => trivial, fun v' hs hdone => ⟨fun _ => ⟨rfl, recSteps_placed hs,
    (steps_frame (fun _ _ => RecStep.frame) hs).1, hdone⟩, nofun⟩⟩

theorem spec_openDataPlane_disabled (henv : env.NoFaults) (hdis : s.authData.enabled = false)
    (hdb : v.files dbName = none) :
    Spec env (fun _ => True) (openDataPlane schema s).run (fun _ v' =>
      (v'.files dbName).isSome ∧ ∀ n, n ≠ dbName → v'.files n = v.files n ∧ v'.placed = v.placed)
      v := by
  have hother : ∀ v', ReflTransGen OpenStep v v' → ∀ n, n ≠ dbName →
      v'.files n = v.files n ∧ v'.placed = v.placed := by
    intro v' hs n hn
    refine steps_preserve (P := fun v' => v'.files n = v.files n ∧ v'.placed = v.placed) ?_
      ⟨rfl, rfl⟩ hs
    rintro v₁ v₂ hP ⟨data, rfl⟩
    simpa [hn] using hP
  have hopen : Spec env (ReflTransGen OpenStep v) (openStore schema).run (fun _ v' =>
      (v'.files dbName).isSome ∧ ∀ n, n ≠ dbName → v'.files n = v.files n ∧ v'.placed = v.placed)
      v := by
    refine spec_openStore (fun h => ?_) (fun h => absurd henv h) fun _ v' hs hsome =>
      ⟨hsome, hother v' hs⟩
    rw [hdb] at h; cases h
  refine spec_mono (fun _ _ => trivial) (fun _ _ _ h => h) ?_ (I := ReflTransGen OpenStep v)
  refine spec_except_bind (spec_bind (spec_canOpenDataPlane .refl
    (fun _ => spec_pure .refl hopen) fun hen => ?_))
  rw [hdis] at hen; cases hen

/-- A start, an open and another start: the sealed database is gone. -/
theorem sealed_lost (X : Crates) (keyStore : Bool) (schema : Bytes) {w : World} (henv : env.NoFaults)
    (hdis : (readAs X (w.view.files .authJson)).enabled = false)
    (hplain : w.view.files dbName = none)
    (hblob : w.view.files (.enc .gnDriveDb) = some blob) (hplaced : w.view.placed = []) :
    ∃ m, (startSystem X keyStore env schema w).runFrom ⟨w, none⟩ [.start, .open, .exit, .start]
        = some m ∧ ¬ SealedKept X .gnDriveDb blob m.world.view := by
  let r₁ := Prog.run (exec env) (Auth.new X keyStore) w
  let r₂ := Prog.run (exec env) (openDataPlane schema r₁.1).run r₁.2
  let r₃ := Prog.run (exec env) (Auth.new X keyStore) r₂.2
  refine ⟨⟨r₃.2, some r₃.1⟩, rfl, ?_⟩
  change ¬ SealedKept X .gnDriveDb blob r₃.2.view
  -- the first start leaves the `.enc` alone
  obtain ⟨hs, hp₁, ha₁, hdone₁⟩ : _ ∧ r₁.2.view.placed = _ ∧ r₁.2.view.files .authJson = _ ∧
      ∀ f, RecDone env false _ r₁.2.view f := spec_run (spec_new_disabled X keyStore henv hdis)
  have hsame : Same w.view r₁.2.view .gnDriveDb := by
    rcases hdone₁ .gnDriveDb with ⟨h, -⟩ | ⟨h, -⟩
    · exact h
    · rw [show w.view.files (.plain .gnDriveDb) = none from hplain] at h; cases h
  -- the open puts a new database beside it
  obtain ⟨hdb, hother⟩ : (r₂.2.view.files dbName).isSome ∧ ∀ n, n ≠ dbName →
      r₂.2.view.files n = r₁.2.view.files n ∧ r₂.2.view.placed = r₁.2.view.placed :=
    spec_run (spec_openDataPlane_disabled henv hs (hsame.1.trans hplain))
  have henc : r₂.2.view.files (.enc .gnDriveDb) = some blob :=
    (hother _ (by simp [dbName])).1.trans (hsame.2.trans hblob)
  have hdis₂ : (readAs X (r₂.2.view.files .authJson)).enabled = false := by
    rw [(hother .authJson (by simp [dbName])).1, ha₁]; exact hdis
  -- and the second start takes that for the content
  obtain ⟨-, hp₃, -, hdone₃⟩ : _ ∧ r₃.2.view.placed = _ ∧ _ ∧
      ∀ f, RecDone env false _ r₃.2.view f := spec_run (spec_new_disabled X keyStore henv hdis₂)
  have hgone : r₃.2.view.files (.enc .gnDriveDb) = none := by
    rcases hdone₃ .gnDriveDb with ⟨-, h | h | h⟩ | ⟨-, -, h⟩
    · rw [show r₂.2.view.files dbName = none from h] at hdb; cases hdb
    · rw [henc] at h; cases h
    · exact absurd h (not_faulty henv (by rintro _ (rfl | rfl | rfl | rfl) <;> rfl))
    · exact h.1
  have hnothing : r₃.2.view.placed = [] := by
    rw [hp₃, (hother .authJson (by simp [dbName])).2, hp₁, hplaced]
  rintro (h | ⟨key, plain, -, h⟩)
  · rw [hgone] at h; cases h
  · rw [hnothing] at h; cases h

-- ============================================================================
-- The claim
-- ============================================================================

/-- From a disk with a config file only as its `.enc`, no sequence of starts
    and opens removes the `.enc` before its content is back, exactly when
    `auth.json` reads as enabled or the file is `rclone.conf`. -/
theorem sealed_kept_iff {w : World} (henv : env.NoFaults)
    (hplain : w.view.files (.plain f) = none) (hblob : w.view.files (.enc f) = some blob)
    (hplaced : w.view.placed = []) :
    (∀ m, (startSystem X keyStore env schema w).Reachable m →
      SealedKept X f blob m.world.view) ↔
    (readAs X (w.view.files .authJson)).enabled = true ∨ f = .rcloneConf := by
  refine ⟨fun hall => ?_, ?_⟩
  · by_contra hno
    obtain ⟨hdis, hf⟩ := not_or.mp hno
    obtain rfl : f = .gnDriveDb := by cases f <;> simp_all
    obtain ⟨m, hrun, hlost⟩ := sealed_lost X keyStore schema henv
      (Bool.eq_false_iff.mpr hdis) hplain hblob hplaced
    exact hlost (hall m (System.runFrom_reachable (.init rfl) hrun))
  · intro hor m hm
    cases hen : (readAs X (w.view.files .authJson)).enabled with
    | true => exact sealedKept_enabled henv hen hblob hm
    | false =>
      obtain rfl : f = .rcloneConf := hor.resolve_left (by simp [hen])
      exact sealedKept_rcloneConf henv hen hplain hblob hm

end

/-- A config directory with `gn-drive.db` only as its `.enc`. -/
def sealedWorld (auth : Option AuthData) : World where
  disk
    | .file (.enc .gnDriveDb) => some ⟨0, Sample.aead.encrypt (Sample.keyOf "secret" 1) [] [7]⟩
    | .file .authJson => auth.map fun d => ⟨0, Sample.json.toVecPretty d⟩
    | _ => none
  keychain := none
  placed := []
  tick := 0

theorem readAs_sealedWorld (d : AuthData) :
    readAs Sample.crates ((sealedWorld (some d)).view.files .authJson) = d :=
  readAs_toVecPretty Sample.crates d

/-- With the password in `auth.json`, the same steps keep it. -/
theorem sealed_kept_enabled :
    ∃ m, (startSystem Sample.crates true (Sample.env 1) [1]
        (sealedWorld (some (Sample.authData "secret" 1)))).runFrom
          ⟨sealedWorld (some (Sample.authData "secret" 1)), none⟩ [.start, .open, .exit, .start]
        = some m ∧
      SealedKept Sample.crates .gnDriveDb
        (Sample.aead.encrypt (Sample.keyOf "secret" 1) [] [7]) m.world.view := by
  have hrun : (startSystem Sample.crates true (Sample.env 1) [1]
      (sealedWorld (some (Sample.authData "secret" 1)))).runFrom
        ⟨sealedWorld (some (Sample.authData "secret" 1)), none⟩ [.start, .open, .exit, .start]
      = some _ := rfl
  refine ⟨_, hrun, (sealed_kept_iff (Sample.env_noFaults 1) rfl rfl rfl).mpr (.inl ?_) _
    (System.runFrom_reachable (.init rfl) hrun)⟩
  rw [readAs_sealedWorld]
  rfl

/-- Without `auth.json`, two starts and an open between them lose it. -/
theorem sealed_db_lost :
    ∃ m, (startSystem Sample.crates true (Sample.env 1) [1] (sealedWorld none)).Reachable m ∧
      ¬ SealedKept Sample.crates .gnDriveDb
        (Sample.aead.encrypt (Sample.keyOf "secret" 1) [] [7]) m.world.view := by
  obtain ⟨m, hrun, hlost⟩ := sealed_lost Sample.crates true [1] (Sample.env_noFaults 1)
    (w := sealedWorld none) rfl rfl rfl rfl
  exact ⟨m, System.runFrom_reachable (.init rfl) hrun, hlost⟩

end GnDrive.Container
