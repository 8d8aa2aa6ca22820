/-
  GnDrive.Auth.CrashSafety

  Lock and unlock on a machine that can lose its process at any time.

  A `Machine` is a config directory and, while a process runs, the state of
  its auth service.  The process runs operations to their end or is killed
  between two commands of one; a start runs `AuthService::new`, recovery and
  remembered-session resume included, and can be killed as well.
  `contents_recoverable` is the result: in every state any such sequence
  leads to, no file's content is lost, and an unlock that succeeds brings all
  of them back.
-/

import GnDrive.Auth.Recoverable
import GnDrive.Auth.Instance
import GnDrive.Lib.System

namespace GnDrive.Auth

open Argon2id (StoredKey)
open Crypto (Sealed)

/-- A config directory and the service of the running process, if any. -/
structure Machine where
  world : World
  service : Option State

/-- The operations of the service that leave the password alone. -/
inductive Op where
  | setup (password : String)
  | lock
  | suspend
  | unlock (password : String)

def Op.prog (X : Crates) (keyStore : Bool) : Op → AuthM Unit
  | .setup password => setupPassword X keyStore password
  | .lock => Auth.lock X keyStore
  | .suspend => Auth.suspend X
  | .unlock password => Auth.unlock X keyStore password

/-- What happens to the machine next; `n` is the number of commands after
    which the process is killed. -/
inductive Event where
  | op (o : Op)
  | killed (o : Op) (n : Nat)
  | start
  | startKilled (n : Nat)

def Machine.step (X : Crates) (keyStore : Bool) (env : Env) (m : Machine) :
    Event → Option Machine
  | .op o => m.service.map fun s =>
      let r := runAuth env (o.prog X keyStore) s m.world
      ⟨r.2, some r.1.2⟩
  | .killed o n => m.service.map fun s =>
      ⟨Prog.crashAt (exec env) n ((o.prog X keyStore).run.run s) m.world, none⟩
  | .start =>
      if m.service.isSome then none
      else
        let r := Prog.run (exec env) (new X keyStore) m.world
        some ⟨r.2, some r.1⟩
  | .startKilled n =>
      if m.service.isSome then none
      else some ⟨Prog.crashAt (exec env) n (new X keyStore) m.world, none⟩

/-- The password `password` is set up, its key is the only one the service
    can have in memory or in the key store, and every config file is there as
    plaintext. -/
def SetUpPlain (X : Crates) (password : String) (c : ConfigFile → Bytes) (m : Machine) : Prop :=
  ∃ s hash salt key, m.service = some s ∧
    StoredKey X.argon2 hash salt key ∧ Argon2id.deriveKey X.argon2 password salt = .ok key ∧
    s.authData.enabled = true ∧ s.authData.passwordHash = hash ∧
    (s.encKey = none ∨ s.encKey = some key) ∧
    (readAs X (m.world.view.files .authJson)).enabled = true ∧
    (readAs X (m.world.view.files .authJson)).passwordHash = hash ∧
    (m.world.view.keychain = none ∨ m.world.view.keychain = some key) ∧
    ∀ f, m.world.view.files (.plain f) = some (c f) ∧ m.world.view.files (.enc f) = none

def crashSystem (X : Crates) (keyStore : Bool) (env : Env) (password : String)
    (c : ConfigFile → Bytes) : System Machine Event where
  init := SetUpPlain X password c
  step := Machine.step X keyStore env

section

variable {X : Crates} {keyStore : Bool} {env : Env} {password : String}
  {c : ConfigFile → Bytes} {m m' : Machine}

/-- The invariant: the disk is recoverable, and the memory of a running
    service agrees with it. -/
structure MachineOk (X : Crates) (password hash : String) (salt key : Bytes)
    (c : ConfigFile → Bytes) (m : Machine) : Prop where
  stored : StoredKey X.argon2 hash salt key
  derives : Argon2id.deriveKey X.argon2 password salt = .ok key
  disk : DiskOk X hash key (fun f => some (c f)) m.world.view
  memory : ∀ {s}, m.service = some s → MemOk hash key (fun f => some (c f)) s m.world.view

theorem SetUpPlain.machineOk (h : SetUpPlain X password c m) :
    ∃ hash salt key, MachineOk X password hash salt key c m := by
  obtain ⟨s, hash, salt, key, hs, hstored, hkey, hen, hhash, henc, hen', hhash', hks, hfiles⟩ := h
  refine ⟨hash, salt, key, hstored, hkey, ⟨⟨fun hp => ?_, fun he => ?_, fun hc => ?_⟩, hen', hhash',
    fun hk => ?_⟩, fun hs' => ?_⟩
  · rw [(hfiles _).1] at hp; exact hp
  · rw [(hfiles _).2] at he; cases he
  · exact .inl (by rw [(hfiles _).1]; rfl)
  · rcases hks with hks | hks
    · rw [hks] at hk; cases hk
    · exact (Option.some.inj (hks.symm.trans hk)).symm
  · obtain rfl := Option.some.inj (hs.symm.trans hs')
    refine ⟨hen, hhash, fun hk => ?_, fun _ f => (hfiles f).1⟩
    rcases henc with henc | henc
    · rw [henc] at hk; cases hk
    · exact (Option.some.inj (henc.symm.trans hk)).symm

/-- One operation, to its end or to the command at which it is killed. -/
theorem auth_op (keyStore : Bool) {hash : String} {salt key : Bytes} {c : ConfigFile → Option Bytes} {s : State}
    {v : View} (henv : env.NoFaults) (hstored : StoredKey X.argon2 hash salt key)
    (hd : DiskOk X hash key c v) (hm : MemOk hash key c s v) (o : Op) :
    ASpec env (DiskOk X hash key c) (o.prog X keyStore)
      (fun _ s' v' => DiskOk X hash key c v' ∧ MemOk hash key c s' v') s v := by
  cases o with
  | setup pw => exact auth_setupPassword_setUp hd hm
  | lock => exact auth_lock_setUp hstored hd hm
  | suspend => exact auth_mono (fun _ h => h) (fun _ _ _ _ h => h.2) (auth_suspend_setUp hstored hd hm)
  | unlock pw =>
    exact auth_mono (fun _ h => h) (fun _ _ _ _ h => h.1) (auth_unlock_setUp henv hstored hd hm)

/-- Step lemma: whatever happens, the machine stays recoverable. -/
theorem MachineOk.step {hash : String} {salt key : Bytes} (henv : env.NoFaults)
    (h : MachineOk X password hash salt key c m) {e : Event}
    (hs : m.step X keyStore env e = some m') : MachineOk X password hash salt key c m' := by
  cases e with
  | op o =>
    obtain ⟨s, hsvc, rfl⟩ := Option.map_eq_some_iff.mp hs
    obtain ⟨hd, hm⟩ := auth_run (auth_op keyStore henv h.stored h.disk
      (h.memory hsvc) o)
    exact ⟨h.stored, h.derives, hd, fun hs' => Option.some.inj hs' ▸ hm⟩
  | killed o n =>
    obtain ⟨s, hsvc, rfl⟩ := Option.map_eq_some_iff.mp hs
    exact ⟨h.stored, h.derives, spec_crash (auth_op keyStore henv h.stored h.disk
      (h.memory hsvc) o) n, nofun⟩
  | start =>
    simp only [Machine.step] at hs
    split at hs
    · cases hs
    · cases hs
      obtain ⟨hd, hm⟩ := spec_run (spec_new_setUp keyStore henv h.disk)
      exact ⟨h.stored, h.derives, hd, fun hs' => Option.some.inj hs' ▸ hm⟩
  | startKilled n =>
    simp only [Machine.step] at hs
    split at hs
    · cases hs
    · cases hs
      exact ⟨h.stored, h.derives,
        spec_crash (spec_new_setUp keyStore henv h.disk) n, nofun⟩

theorem machineOk_of_reachable (henv : env.NoFaults)
    (h : (crashSystem X keyStore env password c).Reachable m) :
    ∃ hash salt key, MachineOk X password hash salt key c m :=
  System.Reachable.invariant (P := fun m => ∃ hash salt key, MachineOk X password hash salt key c m)
    (fun _ hi => SetUpPlain.machineOk hi)
    (fun _ _ _ ⟨hash, salt, key, hm⟩ hs => ⟨hash, salt, key, hm.step henv hs⟩) h

/-- In every state that operations, kills and starts lead to, each config
    file is on disk as plaintext or sealed under the key that the password
    derives from the salt of the persisted hash, and an unlock that succeeds
    leaves every file as it was. -/
theorem contents_recoverable (henv : env.NoFaults)
    (h : (crashSystem X keyStore env password c).Reachable m) :
    (∃ salt key,
      Argon2id.extractSalt (readAs X (m.world.view.files .authJson)).passwordHash = .ok salt ∧
      Argon2id.deriveKey X.argon2 password salt = .ok key ∧
      ∀ f, m.world.view.files (.plain f) = some (c f) ∨
        ∃ blob, m.world.view.files (.enc f) = some blob ∧ Sealed X.aead key (c f) blob) ∧
    ∀ s, m.service = some s →
      (runAuth env (unlock X keyStore password) s m.world).1.1 = .ok () →
      ∀ f, (runAuth env (unlock X keyStore password) s m.world).2.view.files (.plain f)
        = some (c f) := by
  obtain ⟨hash, salt, key, hm⟩ := machineOk_of_reachable henv h
  refine ⟨⟨salt, key, ?_, hm.derives, fun f => ?_⟩, fun s hs hok => ?_⟩
  · rw [hm.disk.passwordHash]
    exact hm.stored.extractSalt_eq
  · rcases hm.disk.kept.present (f := f) rfl with hp | he
    · obtain ⟨p, hp⟩ := Option.isSome_iff_exists.mp hp
      exact .inl (hp.trans (hm.disk.kept.plain hp).symm)
    · obtain ⟨blob, hblob⟩ := Option.isSome_iff_exists.mp he
      obtain ⟨p, hc, hsealed⟩ := hm.disk.kept.enc hblob
      exact .inr ⟨blob, hblob, Option.some.inj hc ▸ hsealed⟩
  · exact (auth_run (auth_unlock_setUp henv hm.stored hm.disk (hm.memory hs))).2 hok

end

/-- A machine right after setup, with both files as plaintext. -/
def Sample.machine : Machine where
  world := Sample.world (fun _ => some [7]) (some (Sample.authData "secret" 1))
  service := some ⟨true, some (Sample.keyOf "secret" 1), Sample.authData "secret" 1, none⟩

theorem Sample.machine_setUpPlain :
    SetUpPlain Sample.crates "secret" (fun _ => [7]) Sample.machine := by
  refine ⟨_, _, _, _, rfl, Sample.storedKey "secret" 1, Sample.deriveKey_eq _ _, rfl, rfl, .inr rfl,
    ?_, ?_, .inl rfl, fun f => ⟨Sample.world_plain .., Sample.world_enc ..⟩⟩
  · exact congrArg AuthData.enabled (Sample.readAs_world _ _)
  · exact congrArg AuthData.passwordHash (Sample.readAs_world _ _)

/-- The lock is killed half way, the process restarts, and the start is killed
    too. -/
theorem contents_recoverable_killed :
    ∃ m, (crashSystem Sample.crates true (Sample.env 1) "secret" fun _ => [7]).runFrom Sample.machine
        [.killed .lock 9, .startKilled 5, .start] = some m ∧
      ∃ salt key, Argon2id.extractSalt
          (readAs Sample.crates (m.world.view.files .authJson)).passwordHash = .ok salt ∧
        Argon2id.deriveKey Sample.argon2 "secret" salt = .ok key ∧
        ∀ f, m.world.view.files (.plain f) = some [7] ∨
          ∃ blob, m.world.view.files (.enc f) = some blob ∧ Sealed Sample.aead key [7] blob := by
  have hrun : (crashSystem Sample.crates true (Sample.env 1) "secret" fun _ => [7]).runFrom
      Sample.machine [.killed .lock 9, .startKilled 5, .start] = some _ := rfl
  exact ⟨_, hrun, (contents_recoverable (Sample.env_noFaults 1)
    (System.runFrom_reachable (.init Sample.machine_setUpPlain) hrun)).1⟩

end GnDrive.Auth
