/-
  GnDrive.Disk

  The config directory, the OS key store, the clock and the random source as
  a world of commands (`GnDrive.Lib.Prog`), one command for each call the
  core makes into them.

  `Env` holds what the environment decides: which calls fail, what the random
  source yields, what the clock reads, each as a function of the number of
  commands issued so far.  A clash of a random temp-file suffix with an
  existing name is one of the failures.

  A file is its bytes together with an inode number, so that a path whose
  file was removed and recreated can be told from one that was not.  `placed`
  records which files were put in place by a rename, with their contents, in
  order; no command reads it.

  Proofs about the service do not look at temp files, SQLite side files,
  inodes or the command counter: `World.view` forgets them, and `Spec` is
  `Prog.wp` for every world with a given view.
-/

import GnDrive.Lib.Prog
import GnDrive.Crates
import Mathlib.Logic.Function.Basic

namespace GnDrive

-- ============================================================================
-- Names
-- ============================================================================

/-- The plain config files that get encrypted to `<name>.enc` while locked. -/
inductive ConfigFile where
  | rcloneConf
  | gnDriveDb
deriving DecidableEq, Repr

def CONFIG_FILES : List ConfigFile := [.rcloneConf, .gnDriveDb]

@[simp] theorem mem_CONFIG_FILES (f : ConfigFile) : f ∈ CONFIG_FILES := by
  cases f <;> simp [CONFIG_FILES]

/-- The files the service keeps in the config directory: a config file, its
    encrypted sibling `<name>.enc`, and `auth.json`. -/
inductive Name where
  | plain (f : ConfigFile)
  | enc (f : ConfigFile)
  | authJson
deriving DecidableEq, Repr

/-- A path in the config directory; `wal f` and `shm f` are `<f>-wal` and
    `<f>-shm`, and `tmp n s` is `.<n>.<s>.tmp`. -/
inductive Path where
  | file (n : Name)
  | wal (f : ConfigFile)
  | shm (f : ConfigFile)
  | tmp (n : Name) (suffix : UInt64)
deriving DecidableEq

-- ============================================================================
-- Commands
-- ============================================================================

inductive IoError where
  | notFound
  | other
deriving DecidableEq, Repr

inductive SecureStoreError where
  | notFound
  | os
deriving DecidableEq, Repr

inductive Cmd where
  | pathExists (p : Path)
  | read (p : Path)
  | createNew (p : Path)
  | writeAll (p : Path) (data : Bytes)
  | syncAll (p : Path)
  | setMode0600 (p : Path)
  | rename (src dst : Path)
  | removeFile (p : Path)
  | createDirAll
  | ksGet
  | ksSet (value : Bytes)
  | ksDelete
  | randFill (len : Nat)
  | randU64
  | utcNow
  | sleep (secs : Nat)

abbrev Cmd.Answer : Cmd → Type
  | .pathExists _ => Bool
  | .read _ => Except IoError Bytes
  | .createNew _ | .writeAll _ _ | .syncAll _ | .setMode0600 _ => Except IoError Unit
  | .rename _ _ | .removeFile _ | .createDirAll => Except IoError Unit
  | .ksGet => Except SecureStoreError Bytes
  | .ksSet _ | .ksDelete => Except SecureStoreError Unit
  | .randFill _ => Bytes
  | .randU64 => UInt64
  | .utcNow => Time
  | .sleep _ => Unit

/-- Programs over the world. -/
abbrev Io := Prog Cmd Cmd.Answer

/-- What the environment decides at its `n`-th command. -/
structure Env where
  fails : Nat → Cmd → Bool
  rand : Nat → Nat → UInt8
  suffix : Nat → UInt64
  now : Nat → Time

/-- Commands on the config directory. -/
def Cmd.onFiles : Cmd → Bool
  | .ksGet | .ksSet _ | .ksDelete | .randFill _ | .randU64 | .utcNow | .sleep _ => false
  | _ => true

/-- No call on the config directory fails; the key store may. -/
def Env.NoFaults (env : Env) : Prop := ∀ n c, c.onFiles = true → env.fails n c = false

/-- The bytes the random source yields at the `k`-th command. -/
def Env.bytes (env : Env) (k len : Nat) : Bytes := (List.range len).map (env.rand k)

@[simp] theorem Env.bytes_length (env : Env) (k len : Nat) : (env.bytes k len).length = len := by
  simp [Env.bytes]

structure File where
  ino : Nat
  data : Bytes
deriving DecidableEq

structure World where
  disk : Path → Option File
  keychain : Option Bytes
  placed : List (Name × Bytes)
  tick : Nat

namespace World

/-- The world after a command that changes nothing but the counter. -/
def tock (w : World) : World := { w with tick := w.tick + 1 }

def setFile (w : World) (p : Path) (f : Option File) : World :=
  { w with disk := Function.update w.disk p f }

/-- Bookkeeping of a rename onto `dst`. -/
def place (w : World) (dst : Path) (f : File) : World :=
  match dst with
  | .file n => { w with placed := w.placed ++ [(n, f.data)] }
  | _ => w

end World

/-- The meaning of the commands. -/
def exec (env : Env) (c : Cmd) (w : World) : c.Answer × World :=
  let fails := env.fails w.tick c
  match c with
  | .pathExists p => (!fails && (w.disk p).isSome, w.tock)
  | .read p =>
      if fails then (.error .other, w.tock)
      else match w.disk p with
        | some f => (.ok f.data, w.tock)
        | none => (.error .notFound, w.tock)
  | .createNew p =>
      if fails then (.error .other, w.tock)
      else (.ok (), (w.setFile p (some ⟨w.tick, []⟩)).tock)
  | .writeAll p data =>
      if fails then (.error .other, w.tock)
      else match w.disk p with
        | some f => (.ok (), (w.setFile p (some { f with data := data })).tock)
        | none => (.error .notFound, w.tock)
  | .syncAll _ | .setMode0600 _ | .createDirAll =>
      if fails then (.error .other, w.tock) else (.ok (), w.tock)
  | .rename src dst =>
      if fails then (.error .other, w.tock)
      else match w.disk src with
        | some f => (.ok (), (((w.setFile src none).setFile dst (some f)).place dst f).tock)
        | none => (.error .notFound, w.tock)
  | .removeFile p =>
      if fails then (.error .other, w.tock)
      else match w.disk p with
        | some _ => (.ok (), (w.setFile p none).tock)
        | none => (.error .notFound, w.tock)
  | .ksGet =>
      if fails then (.error .os, w.tock)
      else match w.keychain with
        | some key => (.ok key, w.tock)
        | none => (.error .notFound, w.tock)
  | .ksSet value =>
      if fails then (.error .os, w.tock)
      else (.ok (), { w with keychain := some value }.tock)
  | .ksDelete =>
      if fails then (.error .os, w.tock)
      else (.ok (), { w with keychain := none }.tock)
  | .randFill len => (env.bytes w.tick len, w.tock)
  | .randU64 => (env.suffix w.tick, w.tock)
  | .utcNow => (env.now w.tick, w.tock)
  | .sleep _ => ((), w.tock)

-- ============================================================================
-- Calls
-- ============================================================================

def pathExists (p : Path) : Io Bool := Prog.call (Cmd.pathExists p)
def readFile (p : Path) : Io (Except IoError Bytes) := Prog.call (Cmd.read p)
def createNew (p : Path) : Io (Except IoError Unit) := Prog.call (Cmd.createNew p)
def writeAll (p : Path) (data : Bytes) : Io (Except IoError Unit) := Prog.call (Cmd.writeAll p data)
def syncAll (p : Path) : Io (Except IoError Unit) := Prog.call (Cmd.syncAll p)
def setMode0600 (p : Path) : Io (Except IoError Unit) := Prog.call (Cmd.setMode0600 p)
def rename (src dst : Path) : Io (Except IoError Unit) := Prog.call (Cmd.rename src dst)
def createDirAll : Io (Except IoError Unit) := Prog.call Cmd.createDirAll
def ksGet : Io (Except SecureStoreError Bytes) := Prog.call Cmd.ksGet
def ksSet (value : Bytes) : Io (Except SecureStoreError Unit) := Prog.call (Cmd.ksSet value)
def ksDelete : Io (Except SecureStoreError Unit) := Prog.call Cmd.ksDelete
def randFill (len : Nat) : Io Bytes := Prog.call (Cmd.randFill len)
def randU64 : Io UInt64 := Prog.call Cmd.randU64
def utcNow : Io Time := Prog.call Cmd.utcNow
def sleep (secs : Nat) : Io Unit := Prog.call (Cmd.sleep secs)

/-- `let _ = fs::remove_file(p)`: the result is ignored. -/
def removeFile (p : Path) : Io Unit := do
  let _ ← (Prog.call (Cmd.removeFile p) : Io (Except IoError Unit))

-- ============================================================================
-- The view of a world
-- ============================================================================

/-- What the service can tell of a world: the files of the config directory,
    the remembered key, and what was put in place. -/
structure View where
  files : Name → Option Bytes
  keychain : Option Bytes
  placed : List (Name × Bytes)

def World.view (w : World) : View where
  files n := (w.disk (.file n)).map File.data
  keychain := w.keychain
  placed := w.placed

namespace View

/-- `data` renamed into place at `n`. -/
def put (v : View) (n : Name) (data : Bytes) : View :=
  { v with files := Function.update v.files n (some data), placed := v.placed ++ [(n, data)] }

/-- `data` written to the file `n` itself. -/
def write (v : View) (n : Name) (data : Bytes) : View :=
  { v with files := Function.update v.files n (some data) }

@[simp] theorem write_files_self (v : View) (n : Name) (data : Bytes) :
    (v.write n data).files n = some data := Function.update_self ..

@[simp] theorem write_files_ne (v : View) {n m : Name} (data : Bytes) (h : m ≠ n) :
    (v.write n data).files m = v.files m := Function.update_of_ne h ..

@[simp] theorem write_keychain (v : View) (n : Name) (data : Bytes) :
    (v.write n data).keychain = v.keychain := rfl

@[simp] theorem write_placed (v : View) (n : Name) (data : Bytes) :
    (v.write n data).placed = v.placed := rfl

def remove (v : View) (n : Name) : View := { v with files := Function.update v.files n none }

@[simp] theorem put_files_self (v : View) (n : Name) (data : Bytes) :
    (v.put n data).files n = some data := Function.update_self ..

@[simp] theorem put_files_ne (v : View) {n m : Name} (data : Bytes) (h : m ≠ n) :
    (v.put n data).files m = v.files m := Function.update_of_ne h ..

@[simp] theorem put_keychain (v : View) (n : Name) (data : Bytes) :
    (v.put n data).keychain = v.keychain := rfl

@[simp] theorem put_placed (v : View) (n : Name) (data : Bytes) :
    (v.put n data).placed = v.placed ++ [(n, data)] := rfl

@[simp] theorem remove_files_self (v : View) (n : Name) : (v.remove n).files n = none :=
  Function.update_self ..

@[simp] theorem remove_files_ne (v : View) {n m : Name} (h : m ≠ n) :
    (v.remove n).files m = v.files m := Function.update_of_ne h ..

@[simp] theorem remove_keychain (v : View) (n : Name) :
    (v.remove n).keychain = v.keychain := rfl

@[simp] theorem remove_placed (v : View) (n : Name) : (v.remove n).placed = v.placed := rfl

/-- Removing a file that is not there changes nothing. -/
theorem remove_of_none {v : View} {n : Name} (h : v.files n = none) : v.remove n = v := by
  unfold remove
  rw [← h, Function.update_eq_self]

end View

@[simp] theorem view_tock (w : World) : w.tock.view = w.view := rfl

/-- What happens to temp files and side files does not show. -/
theorem view_setFile_of_ne (w : World) {p : Path} (hp : ∀ n, p ≠ .file n) (f : Option File) :
    (w.setFile p f).view = w.view := by
  simp [World.view, World.setFile, Function.update_of_ne, (hp _).symm]

@[simp] theorem view_setFile_tmp (w : World) (n : Name) (s : UInt64) (f : Option File) :
    (w.setFile (.tmp n s) f).view = w.view := view_setFile_of_ne w (p := .tmp n s) nofun f

theorem view_setFile_none (w : World) (n : Name) :
    (w.setFile (.file n) none).view = w.view.remove n := by
  unfold World.view World.setFile View.remove
  congr 1
  funext m
  by_cases h : m = n
  · subst h; simp
  · simp [h]

theorem view_setFile_some (w : World) (n : Name) (f : File) :
    (w.setFile (.file n) (some f)).view = w.view.write n f.data := by
  unfold World.view World.setFile View.write
  congr 1
  funext m
  by_cases h : m = n
  · subst h; simp
  · simp [h]

/-- A temp file renamed into place. -/
theorem view_rename_tmp (w : World) (n m : Name) (s : UInt64) (f : File) :
    ((((w.setFile (.tmp m s) none).setFile (.file n) (some f)).place (.file n) f)).view
      = w.view.put n f.data := by
  unfold World.view World.setFile World.place View.put
  simp only
  congr 1
  funext k
  by_cases h : k = n
  · subst h; simp
  · simp [h]

-- ============================================================================
-- Specifications over views
-- ============================================================================

/-- From every world with view `v`, the view satisfies `I` at every point of
    `p`, and the answer and the last view satisfy `Q`. -/
def Spec {α : Type} (env : Env) (I : View → Prop) (p : Io α) (Q : α → View → Prop) (v : View) :
    Prop :=
  ∀ w : World, w.view = v → Prog.wp (exec env) (fun w => I w.view) (fun a w => Q a w.view) p w

section Rules

variable {env : Env} {I J : View → Prop} {α β : Type} {v : View}

theorem spec_pure {a : α} {Q : α → View → Prop} (hI : I v) (hQ : Q a v) :
    Spec env I (Pure.pure a) Q v := by
  rintro w rfl
  exact Prog.wp_pure hI hQ

theorem spec_mono {p : Io α} {Q Q' : α → View → Prop} (hI : ∀ v, I v → J v)
    (hQ : ∀ a v, I v → Q a v → Q' a v) (hp : Spec env I p Q v) : Spec env J p Q' v :=
  fun w hw => Prog.wp_mono (fun _ h => hI _ h) (fun _ _ h => hQ _ _ h) (hp w hw)

theorem spec_bind {p : Io α} {f : α → Io β} {Q : β → View → Prop}
    (hp : Spec env I p (fun a => Spec env I (f a) Q) v) : Spec env I (p >>= f) Q v :=
  fun w hw => Prog.wp_bind (Prog.wp_mono (fun _ h => h) (fun _ _ _ h => h _ rfl) (hp w hw))

theorem spec_except_bind {ε : Type} {x : ExceptT ε Io α} {f : α → ExceptT ε Io β}
    {Q : Except ε β → View → Prop}
    (hx : Spec env I x.run (fun r v => match r with
      | .ok a => Spec env I (f a).run Q v
      | .error e => Q (.error e) v) v) :
    Spec env I (x >>= f).run Q v := by
  refine fun w hw => Prog.wp_except_bind (Prog.wp_mono (fun _ h => h) ?_ (hx w hw))
  intro r w' _ hr
  cases r with
  | ok a => exact hr _ rfl
  | error e => exact hr

/-- Nothing need be known of a program on the disk to know how it ends. -/
theorem spec_any {p : Io α} {Q : α → View → Prop} (hQ : ∀ a v', Q a v') :
    Spec env (fun _ => True) p Q v :=
  fun _ _ => Prog.wp_iff.mpr ⟨fun _ => trivial, hQ _ _⟩

/-- Two facts about one program. -/
theorem spec_and {p : Io α} {Q Q' : α → View → Prop} (h : Spec env I p Q v)
    (h' : Spec env (fun _ => True) p Q' v) : Spec env I p (fun a v' => Q a v' ∧ Q' a v') v := by
  intro w hw
  obtain ⟨hI, hQ⟩ := Prog.wp_iff.mp (h w hw)
  exact Prog.wp_iff.mpr ⟨hI, hQ, Prog.wp_run (h' w hw)⟩

/-- What a specification says of a crash. -/
theorem spec_crash {p : Io α} {Q : α → View → Prop} {w : World} (hp : Spec env I p Q w.view)
    (n : Nat) : I (Prog.crashAt (exec env) n p w).view := Prog.wp_crash (hp w rfl) n

/-- What a specification says of a run to the end. -/
theorem spec_run {p : Io α} {Q : α → View → Prop} {w : World} (hp : Spec env I p Q w.view) :
    Q (Prog.run (exec env) p w).1 (Prog.run (exec env) p w).2.view := Prog.wp_run (hp w rfl)

/-- The crash condition holds at the end. -/
theorem spec_run_inv {p : Io α} {Q : α → View → Prop} {w : World} (hp : Spec env I p Q w.view) :
    I (Prog.run (exec env) p w).2.view :=
  spec_run (Q := fun _ v => I v) (spec_mono (fun _ h => h) (fun _ _ hI _ => hI) hp)

/-- One command, with a postcondition on worlds. -/
theorem wp_command {c : Cmd} {Q : c.Answer → World → Prop} {w : World} (hI : I w.view)
    (hI' : I (exec env c w).2.view) (hQ : Q (exec env c w).1 (exec env c w).2) :
    Prog.wp (exec env) (fun w => I w.view) Q (Prog.call c) w := ⟨hI, hI', hQ⟩

/-- One command, through what it does to every world with the view. -/
theorem spec_call {c : Cmd} {Q : c.Answer → View → Prop} (hI : I v)
    (h : ∀ w : World, w.view = v → I (exec env c w).2.view
      ∧ Q (exec env c w).1 (exec env c w).2.view) :
    Spec env I (Prog.call c) Q v := by
  rintro w rfl
  exact wp_command hI (h w rfl).1 (h w rfl).2

theorem spec_pathExists {n : Name} {Q : Bool → View → Prop} (hI : I v)
    (hQ : Q (v.files n).isSome v)
    (hfail : ∀ k, env.fails k (.pathExists (.file n)) = true → Q false v) :
    Spec env I (pathExists (.file n)) Q v := by
  refine spec_call hI ?_
  rintro w rfl
  refine ⟨hI, ?_⟩
  cases hf : env.fails w.tick (.pathExists (.file n)) with
  | true => simpa [exec, hf] using hfail _ hf
  | false =>
    have hsome : (w.disk (.file n)).isSome = (w.view.files n).isSome := by simp [World.view]
    simpa [exec, hf, hsome] using hQ

theorem spec_readFile {n : Name} {Q : Except IoError Bytes → View → Prop} (hI : I v)
    (hok : ∀ data, v.files n = some data → Q (.ok data) v)
    (hnone : v.files n = none → Q (.error .notFound) v)
    (hfail : ∀ k, env.fails k (.read (.file n)) = true → Q (.error .other) v) :
    Spec env I (readFile (.file n)) Q v := by
  refine spec_call hI ?_
  rintro w rfl
  cases hf : env.fails w.tick (.read (.file n)) with
  | true => simpa [exec, hf] using ⟨hI, hfail _ hf⟩
  | false =>
    cases hd : w.disk (.file n) with
    | none => simpa [exec, hf, hd] using ⟨hI, hnone (by simp [World.view, hd])⟩
    | some f => simpa [exec, hf, hd] using ⟨hI, hok f.data (by simp [World.view, hd])⟩

theorem spec_removeFile {n : Name} {Q : Unit → View → Prop} (hI : I v) (hI' : I (v.remove n))
    (hok : Q () (v.remove n))
    (hfail : ∀ k, env.fails k (.removeFile (.file n)) = true → Q () v) :
    Spec env I (removeFile (.file n)) Q v := by
  refine spec_bind (spec_call (c := .removeFile (.file n)) hI ?_)
  rintro w rfl
  cases hf : env.fails w.tick (.removeFile (.file n)) with
  | true => simpa [exec, hf] using ⟨hI, spec_pure hI (hfail _ hf)⟩
  | false =>
    cases hd : w.disk (.file n) with
    | none =>
      rw [View.remove_of_none (by simp [World.view, hd])] at hok
      simpa [exec, hf, hd] using ⟨hI, spec_pure hI hok⟩
    | some f =>
      simpa [exec, hf, hd, view_setFile_none] using ⟨hI', spec_pure hI' hok⟩

/-- Removing a temp file or a side file does not show. -/
theorem spec_removeFile_of_ne {p : Path} (hp : ∀ n, p ≠ .file n) {Q : Unit → View → Prop}
    (hI : I v) (hQ : Q () v) : Spec env I (removeFile p) Q v := by
  refine spec_bind (spec_call (c := .removeFile p) hI ?_)
  rintro w rfl
  have hview : (exec env (.removeFile p) w).2.view = w.view := by
    simp only [exec]
    split
    · rfl
    · split <;> simp [view_setFile_of_ne w hp]
  rw [hview]
  exact ⟨hI, spec_pure hI hQ⟩

/-- Creating a file in place, as opposed to renaming it there. -/
theorem spec_createNew {n : Name} {Q : Except IoError Unit → View → Prop} (hI : I v)
    (hI' : I (v.write n [])) (hok : Q (.ok ()) (v.write n []))
    (hfail : ∀ k, env.fails k (.createNew (.file n)) = true → Q (.error .other) v) :
    Spec env I (createNew (.file n)) Q v := by
  refine spec_call hI ?_
  rintro w rfl
  cases hf : env.fails w.tick (.createNew (.file n)) with
  | true => simpa [exec, hf] using ⟨hI, hfail _ hf⟩
  | false => simpa [exec, hf, view_setFile_some] using ⟨hI', hok⟩

theorem spec_writeAll {n : Name} {old data : Bytes} {Q : Except IoError Unit → View → Prop}
    (hI : I v) (hn : v.files n = some old) (hI' : I (v.write n data))
    (hok : Q (.ok ()) (v.write n data))
    (hfail : ∀ k, env.fails k (.writeAll (.file n) data) = true → Q (.error .other) v) :
    Spec env I (writeAll (.file n) data) Q v := by
  refine spec_call hI ?_
  rintro w rfl
  cases hf : env.fails w.tick (.writeAll (.file n) data) with
  | true => simpa [exec, hf] using ⟨hI, hfail _ hf⟩
  | false =>
    cases hd : w.disk (.file n) with
    | none => simp [World.view, hd] at hn
    | some f => simpa [exec, hf, hd, view_setFile_some] using ⟨hI', hok⟩

theorem spec_writeAll_missing {n : Name} {data : Bytes} {Q : Except IoError Unit → View → Prop}
    (hI : I v) (hn : v.files n = none) (hQ : ∀ e, Q (.error e) v) :
    Spec env I (writeAll (.file n) data) Q v := by
  refine spec_call hI ?_
  rintro w rfl
  cases hf : env.fails w.tick (.writeAll (.file n) data) with
  | true => simpa [exec, hf] using ⟨hI, hQ _⟩
  | false =>
    have hd : w.disk (.file n) = none := by simpa [World.view] using hn
    simpa [exec, hf, hd] using ⟨hI, hQ _⟩

theorem spec_createDirAll {Q : Except IoError Unit → View → Prop} (hI : I v) (hok : Q (.ok ()) v)
    (hfail : ∀ k, env.fails k .createDirAll = true → Q (.error .other) v) :
    Spec env I createDirAll Q v := by
  refine spec_call hI ?_
  rintro w rfl
  cases hf : env.fails w.tick .createDirAll with
  | true => simpa [exec, hf] using ⟨hI, hfail _ hf⟩
  | false => simpa [exec, hf] using ⟨hI, hok⟩

theorem spec_ksGet {Q : Except SecureStoreError Bytes → View → Prop} (hI : I v)
    (hok : ∀ key, v.keychain = some key → Q (.ok key) v)
    (herr : ∀ e, v.keychain = none ∨ (∃ k, env.fails k .ksGet = true) → Q (.error e) v) :
    Spec env I ksGet Q v := by
  refine spec_call hI ?_
  rintro w rfl
  cases hf : env.fails w.tick .ksGet with
  | true => simpa [exec, hf] using ⟨hI, herr _ (.inr ⟨_, hf⟩)⟩
  | false =>
    cases hk : w.keychain with
    | none => simpa [exec, hf, hk] using ⟨hI, herr _ (.inl hk)⟩
    | some key => simpa [exec, hf, hk] using ⟨hI, hok key hk⟩

theorem spec_ksSet {value : Bytes} {Q : Except SecureStoreError Unit → View → Prop} (hI : I v)
    (hI' : I { v with keychain := some value })
    (hok : Q (.ok ()) { v with keychain := some value })
    (hfail : ∀ k, env.fails k (.ksSet value) = true → Q (.error .os) v) :
    Spec env I (ksSet value) Q v := by
  refine spec_call hI ?_
  rintro w rfl
  cases hf : env.fails w.tick (.ksSet value) with
  | true => simpa [exec, hf] using ⟨hI, hfail _ hf⟩
  | false => simpa [exec, hf] using ⟨hI', hok⟩

theorem spec_ksDelete {Q : Except SecureStoreError Unit → View → Prop} (hI : I v)
    (hI' : I { v with keychain := none }) (hok : Q (.ok ()) { v with keychain := none })
    (hfail : ∀ k, env.fails k .ksDelete = true → Q (.error .os) v) :
    Spec env I ksDelete Q v := by
  refine spec_call hI ?_
  rintro w rfl
  cases hf : env.fails w.tick .ksDelete with
  | true => simpa [exec, hf] using ⟨hI, hfail _ hf⟩
  | false => simpa [exec, hf] using ⟨hI', hok⟩

theorem spec_randFill {len : Nat} {Q : Bytes → View → Prop} (hI : I v)
    (hQ : ∀ k, Q (env.bytes k len) v) : Spec env I (randFill len) Q v := by
  refine spec_call hI ?_
  rintro w rfl
  exact ⟨hI, hQ w.tick⟩

theorem spec_randU64 {Q : UInt64 → View → Prop} (hI : I v) (hQ : ∀ s, Q s v) :
    Spec env I randU64 Q v := by
  refine spec_call hI ?_
  rintro w rfl
  exact ⟨hI, hQ _⟩

theorem spec_utcNow {Q : Time → View → Prop} (hI : I v) (hQ : ∀ k, Q (env.now k) v) :
    Spec env I utcNow Q v := by
  refine spec_call hI ?_
  rintro w rfl
  exact ⟨hI, hQ w.tick⟩

theorem spec_sleep {secs : Nat} {Q : Unit → View → Prop} (hI : I v) (hQ : Q () v) :
    Spec env I (sleep secs) Q v := by
  refine spec_call hI ?_
  rintro w rfl
  exact ⟨hI, hQ⟩

end Rules
end GnDrive
