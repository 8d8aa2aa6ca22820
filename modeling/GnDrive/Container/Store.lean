/-
  GnDrive.Container.Store

  The open database while the password is changed.

  The data plane holds one SQLite connection (`database.rs`), in WAL mode: a
  commit is appended to `gn-drive.db-wal`, and a checkpoint or the last close
  moves it into `gn-drive.db`.  The connection has the two files open, so it
  goes on writing to them when their names are gone.

  `auth_lock` and `auth_remove_password` close the data plane before the auth
  service touches the files (`before_lock`); `auth_change_password` does not.
  The service then encrypts `gn-drive.db` without its log, removes both
  files, and decrypts the copy to a new file.  What was only in the log, and
  everything the connection commits from then on, is not in that file.
  `committed_kept` says that nothing else loses a write.
-/

import GnDrive.Auth.Accepted
import GnDrive.Container.Recovery

namespace GnDrive.Container

open Auth
open Crypto (Sealed opens)
open Relation (ReflTransGen)

/-- What SQLite keeps in a database file and in its log: the writes, in the
    order of their commits.  Reading a log stops at the first frame that does
    not check; a database file is never empty. -/
structure Sqlite (Row : Type) where
  page : List Row → Bytes
  pageOf : Bytes → Option (List Row)
  frames : List Row → Bytes
  framesOf : Bytes → List Row
  pageOf_page : ∀ l, pageOf (page l) = some l
  framesOf_frames : ∀ l, framesOf (frames l) = l
  page_ne_nil : ∀ l, page l ≠ []

/-- The path of `gn-drive.db-wal`. -/
def walPath : Path := .wal .gnDriveDb

/-- The files a connection has open. -/
structure Conn where
  db : Nat
  wal : Nat

/-- The auth service next to the open data plane.  `committed` are the writes
    the store has reported as committed. -/
structure Plane (Row : Type) where
  world : World
  state : State
  conn : Conn
  committed : List Row

/-- Requests that reach the dispatcher, and checkpoints, which SQLite makes on
    its own. -/
inductive StoreEvent (Row : Type) where
  | write (x : Row)
  | checkpoint
  | changePassword (old new : String)

def hasIno (w : World) (p : Path) (ino : Nat) : Bool := (w.disk p).any fun f => f.ino == ino

/-- The connection's files are the ones at their paths.  `change_password`
    takes both away in one round. -/
def attached {Row : Type} (p : Plane Row) : Bool :=
  hasIno p.world (.file dbName) p.conn.db && hasIno p.world walPath p.conn.wal

/-- Write through an open file that is still at its path. -/
def overwrite (w : World) (p : Path) (data : Bytes) : World :=
  match w.disk p with
  | some f => w.setFile p (some { f with data := data })
  | none => w

section

variable {Row : Type} (Q : Sqlite Row) (X : Crates) (keyStore : Bool) (env : Env)

/-- The writes in the log at its path. -/
def walRows (w : World) : List Row :=
  match w.disk walPath with
  | some f => Q.framesOf f.data
  | none => []

/-- The writes in the database file at its path. -/
def dbRows (w : World) : Option (List Row) := (w.disk (.file dbName)).bind fun f => Q.pageOf f.data

/-- `Database::open` at the config path: the file and what its log adds. -/
def reopened (w : World) : Option (List Row) := (dbRows Q w).map (· ++ walRows Q w)

def commit (x : Row) (p : Plane Row) : Plane Row :=
  { p with
    world := if attached p then overwrite p.world walPath (Q.frames (walRows Q p.world ++ [x]))
      else p.world
    committed := p.committed ++ [x] }

/-- Move the log into the database. -/
def checkpoint (p : Plane Row) : Plane Row :=
  if attached p then
    match reopened Q p.world with
    | some rows =>
        { p with world :=
            overwrite (overwrite p.world (.file dbName) (Q.page rows)) walPath (Q.frames []) }
    | none => p
  else p

/-- `Database::close`: the last connection checkpoints and removes the log. -/
def closeStore (p : Plane Row) : World :=
  if attached p then (checkpoint Q p).world.setFile walPath none else p.world

/-- `auth_change_password`. -/
def authChangePassword (old new : String) (p : Plane Row) : Plane Row :=
  let r := runAuth env (changePassword X keyStore old new) p.state p.world
  { p with state := r.1.2, world := r.2 }

def storeStep (p : Plane Row) : StoreEvent Row → Plane Row
  | .write x => commit Q x p
  | .checkpoint => checkpoint Q p
  | .changePassword old new => authChangePassword X keyStore env old new p

/-- A plane just opened: nothing is encrypted, and the connection has the
    files at their paths open. -/
def Opened (p : Plane Row) : Prop :=
  (∀ f, p.world.view.files (.enc f) = none) ∧
    (∃ rows, p.world.view.files dbName = some (Q.page rows)) ∧ attached p = true ∧
    p.committed = []

def storeSystem : System (Plane Row) (StoreEvent Row) where
  init := Opened Q
  step p e := some (storeStep Q X keyStore env p e)

/-- The request passes the checks of `change_password` and the remembered key
    can be forgotten. -/
def accepts (old new : String) (p : Plane Row) : Bool :=
  p.state.authData.enabled && p.state.unlocked &&
    Argon2id.verify X.argon2 old p.state.authData.passwordHash && !decide (new.length < 4) &&
    !(keyStore && env.fails p.world.tick .ksDelete)

/-- A write finds the connection's files at their paths; a password change
    that goes ahead finds the log empty, and `rclone.conf` not empty. -/
def Quiet (p : Plane Row) : StoreEvent Row → Prop
  | .write _ => attached p = true
  | .checkpoint => True
  | .changePassword old new => accepts X keyStore env old new p = true →
      walRows Q p.world = [] ∧ p.world.view.files (.plain .rcloneConf) ≠ some []

end

-- ============================================================================
-- Files at their paths
-- ============================================================================

section

variable {w : World} {p : Path} {data : Bytes}

theorem overwrite_self (h : (w.disk p).isSome) :
    ((overwrite w p data).disk p).map File.data = some data := by
  obtain ⟨f, hf⟩ := Option.isSome_iff_exists.mp h
  simp [overwrite, hf, World.setFile]

theorem overwrite_ne {q : Path} (h : q ≠ p) : (overwrite w p data).disk q = w.disk q := by
  unfold overwrite
  split
  · simp [World.setFile, h]
  · rfl

@[simp] theorem view_overwrite_wal : (overwrite w walPath data).view = w.view := by
  unfold overwrite
  split
  · exact view_setFile_of_ne w (p := walPath) nofun _
  · rfl

theorem view_overwrite_file {n : Name} (h : (w.disk (.file n)).isSome) :
    (overwrite w (.file n) data).view = w.view.write n data := by
  obtain ⟨f, hf⟩ := Option.isSome_iff_exists.mp h
  rw [overwrite, hf]
  exact view_setFile_some ..

variable {Row : Type} {Q : Sqlite Row}

theorem dbRows_of_view {rows : List Row} (h : w.view.files dbName = some (Q.page rows)) :
    dbRows Q w = some rows := by
  obtain ⟨f, hf, hdata⟩ : ∃ f, w.disk (.file dbName) = some f ∧ f.data = Q.page rows :=
    Option.map_eq_some_iff.mp h
  simp [dbRows, hf, hdata, Q.pageOf_page]

theorem walRows_congr {w' : World} (h : w'.disk walPath = w.disk walPath) :
    walRows Q w' = walRows Q w := by
  unfold walRows
  rw [h]

theorem walRows_overwrite {rows : List Row} (h : (w.disk walPath).isSome) :
    walRows Q (overwrite w walPath (Q.frames rows)) = rows := by
  have hself : ((overwrite w walPath (Q.frames rows)).disk walPath).map File.data
      = some (Q.frames rows) := overwrite_self h
  obtain ⟨f, hf, hdata⟩ := Option.map_eq_some_iff.mp hself
  simp [walRows, hf, hdata, Q.framesOf_frames]

theorem attached_isSome {pl : Plane Row} (h : attached pl = true) :
    (pl.world.disk (.file dbName)).isSome ∧ (pl.world.disk walPath).isSome := by
  unfold attached hasIno at h
  revert h
  cases pl.world.disk (.file dbName) <;> cases pl.world.disk walPath <;> simp

end

-- ============================================================================
-- What the password change does to the database
-- ============================================================================

section

variable {env : Env} {X : Crates} {keyStore : Bool} {v : View} {s : State}

/-- Without empty config files, a password change gives every file back. -/
theorem auth_changePassword_restores {old new : String} (henv : env.NoFaults)
    (henc : ∀ f, v.files (.enc f) = none) (hne : ∀ f, v.files (.plain f) ≠ some []) :
    ASpec env (fun _ => True) (changePassword X keyStore old new) (fun _ _ v' =>
      ∀ f, Same v v' f) s v := by
  refine auth_changePassword trivial (fun _ => Same.refl v)
    (fun _ => ⟨trivial, fun _ _ => ⟨rfl, rfl⟩⟩) ?_
  intro _ _ _ v₁ hv₁ hash salt key _ hstored _
  have hsame : ∀ f, Same v v₁ f := by
    rcases hv₁ with ⟨-, rfl⟩ | ⟨-, rfl⟩
    · exact Same.refl v₁
    · exact fun _ => ⟨rfl, rfl⟩
  have hkept : Kept X.aead key (fun f => v.files (.plain f)) v₁ := by
    refine Kept.of_same ⟨fun hp => hp, fun he => ?_, fun hc => .inl ?_⟩ hsame
    · rw [henc] at he; cases he
    · rw [hc]; rfl
  refine auth_reencrypt hstored.key_length (fun _ _ => trivial) (fun e v₂ _ hpost => ?_) ?_
  · cases (hpost.all henv).1
  intro v₂ hs hpost
  have hdec : ∀ {d r v'}, ReflTransGen (DecStep X.aead key) (saved X v₂ d) v' →
      DecPost env X.aead key (saved X v₂ d) r v' → ∀ f, Same v v' f := by
    intro d r v' hs' hpost'
    have hall := hpost'.all henv
    have hkept₂ : Kept X.aead key (fun f => v.files (.plain f)) (saved X v₂ d) :=
      (hkept.encSteps hs).saved X d
    cases r with
    | ok u =>
      intro f
      exact ⟨(hkept₂.decSteps hs').plain_eq (hall f).1, (hall f).1.trans (henc f).symm⟩
    | error e =>
      obtain ⟨f, blob, hblob, ho⟩ := hall
      obtain ⟨p, hc, hsealed⟩ := hkept₂.enc hblob
      rw [hsealed.opens_eq hstored.key_length fun hp => hne f (hp ▸ hc)] at ho
      cases ho
  exact auth_commitChange trivial rfl
    (fun hf => absurd hf (not_faulty henv fun _ => onFiles_of_saveCmd)) trivial
    (fun _ _ => trivial) (fun _ _ hs' hp => hdec hs' hp) fun _ hs' hp => hdec hs' hp

variable {Row : Type} {p : Plane Row}

/-- A request that is turned away touches no file. -/
theorem authChangePassword_refused {old new : String}
    (h : accepts X keyStore env old new p = false) :
    (authChangePassword X keyStore env old new p).world.disk = p.world.disk := by
  have hget : ∀ {k : State → AuthM Unit} {w}, runAuth env (get >>= k) p.state w =
      runAuth env (k p.state) p.state w := rfl
  have hreject : ∀ {c e} {k : Unit → AuthM Unit} {w}, runAuth env (AuthM.reject c e >>= k) p.state w =
      if c then ((.error e, p.state), w) else runAuth env (k ()) p.state w := by
    intro c e k w
    cases c <;> rfl
  have hforget : ∀ {k : Unit → AuthM Unit}, (keyStore && env.fails p.world.tick .ksDelete) = true →
      (runAuth env (AuthM.attempt (forgetRememberedKey keyStore) >>= k) p.state p.world).2.disk
        = p.world.disk := by
    intro k hf
    obtain ⟨rfl, hfail⟩ := Bool.and_eq_true_iff.mp hf
    have hexec : exec env .ksDelete p.world = (.error .os, p.world.tock) := by
      simp [exec, hfail]
    change (Prog.run (exec env) _ (exec env .ksDelete p.world).2).2.disk = _
    rw [hexec]
    rfl
  unfold accepts at h
  change (runAuth env (changePassword X keyStore old new) p.state p.world).2.disk = p.world.disk
  unfold changePassword
  simp only [hget, hreject]
  split_ifs with hen hu hver hlen
  · rfl
  · rfl
  · rfl
  · rfl
  · exact hforget (by simp_all)

-- ============================================================================
-- Every committed write
-- ============================================================================

/-- Nothing is encrypted, and every committed write is in the database file at
    its path or in the log beside it. -/
structure Stored (Q : Sqlite Row) (p : Plane Row) : Prop where
  enc : ∀ f, p.world.view.files (.enc f) = none
  db : ∃ rows, p.world.view.files dbName = some (Q.page rows) ∧
    ∀ x ∈ p.committed, x ∈ rows ++ walRows Q p.world

variable {Q : Sqlite Row}

theorem Stored.commit (h : Stored Q p) (hatt : attached p = true) (x : Row) :
    Stored Q (commit Q x p) := by
  obtain ⟨rows, hdb, hall⟩ := h.db
  have hrows : walRows Q (overwrite p.world walPath (Q.frames (walRows Q p.world ++ [x])))
      = walRows Q p.world ++ [x] := walRows_overwrite (attached_isSome hatt).2
  refine ⟨fun f => ?_, rows, ?_, fun y hy => ?_⟩
  · simpa [Container.commit, hatt] using h.enc f
  · simpa [Container.commit, hatt] using hdb
  · have hy' : y ∈ p.committed ∨ y = x := by simpa [Container.commit] using hy
    have hmem : y ∈ rows ++ (walRows Q p.world ++ [x]) := by
      rcases hy' with hy' | rfl
      · have := hall y hy'
        rw [← List.append_assoc]
        exact List.mem_append_left _ this
      · simp
    simpa [Container.commit, hatt, hrows] using hmem

/-- A checkpoint of an attached connection moves the log into the database. -/
theorem checkpoint_world {rows : List Row} (hatt : attached p = true)
    (hdb : p.world.view.files dbName = some (Q.page rows)) :
    (checkpoint Q p).world.view
      = p.world.view.write dbName (Q.page (rows ++ walRows Q p.world)) ∧
    walRows Q (checkpoint Q p).world = [] ∧ (checkpoint Q p).committed = p.committed := by
  obtain ⟨hdisk, hwal⟩ := attached_isSome hatt
  have hre : reopened Q p.world = some (rows ++ walRows Q p.world) := by
    simp [reopened, dbRows_of_view hdb]
  have heq : checkpoint Q p = { p with world := overwrite (overwrite p.world (.file dbName)
      (Q.page (rows ++ walRows Q p.world))) walPath (Q.frames []) } := by
    simp [checkpoint, hatt, hre]
  rw [heq]
  refine ⟨?_, ?_, rfl⟩
  · rw [view_overwrite_wal, view_overwrite_file hdisk]
  · refine walRows_overwrite ?_
    rw [overwrite_ne (by simp [walPath])]
    exact hwal

theorem Stored.checkpoint (h : Stored Q p) : Stored Q (checkpoint Q p) := by
  obtain ⟨rows, hdb, hall⟩ := h.db
  cases hatt : attached p with
  | false => simpa [Container.checkpoint, hatt] using h
  | true =>
    obtain ⟨hview, hwal, hcom⟩ := checkpoint_world hatt hdb
    refine ⟨fun f => ?_, rows ++ walRows Q p.world, ?_, fun x hx => ?_⟩
    · rw [hview]
      simpa [dbName] using h.enc f
    · rw [hview]
      exact View.write_files_self ..
    · rw [hwal, List.append_nil]
      exact hall x (hcom ▸ hx)

theorem Stored.changePassword (h : Stored Q p) (henv : env.NoFaults) {old new : String}
    (hq : Quiet Q X keyStore env p (.changePassword old new)) :
    Stored Q (authChangePassword X keyStore env old new p) := by
  obtain ⟨rows, hdb, hall⟩ := h.db
  cases hacc : accepts X keyStore env old new p with
  | false =>
    have hdisk := authChangePassword_refused hacc
    have hview : (authChangePassword X keyStore env old new p).world.view.files
        = p.world.view.files := by
      unfold World.view
      rw [hdisk]
    refine ⟨by rw [hview]; exact h.enc, rows, by rw [hview]; exact hdb, fun x hx => ?_⟩
    rw [walRows_congr (congrFun hdisk walPath)]
    exact hall x hx
  | true =>
    obtain ⟨hwal, hconf⟩ := hq hacc
    have hne : ∀ f, p.world.view.files (.plain f) ≠ some [] := by
      intro f
      cases f with
      | rcloneConf => exact hconf
      | gnDriveDb =>
        intro he
        exact Q.page_ne_nil rows (Option.some.inj (hdb.symm.trans he))
    have hsame : ∀ f, Same p.world.view (authChangePassword X keyStore env old new p).world.view f :=
      auth_run (auth_changePassword_restores henv h.enc hne)
    refine ⟨fun f => (hsame f).2.trans (h.enc f), rows, (hsame .gnDriveDb).1.trans hdb,
      fun x hx => ?_⟩
    -- the log was empty, so the database file had everything
    have hx' : x ∈ rows ++ walRows Q p.world := hall x hx
    rw [hwal, List.append_nil] at hx'
    exact List.mem_append_left _ hx'

/-- After a close, the database file has what it and its log had before. -/
theorem Stored.reopened (h : Stored Q p) :
    ∃ rows, reopened Q (closeStore Q p) = some rows ∧ ∀ x ∈ p.committed, x ∈ rows := by
  obtain ⟨rows, hdb, hall⟩ := h.db
  refine ⟨rows ++ walRows Q p.world, ?_, hall⟩
  cases hatt : attached p with
  | false => simp [closeStore, hatt, Container.reopened, dbRows_of_view hdb]
  | true =>
    obtain ⟨hview, -, -⟩ := checkpoint_world hatt hdb
    have hclosed : (closeStore Q p).view
        = p.world.view.write dbName (Q.page (rows ++ walRows Q p.world)) := by
      rw [closeStore, if_pos hatt, view_setFile_of_ne _ (p := walPath) nofun, hview]
    have hdb' : dbRows Q (closeStore Q p) = some (rows ++ walRows Q p.world) := by
      refine dbRows_of_view ?_
      rw [hclosed]
      exact View.write_files_self ..
    have hwal : walRows Q (closeStore Q p) = [] := by
      simp [walRows, closeStore, hatt, World.setFile]
    simp [Container.reopened, hdb', hwal]

theorem Opened.stored (h : Opened Q p) : Stored Q p := by
  obtain ⟨henc, ⟨rows, hdb⟩, -, hcom⟩ := h
  exact ⟨henc, rows, hdb, by simp [hcom]⟩

/-- In every run in which no write comes after a password change that went
    ahead, and none of these finds something in the log or an empty
    `rclone.conf`, every committed write is in the database once the store is
    closed and the file reopened. -/
theorem committed_kept {Row : Type} {Q : Sqlite Row} {X : Crates} {keyStore : Bool} {env : Env}
    {p : Plane Row} (henv : env.NoFaults)
    (h : (storeSystem Q X keyStore env).ReachableIf (Quiet Q X keyStore env) p) :
    ∃ rows, reopened Q (closeStore Q p) = some rows ∧ ∀ x ∈ p.committed, x ∈ rows := by
  have hinv : Stored Q p := by
    refine System.ReachableIf.invariant (P := Stored Q) (fun _ hi => Opened.stored hi) ?_ h
    intro p e p' hp hq hs
    obtain rfl := Option.some.inj hs
    cases e with
    | write x => exact hp.commit hq x
    | checkpoint => exact hp.checkpoint
    | changePassword old new => exact hp.changePassword henv hq
  exact hinv.reopened

end

/-- A database file is a tag byte and the writes, a log is the writes. -/
def sampleSqlite : Sqlite UInt8 where
  page l := 0 :: l
  pageOf bytes := bytes.tail?
  frames l := l
  framesOf l := l
  pageOf_page _ := rfl
  framesOf_frames _ := rfl
  page_ne_nil _ := nofun

/-- A service that is set up and open, in front of a new database. -/
def samplePlane : Plane UInt8 where
  world := { Sample.world (fun _ => none) none with
    disk := fun
      | .file (.plain .gnDriveDb) => some ⟨1, [0]⟩
      | .wal .gnDriveDb => some ⟨2, []⟩
      | _ => none
    tick := 3 }
  state := ⟨true, some (Sample.keyOf "secret" 1), Sample.authData "secret" 1, none⟩
  conn := ⟨1, 2⟩
  committed := []

theorem samplePlane_opened : Opened sampleSqlite samplePlane := by
  refine ⟨fun f => ?_, ⟨[], rfl⟩, rfl, rfl⟩
  cases f <;> rfl

/-- A change of its password goes ahead. -/
theorem samplePlane_changes {p : Plane UInt8} (h : p.state = samplePlane.state) :
    authChangePassword Sample.crates true (Sample.env 1) "secret" "topsecret" p =
      let r := runAuth (Sample.env 1) (changeTo Sample.crates true "topsecret") samplePlane.state
        p.world
      { p with state := r.1.2, world := r.2 } := by
  unfold authChangePassword runAuth
  rw [h, changePassword_checked rfl rfl (Sample.storedKey "secret" 1)
    (Sample.deriveKey_eq "secret" 1)]

/-- A write that was checkpointed before the password change is kept. -/
theorem committed_kept_checkpointed :
    ∃ p, (storeSystem sampleSqlite Sample.crates true (Sample.env 1)).runFrom samplePlane
        [.write 7, .checkpoint, .changePassword "secret" "topsecret"] = some p ∧
      ∃ rows, reopened sampleSqlite (closeStore sampleSqlite p) = some rows ∧
        ∀ x ∈ p.committed, x ∈ rows := by
  have hwrite : Quiet sampleSqlite Sample.crates true (Sample.env 1) samplePlane (.write 7) := rfl
  have hcheckpoint : Quiet sampleSqlite Sample.crates true (Sample.env 1)
      (commit sampleSqlite 7 samplePlane) .checkpoint := trivial
  have hchange : Quiet sampleSqlite Sample.crates true (Sample.env 1)
      (checkpoint sampleSqlite (commit sampleSqlite 7 samplePlane))
      (.changePassword "secret" "topsecret") := fun _ => ⟨rfl, nofun⟩
  have hrun : (storeSystem sampleSqlite Sample.crates true (Sample.env 1)).ReachableIf
      (Quiet sampleSqlite Sample.crates true (Sample.env 1)) _ :=
    .step (.step (.step (.init samplePlane_opened) hwrite rfl) hcheckpoint rfl) hchange rfl
  exact ⟨_, rfl, committed_kept (Sample.env_noFaults 1) hrun⟩

/-- A write after a password change is not in the file, and neither is one
    before it that was only in the log. -/
theorem committed_lost :
    Opened sampleSqlite samplePlane ∧
    (∃ p, (storeSystem sampleSqlite Sample.crates true (Sample.env 1)).runFrom samplePlane
        [.changePassword "secret" "topsecret", .write 9] = some p ∧
      p.committed = [9] ∧ reopened sampleSqlite (closeStore sampleSqlite p) = some []) ∧
    ∃ p, (storeSystem sampleSqlite Sample.crates true (Sample.env 1)).runFrom samplePlane
        [.write 7, .changePassword "secret" "topsecret"] = some p ∧
      p.committed = [7] ∧ reopened sampleSqlite (closeStore sampleSqlite p) = some [] := by
  refine ⟨samplePlane_opened, ⟨_, rfl, rfl, ?_⟩, _, rfl, rfl, ?_⟩
  · show reopened sampleSqlite (closeStore sampleSqlite (commit sampleSqlite 9
      (authChangePassword Sample.crates true (Sample.env 1) "secret" "topsecret" samplePlane))) = _
    rw [samplePlane_changes rfl]
    decide +kernel
  · show reopened sampleSqlite (closeStore sampleSqlite (authChangePassword Sample.crates true
      (Sample.env 1) "secret" "topsecret" (commit sampleSqlite 7 samplePlane))) = _
    rw [samplePlane_changes (p := commit sampleSqlite 7 samplePlane) rfl]
    decide +kernel

end GnDrive.Container
