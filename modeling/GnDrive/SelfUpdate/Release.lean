/-
  GnDrive.SelfUpdate.Release

  The update from a release (`self_update.rs`): fetch the latest release, pick the
  archive and its checksum, download, verify, extract, swap the binary.

  The server, the file system and the archive tools are a world of commands
  (`GnDrive.Lib.Prog`).  `Env` holds what the environment decides: the answers of the
  server, what the tools leave behind, which calls fail.
-/

import GnDrive.Lib.Prog
import GnDrive.Crates
import GnDrive.Lib.Text
import GnDrive.Rclone.Options
import GnDrive.SelfUpdate.Version
import Mathlib

namespace GnDrive.SelfUpdate

open Rclone (toText)
open Text (endsWith splitWhitespace trim)

-- ============================================================================
-- The world
-- ============================================================================

structure HttpResponse where
  status : Int
  body : Bytes

/-- A regular file and the low bits of its mode. -/
structure File where
  data : Bytes
  mode : Nat
deriving DecidableEq

abbrev Files := Text → Option File

inductive Cmd where
  | get (url : Text) (headers : List (Text × Text)) (timeout : Nat)
  | log (line : Text)
  | createStage (stem : Text)
  | write (p : Text) (data : Bytes)
  | runTool (tool : Text) (args : List Text)
  | isFile (p : Text)
  | readDir (p : Text)
  | isExecutable (p : Text)
  | currentExe
  | canonicalize (p : Text)
  | setMode (p : Text) (mode : Nat)
  | removeFile (p : Text)
  | copy (src dst : Text)
  | rename (src dst : Text)
  | removeDirAll (p : Text)

/-- A tool answers with its exit code, none where a signal has ended it. -/
abbrev Cmd.Answer : Cmd → Type
  | .get .. => Except Text HttpResponse
  | .log _ => Unit
  | .createStage _ | .currentExe => Except Text Text
  | .runTool .. => Except Text (Option Int)
  | .isFile _ | .isExecutable _ => Bool
  | .readDir _ => Except Text (List Text)
  | .canonicalize _ => Option Text
  | .write .. | .setMode .. | .removeFile _ | .copy .. | .rename .. | .removeDirAll _ =>
      Except Text Unit

abbrev Io := Prog Cmd Cmd.Answer

/-- What the environment decides at the `n`-th command: which call fails and how, how
    much of a file a failing write has written (none: it was not opened), and the
    answers that come from outside. -/
structure Env where
  fails : Nat → Cmd → Option Text
  written : Nat → Option Nat
  respond : Nat → Text → List (Text × Text) → Except Text HttpResponse
  stage : Nat → Text → Text
  tool : Nat → Text → List Text → Files → Except Text (Option Int) × Files
  entries : Nat → Text → List Text
  exe : Text
  canonical : Nat → Text → Option Text

structure World where
  files : Files
  printed : List Text
  tick : Nat

namespace World

def tock (w : World) : World := { w with tick := w.tick + 1 }

def setFile (w : World) (p : Text) (f : Option File) : World :=
  { w with files := Function.update w.files p f }

@[simp] theorem files_tock (w : World) : w.tock.files = w.files := rfl

@[simp] theorem files_setFile_self (w : World) (p : Text) (f : Option File) :
    (w.setFile p f).files p = f :=
  Function.update_self ..

theorem files_setFile_of_ne (w : World) {p q : Text} (f : Option File) (h : q ≠ p) :
    (w.setFile p f).files q = w.files q :=
  Function.update_of_ne h ..

end World

def noSuchFile : Text := "No such file or directory (os error 2)".toList

/-- A write of `data` to `p` that may end early. -/
def put (env : Env) (error : Option Text) (p : Text) (f : File) (w : World) :
    Except Text Unit × World :=
  match error, env.written w.tick with
  | none, _ => (.ok (), (w.setFile p (some f)).tock)
  | some e, none => (.error e, w.tock)
  | some e, some n => (.error e, (w.setFile p (some { f with data := f.data.take n })).tock)

/-- The meaning of the commands. -/
def exec (env : Env) (c : Cmd) (w : World) : c.Answer × World :=
  let error := env.fails w.tick c
  match c with
  | .get url headers _ => (env.respond w.tick url headers, w.tock)
  | .log line => ((), { w with printed := w.printed ++ [line] }.tock)
  | .createStage stem => (error.elim (.ok (env.stage w.tick stem)) .error, w.tock)
  | .write p data => put env error p { data, mode := 0o644 } w
  | .runTool tool args =>
      match error with
      | some e => (.error e, w.tock)
      | none =>
          let ran := env.tool w.tick tool args w.files
          (ran.1, { w with files := ran.2 }.tock)
  | .isFile p => ((w.files p).isSome, w.tock)
  | .readDir p => (error.elim (.ok (env.entries w.tick p)) .error, w.tock)
  | .isExecutable p =>
      (error.isNone && (w.files p).any fun f => f.mode &&& 0o111 != 0, w.tock)
  | .currentExe => (error.elim (.ok env.exe) .error, w.tock)
  | .canonicalize p => (env.canonical w.tick p, w.tock)
  | .setMode p mode =>
      match error, w.files p with
      | some e, _ => (.error e, w.tock)
      | none, none => (.error noSuchFile, w.tock)
      | none, some f => (.ok (), (w.setFile p (some { f with mode })).tock)
  | .removeFile p =>
      match error, w.files p with
      | some e, _ => (.error e, w.tock)
      | none, none => (.error noSuchFile, w.tock)
      | none, some _ => (.ok (), (w.setFile p none).tock)
  | .copy src dst =>
      match w.files src with
      | none => (.error (error.getD noSuchFile), w.tock)
      | some f => put env error dst f w
  | .rename src dst =>
      match error, w.files src with
      | some e, _ => (.error e, w.tock)
      | none, none => (.error noSuchFile, w.tock)
      | none, some f => (.ok (), ((w.setFile src none).setFile dst (some f)).tock)
  | .removeDirAll p =>
      match error with
      | some e => (.error e, w.tock)
      | none =>
          (.ok (), { w with
            files := fun q => if (p ++ "/".toList).isPrefixOf q then none else w.files q }.tock)

/-! ## Calls -/

def get (url : Text) (headers : List (Text × Text)) (timeout : Nat) :
    Io (Except Text HttpResponse) :=
  Prog.call (Cmd.get url headers timeout)

def log (line : Text) : Io Unit := Prog.call (Cmd.log line)

def createStage (stem : Text) : Io (Except Text Text) := Prog.call (Cmd.createStage stem)

def write (p : Text) (data : Bytes) : Io (Except Text Unit) := Prog.call (Cmd.write p data)

def runTool (tool : Text) (args : List Text) : Io (Except Text (Option Int)) :=
  Prog.call (Cmd.runTool tool args)

def isFile (p : Text) : Io Bool := Prog.call (Cmd.isFile p)

def readDir (p : Text) : Io (Except Text (List Text)) := Prog.call (Cmd.readDir p)

def isExecutable (p : Text) : Io Bool := Prog.call (Cmd.isExecutable p)

def currentExe : Io (Except Text Text) := Prog.call Cmd.currentExe

def canonicalize (p : Text) : Io (Option Text) := Prog.call (Cmd.canonicalize p)

def setMode (p : Text) (mode : Nat) : Io (Except Text Unit) := Prog.call (Cmd.setMode p mode)

def removeFile (p : Text) : Io (Except Text Unit) := Prog.call (Cmd.removeFile p)

def copy (src dst : Text) : Io (Except Text Unit) := Prog.call (Cmd.copy src dst)

def rename (src dst : Text) : Io (Except Text Unit) := Prog.call (Cmd.rename src dst)

def removeDirAll (p : Text) : Io (Except Text Unit) := Prog.call (Cmd.removeDirAll p)

-- ============================================================================
-- Releases
-- ============================================================================

inductive SelfUpdateError where
  | noRelease
  | noMatchingAsset (name : Text)
  | missingChecksum (name : Text)
  | checksumMismatch
  | alreadyUpToDate
  | http (status : Int) (body : Text)
  | extractFailed (message : Text)
  | io (message : Text)

structure GitHubAsset where
  name : Text
  browserDownloadUrl : Text

structure GitHubRelease where
  tagName : Text
  assets : List GitHubAsset

structure UpdateResult where
  updated : Bool
  oldVersion : Text
  newVersion : Text
  binaryPath : Text
  restartHint : Text

structure UpdateOptions where
  repoOwner : Text := "gnasdev".toList
  repoName : Text := "gn-drive".toList
  currentVersion : Text := []
  force : Bool := false
  token : Option Text
  apiBase : Text := "https://api.github.com".toList
  arch : Text
  targetBinary : Option Text := none

/-- `serde_json::from_slice` for a release, `String::from_utf8_lossy` and
    `Sha256::digest`. -/
structure Formats where
  release : Bytes → Option GitHubRelease
  lossy : Bytes → Text
  sha256 : Bytes → Bytes

def restartHint : Text :=
  ("Restart gn-drive to use the new binary. Foreground: Ctrl+C and re-run. " ++
    "Service: 'gn-drive service restart'.").toList

abbrev Action := ExceptT SelfUpdateError Io

/-- `?` on an `io::Error`. -/
def tryIo {α : Type} (p : Io (Except Text α)) : Action α :=
  ExceptT.mk do return (← p).mapError .io

def authHeaders (opts : UpdateOptions) (accept : Option Text) : List (Text × Text) :=
  (accept.map fun a => ("Accept".toList, a)).toList ++
    ((opts.token.filter (· ≠ [])).map fun t =>
      ("Authorization".toList, "Bearer ".toList ++ t)).toList

section

variable (fmt : Formats) (opts : UpdateOptions)

/-- What the answer of the server says. -/
def readRelease (resp : HttpResponse) : Except SelfUpdateError GitHubRelease :=
  if resp.status = 404 then .error .noRelease
  else if resp.status ≠ 200 then .error (.http resp.status (fmt.lossy (resp.body.take 1024)))
  else
    match fmt.release resp.body with
    | some r => if r.tagName ≠ [] then .ok r else .error .noRelease
    | none => .error .noRelease

/-- The request for the latest release. -/
def releaseUrl : Text :=
  opts.apiBase ++ "/repos/".toList ++ opts.repoOwner ++ "/".toList ++ opts.repoName ++
    "/releases/latest".toList

def releaseHeaders : List (Text × Text) :=
  authHeaders opts (some "application/vnd.github+json".toList)

def fetchRelease : Action GitHubRelease := do
  let resp ← tryIo (get (releaseUrl opts) (releaseHeaders opts) 60)
  ExceptT.mk (pure (readRelease fmt resp))

/-- The names of the archive, preferred first. -/
def candidateAssetNames (version arch : Text) : List Text :=
  ["gn-drive-darwin-".toList ++ arch ++ ".tar.gz".toList,
    "gn-drive-".toList ++ version ++ "-macos-".toList ++ arch ++ ".tar.gz".toList] ++
  if arch = "amd64".toList then
    ["gn-drive-".toList ++ version ++ "-macos-x86_64.tar.gz".toList]
  else []

/-- The archive and its checksum. -/
def pickAssets (r : GitHubRelease) (version arch : Text) :
    Except SelfUpdateError (GitHubAsset × GitHubAsset) :=
  let names := candidateAssetNames version arch
  match names.findSome? fun n => r.assets.find? (·.name = n) with
  | none => .error (.noMatchingAsset (names.headD []))
  | some bin =>
      let sumName := bin.name ++ ".sha256".toList
      match r.assets.find? (·.name = sumName) with
      | none => .error (.missingChecksum sumName)
      | some sum => .ok (bin, sum)

def download (url : Text) (timeout : Nat) : Action Bytes := do
  let resp ← tryIo (get url (authHeaders opts none) timeout)
  if resp.status ≠ 200 then throw (.http resp.status [])
  return resp.body

/-- `<sha256hex>  <filename>`. -/
def readChecksum (body : Bytes) : Text := (splitWhitespace (fmt.lossy body)).headD []

def fetchChecksum (asset : GitHubAsset) : Action Text := do
  return readChecksum fmt (← download opts asset.browserDownloadUrl 60)

def hexEncode (b : Bytes) : Text :=
  b.flatMap fun x => [Nat.digitChar (x.toNat / 16), Nat.digitChar (x.toNat % 16)]

def eqIgnoreAsciiCase (a b : Text) : Bool := a.map Char.toLower = b.map Char.toLower

def verifyDigest (data : Bytes) (expectedHex : Text) : Except SelfUpdateError Unit :=
  if eqIgnoreAsciiCase (hexEncode (fmt.sha256 data)) (trim expectedHex) then .ok ()
  else .error .checksumMismatch

end

-- ============================================================================
-- The binary
-- ============================================================================

/-- `file_name`. -/
def fileName (p : Text) : Text := (p.splitOn '/').getLastD []

/-- The first regular file that can be executed and is no archive. -/
def firstExecutable : List Text → Io (Option Text)
  | [] => return none
  | p :: rest => do
      if ← isFile p then
        if !endsWith ".tar.gz".toList (fileName p) then
          if ← isExecutable p then return some p
      firstExecutable rest

def extractBinary (archive dest : Text) : Action Text := do
  let (tool, args) ←
    if endsWith ".tar.gz".toList archive || endsWith ".tgz".toList archive then
      pure ("/usr/bin/tar".toList, ["-xzf".toList, archive, "-C".toList, dest])
    else if endsWith ".zip".toList archive then
      pure ("/usr/bin/unzip".toList, ["-o".toList, archive, "-d".toList, dest])
    else throw (.extractFailed ("unsupported archive: ".toList ++ archive))
  let status ← ExceptT.mk do
    return (← runTool tool args).mapError SelfUpdateError.extractFailed
  if status ≠ some 0 then
    throw (.extractFailed (fileName tool ++ " exit ".toList ++ toText (status.getD (-1))))
  let direct := dest ++ "/gn-drive".toList
  if ← ExceptT.lift (isFile direct) then return direct
  let entries ← tryIo (readDir dest)
  match ← ExceptT.lift (firstExecutable (entries.insertionSort (· ≤ ·))) with
  | some p => return p
  | none => throw (.extractFailed "no binary found in archive".toList)

/-- The new binary is copied next to the target, which is kept as `<bin>.bak`. -/
def atomicSwap (newBin current : Text) : ExceptT Text Io Unit := do
  let bak := current ++ ".bak".toList
  let staged := current ++ ".new".toList
  let _ ← ExceptT.lift (removeFile staged)
  ExceptT.mk (copy newBin staged)
  ExceptT.mk (setMode staged 0o755)
  let _ ← ExceptT.lift (removeFile bak)
  match ← ExceptT.lift (rename current bak) with
  | .error e =>
      let _ ← ExceptT.lift (removeFile staged)
      throw e
  | .ok () =>
      match ← ExceptT.lift (rename staged current) with
      | .error e =>
          let _ ← ExceptT.lift (rename bak current)
          let _ ← ExceptT.lift (removeFile staged)
          throw e
      | .ok () => return ()

-- ============================================================================
-- The update
-- ============================================================================

section

variable (fmt : Formats) (opts : UpdateOptions)

/-- `check`: the installed version and the offered one. -/
def check : Action (Text × Text) := do
  let rel ← fetchRelease fmt opts
  return (opts.currentVersion, trimV rel.tagName)

/-- The update from the stage on. -/
def install (newVersion : Text) (asset sumAsset : GitHubAsset) (stage : Text) :
    Action UpdateResult := do
  let archivePath := stage ++ "/".toList ++ asset.name
  ExceptT.lift (log ("↓ downloading ".toList ++ asset.name))
  let body ← download opts asset.browserDownloadUrl 300
  tryIo (write archivePath body)
  let expected ← fetchChecksum fmt opts sumAsset
  ExceptT.mk (pure (verifyDigest fmt body expected))
  let binary ← extractBinary archivePath stage
  let current ← match opts.targetBinary with
    | some p => pure p
    | none => tryIo currentExe
  let current := (← ExceptT.lift (canonicalize current)).getD current
  tryIo (setMode binary 0o755)
  tryIo (atomicSwap binary current).run
  return {
    updated := true, oldVersion := opts.currentVersion, newVersion, binaryPath := current
    restartHint }

/-- `update`; the stage is removed at its end, however it ends. -/
def update : Action UpdateResult := do
  let rel ← fetchRelease fmt opts
  let newVersion := trimV rel.tagName
  if opts.force = false ∧ opts.currentVersion ≠ [] ∧ newVersion = opts.currentVersion then
    throw .alreadyUpToDate
  let (asset, sumAsset) ← ExceptT.mk (pure (pickAssets rel newVersion opts.arch))
  let stage ← tryIo (createStage "gn-drive-update-".toList)
  let result ← ExceptT.lift (install fmt opts newVersion asset sumAsset stage).run
  let _ ← ExceptT.lift (removeDirAll stage)
  ExceptT.mk (pure result)

end

end GnDrive.SelfUpdate
