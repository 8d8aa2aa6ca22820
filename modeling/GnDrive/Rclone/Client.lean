/-
  GnDrive.Rclone.Client

  One run of rclone (`rclone/client.rs`): the statistics that are reported while
  it runs, and the text of its failure.

  Lines come from two streams and a listing of the files from a second run; they
  are taken in under a lock, one at a time, so that a run is a list of arrivals.
-/

import GnDrive.Rclone.Stats
import GnDrive.Rpc.Redaction

namespace GnDrive.Rclone

open Rpc (Json)
open Rpc.Redact (truncateString)
open Text (trim)

-- ============================================================================
-- With its lines
-- ============================================================================

inductive StreamKind where
  | stdout
  | stderr
deriving DecidableEq

/-- The listing is there at some moment, or never. -/
inductive Arrival where
  | line (kind : StreamKind) (text : Text)
  | seed (entries : List FileEntry)

inductive Exit where
  | code (n : Int)
  /-- rclone could not be run. -/
  | ioError (e : Text)
deriving DecidableEq

/-- A run; `late` is a listing that is there when rclone is at its end, and
    `cancelled` what the token says then. -/
structure Invocation where
  args : List Text
  arrivals : List Arrival
  late : List FileEntry
  exit : Exit
  cancelled : Bool

def joined (args : List Text) : Text := " ".toList.intercalate args

section

variable {F : Type} [F64Arith F]

structure SyncState (F : Type) where
  stats : SyncStats F
  tracker : FileTransferTracker F

namespace SyncState

def initial : SyncState F where
  stats := { SyncStats.default with stage := "starting".toList }
  tracker := .new

/-- The rows are put into the statistics that are reported. -/
def emit (st : SyncState F) : SyncState F :=
  { st with stats := { st.stats with
      fileTransfers := st.tracker.snapshot st.stats.filesTotal } }

/-- Both streams are read alike. -/
def onLine (fromStr : Text → Option Json) (st : SyncState F) (line : Text) : SyncState F :=
  let (found, stats) := parseJsonStatsLine fromStr line st.stats
  let stats := if found then stats else parseStatsLine line st.stats
  let (stats, tracker) := ingestJsonLogLine fromStr line (updateStage fromStr line stats) st.tracker
  { stats, tracker }

def arrive (fromStr : Text → Option Json) (st : SyncState F) (a : Arrival) : SyncState F :=
  match a with
  | .line _ text => (st.onLine fromStr text).emit
  | .seed entries => { st with tracker := st.tracker.seedPending entries }.emit

end SyncState

namespace Invocation

variable (F) in
/-- After each arrival, the marker at the beginning first. -/
def states (fromStr : Text → Option Json) (r : Invocation) : List (SyncState F) :=
  r.arrivals.scanl (SyncState.arrive fromStr) SyncState.initial.emit

variable (F) in
/-- What `on_progress` is given. -/
def progress (fromStr : Text → Option Json) (r : Invocation) : List (SyncStats F) :=
  (r.states F fromStr).map SyncState.stats

/-- `stderr_buf` -/
def stderr (r : Invocation) : Text :=
  r.arrivals.flatMap fun a =>
    match a with
    | .line .stderr text => text ++ ['\n']
    | _ => []

variable (F) in
/-- The statistics of the result. -/
def stats (fromStr : Text → Option Json) (r : Invocation) : SyncStats F :=
  let st := r.arrivals.foldl (SyncState.arrive fromStr) SyncState.initial.emit
  ({ st with tracker := st.tracker.seedPending r.late }.emit).stats

end Invocation

namespace Invocation

/-- The text of the `SyncFailedError` with which `execute` ends, if it fails. -/
def message (r : Invocation) : Option Text :=
  match r.exit with
  | .ioError e => some ("rclone ".toList ++ joined r.args ++ ": ".toList ++ e)
  | .code n =>
      if r.cancelled then some "cancelled".toList
      else if n ≠ 0 then
        some ("rclone ".toList ++ joined r.args ++ ": exit ".toList ++ toText n ++
          " (stderr: ".toList ++ truncateString r.stderr 500 ++ ")".toList)
      else none

/-- Whether that error is a cancellation. -/
def errCancelled (r : Invocation) : Bool :=
  match r.exit with
  | .ioError _ => false
  | .code _ => r.cancelled

end Invocation

end

-- ============================================================================
-- To completion
-- ============================================================================

structure ProcessOutput where
  stdout : Text
  stderr : Text
  exit : Exit

/-- `RcloneError::RunFailed` -/
structure RunFailed where
  command : Text
  stderr : Text

def RunFailed.display (e : RunFailed) : Text :=
  "rclone ".toList ++ e.command ++ ": ".toList ++ e.stderr

def runChecked (args : List Text) (out : ProcessOutput) : Option RunFailed :=
  match out.exit with
  | .ioError e => some ⟨joined args, e⟩
  | .code n =>
      if n ≠ 0 then
        let msg := if trim out.stderr = [] then trim out.stdout else trim out.stderr
        some ⟨joined args, truncateString msg 500⟩
      else none

end GnDrive.Rclone
