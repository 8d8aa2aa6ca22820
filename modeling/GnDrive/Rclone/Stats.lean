/-
  GnDrive.Rclone.Stats

  What the client reads from rclone's output while it runs (`rclone/stats.rs`):
  the totals, the stage and one row per file, from JSON log lines or from the
  older lines of text.

  `serde_json::from_str` is a parameter.  The time of the last update and
  `transfers`, which is a copy of `files`, are left out.
-/

import GnDrive.Rclone.Options
import Mathlib.Logic.Function.Basic

namespace GnDrive.Rclone

open Rpc (Json JsonDict Number)
open Text (trim toLowercase contains find startsWith)

/-- Floats that are multiplied and cut to an integer. -/
class F64Arith (F : Type) extends F64 F where
  times : F → Nat → F
  toI64 : F → Int

-- ============================================================================
-- JSON values
-- ============================================================================

/-- `v.get(key)`, which finds nothing in a value that is not an object. -/
def field (v : Json) (key : String) : Option Json :=
  match v with
  | .object m => JsonDict.get m key.toList
  | _ => none

section

variable {F : Type} [F64Arith F]

def asF64 : Json → Option F
  | .number n => some (F64.ofNumber n)
  | _ => none

def getI64 (v : Json) (key : String) : Int :=
  match field v key with
  | some (.number (.int n)) => Rpc.saturate n
  | some (.number (.float q)) => truncate q
  | _ => 0

def getF64 (v : Json) (key : String) : F := ((field v key).bind asF64).getD F64.zero

def getStr (v : Json) (key : String) : Text :=
  match field v key with
  | some (.string s) => s
  | _ => []

def getArray (v : Json) (key : String) : List Json :=
  match field v key with
  | some (.array l) => l
  | _ => []

/-- A line of `--use-json-log`, as far as it is used. -/
structure JsonLogLine where
  level : Text
  msg : Text
  object : Text
  size : Int
  stats : Option Json

def decodeLogLine (fromStr : Text → Option Json) (line : Text) : Option JsonLogLine :=
  let t := trim line
  if !startsWith [Char.ofNat 0x7b] t then none
  else
    match fromStr t with
    | some (.object m) =>
        let v := Json.object m
        some {
          level := getStr v "level"
          msg := getStr v "msg"
          object := getStr v "object"
          size := getI64 v "size"
          stats :=
            match field v "stats" with
            | some (.object st) => some (.object st)
            | _ => none }
    | _ => none

def JsonLogLine.transferring (entry : JsonLogLine) : List Json :=
  (entry.stats.map (getArray · "transferring")).getD []

-- ============================================================================
-- Rows
-- ============================================================================

/-- The status is `transferring`, `completed`, `failed`, `checking`, `checked` or
    `pending`. -/
structure FileTransfer (F : Type) where
  name : Text
  size : Int
  bytes : Int
  progress : F
  status : Text
  speed : F
  error : Text

def FileTransfer.new (name status : Text) : FileTransfer F where
  name := name
  size := 0
  bytes := 0
  progress := F64.zero
  status := status
  speed := F64.zero
  error := []

/-- An entry of `lsjson`. -/
structure FileEntry where
  name : Text
  path : Text
  size : Int
  isDir : Bool

structure SyncStats (F : Type) where
  bytes : Int
  bytesTotal : Int
  files : Int
  filesTotal : Int
  errors : Int
  checks : Int
  checksTotal : Int
  deletes : Int
  renames : Int
  speed : F
  eta : Int
  currentFile : Text
  /-- `starting`, `connecting`, `listing`, `checking`, `transferring` or `retrying`. -/
  stage : Text
  stageDetail : Text
  fileTransfers : List (FileTransfer F)

def SyncStats.default : SyncStats F where
  bytes := 0
  bytesTotal := 0
  files := 0
  filesTotal := 0
  errors := 0
  checks := 0
  checksTotal := 0
  deletes := 0
  renames := 0
  speed := F64.zero
  eta := 0
  currentFile := []
  stage := []
  stageDetail := []
  fileTransfers := []

def MAX_TRACKED_FILES : Nat := 150

/-- The rows by name, and the names in the order in which they came. -/
structure FileTransferTracker (F : Type) where
  byName : Text → Option (FileTransfer F)
  order : List Text

namespace FileTransferTracker

def new : FileTransferTracker F := ⟨fun _ => none, []⟩

def set (tr : FileTransferTracker F) (name : Text) (ft : FileTransfer F) :
    FileTransferTracker F :=
  { tr with byName := Function.update tr.byName name (some ft) }

def push (tr : FileTransferTracker F) (ft : FileTransfer F) : FileTransferTracker F :=
  { tr.set ft.name ft with order := tr.order ++ [ft.name] }

def remove (tr : FileTransferTracker F) (name : Text) : FileTransferTracker F where
  byName := Function.update tr.byName name none
  order := tr.order.erase name

def hasStatus (tr : FileTransferTracker F) (status : List String) (name : Text) : Bool :=
  (tr.byName name).any fun ft => (status.map String.toList).contains ft.status

/-- The first row that waits, else the first that is done. -/
def evictReplaceable (tr : FileTransferTracker F) : FileTransferTracker F :=
  match tr.order.find? (tr.hasStatus ["pending"]) with
  | some name => tr.remove name
  | none =>
      match tr.order.find? (tr.hasStatus ["completed", "checked"]) with
      | some name => tr.remove name
      | none => tr

def upsert (tr : FileTransferTracker F) (ft : FileTransfer F) : FileTransferTracker F :=
  if ft.name = [] then tr
  else
    match tr.byName ft.name with
    | some _ =>
        -- a row that is done is not in transfer again
        if tr.hasStatus ["completed", "failed", "checked"] ft.name ∧
            ft.status = "transferring".toList then tr
        else tr.set ft.name ft
    | none =>
        if MAX_TRACKED_FILES ≤ tr.order.length ∧ ft.status ≠ "failed".toList then
          if MAX_TRACKED_FILES ≤ tr.evictReplaceable.order.length then tr.evictReplaceable
          else tr.evictReplaceable.push ft
        else tr.push ft

def seedOne (tr : FileTransferTracker F) (e : FileEntry) : FileTransferTracker F :=
  let name := if trim e.path ≠ [] then trim e.path else trim e.name
  if e.isDir || name.isEmpty then tr
  else
    match tr.byName name with
    | some prev => if prev.size = 0 ∧ 0 < e.size then tr.set name { prev with size := e.size } else tr
    | none =>
        if MAX_TRACKED_FILES ≤ tr.order.length then tr
        else tr.push { FileTransfer.new name "pending".toList with size := e.size }

def seedPending (tr : FileTransferTracker F) (entries : List FileEntry) : FileTransferTracker F :=
  entries.foldl seedOne tr

/-- The rows in the order in which they came, and one more for the files that
    have none. -/
def snapshot (tr : FileTransferTracker F) (totalFiles : Int) : List (FileTransfer F) :=
  let rows := tr.order.filterMap tr.byName
  let known := rows.countP fun ft => ["transferring", "checking", "completed", "checked", "failed",
    "pending"].any fun s => ft.status = s.toList
  let pend := totalFiles - known
  if 0 < totalFiles ∧ 0 < pend then
    rows ++ [FileTransfer.new ("(".toList ++ toText pend ++ " pending)".toList) "pending".toList]
  else rows

end FileTransferTracker

-- ============================================================================
-- Lines
-- ============================================================================

/-- Whether the line has totals, and the statistics with them. -/
def parseJsonStatsLine (fromStr : Text → Option Json) (line : Text) (s : SyncStats F) :
    Bool × SyncStats F :=
  match decodeLogLine fromStr line with
  | none => (false, s)
  | some entry =>
      match entry.stats with
      | none => (false, s)
      | some st =>
          (true, { s with
            bytes := getI64 st "bytes"
            bytesTotal := getI64 st "totalBytes"
            files := getI64 st "transfers"
            filesTotal := getI64 st "totalTransfers"
            checks := getI64 st "checks"
            checksTotal := getI64 st "totalChecks"
            deletes := getI64 st "deletes"
            renames := getI64 st "renames"
            errors := getI64 st "errors"
            speed := getF64 st "speed"
            eta := (((field st "eta").bind (asF64 (F := F))).map F64Arith.toI64).getD s.eta
            currentFile := if entry.object ≠ [] then entry.object else s.currentFile })

def parseSize (s : Text) : Int :=
  let num := s.takeWhile fun c => c.isDigit || c = '.'
  let suffix := toLowercase (s.drop num.length)
  if num = [] then 0
  else
    match F64.parse (F := F) num with
    | none => 0
    | some n =>
      F64Arith.toI64 (F64Arith.times n (
        if suffix = "k".toList ∨ suffix = "kb".toList then 1024
        else if suffix = "m".toList ∨ suffix = "mb".toList then 1024 ^ 2
        else if suffix = "g".toList ∨ suffix = "gb".toList then 1024 ^ 3
        else if suffix = "t".toList ∨ suffix = "tb".toList then 1024 ^ 4
        else 1))

/-- `X/Y` after the first blank in front of the stroke, if there is one. -/
def parseFraction (F : Type) [F64Arith F] (s : Text) : Option (Int × Int) :=
  if '/' ∈ s then
    let rest := if ' ' ∈ s.takeWhile (· ≠ '/') then (s.dropWhile (· ≠ ' ')).tail else s
    some (parseSize (F := F) (rest.takeWhile (· ≠ '/')),
      parseSize (F := F) ((rest.dropWhile (· ≠ '/')).tail.takeWhile (· ≠ ' ')))
  else none

def parseLeadingInt (s : Text) : Option Int :=
  Rpc.parseI64 ((s.dropWhile Text.isWhitespace).takeWhile Char.isDigit)

/-- What comes after the label. -/
def after (line : Text) (label : String) : Option Text :=
  (Text.findSplit label.toList line).map fun (_, rest) => rest.drop label.length

/-- The older lines of text. -/
def parseStatsLine (line : Text) (s : SyncStats F) : SyncStats F :=
  if !contains "INFO".toList line then s
  else
    let s := match (after line "TRANSFER: ").bind (parseFraction F) with
      | some (a, b) => { s with bytes := a, bytesTotal := b }
      | none => s
    let s := match (after line "CHECK: ").bind (parseFraction F) with
      | some (a, b) => { s with checks := a, checksTotal := b }
      | none => s
    let s := match (after line "ERRORS: ").bind parseLeadingInt with
      | some n => { s with errors := n }
      | none => s
    match (after line "DELETED: ").bind parseLeadingInt with
    | some n => { s with deletes := n }
    | none => s

/-- A message of rclone becomes one of a few stages. -/
def updateStage (fromStr : Text → Option Json) (line : Text) (s : SyncStats F) : SyncStats F :=
  match decodeLogLine fromStr line with
  | none => s
  | some entry =>
      let msg := toLowercase entry.msg
      let mentions (words : List String) : Bool := words.any fun w => contains w.toList msg
      let staged (stage : String) : SyncStats F :=
        { s with stage := stage.toList, stageDetail := entry.object }
      if !entry.transferring.isEmpty || mentions ["copied", "transferred", "moved"] then
        staged "transferring"
      else if mentions ["checking", "check"] then staged "checking"
      else if mentions ["listing", "list "] then staged "listing"
      else if mentions ["retry", "rate limit", "throttle"] then staged "retrying"
      else if mentions ["starting", "config file", "using "] then staged "connecting"
      else s

/-- A file in transfer, of a line's totals. -/
def ingestTransferring (acc : SyncStats F × FileTransferTracker F) (tr : Json) :
    SyncStats F × FileTransferTracker F :=
  let name := getStr tr "name"
  if name = [] then acc
  else
    ({ acc.1 with currentFile := name },
      acc.2.upsert {
        name
        size := getI64 tr "size"
        bytes := getI64 tr "bytes"
        progress := getF64 tr "percentage"
        status := "transferring".toList
        speed := getF64 tr "speed"
        error := [] })

/-- The row that a line about a file makes. -/
def JsonLogLine.row (entry : JsonLogLine) : Option (FileTransfer F) :=
  let msg := toLowercase entry.msg
  let level := toLowercase entry.level
  let mentions (words : List String) : Bool := words.any fun w => contains w.toList msg
  let ft : FileTransfer F :=
    { FileTransfer.new entry.object [] with size := entry.size, bytes := entry.size }
  let full : F := F64.ofNumber (.int 100)
  if level = "error".toList || mentions ["error", "failed"] then
    some { ft with status := "failed".toList, error := entry.msg }
  else if mentions ["check"] then
    if mentions ["ok", "identical"] then
      some { ft with status := "checked".toList, progress := full }
    else some { ft with status := "checking".toList }
  else if mentions ["copied", "moved", "updated", "multi-thread"] then
    some { ft with status := "completed".toList, progress := full }
  else if level = "info".toList || level = "notice".toList then
    some { ft with status := "completed".toList, progress := full }
  else none

def ingestJsonLogLine (fromStr : Text → Option Json) (line : Text)
    (s : SyncStats F) (track : FileTransferTracker F) : SyncStats F × FileTransferTracker F :=
  match decodeLogLine fromStr line with
  | none => (s, track)
  | some entry =>
      let (s, track) := entry.transferring.foldl ingestTransferring (s, track)
      if entry.object = [] then (s, track)
      else
        ({ s with currentFile := entry.object },
          match entry.row (F := F) with
          | some ft => track.upsert ft
          | none => track)

end

/-- Whole numbers, which are not rounded. -/
instance wholeArith : F64Arith Nat where
  toF64 := wholeFloats
  times := (· * ·)
  toI64 := Int.ofNat

end GnDrive.Rclone
