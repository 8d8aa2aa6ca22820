/-
  GnDrive.Gpui.WindowRuntime

  The run state that the window keeps (`main.rs` and `engine.rs` of the window):
  how it reads the events that the engine pushes, folds them, and takes over
  the snapshots of the engine's own projection.

  The log of a flow and what a progress says beyond its state, its counts of
  bytes and its error are left out.
-/

import GnDrive.Lib.Keyed
import GnDrive.Rpc.Params
import GnDrive.Runtime.Hub

namespace GnDrive.Gpui.Window

open Events
open Keyed (upsert)
open Rpc (Json JsonDict)
open Text (trim toLowercase)

-- ============================================================================
-- What the engine pushes
-- ============================================================================

def text (s : String) : Json := .string s.toList

def count (n : Int) : Json := .number (.int n)

/-- `json::sync_progress`. -/
def syncProgress (e : SyncProgressEvent) : JsonDict :=
  [("taskID".toList, text e.taskId), ("profileID".toList, text e.profileId),
    ("action".toList, text e.action), ("state".toList, text e.state),
    ("transferred".toList, count e.transferred), ("total".toList, count e.total),
    ("errorMessage".toList, text e.errorMessage)]

/-- The name and the data of the pushed event, for those that the window's run
    state depends on. -/
def pushed : BusEvent → Option (String × JsonDict)
  | .syncProgress p => some ("sync:progress", syncProgress p)
  | .syncStarted e =>
      some ("sync:started", [("taskID".toList, text e.taskId), ("profileID".toList, text e.profileId),
        ("action".toList, text e.action)])
  | .syncCompleted e =>
      some ("sync:completed", [("taskID".toList, text e.taskId), ("profileID".toList, text e.profileId),
        ("action".toList, text e.action), ("duration".toList, count e.duration),
        ("bytes".toList, count e.bytes), ("errors".toList, count e.errors)])
  | .syncFailed p => some ("sync:failed", syncProgress p)
  | .authLocked => some ("auth:locked", [])
  | .flowExecution e =>
      some ("flow:execution", [("flowID".toList, text e.flowId), ("opID".toList, text e.opId),
        ("status".toList, text e.status), ("error".toList, text e.error)])
  | _ => none

-- ============================================================================
-- Reading it
-- ============================================================================

structure SyncProgress where
  taskId : String := ""
  profileId : String := ""
  action : String := ""
  state : String := ""
  transferred : Nat := 0
  total : Nat := 0
  errors : Nat := 0
  errorMessage : String := ""
deriving DecidableEq

/-- A text under one of its spellings; both at once are an error. -/
def textField (data : JsonDict) (names : List Text) : Option String :=
  match names.filterMap data.get with
  | [] => some ""
  | [.string s] => some (String.ofList s)
  | _ => none

/-- A `u64`. -/
def countField (data : JsonDict) (name : Text) : Option Nat :=
  match data.get name with
  | none => some 0
  | some (.number (.int n)) => if 0 ≤ n && n < 2 ^ 64 then some n.toNat else none
  | some _ => none

/-- `from_value::<SyncProgress>`. -/
def SyncProgress.ofValue (data : JsonDict) : Option SyncProgress := do
  let taskId ← textField data ["taskID".toList, "taskId".toList]
  let profileId ← textField data ["profileID".toList, "profileId".toList]
  let action ← textField data ["action".toList]
  let state ← textField data ["state".toList]
  let transferred ← countField data "transferred".toList
  let total ← countField data "total".toList
  let errors ← countField data "errors".toList
  let errorMessage ← textField data ["errorMessage".toList]
  some { taskId, profileId, action, state, transferred, total, errors, errorMessage }

/-- The text under a key, or under another one where that is missing. -/
def textOf (data : JsonDict) (key key' : Text) : String :=
  match (data.get key).or (data.get key') with
  | some (.string s) => String.ofList s
  | _ => ""

/-- `event.trim_start_matches("sync:")`. -/
def stateOf : String → String
  | "sync:started" => "started"
  | "sync:progress" => "progress"
  | "sync:completed" => "completed"
  | "sync:failed" => "failed"
  | event => event

/-- The progress that a sync event brings. -/
def progressOf (event : String) (data : JsonDict) : SyncProgress :=
  let progress := (SyncProgress.ofValue data).getD {}
  let progress :=
    if progress.profileId = "" then
      { progress with profileId := textOf data "profileID".toList "profileId".toList }
    else progress
  let progress :=
    if progress.action = "" then
      { progress with action := textOf data "action".toList "action".toList }
    else progress
  if progress.state = "" then { progress with state := stateOf event } else progress

-- ============================================================================
-- Errors
-- ============================================================================

def isCancellation (message : Text) : Bool :=
  let lower := toLowercase message
  ["signal: killed", "signal: interrupt", "context canceled", "context cancelled",
    "errtaskcancelled", "task cancelled", "task canceled"].any fun needle =>
      Text.contains needle.toList lower

def humanizeError (message : String) : String :=
  let raw := trim message.toList
  if raw.isEmpty || isCancellation raw then ""
  else
    let text :=
      if Text.startsWith "rclone:".toList raw then trim (raw.drop "rclone:".length) else raw
    let text :=
      match Text.find "(stderr:".toList text with
      | some i => (trim (text.take i)).rdropWhile (· = ',')
      | none => text
    let lower := toLowercase text
    let text :=
      if List.elem '\x7b' lower &&
          (Text.contains "stats".toList lower || 1 < List.count '\x7b' text) then
        "Sync failed. Check the folders and the cloud account.".toList
      else text
    if 160 < text.length then String.ofList (text.take 157 ++ ['…']) else String.ofList text

-- ============================================================================
-- The run state
-- ============================================================================

structure RuntimeOp where
  id : String
  status : String := ""
  lastError : String := ""
deriving DecidableEq

structure RuntimeFlow where
  id : String
  status : String := ""
  lastError : String := ""
  ops : List RuntimeOp := []
  sync : Option SyncProgress := none
deriving DecidableEq

structure Runtime where
  revision : Int := 0
  flows : List RuntimeFlow := []
deriving DecidableEq

/-- `format::running`. -/
def running (status : String) : Bool := status = "running" || status = "cancelling"

namespace RuntimeFlow

def op (flow : RuntimeFlow) (id : String) : Option RuntimeOp := flow.ops.find? (·.id = id)

def onOp (flow : RuntimeFlow) (id : String) (f : RuntimeOp → RuntimeOp) : RuntimeFlow :=
  { flow with ops := upsert RuntimeOp.id id ⟨id, "", ""⟩ f flow.ops }

/-- The status and the error of `flow:execution`. -/
def execution (status opId error : String) (flow : RuntimeFlow) : RuntimeFlow :=
  let flow :=
    if status ≠ "" then
      { flow with
        status := status
        lastError := if error ≠ "" then error else flow.lastError }
    else flow
  if opId ≠ "" then
    flow.onOp opId fun op =>
      { op with
        status := if status ≠ "" then status else op.status
        lastError := if error ≠ "" then error else op.lastError }
  else flow

/-- What `apply_sync` does with the flow. -/
def applySync (progress : SyncProgress) (opId : String) (flow : RuntimeFlow) : RuntimeFlow :=
  let state := progress.state
  let message := humanizeError progress.errorMessage
  let flow := { flow with sync := some progress }
  let flow :=
    if running state then { flow with status := "running" }
    else if state = "completed" then { flow with status := "completed" }
    else if state = "cancelled" then { flow with status := "cancelled", lastError := "" }
    else if state = "failed" then
      { flow with
        status := state
        lastError := if message ≠ "" then message else flow.lastError }
    else flow
  if opId ≠ "" then
    flow.onOp opId fun op =>
      { op with
        status := state
        lastError := if state = "cancelled" then "" else message }
  else flow

end RuntimeFlow

/-- The part of a key before its first colon. -/
def flowPart (key : String) : String := String.ofList (key.toList.takeWhile (· ≠ ':'))

/-- The part of a key behind its first colon. -/
def opPart (key : String) : String := String.ofList ((key.toList.dropWhile (· ≠ ':')).drop 1)

namespace Runtime

def flow (rt : Runtime) (id : String) : Option RuntimeFlow := rt.flows.find? (·.id = id)

/-- `runtime_flow_mut`, changed by `f`. -/
def onFlow (rt : Runtime) (id : String) (f : RuntimeFlow → RuntimeFlow) : Runtime :=
  { rt with flows := upsert RuntimeFlow.id id { id, status := "idle" } f rt.flows }

def applySync (rt : Runtime) (progress : SyncProgress) : Runtime :=
  let flowId := flowPart progress.profileId
  if flowId = "" then rt else rt.onFlow flowId (.applySync progress (opPart progress.profileId))

/-- `handle_event`, as far as the run state goes. -/
def handleEvent (rt : Runtime) (event : String) (data : JsonDict) : Runtime :=
  match event with
  | "auth:locked" => {}
  | "flow:execution" =>
      let flowId := textOf data "flowID".toList "flowId".toList
      let status := textOf data "status".toList "status".toList
      let opId := textOf data "opID".toList "opId".toList
      let error := textOf data "error".toList "error".toList
      if flowId = "" then rt else rt.onFlow flowId (.execution status opId error)
  | "sync:started" | "sync:progress" | "sync:completed" | "sync:failed" =>
      rt.applySync (progressOf event data)
  | _ => rt

/-- `runtime:snapshot`, and what `apply_snapshot` does first. -/
def adopt (rt snapshot : Runtime) : Runtime :=
  if rt.revision ≤ snapshot.revision then snapshot else rt

/-- What `apply_snapshot` leaves. -/
def applySnapshot (rt : Runtime) (locked : Bool) (snapshot : Runtime) : Runtime :=
  if locked then {} else rt.adopt snapshot

def onEvent (rt : Runtime) (ev : BusEvent) : Runtime :=
  match pushed ev with
  | some (event, data) => rt.handleEvent event data
  | none => rt

/-- `sync_for`: the progress that is shown of an operation. -/
def syncFor (rt : Runtime) (flowId opId : String) : Option SyncProgress :=
  match (rt.flow flowId).bind (·.sync) with
  | none => none
  | some sync =>
      let exact := sync.profileId = flowId ++ ":" ++ opId
      if Text.endsWith opId.toList sync.profileId.toList || exact then some sync else none

end Runtime

end GnDrive.Gpui.Window
