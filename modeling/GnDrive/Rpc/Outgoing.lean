/-
  GnDrive.Rpc.Outgoing

  What a client gets to see of a run of rclone: the error of a request
  (`rpc/error.rs`, `rpc/handlers_remotes.rs`), the events, log lines and history
  of a sync (`run_sync`), of the operation of a flow (`run_ops`) and of the edge
  of a board (`run_board`).

  `Frames` has what is sent under each name.  The text of a failure is redacted
  for the error of a request only: a sync cuts it for its events and hands it on
  as it is to the log and the history, a board to its events as well.  So two
  runs show the same exactly when the redactor makes the same of them in the one
  case, and when they fail with the same text in the others (`frames_same_iff`).

  Left out are the frames that are sent before a run, the sessions of OAuth and
  the snapshots of the runtime, which are made from the events.
-/

import GnDrive.Events.Bridge
import GnDrive.Rclone.Client

namespace GnDrive.Rpc

open Events (LogLevel)
open Rclone (F64Arith FileTransfer Invocation ProcessOutput RunFailed SyncStats joined runChecked
  trimWs)
open Redact (sanitize stderrField truncateString)
open Text (contains findSplit startsWith toLowercase)

-- ============================================================================
-- Frames
-- ============================================================================

structure ErrorFrame where
  code : String
  message : Text
  data : List (String × Text)
deriving DecidableEq

structure SyncProgressEvent (F : Type) where
  taskId : Text
  profileId : Text
  action : Text
  state : String
  stats : SyncStats F
  errorMessage : Text

/-- `duration` is the one of the result. -/
structure SyncCompletedEvent where
  taskId : Text
  profileId : Text
  action : Text
  duration : Int
  bytes : Int
  errors : Int
deriving DecidableEq

structure FlowExecutionEvent where
  flowId : Text
  opId : Text
  status : String
  error : Text
deriving DecidableEq

structure BoardExecutionEvent where
  boardId : Text
  nodeId : Text
  edgeId : Text
  status : String
  action : Text
deriving DecidableEq

structure LogRecord where
  time : Int
  level : LogLevel
  msg : Text
  fields : List (String × Text)
deriving DecidableEq

structure HistoryEntry where
  id : Text
  profileName : Text
  action : Text
  state : String
  startedAt : Text
  finishedAt : Text
  duration : Int
  bytes : Int
  errors : Int
  files : Int
  errorMessage : Text
deriving DecidableEq

structure BoardRunStatus where
  runId : Text
  boardId : Text
  status : String
  error : Text
deriving DecidableEq

/-- What is sent under each name, in this order; `logsRead` has the count of the
    lines that were dropped as well. -/
structure Frames (F : Type) where
  errors : List ErrorFrame := []
  syncProgress : List (SyncProgressEvent F) := []
  syncFailed : List (SyncProgressEvent F) := []
  syncCompleted : List SyncCompletedEvent := []
  flowExecution : List FlowExecutionEvent := []
  boardExecution : List BoardExecutionEvent := []
  logLine : List LogRecord := []
  logsRead : List LogRecord × Nat := ([], 0)
  historyList : List HistoryEntry := []
  boardsStatus : List BoardRunStatus := []

-- ============================================================================
-- The log
-- ============================================================================

structure LogBuffer where
  capacity : Nat
  lines : List LogRecord
  dropped : Nat

namespace LogBuffer

def push (b : LogBuffer) (r : LogRecord) : LogBuffer :=
  let lines := b.lines ++ [r]
  { b with
    lines := lines.drop (lines.length - b.capacity)
    dropped := b.dropped + (lines.length - b.capacity) }

/-- The newest `limit` lines that are asked for. -/
def readLines (b : LogBuffer) (limit : Nat) (minLevel : Option LogLevel) (since : Option Int) :
    List LogRecord × Nat :=
  let sel := (b.lines.filter fun l => minLevel.all (·.rank ≤ l.level.rank)).filter fun l =>
    since.all (· < l.time)
  (sel.drop (sel.length - limit), b.dropped)

end LogBuffer

/-- What the frames depend on apart from the run: whose run it is, when and on
    whose behalf, and what the client asks for afterwards. -/
structure Circumstances where
  task : Text
  profile : Text
  action : Text
  startedAt : Text
  endedAt : Text
  duration : Int
  /-- The duration of rclone's own result. -/
  rcloneDuration : Int
  /-- The task was cancelled before its end, or the flow or board before it was
      noticed. -/
  taskCancelled : Bool
  runCancelled : Bool
  flow : Text
  op : Text
  runId : Text
  board : Text
  node : Text
  edge : Text
  stopOnError : Bool
  time : Int
  loggerLevel : LogLevel
  bridgeLevel : LogLevel
  /-- The queue of the client is below the limit for what may be dropped. -/
  room : Bool
  buffer : LogBuffer
  /-- Logged between the failure and the request for the log. -/
  later : List LogRecord
  limit : Nat
  minLevel : Option LogLevel
  since : Option Int
  /-- The store is open, and the page that is asked for has the run in it. -/
  listed : Bool

namespace Circumstances

/-- `Logger::log` -/
def accepted (c : Circumstances) (rs : List LogRecord) : List LogRecord :=
  rs.filter fun r => c.loggerLevel.rank ≤ r.level.rank

def logLine (c : Circumstances) (rs : List LogRecord) : List LogRecord :=
  (c.accepted rs).filter fun r => c.room && c.bridgeLevel.rank ≤ r.level.rank

def logsRead (c : Circumstances) (rs : List LogRecord) : List LogRecord × Nat :=
  ((c.accepted rs ++ c.later).foldl LogBuffer.push c.buffer).readLines c.limit c.minLevel c.since

def logged (c : Circumstances) {F : Type} (rs : List LogRecord) (f : Frames F) : Frames F :=
  { f with logLine := c.logLine rs, logsRead := c.logsRead rs }

end Circumstances

-- ============================================================================
-- Requests
-- ============================================================================

/-- The handlers that report a failure of rclone. -/
inductive Request where
  /-- Those that leave it to `map_error`. -/
  | mapped
  | remotesAdd
  /-- The test of a remote that was just created. -/
  | verify (code : String) (name : Text)
  | remotesTest (name : Text)
  | fsList (path : Text)
  | oauthComplete

def fromRclone (e : RunFailed) : ErrorFrame where
  code := "rclone_failed"
  message := "rclone ".toList ++ sanitize e.command ++ ": ".toList ++ stderrField e.stderr
  data := [("command", sanitize e.command), ("stderr", stderrField e.stderr)]

/-- An error with the redacted output at its end. -/
def outputError (code : String) (message : Text) (data : List (String × Text)) (output : Text) :
    ErrorFrame :=
  ⟨code, message ++ stderrField output, data ++ [("stderr", stderrField output)]⟩

/-- The answer to a request for which rclone was run, if it has failed. -/
def Request.error (q : Request) (args : List Text) (out : ProcessOutput) : Option ErrorFrame :=
  match q with
  | .mapped => (runChecked args out).map fromRclone
  | .remotesAdd =>
      match out.exit with
      | .ioError e => some (fromRclone ⟨joined args, e⟩)
      | .code n =>
          if n ≠ 0 then
            some (outputError "rclone_failed" "rclone config create failed: ".toList
              [("command", "config create".toList)]
              (if out.stderr = [] then out.stdout else out.stderr))
          else none
  | .verify code name =>
      (runChecked args out).map fun e =>
        outputError code ("remote ".toList ++ name ++ " could not be verified: ".toList) [] e.stderr
  | .remotesTest name =>
      (runChecked args out).map fun e =>
        outputError "test_failed" ("remote ".toList ++ name ++ " failed: ".toList) [] e.stderr
  | .fsList path =>
      (runChecked args out).map fun e =>
        outputError "browse_failed" ("could not list ".toList ++ path ++ ": ".toList)
          [("path", path)] e.stderr
  | .oauthComplete =>
      match out.exit with
      | .ioError e => some ⟨"oauth_failed", sanitize (RunFailed.display ⟨joined args, e⟩), []⟩
      | .code n =>
          if n ≠ 0 then
            some ⟨"oauth_failed", "remote creation failed: ".toList ++ stderrField out.stderr, []⟩
          else none

-- ============================================================================
-- Syncs
-- ============================================================================

section

variable {F : Type} [F64Arith F]

def sanitizeRcloneErr (s : Text) : Text :=
  let lower := toLowercase s
  if ["signal: killed", "signal: interrupt", "context canceled", "context cancelled",
      "cancelled"].any fun w => contains w.toList lower then []
  else
    let out :=
      match findSplit "(stderr:".toList s with
      | some (before, _) => trimWs before
      | none => s
    if startsWith [Char.ofNat 0x7b] (trimWs out) then "sync failed".toList else out

/-- The state at the end and the message of the task. -/
def taskOutcome (c : Circumstances) (r : Invocation) : String × Text :=
  match r.message with
  | none => ("completed", [])
  | some raw =>
      if c.taskCancelled || r.errCancelled then ("cancelled", [])
      else ("failed", truncateString (sanitizeRcloneErr raw) 240)

def syncRecords (c : Circumstances) (fromStr : Text → Option Json) (r : Invocation) :
    List LogRecord :=
  match r.message with
  | some raw =>
      [⟨c.time, .error, "sync: ".toList ++ (taskOutcome c r).1.toList,
        [("task", c.task), ("profile", c.profile), ("err", raw)]⟩]
  | none =>
      [⟨c.time, .info, "sync: completed".toList,
        [("task", c.task), ("profile", c.profile),
          ("bytes", Rclone.toText (r.stats F fromStr).bytes)]⟩]

/-- `run_sync`, but for the log. -/
def runSync (c : Circumstances) (fromStr : Text → Option Json) (r : Invocation) : Frames F :=
  let (state, msg) := taskOutcome c r
  let last := r.stats F fromStr
  let event (state : String) (stats : SyncStats F) (errorMessage : Text) : SyncProgressEvent F :=
    ⟨c.task, c.profile, c.action, state, stats, errorMessage⟩
  { syncProgress := (r.progress F fromStr).map (event "running" · []) ++ [event state last msg]
    syncFailed :=
      if r.message.isSome then
        [event state { SyncStats.default with fileTransfers := last.fileTransfers } msg]
      else []
    syncCompleted :=
      if r.message.isSome then []
      else [⟨c.task, c.profile, c.action, c.rcloneDuration, last.bytes, last.errors⟩]
    historyList :=
      if c.listed then
        [⟨c.task, c.profile, c.action, state, c.startedAt, c.endedAt, c.duration, last.bytes,
          last.errors, last.files, truncateString (r.message.getD []) 1000⟩]
      else [] }

-- ============================================================================
-- Flows
-- ============================================================================

/-- `s.replace(pat, "")` -/
def removeFrom (pat : Text) : Nat → Text → Text
  | 0, s => s
  | n + 1, s =>
      match findSplit pat s with
      | some (before, rest) => before ++ removeFrom pat n (rest.drop pat.length)
      | none => s

/-- Of an error that is `TaskFailed(m)`. -/
def friendlyTaskErr (m : Text) : Text :=
  let s := ["syncengine: task failed\n", "syncengine: task failed: "].foldl
    (fun s (pat : String) => removeFrom pat.toList s.length s) m
  let quote (c : Char) : Bool :=
    c = '(' || c = ')' || c = '"' || c = Char.ofNat 39 || c = ' '
  let s := (s.dropWhile quote).rdropWhile quote
  let s :=
    match findSplit "(stderr:".toList s with
    | some (before, _) => trimWs before
    | none => s
  if 200 < s.length then s.take 200 ++ "…".toList else s

/-- The status of the operation and the error that is reported with it. -/
def opOutcome (c : Circumstances) (r : Invocation) : String × Text :=
  let (state, msg) := taskOutcome c r
  if c.runCancelled || state == "cancelled" then ("cancelled", [])
  else if state == "completed" then ("completed", [])
  else ("failed", friendlyTaskErr msg)

def opRecords (c : Circumstances) (r : Invocation) : List LogRecord :=
  if (opOutcome c r).1 == "failed" then
    [⟨c.time, .error, "flow op failed".toList,
      [("flow", c.flow), ("op", c.op), ("err", (taskOutcome c r).2)]⟩]
  else []

/-- The operation of a flow; its events go to clients of boards as well. -/
def runOp (c : Circumstances) (fromStr : Text → Option Json) (r : Invocation) : Frames F :=
  let (status, error) := opOutcome c r
  { (runSync c fromStr r : Frames F) with
    flowExecution := [⟨c.flow, c.op, status, error⟩]
    boardExecution := [⟨c.flow, c.op, [], status, error⟩] }

-- ============================================================================
-- Boards
-- ============================================================================

/-- What `run_board` ends with when no edge before has failed and no other is
    left. -/
def boardError (c : Circumstances) (r : Invocation) : Option (String × Text) :=
  match r.message with
  | none => if c.runCancelled then some ("cancelled", "board run was cancelled".toList) else none
  | some raw =>
      if c.runCancelled || r.errCancelled then some ("cancelled", "board run was cancelled".toList)
      else if c.stopOnError then
        some ("failed", "board: stopped at edge ".toList ++ c.edge ++ ": ".toList ++ raw)
      else some ("failed", "board: completed with errors (first: ".toList ++ raw ++ ")".toList)

def boardRecords (c : Circumstances) (r : Invocation) : List LogRecord :=
  match boardError c r with
  | some (_, err) =>
      [⟨c.time, .error, "boardengine: finished with error".toList,
        [("board", c.board), ("err", err)]⟩]
  | none =>
      [⟨c.time, .info, "boardengine: completed".toList, [("board", c.board), ("run", c.runId)]⟩]

/-- The event of the edge. -/
def edgeEvent (c : Circumstances) (r : Invocation) : List BoardExecutionEvent :=
  if c.runCancelled || r.errCancelled then []
  else
    match r.message with
    | some raw => [⟨c.board, c.node, c.edge, "failed", raw⟩]
    | none => [⟨c.board, c.node, c.edge, "completed", c.action⟩]

/-- The last edge of a board. -/
def runEdge (c : Circumstances) (r : Invocation) : Frames F :=
  let (status, err) := (boardError c r).getD ("completed", [])
  { boardExecution := edgeEvent c r ++ [⟨c.board, [], [], status, err⟩]
    boardsStatus := [⟨c.runId, c.board, status, if status == "failed" then err else []⟩] }

-- ============================================================================
-- All of them
-- ============================================================================

/-- On whose behalf rclone runs line by line. -/
inductive Use where
  | sync
  | flow
  | board
deriving DecidableEq

/-- What is logged. -/
def Use.records (u : Use) (c : Circumstances) (fromStr : Text → Option Json) (r : Invocation) :
    List LogRecord :=
  match u with
  | .sync => syncRecords (F := F) c fromStr r
  | .flow => syncRecords (F := F) c fromStr r ++ opRecords c r
  | .board => boardRecords c r

def Use.frames (u : Use) (c : Circumstances) (fromStr : Text → Option Json) (r : Invocation) :
    Frames F :=
  c.logged (u.records (F := F) c fromStr r) <|
    match u with
    | .sync => runSync c fromStr r
    | .flow => runOp c fromStr r
    | .board => runEdge c r

-- ============================================================================
-- Requests show what the redactor leaves
-- ============================================================================

/-- What the redactor makes of the command and the output that an error has in it. -/
def Request.redacted (q : Request) (args : List Text) (out : ProcessOutput) : Option (List Text) :=
  match q with
  | .mapped => (runChecked args out).map fun e => [sanitize e.command, stderrField e.stderr]
  | .remotesAdd =>
      match out.exit with
      | .ioError e => some [sanitize (joined args), stderrField e]
      | .code n =>
          if n ≠ 0 then some [stderrField (if out.stderr = [] then out.stdout else out.stderr)]
          else none
  | .verify _ _ | .remotesTest _ | .fsList _ =>
      (runChecked args out).map fun e => [stderrField e.stderr]
  | .oauthComplete =>
      match out.exit with
      | .ioError e => some [sanitize (RunFailed.display ⟨joined args, e⟩)]
      | .code n => if n ≠ 0 then some [stderrField out.stderr] else none

theorem map_eq_map_iff {α β γ : Type} {f : α → β} {g : α → γ}
    (h : ∀ x y, f x = f y ↔ g x = g y) (a b : Option α) :
    a.map f = b.map f ↔ a.map g = b.map g := by
  cases a <;> cases b <;> simp [h]

theorem fromRclone_eq_iff (e e' : RunFailed) :
    fromRclone e = fromRclone e' ↔
      [sanitize e.command, stderrField e.stderr] = [sanitize e'.command, stderrField e'.stderr] := by
  constructor
  · intro h
    have hdata := congrArg ErrorFrame.data h
    simp only [fromRclone, List.cons.injEq, Prod.mk.injEq, true_and, and_true] at hdata
    rw [hdata.1, hdata.2]
  · intro h
    simp only [List.cons.injEq, and_true] at h
    simp only [fromRclone, h.1, h.2]

theorem outputError_eq_iff (code : String) (message : Text) (data : List (String × Text))
    (output output' : Text) :
    outputError code message data output = outputError code message data output' ↔
      [stderrField output] = [stderrField output'] := by
  simp only [outputError, ErrorFrame.mk.injEq, true_and, List.append_cancel_left_eq,
    List.cons.injEq, Prod.mk.injEq, and_true, and_self]

/-- Two failures of the same kind. -/
theorem error_same_iff (q : Request) (args₁ args₂ : List Text) (exit : Rclone.Exit)
    (stdout₁ stdout₂ stderr₁ stderr₂ : Text) :
    q.error args₁ ⟨stdout₁, stderr₁, exit⟩ = q.error args₂ ⟨stdout₂, stderr₂, exit⟩ ↔
      q.redacted args₁ ⟨stdout₁, stderr₁, exit⟩ = q.redacted args₂ ⟨stdout₂, stderr₂, exit⟩ := by
  cases q with
  | mapped => exact map_eq_map_iff fromRclone_eq_iff _ _
  | remotesAdd =>
    cases exit with
    | ioError e =>
      simp only [Request.error, Request.redacted, Option.some.injEq]
      exact fromRclone_eq_iff _ _
    | code n =>
      by_cases hn : n = 0
      · simp [Request.error, Request.redacted, hn]
      · simp only [Request.error, Request.redacted, ne_eq, hn, not_false_eq_true, if_true,
          Option.some.injEq]
        exact outputError_eq_iff _ _ _ _ _
  | verify code name => exact map_eq_map_iff (fun _ _ => outputError_eq_iff _ _ _ _ _) _ _
  | remotesTest name => exact map_eq_map_iff (fun _ _ => outputError_eq_iff _ _ _ _ _) _ _
  | fsList path => exact map_eq_map_iff (fun _ _ => outputError_eq_iff _ _ _ _ _) _ _
  | oauthComplete =>
    cases exit with
    | ioError e => simp [Request.error, Request.redacted]
    | code n =>
      by_cases hn : n = 0
      · simp [Request.error, Request.redacted, hn]
      · simp [Request.error, Request.redacted, hn]

-- ============================================================================
-- The others show the text itself
-- ============================================================================

variable {fromStr : Text → Option Json} {r₁ r₂ : Invocation}

/-- Only the text says whether a failure is a cancellation. -/
theorem message_eq_cancelled (r : Invocation) :
    r.errCancelled = true ↔ r.message = some "cancelled".toList := by
  unfold Invocation.errCancelled Invocation.message
  cases r.exit with
  | ioError e => simp
  | code n =>
    by_cases hcancelled : r.cancelled = true
    · simp [hcancelled]
    · by_cases hn : n = 0
      · simp [hcancelled, hn]
      · simp [hcancelled, hn]

theorem errCancelled_congr (h : r₁.message = r₂.message) : r₁.errCancelled = r₂.errCancelled := by
  rw [Bool.eq_iff_iff, message_eq_cancelled, message_eq_cancelled, h]

theorem taskOutcome_congr (c : Circumstances) (h : r₁.message = r₂.message) :
    taskOutcome c r₁ = taskOutcome c r₂ := by
  simp only [taskOutcome, h, errCancelled_congr h]

theorem boardError_congr (c : Circumstances) (h : r₁.message = r₂.message) :
    boardError c r₁ = boardError c r₂ := by
  simp only [boardError, h, errCancelled_congr h]

/-- The runs fail with the same text, and the same is read from their lines where
    statistics are reported. -/
def Use.Alike (u : Use) (F : Type) [F64Arith F] (fromStr : Text → Option Json)
    (r₁ r₂ : Invocation) : Prop :=
  r₁.message = r₂.message ∧
    (u ≠ .board → r₁.progress F fromStr = r₂.progress F fromStr ∧
      r₁.stats F fromStr = r₂.stats F fromStr)

/-- Everything is logged, and the queue of the client is empty. -/
def Circumstances.attentive : Circumstances where
  task := []
  profile := []
  action := []
  startedAt := []
  endedAt := []
  duration := 0
  rcloneDuration := 0
  taskCancelled := false
  runCancelled := false
  flow := []
  op := []
  runId := []
  board := []
  node := []
  edge := []
  stopOnError := true
  time := 0
  loggerLevel := .debug
  bridgeLevel := .debug
  room := true
  buffer := ⟨1, [], 0⟩
  later := []
  limit := 1
  minLevel := none
  since := none
  listed := true

theorem logLine_attentive (rs : List LogRecord) : Circumstances.attentive.logLine rs = rs := by
  simp [Circumstances.logLine, Circumstances.accepted, Circumstances.attentive, LogLevel.rank]

/-- The record of a sync has the text in it. -/
theorem message_of_records {c : Circumstances}
    (h : syncRecords (F := F) c fromStr r₁ = syncRecords (F := F) c fromStr r₂) :
    r₁.message = r₂.message := by
  unfold syncRecords at h
  cases h₁ : r₁.message with
  | none =>
    cases h₂ : r₂.message with
    | none => rfl
    | some raw => simp [h₁, h₂] at h
  | some raw =>
    cases h₂ : r₂.message with
    | none => simp [h₁, h₂] at h
    | some raw' =>
      simp only [h₁, h₂, List.cons.injEq, LogRecord.mk.injEq, Prod.mk.injEq, true_and,
        and_true] at h
      rw [h.2]

/-- The events of a sync have the statistics in them. -/
theorem stats_of_progress {c : Circumstances}
    (h : (runSync c fromStr r₁ : Frames F).syncProgress = (runSync c fromStr r₂).syncProgress) :
    r₁.progress F fromStr = r₂.progress F fromStr ∧ r₁.stats F fromStr = r₂.stats F fromStr := by
  obtain ⟨hrunning, hlast⟩ := List.append_inj' h rfl
  constructor
  · refine List.map_injective_iff.mpr ?_ hrunning
    intro s s' hs
    exact (SyncProgressEvent.mk.inj hs).2.2.2.2.1
  · exact (SyncProgressEvent.mk.inj (List.cons.inj hlast).1).2.2.2.2.1

theorem syncRecords_length (c : Circumstances) (fromStr : Text → Option Json) (r : Invocation) :
    (syncRecords (F := F) c fromStr r).length = 1 := by
  unfold syncRecords
  cases r.message <;> rfl

/-- The end of a board that is not stopped and stops at the first error. -/
theorem boardError_attentive (r : Invocation) :
    (r.message = none ∧ boardError .attentive r = none) ∨
      (r.message = some "cancelled".toList ∧
        boardError .attentive r = some ("cancelled", "board run was cancelled".toList)) ∨
      ∃ raw, r.message = some raw ∧
        boardError .attentive r = some ("failed", "board: stopped at edge ".toList ++
          Circumstances.attentive.edge ++ ": ".toList ++ raw) := by
  cases hm : r.message with
  | none => exact .inl ⟨rfl, by simp [boardError, hm, Circumstances.attentive]⟩
  | some raw =>
    by_cases hc : r.errCancelled = true
    · have hraw : raw = "cancelled".toList :=
        Option.some.inj (hm.symm.trans ((message_eq_cancelled r).mp hc))
      exact .inr (.inl ⟨by rw [hraw], by simp [boardError, hm, hc]⟩)
    · exact .inr (.inr ⟨raw, rfl, by simp [boardError, hm, hc, Circumstances.attentive]⟩)

omit [F64Arith F] in
/-- The status of a board's run has the text in it. -/
theorem message_of_status (h : (runEdge .attentive r₁ : Frames F).boardsStatus =
    (runEdge .attentive r₂ : Frames F).boardsStatus) : r₁.message = r₂.message := by
  rcases boardError_attentive r₁ with ⟨h₁, he₁⟩ | ⟨h₁, he₁⟩ | ⟨raw₁, h₁, he₁⟩ <;>
    rcases boardError_attentive r₂ with ⟨h₂, he₂⟩ | ⟨h₂, he₂⟩ | ⟨raw₂, h₂, he₂⟩ <;>
    simp [runEdge, he₁, he₂] at h <;> rw [h₁, h₂]
  rw [h]

theorem alike_of_frames {u : Use}
    (h : ∀ c, u.frames c fromStr r₁ = (u.frames c fromStr r₂ : Frames F)) :
    u.Alike F fromStr r₁ r₂ := by
  have hc := h .attentive
  have hlines : u.records (F := F) .attentive fromStr r₁ = u.records (F := F) .attentive fromStr r₂ := by
    have hlog : (u.frames .attentive fromStr r₁ : Frames F).logLine =
        (u.frames .attentive fromStr r₂ : Frames F).logLine := by rw [hc]
    simpa only [Use.frames, Circumstances.logged, logLine_attentive] using hlog
  cases u with
  | sync =>
    have hprogress := congrArg Frames.syncProgress hc
    exact ⟨message_of_records hlines, fun _ => stats_of_progress (c := .attentive) hprogress⟩
  | flow =>
    have hsync := (List.append_inj hlines (by rw [syncRecords_length, syncRecords_length])).1
    have hprogress := congrArg Frames.syncProgress hc
    exact ⟨message_of_records hsync, fun _ => stats_of_progress (c := .attentive) hprogress⟩
  | board =>
    have hstatus := congrArg Frames.boardsStatus hc
    exact ⟨message_of_status (F := F) hstatus, fun hne => absurd rfl hne⟩

theorem frames_of_alike {u : Use} (h : u.Alike F fromStr r₁ r₂) (c : Circumstances) :
    u.frames c fromStr r₁ = (u.frames c fromStr r₂ : Frames F) := by
  obtain ⟨hm, hstats⟩ := h
  have htask := taskOutcome_congr c hm
  have hop : opOutcome c r₁ = opOutcome c r₂ := by simp only [opOutcome, htask]
  have hboard := boardError_congr c hm
  have hedge : edgeEvent c r₁ = edgeEvent c r₂ := by
    simp only [edgeEvent, hm, errCancelled_congr hm]
  cases u with
  | sync =>
    obtain ⟨hprogress, hlast⟩ := hstats (by decide)
    simp only [Use.frames, Use.records, syncRecords, runSync, hm, htask, hprogress, hlast]
  | flow =>
    obtain ⟨hprogress, hlast⟩ := hstats (by decide)
    simp only [Use.frames, Use.records, syncRecords, opRecords, runOp, runSync, hm, htask, hop,
      hprogress, hlast]
  | board => simp only [Use.frames, Use.records, boardRecords, runEdge, hboard, hedge]

theorem frames_alike_iff (u : Use) (fromStr : Text → Option Json) (r₁ r₂ : Invocation) :
    (∀ c, u.frames c fromStr r₁ = (u.frames c fromStr r₂ : Frames F)) ↔ u.Alike F fromStr r₁ r₂ :=
  ⟨alike_of_frames, frames_of_alike⟩

/-- A text in the command line of a run that fails is seen. -/
theorem command_shows (u : Use) (fromStr : Text → Option Json) (r : Invocation) {n : Int}
    (hexit : r.exit = .code n) (hn : n ≠ 0) (hcancelled : r.cancelled = false)
    (args₁ args₂ : List Text) :
    (∀ c, u.frames c fromStr { r with args := args₁ } =
        (u.frames c fromStr { r with args := args₂ } : Frames F)) ↔
      joined args₁ = joined args₂ := by
  have hmessage : ∀ args, Invocation.message { r with args } =
      some ("rclone ".toList ++ joined args ++ (": exit ".toList ++ Rclone.toText n ++
        " (stderr: ".toList ++ truncateString r.stderr 500 ++ ")".toList)) := by
    intro args
    simp only [Invocation.message, hexit, hcancelled, ne_eq, hn, not_false_eq_true, if_true,
      Bool.false_eq_true, if_false, List.append_assoc]
    rfl
  rw [frames_alike_iff, Use.Alike, hmessage, hmessage, Option.some.injEq,
    List.append_cancel_right_eq, List.append_cancel_left_eq]
  exact ⟨And.left, fun h => ⟨h, fun _ => ⟨rfl, rfl⟩⟩⟩

end

-- ============================================================================
-- A token in a connection string
-- ============================================================================

/-- A sync from a remote that is given with its token. -/
def denied (token : String) : Invocation where
  args := ["sync".toList, "drive,token=".toList ++ token.toList ++ ":docs".toList, "/docs".toList,
    "--update".toList]
  arrivals := [.line .stderr "access denied".toList]
  late := []
  exit := .code 1
  cancelled := false

def shown (u : Use) (token : String) : Frames Nat :=
  u.frames .attentive (fun _ => none) (denied token)

end GnDrive.Rpc
