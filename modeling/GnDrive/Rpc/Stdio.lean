/-
  GnDrive.Rpc.Stdio

  The stdio transport (`rpc/stdio.rs`): one reader, one serial writer, a pool of
  request workers, the forwarder of events, and the shutdown, which runs on
  whichever thread asks for it first.  Every access of a lock is one step.

  A line is what `serde_json` makes of it.  Lines are numbered as they are read,
  and a job and a response carry the number of their line, which the program
  does not: it is there to say which request a response is for.  A write fails
  when the peer is gone, and then all later ones do.

  `main` ends the process when the reader returns, and the shutdown ends it after
  its last frame.
-/

import GnDrive.Events.Bridge
import GnDrive.Lib.System
import GnDrive.Rpc.Params
import Mathlib.Algebra.Order.BigOperators.Group.Finset
import Mathlib.Data.Fintype.BigOperators

namespace GnDrive.Rpc.Stdio

/-! ## Requests -/

/-- `data` is none where the line is no JSON. -/
inductive LineRead where
  | line (data : Option Json)
  | tooLong
  | eof

structure Request where
  id : Json
  method : Text
  params : JsonDict

def isValidId : Json → Bool
  | .string _ | .number _ => true
  | _ => false

/-- The checks of `handle_line`.  An error goes out with the id beside it. -/
def parseRequest (data : Option Json) : Except (Json × RpcError) Request :=
  let invalid (message : String) : RpcError := .new "invalid_request" message.toList
  match data with
  | none => .error (.null, invalid "request is not valid JSON")
  | some (.object dict) =>
      match JsonDict.get dict "id".toList with
      | none => .error (.null, invalid "request id must be a number or string")
      | some id =>
          if isValidId id then
            match JsonDict.get dict "method".toList with
            | some (.string (c :: m)) =>
                match JsonDict.get dict "params".toList with
                | none | some .null => .ok ⟨id, c :: m, []⟩
                | some (.object p) => .ok ⟨id, c :: m, p⟩
                | some _ =>
                    .error (id, .invalidParams "params".toList
                      (some "params must be an object".toList))
            | _ => .error (id, invalid "missing required field: method")
          else .error (.null, invalid "request id must be a number or string")
  | some _ => .error (.null, invalid "request must be a JSON object")

structure Job where
  line : Nat
  request : Request

-- ============================================================================
-- Frames
-- ============================================================================

/-- Why the service shuts down. -/
inductive Reason where
  | eof
  | signal
  | request
deriving DecidableEq, Repr

inductive Frame where
  | hello
  | event (e : Events.Frame)
  | response (line : Nat) (id : Json) (outcome : Except RpcError Json)
  | shutdown (reason : Reason)

namespace Frame

def isShutdown : Frame → Bool
  | shutdown _ => true
  | _ => false

/-- It is a response to the line. -/
def answers (n : Nat) : Frame → Bool
  | response m _ _ => m == n
  | _ => false

end Frame

/-- Droppable events are discarded once this many frames are queued. -/
def DROPPABLE_LIMIT : Nat := 512

/-- The output queue; `pending` counts the frames queued or being written. -/
structure Out where
  queue : List Frame
  pending : Nat
  closed : Bool

namespace Out

def enqueue (o : Out) (frame : Frame) (droppable : Bool) : Out :=
  if o.closed || (droppable && DROPPABLE_LIMIT < o.pending) then o
  else { o with pending := o.pending + 1, queue := o.queue ++ [frame] }

/-- The last frame closes the output with the same access. -/
def enqueueFinal (o : Out) (frame : Frame) : Out :=
  { closed := true, pending := o.pending + 1, queue := o.queue ++ [frame] }

end Out

-- ============================================================================
-- Threads
-- ============================================================================

abbrev WORKER_SLOTS : Nat := 8

/-- Where the reader is. -/
inductive ReaderPc where
  | starting
  /-- The workers are started. -/
  | announcing
  /-- At the test of the loop. -/
  | looping
  /-- In `next_line`. -/
  | reading
  /-- At the test of `handle_line`. -/
  | got (n : Nat) (data : Option Json)
  | parsed (job : Job)
  | replying (n : Nat) (id : Json) (e : RpcError)
  /-- The request counts as in flight. -/
  | counted (job : Job)
  | unsent
  | atEof
  | shuttingDown
  | returned

/-- The reader has read the line `n`. -/
def ReaderPc.next (n : Nat) : LineRead → ReaderPc
  | .line data => got n data
  | .tooLong => replying n .null (.new "invalid_request" "request exceeds 1 MiB".toList)
  | .eof => atEof

/-- The reader has checked the line `n`. -/
def ReaderPc.checked (n : Nat) : Except (Json × RpcError) Request → ReaderPc
  | .ok request => parsed ⟨n, request⟩
  | .error (id, e) => replying n id e

/-- The reader returns when the shutdown that it runs is over. -/
def ReaderPc.afterShutdown : ReaderPc → ReaderPc
  | shuttingDown => returned
  | pc => pc

theorem ReaderPc.afterShutdown_cases (pc : ReaderPc) :
    pc.afterShutdown = pc ∨ pc = shuttingDown ∧ pc.afterShutdown = returned := by
  cases pc with
  | shuttingDown => exact .inr ⟨rfl, rfl⟩
  | _ => exact .inl rfl

inductive WorkerPc where
  | idle
  | handling (job : Job)
  | answered (method : Text)

/-- How `Dispatcher::handle` ends. -/
inductive Handled where
  | ok (result : Json)
  | err (e : RpcError)
  | panicked

def Handled.outcome : Handled → Except RpcError Json
  | ok result => .ok result
  | err e => .error e
  | panicked => .error (.new "internal_error" "request handler panicked".toList)

/-- How far `begin_shutdown` is. -/
inductive ShutdownPc where
  | notBegun
  | waiting (reason : Reason)
  | closingJobs (reason : Reason)
  | tearingDown (reason : Reason)
  | flushing
  | done (flushed : Bool)
deriving DecidableEq, Repr

/-- `handed` lists the frames the sink was given and `written` those it could
    write; `read` lists the lines read.  `inTime` are the requests that were
    counted before the shutdown was through with its wait, and `timedOut` says
    that the wait was given up. -/
structure Service where
  out : Out
  writing : Option Frame
  handed : List Frame
  written : List Frame
  peerGone : Bool
  read : List LineRead
  reader : ReaderPc
  stopping : Bool
  didShutdown : Bool
  inFlight : Nat
  /-- The sending half of the channel is there. -/
  jobs : Bool
  channel : List Job
  worker : Fin WORKER_SLOTS → WorkerPc
  /-- Threads spawned to call `begin_shutdown`. -/
  spawned : List Reason
  shutdown : ShutdownPc
  exited : Bool
  inTime : List Nat
  timedOut : Bool

/-- Who calls `begin_shutdown`. -/
inductive ShutdownCaller where
  | reader
  | signal
  | spawned (reason : Reason)

inductive Act where
  | startWorkers
  | hello
  | check
  | line (l : LineRead)
  | accept
  | reply
  | count
  | send
  | leaveUnsent
  | take (i : Fin WORKER_SLOTS)
  | respond (i : Fin WORKER_SLOTS) (h : Handled)
  | leave (i : Fin WORKER_SLOTS)
  | event (e : Events.Frame)
  | pop
  | write
  | peerLeaves
  | beginShutdown (c : ShutdownCaller)
  | waited (timedOut : Bool)
  | closeJobs
  | final
  | flushed (timedOut : Bool)
  | exitMain

-- ============================================================================
-- Steps
-- ============================================================================

namespace ShutdownPc

/-- The wait for the requests in flight is over. -/
def waitOver : ShutdownPc → Bool
  | notBegun | waiting _ => false
  | _ => true

/-- The last frame is queued. -/
def sent : ShutdownPc → Bool
  | flushing | done _ => true
  | _ => false

theorem waitOver_of_sent {pc : ShutdownPc} (h : pc.sent = true) : pc.waitOver = true := by
  cases pc with
  | flushing => rfl
  | done => rfl
  | _ => cases h

end ShutdownPc

namespace Service

def initial : Service where
  out := ⟨[], 0, false⟩
  writing := none
  handed := []
  written := []
  peerGone := false
  read := []
  reader := .starting
  stopping := false
  didShutdown := false
  inFlight := 0
  jobs := false
  channel := []
  worker := fun _ => .idle
  spawned := []
  shutdown := .notBegun
  exited := false
  inTime := []
  timedOut := false

def enqueue (s : Service) (frame : Frame) (droppable : Bool) : Service :=
  { s with out := s.out.enqueue frame droppable }

def setWorker (s : Service) (i : Fin WORKER_SLOTS) (pc : WorkerPc) : Service :=
  { s with worker := Function.update s.worker i pc }

/-- The first call of `begin_shutdown` sets the flags and goes on to the wait. -/
def beginShutdown (s : Service) (reason : Reason) : Service :=
  if s.didShutdown then s
  else { s with didShutdown := true, stopping := true, shutdown := .waiting reason }

/-- Steps of the reader. -/
def readerStep (s : Service) : Act → Option Service
  | .startWorkers =>
      match s.reader with
      | .starting => some { s with jobs := true, reader := .announcing }
      | _ => none
  | .hello =>
      match s.reader with
      | .announcing => some { s.enqueue .hello false with reader := .looping }
      | _ => none
  | .check =>
      match s.reader with
      | .looping => some { s with reader := if s.stopping then .returned else .reading }
      | _ => none
  | .line l =>
      match s.reader with
      | .reading =>
          some { s with read := s.read ++ [l], reader := .next s.read.length l }
      | _ => none
  | .accept =>
      match s.reader with
      | .got n data =>
          some { s with
            reader := if s.stopping then .looping else .checked n (parseRequest data) }
      | _ => none
  | .reply =>
      match s.reader with
      | .replying n id e =>
          some { s.enqueue (.response n id (.error e)) false with reader := .looping }
      | _ => none
  | .count =>
      match s.reader with
      | .parsed job =>
          some { s with
            inFlight := s.inFlight + 1
            inTime := if s.shutdown.waitOver then s.inTime else s.inTime ++ [job.line]
            reader := .counted job }
      | _ => none
  | .send =>
      match s.reader with
      | .counted job =>
          some (if s.jobs then { s with channel := s.channel ++ [job], reader := .looping }
            else { s with reader := .unsent })
      | _ => none
  | .leaveUnsent =>
      match s.reader with
      | .unsent => some { s with inFlight := s.inFlight - 1, reader := .looping }
      | _ => none
  | _ => none

/-- Steps of the workers. -/
def workerStep (s : Service) : Act → Option Service
  | .take i =>
      match s.worker i, s.channel with
      | .idle, job :: rest =>
          some { s.setWorker i (.handling job) with channel := rest }
      | _, _ => none
  | .respond i h =>
      match s.worker i with
      | .handling job =>
          some ((s.enqueue (.response job.line job.request.id h.outcome) false).setWorker i
            (.answered job.request.method))
      | _ => none
  | .leave i =>
      match s.worker i with
      | .answered method =>
          some { s.setWorker i .idle with
            spawned := if method = "app.quit".toList then .request :: s.spawned else s.spawned
            inFlight := s.inFlight - 1 }
      | _ => none
  | _ => none

/-- Steps of the writer and of the forwarder of events. -/
def outStep (s : Service) : Act → Option Service
  | .event e => some (s.enqueue (.event e) (e.name = Events.LOG_LINE))
  | .pop =>
      match s.writing, s.out.queue with
      | none, frame :: rest =>
          some { s with writing := some frame, out := { s.out with queue := rest } }
      | _, _ => none
  | .write =>
      match s.writing with
      | some frame =>
          some { s with
            writing := none
            handed := s.handed ++ [frame]
            written := if s.peerGone then s.written else s.written ++ [frame]
            out := { s.out with pending := s.out.pending - 1 }
            spawned := if s.peerGone then .eof :: s.spawned else s.spawned }
      | none => none
  | .peerLeaves => some { s with peerGone := true }
  | _ => none

/-- Steps of the shutdown; its teardown of the container is not modelled. -/
def shutdownStep (exitOnShutdown : Bool) (s : Service) : Act → Option Service
  | .beginShutdown .reader =>
      match s.reader with
      | .atEof =>
          some { s.beginShutdown .eof with
            reader := if s.didShutdown then .returned else .shuttingDown }
      | _ => none
  | .beginShutdown .signal => some (s.beginShutdown .signal)
  | .beginShutdown (.spawned reason) =>
      if s.spawned.contains reason then
        some { s.beginShutdown reason with spawned := s.spawned.erase reason }
      else none
  | .waited timedOut =>
      match s.shutdown with
      | .waiting reason =>
          if timedOut || s.inFlight = 0 then
            some { s with shutdown := .closingJobs reason, timedOut := timedOut }
          else none
      | _ => none
  | .closeJobs =>
      match s.shutdown with
      | .closingJobs reason => some { s with jobs := false, shutdown := .tearingDown reason }
      | _ => none
  | .final =>
      match s.shutdown with
      | .tearingDown reason =>
          some { s with out := s.out.enqueueFinal (.shutdown reason), shutdown := .flushing }
      | _ => none
  | .flushed timedOut =>
      match s.shutdown with
      | .flushing =>
          if timedOut || s.out.pending = 0 then
            some { s with
              shutdown := .done (!timedOut)
              exited := exitOnShutdown
              reader := s.reader.afterShutdown }
          else none
      | _ => none
  | .exitMain =>
      match s.reader with
      | .returned => some { s with exited := true }
      | _ => none
  | _ => none

def step (exitOnShutdown : Bool) (s : Service) (a : Act) : Option Service :=
  if s.exited then none
  else s.readerStep a <|> s.workerStep a <|> s.outStep a <|> s.shutdownStep exitOnShutdown a

end Service

def service (exitOnShutdown : Bool) : System Service Act where
  init s := s = .initial
  step := Service.step exitOnShutdown

section

variable {s s' : Service} {a : Act} {exitOnShutdown : Bool}

theorem Service.step_cases (hs : s.step exitOnShutdown a = some s') :
    s.readerStep a = some s' ∨ s.workerStep a = some s' ∨ s.outStep a = some s' ∨
      s.shutdownStep exitOnShutdown a = some s' := by
  unfold Service.step at hs
  split at hs
  · cases hs
  · simp only [Option.orElse_eq_orElse, Option.orElse_eq_or, Option.or_eq_some_iff] at hs
    rcases hs with h | ⟨-, h | ⟨-, h | ⟨-, h⟩⟩⟩
    · exact .inl h
    · exact .inr (.inl h)
    · exact .inr (.inr (.inl h))
    · exact .inr (.inr (.inr h))

-- ============================================================================
-- The output
-- ============================================================================

namespace Service

/-- All that was put into the output so far, in order. -/
def frames (s : Service) : List Frame := s.handed ++ s.writing.toList ++ s.out.queue

/-- The step leaves the writer and the shutdown alone, and puts at most one frame
    into the output, which is not the last one. -/
structure Pushed (s s' : Service) : Prop where
  out : s'.out = s.out ∨ ∃ f d, f.isShutdown = false ∧ s'.out = s.out.enqueue f d
  writing : s'.writing = s.writing
  handed : s'.handed = s.handed
  written : s'.written = s.written
  peerGone : s'.peerGone = s.peerGone
  shutdown : s'.shutdown = s.shutdown
  stopping : s'.stopping = s.stopping
  didShutdown : s'.didShutdown = s.didShutdown

theorem Pushed.of_out (hout : s'.out = s.out)
    (h : s'.writing = s.writing ∧ s'.handed = s.handed ∧ s'.written = s.written ∧
      s'.peerGone = s.peerGone ∧ s'.shutdown = s.shutdown ∧ s'.stopping = s.stopping ∧
      s'.didShutdown = s.didShutdown) : Pushed s s' := by
  obtain ⟨h₁, h₂, h₃, h₄, h₅, h₆, h₇⟩ := h
  exact ⟨.inl hout, h₁, h₂, h₃, h₄, h₅, h₆, h₇⟩

theorem readerStep_pushed (hs : s.readerStep a = some s') : Pushed s s' := by
  cases a with
  | hello =>
    simp only [readerStep] at hs
    split at hs <;> cases hs
    exact ⟨.inr ⟨.hello, false, rfl, rfl⟩, rfl, rfl, rfl, rfl, rfl, rfl, rfl⟩
  | reply =>
    simp only [readerStep] at hs
    split at hs <;> cases hs
    exact ⟨.inr ⟨_, false, rfl, rfl⟩, rfl, rfl, rfl, rfl, rfl, rfl, rfl⟩
  | send =>
    simp only [readerStep] at hs
    split at hs <;> cases hs
    split <;> exact .of_out rfl (by simp)
  | startWorkers | check | line | accept | count | leaveUnsent =>
    simp only [readerStep] at hs
    split at hs <;> cases hs
    exact .of_out rfl (by simp)
  | _ => cases hs

theorem workerStep_pushed (hs : s.workerStep a = some s') : Pushed s s' := by
  cases a with
  | take i =>
    simp only [workerStep] at hs
    split at hs <;> cases hs
    exact .of_out rfl (by simp [setWorker])
  | respond i h =>
    simp only [workerStep] at hs
    split at hs <;> cases hs
    exact ⟨.inr ⟨_, false, rfl, rfl⟩, rfl, rfl, rfl, rfl, rfl, rfl, rfl⟩
  | leave i =>
    simp only [workerStep] at hs
    split at hs <;> cases hs
    exact .of_out rfl (by simp [setWorker])
  | _ => cases hs

end Service

theorem Out.enqueue_eq (o : Out) (f : Frame) (d : Bool) :
    o.enqueue f d = o ∨
      o.closed = false ∧
        o.enqueue f d = { o with pending := o.pending + 1, queue := o.queue ++ [f] } := by
  unfold Out.enqueue
  split
  · exact .inl rfl
  · rename_i h
    refine .inr ⟨?_, rfl⟩
    cases hc : o.closed
    · rfl
    · simp [hc] at h

/-- What holds of the output: nothing is queued behind the shutdown frame. -/
structure Output (s : Service) : Prop where
  pending : s.out.pending = s.writing.toList.length + s.out.queue.length
  wrote : s.written <+: s.handed
  wroteAll : s.peerGone = false → s.written = s.handed
  closed : s.out.closed = s.shutdown.sent
  accepts : s.out.closed = false → ∀ f ∈ s.frames, f.isShutdown = false
  last : s.out.closed = true →
    ∃ pre r, s.frames = pre ++ [.shutdown r] ∧ ∀ f ∈ pre, f.isShutdown = false
  flushed : s.shutdown = .done true → s.out.pending = 0
  flags : s.stopping = s.didShutdown
  begun : s.didShutdown = false → s.shutdown = .notBegun

namespace Output

theorem initial : Output .initial where
  pending := rfl
  wrote := List.prefix_refl _
  wroteAll _ := rfl
  closed := rfl
  accepts _ := by simp [Service.frames, Service.initial]
  last h := by cases h
  flushed h := by cases h
  flags := rfl
  begun _ := rfl

theorem pushed (h : Output s) (hp : Service.Pushed s s') : Output s' := by
  obtain ⟨hout, hw, hh, hwr, hg, hsd, hst, hd⟩ := hp
  -- a frame is only taken by an open output
  have hcases : s'.out = s.out ∨ ∃ f, f.isShutdown = false ∧ s.out.closed = false ∧
      s'.out = { s.out with pending := s.out.pending + 1, queue := s.out.queue ++ [f] } := by
    rcases hout with hout | ⟨f, d, hf, hout⟩
    · exact .inl hout
    · rcases s.out.enqueue_eq f d with he | ⟨hc, he⟩
      · exact .inl (hout.trans he)
      · exact .inr ⟨f, hf, hc, hout.trans he⟩
  have hwrote : s'.written <+: s'.handed := by
    rw [hwr, hh]
    exact h.wrote
  have hall : s'.peerGone = false → s'.written = s'.handed := by
    rw [hwr, hh, hg]
    exact h.wroteAll
  have hflags : s'.stopping = s'.didShutdown := by rw [hst, hd, h.flags]
  have hbegun : s'.didShutdown = false → s'.shutdown = .notBegun := by
    rw [hd, hsd]
    exact h.begun
  rcases hcases with hout | ⟨f, hf, hc, hout⟩
  · have hframes : s'.frames = s.frames := by simp only [Service.frames, hh, hw, hout]
    refine ⟨?_, hwrote, hall, ?_, ?_, ?_, ?_, hflags, hbegun⟩
    · rw [hout, hw]
      exact h.pending
    · rw [hout, hsd]
      exact h.closed
    · rw [hout, hframes]
      exact h.accepts
    · rw [hout, hframes]
      exact h.last
    · rw [hout, hsd]
      exact h.flushed
  · have hframes : s'.frames = s.frames ++ [f] := by
      simp only [Service.frames, hh, hw, hout, List.append_assoc]
    have hclosed : s'.out.closed = false := by rw [hout]; exact hc
    refine ⟨?_, hwrote, hall, ?_, ?_, ?_, ?_, hflags, hbegun⟩
    · rw [hout, hw]
      have := h.pending
      simp only [List.length_append, List.length_singleton]
      omega
    · rw [hclosed, hsd, ← h.closed, hc]
    · intro _ g hg
      rw [hframes] at hg
      rcases List.mem_append.mp hg with hg | hg
      · exact h.accepts hc g hg
      · rw [List.mem_singleton.mp hg]
        exact hf
    · rw [hclosed]
      simp
    · intro hdone
      have hsent := h.closed
      rw [hc, ← hsd, hdone] at hsent
      cases hsent

theorem out_step (h : Output s) (hs : s.outStep a = some s') : Output s' := by
  cases a with
  | event e =>
    simp only [Service.outStep] at hs
    cases hs
    exact h.pushed ⟨.inr ⟨_, _, rfl, rfl⟩, rfl, rfl, rfl, rfl, rfl, rfl, rfl⟩
  | pop =>
    simp only [Service.outStep] at hs
    split at hs <;> cases hs
    rename_i frame rest hw hq
    have hpending := h.pending
    rw [hw, hq] at hpending
    have hframes : ({ s with writing := some frame, out := { s.out with queue := rest } } :
        Service).frames = s.frames := by
      simp [Service.frames, hw, hq]
    refine ⟨?_, h.wrote, h.wroteAll, h.closed, ?_, ?_, h.flushed, h.flags, h.begun⟩
    · simp only [Option.toList_none, Option.toList_some, List.length_nil, List.length_cons] at *
      omega
    · rw [hframes]
      exact h.accepts
    · rw [hframes]
      exact h.last
  | write =>
    simp only [Service.outStep] at hs
    split at hs <;> cases hs
    rename_i frame hw
    have hpending := h.pending
    rw [hw] at hpending
    simp only [Option.toList_some, List.length_singleton] at hpending
    refine ⟨?_, ?_, ?_, h.closed, ?_, ?_, ?_, h.flags, h.begun⟩
    · simp only [Option.toList_none, List.length_nil]
      omega
    · by_cases hg : s.peerGone
      · simp only [hg, if_true]
        exact h.wrote.trans (List.prefix_append _ _)
      · simp only [hg, Bool.false_eq_true, if_false]
        rw [h.wroteAll (by simpa using hg)]
    · intro hg
      have hg' : s.peerGone = false := hg
      simp only [hg', Bool.false_eq_true, if_false]
      rw [h.wroteAll hg']
    · simpa [Service.frames, hw] using h.accepts
    · simpa [Service.frames, hw] using h.last
    · intro hdone
      have := h.flushed hdone
      show s.out.pending - 1 = 0
      omega
  | peerLeaves =>
    cases hs
    refine ⟨h.pending, h.wrote, ?_, h.closed, h.accepts, h.last, h.flushed, h.flags, h.begun⟩
    intro hg
    cases hg
  | _ => cases hs

/-- What a call of `begin_shutdown` does before it waits. -/
theorem beginShutdown (h : Output s) (reason : Reason) : Output (s.beginShutdown reason) := by
  unfold Service.beginShutdown
  split
  · exact h
  · rename_i hd
    have hnot := h.begun (by simpa using hd)
    have hopen : s.out.closed = false := by
      rw [h.closed, hnot]
      rfl
    refine ⟨h.pending, h.wrote, h.wroteAll, hopen, h.accepts, ?_, ?_, rfl, ?_⟩
    · show s.out.closed = true → _
      rw [hopen]
      simp
    · intro hdone
      cases hdone
    · intro hf
      cases hf

/-- The shutdown goes on without touching the output. -/
theorem setShutdown (h : Output s) {pc : ShutdownPc} (hsent : pc.sent = s.shutdown.sent)
    (hdid : s.shutdown ≠ .notBegun) (hdone : pc = .done true → s.out.pending = 0) :
    Output { s with shutdown := pc } where
  pending := h.pending
  wrote := h.wrote
  wroteAll := h.wroteAll
  closed := h.closed.trans hsent.symm
  accepts := h.accepts
  last := h.last
  flushed := hdone
  flags := h.flags
  begun hd := absurd (h.begun hd) hdid

theorem shutdown_step (h : Output s) (hs : s.shutdownStep exitOnShutdown a = some s') :
    Output s' := by
  cases a with
  | beginShutdown c =>
    cases c with
    | reader =>
      simp only [Service.shutdownStep] at hs
      split at hs <;> cases hs
      have hb := h.beginShutdown .eof
      exact hb.pushed (.of_out rfl (by simp))
    | signal =>
      cases hs
      exact h.beginShutdown .signal
    | spawned reason =>
      simp only [Service.shutdownStep] at hs
      split at hs <;> cases hs
      have hb := h.beginShutdown reason
      exact hb.pushed (.of_out rfl (by simp))
  | waited timedOut =>
    simp only [Service.shutdownStep] at hs
    split at hs
    · rename_i reason hpc
      split at hs <;> cases hs
      have hb : Output { s with shutdown := .closingJobs reason } :=
        h.setShutdown (by rw [hpc]; rfl) (by simp [hpc]) (by simp)
      exact hb.pushed (.of_out rfl (by simp))
    · cases hs
  | closeJobs =>
    simp only [Service.shutdownStep] at hs
    split at hs <;> cases hs
    rename_i reason hpc
    have hb : Output { s with shutdown := .tearingDown reason } :=
      h.setShutdown (by rw [hpc]; rfl) (by simp [hpc]) (by simp)
    exact hb.pushed (.of_out rfl (by simp))
  | final =>
    simp only [Service.shutdownStep] at hs
    split at hs <;> cases hs
    rename_i reason hpc
    have hopen : s.out.closed = false := by
      rw [h.closed, hpc]
      rfl
    have hdid : s.shutdown ≠ .notBegun := by simp [hpc]
    have hpending := h.pending
    refine ⟨?_, h.wrote, h.wroteAll, rfl, ?_, ?_, ?_, h.flags, fun hd => absurd (h.begun hd) hdid⟩
    · simp only [Out.enqueueFinal, List.length_append, List.length_singleton]
      omega
    · intro hf
      cases hf
    · intro _
      refine ⟨s.frames, reason, ?_, h.accepts hopen⟩
      simp [Service.frames, Out.enqueueFinal]
    · intro hdone
      cases hdone
  | flushed timedOut =>
    simp only [Service.shutdownStep] at hs
    split at hs
    · rename_i hpc
      split at hs
      · rename_i hwait
        cases hs
        have hdone : ShutdownPc.done (!timedOut) = .done true → s.out.pending = 0 := by
          intro hdone
          cases timedOut with
          | false => simpa using hwait
          | true => cases hdone
        have hb : Output { s with shutdown := .done (!timedOut) } :=
          h.setShutdown (by rw [hpc]; rfl) (by simp [hpc]) hdone
        exact hb.pushed (.of_out rfl (by simp))
      · cases hs
    · cases hs
  | exitMain =>
    simp only [Service.shutdownStep] at hs
    split at hs <;> cases hs
    exact h.pushed (.of_out rfl (by simp))
  | _ => cases hs

theorem step (h : Output s) (hs : s.step exitOnShutdown a = some s') : Output s' := by
  rcases Service.step_cases hs with hr | hw | ho | hsd
  · exact h.pushed (Service.readerStep_pushed hr)
  · exact h.pushed (Service.workerStep_pushed hw)
  · exact h.out_step ho
  · exact h.shutdown_step hsd

end Output

end

end GnDrive.Rpc.Stdio
