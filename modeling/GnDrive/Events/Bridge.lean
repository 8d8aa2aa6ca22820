/-
  GnDrive.Events.Bridge

  The event side of the RPC layer (`rpc/bridge.rs`): bus events become frames
  for the clients.

  Progress waits in a map with the latest event of each key, in the order in
  which the keys came, until the timer thread takes the whole map and delivers
  it frame by frame.  Every other event is delivered by the consumer thread at
  once.  `deliver` puts a frame into the queue of every client, under the lock
  of the subscribers.

  `frames` lists the frames that `deliver` was called with.  The JSON that a
  frame carries is kept as the event it is made from.
-/

import GnDrive.Events.Bus

namespace GnDrive.Events

/-- The concurrency key of a sync: a profile name, or `flowID:opID`. -/
abbrev Key := String

-- ============================================================================
-- Frames and clients
-- ============================================================================

inductive LogLevel where
  | debug
  | info
  | warn
  | error
deriving DecidableEq, Repr

structure LogRecord where
  level : LogLevel
  msg : String
deriving DecidableEq, Repr

/-- A snapshot of the runtime hub; `active` says whether one of its flows is
    `running` or `cancelling`. -/
structure Snapshot where
  revision : Int
  active : Bool
deriving DecidableEq, Repr

inductive Frame where
  | bus (m : Message)
  | log (r : LogRecord)
  | snapshot (s : Snapshot)
  /-- Pushed by the dispatcher (OAuth progress). -/
  | pushed (name data : String)
deriving DecidableEq, Repr

def LOG_LINE : String := "log:line"

def Frame.name : Frame → String
  | bus m => m.event.topic.name
  | log _ => LOG_LINE
  | snapshot _ => Topic.runtimeSnapshot.name
  | pushed name _ => name

def SUBSCRIBER_CAPACITY : Nat := 4096
def DROPPABLE_LIMIT : Nat := 512

/-- A client: what waits in its queue and what it has received. -/
structure Subscriber where
  queue : List Frame
  received : List Frame
deriving DecidableEq, Repr

namespace Subscriber

/-- The loop of `deliver`, with the number of tries left. -/
def offer (f : Frame) (droppable : Bool) : Nat → Subscriber → Subscriber
  | 0, s => s
  | n + 1, s =>
      match Channel.trySend SUBSCRIBER_CAPACITY s.queue f with
      | some q => { s with queue := q }
      | none => if droppable then s else offer f droppable n { s with queue := s.queue.tail }

def deliver (f : Frame) (droppable : Bool) (s : Subscriber) : Subscriber :=
  if droppable && DROPPABLE_LIMIT ≤ s.queue.length then s else s.offer f droppable 8

def recv (s : Subscriber) : Subscriber :=
  { queue := s.queue.tail, received := s.received ++ s.queue.head?.toList }

/-- What the client has seen or will see of the frames so far. -/
def seen (s : Subscriber) : List Frame := s.received ++ s.queue

end Subscriber

-- ============================================================================
-- Timers
-- ============================================================================

/-- `BridgeTimings`, in milliseconds. -/
structure BridgeTimings where
  progressFlush : Nat
  runtimeInterval : Nat
  heartbeat : Nat

def BridgeTimings.default : BridgeTimings := ⟨100, 100, 2000⟩

structure Timers where
  pendingProgress : Key → Option Message
  progressOrder : List Key
  progressDue : Option Nat
  runtimePending : Bool
  runtimeScheduled : Bool
  runtimeDue : Option Nat
  lastRuntimePush : Option Nat
  nextHeartbeat : Option Nat

/-- Where the timer thread is; the flags say what is still to run. -/
inductive TimerPc where
  | waiting
  | progress (run runtime heartbeat : Bool)
  /-- `flush_progress` with what it took under the lock. -/
  | flushing (keys : List Key) (batch : Key → Option Message) (runtime heartbeat : Bool)
  | runtime (run heartbeat : Bool)
  | snapshot (heartbeat : Bool)
  | heartbeat (run : Bool)
  | stopped

structure Bridge where
  subscribers : List Subscriber
  frames : List Frame
  timers : Timers
  stopping : Bool
  logLevel : LogLevel
  clock : Nat
  timer : TimerPc

/-- `from_parts`. -/
def Bridge.new (T : BridgeTimings) (logLevel : LogLevel) : Bridge where
  subscribers := []
  frames := []
  timers := ⟨fun _ => none, [], none, false, false, none, none, some T.heartbeat⟩
  stopping := false
  logLevel := logLevel
  clock := 0
  timer := .waiting

def LogLevel.rank : LogLevel → Nat
  | debug => 0
  | info => 1
  | warn => 2
  | error => 3

namespace Bridge

variable (T : BridgeTimings)

-- ============================================================================
-- Delivery
-- ============================================================================

def deliver (b : Bridge) (f : Frame) (droppable : Bool) : Bridge :=
  { b with frames := b.frames ++ [f], subscribers := b.subscribers.map (·.deliver f droppable) }

def enqueueEvent (b : Bridge) (f : Frame) (droppable : Bool) : Bridge :=
  if b.stopping then b else b.deliver f droppable

def onLogRecord (b : Bridge) (r : LogRecord) : Bridge :=
  if b.stopping || r.level.rank < b.logLevel.rank then b else b.enqueueEvent (.log r) true

-- ============================================================================
-- Progress and snapshot requests
-- ============================================================================

/-- `sync:progress` is coalesced per profile. -/
def enqueueProgress (b : Bridge) (key : Key) (m : Message) : Bridge :=
  let t := b.timers
  { b with timers := { t with
      progressOrder :=
        if (t.pendingProgress key).isNone then t.progressOrder ++ [key] else t.progressOrder
      pendingProgress := Function.update t.pendingProgress key (some m)
      progressDue :=
        if t.progressDue.isNone then some (b.clock + T.progressFlush) else t.progressDue } }

def requestRuntimeSnapshot (b : Bridge) (immediate : Bool) : Bridge :=
  let t := b.timers
  if t.runtimeScheduled then { b with timers := { t with runtimePending := true } }
  else
    let delay :=
      if immediate then 0
      else
        match t.lastRuntimePush with
        | some last => T.runtimeInterval - (b.clock - last)
        | none => 0
    { b with timers := { t with
        runtimePending := true
        runtimeScheduled := true
        runtimeDue := some (b.clock + delay) } }

-- ============================================================================
-- Bus events
-- ============================================================================

end Bridge

/-- The key a progress event waits under. -/
def SyncProgressEvent.key (p : SyncProgressEvent) : Key :=
  if p.profileId = "" then p.taskId else p.profileId

/-- The request for a snapshot that follows an event: `some immediate`. -/
def BusEvent.request : BusEvent → Option Bool
  | .syncProgress _ | .syncStarted _ | .syncCompleted _ | .syncFailed _ | .flowExecution _ =>
      some false
  | .authUnlocked | .authLocked => some true
  | _ => none

namespace Bridge

variable (T : BridgeTimings)

/-- `on_bus_event` up to its request for a snapshot. -/
def onBusEvent (b : Bridge) (m : Message) : Bridge :=
  match m.event with
  | .syncProgress p => b.enqueueProgress T p.key m
  | .runtimeSnapshot _ => b
  | _ => b.enqueueEvent (.bus m) false

-- ============================================================================
-- The timer thread
-- ============================================================================

/-- The timer has run out. -/
def due (b : Bridge) (d : Option Nat) : Bool := d.any (· ≤ b.clock)

/-- One step of the timer thread; `snap` is what the snapshot function
    returns. -/
def timerStep (b : Bridge) (snap : Snapshot) : Bridge :=
  let t := b.timers
  match b.timer with
  | .waiting =>
      if b.stopping then { b with timer := .stopped }
      else
        let runProgress := b.due t.progressDue
        let runRuntime := b.due t.runtimeDue
        let runHeartbeat := b.due t.nextHeartbeat
        if runProgress || runRuntime || runHeartbeat then
          { b with
            timer := .progress runProgress runRuntime runHeartbeat
            timers := { t with
              nextHeartbeat :=
                if runHeartbeat then some (b.clock + T.heartbeat) else t.nextHeartbeat } }
        else b
  | .progress true r h =>
      { b with
        timer := .flushing t.progressOrder t.pendingProgress r h
        timers := { t with
          progressDue := none, progressOrder := [], pendingProgress := fun _ => none } }
  | .progress false r h => { b with timer := .runtime r h }
  | .flushing [] _ r h => { b with timer := .runtime r h }
  | .flushing (key :: keys) batch r h =>
      match batch key with
      | some m =>
          { b.enqueueEvent (.bus m) false with
            timer := .flushing keys (Function.update batch key none) r h }
      | none => { b with timer := .flushing keys batch r h }
  | .runtime true h =>
      if t.runtimePending then
        { b with
          timer := .snapshot h
          timers := { t with
            runtimeDue := none
            runtimePending := false
            runtimeScheduled := false
            lastRuntimePush := some b.clock } }
      else
        { b with
          timer := .heartbeat h
          timers := { t with runtimeDue := none, runtimeScheduled := false } }
  | .runtime false h => { b with timer := .heartbeat h }
  | .snapshot h => { b.enqueueEvent (.snapshot snap) false with timer := .heartbeat h }
  | .heartbeat true =>
      if snap.active then { b.enqueueEvent (.snapshot snap) false with timer := .waiting }
      else { b with timer := .waiting }
  | .heartbeat false => { b with timer := .waiting }
  | .stopped => b

-- ============================================================================
-- Everything but the bus events
-- ============================================================================

/-- `subscribe` of a client. -/
def subscribe (b : Bridge) : Bridge :=
  if b.stopping then b else { b with subscribers := b.subscribers ++ [⟨[], []⟩] }

def shutdown (b : Bridge) : Bridge :=
  if b.stopping then b else { b with stopping := true, subscribers := [] }

inductive Act where
  | timer (snap : Snapshot)
  | request (immediate : Bool)
  | log (r : LogRecord)
  | push (name data : String)
  | subscribe
  /-- The client `i` takes a frame. -/
  | recv (i : Nat)
  | pass (ms : Nat)
  | shutdown
deriving DecidableEq

def step (b : Bridge) : Act → Bridge
  | .timer snap => b.timerStep T snap
  | .request immediate => b.requestRuntimeSnapshot T immediate
  | .log r => b.onLogRecord r
  | .push name data => b.enqueueEvent (.pushed name data) false
  | .subscribe => b.subscribe
  | .recv i => { b with subscribers := b.subscribers.modify i Subscriber.recv }
  | .pass ms => { b with clock := b.clock + ms }
  | .shutdown => b.shutdown

end Bridge
end GnDrive.Events
