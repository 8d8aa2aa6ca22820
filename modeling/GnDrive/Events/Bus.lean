/-
  GnDrive.Events.Bus

  The in-process event bus (`event_bus.rs`).

  Each subscription has a bounded mailbox.  `publish` looks the subscriptions
  of the event's topic up under the lock of the bus and then, without it, goes
  through them: `try_send`, and when the mailbox is full `try_recv` of the
  oldest event in it, whatever its kind, and `try_send` again.  Any number of
  threads publish; each access of a mailbox is one step.

  A subscription holds both ends of its channel, so a publisher never finds it
  disconnected.  Time stamps and the counters and file lists of the payloads
  are left out: they are only copied.
-/

import GnDrive.Lib.Channel
import Mathlib.Logic.Function.Basic

namespace GnDrive.Events

-- ============================================================================
-- Topics and events
-- ============================================================================

inductive Topic where
  | syncStarted
  | syncProgress
  | syncCompleted
  | syncFailed
  | authUnlocked
  | authLocked
  | serviceStatus
  | stateChanged
  | scheduleTriggered
  | boardExecution
  | flowExecution
  | runtimeSnapshot
deriving DecidableEq, Repr

def Topic.name : Topic → String
  | syncStarted => "sync:started"
  | syncProgress => "sync:progress"
  | syncCompleted => "sync:completed"
  | syncFailed => "sync:failed"
  | authUnlocked => "auth:unlocked"
  | authLocked => "auth:locked"
  | serviceStatus => "service:status"
  | stateChanged => "state:changed"
  | scheduleTriggered => "schedule:triggered"
  | boardExecution => "board:execution"
  | flowExecution => "flow:execution"
  | runtimeSnapshot => "runtime:snapshot"

/-- Topics the bridge forwards. -/
def Topic.all : List Topic :=
  [.syncStarted, .syncProgress, .syncCompleted, .syncFailed, .authUnlocked, .authLocked,
    .serviceStatus, .stateChanged, .scheduleTriggered, .boardExecution, .flowExecution]

structure SyncProgressEvent where
  taskId : String
  profileId : String
  action : String
  state : String
  transferred : Int
  total : Int
  errorMessage : String
deriving DecidableEq, Repr

structure SyncStartedEvent where
  taskId : String
  profileId : String
  action : String
deriving DecidableEq, Repr

structure SyncCompletedEvent where
  taskId : String
  profileId : String
  action : String
  duration : Int
  bytes : Int
  errors : Int
deriving DecidableEq, Repr

structure ServiceStatusEvent where
  running : Bool
  webPort : Int
  uptimeSecs : Int
deriving DecidableEq, Repr

structure ScheduleTriggeredEvent where
  scheduleId : String
  profileId : String
  action : String
deriving DecidableEq, Repr

structure BoardExecutionEvent where
  boardId : String
  nodeId : String
  edgeId : String
  status : String
  profileId : String
  action : String
deriving DecidableEq, Repr

structure FlowExecutionEvent where
  flowId : String
  opId : String
  status : String
  error : String
deriving DecidableEq, Repr

structure StateChangedEvent where
  domain : String
  id : String
deriving DecidableEq, Repr

/-- Every event that can travel over the bus.  A snapshot is named by its
    revision. -/
inductive BusEvent where
  | syncStarted (e : SyncStartedEvent)
  | syncProgress (e : SyncProgressEvent)
  | syncCompleted (e : SyncCompletedEvent)
  | syncFailed (e : SyncProgressEvent)
  | authUnlocked
  | authLocked
  | serviceStatus (e : ServiceStatusEvent)
  | stateChanged (e : StateChangedEvent)
  | scheduleTriggered (e : ScheduleTriggeredEvent)
  | boardExecution (e : BoardExecutionEvent)
  | flowExecution (e : FlowExecutionEvent)
  | runtimeSnapshot (revision : Int)
deriving DecidableEq, Repr

namespace BusEvent

def topic : BusEvent → Topic
  | syncStarted _ => .syncStarted
  | syncProgress _ => .syncProgress
  | syncCompleted _ => .syncCompleted
  | syncFailed _ => .syncFailed
  | authUnlocked => .authUnlocked
  | authLocked => .authLocked
  | serviceStatus _ => .serviceStatus
  | stateChanged _ => .stateChanged
  | scheduleTriggered _ => .scheduleTriggered
  | boardExecution _ => .boardExecution
  | flowExecution _ => .flowExecution
  | runtimeSnapshot _ => .runtimeSnapshot

/-- Progress, the only kind of event that newer ones replace. -/
def isProgress : BusEvent → Bool
  | syncProgress _ => true
  | _ => false

end BusEvent

/-- A published event; `id` tells the publications apart. -/
structure Message where
  id : Nat
  event : BusEvent
deriving DecidableEq, Repr

-- ============================================================================
-- The bus
-- ============================================================================

def MAILBOX_CAPACITY : Nat := 64

abbrev SubId := Nat

/-- Where a publishing thread is. -/
inductive PublishPc where
  | idle
  /-- About to `try_send` to the first of the subscriptions. -/
  | sending (m : Message) (s : SubId) (subs : List SubId)
  /-- The mailbox was full; about to evict. -/
  | evicting (m : Message) (s : SubId) (subs : List SubId)
deriving DecidableEq, Repr

structure Bus where
  closed : Bool
  nextId : Nat
  topics : Topic → List SubId
  mailbox : SubId → List Message
  call : Nat → PublishPc
  /-- The number of publications so far. -/
  posted : Nat

namespace Bus

/-- `EventBus::new`. -/
def new : Bus where
  closed := false
  nextId := 0
  topics _ := []
  mailbox _ := []
  call _ := .idle
  posted := 0

def setCall (b : Bus) (p : Nat) (pc : PublishPc) : Bus :=
  { b with call := Function.update b.call p pc }

def setMailbox (b : Bus) (s : SubId) (q : List Message) : Bus :=
  { b with mailbox := Function.update b.mailbox s q }

/-- `subscribe`, to a topic as often as it is named; after `close` the receiver
    is of no use. -/
def subscribe (b : Bus) (topics : List Topic) : Bus :=
  if b.closed then { b with nextId := b.nextId + 1 }
  else { b with
    nextId := b.nextId + 1
    topics := fun t => b.topics t ++ List.replicate (topics.count t) b.nextId }

/-- `Inner::remove`. -/
def remove (b : Bus) (s : SubId) : Bus :=
  { b with topics := fun t => (b.topics t).filter (· != s) }

def close (b : Bus) : Bus := { b with closed := true, topics := fun _ => [] }

/-- The loop of `publish` comes to the next subscription. -/
def toNext (m : Message) : List SubId → PublishPc
  | [] => .idle
  | s :: subs => .sending m s subs

/-- `publish` up to the end of its section under the lock. -/
def publish (b : Bus) (p : Nat) (ev : BusEvent) : Option Bus :=
  match b.call p with
  | .idle =>
      if b.closed then some b
      else some ({ b with posted := b.posted + 1 }.setCall p
        (toNext ⟨b.posted, ev⟩ (b.topics ev.topic)))
  | _ => none

def send (b : Bus) (p : Nat) : Option Bus :=
  match b.call p with
  | .sending m s subs =>
      match Channel.trySend MAILBOX_CAPACITY (b.mailbox s) m with
      | some q => some ((b.setMailbox s q).setCall p (toNext m subs))
      | none => some (b.setCall p (.evicting m s subs))
  | _ => none

def evict (b : Bus) (p : Nat) : Option Bus :=
  match b.call p with
  | .evicting m s subs =>
      some ((b.setMailbox s (b.mailbox s).tail).setCall p (.sending m s subs))
  | _ => none

/-- What the bus does on its own: threads publish, subscribe and unsubscribe,
    and the bus is closed. -/
inductive Act where
  | publish (p : Nat) (ev : BusEvent)
  | send (p : Nat)
  | evict (p : Nat)
  | subscribe (topics : List Topic)
  | cancel (s : SubId)
  | recv (s : SubId)
  | close
deriving DecidableEq

def step (b : Bus) : Act → Option Bus
  | .publish p ev => b.publish p ev
  | .send p => b.send p
  | .evict p => b.evict p
  | .subscribe topics => some (b.subscribe topics)
  | .cancel s => some (b.remove s)
  | .recv s => some (b.setMailbox s (b.mailbox s).tail)
  | .close => some b.close

end Bus

-- ============================================================================
-- Threads and mailboxes after an update
-- ============================================================================

@[simp] theorem setCall_call (b : Bus) (p q : Nat) (pc : PublishPc) :
    (b.setCall p pc).call q = if q = p then pc else b.call q := by
  unfold Bus.setCall
  simp [Function.update_apply]

@[simp] theorem setCall_mailbox (b : Bus) (p : Nat) (pc : PublishPc) :
    (b.setCall p pc).mailbox = b.mailbox := rfl

@[simp] theorem setMailbox_call (b : Bus) (s : SubId) (q : List Message) :
    (b.setMailbox s q).call = b.call := rfl

@[simp] theorem setMailbox_mailbox (b : Bus) (s t : SubId) (q : List Message) :
    (b.setMailbox s q).mailbox t = if t = s then q else b.mailbox t := by
  unfold Bus.setMailbox
  simp [Function.update_apply]

@[simp] theorem subscribe_call (b : Bus) (topics : List Topic) :
    (b.subscribe topics).call = b.call := by
  unfold Bus.subscribe
  split <;> rfl

@[simp] theorem subscribe_mailbox (b : Bus) (topics : List Topic) :
    (b.subscribe topics).mailbox = b.mailbox := by
  unfold Bus.subscribe
  split <;> rfl

@[simp] theorem subscribe_posted (b : Bus) (topics : List Topic) :
    (b.subscribe topics).posted = b.posted := by
  unfold Bus.subscribe
  split <;> rfl

end GnDrive.Events
