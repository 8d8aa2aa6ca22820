/-
  GnDrive.Gpui.Core

  The engine inside the window's process (`engine/core.rs` of the window).

  A start-up thread builds the engine and publishes it in the phase, under
  which calls are queued until then.  `fail`, `retry` and `shutdown` replace the
  phase on their own; `shutdown` and `retry` raise the generation, by which a
  start-up thread notices that what it has built is not wanted any more.  Any
  number of threads call; each access of the shared state is one step.

  The generation is compared before the last steps of a start-up thread, not in
  them.  `shutdown_settles` says which state `shutdown` must find for
  everything to be at an end afterwards.

  Left out are `hello`, the pushed events and what the requests do.
-/

import GnDrive.Lib.System

namespace GnDrive.Gpui

/-- Same parallelism as the stdio service. -/
def WORKERS : Nat := 8

/-- Calls are told apart by the order in which they were accepted; engines by
    the start-up thread that built them. -/
inductive Phase where
  /-- Requests that arrive before the engine is up wait here. -/
  | starting (queue : List Nat)
  | running (e : Nat)
  | failed
  | stopped
deriving DecidableEq

def Phase.queue : Phase → List Nat
  | .starting queue => queue
  | _ => []

def Phase.engine : Phase → Option Nat
  | .running e => some e
  | _ => none

inductive LinkStatus where
  | starting
  | ready
  | fatal
  | stopped
deriving DecidableEq

inductive Worker where
  | idle
  | handling (j : Nat)
  /-- The frame is pushed; about to count the request down. -/
  | answered
deriving DecidableEq

/-- Where `teardown` is. -/
inductive Teardown where
  /-- Until nothing is in flight, or for five seconds. -/
  | waiting
  | stopping
  | closing
  | releasing
deriving DecidableEq

/-- Where a start-up thread is. -/
inductive StartPc where
  | building
  /-- It has the instance lock and builds the container. -/
  | locked
  | built
  /-- The build has failed; about to compare the generation. -/
  | failing
  | failPhase
  | failStatus
  | published
  | startEngine
  | ready
  | teardown (t : Teardown)
  | over
deriving DecidableEq

/-- A start-up thread with the engine it builds: its instance lock, whether its
    sync engine runs, its queue and its workers. -/
structure Start where
  generation : Nat
  pc : StartPc
  locked : Bool
  running : Bool
  queue : List Nat
  workers : List Worker
deriving DecidableEq

/-- Where the `shutdown` is that found `stopped` unset. -/
inductive ShutdownPc where
  | none
  | bump
  | replace
  | mark (previous : Option Nat)
  | teardown (e : Nat) (t : Teardown)
  | over
deriving DecidableEq

structure Core where
  status : LinkStatus
  phase : Phase
  inFlight : Nat
  generation : Nat
  stopped : Bool
  starts : List Start
  /-- The number of `retry` calls at each of their steps. -/
  bumping : Nat
  marking : Nat
  spawning : Nat
  shut : ShutdownPc
  /-- The calls whose response frames were pushed. -/
  frames : List Nat
  /-- The number of calls that have returned `Ok`. -/
  accepted : Nat

def Start.spawn (generation : Nat) : Start := ⟨generation, .building, false, false, [], []⟩

namespace Core

/-- `with_config`. -/
def initial : Core where
  status := .starting
  phase := .starting []
  inFlight := 0
  generation := 0
  stopped := false
  starts := [.spawn 0]
  bumping := 0
  marking := 0
  spawning := 0
  shut := .none
  frames := []
  accepted := 0

def setStart (s : Core) (e : Nat) (st : Start) : Core := { s with starts := s.starts.set e st }

/-- A `Running` that is dropped releases its instance lock. -/
def dropPhase (s : Core) : Core :=
  match s.phase with
  | .running e => { s with starts := s.starts.modify e fun st => { st with locked := false } }
  | _ => s

def call (s : Core) : Core :=
  match s.phase with
  | .starting queue =>
      { s with phase := .starting (queue ++ [s.accepted]), accepted := s.accepted + 1 }
  | .running e =>
      { s with
        inFlight := s.inFlight + 1
        starts := s.starts.modify e fun st => { st with queue := st.queue ++ [s.accepted] }
        accepted := s.accepted + 1 }
  | .failed | .stopped => s

end Core

/-- A step of `teardown`, and where it goes on. -/
def Start.tearDown (st : Start) : Teardown → Start × Option Teardown
  | .waiting => (st, some .stopping)
  | .stopping => ({ st with running := false }, some .closing)
  | .closing => (st, some .releasing)
  | .releasing => ({ st with locked := false }, none)

namespace Core

/-- The next step of the start-up thread `e`; `ok` is the outcome of a step of
    its build. -/
def start (s : Core) (e : Nat) (st : Start) (ok : Bool) : Option Core :=
  match st.pc with
  | .building =>
      if !ok then some (s.setStart e { st with pc := .failing })
      -- nobody else can have the instance lock
      else if s.starts.all (!·.locked) then
        some (s.setStart e { st with pc := .locked, locked := true })
      else none
  | .locked =>
      some (s.setStart e (if ok then { st with pc := .built }
        else { st with pc := .failing, locked := false }))
  | .built =>
      if s.generation ≠ st.generation then
        some (s.setStart e { st with pc := .teardown .waiting })
      else
        match s.phase with
        | .starting waiting =>
            some { s.setStart e { st with pc := .published, queue := st.queue ++ waiting } with
              inFlight := s.inFlight + waiting.length
              phase := .running e }
        | _ =>
            some { s.dropPhase.setStart e { st with pc := .teardown .waiting } with
              phase := .stopped }
  | .failing =>
      some (s.setStart e { st with
        pc := if s.generation = st.generation then .failPhase else .over })
  | .failPhase =>
      match s.phase with
      | .starting queue =>
          some { s.setStart e { st with pc := .failStatus } with
            phase := .failed
            frames := s.frames ++ queue }
      | _ => some { s.dropPhase.setStart e { st with pc := .failStatus } with phase := .failed }
  | .failStatus => some { s.setStart e { st with pc := .over } with status := .fatal }
  | .published =>
      some (s.setStart e { st with
        pc := .startEngine, workers := st.workers ++ List.replicate WORKERS .idle })
  | .startEngine => some (s.setStart e { st with pc := .ready, running := true })
  | .ready => some { s.setStart e { st with pc := .over } with status := .ready }
  | .teardown t =>
      some (s.setStart e { (st.tearDown t).1 with
        pc := match (st.tearDown t).2 with
          | some t => .teardown t
          | none => .over })
  | .over => none

/-- A step of `shutdown`. -/
def shutdownStep (s : Core) : Option Core :=
  match s.shut with
  | .none | .over => none
  | .bump => some { s with generation := s.generation + 1, shut := .replace }
  | .replace =>
      some { s with
        phase := .stopped
        shut := .mark s.phase.engine }
  | .mark previous =>
      some { s with
        status := .stopped
        shut := match previous with
          | some e => .teardown e .waiting
          | none => .over }
  | .teardown e t =>
      match s.starts[e]? with
      | some st =>
          some { s.setStart e (st.tearDown t).1 with
            shut := match (st.tearDown t).2 with
              | some t => .teardown e t
              | none => .over }
      | none => none

end Core

inductive CoreAct where
  | call
  | start (e : Nat) (ok : Bool)
  | retry
  | retryBump
  | retryMark
  | retrySpawn
  | shutdown
  | shutdownStep
  /-- The worker `i` of the engine `e` takes a request, answers it, and counts
      it down. -/
  | take (e i : Nat)
  | answer (e i : Nat)
  | finish (e i : Nat)
deriving DecidableEq

namespace Core

def step (s : Core) : CoreAct → Option Core
  | .call => some s.call
  | .start e ok => (s.starts[e]?).bind fun st => s.start e st ok
  | .retry =>
      if s.phase = .failed then some { s with phase := .starting [], bumping := s.bumping + 1 }
      else some s
  | .retryBump =>
      if s.bumping = 0 then none
      else some { s with
        generation := s.generation + 1, bumping := s.bumping - 1, marking := s.marking + 1 }
  | .retryMark =>
      if s.marking = 0 then none
      else some { s with
        status := .starting, marking := s.marking - 1, spawning := s.spawning + 1 }
  | .retrySpawn =>
      if s.spawning = 0 then none
      else some { s with
        starts := s.starts ++ [.spawn s.generation], spawning := s.spawning - 1 }
  | .shutdown => if s.stopped then some s else some { s with stopped := true, shut := .bump }
  | .shutdownStep => s.shutdownStep
  | .take e i =>
      (s.starts[e]?).bind fun st =>
        match st.queue, st.workers[i]? with
        | j :: queue, some .idle =>
            some (s.setStart e { st with queue, workers := st.workers.set i (.handling j) })
        | _, _ => none
  | .answer e i =>
      (s.starts[e]?).bind fun st =>
        match st.workers[i]? with
        | some (.handling j) =>
            some { s.setStart e { st with workers := st.workers.set i .answered } with
              frames := s.frames ++ [j] }
        | _ => none
  | .finish e i =>
      (s.starts[e]?).bind fun st =>
        match st.workers[i]? with
        | some .answered =>
            some { s.setStart e { st with workers := st.workers.set i .idle } with
              inFlight := s.inFlight - 1 }
        | _ => none

end Core

def coreSystem : System Core CoreAct where
  init s := s = .initial
  step := Core.step

-- ============================================================================
-- At an end
-- ============================================================================

namespace Core

/-- No thread has anything left to do. -/
def AtRest (s : Core) : Prop :=
  (∀ st ∈ s.starts, st.pc = .over ∧ st.queue = [] ∧ ∀ w ∈ st.workers, w = .idle) ∧
    s.bumping = 0 ∧ s.marking = 0 ∧ s.spawning = 0

/-- Stopped, with no sync engine running and the instance lock free, and every
    call that was accepted answered once. -/
structure Settled (s : Core) : Prop where
  phase : s.phase = .stopped
  status : s.status = .stopped
  idle : ∀ st ∈ s.starts, st.running = false ∧ st.locked = false
  answered : ∀ j < s.accepted, s.frames.count j = 1

end Core

/-- The start-up thread is at its end, tears down what it has built or will find
    that the generation is another. -/
def Start.quiet (generation : Nat) (st : Start) : Bool :=
  match st.pc with
  | .over | .teardown _ => true
  | .building | .locked | .built | .failing => st.generation != generation
  | .failPhase | .failStatus | .published | .startEngine | .ready => false

/-- When `shutdown` replaces the phase, no call is queued, no start-up thread is
    past its comparison of the generation and no `retry` is under way. -/
def Core.calm (s : Core) (a : CoreAct) : Bool :=
  match a, s.shut with
  | .shutdownStep, .replace =>
      s.phase.queue.isEmpty && s.starts.all (·.quiet s.generation) &&
        s.bumping == 0 && s.marking == 0 && s.spawning == 0
  | _, _ => true

end GnDrive.Gpui
