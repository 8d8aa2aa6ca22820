/-
  GnDrive.Events.Coalescing

  The coalescing of progress.

  A recorder watches the bridge: what was enqueued since the last flush took the map,
  what that flush took, and the frames it has delivered since.  `progress_coalesced` says
  that the order list and the map are what `Keyed` makes of what was enqueued, and that a
  flush delivers the last value of each key, in the order in which the keys first came.
-/

import GnDrive.Events.Delivery
import GnDrive.Lib.Keyed

namespace GnDrive.Events

open Keyed (distinct lastBy under)

-- ============================================================================
-- The recorder
-- ============================================================================

structure Recorder where
  bridge : Bridge
  /-- What was enqueued since the last flush took the map. -/
  since : List (Key × Message)
  /-- What that flush took. -/
  taken : List (Key × Message)
  /-- The frames it has delivered so far. -/
  sent : List Frame

/-- An event that the consumer hands to the bridge, or anything else that the bridge does. -/
inductive BridgeAct where
  | bus (m : Message)
  | other (a : Bridge.Act)

def BusEvent.enqueued (m : Message) : List (Key × Message) :=
  (m.event.progressKey.map fun key => (key, m)).toList

namespace Recorder

/-- The timer thread has taken a step. -/
def timer (r : Recorder) (b : Bridge) : Recorder :=
  match r.bridge.timer with
  | .progress true _ _ => { bridge := b, since := [], taken := r.since, sent := [] }
  | .flushing .. => { r with bridge := b, sent := r.sent ++ b.frames.drop r.bridge.frames.length }
  | _ => { r with bridge := b }

def step (T : BridgeTimings) (r : Recorder) : BridgeAct → Recorder
  | .bus m => { r with
      bridge := r.bridge.onBusEvent T m
      since := r.since ++ BusEvent.enqueued m }
  | .other (.timer snap) => r.timer (r.bridge.timerStep T snap)
  | .other a => { r with bridge := r.bridge.step T a }

end Recorder

def recorderSystem (T : BridgeTimings) (level : LogLevel) : System Recorder BridgeAct where
  init r := r = ⟨.new T level, [], [], []⟩
  step r a := some (r.step T a)

/-- The frames of the last value under each of the keys. -/
def framesOf (l : List (Key × Message)) (keys : List Key) : List Frame :=
  (under Prod.fst l keys).map fun e => .bus e.2

/-- One frame for each key, in the order in which the keys first came. -/
def coalesced (l : List (Key × Message)) : List Frame := framesOf l (distinct (l.map Prod.fst))

def TimerPc.Flushing : TimerPc → Prop
  | .flushing .. => True
  | _ => False

/-- The frames `sent` are those due, unless the bridge was stopped on the way. -/
def Sent (stopping : Bool) (due sent : List Frame) : Prop :=
  sent <+: due ∧ (stopping = false → sent = due)

/-- Where the flush is: what is sent belongs to the keys before those that it holds. -/
def Recorder.Flush (r : Recorder) : Prop :=
  match r.bridge.timer with
  | .flushing keys batch _ _ => ∃ done, distinct (r.taken.map Prod.fst) = done ++ keys ∧
      (∀ k ∈ keys, batch k = (lastBy Prod.fst r.taken k).map Prod.snd) ∧
      Sent r.bridge.stopping (framesOf r.taken done) r.sent
  | _ => Sent r.bridge.stopping (coalesced r.taken) r.sent

structure Recorder.Sound (r : Recorder) : Prop where
  order : r.bridge.timers.progressOrder = distinct (r.since.map Prod.fst)
  pending : ∀ k, r.bridge.timers.pendingProgress k = (lastBy Prod.fst r.since k).map Prod.snd
  flush : r.Flush

section

variable {T : BridgeTimings} {level : LogLevel} {b b' : Bridge} {r : Recorder} {m : Message}

-- ============================================================================
-- Steps that leave the progress alone
-- ============================================================================

/-- The progress that waits is the same, and so is the point of the timer thread. -/
structure Bridge.Apart (b b' : Bridge) : Prop where
  order : b'.timers.progressOrder = b.timers.progressOrder
  pending : b'.timers.pendingProgress = b.timers.pendingProgress
  timer : b'.timer = b.timer
  stopping : b'.stopping = false → b.stopping = false

theorem Bridge.Apart.refl (b : Bridge) : b.Apart b := ⟨rfl, rfl, rfl, id⟩

theorem enqueueEvent_apart (b : Bridge) (f : Frame) (droppable : Bool) :
    b.Apart (b.enqueueEvent f droppable) := by
  unfold Bridge.enqueueEvent
  split
  · exact .refl b
  · exact ⟨rfl, rfl, rfl, id⟩

theorem step_apart {a : Bridge.Act} (ha : ∀ snap, a ≠ .timer snap) : b.Apart (b.step T a) := by
  cases a with
  | timer snap => exact absurd rfl (ha snap)
  | request immediate =>
    show b.Apart (b.requestRuntimeSnapshot T immediate)
    unfold Bridge.requestRuntimeSnapshot
    dsimp only
    by_cases hscheduled : b.timers.runtimeScheduled = true
    · rw [if_pos hscheduled]
      exact ⟨rfl, rfl, rfl, id⟩
    · rw [if_neg hscheduled]
      exact ⟨rfl, rfl, rfl, id⟩
  | log record =>
    show b.Apart (b.onLogRecord record)
    unfold Bridge.onLogRecord
    split
    · exact .refl b
    · exact enqueueEvent_apart b _ _
  | push name data => exact enqueueEvent_apart b _ _
  | subscribe =>
    show b.Apart b.subscribe
    unfold Bridge.subscribe
    split
    · exact .refl b
    · exact ⟨rfl, rfl, rfl, id⟩
  | recv i => exact ⟨rfl, rfl, rfl, id⟩
  | pass ms => exact ⟨rfl, rfl, rfl, id⟩
  | shutdown =>
    show b.Apart b.shutdown
    unfold Bridge.shutdown
    split
    · exact .refl b
    · exact ⟨rfl, rfl, rfl, fun h => nomatch h⟩

theorem Recorder.Sound.apart (h : r.Sound) (hb : r.bridge.Apart b') :
    Recorder.Sound { r with bridge := b' } where
  order := hb.order.trans h.order
  pending k := by
    rw [← h.pending k]
    exact congrFun hb.pending k
  flush := by
    have hsent : ∀ {due}, Sent r.bridge.stopping due r.sent → Sent b'.stopping due r.sent :=
      fun hs => ⟨hs.1, fun hstop => hs.2 (hb.stopping hstop)⟩
    have hflush := h.flush
    unfold Recorder.Flush at hflush ⊢
    dsimp only
    rw [hb.timer]
    cases hpc : r.bridge.timer with
    | flushing keys batch runtime heartbeat =>
      rw [hpc] at hflush
      obtain ⟨done, hkeys, hbatch, hs⟩ := hflush
      exact ⟨done, hkeys, hbatch, hsent hs⟩
    | _ =>
      rw [hpc] at hflush
      exact hsent hflush

-- ============================================================================
-- Progress
-- ============================================================================

theorem Recorder.Flush.since {since : List (Key × Message)} {b : Bridge}
    (h : r.Flush) (htimer : b.timer = r.bridge.timer) (hstop : b.stopping = r.bridge.stopping) :
    Recorder.Flush { r with bridge := b, since } := by
  unfold Recorder.Flush at h ⊢
  dsimp only
  rw [htimer, hstop]
  exact h

theorem Recorder.Sound.bus (h : r.Sound) (m : Message) : (r.step T (.bus m)).Sound := by
  cases hkey : m.event.progressKey with
  | none =>
    have henqueued : BusEvent.enqueued m = [] := by
      unfold BusEvent.enqueued
      rw [hkey]
      rfl
    show Recorder.Sound { r with
      bridge := r.bridge.onBusEvent T m, since := r.since ++ BusEvent.enqueued m }
    rw [henqueued, List.append_nil]
    rcases Bridge.onBusEvent_other (T := T) (b := r.bridge) hkey with hb | hb
    · rw [hb]
      exact h
    · rw [hb]
      exact h.apart (enqueueEvent_apart _ _ _)
  | some key =>
    have hb : r.bridge.onBusEvent T m = r.bridge.enqueueProgress T key m := by
      cases hev : m.event with
      | syncProgress p =>
        rw [hev] at hkey
        cases hkey
        exact Bridge.onBusEvent_progress hev
      | _ =>
        rw [hev] at hkey
        cases hkey
    have henqueued : BusEvent.enqueued m = [(key, m)] := by
      unfold BusEvent.enqueued
      rw [hkey]
      rfl
    show Recorder.Sound { r with
      bridge := r.bridge.onBusEvent T m, since := r.since ++ BusEvent.enqueued m }
    rw [henqueued, hb]
    refine ⟨?_, fun k => ?_, h.flush.since rfl rfl⟩
    · -- the key is new to the list where it is new to the map
      have hnew : (r.bridge.timers.pendingProgress key).isNone =
          !(distinct (r.since.map Prod.fst)).contains key := by
        have hfound := Keyed.lastBy_eq_none_iff (f := Prod.fst) (l := r.since) (k := key)
        rw [h.pending, Option.isNone_map]
        by_cases hmem : key ∈ r.since.map Prod.fst
        · obtain ⟨e, he, rfl⟩ := List.mem_map.mp hmem
          obtain ⟨e', he'⟩ := Keyed.lastBy_of_mem (f := Prod.fst) he
          rw [he', List.contains_iff_mem.mpr (Keyed.mem_distinct.mpr hmem)]
          rfl
        · rw [hfound.mpr fun e he heq => hmem (heq ▸ List.mem_map_of_mem he)]
          simp [Keyed.mem_distinct, hmem]
      show (if (r.bridge.timers.pendingProgress key).isNone then _ else _) = _
      rw [hnew, h.order, List.map_append, List.map_singleton, Keyed.distinct_concat, Keyed.push]
      cases (distinct (r.since.map Prod.fst)).contains key with
      | true => rfl
      | false => rfl
    · show Function.update r.bridge.timers.pendingProgress key (some m) k = _
      rw [Keyed.lastBy_append]
      by_cases hk : k = key
      · subst hk
        simp [lastBy]
      · rw [Function.update_of_ne hk, h.pending k]
        simp [lastBy, Ne.symm hk]

-- ============================================================================
-- The timer thread
-- ============================================================================

theorem framesOf_concat {l : List (Key × Message)} {e : Key × Message} (keys : List Key)
    (h : lastBy Prod.fst l e.1 = some e) :
    framesOf l (keys ++ [e.1]) = framesOf l keys ++ [.bus e.2] := by
  unfold framesOf under
  rw [List.filterMap_append, List.filterMap_cons_some h, List.filterMap_nil, List.map_append,
    List.map_singleton]

theorem step_flushing {keys : List Key} {batch : Key → Option Message} {runtime heartbeat : Bool}
    {snap : Snapshot} (hpc : r.bridge.timer = .flushing keys batch runtime heartbeat) :
    r.step T (.other (.timer snap)) = { r with
      bridge := r.bridge.timerStep T snap
      sent := r.sent ++ (r.bridge.timerStep T snap).frames.drop r.bridge.frames.length } := by
  show r.timer (r.bridge.timerStep T snap) = _
  unfold Recorder.timer
  rw [hpc]

/-- One key of a flush. -/
theorem Recorder.Sound.emit {key : Key} {keys : List Key} {batch : Key → Option Message}
    {runtime heartbeat : Bool} {snap : Snapshot} (h : r.Sound)
    (hpc : r.bridge.timer = .flushing (key :: keys) batch runtime heartbeat) :
    (r.step T (.other (.timer snap))).Sound := by
  have hflush := h.flush
  unfold Recorder.Flush at hflush
  rw [hpc] at hflush
  obtain ⟨done, hkeys, hbatch, hle, hsent⟩ := hflush
  -- the key was taken, with the value that is its last
  have hmem : key ∈ r.taken.map Prod.fst := by
    rw [← Keyed.mem_distinct, hkeys]
    simp
  obtain ⟨e₀, he₀, hfst⟩ := List.mem_map.mp hmem
  obtain ⟨e, he⟩ := Keyed.lastBy_of_mem (f := Prod.fst) he₀
  rw [hfst] at he
  have hkey : e.1 = key := (Keyed.lastBy_spec he).2
  have hm : batch key = some e.2 := by
    rw [hbatch key List.mem_cons_self, he]
    rfl
  have hb : r.bridge.timerStep T snap = { r.bridge.enqueueEvent (.bus e.2) false with
      timer := .flushing keys (Function.update batch key none) runtime heartbeat } := by
    unfold Bridge.timerStep
    rw [hpc]
    dsimp only
    rw [hm]
  have hapart := enqueueEvent_apart r.bridge (.bus e.2) false
  have hframes : framesOf r.taken (done ++ [key]) = framesOf r.taken done ++ [.bus e.2] := by
    rw [← hkey]
    exact framesOf_concat done (by rw [hkey]; exact he)
  rw [step_flushing hpc, hb]
  refine ⟨hapart.order.trans h.order, fun k => ?_, done ++ [key], ?_, fun k hk => ?_, ?_⟩
  · rw [← h.pending k]
    exact congrFun hapart.pending k
  · rw [hkeys, List.append_assoc, List.singleton_append]
  · have hnodup := Keyed.distinct_nodup (r.taken.map Prod.fst)
    rw [hkeys, List.nodup_append] at hnodup
    have hne : k ≠ key := fun heq => (List.nodup_cons.mp hnodup.2.1).1 (heq ▸ hk)
    rw [Function.update_of_ne hne, hbatch k (List.mem_cons_of_mem _ hk)]
  · rw [hframes]
    dsimp only
    unfold Bridge.enqueueEvent
    cases hstop : r.bridge.stopping with
    | true =>
      rw [if_pos rfl, List.drop_length, List.append_nil, hstop]
      exact ⟨hle.trans (List.prefix_append _ _), fun h => nomatch h⟩
    | false =>
      rw [if_neg Bool.false_ne_true]
      show Sent _ _ (r.sent ++ (r.bridge.frames ++ [Frame.bus e.2]).drop r.bridge.frames.length)
      rw [List.drop_left, hsent hstop]
      exact ⟨List.prefix_rfl, fun _ => rfl⟩

/-- The end of a flush. -/
theorem Recorder.Sound.finish {batch : Key → Option Message} {runtime heartbeat : Bool}
    {snap : Snapshot} (h : r.Sound) (hpc : r.bridge.timer = .flushing [] batch runtime heartbeat) :
    (r.step T (.other (.timer snap))).Sound := by
  have hb : r.bridge.timerStep T snap = { r.bridge with timer := .runtime runtime heartbeat } := by
    unfold Bridge.timerStep
    rw [hpc]
  have hflush := h.flush
  unfold Recorder.Flush at hflush
  rw [hpc] at hflush
  obtain ⟨done, hkeys, -, hsent⟩ := hflush
  rw [step_flushing hpc, hb, List.drop_length, List.append_nil]
  refine ⟨h.order, h.pending, ?_⟩
  show Sent r.bridge.stopping (coalesced r.taken) r.sent
  unfold coalesced
  rwa [hkeys, List.append_nil]

/-- The flush takes the map, and starts with nothing sent. -/
theorem Recorder.Sound.take {runtime heartbeat : Bool} {snap : Snapshot} (h : r.Sound)
    (hpc : r.bridge.timer = .progress true runtime heartbeat) :
    (r.step T (.other (.timer snap))).Sound := by
  have hstep : r.step T (.other (.timer snap)) =
      { bridge := r.bridge.timerStep T snap, since := [], taken := r.since, sent := [] } := by
    show r.timer (r.bridge.timerStep T snap) = _
    unfold Recorder.timer
    rw [hpc]
  have hb : r.bridge.timerStep T snap = { r.bridge with
      timer := .flushing r.bridge.timers.progressOrder r.bridge.timers.pendingProgress runtime
        heartbeat
      timers := { r.bridge.timers with
        progressDue := none, progressOrder := [], pendingProgress := fun _ => none } } := by
    unfold Bridge.timerStep
    rw [hpc]
  rw [hstep, hb]
  refine ⟨rfl, fun _ => rfl, [], ?_, fun k _ => h.pending k, List.prefix_rfl, fun _ => rfl⟩
  rw [List.nil_append]
  exact h.order.symm

/-- A timer step outside a flush leaves the progress alone. -/
structure Bridge.Idle (b b' : Bridge) : Prop where
  order : b'.timers.progressOrder = b.timers.progressOrder
  pending : b'.timers.pendingProgress = b.timers.pendingProgress
  timer : ¬ b'.timer.Flushing
  stopping : b'.stopping = b.stopping

theorem idle_enqueueEvent (b : Bridge) (f : Frame) {pc : TimerPc} (hpc : ¬ pc.Flushing) :
    b.Idle { b.enqueueEvent f false with timer := pc } := by
  unfold Bridge.enqueueEvent
  split
  · exact ⟨rfl, rfl, hpc, rfl⟩
  · exact ⟨rfl, rfl, hpc, rfl⟩

theorem timerStep_idle (T : BridgeTimings) (snap : Snapshot) (hpc : ¬ b.timer.Flushing)
    (hrun : ∀ runtime heartbeat, b.timer ≠ .progress true runtime heartbeat) :
    b.Idle (b.timerStep T snap) := by
  unfold Bridge.timerStep
  cases hb : b.timer with
  | waiting =>
    dsimp only
    split
    · exact ⟨rfl, rfl, id, rfl⟩
    · split
      · exact ⟨rfl, rfl, id, rfl⟩
      · exact ⟨rfl, rfl, hpc, rfl⟩
  | progress run runtime heartbeat =>
    cases run with
    | true => exact absurd hb (hrun runtime heartbeat)
    | false => exact ⟨rfl, rfl, id, rfl⟩
  | flushing keys batch runtime heartbeat =>
    rw [hb] at hpc
    exact absurd trivial hpc
  | runtime run heartbeat =>
    cases run with
    | true =>
      dsimp only
      split
      · exact ⟨rfl, rfl, id, rfl⟩
      · exact ⟨rfl, rfl, id, rfl⟩
    | false => exact ⟨rfl, rfl, id, rfl⟩
  | snapshot heartbeat => exact idle_enqueueEvent b _ id
  | heartbeat run =>
    cases run with
    | true =>
      dsimp only
      split
      · exact idle_enqueueEvent b _ id
      · exact ⟨rfl, rfl, id, rfl⟩
    | false => exact ⟨rfl, rfl, id, rfl⟩
  | stopped => exact ⟨rfl, rfl, hpc, rfl⟩

theorem Recorder.flush_iff (h : ¬ r.bridge.timer.Flushing) :
    r.Flush ↔ Sent r.bridge.stopping (coalesced r.taken) r.sent := by
  unfold Recorder.Flush
  split
  · rename_i hpc
    rw [hpc] at h
    exact absurd trivial h
  · rfl

theorem Recorder.Sound.idle {snap : Snapshot} (h : r.Sound) (hpc : ¬ r.bridge.timer.Flushing)
    (hrun : ∀ runtime heartbeat, r.bridge.timer ≠ .progress true runtime heartbeat) :
    (r.step T (.other (.timer snap))).Sound := by
  have hstep : r.step T (.other (.timer snap)) = { r with bridge := r.bridge.timerStep T snap } := by
    show r.timer (r.bridge.timerStep T snap) = _
    unfold Recorder.timer
    split
    · exact absurd ‹_› (hrun _ _)
    · rename_i heq
      rw [heq] at hpc
      exact absurd trivial hpc
    · rfl
  have hidle := timerStep_idle T snap hpc hrun
  rw [hstep]
  refine ⟨hidle.order.trans h.order, fun k => ?_, ?_⟩
  · rw [← h.pending k]
    exact congrFun hidle.pending k
  · rw [Recorder.flush_iff hidle.timer, hidle.stopping]
    exact (Recorder.flush_iff hpc).mp h.flush

theorem Recorder.Sound.step (h : r.Sound) (a : BridgeAct) : (r.step T a).Sound := by
  cases a with
  | bus m => exact h.bus m
  | other a =>
    by_cases ha : ∃ snap, a = .timer snap
    · obtain ⟨snap, rfl⟩ := ha
      cases hpc : r.bridge.timer with
      | progress run runtime heartbeat =>
        cases run with
        | true => exact h.take hpc
        | false => exact h.idle (by rw [hpc]; exact id) (by rw [hpc]; simp)
      | flushing keys batch runtime heartbeat =>
        cases keys with
        | nil => exact h.finish hpc
        | cons key keys => exact h.emit hpc
      | _ => exact h.idle (by rw [hpc]; exact id) (by rw [hpc]; simp)
    · have hne : ∀ snap, a ≠ .timer snap := fun snap heq => ha ⟨snap, heq⟩
      have hstep : r.step T (.other a) = { r with bridge := r.bridge.step T a } := by
        cases a with
        | timer snap => exact absurd rfl (hne snap)
        | _ => rfl
      rw [hstep]
      exact h.apart (step_apart hne)

-- ============================================================================
-- Every run
-- ============================================================================

theorem recorder_sound (h : (recorderSystem T level).Reachable r) : r.Sound := by
  refine System.Reachable.invariant (fun r hr => ?_) (fun r a r' hr hs => ?_) h
  · obtain rfl : r = _ := hr
    exact ⟨rfl, fun _ => rfl, List.prefix_rfl, fun _ => rfl⟩
  · obtain rfl := Option.some.inj hs
    exact hr.step a

theorem framesOf_le {l : List (Key × Message)} {keys keys' : List Key} (h : keys <+: keys') :
    framesOf l keys <+: framesOf l keys' :=
  (h.filterMap _).map _

end

/-- In every state the order list and the map hold the same keys, each once, with the last
    value of each; and a flush delivers one frame for each key that was enqueued since the
    flush before it, with the last value, in the order in which the keys first came. -/
theorem progress_coalesced {T : BridgeTimings} {level : LogLevel} {r : Recorder}
    (h : (recorderSystem T level).Reachable r) :
    r.bridge.timers.progressOrder.Nodup ∧
      (∀ k, k ∈ r.bridge.timers.progressOrder ↔ (r.bridge.timers.pendingProgress k).isSome) ∧
      r.bridge.timers.progressOrder = distinct (r.since.map Prod.fst) ∧
      (∀ k, r.bridge.timers.pendingProgress k = (lastBy Prod.fst r.since k).map Prod.snd) ∧
      r.sent <+: coalesced r.taken ∧
      (¬ r.bridge.timer.Flushing → r.bridge.stopping = false → r.sent = coalesced r.taken) := by
  have hsound := recorder_sound h
  refine ⟨?_, fun k => ?_, hsound.order, hsound.pending, ?_, fun hpc hstop => ?_⟩
  · rw [hsound.order]
    exact Keyed.distinct_nodup _
  · rw [hsound.order, hsound.pending, Keyed.mem_distinct, Option.isSome_map]
    constructor
    · intro hk
      obtain ⟨e, he, rfl⟩ := List.mem_map.mp hk
      obtain ⟨e', he'⟩ := Keyed.lastBy_of_mem (f := Prod.fst) he
      rw [he']
      rfl
    · intro hk
      obtain ⟨e, he⟩ := Option.isSome_iff_exists.mp hk
      obtain ⟨hmem, rfl⟩ := Keyed.lastBy_spec he
      exact List.mem_map_of_mem hmem
  · by_cases hpc : r.bridge.timer.Flushing
    · have hflush := hsound.flush
      unfold Recorder.Flush at hflush
      split at hflush
      · obtain ⟨done, hkeys, -, hle, -⟩ := hflush
        refine hle.trans (framesOf_le ?_)
        rw [hkeys]
        exact List.prefix_append _ _
      · exact hflush.1
    · exact ((Recorder.flush_iff hpc).mp hsound.flush).1
  · exact ((Recorder.flush_iff hpc).mp hsound.flush).2 hstop

def progressOf (n : Nat) (profile : String) : Message :=
  ⟨n, .syncProgress ⟨"t", profile, "push", "running", 0, 0, ""⟩⟩

/-- Two profiles, the first of them twice, and their flush. -/
def coalescingRun : List BridgeAct :=
  [.bus (progressOf 0 "p"), .bus (progressOf 1 "q"), .bus (progressOf 2 "p"), .other (.pass 100),
    .other (.timer ⟨0, false⟩), .other (.timer ⟨0, false⟩), .other (.timer ⟨0, false⟩),
    .other (.timer ⟨0, false⟩), .other (.timer ⟨0, false⟩)]

theorem progress_coalesced_two : ∃ r,
    (recorderSystem .default .info).Reachable r ∧ ¬ r.bridge.timer.Flushing ∧
      r.sent = [.bus (progressOf 2 "p"), .bus (progressOf 1 "q")] ∧
      r.sent = coalesced r.taken := by
  have hrun : ∃ r, (recorderSystem .default .info).runFrom
      ⟨.new .default .info, [], [], []⟩ coalescingRun = some r ∧
        r.bridge.stopping = false ∧ (¬ r.bridge.timer.Flushing) ∧
        r.sent = [.bus (progressOf 2 "p"), .bus (progressOf 1 "q")] :=
    ⟨_, rfl, rfl, id, rfl⟩
  obtain ⟨r, hrun, hstop, hpc, hsent⟩ := hrun
  have hr := System.runFrom_reachable (.init rfl) hrun
  exact ⟨r, hr, hpc, hsent, (progress_coalesced hr).2.2.2.2.2 hpc hstop⟩

end GnDrive.Events
