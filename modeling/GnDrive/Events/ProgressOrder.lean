/-
  GnDrive.Events.ProgressOrder

  The order of the frames of one sync key.

  The bridge is fed bus events one after another, numbered in the order of
  their publication, while the timer thread flushes and the clients read.  A
  started, completed or failed event is delivered at once, and progress of its
  key that was published before it may still be waiting for the next flush:
  its frame then comes after.  `progress_in_order` says that this is the only
  way: as long as every such event finds no progress of its key waiting, every
  client sees the frames of each key in order.
-/

import GnDrive.Events.Bridge
import GnDrive.Lib.System
import Mathlib.Tactic.SplitIfs

namespace GnDrive.Events

-- ============================================================================
-- Publication order
-- ============================================================================

/-- The sync key of a started, completed, failed or cancelled event. -/
def BusEvent.lifecycleKey : BusEvent → Option Key
  | .syncStarted e => some (if e.profileId = "" then e.taskId else e.profileId)
  | .syncCompleted e => some (if e.profileId = "" then e.taskId else e.profileId)
  | .syncFailed p => some p.key
  | _ => none

def BusEvent.progressKey : BusEvent → Option Key
  | .syncProgress p => some p.key
  | _ => none

/-- `l` ends or starts a run of the key of the progress `p` and was published
    after it. -/
def Message.overtakes (l p : Message) : Bool :=
  match l.event.lifecycleKey, p.event.progressKey with
  | some k, some k' => k == k' && p.id < l.id
  | _, _ => false

def Frame.overtakes : Frame → Frame → Bool
  | .bus l, .bus p => l.overtakes p
  | _, _ => false

/-- No progress frame comes after a frame of its key that overtakes it. -/
def InOrder (fs : List Frame) : Prop := fs.Pairwise fun f g => f.overtakes g = false

instance (fs : List Frame) : Decidable (InOrder fs) :=
  inferInstanceAs (Decidable (fs.Pairwise fun f g => f.overtakes g = false))

theorem Message.overtakes_iff {l p : Message} :
    l.overtakes p = true ↔
      ∃ k, l.event.lifecycleKey = some k ∧ p.event.progressKey = some k ∧ p.id < l.id := by
  unfold Message.overtakes
  cases l.event.lifecycleKey with
  | none => simp
  | some k =>
    cases p.event.progressKey with
    | none => simp
    | some k' =>
      simp only [Bool.and_eq_true, beq_iff_eq, decide_eq_true_eq, Option.some.injEq]
      constructor
      · rintro ⟨rfl, hlt⟩
        exact ⟨k, rfl, rfl, hlt⟩
      · rintro ⟨j, rfl, rfl, hlt⟩
        exact ⟨rfl, hlt⟩

-- ============================================================================
-- The bridge fed with events
-- ============================================================================

structure Feed where
  bridge : Bridge
  /-- The number of events so far. -/
  next : Nat

inductive FeedAct where
  | event (ev : BusEvent)
  | other (a : Bridge.Act)
deriving DecidableEq

def feedSystem (T : BridgeTimings) (level : LogLevel) : System Feed FeedAct where
  init s := s = ⟨.new T level, 0⟩
  step s
    | .event ev => some ⟨s.bridge.onBusEvent T ⟨s.next, ev⟩, s.next + 1⟩
    | .other a => some ⟨s.bridge.step T a, s.next⟩

/-- What a flush has taken and not delivered yet. -/
def Bridge.batch (b : Bridge) : Key → Option Message :=
  match b.timer with
  | .flushing _ batch _ _ => batch
  | _ => fun _ => none

/-- A started, completed or failed event finds no progress of its key in the
    map or in the batch of a flush. -/
def findsNoProgress (s : Feed) : FeedAct → Bool
  | .event ev => ev.lifecycleKey.all fun k =>
      (s.bridge.timers.pendingProgress k).isNone && (s.bridge.batch k).isNone
  | .other _ => true

-- ============================================================================
-- What a step of the bridge can deliver
-- ============================================================================

namespace Bridge

/-- The progress `m` waits under the key `k`. -/
def Waits (b : Bridge) (k : Key) (m : Message) : Prop :=
  b.timers.pendingProgress k = some m ∨ b.batch k = some m

section

variable {T : BridgeTimings} {b : Bridge}

theorem enqueueEvent_frames (b : Bridge) (f : Frame) (droppable : Bool) :
    (b.enqueueEvent f droppable).frames = b.frames ∨
      (b.enqueueEvent f droppable).frames = b.frames ++ [f] := by
  unfold enqueueEvent
  split
  · exact .inl rfl
  · exact .inr rfl

@[simp] theorem enqueueEvent_timers (b : Bridge) (f : Frame) (droppable : Bool) :
    (b.enqueueEvent f droppable).timers = b.timers := by
  unfold enqueueEvent
  split <;> rfl

@[simp] theorem enqueueEvent_timer (b : Bridge) (f : Frame) (droppable : Bool) :
    (b.enqueueEvent f droppable).timer = b.timer := by
  unfold enqueueEvent
  split <;> rfl

/-- What waits depends on the map and on the point of the timer thread. -/
theorem waits_congr {b b' : Bridge} (hp : b'.timers.pendingProgress = b.timers.pendingProgress)
    (ht : b'.timer = b.timer) {k : Key} {m : Message} (h : b'.Waits k m) : b.Waits k m := by
  unfold Waits batch at *
  rwa [hp, ht] at h

/-- Outside a flush only the map holds progress. -/
theorem waits_of_pending {b b' : Bridge}
    (hp : b'.timers.pendingProgress = b.timers.pendingProgress)
    (ht : b'.batch = fun _ => none) {k : Key} {m : Message} (h : b'.Waits k m) : b.Waits k m := by
  rcases h with h | h
  · exact .inl (hp ▸ h)
  · rw [ht] at h
    cases h

end

end Bridge

/-- The bus event that the frame carries. -/
def Frame.message : Frame → Option Message
  | .bus m => some m
  | _ => none

namespace Bridge

section

variable {T : BridgeTimings} {b : Bridge}

/-- A step delivers nothing that bears on the order, or a message that was
    waiting; and nothing new waits. -/
def Flows (b b' : Bridge) : Prop :=
  (∀ k m, b'.Waits k m → b.Waits k m) ∧
    (b'.frames = b.frames ∨
      ∃ f, b'.frames = b.frames ++ [f] ∧ ∀ m, f.message = some m → ∃ k, b.Waits k m)

theorem Flows.refl (b : Bridge) : b.Flows b := ⟨fun _ _ h => h, .inl rfl⟩

theorem Flows.quiet {b b' : Bridge} (hp : b'.timers.pendingProgress = b.timers.pendingProgress)
    (ht : b'.batch = fun _ => none) (hf : b'.frames = b.frames) : b.Flows b' :=
  ⟨fun _ _ => waits_of_pending hp ht, .inl hf⟩

theorem Flows.same {b b' : Bridge} (hp : b'.timers.pendingProgress = b.timers.pendingProgress)
    (ht : b'.timer = b.timer) (hf : b'.frames = b.frames) : b.Flows b' :=
  ⟨fun _ _ => waits_congr hp ht, .inl hf⟩

/-- Delivering a frame that is not a message. -/
theorem flows_enqueue {b b' : Bridge} {f : Frame} {droppable : Bool} (hf : f.message = none)
    (hframes : b'.frames = (b.enqueueEvent f droppable).frames)
    (hwaits : ∀ k m, b'.Waits k m → b.Waits k m) : b.Flows b' := by
  refine ⟨hwaits, ?_⟩
  rw [hframes]
  rcases enqueueEvent_frames b f droppable with h | h
  · exact .inl h
  · exact .inr ⟨f, h, fun m hm => by rw [hf] at hm; cases hm⟩

/-- The timer thread delivers at most one frame a step, and otherwise touches
    only the timers. -/
theorem timerStep_cases (b : Bridge) (snap : Snapshot) :
    (∃ t pc, b.timerStep T snap = { b with timers := t, timer := pc }) ∨
      ∃ f pc, b.timerStep T snap = { b.enqueueEvent f false with timer := pc } := by
  unfold timerStep
  cases ht : b.timer with
  | waiting =>
    simp only
    split
    · exact .inl ⟨_, _, rfl⟩
    · split
      · exact .inl ⟨_, _, rfl⟩
      · exact .inl ⟨b.timers, b.timer, rfl⟩
  | progress run r h => cases run <;> exact .inl ⟨_, _, rfl⟩
  | flushing keys batch r h =>
    cases keys with
    | nil => exact .inl ⟨_, _, rfl⟩
    | cons key keys =>
      simp only
      cases batch key with
      | none => exact .inl ⟨_, _, rfl⟩
      | some m => exact .inr ⟨_, _, rfl⟩
  | runtime run h =>
    cases run with
    | true =>
      simp only
      split <;> exact .inl ⟨_, _, rfl⟩
    | false => exact .inl ⟨_, _, rfl⟩
  | snapshot h => exact .inr ⟨_, _, rfl⟩
  | heartbeat run =>
    cases run with
    | true =>
      simp only
      split
      · exact .inr ⟨_, _, rfl⟩
      · exact .inl ⟨_, _, rfl⟩
    | false => exact .inl ⟨_, _, rfl⟩
  | stopped => exact .inl ⟨b.timers, b.timer, rfl⟩

theorem timerStep_flows (b : Bridge) (snap : Snapshot) : b.Flows (b.timerStep T snap) := by
  unfold timerStep
  cases ht : b.timer with
  | waiting =>
    simp only
    split
    · exact .quiet rfl rfl rfl
    · split
      · exact .quiet rfl rfl rfl
      · exact .refl b
  | progress run r h =>
    cases run with
    | true =>
      -- the flush takes the map
      refine ⟨fun k m hw => ?_, .inl rfl⟩
      rcases hw with hw | hw
      · cases hw
      · exact .inl hw
    | false => exact .quiet rfl rfl rfl
  | flushing keys batch r h =>
    cases keys with
    | nil => exact .quiet rfl rfl rfl
    | cons key keys =>
      simp only
      have hbatch : ∀ k m, batch k = some m → b.Waits k m := by
        intro k m hm
        refine .inr ?_
        unfold Bridge.batch
        rw [ht]
        exact hm
      cases hkey : batch key with
      | none =>
        refine ⟨fun k m hw => ?_, .inl rfl⟩
        rcases hw with hw | hw
        · exact .inl hw
        · exact hbatch k m hw
      | some m =>
        refine ⟨fun k m' hw => ?_, ?_⟩
        · rcases hw with hw | hw
          · refine .inl ?_
            simpa using hw
          · refine hbatch k m' ?_
            have hup : Function.update batch key none k = some m' := hw
            by_cases hk : k = key
            · subst hk
              simp at hup
            · simpa [hk] using hup
        · rcases enqueueEvent_frames b (.bus m) false with hf | hf
          · exact .inl hf
          · refine .inr ⟨.bus m, hf, fun m' hm' => ?_⟩
            cases hm'
            exact ⟨key, hbatch key m hkey⟩
  | runtime run h =>
    cases run with
    | true =>
      simp only
      split_ifs
      · exact .quiet rfl rfl rfl
      · exact .quiet rfl rfl rfl
    | false => exact .quiet rfl rfl rfl
  | snapshot h =>
    exact flows_enqueue rfl rfl fun _ _ => waits_of_pending (by simp) rfl
  | heartbeat run =>
    cases run with
    | true =>
      simp only
      split_ifs
      · exact flows_enqueue rfl rfl fun _ _ => waits_of_pending (by simp) rfl
      · exact .quiet rfl rfl rfl
    | false => exact .quiet rfl rfl rfl
  | stopped => exact .refl b

theorem step_flows (b : Bridge) (a : Act) : b.Flows (b.step T a) := by
  cases a with
  | timer snap => exact timerStep_flows b snap
  | request immediate =>
    refine .same ?_ ?_ ?_ <;>
      · unfold step requestRuntimeSnapshot
        simp only
        split_ifs <;> rfl
  | log r =>
    unfold step onLogRecord
    simp only
    split_ifs
    · exact .refl b
    · exact flows_enqueue rfl rfl fun _ _ => waits_congr (by simp) (by simp)
  | push name data =>
    exact flows_enqueue rfl rfl fun _ _ => waits_congr (by simp [step]) (by simp [step])
  | subscribe =>
    refine .same ?_ ?_ ?_ <;>
      · unfold step subscribe
        simp only
        split_ifs <;> rfl
  | recv i => exact .same rfl rfl rfl
  | pass ms => exact .same rfl rfl rfl
  | shutdown =>
    refine .same ?_ ?_ ?_ <;>
      · unfold step shutdown
        simp only
        split_ifs <;> rfl

/-- An event that is not progress goes to `enqueue_event` or nowhere. -/
theorem onBusEvent_other {m : Message} (h : m.event.progressKey = none) :
    (b.onBusEvent T m = b ∨ b.onBusEvent T m = b.enqueueEvent (.bus m) false) := by
  unfold onBusEvent
  cases hm : m.event with
  | syncProgress p =>
    rw [hm] at h
    cases h
  | runtimeSnapshot n => exact .inl rfl
  | _ => exact .inr rfl

/-- Progress waits under its key, in place of what waited there. -/
theorem onBusEvent_progress {m : Message} {p : SyncProgressEvent} (h : m.event = .syncProgress p) :
    b.onBusEvent T m = b.enqueueProgress T p.key m := by
  unfold onBusEvent
  rw [h]

theorem enqueueProgress_waits {key k : Key} {m m' : Message}
    (h : (b.enqueueProgress T key m).Waits k m') : b.Waits k m' ∨ k = key ∧ m' = m := by
  rcases h with h | h
  · have hup : Function.update b.timers.pendingProgress key (some m) k = some m' := h
    by_cases hk : k = key
    · subst hk
      rw [Function.update_self] at hup
      exact .inr ⟨rfl, (Option.some.inj hup).symm⟩
    · rw [Function.update_of_ne hk] at hup
      exact .inl (.inl hup)
  · exact .inl (.inr h)

end
end Bridge

-- ============================================================================
-- The invariant
-- ============================================================================

structure Feed.Sound (s : Feed) : Prop where
  /-- What waits is progress, under its own key. -/
  keyed : ∀ k m, s.bridge.Waits k m → m.event.progressKey = some k
  waiting : ∀ k m, s.bridge.Waits k m → m.id < s.next
  delivered : ∀ m, .bus m ∈ s.bridge.frames → m.id < s.next
  inOrder : InOrder s.bridge.frames
  /-- What waits has not been overtaken. -/
  ahead : ∀ k p l, s.bridge.Waits k p → .bus l ∈ s.bridge.frames → l.overtakes p = false

section

variable {T : BridgeTimings} {level : LogLevel} {s s' : Feed}

theorem inOrder_append {fs : List Frame} {g : Frame} :
    InOrder (fs ++ [g]) ↔ InOrder fs ∧ ∀ f ∈ fs, f.overtakes g = false := by
  unfold InOrder
  rw [List.pairwise_append]
  simp

theorem overtakes_of_not_progress {f : Frame} {m : Message} (h : m.event.progressKey = none) :
    f.overtakes (.bus m) = false := by
  cases f with
  | bus l =>
    rw [Frame.overtakes, Bool.eq_false_iff]
    intro hover
    obtain ⟨k, -, hk, -⟩ := Message.overtakes_iff.mp hover
    rw [h] at hk
    cases hk
  | _ => rfl

theorem overtakes_of_not_bus {f g : Frame} (h : g.message = none) : f.overtakes g = false := by
  cases g with
  | bus m => cases h
  | _ => cases f <;> rfl

theorem overtakes_of_lt {f : Frame} {p : Message} (h : ∀ l, f = .bus l → l.id ≤ p.id) :
    f.overtakes (.bus p) = false := by
  cases f with
  | bus l =>
    rw [Frame.overtakes, Bool.eq_false_iff]
    intro hover
    obtain ⟨-, -, -, hlt⟩ := Message.overtakes_iff.mp hover
    have := h l rfl
    omega
  | _ => rfl

theorem init_sound : (⟨.new T level, 0⟩ : Feed).Sound where
  keyed k m hw := by rcases hw with hw | hw <;> cases hw
  waiting k m hw := by rcases hw with hw | hw <;> cases hw
  delivered m hm := by cases hm
  inOrder := .nil
  ahead k p l hw := by rcases hw with hw | hw <;> cases hw

theorem lifecycleKey_of_progress {m : Message} {k : Key} (h : m.event.progressKey = some k) :
    m.event.lifecycleKey = none := by
  cases hm : m.event with
  | syncProgress p => rfl
  | _ =>
    rw [hm] at h
    cases h

theorem overtakes_of_no_key {l p : Message} (h : l.event.lifecycleKey = none) :
    l.overtakes p = false := by
  rw [Bool.eq_false_iff]
  intro hover
  obtain ⟨k, hk, -, -⟩ := Message.overtakes_iff.mp hover
  rw [h] at hk
  cases hk

/-- The flush delivers only what has not been overtaken. -/
theorem Feed.Sound.flows {b' : Bridge} (h : s.Sound) (hb : s.bridge.Flows b') :
    (⟨b', s.next⟩ : Feed).Sound := by
  obtain ⟨hwaits, hframes⟩ := hb
  have hkeyed : ∀ k m, b'.Waits k m → m.event.progressKey = some k :=
    fun k m hw => h.keyed k m (hwaits k m hw)
  have hwaiting : ∀ k m, b'.Waits k m → m.id < s.next :=
    fun k m hw => h.waiting k m (hwaits k m hw)
  rcases hframes with hf | ⟨f, hf, hwas⟩
  · refine ⟨hkeyed, hwaiting, ?_, ?_, ?_⟩
    · simpa only [hf] using h.delivered
    · simpa only [hf] using h.inOrder
    · intro k p l hw hl
      exact h.ahead k p l (hwaits k p hw) (hf ▸ hl)
  · have hlast : ∀ m, .bus m ∈ b'.frames → .bus m ∈ s.bridge.frames ∨ ∃ k, s.bridge.Waits k m := by
      intro m hm
      rw [hf, List.mem_append, List.mem_singleton] at hm
      rcases hm with hm | hm
      · exact .inl hm
      · exact .inr (hwas m (by rw [← hm]; rfl))
    refine ⟨hkeyed, hwaiting, ?_, ?_, ?_⟩
    · intro m hm
      rcases hlast m hm with hm | ⟨k, hw⟩
      · exact h.delivered m hm
      · exact h.waiting k m hw
    · rw [hf, inOrder_append]
      refine ⟨h.inOrder, fun g hg => ?_⟩
      cases f with
      | bus m =>
        obtain ⟨k, hw⟩ := hwas m rfl
        cases g with
        | bus l => exact h.ahead k m l hw hg
        | _ => rfl
      | _ => exact overtakes_of_not_bus rfl
    · intro k p l hw hl
      rcases hlast l hl with hl | ⟨j, hj⟩
      · exact h.ahead k p l (hwaits k p hw) hl
      · exact overtakes_of_no_key (lifecycleKey_of_progress (h.keyed j l hj))

/-- Step lemma: an event that is not progress goes out behind all frames; it
    overtakes nothing that waits. -/
theorem Feed.Sound.other {ev : BusEvent} (h : s.Sound) (hev : ev.progressKey = none)
    (hok : findsNoProgress s (.event ev) = true) :
    (⟨s.bridge.onBusEvent T ⟨s.next, ev⟩, s.next + 1⟩ : Feed).Sound := by
  have hlt : ∀ {m : Message}, m.id < s.next → m.id < s.next + 1 := fun h => by omega
  have hkept : (⟨s.bridge, s.next + 1⟩ : Feed).Sound :=
    ⟨h.keyed, fun k m hw => hlt (h.waiting k m hw), fun m hm => hlt (h.delivered m hm),
      h.inOrder, h.ahead⟩
  rcases Bridge.onBusEvent_other (b := s.bridge) (T := T) (m := ⟨s.next, ev⟩) hev with hb | hb
  · rw [hb]
    exact hkept
  rw [hb]
  have hwaits : ∀ k m, (s.bridge.enqueueEvent (.bus ⟨s.next, ev⟩) false).Waits k m →
      s.bridge.Waits k m :=
    fun k m hw => Bridge.waits_congr (by simp) (by simp) hw
  rcases Bridge.enqueueEvent_frames s.bridge (.bus ⟨s.next, ev⟩) false with hf | hf
  · refine ⟨fun k m hw => h.keyed k m (hwaits k m hw), fun k m hw => hkept.waiting k m (hwaits k m hw),
      ?_, ?_, ?_⟩
    · simpa only [hf] using hkept.delivered
    · simpa only [hf] using h.inOrder
    · intro k p l hw hl
      exact h.ahead k p l (hwaits k p hw) (hf ▸ hl)
  · refine ⟨fun k m hw => h.keyed k m (hwaits k m hw), fun k m hw => hkept.waiting k m (hwaits k m hw),
      ?_, ?_, ?_⟩
    · intro m hm
      rw [hf, List.mem_append, List.mem_singleton] at hm
      rcases hm with hm | hm
      · exact hkept.delivered m hm
      · cases hm
        exact Nat.lt_succ_self _
    · rw [hf, inOrder_append]
      exact ⟨h.inOrder, fun g _ => overtakes_of_not_progress hev⟩
    · intro k p l hw hl
      rw [hf, List.mem_append, List.mem_singleton] at hl
      rcases hl with hl | hl
      · exact h.ahead k p l (hwaits k p hw) hl
      · cases hl
        rw [Bool.eq_false_iff]
        intro hover
        obtain ⟨j, hj, hp, -⟩ := Message.overtakes_iff.mp hover
        -- then `p` would wait under the key of the event
        have hkp := h.keyed k p (hwaits k p hw)
        obtain rfl : k = j := Option.some.inj (hkp.symm.trans hp)
        have hnone : s.bridge.timers.pendingProgress k = none ∧ s.bridge.batch k = none := by
          simpa [findsNoProgress, hj] using hok
        rcases hwaits k p hw with hq | hq
        · rw [hnone.1] at hq
          cases hq
        · rw [hnone.2] at hq
          cases hq

/-- Step lemma: progress starts to wait behind all frames. -/
theorem Feed.Sound.progress {p : SyncProgressEvent} (h : s.Sound) :
    (⟨s.bridge.onBusEvent T ⟨s.next, .syncProgress p⟩, s.next + 1⟩ : Feed).Sound := by
  rw [Bridge.onBusEvent_progress rfl]
  refine ⟨fun k m hw => ?_, fun k m hw => ?_, fun m hm => ?_, h.inOrder, fun k q l hw hl => ?_⟩
  · rcases Bridge.enqueueProgress_waits hw with hw | ⟨rfl, rfl⟩
    · exact h.keyed k m hw
    · rfl
  · rcases Bridge.enqueueProgress_waits hw with hw | ⟨rfl, rfl⟩
    · exact Nat.lt_succ_of_lt (h.waiting k m hw)
    · exact Nat.lt_succ_self _
  · exact Nat.lt_succ_of_lt (h.delivered m hm)
  · rcases Bridge.enqueueProgress_waits hw with hw | ⟨rfl, rfl⟩
    · exact h.ahead k q l hw hl
    · have hlt := h.delivered l hl
      exact overtakes_of_lt (f := .bus l) fun l' hl' => by cases hl'; exact Nat.le_of_lt hlt

theorem feed_sound (h : (feedSystem T level).ReachableIf (fun s a => findsNoProgress s a = true) s) :
    s.Sound := by
  refine h.invariant ?_ ?_
  · rintro _ rfl
    exact init_sound
  · intro s a s' hs hok hstep
    cases a with
    | other a =>
      obtain rfl := Option.some.inj hstep
      exact hs.flows (Bridge.step_flows s.bridge a)
    | event ev =>
      obtain rfl := Option.some.inj hstep
      cases hev : ev.progressKey with
      | none => exact hs.other hev hok
      | some k =>
        cases ev with
        | syncProgress p => exact hs.progress
        | _ => cases hev

-- ============================================================================
-- What a client sees
-- ============================================================================

theorem seen_recv (c : Subscriber) : c.recv.seen = c.seen := by
  unfold Subscriber.recv Subscriber.seen
  cases c.queue <;> simp

theorem seen_offer (f : Frame) (droppable : Bool) (n : Nat) (c : Subscriber) :
    (c.offer f droppable n).seen.Sublist (c.seen ++ [f]) := by
  induction n generalizing c with
  | zero => exact List.sublist_append_left _ _
  | succ n ih =>
    unfold Subscriber.offer
    cases hq : Channel.trySend SUBSCRIBER_CAPACITY c.queue f with
    | some q =>
      have hqueue := Channel.trySend_some hq
      simp only [Subscriber.seen, hqueue, List.append_assoc]
      exact List.Sublist.refl _
    | none =>
      simp only
      split_ifs
      · exact List.sublist_append_left _ _
      · -- the oldest frame goes
        refine (ih _).trans ?_
        unfold Subscriber.seen
        exact ((List.Sublist.refl _).append (List.tail_sublist _)).append (List.Sublist.refl _)

theorem seen_deliver (f : Frame) (droppable : Bool) (c : Subscriber) :
    (c.deliver f droppable).seen.Sublist (c.seen ++ [f]) := by
  unfold Subscriber.deliver
  split_ifs
  · exact List.sublist_append_left _ _
  · exact seen_offer f droppable 8 c

/-- Every client sees some of the frames, in order. -/
def Bridge.SeenInOrder (b : Bridge) : Prop := ∀ c ∈ b.subscribers, c.seen.Sublist b.frames

theorem Bridge.SeenInOrder.enqueue {b : Bridge} (h : b.SeenInOrder) (f : Frame) (droppable : Bool) :
    (b.enqueueEvent f droppable).SeenInOrder := by
  unfold Bridge.enqueueEvent
  split_ifs
  · exact h
  · intro c hc
    obtain ⟨c', hc', rfl⟩ := List.mem_map.mp hc
    exact (seen_deliver f droppable c').trans ((h c' hc').append (List.Sublist.refl _))

theorem Bridge.SeenInOrder.congr {b b' : Bridge} (h : b.SeenInOrder)
    (hs : b'.subscribers = b.subscribers) (hf : b'.frames = b.frames) : b'.SeenInOrder := by
  unfold Bridge.SeenInOrder
  rwa [hs, hf]

theorem Bridge.SeenInOrder.timerStep {b : Bridge} (h : b.SeenInOrder) (snap : Snapshot) :
    (b.timerStep T snap).SeenInOrder := by
  rcases Bridge.timerStep_cases (T := T) b snap with ⟨t, pc, hb⟩ | ⟨f, pc, hb⟩
  · rw [hb]
    exact h.congr rfl rfl
  · rw [hb]
    exact (h.enqueue f false).congr rfl rfl

theorem Bridge.SeenInOrder.step {b : Bridge} (h : b.SeenInOrder) (a : Act) :
    (b.step T a).SeenInOrder := by
  cases a with
  | timer snap => exact h.timerStep snap
  | request immediate =>
    refine h.congr ?_ ?_ <;>
      · unfold Bridge.step Bridge.requestRuntimeSnapshot
        simp only
        split_ifs <;> rfl
  | log r =>
    unfold Bridge.step Bridge.onLogRecord
    simp only
    split_ifs
    · exact h
    · exact h.enqueue _ _
  | push name data => exact h.enqueue _ _
  | subscribe =>
    unfold Bridge.step Bridge.subscribe
    simp only
    split_ifs
    · exact h
    · intro c hc
      rcases List.mem_append.mp hc with hc | hc
      · exact h c hc
      · obtain rfl := List.mem_singleton.mp hc
        exact List.nil_sublist _
  | recv i =>
    intro c hc
    obtain ⟨c', hc', hor⟩ : ∃ c' ∈ b.subscribers, c = c' ∨ c = c'.recv := by
      obtain ⟨j, hj⟩ := List.mem_iff_getElem?.mp hc
      have hj : (b.subscribers.modify i Subscriber.recv)[j]? = some c := hj
      rw [List.getElem?_modify] at hj
      obtain ⟨c', hc', rfl⟩ := Option.map_eq_some_iff.mp hj
      refine ⟨c', List.mem_of_getElem? hc', ?_⟩
      split_ifs
      · exact .inr rfl
      · exact .inl rfl
    rcases hor with rfl | rfl
    · exact h c hc'
    · rw [seen_recv]
      exact h c' hc'
  | pass ms => exact h.congr rfl rfl
  | shutdown =>
    unfold Bridge.step Bridge.shutdown
    simp only
    split_ifs
    · exact h
    · exact fun c hc => absurd hc (List.not_mem_nil)

theorem feed_seen (h : (feedSystem T level).Reachable s) : s.bridge.SeenInOrder := by
  refine System.Reachable.invariant (P := fun s => s.bridge.SeenInOrder) ?_ ?_ h
  · rintro _ rfl c hc
    cases hc
  · intro s a s' hs hstep
    cases a with
    | other a =>
      obtain rfl := Option.some.inj hstep
      exact hs.step a
    | event ev =>
      obtain rfl := Option.some.inj hstep
      cases ev with
      | syncProgress p =>
        exact Bridge.SeenInOrder.congr hs rfl rfl
      | runtimeSnapshot n => exact hs
      | _ => exact hs.enqueue _ _

end

-- ============================================================================
-- Frames of one key are in order
-- ============================================================================

/-- As long as every started, completed, failed or cancelled event finds no
    progress of its key waiting, no progress is delivered, or seen by a client,
    after a frame of its key that was published later. -/
theorem progress_in_order {T : BridgeTimings} {level : LogLevel} {s : Feed}
    (h : (feedSystem T level).ReachableIf (fun s a => findsNoProgress s a = true) s) :
    InOrder s.bridge.frames ∧ ∀ c ∈ s.bridge.subscribers, InOrder c.seen := by
  have hall := (feed_sound h).inOrder
  exact ⟨hall, fun c hc => hall.sublist (feed_seen h.reachable c hc)⟩

/-- A run of the key `p`: started, progress, a flush, completed. -/
def flushedRun : List FeedAct :=
  let flush : FeedAct := .other (.timer ⟨0, false⟩)
  [.other .subscribe, .event (.syncStarted ⟨"t", "p", "push"⟩),
    .event (.syncProgress ⟨"t", "p", "push", "running", 1, 2, ""⟩), .other (.pass 100),
    flush, flush, flush, .event (.syncCompleted ⟨"t", "p", "push", 1, 2, 0⟩)]

theorem progress_in_order_flushed :
    ∃ s : Feed, (s.bridge.frames.length = 3 ∧ s.bridge.subscribers.length = 1) ∧
      InOrder s.bridge.frames ∧ ∀ c ∈ s.bridge.subscribers, InOrder c.seen := by
  have hrun : (((feedSystem .default .info).runIf findsNoProgress ⟨.new .default .info, 0⟩
      flushedRun).any fun s => s.bridge.frames.length == 3 && s.bridge.subscribers.length == 1) =
      true := by
    decide +kernel
  obtain ⟨s, hs, hlen⟩ := (Option.any_eq_true _ _).mp hrun
  refine ⟨s, by simpa using hlen, ?_⟩
  exact progress_in_order (System.runIf_reachableIf (.init rfl) hs)

/-- Progress, the end of the run, and only then the flush. -/
def overtakenRun : List FeedAct :=
  let flush : FeedAct := .other (.timer ⟨0, false⟩)
  [.other .subscribe, .event (.syncProgress ⟨"t", "p", "push", "running", 1, 2, ""⟩),
    .event (.syncCompleted ⟨"t", "p", "push", 1, 2, 0⟩), .other (.pass 100),
    flush, flush, flush]

/-- The client then sees the progress after the completion. -/
theorem progress_overtaken :
    ¬ ∀ (T : BridgeTimings) (level : LogLevel) (s : Feed), (feedSystem T level).Reachable s →
      ∀ c ∈ s.bridge.subscribers, InOrder c.seen := by
  intro hall
  have hrun : (((feedSystem .default .info).runFrom ⟨.new .default .info, 0⟩
      overtakenRun).any fun s => s.bridge.subscribers.any fun c => !decide (InOrder c.seen)) =
      true := by
    decide +kernel
  obtain ⟨s, hs, hbad⟩ := (Option.any_eq_true _ _).mp hrun
  obtain ⟨c, hc, hnot⟩ := List.any_eq_true.mp hbad
  have := hall _ _ s (System.runFrom_reachable (.init rfl) hs) c hc
  simp [this] at hnot

end GnDrive.Events
