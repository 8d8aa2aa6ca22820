/-
  GnDrive.Events.Delivery

  From `publish` to `deliver`: any number of publishing threads, the mailbox
  of the bridge, and the bridge's consumer thread, which takes one event after
  another and hands it to `on_bus_event`.

  Every event but progress must reach `deliver`.  A publisher that finds the
  mailbox full evicts the oldest event in it, and that may be such an event:
  `event_lost` runs into it with 64 progress events behind a `sync:started`.
  `eventually_delivered` is what holds when evictions hit progress only:
  every other event that was put in the mailbox is delivered in the end,
  whatever the publishers do, as long as the consumer gets its turns.
-/

import GnDrive.Events.ProgressOrder

namespace GnDrive.Events

-- ============================================================================
-- Publishers, mailbox and consumer
-- ============================================================================

/-- The subscription of the bridge. -/
def bridgeSub : SubId := 0

/-- Where the thread `rpc-bridge-bus` is in its loop. -/
inductive ConsumerPc where
  /-- About to look at the `stopping` flag. -/
  | checking
  | receiving
  | handling (m : Message)
  /-- At the request for a snapshot that ends `on_bus_event`. -/
  | requesting (immediate : Bool)
  | exited
deriving DecidableEq, Repr

/-- Where `on_bus_event` goes on after the delivery. -/
def ConsumerPc.handled : Option Bool → ConsumerPc
  | some immediate => .requesting immediate
  | none => .checking

/-- `published` has the events whose `publish` found the bridge subscribed. -/
structure Hub where
  bus : Bus
  bridge : Bridge
  consumer : ConsumerPc
  published : List Message

inductive HubAct where
  | bus (a : Bus.Act)
  | bridge (a : Bridge.Act)
  | consume
deriving DecidableEq

namespace Hub

/-- `from_parts` has subscribed the bridge. -/
def initial (T : BridgeTimings) (level : LogLevel) : Hub :=
  ⟨Bus.new.subscribe Topic.all, .new T level, .checking, []⟩

/-- What a step publishes to the bridge. -/
def posts (s : Hub) : Bus.Act → List Message
  | .publish _ ev =>
      if s.bus.closed = false ∧ bridgeSub ∈ s.bus.topics ev.topic then [⟨s.bus.posted, ev⟩] else []
  | _ => []

/-- The consumer's loop.  An empty mailbox lets the receive time out. -/
def consume (T : BridgeTimings) (s : Hub) : Hub :=
  match s.consumer with
  | .checking =>
      if s.bridge.stopping then { s with consumer := .exited, bus := s.bus.remove bridgeSub }
      else { s with consumer := .receiving }
  | .receiving =>
      match s.bus.mailbox bridgeSub with
      | [] => { s with consumer := .checking }
      | m :: q => { s with consumer := .handling m, bus := s.bus.setMailbox bridgeSub q }
  | .handling m =>
      { s with
        bridge := s.bridge.onBusEvent T m
        consumer := .handled m.event.request }
  | .requesting immediate =>
      { s with bridge := s.bridge.requestRuntimeSnapshot T immediate, consumer := .checking }
  | .exited => s

def step (T : BridgeTimings) (s : Hub) : HubAct → Option Hub
  | .bus a =>
      -- only the consumer takes from its mailbox or gives it up
      if a = .recv bridgeSub ∨ a = .cancel bridgeSub then none
      else (s.bus.step a).map fun bus => { s with bus, published := s.published ++ s.posts a }
  | .bridge a => some { s with bridge := s.bridge.step T a }
  | .consume => some (s.consume T)

end Hub

def hubSystem (T : BridgeTimings) (level : LogLevel) : System Hub HubAct where
  init s := s = .initial T level
  step := Hub.step T

-- ============================================================================
-- On the way
-- ============================================================================

/-- The publishing thread has yet to put `m` in the bridge's mailbox. -/
def PublishPc.Carries (m : Message) : PublishPc → Prop
  | .idle => False
  | .sending m' s subs | .evicting m' s subs => m' = m ∧ bridgeSub ∈ s :: subs

/-- Some publisher still carries `m`: its `publish` has not returned. -/
def Bus.Carried (b : Bus) (m : Message) : Prop := ∃ p, (b.call p).Carries m

/-- `m` is with a publisher, in the mailbox or with the consumer. -/
def Hub.OnItsWay (s : Hub) (m : Message) : Prop :=
  s.bus.Carried m ∨ m ∈ s.bus.mailbox bridgeSub ∨ s.consumer = .handling m

/-- The step does not lose an event that is not progress: an eviction from the
    mailbox of the bridge hits progress, and the bridge is shut down when
    nothing else is on its way and nothing else is published to it any more. -/
def losesProgressOnly (s : Hub) : HubAct → Prop
  | .bus (.evict p) => ∀ m subs, s.bus.call p = .evicting m bridgeSub subs →
      ∀ old, (s.bus.mailbox bridgeSub).head? = some old → old.event.isProgress = true
  | .bus (.publish _ ev) => s.bridge.stopping = true → bridgeSub ∈ s.bus.topics ev.topic →
      ev.isProgress = true
  | .bridge .shutdown => ∀ m, s.OnItsWay m → m.event.isProgress = true
  | _ => True

-- ============================================================================
-- What a step of the bus can do to the bridge's mailbox
-- ============================================================================

section

variable {b b' : Bus} {a : Bus.Act} {p : Nat} {m : Message}

theorem carries_toNext {m m' : Message} {subs : List SubId} :
    (Bus.toNext m' subs).Carries m ↔ m' = m ∧ bridgeSub ∈ subs := by
  cases subs with
  | nil => simp [Bus.toNext, PublishPc.Carries]
  | cons s subs => rfl

/-- What a step of the bus does: who carries what, and the bridge's mailbox. -/
inductive Bus.Moves (b : Bus) (a : Bus.Act) (b' : Bus) : Prop where
  /-- Nothing changes for the bridge. -/
  | quiet : b'.call = b.call → b'.mailbox bridgeSub = b.mailbox bridgeSub → Moves b a b'
  | published {p : Nat} {ev : BusEvent} : a = .publish p ev → b.closed = false →
      b.call p = .idle →
      b'.call = Function.update b.call p (toNext ⟨b.posted, ev⟩ (b.topics ev.topic)) →
      b'.mailbox bridgeSub = b.mailbox bridgeSub → Moves b a b'
  /-- A publisher goes on, still carrying what it carried. -/
  | carried {p : Nat} {pc : PublishPc} : b'.call = Function.update b.call p pc →
      (∀ m, pc.Carries m ↔ (b.call p).Carries m) →
      b'.mailbox bridgeSub = b.mailbox bridgeSub → Moves b a b'
  | sent {p : Nat} {m : Message} {subs : List SubId} : b.call p = .sending m bridgeSub subs →
      b'.call = Function.update b.call p (toNext m subs) →
      b'.mailbox bridgeSub = b.mailbox bridgeSub ++ [m] → Moves b a b'
  | evicted {p : Nat} {m : Message} {subs : List SubId} : a = .evict p →
      b.call p = .evicting m bridgeSub subs →
      b'.call = Function.update b.call p (.sending m bridgeSub subs) →
      b'.mailbox bridgeSub = (b.mailbox bridgeSub).tail → Moves b a b'

theorem step_moves (hs : b.step a = some b') (hrecv : a ≠ .recv bridgeSub) : b.Moves a b' := by
  cases a with
  | publish p ev =>
    simp only [Bus.step, Bus.publish] at hs
    split at hs
    · rename_i hp
      cases hc : b.closed with
      | true =>
        rw [hc] at hs
        obtain rfl := Option.some.inj hs
        exact .quiet rfl rfl
      | false =>
        rw [hc] at hs
        obtain rfl := Option.some.inj hs
        exact .published rfl hc hp rfl rfl
    · cases hs
  | send p =>
    simp only [Bus.step, Bus.send] at hs
    split at hs
    · rename_i m s subs hp
      split at hs
      · rename_i q hq
        obtain rfl := Option.some.inj hs
        by_cases hsub : s = bridgeSub
        · subst hsub
          refine .sent hp rfl ?_
          simp [Channel.trySend_some hq]
        · refine .carried rfl (fun m' => ?_) ?_
          · rw [hp, carries_toNext]
            simp [PublishPc.Carries, Ne.symm hsub]
          · simp [Ne.symm hsub]
      · obtain rfl := Option.some.inj hs
        refine .carried rfl (fun m' => ?_) rfl
        rw [hp]
        rfl
    · cases hs
  | evict p =>
    simp only [Bus.step, Bus.evict] at hs
    split at hs
    · rename_i m s subs hp
      obtain rfl := Option.some.inj hs
      by_cases hsub : s = bridgeSub
      · subst hsub
        refine .evicted rfl hp rfl ?_
        simp
      · refine .carried rfl (fun m' => ?_) ?_
        · rw [hp]
          rfl
        · simp [Ne.symm hsub]
    · cases hs
  | subscribe topics =>
    obtain rfl := Option.some.inj hs
    exact .quiet (subscribe_call b topics) (by rw [subscribe_mailbox])
  | cancel s =>
    obtain rfl := Option.some.inj hs
    exact .quiet rfl rfl
  | recv s =>
    obtain rfl := Option.some.inj hs
    refine .quiet rfl ?_
    have hne : bridgeSub ≠ s := fun h => hrecv (by rw [h])
    simp [hne]
  | close =>
    obtain rfl := Option.some.inj hs
    exact .quiet rfl rfl

theorem carried_update {pc : PublishPc} (hcall : b'.call = Function.update b.call p pc)
    (hcarry : (b.call p).Carries m → pc.Carries m) (h : b.Carried m) : b'.Carried m := by
  obtain ⟨q, hq⟩ := h
  refine ⟨q, ?_⟩
  rw [hcall]
  by_cases hqp : q = p
  · subst hqp
    rw [Function.update_self]
    exact hcarry hq
  · rwa [Function.update_of_ne hqp]

theorem carried_of_update {pc : PublishPc} (hcall : b'.call = Function.update b.call p pc)
    (hcarry : pc.Carries m → (b.call p).Carries m) (h : b'.Carried m) : b.Carried m := by
  obtain ⟨q, hq⟩ := h
  refine ⟨q, ?_⟩
  rw [hcall] at hq
  by_cases hqp : q = p
  · subst hqp
    rw [Function.update_self] at hq
    exact hcarry hq
  · rwa [Function.update_of_ne hqp] at hq

/-- Carried or in the mailbox. -/
def Bus.Away (b : Bus) (m : Message) : Prop := b.Carried m ∨ m ∈ b.mailbox bridgeSub

/-- What is on its way stays so unless it is evicted. -/
theorem Bus.Moves.away (h : b.Moves a b') (hm : b.Away m) :
    b'.Away m ∨ ∃ p m' subs, a = .evict p ∧ b.call p = .evicting m' bridgeSub subs ∧
      (b.mailbox bridgeSub).head? = some m := by
  cases h with
  | quiet hcall hbox =>
    left
    unfold Bus.Away Bus.Carried at *
    rwa [hcall, hbox]
  | published ha hc hp hcall hbox =>
    left
    rcases hm with hm | hm
    · exact .inl (carried_update hcall (fun hq => by rw [hp] at hq; exact hq.elim) hm)
    · exact .inr (hbox ▸ hm)
  | carried hcall hcarry hbox =>
    left
    rcases hm with hm | hm
    · exact .inl (carried_update hcall (hcarry m).mpr hm)
    · exact .inr (hbox ▸ hm)
  | @sent p m' subs hp hcall hbox =>
    left
    by_cases heq : m = m'
    · subst heq
      right
      rw [hbox]
      exact List.mem_append_right _ (List.mem_singleton_self _)
    · rcases hm with hm | hm
      · refine .inl (carried_update hcall (fun hq => ?_) hm)
        rw [hp] at hq
        exact absurd hq.1.symm heq
      · right
        rw [hbox]
        exact List.mem_append_left _ hm
  | @evicted p m' subs ha hp hcall hbox =>
    rcases hm with hm | hm
    · refine .inl (.inl (carried_update hcall (fun hq => ?_) hm))
      rw [hp] at hq
      exact hq
    · rcases Channel.mem_tail_of_mem hm with hm | hm
      · exact .inl (.inr (by rw [hbox]; exact hm))
      · exact .inr ⟨p, m', subs, ha, hp, hm⟩

/-- Nothing comes on its way but what is published. -/
theorem Bus.Moves.of_away (h : b.Moves a b') (hm : b'.Away m) :
    b.Away m ∨ ∃ p ev, a = .publish p ev ∧ b.closed = false ∧ m = ⟨b.posted, ev⟩ ∧
      bridgeSub ∈ b.topics ev.topic := by
  cases h with
  | quiet hcall hbox =>
    left
    unfold Bus.Away Bus.Carried at *
    rwa [hcall, hbox] at hm
  | @published p ev ha hc hp hcall hbox =>
    rcases hm with ⟨q, hq⟩ | hm
    · rw [hcall] at hq
      by_cases hqp : q = p
      · subst hqp
        rw [Function.update_self, carries_toNext] at hq
        exact .inr ⟨q, ev, ha, hc, hq.1.symm, hq.2⟩
      · rw [Function.update_of_ne hqp] at hq
        exact .inl (.inl ⟨q, hq⟩)
    · exact .inl (.inr (hbox ▸ hm))
  | carried hcall hcarry hbox =>
    left
    rcases hm with hm | hm
    · exact .inl (carried_of_update hcall (hcarry m).mp hm)
    · exact .inr (hbox ▸ hm)
  | @sent p m' subs hp hcall hbox =>
    left
    rcases hm with hm | hm
    · refine .inl (carried_of_update hcall (fun hq => ?_) hm)
      rw [carries_toNext] at hq
      rw [hp]
      exact ⟨hq.1, List.mem_cons_of_mem _ hq.2⟩
    · rw [hbox, List.mem_append, List.mem_singleton] at hm
      rcases hm with hm | rfl
      · exact .inr hm
      · exact .inl ⟨p, by rw [hp]; exact ⟨rfl, List.mem_cons_self⟩⟩
  | @evicted p m' subs ha hp hcall hbox =>
    left
    rcases hm with hm | hm
    · refine .inl (carried_of_update hcall (fun hq => ?_) hm)
      rw [hp]
      exact hq
    · rw [hbox] at hm
      exact .inr (List.mem_of_mem_tail hm)

end

-- ============================================================================
-- Nothing but progress is lost
-- ============================================================================

section

variable {T : BridgeTimings} {level : LogLevel} {s s' : Hub} {a : HubAct} {m : Message}

/-- `subscribe` and the loop of the consumer leave these to the bridge. -/
structure Hub.Sound (s : Hub) : Prop where
  /-- The bridge is subscribed to what it forwards, and its id is taken. -/
  topics : ∀ t, bridgeSub ∈ s.bus.topics t → t ∈ Topic.all
  fresh : bridgeSub < s.bus.nextId
  forwarded : ∀ m ∈ s.published, m.event.topic ∈ Topic.all
  kept : ∀ m ∈ s.published, m.event.isProgress = false →
    .bus m ∈ s.bridge.frames ∨ s.OnItsWay m
  /-- Once the bridge is stopping, only progress is on its way. -/
  stopped : s.bridge.stopping = true → ∀ m, s.OnItsWay m → m.event.isProgress = true
  exited : s.consumer = .exited → s.bridge.stopping = true

theorem initial_sound : (Hub.initial T level).Sound where
  topics t h := by
    unfold Hub.initial Bus.subscribe at h
    simp only [Bus.new, Bool.false_eq_true, ↓reduceIte, List.nil_append, List.mem_replicate] at h
    exact List.count_pos_iff.mp (Nat.pos_of_ne_zero h.1)
  fresh := Nat.one_pos
  forwarded m h := by cases h
  kept m h := by cases h
  stopped h := by cases h
  exited h := by cases h

-- ============================================================================
-- The bus
-- ============================================================================

/-- No step subscribes the bridge to anything else. -/
theorem step_subscribed {b b' : Bus} {a : Bus.Act} (hs : b.step a = some b')
    (hfresh : bridgeSub < b.nextId) :
    (∀ t, bridgeSub ∈ b'.topics t → bridgeSub ∈ b.topics t) ∧ bridgeSub < b'.nextId := by
  cases a with
  | publish p ev =>
    simp only [Bus.step, Bus.publish] at hs
    split at hs
    · split at hs <;> cases hs <;> exact ⟨fun _ h => h, hfresh⟩
    · cases hs
  | send p =>
    simp only [Bus.step, Bus.send] at hs
    split at hs
    · split at hs <;> cases hs <;> exact ⟨fun _ h => h, hfresh⟩
    · cases hs
  | evict p =>
    simp only [Bus.step, Bus.evict] at hs
    split at hs <;> cases hs
    exact ⟨fun _ h => h, hfresh⟩
  | subscribe topics =>
    obtain rfl := Option.some.inj hs
    unfold Bus.subscribe
    split
    · exact ⟨fun _ h => h, Nat.lt_succ_of_lt hfresh⟩
    · refine ⟨fun t h => ?_, Nat.lt_succ_of_lt hfresh⟩
      rcases List.mem_append.mp h with h | h
      · exact h
      · exact absurd (List.eq_of_mem_replicate h) (Nat.ne_of_lt hfresh)
  | cancel s =>
    obtain rfl := Option.some.inj hs
    exact ⟨fun _ h => List.mem_of_mem_filter h, hfresh⟩
  | recv s =>
    obtain rfl := Option.some.inj hs
    exact ⟨fun _ h => h, hfresh⟩
  | close =>
    obtain rfl := Option.some.inj hs
    exact ⟨fun _ h => absurd h List.not_mem_nil, hfresh⟩

theorem mem_posts {a : Bus.Act} (h : m ∈ s.posts a) :
    ∃ p ev, a = .publish p ev ∧ s.bus.closed = false ∧ bridgeSub ∈ s.bus.topics ev.topic ∧
      m = ⟨s.bus.posted, ev⟩ := by
  cases a with
  | publish p ev =>
    simp only [Hub.posts] at h
    split at h
    · rename_i hc
      exact ⟨p, ev, rfl, hc.1, hc.2, List.mem_singleton.mp h⟩
    · cases h
  | _ => cases h

/-- A message published to the bridge starts with its publisher. -/
theorem posts_carried {b' : Bus} {a : Bus.Act} (hs : s.bus.step a = some b')
    (hm : m ∈ s.posts a) : b'.Carried m := by
  obtain ⟨p, ev, rfl, hc, hsub, rfl⟩ := mem_posts hm
  simp only [Bus.step, Bus.publish, hc] at hs
  split at hs
  · obtain rfl := Option.some.inj hs
    refine ⟨p, ?_⟩
    rw [setCall_call, if_pos rfl, carries_toNext]
    exact ⟨rfl, hsub⟩
  · cases hs

theorem Hub.onItsWay_iff {s : Hub} {m : Message} :
    s.OnItsWay m ↔ s.bus.Away m ∨ s.consumer = .handling m := by
  unfold Hub.OnItsWay Bus.Away
  rw [or_assoc]

/-- Step lemma: the bus. -/
theorem Hub.Sound.bus {b' : Bus} {a : Bus.Act} (h : s.Sound) (hrecv : a ≠ .recv bridgeSub)
    (hok : losesProgressOnly s (.bus a)) (hs : s.bus.step a = some b') :
    ({ s with bus := b', published := s.published ++ s.posts a } : Hub).Sound := by
  have hmoves := step_moves hs hrecv
  obtain ⟨htopics, hfresh⟩ := step_subscribed hs h.fresh
  have hway : ∀ m, m.event.isProgress = false → s.OnItsWay m →
      b'.Away m ∨ s.consumer = .handling m := by
    intro m hm hw
    rcases Hub.onItsWay_iff.mp hw with hw | hw
    · rcases hmoves.away hw with hw | ⟨p, m', subs, rfl, hp, hhead⟩
      · exact .inl hw
      · have := hok m' subs hp m hhead
        rw [hm] at this
        cases this
    · exact .inr hw
  refine ⟨fun t ht => h.topics t (htopics t ht), hfresh, ?_, ?_, ?_, h.exited⟩
  · intro m hm
    rcases List.mem_append.mp hm with hm | hm
    · exact h.forwarded m hm
    · obtain ⟨p, ev, -, -, hsub, rfl⟩ := mem_posts hm
      exact h.topics _ hsub
  · intro m hm hkind
    rcases List.mem_append.mp hm with hm | hm
    · rcases h.kept m hm hkind with hf | hw
      · exact .inl hf
      · exact .inr (Hub.onItsWay_iff.mpr (hway m hkind hw))
    · exact .inr (.inl (posts_carried hs hm))
  · intro hstop m hw
    rcases Hub.onItsWay_iff.mp hw with hw | hw
    · rcases hmoves.of_away hw with hw | ⟨p, ev, rfl, hc, rfl, hsub⟩
      · exact h.stopped hstop m (Hub.onItsWay_iff.mpr (.inl hw))
      · exact hok hstop hsub
    · exact h.stopped hstop m (Hub.onItsWay_iff.mpr (.inr hw))

-- ============================================================================
-- The bridge and its consumer
-- ============================================================================

/-- `frames` is a log. -/
theorem Bridge.step_frames {b : Bridge} {a : Bridge.Act} {f : Frame} (h : f ∈ b.frames) :
    f ∈ (b.step T a).frames := by
  rcases (Bridge.step_flows (T := T) b a).2 with hf | ⟨g, hf, -⟩
  · rwa [hf]
  · rw [hf]
    exact List.mem_append_left _ h

theorem Bridge.onBusEvent_frames {b : Bridge} {f : Frame} (h : f ∈ b.frames) :
    f ∈ (b.onBusEvent T m).frames := by
  cases hk : m.event.progressKey with
  | none =>
    rcases Bridge.onBusEvent_other (T := T) (b := b) hk with hb | hb
    · rwa [hb]
    · rw [hb]
      rcases enqueueEvent_frames b (.bus m) false with hf | hf
      · rwa [hf]
      · rw [hf]
        exact List.mem_append_left _ h
  | some k =>
    obtain ⟨n, ev⟩ := m
    cases ev with
    | syncProgress p => exact h
    | _ => cases hk

theorem Bridge.step_stopping {b : Bridge} {a : Bridge.Act} (ha : a ≠ .shutdown) :
    (b.step T a).stopping = b.stopping := by
  have henq : ∀ (b : Bridge) f d, (b.enqueueEvent f d).stopping = b.stopping := by
    intro b f d
    unfold Bridge.enqueueEvent
    split <;> rfl
  cases a with
  | timer snap =>
    rcases Bridge.timerStep_cases (T := T) b snap with ⟨t, pc, hb⟩ | ⟨f, pc, hb⟩
    · show (b.timerStep T snap).stopping = b.stopping
      rw [hb]
    · show (b.timerStep T snap).stopping = b.stopping
      rw [hb]
      exact henq b f false
  | request immediate =>
    unfold Bridge.step Bridge.requestRuntimeSnapshot
    simp only
    split_ifs <;> rfl
  | log r =>
    unfold Bridge.step Bridge.onLogRecord
    simp only
    split_ifs
    · rfl
    · exact henq _ _ _
  | push name data => exact henq _ _ _
  | subscribe =>
    unfold Bridge.step Bridge.subscribe
    simp only
    split_ifs <;> rfl
  | recv i => rfl
  | pass ms => rfl
  | shutdown => exact absurd rfl ha

theorem Bridge.onBusEvent_stopping {b : Bridge} :
    (b.onBusEvent T m).stopping = b.stopping := by
  unfold Bridge.onBusEvent Bridge.enqueueEvent
  split
  · rfl
  · rfl
  · split <;> rfl

/-- An event that the bridge forwards is delivered unless it is progress. -/
theorem Bridge.onBusEvent_delivers {b : Bridge} (hstop : b.stopping = false)
    (htopic : m.event.topic ∈ Topic.all) (hkind : m.event.isProgress = false) :
    .bus m ∈ (b.onBusEvent T m).frames := by
  have henq : .bus m ∈ (b.enqueueEvent (.bus m) false).frames := by
    unfold Bridge.enqueueEvent Bridge.deliver
    simp [hstop]
  unfold Bridge.onBusEvent
  cases hev : m.event with
  | syncProgress p =>
    rw [hev] at hkind
    cases hkind
  | runtimeSnapshot n =>
    rw [hev] at htopic
    exact absurd htopic (by simp [BusEvent.topic, Topic.all])
  | _ => exact henq

/-- Step lemma: the timer thread, the clients and the dispatcher. -/
theorem Hub.Sound.bridge {a : Bridge.Act} (h : s.Sound) (hok : losesProgressOnly s (.bridge a)) :
    ({ s with bridge := s.bridge.step T a } : Hub).Sound := by
  have hstopping : (s.bridge.step T a).stopping = true →
      ∀ m, s.OnItsWay m → m.event.isProgress = true := by
    by_cases ha : a = .shutdown
    · subst ha
      exact fun _ => hok
    · rw [Bridge.step_stopping ha]
      exact h.stopped
  refine ⟨h.topics, h.fresh, h.forwarded, fun m hm hkind => ?_, hstopping, fun hc => ?_⟩
  · exact (h.kept m hm hkind).imp (fun hf => Bridge.step_frames hf) id
  · have hs := h.exited hc
    by_cases ha : a = .shutdown
    · subst ha
      unfold Bridge.step Bridge.shutdown
      simp [hs]
    · exact (Bridge.step_stopping ha).trans hs

/-- Step lemma: the consumer. -/
theorem Hub.Sound.consume (h : s.Sound) : (s.consume T).Sound := by
  unfold Hub.consume
  cases hc : s.consumer with
  | checking =>
    simp only
    split
    · rename_i hstop
      refine ⟨fun t ht => h.topics t (List.mem_of_mem_filter ht), h.fresh, h.forwarded, ?_, ?_,
        fun _ => hstop⟩
      · intro m hm hkind
        rcases h.kept m hm hkind with hf | hw
        · exact .inl hf
        · have := h.stopped hstop m hw
          rw [hkind] at this
          cases this
      · intro _ m hw
        exact h.stopped hstop m (hw.imp id (Or.imp id nofun))
    · exact ⟨h.topics, h.fresh, h.forwarded, fun m hm hkind => (h.kept m hm hkind).imp id
        (Or.imp id (Or.imp id fun hw => by rw [hc] at hw; cases hw)),
        fun hs m hw => h.stopped hs m (hw.imp id (Or.imp id nofun)), nofun⟩
  | receiving =>
    simp only
    cases hq : s.bus.mailbox bridgeSub with
    | nil =>
      exact ⟨h.topics, h.fresh, h.forwarded, fun m hm hkind => (h.kept m hm hkind).imp id
        (Or.imp id (Or.imp id fun hw => by rw [hc] at hw; cases hw)),
        fun hs m hw => h.stopped hs m (hw.imp id (Or.imp id nofun)), nofun⟩
    | cons m₀ q =>
      refine ⟨h.topics, h.fresh, h.forwarded, ?_, ?_, nofun⟩
      · intro m hm hkind
        refine (h.kept m hm hkind).imp id ?_
        rintro (hw | hw | hw)
        · exact .inl hw
        · rw [hq] at hw
          rcases List.mem_cons.mp hw with rfl | hw
          · exact .inr (.inr rfl)
          · exact .inr (.inl (by simpa using hw))
        · rw [hc] at hw
          cases hw
      · intro hs m hw
        refine h.stopped hs m ?_
        rcases hw with hw | hw | hw
        · exact .inl hw
        · refine .inr (.inl ?_)
          rw [hq]
          exact List.mem_cons_of_mem _ (by simpa using hw)
        · cases hw
          refine .inr (.inl ?_)
          rw [hq]
          exact List.mem_cons_self
  | handling m₀ =>
    have hstop : (s.bridge.onBusEvent T m₀).stopping = s.bridge.stopping :=
      Bridge.onBusEvent_stopping
    have hnext : ∀ m, ConsumerPc.handled m₀.event.request ≠ .handling m := by
      intro m
      cases m₀.event.request <;> nofun
    refine ⟨h.topics, h.fresh, h.forwarded, ?_, ?_, ?_⟩
    · intro m hm hkind
      rcases h.kept m hm hkind with hf | hw | hw | hw
      · exact .inl (Bridge.onBusEvent_frames hf)
      · exact .inr (.inl hw)
      · exact .inr (.inr (.inl hw))
      · -- the one in hand: the bridge cannot be stopping
        rw [hc] at hw
        cases hw
        cases hs : s.bridge.stopping with
        | true =>
          have := h.stopped hs m₀ (.inr (.inr hc))
          rw [hkind] at this
          cases this
        | false => exact .inl (Bridge.onBusEvent_delivers hs (h.forwarded m₀ hm) hkind)
    · intro hs m hw
      refine h.stopped (hstop.symm.trans hs) m ?_
      rcases hw with hw | hw | hw
      · exact .inl hw
      · exact .inr (.inl hw)
      · exact absurd hw (hnext m)
    · have hexit : ConsumerPc.handled m₀.event.request ≠ .exited := by
        cases m₀.event.request <;> nofun
      exact fun hx => absurd hx hexit
  | requesting immediate =>
    have hstop : (s.bridge.requestRuntimeSnapshot T immediate).stopping = s.bridge.stopping :=
      Bridge.step_stopping (a := .request immediate) nofun
    exact ⟨h.topics, h.fresh, h.forwarded, fun m hm hkind => (h.kept m hm hkind).imp
        (fun hf => Bridge.step_frames (a := .request immediate) hf)
        (Or.imp id (Or.imp id fun hw => by rw [hc] at hw; cases hw)),
      fun hs m hw => h.stopped (hstop.symm.trans hs) m (hw.imp id (Or.imp id nofun)), nofun⟩
  | exited => exact h

theorem hub_sound (h : (hubSystem T level).ReachableIf losesProgressOnly s) : s.Sound := by
  refine h.invariant ?_ ?_
  · rintro _ rfl
    exact initial_sound
  · intro s a s' hs hok hstep
    cases a with
    | bus a =>
      simp only [hubSystem, Hub.step] at hstep
      split at hstep
      · cases hstep
      · rename_i ha
        obtain ⟨b', hb, rfl⟩ := Option.map_eq_some_iff.mp hstep
        exact hs.bus (fun h => ha (.inl h)) hok hb
    | bridge a =>
      obtain rfl := Option.some.inj hstep
      exact hs.bridge hok
    | consume =>
      obtain rfl := Option.some.inj hstep
      exact hs.consume

-- ============================================================================
-- Delivered in the end
-- ============================================================================

/-- The publish of `m` has returned, and `m` has not been handled yet. -/
def Hub.Waiting (m : Message) (s : Hub) : Prop :=
  m ∈ s.published ∧ (m ∈ s.bus.mailbox bridgeSub ∨ s.consumer = .handling m)

/-- Turns of the consumer until it has gone round its loop to the next receive. -/
def ConsumerPc.rank : ConsumerPc → Nat
  | .receiving => 1
  | .checking => 2
  | .requesting _ => 3
  | .handling _ => 4
  | .exited => 5

/-- A bound on the consumer's turns until it has handled `m`. -/
def Hub.turns (m : Message) (s : Hub) : Nat :=
  if s.consumer = .handling m then 0
  else 4 * (s.bus.mailbox bridgeSub).idxOf m + s.consumer.rank

theorem mem_published {a : HubAct} (hs : Hub.step T s a = some s') (hm : m ∈ s.published) :
    m ∈ s'.published := by
  cases a with
  | bus a =>
    simp only [Hub.step] at hs
    split at hs
    · cases hs
    · obtain ⟨b', -, rfl⟩ := Option.map_eq_some_iff.mp hs
      exact List.mem_append_left _ hm
  | bridge a =>
    obtain rfl := Option.some.inj hs
    exact hm
  | consume =>
    obtain rfl := Option.some.inj hs
    unfold Hub.consume
    split
    · split <;> exact hm
    · split <;> exact hm
    · exact hm
    · exact hm
    · exact hm

/-- A step of the bus does not push `m` back. -/
theorem turns_bus {b' : Bus} {a : Bus.Act} (hkind : m.event.isProgress = false)
    (hok : losesProgressOnly s (.bus a)) (hmoves : s.bus.Moves a b')
    (hm : m ∈ s.bus.mailbox bridgeSub) :
    m ∈ b'.mailbox bridgeSub ∧
      (b'.mailbox bridgeSub).idxOf m ≤ (s.bus.mailbox bridgeSub).idxOf m := by
  cases hmoves with
  | quiet _ hbox => exact ⟨hbox ▸ hm, Nat.le_of_eq (by rw [hbox])⟩
  | published _ _ _ _ hbox => exact ⟨hbox ▸ hm, Nat.le_of_eq (by rw [hbox])⟩
  | carried _ _ hbox => exact ⟨hbox ▸ hm, Nat.le_of_eq (by rw [hbox])⟩
  | sent _ _ hbox =>
    rw [hbox]
    exact ⟨List.mem_append_left _ hm, Nat.le_of_eq (by rw [List.idxOf_append_of_mem hm])⟩
  | @evicted p m' subs ha hp _ hbox =>
    subst ha
    rw [hbox]
    cases hq : s.bus.mailbox bridgeSub with
    | nil =>
      rw [hq] at hm
      cases hm
    | cons old q =>
      have hold := hok m' subs hp old (by rw [hq]; rfl)
      have hne : old ≠ m := by
        rintro rfl
        rw [hkind] at hold
        cases hold
      rw [hq] at hm
      have hmq : m ∈ q := (List.mem_cons.mp hm).resolve_left (Ne.symm hne)
      refine ⟨hmq, ?_⟩
      rw [List.tail_cons, List.idxOf_cons_ne _ hne]
      exact Nat.le_succ _

/-- A turn of the consumer delivers `m` or brings it nearer. -/
theorem turns_consume (hsound : s.Sound) (hkind : m.event.isProgress = false)
    (hrunning : s.bridge.stopping = false) (hw : s.Waiting m) :
    .bus m ∈ (s.consume T).bridge.frames ∨
      (m ∈ (s.consume T).bus.mailbox bridgeSub ∨ (s.consume T).consumer = .handling m) ∧
        (s.consume T).turns m < s.turns m := by
  obtain ⟨hpub, hw⟩ := hw
  unfold Hub.consume Hub.turns
  cases hc : s.consumer with
  | checking =>
    rw [hc] at hw
    have hm := hw.resolve_right nofun
    right
    simp [hrunning, hm, ConsumerPc.rank]
  | receiving =>
    rw [hc] at hw
    have hm := hw.resolve_right nofun
    right
    simp only
    cases hq : s.bus.mailbox bridgeSub with
    | nil =>
      rw [hq] at hm
      cases hm
    | cons m₀ q =>
      by_cases heq : m₀ = m
      · subst heq
        simp [ConsumerPc.rank]
      · rw [hq] at hm
        have hmq : m ∈ q := (List.mem_cons.mp hm).resolve_left (Ne.symm heq)
        refine ⟨.inl (by simpa using hmq), ?_⟩
        simp only [ConsumerPc.handling.injEq, heq, ↓reduceIte, setMailbox_mailbox, reduceCtorEq,
          List.idxOf_cons_ne _ heq, ConsumerPc.rank]
        omega
  | handling m₀ =>
    by_cases heq : m₀ = m
    · subst heq
      exact .inl (Bridge.onBusEvent_delivers hrunning (hsound.forwarded m₀ hpub) hkind)
    · rw [hc] at hw
      have hm := hw.resolve_right (fun h => heq (by cases h; rfl))
      refine .inr ⟨.inl hm, ?_⟩
      have hrank : (ConsumerPc.handled m₀.event.request).rank < 4 ∧
          ConsumerPc.handled m₀.event.request ≠ .handling m := by
        cases m₀.event.request with
        | some immediate => exact ⟨by simp [ConsumerPc.handled, ConsumerPc.rank], nofun⟩
        | none => exact ⟨by simp [ConsumerPc.handled, ConsumerPc.rank], nofun⟩
      have hne : ConsumerPc.handling m₀ ≠ .handling m := fun h => heq (by cases h; rfl)
      simp only [if_neg hrank.2, if_neg hne]
      have hfull : (ConsumerPc.handling m₀).rank = 4 := rfl
      omega
  | requesting immediate =>
    rw [hc] at hw
    have hm := hw.resolve_right nofun
    right
    simp [hm, ConsumerPc.rank]
  | exited =>
    have hstop := hsound.exited hc
    rw [hrunning] at hstop
    cases hstop

/-- No step pushes `m` back, and a turn of the consumer brings it nearer. -/
theorem turns_step {a : HubAct} (hsound : s.Sound) (hkind : m.event.isProgress = false)
    (hw : s.Waiting m) (hok : losesProgressOnly s a) (hs : Hub.step T s a = some s') :
    .bus m ∈ s'.bridge.frames ∨
      s'.Waiting m ∧ s'.turns m ≤ s.turns m ∧ (a = .consume → s'.turns m < s.turns m) := by
  have hpub := mem_published hs hw.1
  cases a with
  | bus a =>
    simp only [Hub.step] at hs
    split at hs
    · cases hs
    · rename_i ha
      obtain ⟨b', hb, rfl⟩ := Option.map_eq_some_iff.mp hs
      right
      rcases hw.2 with hm | hm
      · obtain ⟨hm', hle⟩ := turns_bus hkind hok (step_moves hb fun h => ha (.inl h)) hm
        refine ⟨⟨hpub, .inl hm'⟩, ?_, nofun⟩
        unfold Hub.turns
        simp only
        split
        · exact Nat.le_refl _
        · omega
      · refine ⟨⟨hpub, .inr hm⟩, ?_, nofun⟩
        unfold Hub.turns
        rw [if_pos hm]
        exact Nat.zero_le _
  | bridge a =>
    obtain rfl := Option.some.inj hs
    exact .inr ⟨⟨hpub, hw.2⟩, Nat.le_refl _, nofun⟩
  | consume =>
    obtain rfl := Option.some.inj hs
    have hrunning : s.bridge.stopping = false := by
      cases hstop : s.bridge.stopping with
      | true =>
        have := hsound.stopped hstop m (.inr hw.2)
        rw [hkind] at this
        cases this
      | false => rfl
    rcases turns_consume (T := T) hsound hkind hrunning hw with hf | ⟨hbox, hlt⟩
    · exact .inl hf
    · exact .inr ⟨⟨hpub, hbox⟩, Nat.le_of_lt hlt, fun _ => hlt⟩

-- ============================================================================
-- The bus and the bridge lose no event but progress
-- ============================================================================

/-- As long as only progress is evicted, every other event that is published
    while the bridge is subscribed is with its publisher, in the mailbox, with
    the consumer or delivered; and once its `publish` has returned, it is
    delivered in the end, however the publishers go on, if the consumer gets
    turn after turn. -/
theorem eventually_delivered {T : BridgeTimings} {level : LogLevel}
    (x : (hubSystem T level).Execution losesProgressOnly) (hfair : x.Fair (· = .consume))
    {n : Nat} {m : Message} (hm : m ∈ (x.state n).published) (hkind : m.event.isProgress = false) :
    (.bus m ∈ (x.state n).bridge.frames ∨ (x.state n).OnItsWay m) ∧
      (¬ (x.state n).bus.Carried m → ∃ k, n ≤ k ∧ .bus m ∈ (x.state k).bridge.frames) := by
  have hkept := (hub_sound (x.reachable n)).kept m hm hkind
  refine ⟨hkept, fun hreturned => ?_⟩
  rcases hkept with hf | hw
  · exact ⟨n, Nat.le_refl n, hf⟩
  · have hwaiting : (x.state n).Waiting m := ⟨hm, hw.resolve_left hreturned⟩
    have hend := x.eventually (G := fun s => .bus m ∈ s.bridge.frames) (P := Hub.Waiting m)
      (Hub.turns m) hfair ?_ ?_ hwaiting
    · exact hend
    · intro s a s' hr hw hok hs
      rcases turns_step (hub_sound hr) hkind hw hok hs with hf | ⟨hw', hle, -⟩
      · exact .inl hf
      · exact .inr ⟨hw', hle⟩
    · intro s a s' hr hw hturn hs
      subst hturn
      rcases turns_step (a := .consume) (hub_sound hr) hkind hw trivial hs with hf | ⟨-, -, hlt⟩
      · exact .inl hf
      · exact .inr (hlt rfl)

-- ============================================================================
-- Runs of one publisher
-- ============================================================================

/-- The publishing thread that takes the step. -/
def HubAct.thread : HubAct → Option Nat
  | .bus (.publish p _) | .bus (.send p) | .bus (.evict p) => some p
  | _ => none

/-- A step leaves every other publishing thread where it is. -/
theorem step_call_other {a : HubAct} {q : Nat} (hs : Hub.step T s a = some s')
    (ha : a.thread ≠ some q) : s'.bus.call q = s.bus.call q := by
  have hset : ∀ (b : Bus) p pc, some p ≠ some q → (b.setCall p pc).call q = b.call q := by
    intro b p pc hp
    rw [setCall_call, if_neg (fun h => hp (by rw [h]))]
  cases a with
  | bus a =>
    simp only [Hub.step] at hs
    split at hs
    · cases hs
    · obtain ⟨b', hb, rfl⟩ := Option.map_eq_some_iff.mp hs
      show b'.call q = s.bus.call q
      cases a with
      | publish p ev =>
        simp only [Bus.step, Bus.publish] at hb
        split at hb
        · split at hb <;> cases hb
          · rfl
          · exact hset _ _ _ ha
        · cases hb
      | send p =>
        simp only [Bus.step, Bus.send] at hb
        split at hb
        · split at hb <;> cases hb <;> exact hset _ _ _ ha
        · cases hb
      | evict p =>
        simp only [Bus.step, Bus.evict] at hb
        split at hb <;> cases hb
        exact hset _ _ _ ha
      | subscribe topics =>
        obtain rfl := Option.some.inj hb
        rw [subscribe_call]
      | _ =>
        obtain rfl := Option.some.inj hb
        rfl
  | bridge a =>
    obtain rfl := Option.some.inj hs
    rfl
  | consume =>
    obtain rfl := Option.some.inj hs
    unfold Hub.consume
    split
    · split <;> rfl
    · split <;> rfl
    · rfl
    · rfl
    · rfl

theorem run_call_other {as : List HubAct} {q : Nat}
    (h : (hubSystem T level).runFrom s as = some s') (has : ∀ a ∈ as, a.thread ≠ some q) :
    s'.bus.call q = s.bus.call q := by
  induction as generalizing s with
  | nil =>
    obtain rfl := Option.some.inj h
    rfl
  | cons a as ih =>
    obtain ⟨s₁, h₁, h₂⟩ := Option.bind_eq_some_iff.mp h
    rw [ih h₂ fun b hb => has b (List.mem_cons_of_mem _ hb)]
    exact step_call_other h₁ (has a List.mem_cons_self)

/-- After a run of the publisher `0` that has come back, nothing is carried. -/
theorem not_carried {as : List HubAct}
    (h : (hubSystem T level).runFrom (.initial T level) as = some s')
    (has : as.all (fun a => a.thread.all (· == 0)) = true) (hidle : s'.bus.call 0 = .idle) :
    ¬ s'.bus.Carried m := by
  rintro ⟨q, hq⟩
  have hcall : s'.bus.call q = .idle := by
    by_cases h0 : q = 0
    · rw [h0, hidle]
    · rw [run_call_other h fun a ha hthread => h0 ?_]
      · exact congrFun (subscribe_call Bus.new Topic.all) q
      · have := List.all_eq_true.mp has a ha
        simpa [hthread] using this
  rw [hcall] at hq
  exact hq

/-- What the witness's steps are checked for. -/
def calmStep (s : Hub) : HubAct → Bool
  | .bus (.publish _ _) => !s.bridge.stopping
  | .bus (.send _) | .consume => true
  | _ => false

theorem losesProgressOnly_of_calm (s : Hub) (a : HubAct) (h : calmStep s a = true) :
    losesProgressOnly s a := by
  match a with
  | .bus (.publish p ev) =>
    intro hstop
    simp [calmStep, hstop] at h
  | .bus (.send p) => trivial
  | .consume => trivial

theorem consume_idle (T : BridgeTimings) (level : LogLevel) (s : Hub) :
    losesProgressOnly s .consume ∧ ((hubSystem T level).step s .consume).isSome :=
  ⟨trivial, rfl⟩

/-- A `sync:started` that waits in the mailbox. -/
def startedRun : List HubAct :=
  [.bus (.publish 0 (.syncStarted ⟨"t", "p", "push"⟩)), .bus (.send 0)]

def startedMessage : Message := ⟨0, .syncStarted ⟨"t", "p", "push"⟩⟩

theorem eventually_delivered_started :
    ∃ x : (hubSystem .default .info).Execution losesProgressOnly,
      startedMessage ∈ (x.state 2).published ∧
      ∃ k, 2 ≤ k ∧ .bus startedMessage ∈ (x.state k).bridge.frames := by
  have hrun : (((hubSystem .default .info).runIf calmStep (.initial .default .info)
      startedRun).any fun s => s.published.contains startedMessage && s.bus.call 0 == .idle) =
      true := by
    decide +kernel
  obtain ⟨s, hs, hend⟩ := (Option.any_eq_true _ _).mp hrun
  simp only [Bool.and_eq_true, List.contains_iff_mem, beq_iff_eq] at hend
  have hfrom := System.runFrom_of_runIf hs
  obtain ⟨x, hlast, hidle⟩ := System.exists_execution (consume_idle .default .info) rfl
    (System.meets_of_runIf losesProgressOnly_of_calm hs) hfrom
  have hlast : x.state 2 = s := hlast
  have hm : startedMessage ∈ (x.state 2).published := by
    rw [hlast]
    exact hend.1
  refine ⟨x, hm, ?_⟩
  have hfair : x.Fair (· = .consume) :=
    fun n => ⟨n + 2, Nat.le_add_right n 2, hidle (n + 2) (Nat.le_add_left 2 n)⟩
  refine (eventually_delivered x hfair hm rfl).2 ?_
  rw [hlast]
  exact not_carried hfrom (by decide) hend.2

-- ============================================================================
-- An event that is lost
-- ============================================================================

/-- `m` was published and is nowhere on its way any more. -/
structure Hub.Lost (s : Hub) (m : Message) : Prop where
  undelivered : .bus m ∉ s.bridge.frames
  gone : ¬ s.OnItsWay m
  notWaiting : ∀ k, ¬ s.bridge.Waits k m
  old : m.id < s.bus.posted

theorem step_posted {b b' : Bus} {a : Bus.Act} (hs : b.step a = some b') :
    b.posted ≤ b'.posted := by
  cases a with
  | publish p ev =>
    simp only [Bus.step, Bus.publish] at hs
    split at hs
    · split at hs <;> cases hs
      · exact Nat.le_refl _
      · exact Nat.le_succ _
    · cases hs
  | send p =>
    simp only [Bus.step, Bus.send] at hs
    split at hs
    · split at hs <;> cases hs <;> exact Nat.le_refl _
    · cases hs
  | evict p =>
    simp only [Bus.step, Bus.evict] at hs
    split at hs <;> cases hs
    exact Nat.le_refl _
  | subscribe topics =>
    obtain rfl := Option.some.inj hs
    unfold Bus.subscribe
    split <;> exact Nat.le_refl _
  | _ =>
    obtain rfl := Option.some.inj hs
    exact Nat.le_refl _

/-- A lost event stays lost. -/
theorem Hub.Lost.step (h : s.Lost m) (hs : Hub.step T s a = some s') : s'.Lost m := by
  cases a with
  | bus a =>
    simp only [Hub.step] at hs
    split at hs
    · cases hs
    · rename_i ha
      obtain ⟨b', hb, rfl⟩ := Option.map_eq_some_iff.mp hs
      refine ⟨h.undelivered, fun hw => ?_, h.notWaiting, Nat.lt_of_lt_of_le h.old (step_posted hb)⟩
      rcases Hub.onItsWay_iff.mp hw with hw | hw
      · rcases (step_moves hb fun hr => ha (.inl hr)).of_away hw with hw | ⟨p, ev, -, -, rfl, -⟩
        · exact h.gone (Hub.onItsWay_iff.mpr (.inl hw))
        · exact Nat.lt_irrefl _ h.old
      · exact h.gone (Hub.onItsWay_iff.mpr (.inr hw))
  | bridge a =>
    obtain rfl := Option.some.inj hs
    obtain ⟨hwaits, hframes⟩ := Bridge.step_flows (T := T) s.bridge a
    refine ⟨fun hf => ?_, h.gone, fun k hk => h.notWaiting k (hwaits k m hk), h.old⟩
    have hf : .bus m ∈ (s.bridge.step T a).frames := hf
    rcases hframes with hsame | ⟨f, hnew, hwas⟩
    · exact h.undelivered (hsame ▸ hf)
    · rw [hnew, List.mem_append, List.mem_singleton] at hf
      rcases hf with hf | hf
      · exact h.undelivered hf
      · obtain ⟨k, hk⟩ := hwas m (by rw [← hf]; rfl)
        exact h.notWaiting k hk
  | consume =>
    obtain rfl := Option.some.inj hs
    unfold Hub.consume
    cases hc : s.consumer with
    | checking =>
      simp only
      split
      · exact ⟨h.undelivered, fun hw => h.gone (hw.imp id (Or.imp id nofun)), h.notWaiting, h.old⟩
      · exact ⟨h.undelivered, fun hw => h.gone (hw.imp id (Or.imp id nofun)), h.notWaiting, h.old⟩
    | receiving =>
      simp only
      cases hq : s.bus.mailbox bridgeSub with
      | nil => exact ⟨h.undelivered, fun hw => h.gone (hw.imp id (Or.imp id nofun)), h.notWaiting, h.old⟩
      | cons m₀ q =>
        refine ⟨h.undelivered, fun hw => h.gone ?_, h.notWaiting, h.old⟩
        rcases hw with hw | hw | hw
        · exact .inl hw
        · refine .inr (.inl ?_)
          rw [hq]
          exact List.mem_cons_of_mem _ (by simpa using hw)
        · cases hw
          refine .inr (.inl ?_)
          rw [hq]
          exact List.mem_cons_self
    | handling m₀ =>
      have hne : m₀ ≠ m := by
        rintro rfl
        exact h.gone (.inr (.inr hc))
      have hnext : ConsumerPc.handled m₀.event.request ≠ .handling m := by
        cases m₀.event.request <;> nofun
      have hgone : ¬ ({ s with
          bridge := s.bridge.onBusEvent T m₀
          consumer := .handled m₀.event.request } : Hub).OnItsWay m := by
        rintro (hw | hw | hw)
        · exact h.gone (.inl hw)
        · exact h.gone (.inr (.inl hw))
        · exact hnext hw
      cases hk : m₀.event.progressKey with
      | none =>
        have hb := Bridge.onBusEvent_other (T := T) (b := s.bridge) hk
        have hframes : .bus m ∉ (s.bridge.onBusEvent T m₀).frames := by
          intro hf
          rcases hb with hb | hb
          · exact h.undelivered (hb ▸ hf)
          · rw [hb] at hf
            rcases Bridge.enqueueEvent_frames s.bridge (.bus m₀) false with hsame | hnew
            · exact h.undelivered (hsame ▸ hf)
            · rw [hnew, List.mem_append, List.mem_singleton] at hf
              rcases hf with hf | hf
              · exact h.undelivered hf
              · cases hf
                exact hne rfl
        refine ⟨hframes, hgone, fun k hw => ?_, h.old⟩
        rcases hb with hb | hb
        · exact h.notWaiting k (hb ▸ hw)
        · have hw : (s.bridge.onBusEvent T m₀).Waits k m := hw
          rw [hb] at hw
          exact h.notWaiting k (Bridge.waits_congr (by simp) (by simp) hw)
      | some j =>
        obtain ⟨n, ev⟩ := m₀
        cases ev with
        | syncProgress p =>
          refine ⟨h.undelivered, hgone, fun k hw => ?_, h.old⟩
          rcases Bridge.enqueueProgress_waits hw with hw | ⟨-, rfl⟩
          · exact h.notWaiting k hw
          · exact hne rfl
        | _ => cases hk
    | requesting immediate =>
      obtain ⟨hwaits, hframes⟩ := Bridge.step_flows (T := T) s.bridge (.request immediate)
      have hsame : (s.bridge.requestRuntimeSnapshot T immediate).frames = s.bridge.frames := by
        unfold Bridge.requestRuntimeSnapshot
        simp only
        split_ifs <;> rfl
      exact ⟨fun hf => h.undelivered (hsame ▸ hf), fun hw => h.gone (hw.imp id (Or.imp id nofun)),
        fun k hk => h.notWaiting k (hwaits k m hk), h.old⟩
    | exited => exact h

theorem lost_forever {ok : Hub → HubAct → Prop} (x : (hubSystem T level).Execution ok) {n : Nat}
    (h : (x.state n).Lost m) (d : Nat) : (x.state (n + d)).Lost m := by
  induction d with
  | zero => exact h
  | succ d ih => exact ih.step (x.next (n + d))

def HubAct.isBus : HubAct → Bool
  | .bus _ => true
  | _ => false

/-- Steps of the bus leave the bridge and its consumer as they are. -/
theorem run_of_bus {as : List HubAct} (has : as.all HubAct.isBus = true)
    (h : (hubSystem T level).runFrom s as = some s') :
    s'.bridge = s.bridge ∧ s'.consumer = s.consumer := by
  induction as generalizing s with
  | nil =>
    obtain rfl := Option.some.inj h
    exact ⟨rfl, rfl⟩
  | cons a as ih =>
    obtain ⟨s₁, h₁, h₂⟩ := Option.bind_eq_some_iff.mp h
    simp only [List.all_cons, Bool.and_eq_true] at has
    obtain ⟨hb, hc⟩ := ih has.2 h₂
    rw [hb, hc]
    cases a with
    | bus a =>
      have h₁ : Hub.step T s (.bus a) = some s₁ := h₁
      simp only [Hub.step] at h₁
      split at h₁
      · cases h₁
      · obtain ⟨b', -, rfl⟩ := Option.map_eq_some_iff.mp h₁
        exact ⟨rfl, rfl⟩
    | _ => cases has.1

/-- A `sync:started` and 64 times progress, before the consumer gets a turn. -/
def floodRun : List HubAct :=
  let progress : BusEvent := .syncProgress ⟨"t", "p", "push", "running", 1, 2, ""⟩
  startedRun ++
    (List.replicate 64 [.bus (.publish 0 progress), .bus (.send 0)]).flatten ++
    [.bus (.evict 0), .bus (.send 0)]

/-- The start is evicted, and no turn of the consumer delivers it any more. -/
theorem event_lost :
    ¬ ∀ (T : BridgeTimings) (level : LogLevel)
      (x : (hubSystem T level).Execution fun _ a => a ≠ .bridge .shutdown),
      x.Fair (· = .consume) → ∀ n m, m ∈ (x.state n).published →
        m.event.isProgress = false → ∃ k, n ≤ k ∧ .bus m ∈ (x.state k).bridge.frames := by
  intro hall
  have hrun : (((hubSystem .default .info).runIf (fun _ a => a != .bridge .shutdown)
      (.initial .default .info) floodRun).any fun s =>
        s.published.contains startedMessage && s.bus.call 0 == .idle &&
        !(s.bus.mailbox bridgeSub).contains startedMessage && s.bus.posted == 65) = true := by
    decide +kernel
  obtain ⟨s, hs, hend⟩ := (Option.any_eq_true _ _).mp hrun
  simp only [Bool.and_eq_true, List.contains_iff_mem, beq_iff_eq, Bool.not_eq_true',
    ← Bool.not_eq_true] at hend
  obtain ⟨⟨⟨hpub, hidle⟩, hbox⟩, hposted⟩ := hend
  have hfrom := System.runFrom_of_runIf hs
  obtain ⟨hbridge, hconsumer⟩ := run_of_bus (by decide +kernel) hfrom
  have hlost : s.Lost startedMessage := by
    refine ⟨?_, ?_, ?_, ?_⟩
    · rw [hbridge]
      exact List.not_mem_nil
    · rintro (hw | hw | hw)
      · exact not_carried hfrom (by decide +kernel) hidle hw
      · exact hbox hw
      · rw [hconsumer] at hw
        cases hw
    · rintro k (hw | hw) <;>
      · rw [hbridge] at hw
        cases hw
    · rw [hposted]
      decide
  obtain ⟨x, hlast, hact⟩ :
      ∃ x : (hubSystem .default .info).Execution fun _ a => a ≠ .bridge .shutdown,
        x.state floodRun.length = s ∧ ∀ n, floodRun.length ≤ n → x.act n = .consume :=
    System.exists_execution (fun _ => ⟨nofun, rfl⟩) rfl
      (System.meets_of_runIf (fun _ _ h => by simpa using h) hs) hfrom
  have hfair : x.Fair (· = .consume) :=
    fun n => ⟨n + floodRun.length, Nat.le_add_right _ _, hact _ (Nat.le_add_left _ _)⟩
  obtain ⟨k, hk, hdelivered⟩ := hall _ _ x hfair floodRun.length startedMessage
    (by rw [hlast]; exact hpub) rfl
  obtain ⟨d, hd⟩ := Nat.exists_eq_add_of_le hk
  rw [hd] at hdelivered
  exact (lost_forever x (by rw [hlast]; exact hlost) d).undelivered hdelivered

end
end GnDrive.Events
