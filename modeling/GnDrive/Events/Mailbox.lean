/-
  GnDrive.Events.Mailbox

  What a subscriber gets of what is published (`event_bus.rs`), for any number
  of publishing threads and for every subscription.

  `Traced` keeps beside the bus what was published, with the subscriptions
  `publish` found, and for every mailbox what was put in and what was taken
  out.  Each publisher's events come in its own order, `publish` does not
  return before its event was put in every mailbox it found, and the mailbox
  holds the newest of what was put in.

  There is no order of publication beyond that: `delivered_in_two_orders` has
  two subscribers that receive two events in opposite orders.
-/

import GnDrive.Events.Bus
import GnDrive.Lib.System
import Mathlib.Data.List.DropRight
import Mathlib.Data.List.Nodup

namespace GnDrive.Events

/-- An event that is published, by which thread, and the subscriptions found. -/
structure Publication where
  publisher : Nat
  message : Message
  subs : List SubId
deriving DecidableEq

structure Traced where
  bus : Bus
  published : List Publication
  /-- What was put in each mailbox, and by which thread. -/
  enqueued : SubId → List (Nat × Message)
  received : SubId → List Message

namespace Traced

def initial : Traced := ⟨.new, [], fun _ => [], fun _ => []⟩

/-- `try_send` of a thread: it goes through unless the mailbox is full. -/
def enqueuedBy (t : Traced) (p : Nat) : SubId → List (Nat × Message) :=
  match t.bus.call p with
  | .sending m s _ =>
      if (t.bus.mailbox s).length < MAILBOX_CAPACITY then
        Function.update t.enqueued s (t.enqueued s ++ [(p, m)])
      else t.enqueued
  | _ => t.enqueued

/-- Keep the records of a step that leads to `bus`. -/
def record (t : Traced) (bus : Bus) : Bus.Act → Traced
  | .publish p ev =>
      { t with
        bus
        published := if t.bus.closed then t.published
          else t.published ++ [⟨p, ⟨t.bus.posted, ev⟩, t.bus.topics ev.topic⟩] }
  | .send p => { t with bus, enqueued := t.enqueuedBy p }
  | .recv s =>
      { t with
        bus
        received := Function.update t.received s
          (t.received s ++ (t.bus.mailbox s).head?.toList) }
  | _ => { t with bus }

def step (t : Traced) (a : Bus.Act) : Option Traced := (t.bus.step a).map fun bus => t.record bus a

end Traced

def tracedSystem : System Traced Bus.Act where
  init t := t = .initial
  step := Traced.step

-- ============================================================================
-- What a subscriber is due
-- ============================================================================

/-- The subscriptions a thread is not through with. -/
def PublishPc.subs : PublishPc → List SubId
  | .idle => []
  | .sending _ s subs | .evicting _ s subs => s :: subs

/-- What a thread has yet to put in the mailbox of `s`. -/
def PublishPc.pending (s : SubId) : PublishPc → List Message
  | .idle => []
  | .sending m s' subs | .evicting m s' subs => if s ∈ s' :: subs then [m] else []

/-- The thread is at its `try_send` to `s`. -/
def PublishPc.sendsTo (s : SubId) : PublishPc → Bool
  | .sending _ s' _ => s' == s
  | _ => false

/-- The thread is about to evict from the mailbox of `s`. -/
def PublishPc.evictsFrom (s : SubId) : PublishPc → Bool
  | .evicting _ s' _ => s' == s
  | _ => false

namespace Traced

/-- What `p` has published to the subscription `s`, in its order. -/
def publishedBy (t : Traced) (p : Nat) (s : SubId) : List Message :=
  (t.published.filter fun x => x.publisher == p && x.subs.contains s).map (·.message)

/-- What `p` has put in the mailbox of `s`. -/
def sentBy (t : Traced) (p : Nat) (s : SubId) : List Message :=
  ((t.enqueued s).filter fun x => x.1 == p).map (·.2)

/-- Everything that was put in the mailbox of `s`. -/
def offered (t : Traced) (s : SubId) : List Message := (t.enqueued s).map (·.2)

/-- What was put in the mailbox after the last event that was taken out. -/
def undelivered (t : Traced) (s : SubId) : List Message :=
  match (t.received s).getLast? with
  | none => t.offered s
  | some m => ((t.offered s).dropWhile (· != m)).tail

end Traced

/-- No subscription names a topic twice. -/
def Bus.Act.namesOnce : Bus.Act → Bool
  | .subscribe topics => decide topics.Nodup
  | _ => true

/-- Only `p` publishes, and nothing is taken from the mailbox of `s` while `p`
    is about to evict from it. -/
def solePublisher (p : Nat) (s : SubId) (t : Traced) (a : Bus.Act) : Bool :=
  a.namesOnce &&
    match a with
    | .publish q _ => q == p
    | .recv s' => s' != s || !(t.bus.call p).evictsFrom s
    | _ => true

-- ============================================================================
-- What a step does
-- ============================================================================

/-- What a step of the bus does to threads, mailboxes and records. -/
inductive Traced.Does (t : Traced) : Bus.Act → Traced → Prop where
  | quiet {a : Bus.Act} {bus : Bus} : bus.call = t.bus.call → bus.mailbox = t.bus.mailbox →
      bus.posted = t.bus.posted → Does t a { t with bus }
  | posted {p : Nat} {ev : BusEvent} : t.bus.call p = .idle →
      Does t (.publish p ev)
        { t with
          bus := { t.bus with posted := t.bus.posted + 1 }.setCall p
            (Bus.toNext ⟨t.bus.posted, ev⟩ (t.bus.topics ev.topic))
          published := t.published ++ [⟨p, ⟨t.bus.posted, ev⟩, t.bus.topics ev.topic⟩] }
  | sent {p : Nat} {m : Message} {s : SubId} {subs : List SubId} :
      t.bus.call p = .sending m s subs → (t.bus.mailbox s).length < MAILBOX_CAPACITY →
      Does t (.send p)
        { t with
          bus := (t.bus.setMailbox s (t.bus.mailbox s ++ [m])).setCall p (Bus.toNext m subs)
          enqueued := Function.update t.enqueued s (t.enqueued s ++ [(p, m)]) }
  | full {p : Nat} {m : Message} {s : SubId} {subs : List SubId} :
      t.bus.call p = .sending m s subs → MAILBOX_CAPACITY ≤ (t.bus.mailbox s).length →
      Does t (.send p) { t with bus := t.bus.setCall p (.evicting m s subs) }
  | evicted {p : Nat} {m : Message} {s : SubId} {subs : List SubId} :
      t.bus.call p = .evicting m s subs →
      Does t (.evict p)
        { t with
          bus := (t.bus.setMailbox s (t.bus.mailbox s).tail).setCall p (.sending m s subs) }
  | taken {s : SubId} :
      Does t (.recv s)
        { t with
          bus := t.bus.setMailbox s (t.bus.mailbox s).tail
          received := Function.update t.received s
            (t.received s ++ (t.bus.mailbox s).head?.toList) }

section

variable {t t' : Traced} {a : Bus.Act} {p : Nat} {s : SubId}

theorem Traced.step_does (hs : t.step a = some t') : t.Does a t' := by
  obtain ⟨bus, hb, rfl⟩ := Option.map_eq_some_iff.mp hs
  cases a with
  | publish p ev =>
    simp only [Bus.step, Bus.publish] at hb
    split at hb
    · rename_i hp
      by_cases hc : t.bus.closed = true
      · rw [if_pos hc] at hb
        obtain rfl := Option.some.inj hb
        simp only [record, if_pos hc]
        exact .quiet rfl rfl rfl
      · rw [if_neg hc] at hb
        obtain rfl := Option.some.inj hb
        simp only [record, if_neg hc]
        exact .posted hp
    · cases hb
  | send p =>
    simp only [Bus.step, Bus.send] at hb
    split at hb
    · rename_i m s subs hp
      by_cases hroom : (t.bus.mailbox s).length < MAILBOX_CAPACITY
      · rw [Channel.trySend, if_pos hroom] at hb
        obtain rfl := Option.some.inj hb
        simp only [record, enqueuedBy, hp, if_pos hroom]
        exact .sent hp hroom
      · rw [Channel.trySend, if_neg hroom] at hb
        obtain rfl := Option.some.inj hb
        simp only [record, enqueuedBy, hp, if_neg hroom]
        exact .full hp (Nat.le_of_not_lt hroom)
    · cases hb
  | evict p =>
    simp only [Bus.step, Bus.evict] at hb
    split at hb
    · rename_i m s subs hp
      obtain rfl := Option.some.inj hb
      exact .evicted hp
    · cases hb
  | subscribe topics =>
    obtain rfl := Option.some.inj hb
    exact .quiet (subscribe_call ..) (subscribe_mailbox ..) (subscribe_posted ..)
  | recv s =>
    obtain rfl := Option.some.inj hb
    exact .taken
  | cancel s =>
    obtain rfl := Option.some.inj hb
    exact .quiet rfl rfl rfl
  | close =>
    obtain rfl := Option.some.inj hb
    exact .quiet rfl rfl rfl

-- ============================================================================
-- Subscriptions are told apart
-- ============================================================================

/-- A topic has each of its subscriptions once, and new ones get new ids. -/
def Bus.Subscribed (b : Bus) : Prop :=
  ∀ tp, (b.topics tp).Nodup ∧ ∀ s ∈ b.topics tp, s < b.nextId

theorem subscribe_subscribed {b : Bus} {topics : List Topic} (h : b.Subscribed)
    (honce : topics.Nodup) : (b.subscribe topics).Subscribed := by
  intro tp
  obtain ⟨hnodup, hold⟩ := h tp
  unfold Bus.subscribe
  split
  · exact ⟨hnodup, fun s hs => Nat.lt_succ_of_lt (hold s hs)⟩
  · have hcount : topics.count tp ≤ 1 := List.nodup_iff_count_le_one.mp honce tp
    refine ⟨List.nodup_append.mpr ⟨hnodup, List.nodup_replicate.mpr hcount, ?_⟩, fun s hs => ?_⟩
    · intro s hs s' hs' heq
      have hfresh : s' = b.nextId := List.eq_of_mem_replicate hs'
      exact Nat.ne_of_lt (hold s hs) (heq.trans hfresh)
    · show s < b.nextId + 1
      rcases List.mem_append.mp hs with hs | hs
      · exact Nat.lt_succ_of_lt (hold s hs)
      · rw [List.eq_of_mem_replicate hs]
        exact Nat.lt_succ_self _

theorem Bus.Subscribed.step {b b' : Bus} (h : b.Subscribed) (honce : a.namesOnce = true)
    (hs : b.step a = some b') : b'.Subscribed := by
  cases a with
  | publish p ev =>
    simp only [Bus.step, Bus.publish] at hs
    split at hs
    · split at hs <;> cases hs <;> exact h
    · cases hs
  | send p =>
    simp only [Bus.step, Bus.send] at hs
    split at hs
    · split at hs <;> cases hs <;> exact h
    · cases hs
  | evict p =>
    simp only [Bus.step, Bus.evict] at hs
    split at hs <;> cases hs
    exact h
  | subscribe topics =>
    obtain rfl := Option.some.inj hs
    exact subscribe_subscribed h (of_decide_eq_true honce)
  | cancel s =>
    obtain rfl := Option.some.inj hs
    exact fun tp => ⟨(h tp).1.filter _, fun s hs => (h tp).2 s (List.mem_of_mem_filter hs)⟩
  | recv s =>
    obtain rfl := Option.some.inj hs
    exact h
  | close =>
    obtain rfl := Option.some.inj hs
    exact fun _ => ⟨List.nodup_nil, by simp [Bus.close]⟩

-- ============================================================================
-- Every publisher's events, in its order
-- ============================================================================

theorem pending_toNext (m : Message) (subs : List SubId) (s : SubId) :
    (Bus.toNext m subs).pending s = if s ∈ subs then [m] else [] := by
  cases subs with
  | nil => rfl
  | cons s' subs => rfl

theorem subs_toNext (m : Message) (subs : List SubId) : (Bus.toNext m subs).subs = subs := by
  cases subs with
  | nil => rfl
  | cons s' subs => rfl

structure Traced.Sound (t : Traced) : Prop where
  ids : t.published.map (·.message.id) = List.range t.bus.posted
  subscribed : t.bus.Subscribed
  found : ∀ p, (t.bus.call p).subs.Nodup
  /-- What a publisher has put in a mailbox, and what it has yet to put there. -/
  sent : ∀ p s, t.sentBy p s ++ (t.bus.call p).pending s = t.publishedBy p s
  queued : ∀ s, (t.received s ++ t.bus.mailbox s).Sublist (t.offered s)

namespace Traced

theorem initial_sound : initial.Sound where
  ids := rfl
  subscribed _ := ⟨List.nodup_nil, by simp [initial, Bus.new]⟩
  found _ := List.nodup_nil
  sent _ _ := rfl
  queued _ := List.Sublist.refl _

theorem Does.found (h : t.Does a t') (hsub : t.bus.Subscribed)
    (hfound : ∀ p, (t.bus.call p).subs.Nodup) (q : Nat) : (t'.bus.call q).subs.Nodup := by
  cases h with
  | quiet hcall hbox hposted =>
    show (PublishPc.subs (_ : PublishPc)).Nodup
    rw [hcall]
    exact hfound q
  | @posted p ev hp =>
    simp only [setCall_call]
    split
    · rw [subs_toNext]
      exact (hsub ev.topic).1
    · exact hfound q
  | @sent p m s subs hp hroom =>
    simp only [setCall_call, setMailbox_call]
    split
    · have hnodup := hfound p
      rw [hp] at hnodup
      rw [subs_toNext]
      exact (List.nodup_cons.mp hnodup).2
    · exact hfound q
  | @full p m s subs hp hfull =>
    simp only [setCall_call]
    split
    · have hnodup := hfound p
      rwa [hp] at hnodup
    · exact hfound q
  | @evicted p m s subs hp =>
    simp only [setCall_call, setMailbox_call]
    split
    · have hnodup := hfound p
      rwa [hp] at hnodup
    · exact hfound q
  | taken => exact hfound q

/-- What `p` has put in the mailbox of `s` and has yet to put there is what it
    has published to it. -/
theorem Does.sent_eq (h : t.Does a t') (hfound : ∀ p, (t.bus.call p).subs.Nodup)
    (hsent : ∀ p s, t.sentBy p s ++ (t.bus.call p).pending s = t.publishedBy p s)
    (q : Nat) (r : SubId) :
    t'.sentBy q r ++ (t'.bus.call q).pending r = t'.publishedBy q r := by
  have hbefore := hsent q r
  cases h with
  | quiet hcall hbox hposted =>
    show t.sentBy q r ++ (PublishPc.pending r (_ : PublishPc)) = t.publishedBy q r
    rw [hcall]
    exact hbefore
  | @posted p ev hp =>
    simp only [sentBy, publishedBy, setCall_call, List.filter_append, List.map_append] at hbefore ⊢
    by_cases hq : q = p
    · subst hq
      rw [hp] at hbefore
      rw [if_pos rfl, pending_toNext, ← hbefore]
      by_cases hr : r ∈ t.bus.topics ev.topic <;> simp [hr, PublishPc.pending]
    · rw [if_neg hq, hbefore]
      simp [Ne.symm hq]
  | @sent p m s subs hp hroom =>
    have hnodup := hfound p
    rw [hp] at hnodup
    simp only [sentBy, publishedBy, setCall_call, setMailbox_call] at hbefore ⊢
    rw [← hbefore]
    by_cases hq : q = p
    · subst hq
      rw [if_pos rfl, hp, pending_toNext]
      by_cases hr : r = s
      · subst hr
        have hlast : r ∉ subs := (List.nodup_cons.mp hnodup).1
        simp [PublishPc.pending, hlast]
      · simp [PublishPc.pending, hr]
    · rw [if_neg hq]
      by_cases hr : r = s
      · subst hr
        simp [Ne.symm hq]
      · simp [hr]
  | @full p m s subs hp hfull =>
    simp only [sentBy, publishedBy, setCall_call] at hbefore ⊢
    rw [← hbefore]
    split
    · rename_i hq
      rw [hq, hp]
      rfl
    · rfl
  | @evicted p m s subs hp =>
    simp only [sentBy, publishedBy, setCall_call, setMailbox_call] at hbefore ⊢
    rw [← hbefore]
    split
    · rename_i hq
      rw [hq, hp]
      rfl
    · rfl
  | taken => exact hbefore

/-- What was taken out and what is still there was put in, in that order. -/
theorem Does.queued (h : t.Does a t')
    (hqueued : ∀ s, (t.received s ++ t.bus.mailbox s).Sublist (t.offered s)) (r : SubId) :
    (t'.received r ++ t'.bus.mailbox r).Sublist (t'.offered r) := by
  have hbefore := hqueued r
  cases h with
  | quiet hcall hbox hposted =>
    show (t.received r ++ (_ : SubId → List Message) r).Sublist (t.offered r)
    rw [hbox]
    exact hbefore
  | posted hp => exact hbefore
  | @sent p m s subs hp hroom =>
    simp only [offered, setCall_mailbox, setMailbox_mailbox] at hbefore ⊢
    by_cases hr : r = s
    · subst hr
      simp only [if_pos, Function.update_self, List.map_append, List.map_cons, List.map_nil]
      rw [← List.append_assoc]
      exact hbefore.append (List.Sublist.refl _)
    · rw [if_neg hr, Function.update_of_ne hr]
      exact hbefore
  | full hp hfull => exact hbefore
  | @evicted p m s subs hp =>
    simp only [offered, setCall_mailbox, setMailbox_mailbox] at hbefore ⊢
    by_cases hr : r = s
    · subst hr
      rw [if_pos rfl]
      exact ((List.Sublist.refl _).append (List.tail_sublist _)).trans hbefore
    · rw [if_neg hr]
      exact hbefore
  | @taken s =>
    simp only [offered, setMailbox_mailbox] at hbefore ⊢
    by_cases hr : r = s
    · subst hr
      rw [if_pos rfl, Function.update_self, List.append_assoc]
      convert hbefore using 2
      cases t.bus.mailbox r <;> rfl
    · rw [if_neg hr, Function.update_of_ne hr]
      exact hbefore

theorem Does.ids (h : t.Does a t')
    (hids : t.published.map (·.message.id) = List.range t.bus.posted) :
    t'.published.map (·.message.id) = List.range t'.bus.posted := by
  cases h with
  | quiet hcall hbox hposted =>
    show t.published.map (·.message.id) = List.range (_ : Nat)
    rw [hposted]
    exact hids
  | posted hp =>
    show (t.published ++ [_]).map _ = List.range (t.bus.posted + 1)
    rw [List.map_append, hids, List.range_succ]
    rfl
  | sent hp hroom => exact hids
  | full hp hfull => exact hids
  | evicted hp => exact hids
  | taken => exact hids

theorem Sound.step (h : t.Sound) (honce : a.namesOnce = true) (hs : t.step a = some t') :
    t'.Sound := by
  have hdoes := step_does hs
  obtain ⟨bus, hb, rfl⟩ := Option.map_eq_some_iff.mp hs
  refine ⟨hdoes.ids h.ids, ?_, hdoes.found h.subscribed h.found, hdoes.sent_eq h.found h.sent,
    hdoes.queued h.queued⟩
  have hbus : (t.record bus a).bus = bus := by cases a <;> rfl
  rw [hbus]
  exact h.subscribed.step honce hb

theorem sound_of_reachable (h : tracedSystem.ReachableIf (fun _ a => a.namesOnce = true) t) :
    t.Sound := by
  refine h.invariant ?_ fun _ _ _ hp hok hs => hp.step hok hs
  rintro _ rfl
  exact initial_sound

/-- Who has put a message in a mailbox has published it. -/
theorem Sound.mem_published (h : t.Sound) {m : Message} (hm : (p, m) ∈ t.enqueued s) :
    ∃ subs, ⟨p, m, subs⟩ ∈ t.published := by
  have hsent : m ∈ t.sentBy p s :=
    List.mem_map.mpr ⟨(p, m), List.mem_filter.mpr ⟨hm, by simp⟩, rfl⟩
  have hpub : m ∈ t.publishedBy p s := by
    rw [← h.sent]
    exact List.mem_append_left _ hsent
  obtain ⟨x, hx, rfl⟩ := List.mem_map.mp hpub
  obtain ⟨hx, hcond⟩ := List.mem_filter.mp hx
  simp only [Bool.and_eq_true, beq_iff_eq] at hcond
  refine ⟨x.subs, ?_⟩
  rw [← hcond.1]
  exact hx

theorem Sound.nodup_published (h : t.Sound) : (t.published.map (·.message)).Nodup := by
  have hids : ((t.published.map (·.message)).map Message.id).Nodup := by
    rw [List.map_map]
    show (t.published.map (·.message.id)).Nodup
    rw [h.ids]
    exact List.nodup_range
  exact List.Nodup.of_map _ hids

/-- Nothing is put in a mailbox twice. -/
theorem Sound.offered_nodup (h : t.Sound) (s : SubId) : (t.offered s).Nodup := by
  have hpub := h.nodup_published
  -- one publisher at a time
  have hsent : ∀ p, ((t.enqueued s).filter fun x => x.1 == p).Nodup := by
    intro p
    have hnodup : (t.publishedBy p s).Nodup := hpub.sublist (List.filter_sublist.map _)
    rw [← h.sent] at hnodup
    exact List.Nodup.of_map _ hnodup.of_append_left
  have hpairs : (t.enqueued s).Nodup := by
    rw [List.nodup_iff_count_le_one]
    intro x
    have hcount := List.nodup_iff_count_le_one.mp (hsent x.1) x
    rwa [List.count_filter (by simp)] at hcount
  refine (List.nodup_map_iff_inj_on hpairs).mpr ?_
  rintro ⟨p, m⟩ hp ⟨q, m'⟩ hq (rfl : m = m')
  obtain ⟨subs, hx⟩ := h.mem_published hp
  obtain ⟨subs', hy⟩ := h.mem_published hq
  have heq := List.inj_on_of_nodup_map hpub hx hy rfl
  rw [(Publication.mk.inj heq).1]

end Traced

-- ============================================================================
-- The newest events are in the mailbox
-- ============================================================================

/-- The mailbox of `s` has the newest of what was put in it after the last event
    taken out: all that it has room for, or one less after an eviction. -/
structure Traced.Window (t : Traced) (p : Nat) (s : SubId) : Prop where
  others : ∀ q, q ≠ p → t.bus.call q = .idle
  full : (t.bus.call p).evictsFrom s = true → MAILBOX_CAPACITY ≤ (t.bus.mailbox s).length
  newest : ∃ old fresh k, t.offered s = old ++ fresh ∧
    (t.received s).getLast? = old.getLast? ∧ t.bus.mailbox s = fresh.rtake k ∧
    (k = MAILBOX_CAPACITY ∨ k + 1 = MAILBOX_CAPACITY ∧ (t.bus.call p).sendsTo s = true)

theorem length_rtake {α : Type} (l : List α) (k : Nat) : (l.rtake k).length = min k l.length := by
  unfold List.rtake
  rw [List.length_drop]
  omega

theorem tail_rtake {α : Type} (l : List α) (k : Nat) (hk : k + 1 ≤ l.length) :
    (l.rtake (k + 1)).tail = l.rtake k := by
  unfold List.rtake
  rw [List.tail_drop]
  congr 1
  omega

theorem rtake_of_length_le {α : Type} {l : List α} {k : Nat} (h : l.length ≤ k) :
    l.rtake k = l := by
  unfold List.rtake
  rw [Nat.sub_eq_zero_of_le h, List.drop_zero]

/-- A new event at the back, in a mailbox that has room for it. -/
theorem rtake_concat {α : Type} {l : List α} {k : Nat} (x : α)
    (hroom : (l.rtake k).length < MAILBOX_CAPACITY)
    (hk : k = MAILBOX_CAPACITY ∨ k + 1 = MAILBOX_CAPACITY) :
    (l ++ [x]).rtake MAILBOX_CAPACITY = l.rtake k ++ [x] := by
  rcases hk with rfl | hk
  · rw [length_rtake] at hroom
    have hlen : l.length + 1 ≤ MAILBOX_CAPACITY := by omega
    rw [rtake_of_length_le (by simpa using hlen), rtake_of_length_le (by omega)]
  · rw [← hk, List.rtake_concat_succ]

namespace Traced

theorem initial_window (p : Nat) (s : SubId) : initial.Window p s where
  others _ _ := rfl
  full h := by cases h
  newest := ⟨[], [], MAILBOX_CAPACITY, rfl, rfl, rfl, .inl rfl⟩

theorem Does.window (h : t.Does a t') (hok : solePublisher p s t a = true)
    (hw : t.Window p s) : t'.Window p s := by
  obtain ⟨hothers, hfull, old, fresh, k, hoffered, hlast, hbox, hk⟩ := hw
  -- whoever publishes is `p`
  have hsole : ∀ q m s' subs, t.bus.call q = .sending m s' subs ∨
      t.bus.call q = .evicting m s' subs → q = p := by
    intro q m s' subs hq
    by_contra hne
    rw [hothers q hne] at hq
    rcases hq with hq | hq <;> cases hq
  cases h with
  | quiet hcall hmailbox hposted =>
    refine ⟨fun q hq => ?_, fun h => ?_, old, fresh, k, hoffered, hlast, ?_, ?_⟩
    · exact (congrFun hcall q).trans (hothers q hq)
    · simp only [hcall, hmailbox] at h ⊢
      exact hfull h
    · exact (congrFun hmailbox s).trans hbox
    · simp only [hcall]
      exact hk
  | @posted q ev hq =>
    have hqp : q = p := by simpa [solePublisher, Bus.Act.namesOnce] using hok
    subst hqp
    have hk : k = MAILBOX_CAPACITY := by
      rcases hk with hk | ⟨-, hk⟩
      · exact hk
      · rw [hq] at hk
        cases hk
    refine ⟨fun r hr => ?_, fun h => ?_, old, fresh, k, hoffered, hlast, hbox, .inl hk⟩
    · simp [hr, hothers r hr]
    · simp only [setCall_call, if_pos] at h
      cases hsubs : t.bus.topics ev.topic <;> simp [hsubs, Bus.toNext, PublishPc.evictsFrom] at h
  | @sent q m s' subs hq hroom =>
    obtain rfl := hsole q m s' subs (.inl hq)
    have hnext : (Bus.toNext m subs).evictsFrom s = false := by cases subs <;> rfl
    refine ⟨fun r hr => ?_, fun h => ?_, ?_⟩
    · simp [hr, hothers r hr]
    · simp [hnext] at h
    · by_cases hs : s = s'
      · subst hs
        refine ⟨old, fresh ++ [m], MAILBOX_CAPACITY, ?_, hlast, ?_, .inl rfl⟩
        · simp only [offered, Function.update_self, List.map_append] at hoffered ⊢
          rw [hoffered, List.append_assoc]
          rfl
        · rw [hbox] at hroom
          simp only [setCall_mailbox, setMailbox_mailbox, if_pos]
          rw [hbox, rtake_concat m hroom (hk.imp id And.left)]
      · refine ⟨old, fresh, k, ?_, hlast, ?_, .inl ?_⟩
        · simp only [offered, Function.update_of_ne hs] at hoffered ⊢
          exact hoffered
        · simp [hs, hbox]
        · rcases hk with hk | ⟨-, hk⟩
          · exact hk
          · rw [hq] at hk
            simp [PublishPc.sendsTo, Ne.symm hs] at hk
  | @full q m s' subs hq hmax =>
    obtain rfl := hsole q m s' subs (.inl hq)
    -- after an eviction there is room
    have hk : k = MAILBOX_CAPACITY := by
      rcases hk with hk | ⟨hk, hsends⟩
      · exact hk
      · rw [hq] at hsends
        obtain rfl : s' = s := by simpa [PublishPc.sendsTo] using hsends
        rw [hbox, length_rtake] at hmax
        omega
    refine ⟨fun r hr => ?_, fun h => ?_, old, fresh, k, hoffered, hlast, hbox, .inl hk⟩
    · simp [hr, hothers r hr]
    · simp only [setCall_call, if_pos] at h
      obtain rfl : s' = s := by simpa [PublishPc.evictsFrom] using h
      exact hmax
  | @evicted q m s' subs hq =>
    obtain rfl := hsole q m s' subs (.inr hq)
    have hk : k = MAILBOX_CAPACITY := by
      rcases hk with hk | ⟨-, hk⟩
      · exact hk
      · rw [hq] at hk
        cases hk
    subst hk
    refine ⟨fun r hr => ?_, fun h => ?_, ?_⟩
    · simp [hr, hothers r hr]
    · simp [PublishPc.evictsFrom] at h
    · by_cases hs : s = s'
      · subst hs
        have hmax := hfull (by rw [hq]; simp [PublishPc.evictsFrom])
        rw [hbox, length_rtake] at hmax
        have hlen : MAILBOX_CAPACITY - 1 + 1 ≤ fresh.length := by
          have hpos : 0 < MAILBOX_CAPACITY := by decide
          omega
        refine ⟨old, fresh, MAILBOX_CAPACITY - 1, hoffered, hlast, ?_, .inr ⟨rfl, ?_⟩⟩
        · simp only [setCall_mailbox, setMailbox_mailbox, if_pos]
          rw [hbox]
          exact tail_rtake fresh (MAILBOX_CAPACITY - 1) hlen
        · simp [PublishPc.sendsTo]
      · refine ⟨old, fresh, MAILBOX_CAPACITY, hoffered, hlast, ?_, .inl rfl⟩
        simp [hs, hbox]
  | @taken s' =>
    by_cases hs : s = s'
    · subst hs
      have hnot : (t.bus.call p).evictsFrom s = false := by
        simpa [solePublisher, Bus.Act.namesOnce] using hok
      refine ⟨hothers, fun h => ?_, ?_⟩
      · rw [show (t.bus.setMailbox s (t.bus.mailbox s).tail).call = t.bus.call from rfl, hnot] at h
        cases h
      · cases hq : t.bus.mailbox s with
        | nil =>
          refine ⟨old, fresh, k, hoffered, ?_, ?_, hk⟩
          · simpa [hq] using hlast
          · simp [hq, ← hbox]
        | cons m q =>
          -- what is in front of the one that is taken has been dropped before
          have hsplit : fresh.take (fresh.length - k) ++ m :: q = fresh := by
            rw [← hq, hbox]
            exact List.take_append_drop ..
          have hlen : q.length + 1 ≤ MAILBOX_CAPACITY := by
            have hlen := length_rtake fresh k
            rw [← hbox, hq, List.length_cons] at hlen
            omega
          refine ⟨old ++ fresh.take (fresh.length - k) ++ [m], q, MAILBOX_CAPACITY, ?_, ?_, ?_, .inl rfl⟩
          · show t.offered s = _
            rw [hoffered, List.append_assoc, List.append_assoc]
            exact congrArg (old ++ ·) hsplit.symm
          · simp
          · simp [rtake_of_length_le (Nat.le_of_succ_le hlen)]
    · refine ⟨hothers, fun h => ?_, old, fresh, k, hoffered, ?_, ?_, hk⟩
      · simpa [hs] using hfull h
      · simpa [Function.update_of_ne hs] using hlast
      · simp [hs, hbox]

theorem dropWhile_ne {old fresh : List Message} {m : Message}
    (hnodup : (old ++ [m] ++ fresh).Nodup) :
    ((old ++ [m] ++ fresh).dropWhile (· != m)).tail = fresh := by
  have hnot : ∀ x ∈ old, (x != m) = true := by
    intro x hx
    rw [bne_iff_ne]
    rintro rfl
    have := (List.nodup_append.mp (hnodup.of_append_left)).2.2 x hx x (List.mem_singleton_self x)
    exact this rfl
  rw [List.append_assoc, List.dropWhile_append_of_pos hnot]
  simp

theorem undelivered_eq {old fresh : List Message} (hnodup : (t.offered s).Nodup)
    (hoffered : t.offered s = old ++ fresh) (hlast : (t.received s).getLast? = old.getLast?) :
    t.undelivered s = fresh := by
  unfold undelivered
  rw [hlast, hoffered]
  rcases List.eq_nil_or_concat' old with rfl | ⟨old, m, rfl⟩
  · rfl
  · rw [hoffered] at hnodup
    rw [List.getLast?_concat]
    exact dropWhile_ne hnodup

/-- The mailbox has the last of the undelivered events, as many as it has room
    for; one less while the publisher that has evicted is about to send. -/
theorem newest_kept (h : tracedSystem.ReachableIf (fun t a => solePublisher p s t a = true) t) :
    ∃ k, t.bus.mailbox s = (t.undelivered s).rtake k ∧
      (k = MAILBOX_CAPACITY ∨ k + 1 = MAILBOX_CAPACITY ∧ (t.bus.call p).sendsTo s = true) := by
  have hwindow : t.Window p s := by
    refine h.invariant ?_ fun _ _ _ hp hok hs => (step_does hs).window hok hp
    rintro _ rfl
    exact initial_window p s
  have hsound : t.Sound := by
    refine sound_of_reachable (h.mono fun t a hok => ?_)
    exact (Bool.and_eq_true_iff.mp hok).1
  obtain ⟨old, fresh, k, hoffered, hlast, hbox, hk⟩ := hwindow.newest
  refine ⟨k, ?_, hk⟩
  rw [undelivered_eq (hsound.offered_nodup s) hoffered hlast]
  exact hbox

end Traced

-- ============================================================================
-- Delivery
-- ============================================================================

/-- What holds of every subscriber: it gets no event twice and only what was put
    in its mailbox, in that order; each publisher's events were put there in
    the order of its publications, all of them once it has returned. -/
structure Traced.Delivered (t : Traced) (s : SubId) : Prop where
  kept : (t.received s ++ t.bus.mailbox s).Sublist (t.offered s)
  once : (t.offered s).Nodup
  sent : ∀ p, t.sentBy p s ++ (t.bus.call p).pending s = t.publishedBy p s

/-- Every subscriber is served as above, and with one publisher its mailbox has
    the last of the undelivered events whenever the publisher is not about to
    send to it. -/
theorem bus_delivery (t : Traced) (s : SubId) :
    (tracedSystem.ReachableIf (fun _ a => a.namesOnce = true) t → t.Delivered s) ∧
      ∀ p, tracedSystem.ReachableIf (fun t a => solePublisher p s t a = true) t →
        (t.bus.call p).sendsTo s = false →
        t.bus.mailbox s = (t.undelivered s).rtake MAILBOX_CAPACITY := by
  refine ⟨fun h => ?_, fun p h hidle => ?_⟩
  · have hsound := Traced.sound_of_reachable h
    exact ⟨hsound.queued s, hsound.offered_nodup s, fun p => hsound.sent p s⟩
  · obtain ⟨k, hbox, rfl | ⟨-, hsends⟩⟩ := Traced.newest_kept h
    · exact hbox
    · rw [hidle] at hsends
      cases hsends

def stateEvent (id : String) : BusEvent := .stateChanged ⟨"flows", id⟩

/-- One publisher, whose first event has been received. -/
def oneReceived : List Bus.Act :=
  [.subscribe [.stateChanged], .publish 0 (stateEvent "a"), .send 0, .recv 0,
    .publish 0 (stateEvent "b"), .send 0]

theorem bus_delivery_one :
    ∃ t, tracedSystem.ReachableIf (fun _ a => a.namesOnce = true) t ∧
      tracedSystem.ReachableIf (fun t a => solePublisher 0 0 t a = true) t ∧
      t.Delivered 0 ∧ t.bus.mailbox 0 = (t.undelivered 0).rtake MAILBOX_CAPACITY ∧
      t.bus.mailbox 0 = [⟨1, stateEvent "b"⟩] := by
  have hrun : (tracedSystem.runIf (solePublisher 0 0) .initial oneReceived).any (fun t =>
      t.bus.mailbox 0 == [⟨1, stateEvent "b"⟩] && !(t.bus.call 0).sendsTo 0) = true := by
    decide +kernel
  obtain ⟨t, ht, hend⟩ := (Option.any_eq_true _ _).mp hrun
  simp only [Bool.and_eq_true, beq_iff_eq, Bool.not_eq_true'] at hend
  have hsole := System.runIf_reachableIf (.init rfl) ht
  have honce : tracedSystem.ReachableIf (fun _ a => a.namesOnce = true) t :=
    hsole.mono fun t a hok => (Bool.and_eq_true_iff.mp hok).1
  exact ⟨t, honce, hsole, (bus_delivery t 0).1 honce, (bus_delivery t 0).2 0 hsole hend.2, hend.1⟩

end

-- ============================================================================
-- No order of publication
-- ============================================================================

/-- Two events cannot be in one order both ways. -/
theorem not_both_orders {x y : Message} {order : List Message} (hnodup : order.Nodup)
    (hxy : [x, y].Sublist order) (hyx : [y, x].Sublist order) : False := by
  induction order with
  | nil => cases hxy
  | cons z order ih =>
    obtain ⟨hz, hnodup⟩ := List.nodup_cons.mp hnodup
    cases hxy with
    | cons _ hxy =>
      cases hyx with
      | cons _ hyx => exact ih hnodup hxy hyx
      | cons_cons _ hyx => exact hz (hxy.subset (by simp))
    | cons_cons _ hxy =>
      cases hyx with
      | cons _ hyx => exact hz (hyx.subset (by simp))
      | cons_cons _ hyx => exact hz (hyx.subset (by simp))

/-- Two publishers that go through two mailboxes in turns. -/
def crossing : List Bus.Act :=
  [.subscribe [.stateChanged], .subscribe [.stateChanged], .publish 0 (stateEvent "a"),
    .publish 1 (stateEvent "b"), .send 0, .send 1, .send 1, .send 0, .recv 0, .recv 0, .recv 1,
    .recv 1]

theorem delivered_in_two_orders :
    ¬ ∀ t, tracedSystem.Reachable t → ∃ order : List Message, order.Nodup ∧
      ∀ s, (t.received s).Sublist order := by
  intro hall
  have hrun : (tracedSystem.runFrom .initial crossing).any (fun t =>
      t.received 0 == [⟨0, stateEvent "a"⟩, ⟨1, stateEvent "b"⟩] &&
        t.received 1 == [⟨1, stateEvent "b"⟩, ⟨0, stateEvent "a"⟩]) = true := by
    decide +kernel
  obtain ⟨t, ht, hend⟩ := (Option.any_eq_true _ _).mp hrun
  simp only [Bool.and_eq_true, beq_iff_eq] at hend
  obtain ⟨order, hnodup, horder⟩ := hall t (System.runFrom_reachable (.init rfl) ht)
  have hfirst := horder 0
  have hsecond := horder 1
  rw [hend.1] at hfirst
  rw [hend.2] at hsecond
  exact not_both_orders hnodup hfirst hsecond

end GnDrive.Events
