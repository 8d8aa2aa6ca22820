/-
  GnDrive.Gpui.Lifecycle

  What is kept by the steps of start-up threads, `retry` and `shutdown`, and what
  `shutdown` leaves behind.

  As long as the phase is `Starting`, at most one thread is entitled to replace
  it: the start-up thread of the current generation or a `retry` on its way to
  spawn one.  An engine that is published is held by the phase and then by
  `shutdown`, which tears it down.
-/

import GnDrive.Gpui.Core
import Mathlib.Tactic.ByContra

namespace GnDrive.Gpui

-- ============================================================================
-- The invariant
-- ============================================================================

/-- The requests that are with an engine. -/
def Worker.jobs : Worker → List Nat
  | .handling j => [j]
  | .idle | .answered => []

def Start.jobs (st : Start) : List Nat := st.queue ++ st.workers.flatMap Worker.jobs

/-- The start-up thread can still go on to replace the phase. -/
def Start.owning (generation : Nat) (st : Start) : Bool :=
  match st.pc with
  | .building | .locked | .built | .failing => st.generation == generation
  | .failPhase => true
  | _ => false

/-- What a start-up thread and its engine have and run, given the engine that is
    held by the phase or by `shutdown`. -/
def Start.Sound (holder : Option Nat) (e : Nat) (st : Start) : Prop :=
  match st.pc with
  | .building | .failing | .failPhase | .failStatus => st.running = false ∧ st.locked = false
  | .locked | .built | .teardown _ => st.running = false
  | .published | .startEngine | .ready => holder = some e
  | .over => holder = some e ∨ st.running = false ∧ st.locked = false

namespace Core

/-- `shutdown` has replaced the phase. -/
def replaced (s : Core) : Bool :=
  match s.shut with
  | .mark _ | .teardown _ _ | .over => true
  | _ => false

/-- And has set the status. -/
def marked (s : Core) : Bool :=
  match s.shut with
  | .teardown _ _ | .over => true
  | _ => false

def holder (s : Core) : Option Nat :=
  match s.shut with
  | .mark previous => previous
  | .teardown e _ => some e
  | .over => none
  | _ => Phase.engine s.phase

end Core

/-- Who is entitled to replace a phase `Starting`. -/
inductive Owner where
  | nobody
  | start (e : Nat)
  | retry
deriving DecidableEq

namespace Core

structure Token (s : Core) (w : Owner) : Prop where
  starts : ∀ e (st : Start), s.starts[e]? = some st → st.owning s.generation = true → w = .start e
  retries : 0 < s.bumping + s.marking + s.spawning → w = .retry
  one : s.bumping + s.marking + s.spawning ≤ 1
  phase : w ≠ .nobody → ∃ queue, s.phase = .starting queue

/-- After `shutdown` has replaced the phase. -/
structure Quiet (s : Core) : Prop where
  phase : s.phase = .stopped
  retries : s.bumping + s.marking + s.spawning = 0
  starts : ∀ st ∈ s.starts, st.quiet s.generation = true

structure Sound (s : Core) : Prop where
  gens : ∀ st ∈ s.starts, st.generation ≤ s.generation
  sound : ∀ e (st : Start), s.starts[e]? = some st → st.Sound s.holder e
  valid : ∀ e, s.phase = .running e → ∃ st, s.starts[e]? = some st
  owner : ∃ w, s.Token w
  quiet : s.replaced = true → s.Quiet
  marked : s.marked = true → s.status = .stopped
  torn : ∀ e, s.shut = .teardown e .closing ∨ s.shut = .teardown e .releasing →
    ∀ st, s.starts[e]? = some st → st.running = false
  begun : s.stopped = false → s.shut = .none
  /-- Every accepted call is in one place. -/
  account : ∀ j, s.frames.count j + s.phase.queue.count j + (s.starts.flatMap Start.jobs).count j =
    (List.range s.accepted).count j

end Core

-- ============================================================================
-- Lists with one element replaced
-- ============================================================================

section

variable {α : Type} {l : List α} {e : Nat} {a : α}

theorem forall_set {P : α → Prop} {a' : α} (h : ∀ x ∈ l, P x) (ha : P a') : ∀ x ∈ l.set e a', P x := by
  intro x hx
  rcases List.mem_or_eq_of_mem_set hx with hx | rfl
  · exact h x hx
  · exact ha

theorem getElem?_set_some {i : Nat} {x a' : α} (h : (l.set e a')[i]? = some x) :
    i = e ∧ x = a' ∨ i ≠ e ∧ l[i]? = some x := by
  by_cases hi : i = e
  · subst hi
    left
    rw [List.getElem?_set] at h
    split at h
    · split at h
      · exact ⟨rfl, (Option.some.inj h).symm⟩
      · cases h
    · rename_i hne
      exact absurd rfl hne
  · right
    rw [List.getElem?_set_ne (Ne.symm hi)] at h
    exact ⟨hi, h⟩

/-- What is replaced is counted no more, and its replacement is. -/
theorem count_flatMap_set (he : l[e]? = some a) (a' : α) (f : α → List Nat) (j : Nat) :
    ((l.set e a').flatMap f).count j + (f a).count j = (l.flatMap f).count j + (f a').count j := by
  induction l generalizing e with
  | nil => cases he
  | cons x l ih =>
    cases e with
    | zero =>
      obtain rfl := Option.some.inj he
      simp only [List.set_cons_zero, List.flatMap_cons, List.count_append]
      omega
    | succ e =>
      have hrest := ih (e := e) he
      simp only [List.set_cons_succ, List.flatMap_cons, List.count_append]
      omega

theorem modify_eq_set (he : l[e]? = some a) (f : α → α) : l.modify e f = l.set e (f a) := by
  induction l generalizing e with
  | nil => cases he
  | cons x l ih =>
    cases e with
    | zero =>
      obtain rfl := Option.some.inj he
      rfl
    | succ e =>
      rw [List.modify_succ_cons, List.set_cons_succ, ih he]

end

-- ============================================================================
-- Start-up threads
-- ============================================================================

section

variable {s s' : Core} {e : Nat} {st : Start} {w : Owner}

theorem Start.Sound.of_none {holder : Option Nat} (h : st.Sound none e) : st.Sound holder e := by
  unfold Start.Sound at h ⊢
  cases hpc : st.pc <;> rw [hpc] at h <;> simp_all

/-- An engine that is not held does not depend on which other is. -/
theorem Start.Sound.other {i : Nat} (h : st.Sound (some i) e) (hne : e ≠ i) : st.Sound none e := by
  unfold Start.Sound at h ⊢
  cases hpc : st.pc <;> rw [hpc] at h <;> grind

theorem not_owning_of_quiet {g : Nat} (h : st.quiet g = true) : st.owning g = false := by
  unfold Start.quiet at h
  unfold Start.owning
  cases hpc : st.pc <;> rw [hpc] at h <;> simp_all

namespace Core

theorem Token.owns (h : s.Token w) (he : s.starts[e]? = some st)
    (hown : st.owning s.generation = true) : w = .start e ∧ ∃ queue, s.phase = .starting queue := by
  have hw := h.starts e st he hown
  exact ⟨hw, h.phase (by rw [hw]; exact Owner.noConfusion)⟩

/-- While the phase is not `stopped`, `shutdown` has not replaced it. -/
theorem Sound.not_replaced (h : s.Sound) (hphase : s.phase ≠ .stopped) : s.replaced = false := by
  cases hr : s.replaced with
  | false => rfl
  | true => exact absurd (h.quiet hr).phase hphase

theorem holder_of_not_replaced (h : s.replaced = false) : s.holder = Phase.engine s.phase := by
  unfold replaced at h
  unfold holder
  cases hshut : s.shut <;> rw [hshut] at h <;> first | rfl | cases h

theorem not_marked (h : s.replaced = false) : s.marked = false := by
  unfold replaced at h
  unfold marked
  cases hshut : s.shut <;> rw [hshut] at h <;> first | rfl | cases h

theorem not_torn (h : s.replaced = false) {t : Teardown} : s.shut ≠ .teardown e t := by
  intro hshut
  rw [replaced, hshut] at h
  cases h

/-- A step of one start-up thread or of one of its workers that touches no more
    than its own record and the frames, and the calls that are accepted. -/
theorem Sound.setStart (h : s.Sound) (he : s.starts[e]? = some st) (st' : Start)
    (frames : List Nat) (inFlight accepted : Nat) (hgen : st'.generation = st.generation)
    (hsound : st'.Sound s.holder e)
    (hown : st'.owning s.generation = true → st.owning s.generation = true)
    (hquiet : s.replaced = true → st'.quiet s.generation = true)
    (hrun : s.replaced = true → st.running = false → st'.running = false)
    (hjobs : ∀ j, frames.count j + st'.jobs.count j + (List.range s.accepted).count j =
      s.frames.count j + st.jobs.count j + (List.range accepted).count j) :
    Sound { s with
      starts := s.starts.set e st', frames := frames, inFlight := inFlight
      accepted := accepted } where
  gens := forall_set h.gens (by rw [hgen]; exact h.gens st (List.mem_of_getElem? he))
  sound i x hx := by
    rcases getElem?_set_some hx with ⟨rfl, rfl⟩ | ⟨-, hx⟩
    · exact hsound
    · exact h.sound i x hx
  valid i hi := by
    obtain ⟨x, hx⟩ := h.valid i hi
    have hlen : i < s.starts.length := (List.getElem?_eq_some_iff.mp hx).1
    exact ⟨_, List.getElem?_eq_getElem (by rw [List.length_set]; exact hlen)⟩
  owner := by
    obtain ⟨w, hw⟩ := h.owner
    refine ⟨w, fun i x hx hown' => ?_, hw.retries, hw.one, hw.phase⟩
    rcases getElem?_set_some hx with ⟨rfl, rfl⟩ | ⟨-, hx⟩
    · exact hw.starts i st he (hown hown')
    · exact hw.starts i x hx hown'
  quiet hr := by
    obtain ⟨hphase, hretries, hstarts⟩ := h.quiet hr
    exact ⟨hphase, hretries, forall_set hstarts (hquiet hr)⟩
  marked := h.marked
  torn i hi x hx := by
    have hr : s.replaced = true := by
      rcases hi with hi | hi <;> · rw [replaced, show s.shut = _ from hi]
    rcases getElem?_set_some hx with ⟨rfl, rfl⟩ | ⟨-, hx⟩
    · exact hrun hr (h.torn i hi st he)
    · exact h.torn i hi x hx
  begun := h.begun
  account j := by
    have hset := count_flatMap_set he st' Start.jobs j
    have hall := h.account j
    have hj := hjobs j
    show frames.count j + s.phase.queue.count j + ((s.starts.set e st').flatMap Start.jobs).count j =
      (List.range accepted).count j
    omega

/-- As long as `shutdown` has not set it, the status is of no concern. -/
theorem Sound.setStatus (h : s.Sound) {status : LinkStatus} (hmarked : s.marked = false) :
    Sound { s with status := status } where
  gens := h.gens
  sound := h.sound
  valid := h.valid
  owner := by
    obtain ⟨w, hw⟩ := h.owner
    exact ⟨w, hw.starts, hw.retries, hw.one, hw.phase⟩
  quiet hr := by
    obtain ⟨hphase, hretries, hstarts⟩ := h.quiet hr
    exact ⟨hphase, hretries, hstarts⟩
  marked hm := by
    have hm : s.marked = true := hm
    rw [hmarked] at hm
    cases hm
  torn := h.torn
  begun := h.begun
  account := h.account

/-- The owner of a phase `Starting` replaces it and owns nothing after. -/
theorem Sound.setPhase (h : s.Sound) (he : s.starts[e]? = some st)
    (hown : st.owning s.generation = true) {queue : List Nat} (hphase : s.phase = .starting queue)
    (st' : Start) (phase : Phase) (frames : List Nat) (inFlight : Nat)
    (hengine : ∀ i, phase = .running i → i = e)
    (hgen : st'.generation = st.generation) (hnot : st'.owning s.generation = false)
    (hsound : st'.Sound (Phase.engine phase) e)
    (hjobs : ∀ j, frames.count j + phase.queue.count j + st'.jobs.count j =
      s.frames.count j + queue.count j + st.jobs.count j) :
    Sound { s with
      starts := s.starts.set e st', phase := phase, frames := frames, inFlight := inFlight } := by
  have hr : s.replaced = false := h.not_replaced (by rw [hphase]; exact Phase.noConfusion)
  have hholder : s.holder = none := by rw [holder_of_not_replaced hr, hphase]; rfl
  refine ⟨?_, ?_, ?_, ?_, ?_, ?_, ?_, h.begun, ?_⟩
  · exact forall_set h.gens (by rw [hgen]; exact h.gens st (List.mem_of_getElem? he))
  · intro i x hx
    have hholder' : holder { s with
        starts := s.starts.set e st', phase := phase, frames := frames, inFlight := inFlight } =
        phase.engine := holder_of_not_replaced hr
    rw [hholder']
    rcases getElem?_set_some hx with ⟨rfl, rfl⟩ | ⟨-, hx⟩
    · exact hsound
    · have hbefore := h.sound i x hx
      rw [hholder] at hbefore
      exact hbefore.of_none
  · intro i hi
    obtain rfl := hengine i hi
    have hlen : i < s.starts.length := (List.getElem?_eq_some_iff.mp he).1
    exact ⟨_, List.getElem?_eq_getElem (by rw [List.length_set]; exact hlen)⟩
  · obtain ⟨w, hw⟩ := h.owner
    obtain ⟨rfl, -⟩ := hw.owns he hown
    refine ⟨.nobody, fun i x hx hown' => ?_, fun hpos => ?_, hw.one, fun hne => absurd rfl hne⟩
    · rcases getElem?_set_some hx with ⟨rfl, rfl⟩ | ⟨hne, hx⟩
      · have hown' : x.owning s.generation = true := hown'
        rw [hnot] at hown'
        cases hown'
      · exact absurd (Owner.start.inj (hw.starts i x hx hown')).symm hne
    · cases hw.retries hpos
  · intro hr'
    have hr' : s.replaced = true := hr'
    rw [hr] at hr'
    cases hr'
  · intro hm
    have hm : s.marked = true := hm
    rw [not_marked hr] at hm
    cases hm
  · intro i hi
    exact absurd hi (not_or.mpr ⟨not_torn hr, not_torn hr⟩)
  · intro j
    have hset := count_flatMap_set he st' Start.jobs j
    have hall := h.account j
    have hj := hjobs j
    rw [hphase] at hall
    show frames.count j + phase.queue.count j + ((s.starts.set e st').flatMap Start.jobs).count j =
      (List.range s.accepted).count j
    simp only [Phase.queue] at hall hj ⊢
    omega

/-- The same without a frame, and with the same requests. -/
theorem Sound.localStep (h : s.Sound) (he : s.starts[e]? = some st) (st' : Start)
    (hgen : st'.generation = st.generation) (hsound : st'.Sound s.holder e)
    (hown : st'.owning s.generation = true → st.owning s.generation = true)
    (hquiet : s.replaced = true → st'.quiet s.generation = true)
    (hrun : s.replaced = true → st.running = false → st'.running = false)
    (hjobs : st'.jobs = st.jobs) : (s.setStart e st').Sound :=
  h.setStart he st' s.frames s.inFlight s.accepted hgen hsound hown hquiet hrun
    fun j => by rw [hjobs]

/-- What the record of a start-up thread says about it. -/
theorem Sound.thread (h : s.Sound) (he : s.starts[e]? = some st) :
    st.Sound s.holder e ∧ (s.replaced = true → st.quiet s.generation = true) ∧
      (st.owning s.generation = true → ∃ queue, s.phase = .starting queue) := by
  refine ⟨h.sound e st he, fun hr => (h.quiet hr).starts st (List.mem_of_getElem? he), fun hown => ?_⟩
  obtain ⟨w, hw⟩ := h.owner
  exact (hw.owns he hown).2

theorem Sound.start {ok : Bool} (h : s.Sound) (he : s.starts[e]? = some st)
    (hs : s.start e st ok = some s') : s'.Sound := by
  obtain ⟨hst, hq, hown⟩ := h.thread he
  unfold Core.start at hs
  unfold Start.Sound at hst
  unfold Start.quiet at hq
  unfold Start.owning at hown
  cases hpc : st.pc with
  | building =>
    simp only [hpc] at hs hst hq
    split at hs
    · obtain rfl := Option.some.inj hs
      exact h.localStep he _ rfl hst (by simp [Start.owning, hpc]) hq (fun _ => id) rfl
    · split at hs
      · obtain rfl := Option.some.inj hs
        exact h.localStep he _ rfl hst.1 (by simp [Start.owning, hpc]) hq (fun _ => id) rfl
      · cases hs
  | locked =>
    simp only [hpc] at hs hst hq
    obtain rfl := Option.some.inj hs
    cases ok with
    | true => exact h.localStep he _ rfl hst (by simp [Start.owning, hpc]) hq (fun _ => id) rfl
    | false =>
      exact h.localStep he _ rfl ⟨hst, rfl⟩ (by simp [Start.owning, hpc]) hq (fun _ => id) rfl
  | built =>
    simp only [hpc] at hs hst hown
    by_cases hgen : s.generation = st.generation
    · rw [if_neg fun hne => hne hgen] at hs
      obtain ⟨queue, hphase⟩ := hown (beq_iff_eq.mpr hgen.symm)
      simp only [hphase] at hs
      obtain rfl := Option.some.inj hs
      refine h.setPhase he (by simp [Start.owning, hpc, hgen]) hphase _ _ s.frames _
        (fun i hi => (Phase.running.inj hi).symm) rfl (by simp [Start.owning]) rfl fun j => ?_
      simp only [Phase.queue, Start.jobs, List.count_append, List.count_nil]
      omega
    · rw [if_pos hgen] at hs
      obtain rfl := Option.some.inj hs
      exact h.localStep he _ rfl hst (by simp [Start.owning]) (fun _ => rfl) (fun _ => id) rfl
  | failing =>
    simp only [hpc] at hs hst hq
    obtain rfl := Option.some.inj hs
    by_cases hgen : s.generation = st.generation
    · rw [if_pos hgen]
      refine h.localStep he _ rfl hst (fun _ => by simp [Start.owning, hpc, hgen]) (fun hr => ?_)
        (fun _ => id) rfl
      have hne := hq hr
      rw [hgen] at hne
      simp at hne
    · rw [if_neg hgen]
      exact h.localStep he _ rfl (.inr hst) (by simp [Start.owning]) (fun _ => rfl) (fun _ => id) rfl
  | failPhase =>
    simp only [hpc] at hs hst hown
    obtain ⟨queue, hphase⟩ := hown trivial
    simp only [hphase] at hs
    obtain rfl := Option.some.inj hs
    refine h.setPhase he (by simp [Start.owning, hpc]) hphase _ _ _ s.inFlight
      (fun i hi => by cases hi) rfl (by simp [Start.owning]) hst fun j => ?_
    simp only [Phase.queue, Start.jobs, List.count_append, List.count_nil]
    omega
  | failStatus =>
    simp only [hpc] at hs hst hq
    obtain rfl := Option.some.inj hs
    have hr : s.replaced = false := by
      cases hr : s.replaced with
      | false => rfl
      | true => exact absurd (hq hr) Bool.false_ne_true
    exact (h.localStep he { st with pc := .over } rfl (.inr hst) (by simp [Start.owning])
      (fun _ => rfl) (fun _ => id) rfl).setStatus (not_marked hr)
  | published =>
    simp only [hpc] at hs hst hq
    obtain rfl := Option.some.inj hs
    refine h.localStep he _ rfl hst (by simp [Start.owning])
      (fun hr => absurd (hq hr) Bool.false_ne_true) (fun _ => id) ?_
    simp [Start.jobs, Worker.jobs, List.flatMap_replicate]
  | startEngine =>
    simp only [hpc] at hs hst hq
    obtain rfl := Option.some.inj hs
    exact h.localStep he _ rfl hst (by simp [Start.owning])
      (fun hr => absurd (hq hr) Bool.false_ne_true)
      (fun hr => absurd (hq hr) Bool.false_ne_true) rfl
  | ready =>
    simp only [hpc] at hs hst hq
    obtain rfl := Option.some.inj hs
    have hr : s.replaced = false := by
      cases hr : s.replaced with
      | false => rfl
      | true => exact absurd (hq hr) Bool.false_ne_true
    exact (h.localStep he { st with pc := .over } rfl (.inl hst) (by simp [Start.owning])
      (fun _ => rfl) (fun _ => id) rfl).setStatus (not_marked hr)
  | teardown t =>
    simp only [hpc] at hs hst
    obtain rfl := Option.some.inj hs
    cases t with
    | waiting | closing =>
      exact h.localStep he _ rfl hst (by simp [Start.owning, Start.tearDown]) (fun _ => rfl)
        (fun _ => id) rfl
    | stopping =>
      exact h.localStep he _ rfl rfl (by simp [Start.owning, Start.tearDown]) (fun _ => rfl)
        (fun _ _ => rfl) rfl
    | releasing =>
      exact h.localStep he _ rfl (.inr ⟨hst, rfl⟩) (by simp [Start.owning, Start.tearDown])
        (fun _ => rfl) (fun _ => id) rfl
  | «over» =>
    simp only [hpc] at hs
    cases hs

-- ============================================================================
-- Calls and workers
-- ============================================================================

/-- Steps of workers and callers leave the thread where it is. -/
theorem Sound.requests (h : s.Sound) (he : s.starts[e]? = some st) (queue : List Nat)
    (workers : List Worker) (frames : List Nat) (inFlight accepted : Nat)
    (hjobs : ∀ j, frames.count j + (queue ++ workers.flatMap Worker.jobs).count j +
        (List.range s.accepted).count j =
      s.frames.count j + st.jobs.count j + (List.range accepted).count j) :
    Sound { s with
      starts := s.starts.set e { st with queue := queue, workers := workers }, frames := frames
      inFlight := inFlight, accepted := accepted } := by
  obtain ⟨hst, hq, -⟩ := h.thread he
  exact h.setStart he _ _ _ _ rfl hst id hq (fun _ => id) hjobs

theorem Sound.call (h : s.Sound) : s.call.Sound := by
  unfold Core.call
  split
  · rename_i queue hphase
    have hr : s.replaced = false := h.not_replaced (by rw [hphase]; exact Phase.noConfusion)
    refine ⟨h.gens, ?_, fun i hi => Phase.noConfusion hi, ?_, ?_, h.marked, h.torn, h.begun, fun j => ?_⟩
    · intro i x hx
      have hbefore := h.sound i x hx
      rw [holder_of_not_replaced hr, hphase] at hbefore
      exact hbefore.of_none
    · obtain ⟨w, hw⟩ := h.owner
      exact ⟨w, hw.starts, hw.retries, hw.one, fun _ => ⟨_, rfl⟩⟩
    · intro hr'
      have hr' : s.replaced = true := hr'
      rw [hr] at hr'
      cases hr'
    · have hall := h.account j
      rw [hphase] at hall
      simp only [Phase.queue, List.count_append, List.range_succ] at hall ⊢
      omega
  · rename_i i hphase
    obtain ⟨st, he⟩ := h.valid i hphase
    rw [modify_eq_set he]
    refine h.requests he _ st.workers s.frames _ _ fun j => ?_
    simp only [Start.jobs, List.count_append, List.range_succ]
    omega
  · exact h
  · exact h

theorem Sound.take {i j : Nat} {queue : List Nat} (h : s.Sound) (he : s.starts[e]? = some st)
    (hq : st.queue = j :: queue) (hw : st.workers[i]? = some .idle) :
    (s.setStart e { st with
      queue := queue, workers := st.workers.set i (.handling j) }).Sound := by
  refine h.requests he _ _ s.frames s.inFlight s.accepted fun k => ?_
  have hset := count_flatMap_set hw (.handling j) Worker.jobs k
  simp only [Start.jobs, hq, List.count_append, Worker.jobs, List.count_nil] at hset ⊢
  have hqueue : (j :: queue).count k = [j].count k + queue.count k :=
    @List.count_append _ _ k [j] queue
  rw [hqueue]
  omega

theorem Sound.answer {i j : Nat} (h : s.Sound) (he : s.starts[e]? = some st)
    (hw : st.workers[i]? = some (.handling j)) :
    Sound { s.setStart e { st with workers := st.workers.set i .answered } with
      frames := s.frames ++ [j] } := by
  refine h.requests he st.queue _ _ s.inFlight s.accepted fun k => ?_
  have hset := count_flatMap_set hw .answered Worker.jobs k
  simp only [Start.jobs, List.count_append, Worker.jobs, List.count_nil] at hset ⊢
  omega

theorem Sound.finish {i : Nat} (h : s.Sound) (he : s.starts[e]? = some st)
    (hw : st.workers[i]? = some .answered) :
    Sound { s.setStart e { st with workers := st.workers.set i .idle } with
      inFlight := s.inFlight - 1 } := by
  refine h.requests he st.queue _ s.frames _ s.accepted fun k => ?_
  have hset := count_flatMap_set hw .idle Worker.jobs k
  simp only [Start.jobs, List.count_append, Worker.jobs, List.count_nil] at hset ⊢
  omega

-- ============================================================================
-- Retries
-- ============================================================================

theorem Sound.retries_pos (h : s.Sound) (hpos : 0 < s.bumping + s.marking + s.spawning) :
    s.replaced = false ∧ s.Token .retry := by
  refine ⟨?_, ?_⟩
  · cases hr : s.replaced with
    | false => rfl
    | true =>
      have hnone := (h.quiet hr).retries
      omega
  · obtain ⟨w, hw⟩ := h.owner
    obtain rfl := hw.retries hpos
    exact hw

/-- Nothing is said of the time after `shutdown` has replaced the phase. -/
theorem Sound.before (h : s.Sound) (hr : s'.replaced = false) (hbegun : s'.stopped = false → s'.shut = .none)
    (hgens : ∀ st ∈ s'.starts, st.generation ≤ s'.generation)
    (hsound : ∀ e (st : Start), s'.starts[e]? = some st → st.Sound (Phase.engine s'.phase) e)
    (hvalid : ∀ e, s'.phase = .running e → ∃ st, s'.starts[e]? = some st)
    (howner : ∃ w, s'.Token w)
    (haccount : ∀ j, s'.frames.count j + s'.phase.queue.count j +
        (s'.starts.flatMap Start.jobs).count j + (List.range s.accepted).count j =
      s.frames.count j + s.phase.queue.count j + (s.starts.flatMap Start.jobs).count j +
        (List.range s'.accepted).count j) :
    s'.Sound where
  gens := hgens
  sound := by
    rw [holder_of_not_replaced hr]
    exact hsound
  valid := hvalid
  owner := howner
  quiet hr' := by
    rw [hr] at hr'
    cases hr'
  marked hm := by
    rw [not_marked hr] at hm
    cases hm
  torn e he := absurd he (not_or.mpr ⟨not_torn hr, not_torn hr⟩)
  begun := hbegun
  account j := by
    have hall := h.account j
    have hj := haccount j
    omega

theorem Sound.engine (h : s.Sound) (hr : s.replaced = false) (he : s.starts[e]? = some st) :
    st.Sound (Phase.engine s.phase) e := by
  rw [← holder_of_not_replaced hr]
  exact h.sound e st he

theorem Sound.retry (h : s.Sound) (hphase : s.phase = .failed) :
    Sound { s with phase := .starting [], bumping := s.bumping + 1 } := by
  have hr : s.replaced = false := h.not_replaced (by rw [hphase]; exact Phase.noConfusion)
  obtain ⟨w, hw⟩ := h.owner
  -- a phase `Failed` is nobody's to replace
  have hnobody : w = .nobody := by
    by_contra hne
    obtain ⟨queue, hstarting⟩ := hw.phase hne
    rw [hphase] at hstarting
    cases hstarting
  subst hnobody
  have hnone : s.bumping + s.marking + s.spawning = 0 := by
    by_contra hpos
    cases hw.retries (Nat.pos_of_ne_zero hpos)
  refine h.before hr h.begun h.gens (fun i x hx => ?_) (fun i hi => Phase.noConfusion hi)
    ⟨.retry, ?_⟩ fun j => ?_
  · have hbefore := h.engine hr hx
    rw [hphase] at hbefore
    exact hbefore.of_none
  · refine ⟨fun i x hx hown => ?_, fun _ => rfl, ?_, fun _ => ⟨[], rfl⟩⟩
    · cases hw.starts i x hx hown
    · show s.bumping + 1 + s.marking + s.spawning ≤ 1
      omega
  · rw [hphase]
    rfl

/-- Another generation is owned by nobody but a thread past its comparison. -/
theorem Token.bump (hw : s.Token w) (hgens : ∀ st ∈ s.starts, st.generation ≤ s.generation)
    (he : s.starts[e]? = some st) (hown : st.owning (s.generation + 1) = true) : w = .start e := by
  refine hw.starts e st he ?_
  have hgen := hgens st (List.mem_of_getElem? he)
  unfold Start.owning at hown ⊢
  cases hpc : st.pc <;> rw [hpc] at hown <;> simp only [beq_iff_eq] at hown ⊢ <;> omega

theorem Sound.retryBump (h : s.Sound) (hpos : s.bumping ≠ 0) :
    Sound { s with
      generation := s.generation + 1, bumping := s.bumping - 1, marking := s.marking + 1 } := by
  obtain ⟨hr, hw⟩ := h.retries_pos (by omega)
  refine h.before hr h.begun (fun st hst => Nat.le_succ_of_le (h.gens st hst))
    (fun i x hx => h.engine hr hx) h.valid ⟨.retry, ?_⟩ fun j => rfl
  refine ⟨fun i x hx hown => hw.bump h.gens hx hown, fun _ => rfl, ?_, hw.phase⟩
  have hone := hw.one
  show s.bumping - 1 + (s.marking + 1) + s.spawning ≤ 1
  omega

theorem Sound.retryMark (h : s.Sound) (hpos : s.marking ≠ 0) :
    Sound { s with
      status := .starting, marking := s.marking - 1, spawning := s.spawning + 1 } := by
  obtain ⟨hr, hw⟩ := h.retries_pos (by omega)
  refine h.before hr h.begun h.gens (fun i x hx => h.engine hr hx) h.valid ⟨.retry, ?_⟩ fun j => rfl
  refine ⟨hw.starts, fun _ => rfl, ?_, hw.phase⟩
  have hone := hw.one
  show s.bumping + (s.marking - 1) + (s.spawning + 1) ≤ 1
  omega

theorem Sound.retrySpawn (h : s.Sound) (hpos : s.spawning ≠ 0) :
    Sound { s with
      starts := s.starts ++ [.spawn s.generation], spawning := s.spawning - 1 } := by
  obtain ⟨hr, hw⟩ := h.retries_pos (by omega)
  have hone := hw.one
  have hlast : ∀ i (x : Start), (s.starts ++ [.spawn s.generation])[i]? = some x →
      s.starts[i]? = some x ∨ i = s.starts.length ∧ x = .spawn s.generation := by
    intro i x hx
    rw [List.getElem?_append] at hx
    split at hx
    · exact .inl hx
    · rename_i hle
      obtain ⟨hi, hx⟩ := List.getElem?_eq_some_iff.mp hx
      have hi : i - s.starts.length < 1 := hi
      exact .inr ⟨by omega, by simpa using hx.symm⟩
  refine h.before hr h.begun ?_ ?_ ?_ ⟨.start s.starts.length, ?_⟩ fun j => ?_
  · intro st hst
    rcases List.mem_append.mp hst with hst | hst
    · exact h.gens st hst
    · rw [List.mem_singleton.mp hst]
      exact Nat.le_refl _
  · intro i x hx
    rcases hlast i x hx with hx | ⟨-, rfl⟩
    · exact h.engine hr hx
    · exact ⟨rfl, rfl⟩
  · intro i hi
    obtain ⟨x, hx⟩ := h.valid i hi
    exact ⟨x, by rw [List.getElem?_append_left (List.getElem?_eq_some_iff.mp hx).1]; exact hx⟩
  · refine ⟨fun i x hx hown => ?_, fun hpos' => ?_, ?_, fun _ => ?_⟩
    · rcases hlast i x hx with hx | ⟨rfl, -⟩
      · cases hw.starts i x hx hown
      · rfl
    · have hpos' : 0 < s.bumping + s.marking + (s.spawning - 1) := hpos'
      omega
    · show s.bumping + s.marking + (s.spawning - 1) ≤ 1
      omega
    · exact hw.phase Owner.noConfusion
  · simp [Start.jobs, Start.spawn]

-- ============================================================================
-- Shutdown
-- ============================================================================

/-- A step of `shutdown` that replaces the phase finds nothing in the way. -/
theorem calm_replace (hshut : s.shut = .replace) (hcalm : s.calm .shutdownStep = true) :
    s.phase.queue = [] ∧ (∀ st ∈ s.starts, st.quiet s.generation = true) ∧
      s.bumping + s.marking + s.spawning = 0 := by
  simp only [calm, hshut, Bool.and_eq_true, List.isEmpty_iff, List.all_eq_true, beq_iff_eq] at hcalm
  obtain ⟨⟨⟨⟨hqueue, hstarts⟩, hb⟩, hm⟩, hsp⟩ := hcalm
  exact ⟨hqueue, hstarts, by omega⟩

theorem Quiet.token (h : s.Quiet) : s.Token .nobody := by
  have hretries := h.retries
  refine ⟨fun i x hx hown => ?_, fun hpos => ?_, by omega, fun hne => absurd rfl hne⟩
  · rw [not_owning_of_quiet (h.starts x (List.mem_of_getElem? hx))] at hown
    cases hown
  · omega

/-- An engine that is torn down. -/
theorem tearDown_spec (st : Start) (t : Teardown) :
    (st.tearDown t).1.pc = st.pc ∧ (st.tearDown t).1.generation = st.generation ∧
      (st.tearDown t).1.jobs = st.jobs ∧
      (st.running = false → (st.tearDown t).1.running = false) ∧
      (st.locked = false → (st.tearDown t).1.locked = false) := by
  cases t <;> exact ⟨rfl, rfl, rfl, by simp [Start.tearDown], by simp [Start.tearDown]⟩

theorem tearDown_sound {t : Teardown} (h : st.Sound (some e) e) :
    (st.tearDown t).1.Sound (some e) e := by
  obtain ⟨hpc, -, -, hrun, hlock⟩ := tearDown_spec st t
  unfold Start.Sound at h ⊢
  rw [hpc]
  generalize st.pc = pc at h ⊢
  cases pc with
  | building | failing | failPhase | failStatus => exact ⟨hrun h.1, hlock h.2⟩
  | locked | built | teardown => exact hrun h
  | published | startEngine | ready => rfl
  | «over» => exact .inl rfl

/-- The last step leaves nothing that would have to be held. -/
theorem released_sound {g : Nat} (hquiet : st.quiet g = true) (hrun : st.running = false) :
    (st.tearDown .releasing).1.Sound none e := by
  unfold Start.quiet at hquiet
  unfold Start.Sound
  rw [show (st.tearDown .releasing).1.pc = st.pc from rfl]
  generalize st.pc = pc at hquiet ⊢
  cases pc with
  | building | failing => exact ⟨hrun, rfl⟩
  | locked | built | teardown => exact hrun
  | «over» => exact .inr ⟨hrun, rfl⟩
  | failPhase | failStatus | published | startEngine | ready => cases hquiet

theorem Sound.shutdownStep (h : s.Sound) (hcalm : s.calm .shutdownStep = true)
    (hs : s.shutdownStep = some s') : s'.Sound := by
  unfold Core.shutdownStep at hs
  cases hshut : s.shut with
  | none | «over» =>
    rw [hshut] at hs
    cases hs
  | bump =>
    rw [hshut] at hs
    obtain rfl := Option.some.inj hs
    have hr : s.replaced = false := by rw [replaced, hshut]
    obtain ⟨w, hw⟩ := h.owner
    refine h.before rfl (fun hstop => ?_) (fun st hst => Nat.le_succ_of_le (h.gens st hst))
      (fun i x hx => h.engine hr hx) h.valid ⟨w, ?_⟩ fun j => rfl
    · have hnone := h.begun hstop
      rw [hshut] at hnone
      cases hnone
    · exact ⟨fun i x hx hown => hw.bump h.gens hx hown, hw.retries, hw.one, hw.phase⟩
  | replace =>
    rw [hshut] at hs
    obtain rfl := Option.some.inj hs
    obtain ⟨hqueue, hstarts, hretries⟩ := calm_replace hshut hcalm
    have hr : s.replaced = false := by rw [replaced, hshut]
    have hquiet : Quiet { s with phase := .stopped, shut := .mark s.phase.engine } :=
      ⟨rfl, hretries, hstarts⟩
    refine ⟨h.gens, fun i x hx => h.engine hr hx, fun i hi => Phase.noConfusion hi,
      ⟨.nobody, hquiet.token⟩, fun _ => hquiet, fun hm => Bool.noConfusion hm,
      fun i hi => hi.elim ShutdownPc.noConfusion ShutdownPc.noConfusion, fun hstop => ?_,
      fun j => ?_⟩
    · have hnone := h.begun hstop
      rw [hshut] at hnone
      cases hnone
    · have hall := h.account j
      rw [hqueue] at hall
      exact hall
  | mark previous =>
    rw [hshut] at hs
    obtain rfl := Option.some.inj hs
    have hr : s.replaced = true := by rw [replaced, hshut]
    have hquiet := h.quiet hr
    have hholder : s.holder = previous := by rw [holder, hshut]
    obtain ⟨w, hw⟩ := h.owner
    refine ⟨h.gens, fun i x hx => ?_, h.valid, ⟨w, hw.starts, hw.retries, hw.one, hw.phase⟩,
      fun _ => ⟨hquiet.phase, hquiet.retries, hquiet.starts⟩, fun _ => rfl, fun i hi => ?_,
      fun hstop => ?_, h.account⟩
    · have hbefore := h.sound i x hx
      rw [hholder] at hbefore
      cases previous with
      | none => exact hbefore
      | some e => exact hbefore
    · cases previous <;> simp at hi
    · have hnone := h.begun hstop
      rw [hshut] at hnone
      cases hnone
  | teardown e t =>
    rw [hshut] at hs
    simp only at hs
    split at hs
    · rename_i st he
      obtain rfl := Option.some.inj hs
      have hr : s.replaced = true := by rw [replaced, hshut]
      have hm : s.marked = true := by rw [Core.marked, hshut]
      have hquiet := h.quiet hr
      have hholder : s.holder = some e := by rw [holder, hshut]
      obtain ⟨hpc, hgen, hjobs, hrun, -⟩ := tearDown_spec st t
      have hst := h.sound e st he
      rw [hholder] at hst
      have hq : (st.tearDown t).1.quiet s.generation = true := by
        have hq := hquiet.starts st (List.mem_of_getElem? he)
        unfold Start.quiet at hq ⊢
        rwa [hpc, hgen]
      have htorn : t = .closing ∨ t = .releasing → st.running = false := by
        rintro (rfl | rfl)
        · exact h.torn e (.inl hshut) st he
        · exact h.torn e (.inr hshut) st he
      have hquiet' : ∀ shut, Quiet { s.setStart e (st.tearDown t).1 with shut := shut } :=
        fun shut => ⟨hquiet.phase, hquiet.retries, forall_set hquiet.starts hq⟩
      refine ⟨?_, fun i x hx => ?_, fun i hi => ?_, ⟨.nobody, (hquiet' _).token⟩,
        fun _ => hquiet' _, fun _ => h.marked hm, fun i hi x hx => ?_, fun hstop => ?_, fun j => ?_⟩
      · exact forall_set h.gens (by rw [hgen]; exact h.gens st (List.mem_of_getElem? he))
      · rcases getElem?_set_some hx with ⟨rfl, rfl⟩ | ⟨hne, hx⟩
        · cases t with
          | waiting | stopping | closing => exact tearDown_sound hst
          | releasing =>
            exact released_sound (hquiet.starts st (List.mem_of_getElem? he)) (htorn (.inr rfl))
        · have hbefore := h.sound i x hx
          rw [hholder] at hbefore
          cases t with
          | waiting | stopping | closing => exact hbefore
          | releasing => exact hbefore.other hne
      · have hi : s.phase = .running i := hi
        rw [hquiet.phase] at hi
        cases hi
      · -- the engine has been stopped in this step or before
        have hrunning : (st.tearDown t).1.running = false := by
          cases t with
          | waiting => rcases hi with hi | hi <;> cases hi
          | stopping => rfl
          | closing => exact hrun (htorn (.inl rfl))
          | releasing => exact hrun (htorn (.inr rfl))
        have hie : i = e := by
          cases t <;> rcases hi with hi | hi <;> cases hi <;> rfl
        subst hie
        rcases getElem?_set_some hx with ⟨-, rfl⟩ | ⟨hne, -⟩
        · exact hrunning
        · exact absurd rfl hne
      · have hnone := h.begun hstop
        rw [hshut] at hnone
        cases hnone
      · have hset := count_flatMap_set he (st.tearDown t).1 Start.jobs j
        have hall := h.account j
        rw [hjobs] at hset
        show s.frames.count j + s.phase.queue.count j +
          ((s.starts.set e (st.tearDown t).1).flatMap Start.jobs).count j =
            (List.range s.accepted).count j
        omega
    · cases hs

-- ============================================================================
-- Runs
-- ============================================================================

theorem initial_sound : initial.Sound where
  gens := by simp [initial, Start.spawn]
  sound e st he := by
    obtain rfl : st = .spawn 0 := by
      have hmem : st ∈ [Start.spawn 0] := List.mem_of_getElem? he
      exact List.mem_singleton.mp hmem
    exact ⟨rfl, rfl⟩
  valid e he := by cases he
  owner := by
    refine ⟨.start 0, fun e st he _ => ?_, fun hpos => absurd hpos (by decide), by decide,
      fun _ => ⟨[], rfl⟩⟩
    have hlen : e < 1 := (List.getElem?_eq_some_iff.mp he).1
    rw [Nat.lt_one_iff.mp hlen]
  quiet hr := by cases hr
  marked hm := by cases hm
  torn e he := by rcases he with he | he <;> cases he
  begun _ := rfl
  account j := rfl

theorem Sound.step {a : CoreAct} (h : s.Sound) (hcalm : s.calm a = true)
    (hs : s.step a = some s') : s'.Sound := by
  cases a with
  | call =>
    obtain rfl := Option.some.inj hs
    exact h.call
  | start e ok =>
    obtain ⟨st, he, hs⟩ := Option.bind_eq_some_iff.mp hs
    exact h.start he hs
  | retry =>
    simp only [Core.step] at hs
    split at hs
    · rename_i hphase
      obtain rfl := Option.some.inj hs
      exact h.retry hphase
    · obtain rfl := Option.some.inj hs
      exact h
  | retryBump =>
    simp only [Core.step] at hs
    split at hs
    · cases hs
    · rename_i hpos
      obtain rfl := Option.some.inj hs
      exact h.retryBump hpos
  | retryMark =>
    simp only [Core.step] at hs
    split at hs
    · cases hs
    · rename_i hpos
      obtain rfl := Option.some.inj hs
      exact h.retryMark hpos
  | retrySpawn =>
    simp only [Core.step] at hs
    split at hs
    · cases hs
    · rename_i hpos
      obtain rfl := Option.some.inj hs
      exact h.retrySpawn hpos
  | shutdown =>
    simp only [Core.step] at hs
    split at hs
    · obtain rfl := Option.some.inj hs
      exact h
    · rename_i hstopped
      obtain rfl := Option.some.inj hs
      have hshut := h.begun (by simpa using hstopped)
      have hr : s.replaced = false := by rw [replaced, hshut]
      obtain ⟨w, hw⟩ := h.owner
      exact h.before rfl (fun hfalse => Bool.noConfusion hfalse) h.gens
        (fun i x hx => h.engine hr hx) h.valid ⟨w, hw.starts, hw.retries, hw.one, hw.phase⟩
        fun j => rfl
  | shutdownStep => exact h.shutdownStep hcalm hs
  | take e i =>
    obtain ⟨st, he, hs⟩ := Option.bind_eq_some_iff.mp hs
    split at hs
    · rename_i j queue hq hw
      obtain rfl := Option.some.inj hs
      exact h.take he hq hw
    · cases hs
  | answer e i =>
    obtain ⟨st, he, hs⟩ := Option.bind_eq_some_iff.mp hs
    split at hs
    · rename_i j hw
      obtain rfl := Option.some.inj hs
      exact h.answer he hw
    · cases hs
  | finish e i =>
    obtain ⟨st, he, hs⟩ := Option.bind_eq_some_iff.mp hs
    split at hs
    · rename_i hw
      obtain rfl := Option.some.inj hs
      exact h.finish he hw
    · cases hs

theorem sound_of_reachable (h : coreSystem.ReachableIf (fun s a => s.calm a = true) s) :
    s.Sound := by
  refine h.invariant ?_ fun _ _ _ hp hok hs => hp.step hok hs
  rintro _ rfl
  exact initial_sound

/-- A thread at rest has no request left. -/
theorem jobs_of_idle (hqueue : st.queue = []) (hworkers : ∀ w ∈ st.workers, w = .idle) :
    st.jobs = [] := by
  rw [Start.jobs, hqueue, List.nil_append, List.flatMap_eq_nil_iff]
  intro w hw
  rw [hworkers w hw]
  rfl

theorem Sound.settled (h : s.Sound) (hover : s.shut = .over) (hrest : s.AtRest) : s.Settled := by
  have hr : s.replaced = true := by rw [replaced, hover]
  have hquiet := h.quiet hr
  refine ⟨hquiet.phase, h.marked (by rw [Core.marked, hover]), fun st hst => ?_, fun j hj => ?_⟩
  · obtain ⟨e, he⟩ := List.getElem?_of_mem hst
    have hsound := h.sound e st he
    rw [holder, hover] at hsound
    unfold Start.Sound at hsound
    rw [(hrest.1 st hst).1] at hsound
    exact hsound.resolve_left fun heq => by cases heq
  · have hall := h.account j
    have hnone : s.starts.flatMap Start.jobs = [] :=
      List.flatMap_eq_nil_iff.mpr fun st hst =>
        jobs_of_idle (hrest.1 st hst).2.1 (hrest.1 st hst).2.2
    rw [hnone, hquiet.phase] at hall
    simpa [Phase.queue, hj] using hall

end Core
end

/-- In a run in which `shutdown` finds nothing in the way when it replaces the
    phase: once it has returned and all threads have come to rest, the engine is
    stopped, the instance lock is free, and every call is answered once. -/
theorem shutdown_settles {s : Core}
    (h : coreSystem.ReachableIf (fun s a => s.calm a = true) s) (hover : s.shut = .over)
    (hrest : s.AtRest) : s.Settled := (Core.sound_of_reachable h).settled hover hrest

instance (s : Core) : Decidable s.AtRest := by
  unfold Core.AtRest
  infer_instance

/-- The engine comes up, answers a call that had to wait for it, and is shut
    down. -/
def servedRun : List CoreAct :=
  [.call, .start 0 true, .start 0 true, .start 0 true, .start 0 true, .take 0 0, .answer 0 0,
    .finish 0 0, .start 0 true, .start 0 true, .shutdown, .shutdownStep, .shutdownStep,
    .shutdownStep, .shutdownStep, .shutdownStep, .shutdownStep, .shutdownStep]

theorem shutdown_settles_served :
    ∃ s, coreSystem.ReachableIf (fun s a => s.calm a = true) s ∧ s.shut = .over ∧ s.AtRest ∧
      s.Settled ∧ s.accepted = 1 := by
  have hrun : (coreSystem.runIf Core.calm .initial servedRun).any (fun s =>
      s.shut == .over && decide s.AtRest && s.accepted == 1) = true := by
    decide +kernel
  obtain ⟨s, hs, hend⟩ := (Option.any_eq_true _ _).mp hrun
  simp only [Bool.and_eq_true, beq_iff_eq, decide_eq_true_eq] at hend
  have hreach := System.runIf_reachableIf (.init rfl) hs
  exact ⟨s, hreach, hend.1.1, hend.1.2, shutdown_settles hreach hend.1.1 hend.1.2, hend.2⟩

/-- `shutdown` comes between the publication of the engine and its start. -/
def startedLate : List CoreAct :=
  [.start 0 true, .start 0 true, .start 0 true, .shutdown, .shutdownStep, .shutdownStep,
    .shutdownStep, .shutdownStep, .shutdownStep, .shutdownStep, .shutdownStep, .start 0 true,
    .start 0 true, .start 0 true]

/-- `shutdown` comes while a call is queued. -/
def droppedCall : List CoreAct :=
  [.call, .shutdown, .shutdownStep, .shutdownStep, .shutdownStep, .start 0 false, .start 0 false]

theorem shutdown_leaves_running :
    (∃ s, coreSystem.Reachable s ∧ s.shut = .over ∧ s.AtRest ∧ s.status = .ready ∧
        ∃ st ∈ s.starts, st.running = true) ∧
      ∃ s, coreSystem.Reachable s ∧ s.shut = .over ∧ s.AtRest ∧ s.accepted = 1 ∧
        s.frames = [] := by
  have hlate : (coreSystem.runFrom .initial startedLate).any (fun s =>
      s.shut == .over && decide s.AtRest && s.status == .ready && s.starts.any (·.running)) =
      true := by
    decide +kernel
  have hdropped : (coreSystem.runFrom .initial droppedCall).any (fun s =>
      s.shut == .over && decide s.AtRest && s.accepted == 1 && s.frames == []) = true := by
    decide +kernel
  constructor
  · obtain ⟨s, hs, hend⟩ := (Option.any_eq_true _ _).mp hlate
    simp only [Bool.and_eq_true, beq_iff_eq, decide_eq_true_eq, List.any_eq_true] at hend
    obtain ⟨⟨⟨hover, hrest⟩, hready⟩, hrunning⟩ := hend
    exact ⟨s, System.runFrom_reachable (.init rfl) hs, hover, hrest, hready, hrunning⟩
  · obtain ⟨s, hs, hend⟩ := (Option.any_eq_true _ _).mp hdropped
    simp only [Bool.and_eq_true, beq_iff_eq, decide_eq_true_eq] at hend
    obtain ⟨⟨⟨hover, hrest⟩, haccepted⟩, hframes⟩ := hend
    exact ⟨s, System.runFrom_reachable (.init rfl) hs, hover, hrest, haccepted, hframes⟩

end GnDrive.Gpui
