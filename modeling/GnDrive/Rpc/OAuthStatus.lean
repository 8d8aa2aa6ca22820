/-
  GnDrive.Rpc.OAuthStatus

  The status of a session under every interleaving of its threads.

  Each thread acts on what it read in an earlier lock section.  `orderly`
  names the writes that go wrong when another thread came in between:
  `process_exited` writes its result without looking again, `cancel` marks
  the session before it finishes it, and it looks for a child that `start`
  has not stored yet.  In runs without these, `oauth_settled`: a status that
  is not `waiting` stays, a cancelled session shows no token, one terminal
  update is pushed, and the child of a cancelled session is terminated.
-/

import GnDrive.Rpc.OAuth
import Mathlib.Tactic.SplitIfs

namespace GnDrive.OAuth

/-- A child that runs, or may come to run, without having been told to
    terminate. -/
def Child.atLarge : Child → Bool
  | .unspawned | .running false => true
  | _ => false

/-- The threads that will go on to `terminate_child`. -/
def Phase.terminating : Phase → Bool
  | .cancelChild | .cancelKill | .expiryChild | .expiryKill => true
  | .finish _ _ .expired | .finishPush _ _ .expired | .finishUnregister .expired => true
  | _ => false

/-- The threads about to push a terminal update. -/
def Phase.pushing : Phase → Bool
  | .finishPush _ _ _ | .exitPush => true
  | _ => false

/-- The part of `start` that hands the child over. -/
def Phase.starting : Phase → Bool
  | .spawn | .store | .storeCheck | .storeTake | .schedule => true
  | _ => false

def Phase.isReturned : Phase → Bool
  | .returned _ => true
  | _ => false

/-- A write whose thread's earlier reading still holds: `process_exited` finds
    the session as unfinished and uncancelled as it read it, `cancel` finds it
    unfinished or cancelled already, and `terminate_child` finds the handle
    unless the child needs no signal any more. -/
def Phase.orderly (x : Session) : Phase → Bool
  | .cancelMark => x.status = .waiting || x.status = .cancelled
  | .exitAuthorize _ => x.status = .waiting
  | .finish .failed _ _ => x.status = .waiting || x.finished
  | .cancelChild | .expiryChild => x.handle || !x.child.atLarge
  | _ => true

def orderly (s : State) : Act → Bool
  | .step n t => ((s.slot n).pc t).all fun p => p.orderly (s.slot n).session
  | _ => true

def terminalUpdates (x : Session) : List Update := x.updates.filter (·.status ≠ .waiting)

/-- What the claims about one session come to in a state. -/
structure Slot.Safe (w : Slot) : Prop where
  /-- A cancelled or expired session shows no token and has shown none. -/
  hidden : w.session.status = .cancelled → w.session.token = [] ∧ w.session.exposed = false
  /-- At most one terminal update was pushed. -/
  once : (terminalUpdates w.session).length ≤ 1
  /-- The child of a cancelled or expired session has been told to terminate,
      has exited or never ran, or a thread is about to tell it. -/
  terminated : w.session.status = .cancelled → w.session.child.atLarge = true →
    ∃ t p, w.pc t = some p ∧ p.terminating = true

-- ============================================================================
-- The invariant of a slot
-- ============================================================================

/-- The session's own fields. -/
structure Session.Sound (x : Session) : Prop where
  finished : x.finished = true → x.status ≠ .waiting
  unfinished : x.status = .authorized ∨ x.status = .failed → x.finished = true
  token : x.token ≠ [] → x.status = .authorized
  exposed : x.exposed = true → x.status = .authorized
  handle : x.handle = true → x.child ≠ .unspawned

/-- What a thread at `p` has established about the session. -/
def Phase.Fits (x : Session) : Phase → Prop
  | .store | .expiryKill => x.child ≠ .unspawned
  | .cancelKill => x.child ≠ .unspawned ∧ x.status = .cancelled
  | .cancelChild => x.status = .cancelled
  | .finish st _ next =>
      match next with
      | .startFailed => st = .failed
      | .cancelled => st = .cancelled ∧ x.status = .cancelled
      | .expired => st = .cancelled
      | .exited => (st = .cancelled ∨ st = .failed) ∧ x.child.atLarge = false
  | .exitRead _ | .exitAuthorize _ | .exitSnapshot _ _ => x.child.atLarge = false
  | _ => True

/-- At most one thread has a terminal update to push, and then none was. -/
def Slot.OnePush (w : Slot) : Prop :=
  ((∀ t p, w.pc t = some p → p.pushing = false) ∧
    (terminalUpdates w.session).length ≤ (if w.session.finished then 1 else 0)) ∨
  (w.session.finished = true ∧ terminalUpdates w.session = [] ∧
    ∀ t t' p p', w.pc t = some p → w.pc t' = some p' → p.pushing = true → p'.pushing = true →
      t = t')

structure Slot.Inv (w : Slot) : Prop where
  sound : w.session.Sound
  fits : ∀ t p, w.pc t = some p → p.Fits w.session
  /-- One thread hands the child over, and the timer comes after it. -/
  starting : ∀ t p, w.pc t = some p → p.starting = true →
    w.pc .timer = none ∧ ∀ t' p', w.pc t' = some p' → p'.starting = true → t' = t
  spawning : ∀ t, w.pc t = some .spawn → w.session.child = .unspawned ∧ w.pc .waiter = none
  push : w.OnePush
  terminated : w.session.status = .cancelled → w.session.child.atLarge = true →
    ∃ t p, w.pc t = some p ∧ p.terminating = true

theorem Slot.Inv.safe {w : Slot} (h : w.Inv) : w.Safe where
  hidden hc := by
    constructor
    · refine Decidable.byContradiction fun hne => ?_
      have := h.sound.token hne
      rw [hc] at this
      contradiction
    · rw [Bool.eq_false_iff]
      intro he
      have := h.sound.exposed he
      rw [hc] at this
      contradiction
  once := by
    rcases h.push with ⟨-, hle⟩ | ⟨-, hnil, -⟩
    · split_ifs at hle <;> omega
    · rw [hnil]
      exact Nat.zero_le 1
  terminated := h.terminated

-- ============================================================================
-- What a step may change
-- ============================================================================

/-- What every step keeps of a session. -/
structure Session.Grows (x x' : Session) : Prop where
  status : x.status ≠ .waiting → x'.status = x.status
  spawned : x.child ≠ .unspawned → x'.child ≠ .unspawned
  settled : x.child.atLarge = false → x'.child.atLarge = false

theorem Session.Grows.refl (x : Session) : x.Grows x :=
  ⟨fun _ => rfl, id, id⟩

theorem Session.Grows.cancelled {x x' : Session} (h : x.Grows x') (hc : x.status = .cancelled) :
    x'.status = .cancelled := by
  rw [h.status (by rw [hc]; decide), hc]

theorem Phase.Fits.grows {x x' : Session} {p : Phase} (h : p.Fits x) (hg : x.Grows x') :
    p.Fits x' := by
  cases p with
  | store => exact hg.spawned h
  | expiryKill => exact hg.spawned h
  | cancelKill => exact ⟨hg.spawned h.1, hg.cancelled h.2⟩
  | cancelChild => exact hg.cancelled h
  | exitRead _ => exact hg.settled h
  | exitAuthorize _ => exact hg.settled h
  | exitSnapshot _ _ => exact hg.settled h
  | finish st err next =>
      cases next with
      | startFailed => exact h
      | cancelled => exact ⟨h.1, hg.cancelled h.2⟩
      | expired => exact h
      | exited => exact ⟨h.1, hg.settled h.2⟩
  | _ => trivial

namespace Slot

variable {w : Slot} {t : Thread} {p p' : Phase} {x' : Session}

theorem goto_pc (w : Slot) (t : Thread) (p : Phase) {t' : Thread} {q : Phase}
    (h : (w.goto t p).pc t' = some q) : t' = t ∧ q = p ∨ t' ≠ t ∧ w.pc t' = some q := by
  unfold goto at h
  by_cases heq : t' = t
  · rw [heq] at h
    simp only [Function.update_self] at h
    exact Or.inl ⟨heq, (Option.some.inj h).symm⟩
  · simp only [Function.update_of_ne heq] at h
    exact Or.inr ⟨heq, h⟩

theorem goto_pc_ne (w : Slot) (p : Phase) {t t' : Thread} (h : t' ≠ t) :
    (w.goto t p).pc t' = w.pc t' :=
  Function.update_of_ne h _ _

theorem goto_comm (w : Slot) (p q : Phase) {t t' : Thread} (h : t ≠ t') :
    (w.goto t p).goto t' q = (w.goto t' q).goto t p := by
  unfold goto
  rw [Function.update_comm h]

/-- A step that has nothing to do with terminal updates. -/
theorem OnePush.quiet (h : w.OnePush) (hp : w.pc t = some p)
    (hq : p'.pushing = true → p.pushing = true)
    (hf : x'.finished = w.session.finished)
    (hu : terminalUpdates x' = terminalUpdates w.session) :
    ((w.set x').goto t p').OnePush := by
  rcases h with ⟨hnone, hle⟩ | ⟨hfin, hnil, hone⟩
  · left
    refine ⟨fun t' q hq' => ?_, ?_⟩
    · rcases goto_pc (w.set x') t p' hq' with ⟨rfl, rfl⟩ | ⟨_, hold⟩
      · rw [Bool.eq_false_iff]
        intro htrue
        have := hnone _ p hp
        rw [hq htrue] at this
        contradiction
      · exact hnone t' q hold
    · show (terminalUpdates x').length ≤ if x'.finished = true then 1 else 0
      rw [hf, hu]
      exact hle
  · right
    refine ⟨hf.trans hfin, hu.trans hnil, fun t₁ t₂ p₁ p₂ h₁ h₂ hp₁ hp₂ => ?_⟩
    -- whoever pushes now pushed before
    have hold : ∀ t₀ p₀, ((w.set x').goto t p').pc t₀ = some p₀ → p₀.pushing = true →
        ∃ q₀, w.pc t₀ = some q₀ ∧ q₀.pushing = true := by
      intro t₀ p₀ h₀ hp₀
      rcases goto_pc (w.set x') t p' h₀ with ⟨rfl, rfl⟩ | ⟨_, hold⟩
      · exact ⟨p, hp, hq hp₀⟩
      · exact ⟨p₀, hold, hp₀⟩
    obtain ⟨q₁, hq₁, hpush₁⟩ := hold t₁ p₁ h₁ hp₁
    obtain ⟨q₂, hq₂, hpush₂⟩ := hold t₂ p₂ h₂ hp₂
    exact hone t₁ t₂ q₁ q₂ hq₁ hq₂ hpush₁ hpush₂

/-- The step that finishes the session. -/
theorem OnePush.win (h : w.OnePush) (hf : w.session.finished = false) (hf' : x'.finished = true)
    (hu : terminalUpdates x' = terminalUpdates w.session) :
    ((w.set x').goto t p').OnePush := by
  rcases h with ⟨hnone, hle⟩ | ⟨hfin, -, -⟩
  · rw [hf] at hle
    have hnil : terminalUpdates w.session = [] := List.eq_nil_of_length_eq_zero (by simpa using hle)
    right
    refine ⟨hf', hu.trans hnil, fun t₁ t₂ p₁ p₂ h₁ h₂ hp₁ hp₂ => ?_⟩
    rcases goto_pc (w.set x') t p' h₁ with ⟨rfl, rfl⟩ | ⟨_, h₁⟩
    · rcases goto_pc (w.set x') _ _ h₂ with ⟨rfl, rfl⟩ | ⟨_, h₂⟩
      · rfl
      · rw [hnone _ _ h₂] at hp₂
        contradiction
    · rw [hnone _ _ h₁] at hp₁
      contradiction
  · rw [hf] at hfin
    contradiction

/-- The step that pushes the terminal update. -/
theorem OnePush.pushed (h : w.OnePush) (hp : w.pc t = some p) (hpush : p.pushing = true)
    (hq : p'.pushing = false) (u : Update) (hf : x'.finished = w.session.finished)
    (hu : x'.updates = u :: w.session.updates) :
    ((w.set x').goto t p').OnePush := by
  rcases h with ⟨hnone, -⟩ | ⟨hfin, hnil, hone⟩
  · rw [hnone t p hp] at hpush
    contradiction
  · left
    refine ⟨fun t' q hq' => ?_, ?_⟩
    · rcases goto_pc (w.set x') t p' hq' with ⟨rfl, rfl⟩ | ⟨hne, hold⟩
      · exact hq
      · rw [Bool.eq_false_iff]
        intro htrue
        exact hne (hone t' t q p hold hp htrue hpush)
    · show (terminalUpdates x').length ≤ if x'.finished = true then 1 else 0
      rw [hf, hfin, if_pos rfl]
      unfold terminalUpdates at hnil ⊢
      rw [hu, List.filter_cons]
      split_ifs
      · rw [hnil]
        exact Nat.le_refl 1
      · rw [hnil]
        exact Nat.zero_le 1

/-- A step of the thread `t` from `p` to `p'` that leaves the session as
    `x'`. -/
theorem Inv.move (h : w.Inv) (hp : w.pc t = some p) (hgrow : w.session.Grows x')
    (hchild : p = .spawn ∨ (w.session.child = .unspawned → x'.child = .unspawned))
    (hsound : x'.Sound) (hfits : p'.Fits x')
    (hstart : p'.starting = true → p.starting = true) (hspawn : p' ≠ .spawn)
    (hpush : ((w.set x').goto t p').OnePush)
    (hterm : x'.status = .cancelled → x'.child.atLarge = true →
      p'.terminating = true ∨ p.terminating = false ∧ w.session.status = .cancelled) :
    ((w.set x').goto t p').Inv where
  sound := hsound
  fits t' q hq := by
    rcases goto_pc (w.set x') t p' hq with ⟨rfl, rfl⟩ | ⟨_, hold⟩
    · exact hfits
    · exact (h.fits t' q hold).grows hgrow
  starting t' q hq hs := by
    -- the thread that starts now started before
    have hold : ∃ q₀, w.pc t' = some q₀ ∧ q₀.starting = true := by
      rcases goto_pc (w.set x') t p' hq with ⟨rfl, rfl⟩ | ⟨_, hold⟩
      · exact ⟨p, hp, hstart hs⟩
      · exact ⟨q, hold, hs⟩
    obtain ⟨q₀, hq₀, hs₀⟩ := hold
    obtain ⟨htimer, hone⟩ := h.starting t' q₀ hq₀ hs₀
    refine ⟨?_, fun t₁ q₁ hq₁ hs₁ => ?_⟩
    · have hne : Thread.timer ≠ t := by
        rintro rfl
        rw [hp] at htimer
        contradiction
      rw [goto_pc_ne _ _ hne]
      exact htimer
    · rcases goto_pc (w.set x') t p' hq₁ with ⟨rfl, rfl⟩ | ⟨_, hold₁⟩
      · exact hone _ p hp (hstart hs₁)
      · exact hone t₁ q₁ hold₁ hs₁
  spawning t' ht' := by
    rcases goto_pc (w.set x') t p' ht' with ⟨_, heq⟩ | ⟨_, hold⟩
    · exact absurd heq.symm hspawn
    · obtain ⟨hun, hwaiter⟩ := h.spawning t' hold
      have hstays : x'.child = .unspawned := by
        rcases hchild with rfl | hstays
        · have := (h.starting t _ hp rfl).2 t' _ hold rfl
          contradiction
        · exact hstays hun
      refine ⟨hstays, ?_⟩
      have hne : Thread.waiter ≠ t := by
        rintro rfl
        rw [hp] at hwaiter
        contradiction
      rw [goto_pc_ne _ _ hne]
      exact hwaiter
  push := hpush
  terminated hc hl := by
    rcases hterm hc hl with hnow | ⟨hnot, hbefore⟩
    · exact ⟨t, p', Function.update_self _ _ _, hnow⟩
    · have hlarge : w.session.child.atLarge = true := by
        rw [← Bool.not_eq_false]
        intro hfalse
        have := hgrow.settled hfalse
        rw [show ((w.set x').goto t p').session = x' from rfl] at hl
        rw [hl] at this
        contradiction
      obtain ⟨t₁, p₁, h₁, hp₁⟩ := h.terminated hbefore hlarge
      have hne : t₁ ≠ t := by
        rintro rfl
        rw [hp] at h₁
        obtain rfl := Option.some.inj h₁
        rw [hnot] at hp₁
        contradiction
      exact ⟨t₁, p₁, (goto_pc_ne _ _ hne).trans h₁, hp₁⟩

/-- A step that only reads the session. -/
theorem Inv.goto (h : w.Inv) (hp : w.pc t = some p) (hfits : p'.Fits w.session)
    (hstart : p'.starting = true → p.starting = true) (hspawn : p' ≠ .spawn)
    (hpush : p'.pushing = true → p.pushing = true)
    (hterm : p.terminating = true → w.session.child.atLarge = true → p'.terminating = true) :
    (w.goto t p').Inv := by
  refine h.move hp (Session.Grows.refl _) (Or.inr id) h.sound hfits hstart hspawn
    (h.push.quiet hp hpush rfl rfl) ?_
  intro hc hl
  cases hpt : p.terminating with
  | true => exact Or.inl (hterm hpt hl)
  | false => exact Or.inr ⟨rfl, hc⟩

/-- The child or its output changes the session, and no thread moves. -/
theorem Inv.update (h : w.Inv) (hgrow : w.session.Grows x')
    (hchild : w.session.child = .unspawned → x'.child = .unspawned) (hsound : x'.Sound)
    (hs : x'.status = w.session.status) (hf : x'.finished = w.session.finished)
    (hu : x'.updates = w.session.updates) : (w.set x').Inv where
  sound := hsound
  fits t p hp := (h.fits t p hp).grows hgrow
  starting := h.starting
  spawning t ht := by
    obtain ⟨hun, hwaiter⟩ := h.spawning t ht
    exact ⟨hchild hun, hwaiter⟩
  push := by
    have heq : terminalUpdates x' = terminalUpdates w.session := by
      unfold terminalUpdates
      rw [hu]
    rcases h.push with ⟨hnone, hle⟩ | ⟨hfin, hnil, hone⟩
    · left
      refine ⟨hnone, ?_⟩
      show (terminalUpdates x').length ≤ if x'.finished = true then 1 else 0
      rw [heq, hf]
      exact hle
    · right
      exact ⟨hf.trans hfin, heq.trans hnil, hone⟩
  terminated hc hl := by
    apply h.terminated (hs.symm.trans hc)
    rw [← Bool.not_eq_false]
    intro hfalse
    have := hgrow.settled hfalse
    rw [show (w.set x').session = x' from rfl] at hl
    rw [hl] at this
    contradiction

/-- A thread comes to the session. -/
theorem Inv.fork (h : w.Inv) (hnone : w.pc t = none) (hfits : p.Fits w.session)
    (hstart : p.starting = false) (hpush : p.pushing = false)
    (hfree : ∀ t' q, w.pc t' = some q → q.starting = true →
      t ≠ .timer ∧ (q = .spawn → t ≠ .waiter)) : (w.goto t p).Inv where
  sound := h.sound
  fits t' q hq := by
    rcases goto_pc w t p hq with ⟨rfl, rfl⟩ | ⟨_, hold⟩
    · exact hfits
    · exact h.fits t' q hold
  starting t' q hq hs := by
    rcases goto_pc w t p hq with ⟨rfl, rfl⟩ | ⟨_, hold⟩
    · rw [hstart] at hs
      contradiction
    · obtain ⟨htimer, hone⟩ := h.starting t' q hold hs
      refine ⟨?_, fun t₁ q₁ hq₁ hs₁ => ?_⟩
      · rw [goto_pc_ne _ _ (hfree t' q hold hs).1.symm]
        exact htimer
      · rcases goto_pc w t p hq₁ with ⟨rfl, rfl⟩ | ⟨_, hold₁⟩
        · rw [hstart] at hs₁
          contradiction
        · exact hone t₁ q₁ hold₁ hs₁
  spawning t' ht' := by
    rcases goto_pc w t p ht' with ⟨_, heq⟩ | ⟨_, hold⟩
    · rw [← heq] at hstart
      contradiction
    · obtain ⟨hun, hwaiter⟩ := h.spawning t' hold
      refine ⟨hun, ?_⟩
      rw [goto_pc_ne _ _ ((hfree t' _ hold rfl).2 rfl).symm]
      exact hwaiter
  push := by
    rcases h.push with ⟨hquiet, hle⟩ | ⟨hfin, hnil, hone⟩
    · left
      refine ⟨fun t' q hq => ?_, hle⟩
      rcases goto_pc w t p hq with ⟨rfl, rfl⟩ | ⟨_, hold⟩
      · exact hpush
      · exact hquiet t' q hold
    · right
      refine ⟨hfin, hnil, fun t₁ t₂ p₁ p₂ h₁ h₂ hp₁ hp₂ => ?_⟩
      rcases goto_pc w t p h₁ with ⟨rfl, rfl⟩ | ⟨_, hold₁⟩
      · rw [hpush] at hp₁
        contradiction
      · rcases goto_pc w t p h₂ with ⟨rfl, rfl⟩ | ⟨_, hold₂⟩
        · rw [hpush] at hp₂
          contradiction
        · exact hone t₁ t₂ p₁ p₂ hold₁ hold₂ hp₁ hp₂
  terminated hc hl := by
    obtain ⟨t₁, p₁, h₁, hp₁⟩ := h.terminated hc hl
    have hne : t₁ ≠ t := by
      rintro rfl
      rw [hnone] at h₁
      contradiction
    exact ⟨t₁, p₁, (goto_pc_ne _ _ hne).trans h₁, hp₁⟩

end Slot

-- ============================================================================
-- The lock sections
-- ============================================================================

section

variable {stderrField sanitize : Text → Text} {reg reg' : Registry} {n : Nat} {t : Thread}
  {w w' : Slot} {p : Phase}

/-- What a step leaves of a slot. -/
structure Slot.Kept (w w' : Slot) : Prop where
  inv : w'.Inv
  status : w.session.status ≠ .waiting → w'.session.status = w.session.status

theorem Slot.Inv.keptGoto (h : w.Inv) (hp : w.pc t = some p) {p' : Phase}
    (hfits : p'.Fits w.session) (hstart : p'.starting = true → p.starting = true)
    (hspawn : p' ≠ .spawn) (hpush : p'.pushing = true → p.pushing = true)
    (hterm : p.terminating = true → w.session.child.atLarge = true → p'.terminating = true) :
    w.Kept (w.goto t p') :=
  ⟨h.goto hp hfits hstart hspawn hpush hterm, fun _ => rfl⟩

theorem Next.phase_fits (next : Next) (x : Session) : next.phase.Fits x := by
  cases next <;> trivial

theorem Next.phase_quiet (next : Next) : next.phase.starting = false ∧ next.phase ≠ .spawn ∧
    next.phase.pushing = false := by
  cases next <;> exact ⟨rfl, nofun, rfl⟩

/-- Only an unfinished session is finished, and then its status is the one
    written or still `waiting`. -/
theorem finish_status {x : Session} {status : Status} {error : Text} {next : Next}
    (hx : x.Sound) (hfits : (Phase.finish status error next).Fits x)
    (hok : (Phase.finish status error next).orderly x = true) (hopen : x.finished = false) :
    (status = .failed ∨ status = .cancelled) ∧ (x.status ≠ .waiting → status = x.status) := by
  have hst : status = .failed ∨ status = .cancelled := by
    cases next with
    | startFailed => exact Or.inl hfits
    | cancelled => exact Or.inr hfits.1
    | expired => exact Or.inr hfits
    | exited => exact hfits.1.symm
  refine ⟨hst, fun hne => ?_⟩
  rcases hst with rfl | rfl
  · have hok : (decide (x.status = .waiting) || x.finished) = true := hok
    rw [hopen, Bool.or_false, decide_eq_true_eq] at hok
    exact absurd hok hne
  · have hcontra := mt hx.unfinished (by rw [hopen]; exact Bool.false_ne_true)
    cases hs : x.status with
    | waiting => exact absurd hs hne
    | cancelled => rfl
    | authorized => exact absurd (Or.inl hs) hcontra
    | failed => exact absurd (Or.inr hs) hcontra

theorem finish_kept {status : Status} {error : Text} {next : Next} (h : w.Inv)
    (hp : w.pc t = some (.finish status error next))
    (hok : (Phase.finish status error next).orderly w.session = true)
    (hadv : advance stderrField sanitize reg n t w (.finish status error next) =
      some (reg', w')) : w.Kept w' := by
  have hfits := h.fits t _ hp
  obtain ⟨hquiet, hspawn, hpush⟩ := next.phase_quiet
  simp only [advance] at hadv
  split at hadv
  · obtain ⟨rfl, rfl⟩ := Prod.mk.inj (Option.some.inj hadv)
    apply h.keptGoto hp (next.phase_fits _) _ hspawn
    · rw [hpush]
      exact fun hf => absurd hf Bool.false_ne_true
    · intro hterm _
      cases next with
      | expired => rfl
      | _ => exact absurd hterm Bool.false_ne_true
    · rw [hquiet]
      exact fun hf => absurd hf Bool.false_ne_true
  · rename_i hopen
    obtain ⟨rfl, rfl⟩ := Prod.mk.inj (Option.some.inj hadv)
    have hopen := Bool.eq_false_iff.mpr hopen
    obtain ⟨hst, hstays⟩ := finish_status h.sound hfits hok hopen
    refine ⟨h.move hp ⟨hstays, id, id⟩ (Or.inr id) ?_ trivial nofun nofun
      (h.push.win hopen rfl rfl) ?_, hstays⟩
    · refine ⟨fun _ => ?_, fun _ => rfl, fun htok => ?_, fun hexp => ?_, h.sound.handle⟩
      · rcases hst with rfl | rfl <;> exact nofun
      · refine absurd ?_ htok
        rcases hst with rfl | rfl <;> rfl
      · have := h.sound.unfinished (Or.inl (h.sound.exposed hexp))
        rw [hopen] at this
        contradiction
    · intro hc hl
      cases next with
      | startFailed =>
          rw [show status = .failed from hfits] at hc
          contradiction
      | cancelled => exact Or.inr ⟨rfl, hfits.2⟩
      | expired => exact Or.inl rfl
      | exited =>
          have hsettled := hfits.2
          rw [show w.session.child.atLarge = true from hl] at hsettled
          contradiction

/-- A child that was told to terminate is not at large any more. -/
theorem Session.kill_settled (x : Session) (h : x.child ≠ .unspawned) :
    x.kill.child.atLarge = false := by
  unfold Session.kill
  cases hc : x.child with
  | unspawned => exact absurd hc h
  | running signalled => rfl
  | exited code =>
      simp only
      rw [hc]
      rfl
  | failed =>
      simp only
      rw [hc]
      rfl

theorem Session.kill_grows (x : Session) (h : x.child ≠ .unspawned) : x.Grows x.kill := by
  refine ⟨fun _ => ?_, fun _ => ?_, fun _ => x.kill_settled h⟩
  · unfold Session.kill
    cases x.child <;> rfl
  · intro hun
    have := x.kill_settled h
    rw [hun] at this
    contradiction

theorem kill_kept {p' : Phase} (h : w.Inv) (hp : w.pc t = some p)
    (hun : w.session.child ≠ .unspawned) (hfits : p'.Fits w.session.kill)
    (hstart : p'.starting = false) (hspawn : p' ≠ .spawn) (hpush : p'.pushing = false) :
    w.Kept ((w.set w.session.kill).goto t p') := by
  have hsame : w.session.kill.status = w.session.status ∧
      w.session.kill.finished = w.session.finished ∧ w.session.kill.token = w.session.token ∧
      w.session.kill.exposed = w.session.exposed ∧
      w.session.kill.updates = w.session.updates := by
    unfold Session.kill
    cases w.session.child <;> exact ⟨rfl, rfl, rfl, rfl, rfl⟩
  obtain ⟨hstatus, hfinished, htoken, hexposed, hupdates⟩ := hsame
  refine ⟨h.move hp (w.session.kill_grows hun) (Or.inr fun hc => absurd hc hun) ?_ hfits ?_ hspawn
    (h.push.quiet hp ?_ hfinished ?_) ?_, fun _ => hstatus⟩
  · refine ⟨?_, ?_, ?_, ?_, fun _ => (w.session.kill_grows hun).spawned hun⟩
    · rw [hfinished, hstatus]
      exact h.sound.finished
    · rw [hfinished, hstatus]
      exact h.sound.unfinished
    · rw [htoken, hstatus]
      exact h.sound.token
    · rw [hexposed, hstatus]
      exact h.sound.exposed
  · rw [hstart]
    exact fun hf => absurd hf Bool.false_ne_true
  · rw [hpush]
    exact fun hf => absurd hf Bool.false_ne_true
  · unfold terminalUpdates
    rw [hupdates]
  · intro _ hl
    rw [w.session.kill_settled hun] at hl
    contradiction

/-- A section that writes neither the status nor a terminal update. -/
theorem touch_kept {p' : Phase} {x' : Session} (h : w.Inv) (hp : w.pc t = some p)
    (hs : x'.status = w.session.status) (hf : x'.finished = w.session.finished)
    (hc : x'.child = w.session.child)
    (hu : terminalUpdates x' = terminalUpdates w.session)
    (hsound : x'.Sound) (hfits : p'.Fits x') (hstart : p'.starting = true → p.starting = true)
    (hspawn : p' ≠ .spawn) (hpush : p'.pushing = false) (hterm : p.terminating = false) :
    w.Kept ((w.set x').goto t p') := by
  have hgrow : w.session.Grows x' := by
    refine ⟨fun _ => hs, ?_, ?_⟩
    · rw [hc]
      exact id
    · rw [hc]
      exact id
  refine ⟨h.move hp hgrow (Or.inr fun hun => hc.trans hun) hsound hfits hstart hspawn
    (h.push.quiet hp ?_ hf hu) ?_, fun _ => hs⟩
  · rw [hpush]
    exact fun hfalse => absurd hfalse Bool.false_ne_true
  · intro hcan _
    exact Or.inr ⟨hterm, hs ▸ hcan⟩

theorem store_kept (h : w.Inv) (hp : w.pc t = some .store) :
    w.Kept ((w.set { w.session with handle := true }).goto t .storeCheck) :=
  touch_kept h hp rfl rfl rfl rfl
    ⟨h.sound.finished, h.sound.unfinished, h.sound.token, h.sound.exposed,
      fun _ => h.fits t _ hp⟩
    trivial (fun _ => rfl) nofun rfl rfl

/-- `session.child.lock().take()`. -/
theorem take_kept {p' : Phase} (h : w.Inv) (hp : w.pc t = some p)
    (hfits : p'.Fits { w.session with handle := false })
    (hstart : p'.starting = true → p.starting = true) (hspawn : p' ≠ .spawn)
    (hpush : p'.pushing = false) (hterm : p.terminating = false) :
    w.Kept ((w.set { w.session with handle := false }).goto t p') :=
  touch_kept h hp rfl rfl rfl rfl
    ⟨h.sound.finished, h.sound.unfinished, h.sound.token, h.sound.exposed, nofun⟩
    hfits hstart hspawn hpush hterm

theorem cancelMark_kept (h : w.Inv) (hp : w.pc t = some .cancelMark)
    (hok : Phase.cancelMark.orderly w.session = true) :
    w.Kept ((w.set { w.session with status := .cancelled, token := [] }).goto t
      .cancelChild) := by
  have hok : w.session.status = .waiting ∨ w.session.status = .cancelled := by
    simpa [Phase.orderly] using hok
  have hstays : w.session.status ≠ .waiting → Status.cancelled = w.session.status := by
    intro hne
    rcases hok with hw | hc
    · exact absurd hw hne
    · exact hc.symm
  refine ⟨h.move hp ⟨hstays, id, id⟩ (Or.inr id) ?_ rfl nofun nofun
    (h.push.quiet hp nofun rfl rfl) (fun _ _ => Or.inl rfl), hstays⟩
  refine ⟨fun _ => nofun, nofun, fun hne => absurd rfl hne, fun hexp => ?_, h.sound.handle⟩
  have hauth := h.sound.exposed hexp
  rcases hok with hw | hc
  · rw [hw] at hauth
    contradiction
  · rw [hc] at hauth
    contradiction

theorem exitAuthorize_kept {token : Text} (h : w.Inv)
    (hp : w.pc t = some (.exitAuthorize token))
    (hok : (Phase.exitAuthorize token).orderly w.session = true) :
    w.Kept ((w.set { w.session with token, status := .authorized, finished := true }).goto t
      .exitPush) := by
  have hwait : w.session.status = .waiting := by simpa [Phase.orderly] using hok
  have hopen : w.session.finished = false := by
    rw [Bool.eq_false_iff]
    intro hfin
    exact h.sound.finished hfin hwait
  refine ⟨h.move hp ⟨fun hne => absurd hwait hne, id, id⟩ (Or.inr id)
    ⟨fun _ => nofun, fun _ => rfl, fun _ => rfl, fun _ => rfl, h.sound.handle⟩ trivial nofun nofun
    (h.push.win hopen rfl rfl) nofun, fun hne => absurd hwait hne⟩

/-- The section that pushes a terminal update. -/
theorem push_kept {p' : Phase} (u : Update) (h : w.Inv) (hp : w.pc t = some p)
    (hpush : p.pushing = true) (hfits : ∀ x, p'.Fits x)
    (hstart : p'.starting = false) (hspawn : p' ≠ .spawn) (hpush' : p'.pushing = false)
    (hterm : p.terminating = true → p'.terminating = true) :
    w.Kept ((w.set { w.session with updates := u :: w.session.updates }).goto t p') := by
  refine ⟨h.move hp ⟨fun _ => rfl, id, id⟩ (Or.inr id)
    ⟨h.sound.finished, h.sound.unfinished, h.sound.token, h.sound.exposed, h.sound.handle⟩
    (hfits _) ?_ hspawn (h.push.pushed hp hpush hpush' u rfl rfl) ?_, fun _ => rfl⟩
  · rw [hstart]
    exact fun hf => absurd hf Bool.false_ne_true
  · intro hc _
    cases hpt : p.terminating with
    | true => exact Or.inl (hterm hpt)
    | false => exact Or.inr ⟨rfl, hc⟩

theorem cancelChild_kept (h : w.Inv) (hp : w.pc t = some .cancelChild)
    (hok : Phase.cancelChild.orderly w.session = true) :
    w.Kept (w.goto t
      (if w.session.handle then .cancelKill else .finish .cancelled [] .cancelled)) := by
  have hcan : w.session.status = .cancelled := h.fits t _ hp
  split
  · rename_i hhandle
    exact h.keptGoto hp ⟨h.sound.handle hhandle, hcan⟩ nofun nofun nofun (fun _ _ => rfl)
  · rename_i hhandle
    refine h.keptGoto hp ⟨rfl, hcan⟩ nofun nofun nofun ?_
    intro _ hl
    simp [Phase.orderly, hhandle, hl] at hok

theorem expiryChild_kept (h : w.Inv) (hp : w.pc t = some .expiryChild)
    (hok : Phase.expiryChild.orderly w.session = true) :
    w.Kept (w.goto t (if w.session.handle then .expiryKill else .returned none)) := by
  split
  · rename_i hhandle
    exact h.keptGoto hp (h.sound.handle hhandle) nofun nofun nofun (fun _ _ => rfl)
  · rename_i hhandle
    refine h.keptGoto hp trivial nofun nofun nofun ?_
    intro _ hl
    simp [Phase.orderly, hhandle, hl] at hok

theorem exitRead_kept {code : Int} (h : w.Inv) (hp : w.pc t = some (.exitRead code)) :
    w.Kept (w.goto t (afterExit stderrField w.session code)) := by
  have hsettled : w.session.child.atLarge = false := h.fits t _ hp
  unfold afterExit
  split
  · exact h.keptGoto hp trivial nofun nofun nofun nofun
  · simp only
    generalize (if extractToken w.session.stdoutBuffer = [] then _ else _) = token
    split
    · exact h.keptGoto hp hsettled nofun nofun nofun nofun
    · exact h.keptGoto hp hsettled nofun nofun nofun nofun

theorem exitSnapshot_kept {code : Int} {msg err : Text} (h : w.Inv)
    (hp : w.pc t = some (.exitSnapshot code msg)) :
    w.Kept (w.goto t
      (.finish (if w.session.status = .cancelled then .cancelled else .failed) err .exited)) := by
  have hsettled : w.session.child.atLarge = false := h.fits t _ hp
  refine h.keptGoto hp ⟨?_, hsettled⟩ nofun nofun nofun nofun
  split
  · exact Or.inl rfl
  · exact Or.inr rfl

theorem schedule_kept (h : w.Inv) (hp : w.pc t = some .schedule) :
    w.Kept ((w.goto .timer .expiryWait).goto t .waitUrl) := by
  obtain ⟨htimer, hone⟩ := h.starting t _ hp rfl
  have hne : t ≠ .timer := by
    rintro rfl
    rw [hp] at htimer
    contradiction
  have hmoved : (w.goto t .waitUrl).Inv := h.goto hp trivial nofun nofun nofun nofun
  rw [Slot.goto_comm _ _ _ hne.symm]
  refine ⟨hmoved.fork ((Slot.goto_pc_ne _ _ hne.symm).trans htimer) trivial rfl rfl ?_,
    fun _ => rfl⟩
  intro t' q hq hs
  rcases Slot.goto_pc w t _ hq with ⟨_, rfl⟩ | ⟨hne', hold⟩
  · contradiction
  · exact absurd (hone t' q hold hs) hne'

/-- A lock section keeps the invariant and a status that is not `waiting`. -/
theorem advance_kept (h : w.Inv) (hp : w.pc t = some p) (hok : p.orderly w.session = true)
    (hadv : advance stderrField sanitize reg n t w p = some (reg', w')) : w.Kept w' := by
  cases p with
  | finish status error next => exact finish_kept h hp hok hadv
  | spawn => contradiction
  | returned a => contradiction
  | store =>
      obtain ⟨-, rfl⟩ := Prod.mk.inj (Option.some.inj hadv)
      exact store_kept h hp
  | storeCheck =>
      obtain ⟨-, rfl⟩ := Prod.mk.inj (Option.some.inj hadv)
      split
      · exact h.keptGoto hp trivial (fun _ => rfl) nofun nofun nofun
      · exact h.keptGoto hp trivial (fun _ => rfl) nofun nofun nofun
  | storeTake =>
      obtain ⟨-, rfl⟩ := Prod.mk.inj (Option.some.inj hadv)
      exact take_kept h hp trivial (fun _ => rfl) nofun rfl rfl
  | schedule =>
      obtain ⟨-, rfl⟩ := Prod.mk.inj (Option.some.inj hadv)
      exact schedule_kept h hp
  | waitUrl =>
      obtain ⟨-, rfl⟩ := Prod.mk.inj (Option.some.inj hadv)
      exact h.keptGoto hp trivial nofun nofun nofun nofun
  | readState =>
      obtain ⟨-, rfl⟩ := Prod.mk.inj (Option.some.inj hadv)
      exact h.keptGoto hp trivial nofun nofun nofun nofun
  | answer url status err finished =>
      simp only [advance] at hadv
      split at hadv
      · obtain ⟨-, rfl⟩ := Prod.mk.inj (Option.some.inj hadv)
        exact touch_kept h hp rfl rfl rfl rfl
          ⟨h.sound.finished, h.sound.unfinished, h.sound.token, h.sound.exposed, h.sound.handle⟩
          trivial nofun nofun rfl rfl
      · obtain ⟨-, rfl⟩ := Prod.mk.inj (Option.some.inj hadv)
        split
        · exact h.keptGoto hp trivial nofun nofun nofun nofun
        · exact h.keptGoto hp trivial nofun nofun nofun nofun
  | finishPush status error next =>
      obtain ⟨-, rfl⟩ := Prod.mk.inj (Option.some.inj hadv)
      exact push_kept _ h hp rfl (fun _ => trivial) rfl nofun rfl
        (by cases next <;> exact id)
  | finishUnregister next =>
      obtain ⟨-, rfl⟩ := Prod.mk.inj (Option.some.inj hadv)
      obtain ⟨hquiet, hspawn, hpush⟩ := next.phase_quiet
      apply h.keptGoto hp (next.phase_fits _) _ hspawn
      · rw [hpush]
        exact fun hf => absurd hf Bool.false_ne_true
      · intro hterm _
        cases next with
        | expired => rfl
        | _ => exact absurd hterm Bool.false_ne_true
      · rw [hquiet]
        exact fun hf => absurd hf Bool.false_ne_true
  | cancelLookup =>
      obtain ⟨-, rfl⟩ := Prod.mk.inj (Option.some.inj hadv)
      split
      · exact h.keptGoto hp trivial nofun nofun nofun nofun
      · exact h.keptGoto hp trivial nofun nofun nofun nofun
  | cancelCheck =>
      obtain ⟨-, rfl⟩ := Prod.mk.inj (Option.some.inj hadv)
      split
      · exact h.keptGoto hp trivial nofun nofun nofun nofun
      · exact h.keptGoto hp trivial nofun nofun nofun nofun
  | cancelMark =>
      obtain ⟨-, rfl⟩ := Prod.mk.inj (Option.some.inj hadv)
      exact cancelMark_kept h hp hok
  | cancelChild =>
      obtain ⟨-, rfl⟩ := Prod.mk.inj (Option.some.inj hadv)
      exact cancelChild_kept h hp hok
  | cancelKill =>
      obtain ⟨-, rfl⟩ := Prod.mk.inj (Option.some.inj hadv)
      obtain ⟨hun, hcan⟩ := h.fits t _ hp
      exact kill_kept h hp hun ⟨rfl, (w.session.kill_grows hun).cancelled hcan⟩ rfl nofun rfl
  | forgetEntry a =>
      obtain ⟨-, rfl⟩ := Prod.mk.inj (Option.some.inj hadv)
      split
      · exact h.keptGoto hp trivial nofun nofun nofun nofun
      · exact h.keptGoto hp trivial nofun nofun nofun nofun
  | forgetToken a =>
      obtain ⟨-, rfl⟩ := Prod.mk.inj (Option.some.inj hadv)
      exact touch_kept h hp rfl rfl rfl rfl
        ⟨h.sound.finished, h.sound.unfinished, fun hne => absurd rfl hne, h.sound.exposed,
          h.sound.handle⟩
        trivial nofun nofun rfl rfl
  | expiryWait =>
      obtain ⟨-, rfl⟩ := Prod.mk.inj (Option.some.inj hadv)
      exact h.keptGoto hp trivial nofun nofun nofun nofun
  | expiryCheck =>
      obtain ⟨-, rfl⟩ := Prod.mk.inj (Option.some.inj hadv)
      split
      · exact h.keptGoto hp trivial nofun nofun nofun nofun
      · exact h.keptGoto hp rfl nofun nofun nofun nofun
  | expiryChild =>
      obtain ⟨-, rfl⟩ := Prod.mk.inj (Option.some.inj hadv)
      exact expiryChild_kept h hp hok
  | expiryKill =>
      obtain ⟨-, rfl⟩ := Prod.mk.inj (Option.some.inj hadv)
      exact kill_kept h hp (h.fits t _ hp) trivial rfl nofun rfl
  | exitWait =>
      simp only [advance] at hadv
      split at hadv
      · rename_i code hexit
        obtain ⟨-, rfl⟩ := Prod.mk.inj (Option.some.inj hadv)
        refine h.keptGoto hp ?_ nofun nofun nofun nofun
        show w.session.child.atLarge = false
        rw [hexit]
        rfl
      · contradiction
  | exitRead code =>
      obtain ⟨-, rfl⟩ := Prod.mk.inj (Option.some.inj hadv)
      exact exitRead_kept h hp
  | exitAuthorize token =>
      obtain ⟨-, rfl⟩ := Prod.mk.inj (Option.some.inj hadv)
      exact exitAuthorize_kept h hp hok
  | exitPush =>
      obtain ⟨-, rfl⟩ := Prod.mk.inj (Option.some.inj hadv)
      exact push_kept _ h hp rfl (fun _ => trivial) rfl nofun rfl nofun
  | exitSnapshot code msg =>
      obtain ⟨-, rfl⟩ := Prod.mk.inj (Option.some.inj hadv)
      exact exitSnapshot_kept h hp
  | exitTake =>
      obtain ⟨-, rfl⟩ := Prod.mk.inj (Option.some.inj hadv)
      exact take_kept h hp trivial nofun nofun rfl rfl
  | exitUnregister =>
      obtain ⟨-, rfl⟩ := Prod.mk.inj (Option.some.inj hadv)
      exact h.keptGoto hp trivial nofun nofun nofun nofun
  | completeWait =>
      obtain ⟨-, rfl⟩ := Prod.mk.inj (Option.some.inj hadv)
      exact h.keptGoto hp trivial nofun nofun nofun nofun
  | completeSnapshot =>
      simp only [advance] at hadv
      split at hadv
      · obtain ⟨-, rfl⟩ := Prod.mk.inj (Option.some.inj hadv)
        exact h.keptGoto hp trivial nofun nofun nofun nofun
      · obtain ⟨-, rfl⟩ := Prod.mk.inj (Option.some.inj hadv)
        exact h.keptGoto hp trivial nofun nofun nofun nofun
      · obtain ⟨-, rfl⟩ := Prod.mk.inj (Option.some.inj hadv)
        exact h.keptGoto hp trivial nofun nofun nofun nofun
      · rename_i hauth
        split at hadv
        · obtain ⟨-, rfl⟩ := Prod.mk.inj (Option.some.inj hadv)
          exact h.keptGoto hp trivial nofun nofun nofun nofun
        · obtain ⟨-, rfl⟩ := Prod.mk.inj (Option.some.inj hadv)
          exact touch_kept h hp rfl rfl rfl rfl
            ⟨h.sound.finished, h.sound.unfinished, h.sound.token, fun _ => hauth,
              h.sound.handle⟩
            trivial nofun nofun rfl rfl

end

-- ============================================================================
-- Calls and the child
-- ============================================================================

theorem fresh_inv : Slot.fresh.Inv where
  sound := ⟨nofun, nofun, fun h => absurd rfl h, nofun, nofun⟩
  fits := nofun
  starting := nofun
  spawning := nofun
  push := Or.inl ⟨nofun, Nat.le_refl 0⟩
  terminated := nofun

/-- A session that `start` has just registered. -/
theorem registered_inv (i : Nat) : (Slot.fresh.goto (.call i) .spawn).Inv := by
  have honly : ∀ t p, (Slot.fresh.goto (.call i) .spawn).pc t = some p →
      t = .call i ∧ p = .spawn := by
    intro t p hp
    rcases Slot.goto_pc _ _ _ hp with hnew | ⟨_, hold⟩
    · exact hnew
    · contradiction
  refine ⟨fresh_inv.sound, fun t p hp => ?_, fun t p hp _ => ⟨?_, fun t' p' hp' _ => ?_⟩,
    fun t _ => ⟨rfl, ?_⟩, Or.inl ⟨fun t p hp => ?_, Nat.le_refl 0⟩, nofun⟩
  · rw [(honly t p hp).2]
    trivial
  · exact Slot.goto_pc_ne _ _ nofun
  · rw [(honly t p hp).1, (honly t' p' hp').1]
  · exact Slot.goto_pc_ne _ _ nofun
  · rw [(honly t p hp).2]
    rfl

section

variable {w : Slot} {i : Nat}

theorem call_inv (h : w.Inv) (hnone : w.pc (.call i) = none) {p : Phase}
    (hfits : p.Fits w.session) (hstart : p.starting = false) (hpush : p.pushing = false) :
    (w.goto (.call i) p).Inv :=
  h.fork hnone hfits hstart hpush fun _ _ _ _ => ⟨nofun, fun _ => nofun⟩

/-- The session of a spawn, and what comes of the child. -/
theorem spawn_inv {p' : Phase} {c : Child} (h : w.Inv) (hp : w.pc (.call i) = some .spawn)
    (hc : c ≠ .unspawned) (hfits : p'.Fits { w.session with child := c })
    (hspawn : p' ≠ .spawn) (hpush : p'.pushing = false) :
    ((w.set { w.session with child := c }).goto (.call i) p').Inv := by
  obtain ⟨hun, -⟩ := h.spawning _ hp
  refine h.move hp ⟨fun _ => rfl, fun _ => hc, fun hsettled => ?_⟩ (Or.inl rfl)
    ⟨h.sound.finished, h.sound.unfinished, h.sound.token, h.sound.exposed, fun _ => hc⟩
    hfits (fun _ => rfl) hspawn (h.push.quiet hp ?_ rfl rfl) (fun hcan _ => Or.inr ⟨rfl, hcan⟩)
  · rw [hun] at hsettled
    contradiction
  · rw [hpush]
    exact fun hf => absurd hf Bool.false_ne_true

theorem spawned_inv (h : w.Inv) (hp : w.pc (.call i) = some .spawn) :
    (((w.set { w.session with child := .running false }).goto .waiter .exitWait).goto
      (.call i) .store).Inv := by
  obtain ⟨-, hwaiter⟩ := h.spawning _ hp
  have hone := (h.starting _ _ hp rfl).2
  have hstored : ((w.set { w.session with child := .running false }).goto (.call i)
      .store).Inv := spawn_inv h hp nofun nofun nofun rfl
  have hne : Thread.waiter ≠ .call i := nofun
  rw [Slot.goto_comm _ _ _ hne]
  refine hstored.fork ((Slot.goto_pc_ne _ _ hne).trans hwaiter) trivial rfl rfl ?_
  intro t' q hq hs
  refine ⟨nofun, ?_⟩
  rintro rfl
  rcases Slot.goto_pc _ _ _ hq with ⟨_, heq⟩ | ⟨hne, hold⟩
  · contradiction
  · exact absurd (hone t' _ hold rfl) hne

/-- Output changes the buffers and the link only. -/
theorem consume_frame (x : Session) (kind : StreamKind) (text : Text) :
    (consume x kind text).status = x.status ∧ (consume x kind text).finished = x.finished ∧
      (consume x kind text).token = x.token ∧ (consume x kind text).exposed = x.exposed ∧
      (consume x kind text).handle = x.handle ∧ (consume x kind text).child = x.child ∧
      (consume x kind text).updates = x.updates := by
  unfold consume
  cases kind with
  | stdout => exact ⟨rfl, rfl, rfl, rfl, rfl, rfl, rfl⟩
  | stderr =>
      simp only
      split
      · exact ⟨rfl, rfl, rfl, rfl, rfl, rfl, rfl⟩
      · split_ifs
        · exact ⟨rfl, rfl, rfl, rfl, rfl, rfl, rfl⟩
        · exact ⟨rfl, rfl, rfl, rfl, rfl, rfl, rfl⟩

theorem chunk_kept (h : w.Inv) (kind : StreamKind) (text : Text) :
    w.Kept (w.set (consume w.session kind text)) := by
  obtain ⟨hs, hf, htok, hexp, hhandle, hchild, hu⟩ := consume_frame w.session kind text
  refine ⟨h.update ⟨fun _ => hs, ?_, ?_⟩ (fun hun => hchild.trans hun) ⟨?_, ?_, ?_, ?_, ?_⟩
    hs hf hu, fun _ => hs⟩
  · rw [hchild]
    exact id
  · rw [hchild]
    exact id
  · rw [hf, hs]
    exact h.sound.finished
  · rw [hf, hs]
    exact h.sound.unfinished
  · rw [htok, hs]
    exact h.sound.token
  · rw [hexp, hs]
    exact h.sound.exposed
  · rw [hhandle, hchild]
    exact h.sound.handle

theorem childExit_kept (h : w.Inv) {code : Int} (hrun : w.session.child ≠ .unspawned) :
    w.Kept (w.set { w.session with child := .exited code }) :=
  ⟨h.update ⟨fun _ => rfl, fun _ => nofun, fun _ => rfl⟩ (fun hun => absurd hun hrun)
    ⟨h.sound.finished, h.sound.unfinished, h.sound.token, h.sound.exposed, fun _ => nofun⟩
    rfl rfl rfl, fun _ => rfl⟩

end

-- ============================================================================
-- Every run
-- ============================================================================

structure State.Inv (s : State) : Prop where
  slots : ∀ n, (s.slot n).Inv
  /-- Sessions are numbered as they are registered. -/
  fresh : ∀ n, s.reg.counter < n → s.slot n = Slot.fresh ∧ s.reg.sessions n = false

/-- What a step leaves of the whole. -/
structure State.Kept (s s' : State) : Prop where
  inv : s'.Inv
  status : ∀ n, (s.slot n).session.status ≠ .waiting →
    (s'.slot n).session.status = (s.slot n).session.status

/-- A step on one session. -/
theorem State.Inv.slot {s : State} (h : s.Inv) {n : Nat} {w : Slot} {reg : Registry}
    (hw : (s.slot n).Kept w) (hn : n ≤ s.reg.counter) (hcounter : reg.counter = s.reg.counter)
    (hsessions : ∀ m, s.reg.sessions m = false → reg.sessions m = false) :
    s.Kept { reg, slot := Function.update s.slot n w } := by
  refine ⟨⟨fun m => ?_, fun m hm => ?_⟩, fun m hne => ?_⟩
  · show (Function.update s.slot n w m).Inv
    by_cases heq : m = n
    · rw [heq, Function.update_self]
      exact hw.inv
    · rw [Function.update_of_ne heq]
      exact h.slots m
  · have hm : s.reg.counter < m := hcounter ▸ hm
    obtain ⟨hfresh, hfree⟩ := h.fresh m hm
    refine ⟨?_, hsessions m hfree⟩
    show Function.update s.slot n w m = _
    rw [Function.update_of_ne (by omega)]
    exact hfresh
  · show (Function.update s.slot n w m).session.status = _
    by_cases heq : m = n
    · subst heq
      rw [Function.update_self]
      exact hw.status hne
    · rw [Function.update_of_ne heq]

/-- A session some thread or child belongs to is a registered number. -/
theorem State.Inv.le_counter {s : State} (h : s.Inv) {n : Nat} (hne : s.slot n ≠ Slot.fresh) :
    n ≤ s.reg.counter :=
  Nat.not_lt.mp fun hlt => hne (h.fresh n hlt).1

theorem State.Inv.le_of_thread {s : State} (h : s.Inv) {n : Nat} {t : Thread} {p : Phase}
    (hp : (s.slot n).pc t = some p) : n ≤ s.reg.counter := by
  refine h.le_counter fun heq => ?_
  rw [heq] at hp
  contradiction

theorem call_kept {s s' : State} (h : s.Inv) {n i : Nat} {p : Phase}
    (hstep : s.call n i p = some s') (hfits : p.Fits (s.slot n).session)
    (hstart : p.starting = false) (hpush : p.pushing = false) : s.Kept s' := by
  unfold State.call at hstep
  split at hstep
  · rename_i hguard
    obtain rfl := Option.some.inj hstep
    have hle : n ≤ s.reg.counter := by
      refine Nat.not_lt.mp fun hlt => ?_
      rw [(h.fresh n hlt).2] at hguard
      exact Bool.false_ne_true hguard.1
    exact h.slot ⟨call_inv (h.slots n) hguard.2 hfits hstart hpush, fun _ => rfl⟩ hle rfl
      fun _ => id
  · contradiction

section

variable (stderrField sanitize : Text → Text)

theorem advance_registry {reg reg' : Registry} {n : Nat} {t : Thread} {w w' : Slot} {p : Phase}
    (h : advance stderrField sanitize reg n t w p = some (reg', w')) :
    reg'.counter = reg.counter ∧ ∀ m, reg.sessions m = false → reg'.sessions m = false := by
  cases p with
  | finishUnregister next =>
      obtain ⟨rfl, -⟩ := Prod.mk.inj (Option.some.inj h)
      exact ⟨rfl, fun _ => id⟩
  | exitUnregister =>
      obtain ⟨rfl, -⟩ := Prod.mk.inj (Option.some.inj h)
      exact ⟨rfl, fun _ => id⟩
  | forgetEntry a =>
      obtain ⟨rfl, -⟩ := Prod.mk.inj (Option.some.inj h)
      refine ⟨rfl, fun m hm => ?_⟩
      show Function.update reg.sessions n false m = false
      by_cases heq : m = n
      · rw [heq, Function.update_self]
      · rw [Function.update_of_ne heq]
        exact hm
  | _ =>
      -- no other section writes the registry
      simp only [advance] at h
      repeat' split at h
      all_goals first
        | contradiction
        | obtain ⟨rfl, -⟩ := Prod.mk.inj (Option.some.inj h)
          exact ⟨rfl, fun _ => id⟩

theorem oauth_step {s s' : State} {a : Act} (h : s.Inv) (hok : orderly s a = true)
    (hstep : oauthStep stderrField sanitize s a = some s') : s.Kept s' := by
  cases a with
  | start i =>
      simp only [oauthStep] at hstep
      split at hstep
      · obtain rfl := Option.some.inj hstep
        exact ⟨h, fun _ _ => rfl⟩
      · obtain rfl := Option.some.inj hstep
        obtain ⟨hfresh, -⟩ := h.fresh (s.reg.counter + 1) (Nat.lt_succ_self _)
        refine ⟨⟨fun m => ?_, fun m hm => ?_⟩, fun m hne => ?_⟩
        · show (Function.update s.slot _ _ m).Inv
          by_cases heq : m = s.reg.counter + 1
          · rw [heq, Function.update_self]
            exact registered_inv i
          · rw [Function.update_of_ne heq]
            exact h.slots m
        · have hm : s.reg.counter + 1 < m := hm
          obtain ⟨hslot, hfree⟩ := h.fresh m (by omega)
          constructor
          · show Function.update s.slot _ _ m = _
            rw [Function.update_of_ne (by omega)]
            exact hslot
          · show Function.update s.reg.sessions _ true m = false
            rw [Function.update_of_ne (by omega)]
            exact hfree
        · show (Function.update s.slot _ _ m).session.status = _
          by_cases heq : m = s.reg.counter + 1
          · rw [heq, hfresh] at hne
            exact absurd rfl hne
          · rw [Function.update_of_ne heq]
  | cancel n i => exact call_kept h hstep trivial rfl rfl
  | complete n i => exact call_kept h hstep trivial rfl rfl
  | spawned n i =>
      simp only [oauthStep] at hstep
      split at hstep
      · rename_i hp
        obtain rfl := Option.some.inj hstep
        exact h.slot ⟨spawned_inv (h.slots n) hp, fun _ => rfl⟩ (h.le_of_thread hp) rfl
          fun _ => id
      · contradiction
  | spawnFailed n i e =>
      simp only [oauthStep] at hstep
      split at hstep
      · rename_i hp
        obtain rfl := Option.some.inj hstep
        exact h.slot ⟨spawn_inv (h.slots n) hp nofun rfl nofun rfl, fun _ => rfl⟩
          (h.le_of_thread hp) rfl fun _ => id
      · contradiction
  | chunk n kind text =>
      simp only [oauthStep] at hstep
      split at hstep
      · rename_i hp
        obtain rfl := Option.some.inj hstep
        exact h.slot (chunk_kept (h.slots n) kind text) (h.le_of_thread hp) rfl fun _ => id
      · contradiction
  | childExit n code =>
      simp only [oauthStep] at hstep
      split at hstep
      · rename_i signalled hrun
        obtain rfl := Option.some.inj hstep
        have hne : s.slot n ≠ Slot.fresh := by
          intro heq
          rw [heq] at hrun
          contradiction
        exact h.slot (childExit_kept (h.slots n) (by rw [hrun]; exact nofun)) (h.le_counter hne)
          rfl fun _ => id
      · contradiction
  | step n t =>
      simp only [oauthStep] at hstep
      obtain ⟨p, hp, hstep⟩ := Option.bind_eq_some_iff.mp hstep
      obtain ⟨⟨reg, w⟩, hadv, rfl⟩ := Option.map_eq_some_iff.mp hstep
      have hok : p.orderly (s.slot n).session = true := by
        simpa [orderly, hp] using hok
      obtain ⟨hcounter, hsessions⟩ := advance_registry stderrField sanitize hadv
      exact h.slot (advance_kept (h.slots n) hp hok hadv) (h.le_of_thread hp) hcounter hsessions

theorem oauth_init {s : State} (h : (oauthSystem stderrField sanitize).init s) : s.Inv := by
  rw [show s = _ from h]
  exact ⟨fun _ => fresh_inv, fun _ _ => ⟨rfl, rfl⟩⟩

/-- A status that is not `waiting` stays to the end of the run. -/
theorem status_stays {s s' : State} {as : List Act} (h : s.Inv)
    (hm : (oauthSystem stderrField sanitize).Meets (fun s a => orderly s a = true) s as)
    (hrun : (oauthSystem stderrField sanitize).runFrom s as = some s') (n : Nat)
    (hne : (s.slot n).session.status ≠ .waiting) :
    (s'.slot n).session.status = (s.slot n).session.status := by
  induction as generalizing s with
  | nil =>
      obtain rfl := Option.some.inj hrun
      rfl
  | cons a as ih =>
      obtain ⟨s₁, hstep, hrest⟩ := Option.bind_eq_some_iff.mp hrun
      have hkept := oauth_step stderrField sanitize h hm.1 hstep
      have hsame := hkept.status n hne
      rw [ih hkept.inv (hm.2 s₁ hstep) hrest (by rw [hsame]; exact hne), hsame]

/-- Runs in which no write is overtaken: a session that has left `waiting`
    keeps its status, and every session is safe. -/
theorem oauth_settled {s : State}
    (h : (oauthSystem stderrField sanitize).ReachableIf (fun s a => orderly s a = true) s) :
    (∀ n, (s.slot n).Safe) ∧
      ∀ as s', (oauthSystem stderrField sanitize).Meets (fun s a => orderly s a = true) s as →
        (oauthSystem stderrField sanitize).runFrom s as = some s' →
        ∀ n, (s.slot n).session.status ≠ .waiting →
          (s'.slot n).session.status = (s.slot n).session.status := by
  have hinv : s.Inv := h.invariant (fun _ => oauth_init stderrField sanitize)
    fun _ _ _ hi hok hs => (oauth_step stderrField sanitize hi hok hs).inv
  exact ⟨fun n => (hinv.slots n).safe,
    fun as s' hm hrun => status_stays stderrField sanitize hinv hm hrun⟩

end

-- ============================================================================
-- Runs
-- ============================================================================

/-- Session 1 is registered by call 0, and its child is running. -/
def spawnedRun : List Act := [.start 0, .spawned 1 0]

/-- Call 0 stores the handle and starts the timer. -/
def storedRun : List Act :=
  [.step 1 (.call 0), .step 1 (.call 0), .step 1 (.call 0)]

/-- Call 1 cancels session 1: lookup, check, mark, child. -/
def cancelRun : List Act :=
  [.cancel 1 1, .step 1 (.call 1), .step 1 (.call 1), .step 1 (.call 1), .step 1 (.call 1)]

/-- Call 1 finishes the session and pushes the update. -/
def cancelledRun : List Act :=
  [.step 1 (.call 1), .step 1 (.call 1), .step 1 (.call 1)]

/-- A cancel of a running session. -/
theorem oauth_settled_cancel : ∃ s : State,
    ((s.slot 1).session.status = .cancelled ∧ (s.slot 1).session.child = .running true) ∧
      (s.slot 1).Safe := by
  have hrun : ((oauthSystem id id).runIf orderly State.initial
      (spawnedRun ++ storedRun ++ cancelRun ++ [.step 1 (.call 1)] ++ cancelledRun)).any
        (fun s => (s.slot 1).session.status = .cancelled ∧
          (s.slot 1).session.child = .running true) = true := by
    decide +kernel
  obtain ⟨s, hs, hfin⟩ := (Option.any_eq_true _ _).mp hrun
  exact ⟨s, of_decide_eq_true hfin,
    (oauth_settled id id (System.runIf_reachableIf (.init rfl) hs)).1 1⟩

/-- The child hands over its token and exits, and the waiter reads the
    session. -/
def exitedRun : List Act :=
  [.chunk 1 .stdout "Paste the following into your remote machine --->\x7b\x7d<---End paste".toList,
    .childExit 1 0, .step 1 .waiter, .step 1 .waiter]

/-- A cancel between the waiter's reading and its writing: the cancelled
    session becomes authorized, with its token and a second terminal update.
    And a cancel before `start` stores the handle: every call has returned
    and the timer has run out, and the child runs on. -/
theorem oauth_overtaken :
    (∃ s s' : State, (oauthSystem id id).Reachable s ∧ (s.slot 1).session.status = .cancelled ∧
      (oauthSystem id id).runFrom s [.step 1 .waiter, .step 1 .waiter] = some s' ∧
      (s'.slot 1).session.status = .authorized ∧ (s'.slot 1).session.token ≠ [] ∧
      (terminalUpdates (s'.slot 1).session).length = 2) ∧
    ∃ s : State, (oauthSystem id id).Reachable s ∧ (s.slot 1).session.status = .cancelled ∧
      (s.slot 1).session.child = .running false ∧
      ∀ t ∈ [Thread.call 0, .call 1, .timer], ∃ a, (s.slot 1).pc t = some (.returned a) := by
  constructor
  · have hrun : ((oauthSystem id id).runFrom State.initial
        (spawnedRun ++ storedRun ++ exitedRun ++ cancelRun ++ [.step 1 (.call 1)] ++
          cancelledRun)).any (fun s => (s.slot 1).session.status = .cancelled &&
            ((oauthSystem id id).runFrom s [.step 1 .waiter, .step 1 .waiter]).any fun s' =>
              (s'.slot 1).session.status = .authorized ∧ (s'.slot 1).session.token ≠ [] ∧
                (terminalUpdates (s'.slot 1).session).length = 2) = true := by
      decide +kernel
    obtain ⟨s, hs, hfin⟩ := (Option.any_eq_true _ _).mp hrun
    rw [Bool.and_eq_true, decide_eq_true_eq] at hfin
    obtain ⟨s', hs', hfin'⟩ := (Option.any_eq_true _ _).mp hfin.2
    exact ⟨s, s', System.runFrom_reachable (.init rfl) hs, hfin.1, hs', of_decide_eq_true hfin'⟩
  · have hrun : ((oauthSystem id id).runFrom State.initial
        (spawnedRun ++ cancelRun ++ cancelledRun ++ [.step 1 (.call 1), .step 1 (.call 1)] ++
          storedRun ++ List.replicate 5 (.step 1 (.call 0)) ++
          [.step 1 .timer, .step 1 .timer])).any (fun s =>
            (s.slot 1).session.status = .cancelled ∧ (s.slot 1).session.child = .running false ∧
              ∀ t ∈ [Thread.call 0, .call 1, .timer],
                ((s.slot 1).pc t).any (·.isReturned) = true) = true := by
      decide +kernel
    obtain ⟨s, hs, hfin⟩ := (Option.any_eq_true _ _).mp hrun
    obtain ⟨hcan, hchild, hpcs⟩ := of_decide_eq_true hfin
    refine ⟨s, System.runFrom_reachable (.init rfl) hs, hcan, hchild, fun t ht => ?_⟩
    obtain ⟨p, hp, hret⟩ := (Option.any_eq_true _ _).mp (hpcs t ht)
    cases p with
    | returned a => exact ⟨a, hp⟩
    | _ => contradiction

end GnDrive.OAuth
