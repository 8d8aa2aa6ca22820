/-
  GnDrive.Lib.RunLog

  Runs that are registered under a lock and announced after it is released.

  An owner has at most one registered run.  The thread of a run announces that
  it has started, then whatever it does, and, once it has taken itself out of
  the registry, how it ended; other threads mark the registered run as to be
  stopped and then announce that.  Each change of the registry and each
  announcement is a step of its own, so announcements can come in another order
  than the changes they are about.

  `phase` reads a log of announcements and fails where they are out of order.
  `logs_ordered` gives a condition on the steps, `InTurn`, under which the log
  of every owner is in order.
-/

import GnDrive.Lib.System
import Mathlib.Logic.Function.Basic

namespace GnDrive.RunLog

-- ============================================================================
-- Logs in order
-- ============================================================================

/-- What is announced of a run. -/
inductive Entry (E R : Type) where
  | started
  | other (e : E)
  | stopping
  | ended (r : R)
deriving DecidableEq

inductive Phase where
  | idle
  | running (r : Nat)
  | stopping (r : Nat)
deriving DecidableEq

variable {O E R : Type} [DecidableEq O]

/-- A run starts when no other is under way, is stopped at most once, and ends
    once. -/
def Phase.next : Phase → Nat → Entry E R → Option Phase
  | .idle, r, .started => some (.running r)
  | .running q, r, .other _ => if r = q then some (.running q) else none
  | .running q, r, .stopping => if r = q then some (.stopping q) else none
  | .running q, r, .ended _ => if r = q then some .idle else none
  | .stopping q, r, .other _ => if r = q then some (.stopping q) else none
  | .stopping q, r, .ended _ => if r = q then some .idle else none
  | _, _, _ => none

/-- The run that is under way. -/
def Phase.run : Phase → Option Nat
  | .idle => none
  | .running r | .stopping r => some r

def phase (log : List (Nat × Entry E R)) : Option Phase :=
  log.foldl (fun p x => p.bind fun p => p.next x.1 x.2) (some .idle)

@[simp] theorem phase_nil : phase ([] : List (Nat × Entry E R)) = some .idle := rfl

@[simp] theorem phase_concat (log : List (Nat × Entry E R)) (x : Nat × Entry E R) :
    phase (log ++ [x]) = (phase log).bind fun p => p.next x.1 x.2 := by
  simp [phase, List.foldl_append]

section

variable {p : Phase} {r : Nat}

theorem next_started (h : p.run = none) :
    p.next r (.started : Entry E R) = some (.running r) := by
  cases p with
  | idle => rfl
  | running q | stopping q => cases h

theorem next_other {e : E} (h : p.run = some r) : p.next r (.other e : Entry E R) = some p := by
  cases p with
  | idle => cases h
  | running q | stopping q =>
    obtain rfl := Option.some.inj h
    exact if_pos rfl

theorem next_stopping (h : p.run = some r) (hp : p ≠ .stopping r) :
    p.next r (.stopping : Entry E R) = some (.stopping r) := by
  cases p with
  | idle => cases h
  | running q =>
    obtain rfl := Option.some.inj h
    exact if_pos rfl
  | stopping q =>
    obtain rfl := Option.some.inj h
    exact absurd rfl hp

theorem next_ended {res : R} (h : p.run = some r) :
    p.next r (.ended res : Entry E R) = some .idle := by
  cases p with
  | idle => cases h
  | running q | stopping q =>
    obtain rfl := Option.some.inj h
    exact if_pos rfl

end

-- ============================================================================
-- Registry, threads and log
-- ============================================================================

/-- Where the thread of a run is. -/
inductive Point (R : Type) where
  | registered
  | running
  | ending (r : R)
  | over
deriving DecidableEq

def Point.isOpen : Point R → Bool
  | .registered | .running => true
  | _ => false

def Point.isUnder : Point R → Bool
  | .running | .ending _ => true
  | _ => false

structure Runs (O E R : Type) where
  /-- The registered run, and whether it is marked. -/
  live : O → Option (Nat × Bool)
  run : Nat → Option (O × Point R)
  /-- Threads that have marked a run and not announced it. -/
  stops : Nat → Option (O × Nat)
  log : List (O × Nat × Entry E R)

inductive Act (O E R : Type) where
  | register (o : O) (r : Nat)
  | started (r : Nat)
  | other (r : Nat) (e : E)
  | finish (r : Nat) (res : R)
  | ended (r : Nat)
  | stop (j : Nat) (o : O)
  | stopping (j : Nat)

namespace Runs

def empty : Runs O E R := ⟨fun _ => none, fun _ => none, fun _ => none, []⟩

def setRun (s : Runs O E R) (r : Nat) (o : O) (pt : Point R) : Runs O E R :=
  { s with run := Function.update s.run r (some (o, pt)) }

def announce (s : Runs O E R) (o : O) (r : Nat) (x : Entry E R) : Runs O E R :=
  { s with log := s.log ++ [(o, r, x)] }

/-- What has been announced of the owner's runs. -/
def logOf (s : Runs O E R) (o : O) : List (Nat × Entry E R) :=
  (s.log.filter fun x => x.1 = o).map (·.2)

def step (s : Runs O E R) : Act O E R → Option (Runs O E R)
  | .register o r =>
      if (s.live o).isSome || (s.run r).isSome then none
      else some ({ s with live := Function.update s.live o (some (r, false)) }.setRun r o .registered)
  | .started r =>
      match s.run r with
      | some (o, .registered) => some ((s.setRun r o .running).announce o r .started)
      | _ => none
  | .other r e =>
      match s.run r with
      | some (o, .running) => some (s.announce o r (.other e))
      | _ => none
  | .finish r res =>
      match s.run r with
      | some (o, .running) =>
          some ({ s with live := Function.update s.live o none }.setRun r o (.ending res))
      | _ => none
  | .ended r =>
      match s.run r with
      | some (o, .ending res) => some ((s.setRun r o .over).announce o r (.ended res))
      | _ => none
  | .stop j o =>
      if (s.stops j).isSome then none
      else (s.live o).map fun x =>
        { s with
          live := Function.update s.live o (some (x.1, true)),
          stops := Function.update s.stops j (some (o, x.1)) }
  | .stopping j =>
      (s.stops j).map fun x =>
        { s with stops := Function.update s.stops j none }.announce x.1 x.2 .stopping

end Runs

def runSystem : System (Runs O E R) (Act O E R) where
  init s := s = .empty
  step := Runs.step

section

variable {s : Runs O E R} {o : O} {r j : Nat}

theorem step_register (ho : s.live o = none) (hr : s.run r = none) :
    s.step (.register o r) =
      some ({ s with live := Function.update s.live o (some (r, false)) }.setRun r o .registered) := by
  simp [Runs.step, ho, hr]

theorem step_started (h : s.run r = some (o, .registered)) :
    s.step (.started r) = some ((s.setRun r o .running).announce o r .started) := by
  simp only [Runs.step, h]

theorem step_other {e : E} (h : s.run r = some (o, .running)) :
    s.step (.other r e) = some (s.announce o r (.other e)) := by
  simp only [Runs.step, h]

theorem step_finish {res : R} (h : s.run r = some (o, .running)) :
    s.step (.finish r res) =
      some ({ s with live := Function.update s.live o none }.setRun r o (.ending res)) := by
  simp only [Runs.step, h]

theorem step_ended {res : R} (h : s.run r = some (o, .ending res)) :
    s.step (.ended r) = some ((s.setRun r o .over).announce o r (.ended res)) := by
  simp only [Runs.step, h]

theorem step_stop {b : Bool} (hj : s.stops j = none) (ho : s.live o = some (r, b)) :
    s.step (.stop j o) = some { s with
      live := Function.update s.live o (some (r, true)),
      stops := Function.update s.stops j (some (o, r)) } := by
  simp [Runs.step, hj, ho]

theorem step_stopping (hj : s.stops j = some (o, r)) :
    s.step (.stopping j) =
      some ({ s with stops := Function.update s.stops j none }.announce o r .stopping) := by
  simp [Runs.step, hj]

end

/-- A start is announced only when every earlier run has announced its end; a
    run that is marked is not marked again; a stop is announced only after the
    start of its run, and the end of a run only after its stops. -/
def InTurn (s : Runs O E R) : Act O E R → Prop
  | .started r => ∀ o q res, s.run r = some (o, .registered) → s.run q ≠ some (o, .ending res)
  | .ended r => ∀ j o, s.stops j ≠ some (o, r)
  | .stop _ o => ∀ r, s.live o ≠ some (r, true)
  | .stopping j => ∀ o r, s.stops j = some (o, r) → s.run r ≠ some (o, .registered)
  | _ => True

-- ============================================================================
-- The invariant
-- ============================================================================

namespace Runs

/-- The run is registered. -/
def Open (s : Runs O E R) (o : O) (r : Nat) : Prop := ∃ pt, s.run r = some (o, pt) ∧ pt.isOpen

/-- The run has announced its start and not its end. -/
def Under (s : Runs O E R) (o : O) (r : Nat) : Prop := ∃ pt, s.run r = some (o, pt) ∧ pt.isUnder

/-- The log of the owner is in order and in the phase `p`. -/
structure InPhase (s : Runs O E R) (o : O) (p : Phase) : Prop where
  phase : phase (s.logOf o) = some p
  under : ∀ r, s.Under o r ↔ p.run = some r
  /-- A run whose stop is announced is marked, and no other stop of it is to come. -/
  stopping : ∀ r, p = .stopping r → s.live o ≠ some (r, false) ∧ ∀ j, s.stops j ≠ some (o, r)

structure Sound (s : Runs O E R) : Prop where
  live : ∀ o r b, s.live o = some (r, b) → s.Open o r
  registered : ∀ o r, s.Open o r → s.live o = some (r, false) ∨ s.live o = some (r, true)
  stops : ∀ j o r, s.stops j = some (o, r) →
    s.live o ≠ some (r, false) ∧ (s.Open o r ∨ s.Under o r)
  single : ∀ i j o r, s.stops i = some (o, r) → s.stops j = some (o, r) → i = j
  inPhase : ∀ o, ∃ p, s.InPhase o p

end Runs

section

variable {s s' : Runs O E R} {o : O} {r : Nat} {a : Act O E R}

theorem logOf_concat {x : Entry E R} (h : s'.log = s.log ++ [(o, r, x)]) (o' : O) :
    s'.logOf o' = if o' = o then s.logOf o' ++ [(r, x)] else s.logOf o' := by
  unfold Runs.logOf
  rw [h, List.filter_append, List.map_append]
  by_cases ho : o' = o
  · subst ho
    simp
  · simp [ho, Ne.symm ho]

/-- What a step does, field by field. -/
inductive Effect (s : Runs O E R) : Act O E R → Runs O E R → Prop where
  | register {s' : Runs O E R} {o : O} {r : Nat} : s.live o = none → s.run r = none →
      (∀ o', s'.live o' = if o' = o then some (r, false) else s.live o') →
      (∀ q, s'.run q = if q = r then some (o, .registered) else s.run q) →
      (∀ j, s'.stops j = s.stops j) → s'.log = s.log → Effect s (.register o r) s'
  | started {s' : Runs O E R} {o : O} {r : Nat} : s.run r = some (o, .registered) →
      (∀ o', s'.live o' = s.live o') → (∀ q, s'.run q = if q = r then some (o, .running) else s.run q) →
      (∀ j, s'.stops j = s.stops j) → s'.log = s.log ++ [(o, r, .started)] → Effect s (.started r) s'
  | other {s' : Runs O E R} {o : O} {r : Nat} {e : E} : s.run r = some (o, .running) →
      (∀ o', s'.live o' = s.live o') → (∀ q, s'.run q = s.run q) → (∀ j, s'.stops j = s.stops j) →
      s'.log = s.log ++ [(o, r, .other e)] → Effect s (.other r e) s'
  | finish {s' : Runs O E R} {o : O} {r : Nat} {res : R} : s.run r = some (o, .running) →
      (∀ o', s'.live o' = if o' = o then none else s.live o') →
      (∀ q, s'.run q = if q = r then some (o, .ending res) else s.run q) →
      (∀ j, s'.stops j = s.stops j) → s'.log = s.log → Effect s (.finish r res) s'
  | ended {s' : Runs O E R} {o : O} {r : Nat} {res : R} : s.run r = some (o, .ending res) →
      (∀ o', s'.live o' = s.live o') → (∀ q, s'.run q = if q = r then some (o, .over) else s.run q) →
      (∀ j, s'.stops j = s.stops j) → s'.log = s.log ++ [(o, r, .ended res)] → Effect s (.ended r) s'
  | stop {s' : Runs O E R} {o : O} {r j : Nat} {b : Bool} : s.stops j = none →
      s.live o = some (r, b) → (∀ o', s'.live o' = if o' = o then some (r, true) else s.live o') →
      (∀ q, s'.run q = s.run q) → (∀ i, s'.stops i = if i = j then some (o, r) else s.stops i) →
      s'.log = s.log → Effect s (.stop j o) s'
  | stopping {s' : Runs O E R} {o : O} {r j : Nat} : s.stops j = some (o, r) → (∀ o', s'.live o' = s.live o') →
      (∀ q, s'.run q = s.run q) → (∀ i, s'.stops i = if i = j then none else s.stops i) →
      s'.log = s.log ++ [(o, r, .stopping)] → Effect s (.stopping j) s'

theorem step_effect (hs : s.step a = some s') : Effect s a s' := by
  cases a with
  | register o r =>
    simp only [Runs.step] at hs
    split at hs <;> cases hs
    rename_i hfree
    simp only [Bool.or_eq_true, not_or, Bool.not_eq_true, Option.isSome_eq_false_iff,
      Option.isNone_iff_eq_none] at hfree
    exact .register hfree.1 hfree.2 (fun _ => Function.update_apply _ _ _ _)
      (fun _ => Function.update_apply _ _ _ _) (fun _ => rfl) rfl
  | started r =>
    simp only [Runs.step] at hs
    split at hs <;> cases hs
    rename_i hr
    exact .started hr (fun _ => rfl) (fun _ => Function.update_apply _ _ _ _) (fun _ => rfl) rfl
  | other r e =>
    simp only [Runs.step] at hs
    split at hs <;> cases hs
    rename_i hr
    exact .other hr (fun _ => rfl) (fun _ => rfl) (fun _ => rfl) rfl
  | finish r res =>
    simp only [Runs.step] at hs
    split at hs <;> cases hs
    rename_i hr
    exact .finish hr (fun _ => Function.update_apply _ _ _ _)
      (fun _ => Function.update_apply _ _ _ _) (fun _ => rfl) rfl
  | ended r =>
    simp only [Runs.step] at hs
    split at hs <;> cases hs
    rename_i hr
    exact .ended hr (fun _ => rfl) (fun _ => Function.update_apply _ _ _ _) (fun _ => rfl) rfl
  | stop j o =>
    simp only [Runs.step] at hs
    split at hs
    · cases hs
    · rename_i hfree
      obtain ⟨⟨r, b⟩, hlive, rfl⟩ := Option.map_eq_some_iff.mp hs
      exact .stop (by simpa using hfree) hlive (fun _ => Function.update_apply _ _ _ _)
        (fun _ => rfl) (fun _ => Function.update_apply _ _ _ _) rfl
  | stopping j =>
    obtain ⟨⟨o, r⟩, hj, rfl⟩ := Option.map_eq_some_iff.mp hs
    exact .stopping hj (fun _ => rfl) (fun _ => rfl) (fun _ => Function.update_apply _ _ _ _) rfl

theorem Runs.InPhase.under_of_stopping {p : Phase} (h : s.InPhase o p) (q : Nat)
    (hp : p = .stopping q) : s.Under o q := (h.under q).mpr (by rw [hp]; rfl)

/-- An owner has one registered run. -/
theorem Runs.Sound.eq_of_open (h : s.Sound) {o : O} {r q : Nat} (hr : s.Open o r)
    (hq : s.Open o q) : r = q := by
  have hr := h.registered o r hr
  have hq := h.registered o q hq
  grind

theorem sound_empty : (Runs.empty : Runs O E R).Sound where
  live _ _ _ h := by cases h
  registered _ _ h := by
    obtain ⟨pt, h, -⟩ := h
    cases h
  stops _ _ _ h := by cases h
  single _ _ _ _ h := by cases h
  inPhase o := by
    refine ⟨.idle, rfl, fun r => ⟨fun h => ?_, fun h => ?_⟩, fun r h => ?_⟩
    · obtain ⟨pt, h, -⟩ := h
      cases h
    · cases h
    · cases h

omit [DecidableEq O] in
theorem open_at {pt : Point R} (h : s.run r = some (o, pt)) (o' : O) :
    s.Open o' r ↔ o' = o ∧ pt.isOpen := by
  simp only [Runs.Open, h, Option.some.injEq, Prod.mk.injEq]
  constructor
  · rintro ⟨pt', ⟨rfl, rfl⟩, hpt⟩
    exact ⟨rfl, hpt⟩
  · rintro ⟨rfl, hpt⟩
    exact ⟨pt, ⟨rfl, rfl⟩, hpt⟩

omit [DecidableEq O] in
theorem under_at {pt : Point R} (h : s.run r = some (o, pt)) (o' : O) :
    s.Under o' r ↔ o' = o ∧ pt.isUnder := by
  simp only [Runs.Under, h, Option.some.injEq, Prod.mk.injEq]
  constructor
  · rintro ⟨pt', ⟨rfl, rfl⟩, hpt⟩
    exact ⟨rfl, hpt⟩
  · rintro ⟨rfl, hpt⟩
    exact ⟨pt, ⟨rfl, rfl⟩, hpt⟩

omit [DecidableEq O] in
/-- What a change of one thread does to the runs. -/
theorem open_set {pt : Point R} (h : ∀ q, s'.run q = if q = r then some (o, pt) else s.run q)
    (o' : O) (q : Nat) : s'.Open o' q ↔ if q = r then o' = o ∧ pt.isOpen else s.Open o' q := by
  by_cases hq : q = r
  · subst hq
    rw [if_pos rfl]
    exact open_at (by rw [h, if_pos rfl]) o'
  · rw [if_neg hq, Runs.Open, h, if_neg hq, Runs.Open]

omit [DecidableEq O] in
theorem under_set {pt : Point R} (h : ∀ q, s'.run q = if q = r then some (o, pt) else s.run q)
    (o' : O) (q : Nat) : s'.Under o' q ↔ if q = r then o' = o ∧ pt.isUnder else s.Under o' q := by
  by_cases hq : q = r
  · subst hq
    rw [if_pos rfl]
    exact under_at (by rw [h, if_pos rfl]) o'
  · rw [if_neg hq, Runs.Under, h, if_neg hq, Runs.Under]

/-- Step lemma. -/
theorem Runs.Sound.step (h : s.Sound) (hok : InTurn s a) (hs : s.step a = some s') : s'.Sound := by
  have hone := @Runs.Sound.eq_of_open _ _ _ _ s h
  obtain ⟨hlive, hreg, hstops, hsingle, hphase⟩ := h
  cases step_effect hs with
  | @register _ o r ho hr hlive' hrun' hstops' hlog' =>
    have hopen := open_set hrun'
    have hunder := under_set hrun'
    have hno : ∀ o', ¬ s.Open o' r ∧ ¬ s.Under o' r := by
      simp [Runs.Open, Runs.Under, hr]
    simp only [Point.isOpen, Point.isUnder] at hopen hunder
    refine ⟨by grind, by grind, by grind, by grind, fun o' => ?_⟩
    obtain ⟨p, hp⟩ := hphase o'
    have hstop := hp.under_of_stopping
    obtain ⟨hp, hpu, hps⟩ := hp
    exact ⟨p, by simpa only [Runs.logOf, hlog'] using hp, by grind, by grind⟩
  | @started _ o r hr hlive' hrun' hstops' hlog' =>
    have hopen := open_set hrun'
    have hunder := under_set hrun'
    have hno := open_at hr
    have hnu := under_at hr
    simp only [Point.isOpen, Point.isUnder] at hopen hunder hno hnu
    refine ⟨by grind, by grind, by grind, by grind, fun o' => ?_⟩
    obtain ⟨p, hp, hpu, hps⟩ := hphase o'
    have hlog := logOf_concat hlog' o'
    by_cases ho : o' = o
    · subst ho
      rw [if_pos rfl] at hlog
      -- a run under way is registered, or about to announce its end
      have hidle : p.run = none := by
        cases hq : p.run with
        | none => rfl
        | some q =>
          obtain ⟨pt, hpt, hisUnder⟩ := (hpu q).mpr hq
          cases pt with
          | running =>
            have hrq := hone ((hno o').mpr ⟨rfl, trivial⟩) ((open_at hpt o').mpr ⟨rfl, rfl⟩)
            rw [hrq, hpt] at hr
            cases hr
          | ending res => exact absurd hpt (hok o' q res hr)
          | _ => cases hisUnder
      refine ⟨.running r, ?_, by grind [Phase.run], by simp⟩
      rw [hlog, phase_concat, hp]
      exact next_started hidle
    · rw [if_neg ho] at hlog
      exact ⟨p, by rw [hlog]; exact hp, by grind, by grind⟩
  | @other _ o r e hr hlive' hrun' hstops' hlog' =>
    have hopen : ∀ o' q, s'.Open o' q ↔ s.Open o' q := by simp [Runs.Open, hrun']
    have hunder : ∀ o' q, s'.Under o' q ↔ s.Under o' q := by simp [Runs.Under, hrun']
    have hnu := under_at hr
    simp only [Point.isUnder] at hnu
    refine ⟨by grind, by grind, by grind, by grind, fun o' => ?_⟩
    obtain ⟨p, hp, hpu, hps⟩ := hphase o'
    have hlog := logOf_concat hlog' o'
    by_cases ho : o' = o
    · subst ho
      rw [if_pos rfl] at hlog
      refine ⟨p, ?_, by grind, by grind⟩
      rw [hlog, phase_concat, hp]
      exact next_other ((hpu r).mp ((hnu o').mpr ⟨rfl, trivial⟩))
    · rw [if_neg ho] at hlog
      exact ⟨p, by rw [hlog]; exact hp, by grind, by grind⟩
  | @finish _ o r res hr hlive' hrun' hstops' hlog' =>
    have hopen := open_set hrun'
    have hunder := under_set hrun'
    have hno := open_at hr
    have hnu := under_at hr
    simp only [Point.isOpen, Point.isUnder] at hopen hunder hno hnu
    have hregistered : s.Open o r := (hno o).mpr ⟨rfl, trivial⟩
    refine ⟨by grind, by grind, by grind, by grind, fun o' => ?_⟩
    obtain ⟨p, hp, hpu, hps⟩ := hphase o'
    exact ⟨p, by simpa only [Runs.logOf, hlog'] using hp, by grind, by grind⟩
  | @ended _ o r res hr hlive' hrun' hstops' hlog' =>
    have hopen := open_set hrun'
    have hunder := under_set hrun'
    have hno := open_at hr
    have hnu := under_at hr
    simp only [Point.isOpen, Point.isUnder] at hopen hunder hno hnu
    simp only [InTurn] at hok
    refine ⟨by grind, by grind, by grind, by grind, fun o' => ?_⟩
    obtain ⟨p, hp, hpu, hps⟩ := hphase o'
    have hlog := logOf_concat hlog' o'
    by_cases ho : o' = o
    · subst ho
      rw [if_pos rfl] at hlog
      have hrun : p.run = some r := (hpu r).mp ((hnu o').mpr ⟨rfl, trivial⟩)
      refine ⟨.idle, ?_, by grind [Phase.run], by simp⟩
      rw [hlog, phase_concat, hp]
      exact next_ended hrun
    · rw [if_neg ho] at hlog
      exact ⟨p, by rw [hlog]; exact hp, by grind, by grind⟩
  | @stop _ o r j b hj ho hlive' hrun' hstops' hlog' =>
    have hopen : ∀ o' q, s'.Open o' q ↔ s.Open o' q := by simp [Runs.Open, hrun']
    have hunder : ∀ o' q, s'.Under o' q ↔ s.Under o' q := by simp [Runs.Under, hrun']
    simp only [InTurn] at hok
    refine ⟨by grind, by grind, by grind, by grind, fun o' => ?_⟩
    obtain ⟨p, hp, hpu, hps⟩ := hphase o'
    exact ⟨p, by simpa only [Runs.logOf, hlog'] using hp, by grind, by grind⟩
  | @stopping _ o r j hj hlive' hrun' hstops' hlog' =>
    have hopen : ∀ o' q, s'.Open o' q ↔ s.Open o' q := by simp [Runs.Open, hrun']
    have hunder : ∀ o' q, s'.Under o' q ↔ s.Under o' q := by simp [Runs.Under, hrun']
    have hmarked := (hstops j o r hj).1
    -- the run has announced its start
    have hannounced : s.Under o r := by
      refine (hstops j o r hj).2.elim (fun hop => ?_) id
      obtain ⟨pt, hpt, hisOpen⟩ := hop
      cases pt with
      | registered => exact absurd hpt (hok o r hj)
      | running => exact ⟨.running, hpt, rfl⟩
      | _ => cases hisOpen
    refine ⟨by grind, by grind, by grind, by grind, fun o' => ?_⟩
    obtain ⟨p, hp, hpu, hps⟩ := hphase o'
    have hlog := logOf_concat hlog' o'
    by_cases ho : o' = o
    · subst ho
      rw [if_pos rfl] at hlog
      have hrun : p.run = some r := (hpu r).mp hannounced
      refine ⟨.stopping r, ?_, by grind [Phase.run], by grind⟩
      rw [hlog, phase_concat, hp]
      exact next_stopping hrun fun hstop => (hps r hstop).2 j hj
    · rw [if_neg ho] at hlog
      exact ⟨p, by rw [hlog]; exact hp, by grind, by grind⟩

theorem sound (h : runSystem.ReachableIf InTurn s) : s.Sound := by
  refine h.invariant ?_ fun _ _ _ hp hok hs => hp.step hok hs
  rintro _ rfl
  exact sound_empty

/-- In runs whose steps are in turn the log of every owner is in order. -/
theorem logs_ordered (h : runSystem.ReachableIf InTurn s) (o : O) : (phase (s.logOf o)).isSome := by
  obtain ⟨p, hp, -⟩ := (sound h).inPhase o
  rw [hp]
  rfl

-- ============================================================================
-- Starts and ends
-- ============================================================================

def Entry.isStart : Entry E R → Bool
  | .started => true
  | _ => false

def Entry.isEnd : Entry E R → Bool
  | .ended _ => true
  | _ => false

/-- How often an entry of the kind is announced of the run. -/
def Runs.count (s : Runs O E R) (kind : Entry E R → Bool) (r : Nat) : Nat :=
  s.log.countP fun x => x.2.1 == r && kind x.2.2

def Point.starts : Option (O × Point R) → Nat
  | none | some (_, .registered) => 0
  | _ => 1

def Point.ends : Option (O × Point R) → Nat
  | some (_, .over) => 1
  | _ => 0

omit [DecidableEq O] in
theorem count_concat {kind : Entry E R → Bool} {q : Nat} {x : Entry E R}
    (h : s'.log = s.log ++ [(o, q, x)]) :
    s'.count kind r = s.count kind r + if q == r && kind x then 1 else 0 := by
  simp only [Runs.count, h, List.countP_append, List.countP_singleton]

/-- Every run announces its start and its end once. -/
def Counted (s : Runs O E R) : Prop :=
  ∀ r, s.count Entry.isStart r = Point.starts (s.run r) ∧
    s.count Entry.isEnd r = Point.ends (s.run r)

theorem counted_step (h : Counted s) (hs : s.step a = some s') : Counted s' := by
  intro q
  obtain ⟨hstart, hend⟩ := h q
  cases step_effect hs with
  | @register _ o r ho hr hlive' hrun' hstops' hlog' =>
    simp only [Runs.count, hlog'] at hstart hend ⊢
    rw [hstart, hend, hrun']
    by_cases hq : q = r
    · subst hq
      simp [hr, Point.starts, Point.ends]
    · simp [hq]
  | @started _ o r hr hlive' hrun' hstops' hlog' =>
    rw [count_concat hlog', count_concat hlog', hstart, hend, hrun']
    by_cases hq : q = r
    · subst hq
      simp [hr, Point.starts, Point.ends, Entry.isStart, Entry.isEnd]
    · simp [hq, Ne.symm hq]
  | @other _ o r e hr hlive' hrun' hstops' hlog' =>
    rw [count_concat hlog', count_concat hlog', hstart, hend, hrun']
    simp [Entry.isStart, Entry.isEnd]
  | @finish _ o r res hr hlive' hrun' hstops' hlog' =>
    simp only [Runs.count, hlog'] at hstart hend ⊢
    rw [hstart, hend, hrun']
    by_cases hq : q = r
    · subst hq
      simp [hr, Point.starts, Point.ends]
    · simp [hq]
  | @ended _ o r res hr hlive' hrun' hstops' hlog' =>
    rw [count_concat hlog', count_concat hlog', hstart, hend, hrun']
    by_cases hq : q = r
    · subst hq
      simp [hr, Point.starts, Point.ends, Entry.isStart, Entry.isEnd]
    · simp [hq, Ne.symm hq]
  | @stop _ o r j b hj ho hlive' hrun' hstops' hlog' =>
    simp only [Runs.count, hlog'] at hstart hend ⊢
    rw [hstart, hend, hrun']
    exact ⟨rfl, rfl⟩
  | @stopping _ o r j hj hlive' hrun' hstops' hlog' =>
    rw [count_concat hlog', count_concat hlog', hstart, hend, hrun']
    simp [Entry.isStart, Entry.isEnd]

/-- A run that is over has announced one start and one end. -/
theorem announced_once (h : runSystem.Reachable s) (hr : s.run r = some (o, .over)) :
    s.count Entry.isStart r = 1 ∧ s.count Entry.isEnd r = 1 := by
  have hcounted : Counted s := by
    refine System.Reachable.invariant (P := Counted) ?_ (fun _ _ _ hp hs => counted_step hp hs) h
    rintro _ rfl q
    exact ⟨rfl, rfl⟩
  have hq := hcounted r
  rwa [hr] at hq

end

end GnDrive.RunLog
