/-
  GnDrive.InstanceLock

  The lock of the config directory (`instance_lock.rs`) and any number of lockers that
  take it and give it back, in processes that can be killed at any moment.

  A step is one system call of one locker.  `flock` belongs to an open file, of which each
  locker has one of its own; what is left of it when a process ends or the file is closed
  is dropped.  `single_instance` holds in every state that is reached: what a locker does
  to the pid file it does under the lock, from the new pid file on its temporary name to
  the removal before the unlock.

  Permission bits are left out.  A second `release` finds no file and does nothing.
-/

import GnDrive.Lib.Ints
import GnDrive.Lib.System
import Mathlib.Logic.Function.Basic

namespace GnDrive.InstanceLock

open Text (trim)

-- ============================================================================
-- Lockers
-- ============================================================================

/-- Where a locker is.  From `creating` on it has the lock. -/
inductive Pc where
  | idle
  | opening
  | locking
  /-- `flock` was refused, and the file is closed. -/
  | refused
  /-- `AnotherInstance`, with the pid that was read. -/
  | conflict (pid : Option Int)
  | creating
  | writing
  | moving
  | held
  /-- In `release`. -/
  | releasing
  | removing
  | unlocking
  | released
  /-- The lock was taken, but the pid file was not written. -/
  | closing
  | failed
  /-- The process was killed. -/
  | dead
deriving DecidableEq

def Pc.locked : Pc → Bool
  | .creating | .writing | .moving | .held | .releasing | .removing | .unlocking | .closing =>
      true
  | _ => false

/-- An acquire that has not got the lock, and will not get it if it was refused. -/
def Pc.without : Pc → Bool
  | .idle | .opening | .locking | .refused | .conflict _ => true
  | _ => false

/-- The directory and the lockers.  `touched` are the lockers that have changed the lock or
    the pid file, and `rewritten` tells that somebody else has written the pid file since a
    locker put it there. -/
structure State (L : Type) where
  dir : Bool
  lockFile : Bool
  pidFile : Option Text
  /-- `gn-drive.pid.tmp` -/
  tmp : Option Text
  /-- The locker whose open file has the lock. -/
  flock : Option L
  pc : L → Pc
  touched : L → Bool
  rewritten : Bool

inductive Act (L P : Type) where
  /-- The next system call of a locker, which goes through or not; `n` are the characters
      that a failing write gets to the file. -/
  | step (i : L) (ok : Bool) (n : Nat)
  | release (i : L)
  | kill (p : P)
  /-- Somebody else writes or removes the pid file. -/
  | rewrite (content : Option Text)

def readPid (file : Option Text) : Int := (file.bind fun s => parseInt IsI32 (trim s)).getD 0

section

variable {L P : Type} [DecidableEq L] [DecidableEq P] (procOf : L → P)
  (pidOf : P → { n : Int // IsI32 n })

def pidText (i : L) : Text := intDigits (pidOf (procOf i)).val

namespace State

variable (s : State L)

def goto (i : L) (pc : Pc) : State L := { s with pc := Function.update s.pc i pc }

/-- The next call of a locker in `acquire` or `release`. -/
def call (i : L) (ok : Bool) (n : Nat) : Option (State L) :=
  match s.pc i with
  | .idle =>
      some (if ok then { s with dir := true }.goto i .opening else s.goto i .failed)
  | .opening =>
      some (if ok then { s with lockFile := true }.goto i .locking else s.goto i .failed)
  | .locking =>
      some (if ok ∧ s.flock = none then { s with flock := some i }.goto i .creating
        else s.goto i .refused)
  | .refused =>
      let existing := readPid s.pidFile
      some (s.goto i (.conflict (if 0 < existing then some existing else none)))
  | .creating =>
      some (if ok then { s with tmp := some [] }.goto i .writing else s.goto i .closing)
  | .writing =>
      some (if ok then { s with tmp := some (pidText procOf pidOf i) }.goto i .moving
        else { s with tmp := some ((pidText procOf pidOf i).take n) }.goto i .closing)
  | .moving =>
      some (if ok then { s with pidFile := s.tmp, tmp := none, rewritten := false }.goto i .held
        else s.goto i .closing)
  | .releasing =>
      some (s.goto i
        (if readPid s.pidFile = (pidOf (procOf i)).val then .removing else .unlocking))
  | .removing =>
      some ((if ok then { s with pidFile := none } else s).goto i .unlocking)
  | .unlocking => some ({ s with flock := none }.goto i .released)
  | .closing => some ({ s with flock := none }.goto i .failed)
  | .held | .conflict _ | .released | .failed | .dead => none

/-- Put on record whether a locker has changed the lock or the pid file. -/
def mark (i : L) (s' : State L) : State L :=
  if s'.flock = s.flock ∧ s'.pidFile = s.pidFile then s'
  else { s' with touched := Function.update s'.touched i true }

end State

/-- The lockers of a killed process are gone, and the lock with them. -/
def kill (p : P) (s : State L) : State L :=
  { s with
    flock := if s.flock.any (procOf · = p) then none else s.flock
    pc i := if procOf i = p then .dead else s.pc i }

/-- Any directory, with files an earlier process may have left, and no locker yet. -/
def lockSystem : System (State L) (Act L P) where
  init s := s.flock = none ∧ (∀ i, s.pc i = .idle) ∧ ∀ i, s.touched i = false
  step s
    | .step i ok n => (s.call procOf pidOf i ok n).map (s.mark i)
    | .release i => if s.pc i = .held then some (s.goto i .releasing) else none
    | .kill p => some (kill procOf p s)
    | .rewrite content => some { s with pidFile := content, rewritten := true }

end

-- ============================================================================
-- What a step keeps
-- ============================================================================

section

variable {L P : Type} [DecidableEq L] [DecidableEq P] {procOf : L → P}
  {pidOf : P → { n : Int // IsI32 n }} {s s' : State L} {i j : L}

@[simp] theorem mark_pc : (s.mark i s').pc = s'.pc := by
  unfold State.mark
  split <;> rfl

@[simp] theorem mark_flock : (s.mark i s').flock = s'.flock := by
  unfold State.mark
  split <;> rfl

@[simp] theorem mark_tmp : (s.mark i s').tmp = s'.tmp := by
  unfold State.mark
  split <;> rfl

@[simp] theorem mark_pidFile : (s.mark i s').pidFile = s'.pidFile := by
  unfold State.mark
  split <;> rfl

@[simp] theorem mark_rewritten : (s.mark i s').rewritten = s'.rewritten := by
  unfold State.mark
  split <;> rfl

theorem mark_touched_of_ne (h : j ≠ i) : (s.mark i s').touched j = s'.touched j := by
  unfold State.mark
  split
  · rfl
  · exact Function.update_of_ne h ..

/-- A locker that changes neither is not put on record. -/
theorem mark_touched_same (hlock : s'.flock = s.flock) (hpid : s'.pidFile = s.pidFile) :
    (s.mark i s').touched = s'.touched := by
  rw [State.mark, if_pos ⟨hlock, hpid⟩]

variable (procOf pidOf) in
/-- A locker past `flock` has the lock; one that is about to rename has its pid on the
    temporary name, and one that holds the directory has it in the pid file. -/
structure Inv (s : State L) : Prop where
  lock : ∀ i, (s.pc i).locked = true → s.flock = some i
  fresh : ∀ i, (s.pc i).without = true → s.touched i = false
  tmp : ∀ i, s.pc i = .moving → s.tmp = some (pidText procOf pidOf i)
  pid : ∀ i, s.pc i = .held → s.rewritten = false → s.pidFile = some (pidText procOf pidOf i)

omit [DecidableEq P] in
/-- A step of one locker keeps the invariant if it leaves alone what another one has the
    lock for, and its own new place is in order. -/
theorem Inv.moves {c : Pc} (h : Inv procOf pidOf s) (hpc : s'.pc = Function.update s.pc i c)
    (htouched : ∀ j, j ≠ i → s'.touched j = s.touched j)
    (hothers : ∀ j, j ≠ i → s.flock = some j → s'.flock = some j ∧ s'.tmp = s.tmp ∧
      s'.pidFile = s.pidFile ∧ s'.rewritten = s.rewritten)
    (hlock : c.locked = true → s'.flock = some i) (hfresh : c.without = true → s'.touched i = false)
    (htmp : c = .moving → s'.tmp = some (pidText procOf pidOf i))
    (hpid : c = .held → s'.rewritten = false → s'.pidFile = some (pidText procOf pidOf i)) :
    Inv procOf pidOf s' := by
  have hself : s'.pc i = c := by rw [hpc, Function.update_self]
  have hother : ∀ j, j ≠ i → s'.pc j = s.pc j := fun j hj => by
    rw [hpc, Function.update_of_ne hj]
  refine ⟨fun j hj => ?_, fun j hj => ?_, fun j hj => ?_, fun j hj hw => ?_⟩
  · by_cases heq : j = i
    · subst heq
      rw [hself] at hj
      exact hlock hj
    · rw [hother j heq] at hj
      exact (hothers j heq (h.lock j hj)).1
  · by_cases heq : j = i
    · subst heq
      rw [hself] at hj
      exact hfresh hj
    · rw [hother j heq] at hj
      rw [htouched j heq]
      exact h.fresh j hj
  · by_cases heq : j = i
    · subst heq
      rw [hself] at hj
      exact htmp hj
    · rw [hother j heq] at hj
      rw [(hothers j heq (h.lock j (by rw [hj]; rfl))).2.1]
      exact h.tmp j hj
  · by_cases heq : j = i
    · subst heq
      rw [hself] at hj
      exact hpid hj hw
    · rw [hother j heq] at hj
      obtain ⟨-, -, hfile, hrewritten⟩ := hothers j heq (h.lock j (by rw [hj]; rfl))
      rw [hrewritten] at hw
      rw [hfile]
      exact h.pid j hj hw

omit [DecidableEq P] in
/-- Before it has the lock, a locker changes nothing that another one relies on. -/
theorem Inv.without {pc : Pc} (h : Inv procOf pidOf s) (hbefore : (s.pc i).without = true)
    (hpc : s'.pc = Function.update s.pc i pc) (htouched : s'.touched = s.touched)
    (hflock : s'.flock = s.flock) (htmp : s'.tmp = s.tmp) (hfile : s'.pidFile = s.pidFile)
    (hrewritten : s'.rewritten = s.rewritten) (hpclock : pc.locked = false) :
    Inv procOf pidOf (s.mark i s') := by
  have hsame := mark_touched_same (i := i) hflock hfile
  refine h.moves (by rw [mark_pc, hpc]) (fun j _ => by rw [hsame, htouched]) ?_ ?_ ?_ ?_ ?_
  · intro j _ hj
    rw [mark_flock, mark_tmp, mark_pidFile, mark_rewritten]
    exact ⟨hflock.trans hj, htmp, hfile, hrewritten⟩
  · intro hlocked
    rw [hpclock] at hlocked
    cases hlocked
  · intro _
    rw [hsame, htouched]
    exact h.fresh i hbefore
  · rintro rfl
    cases hpclock
  · rintro rfl
    cases hpclock

omit [DecidableEq P] in
/-- With the lock, a locker need not mind the others. -/
theorem Inv.within {pc : Pc} (h : Inv procOf pidOf s) (hbefore : (s.pc i).locked = true)
    (hpc : s'.pc = Function.update s.pc i pc) (htouched : s'.touched = s.touched)
    (hpcwithout : pc.without = false) (hlock : pc.locked = true → s'.flock = some i)
    (htmp : pc = .moving → s'.tmp = some (pidText procOf pidOf i))
    (hpid : pc = .held → s'.pidFile = some (pidText procOf pidOf i)) :
    Inv procOf pidOf (s.mark i s') := by
  refine h.moves (by rw [mark_pc, hpc]) ?_ ?_ ?_ ?_ ?_ ?_
  · intro j hj
    rw [mark_touched_of_ne hj, htouched]
  · intro j hj hflock
    obtain rfl := Option.some.inj ((h.lock i hbefore).symm.trans hflock)
    exact absurd rfl hj
  · rw [mark_flock]
    exact hlock
  · intro hwithout
    rw [hpcwithout] at hwithout
    cases hwithout
  · rw [mark_tmp]
    exact htmp
  · intro hheld _
    rw [mark_pidFile]
    exact hpid hheld

omit [DecidableEq P] in
theorem Inv.call {ok : Bool} {n : Nat} (h : Inv procOf pidOf s)
    (hs : s.call procOf pidOf i ok n = some s') : Inv procOf pidOf (s.mark i s') := by
  unfold State.call at hs
  cases hpc : s.pc i with
  | idle =>
    rw [hpc] at hs
    obtain rfl := Option.some.inj hs
    cases ok with
    | true => exact h.without (by rw [hpc]; rfl) rfl rfl rfl rfl rfl rfl rfl
    | false => exact h.without (by rw [hpc]; rfl) rfl rfl rfl rfl rfl rfl rfl
  | opening =>
    rw [hpc] at hs
    obtain rfl := Option.some.inj hs
    cases ok with
    | true => exact h.without (by rw [hpc]; rfl) rfl rfl rfl rfl rfl rfl rfl
    | false => exact h.without (by rw [hpc]; rfl) rfl rfl rfl rfl rfl rfl rfl
  | locking =>
    rw [hpc] at hs
    obtain rfl := Option.some.inj hs
    by_cases hfree : ok = true ∧ s.flock = none
    · rw [if_pos hfree]
      -- nobody else has the lock
      refine h.moves (i := i) (c := .creating) (by rw [mark_pc]; rfl) ?_ ?_ ?_ nofun nofun nofun
      · intro j hj
        rw [mark_touched_of_ne hj]
        rfl
      · intro j _ hj
        rw [hfree.2] at hj
        cases hj
      · intro _
        rw [mark_flock]
        rfl
    · rw [if_neg hfree]
      exact h.without (by rw [hpc]; rfl) rfl rfl rfl rfl rfl rfl rfl
  | refused =>
    rw [hpc] at hs
    obtain rfl := Option.some.inj hs
    exact h.without (by rw [hpc]; rfl) rfl rfl rfl rfl rfl rfl rfl
  | creating =>
    rw [hpc] at hs
    obtain rfl := Option.some.inj hs
    have hflock := h.lock i (by rw [hpc]; rfl)
    cases ok with
    | true => exact h.within (by rw [hpc]; rfl) rfl rfl rfl (fun _ => hflock) nofun nofun
    | false => exact h.within (by rw [hpc]; rfl) rfl rfl rfl (fun _ => hflock) nofun nofun
  | writing =>
    rw [hpc] at hs
    obtain rfl := Option.some.inj hs
    have hflock := h.lock i (by rw [hpc]; rfl)
    cases ok with
    | true => exact h.within (by rw [hpc]; rfl) rfl rfl rfl (fun _ => hflock) (fun _ => rfl) nofun
    | false => exact h.within (by rw [hpc]; rfl) rfl rfl rfl (fun _ => hflock) nofun nofun
  | moving =>
    rw [hpc] at hs
    obtain rfl := Option.some.inj hs
    have hflock := h.lock i (by rw [hpc]; rfl)
    cases ok with
    | true =>
      exact h.within (by rw [hpc]; rfl) rfl rfl rfl (fun _ => hflock) nofun fun _ => h.tmp i hpc
    | false => exact h.within (by rw [hpc]; rfl) rfl rfl rfl (fun _ => hflock) nofun nofun
  | releasing =>
    rw [hpc] at hs
    obtain rfl := Option.some.inj hs
    have hflock := h.lock i (by rw [hpc]; rfl)
    by_cases hpid : readPid s.pidFile = (pidOf (procOf i)).val
    · rw [if_pos hpid]
      exact h.within (by rw [hpc]; rfl) rfl rfl rfl (fun _ => hflock) nofun nofun
    · rw [if_neg hpid]
      exact h.within (by rw [hpc]; rfl) rfl rfl rfl (fun _ => hflock) nofun nofun
  | removing =>
    rw [hpc] at hs
    obtain rfl := Option.some.inj hs
    have hflock := h.lock i (by rw [hpc]; rfl)
    cases ok with
    | true => exact h.within (by rw [hpc]; rfl) rfl rfl rfl (fun _ => hflock) nofun nofun
    | false => exact h.within (by rw [hpc]; rfl) rfl rfl rfl (fun _ => hflock) nofun nofun
  | unlocking =>
    rw [hpc] at hs
    obtain rfl := Option.some.inj hs
    exact h.within (by rw [hpc]; rfl) rfl rfl rfl nofun nofun nofun
  | closing =>
    rw [hpc] at hs
    obtain rfl := Option.some.inj hs
    exact h.within (by rw [hpc]; rfl) rfl rfl rfl nofun nofun nofun
  | conflict pid | held | released | failed | dead =>
    rw [hpc] at hs
    cases hs

omit [DecidableEq L] in
/-- A killed process takes its lockers and their lock with it. -/
theorem Inv.kill {p : P} (h : Inv procOf pidOf s) : Inv procOf pidOf (kill procOf p s) := by
  have hpc : ∀ j, procOf j ≠ p → (InstanceLock.kill procOf p s).pc j = s.pc j :=
    fun j hj => if_neg hj
  have hdead : ∀ j, procOf j = p → (InstanceLock.kill procOf p s).pc j = .dead :=
    fun j hj => if_pos hj
  refine ⟨fun j hj => ?_, fun j hj => ?_, fun j hj => ?_, fun j hj hw => ?_⟩
  all_goals
    by_cases hproc : procOf j = p
    · rw [hdead j hproc] at hj
      cases hj
    rw [hpc j hproc] at hj
  · have hflock := h.lock j hj
    show (if s.flock.any (procOf · = p) then none else s.flock) = _
    rw [hflock]
    exact if_neg (by simpa using hproc)
  · exact h.fresh j hj
  · exact h.tmp j hj
  · exact h.pid j hj hw

theorem Inv.step {a : Act L P} (h : Inv procOf pidOf s)
    (hs : (lockSystem procOf pidOf).step s a = some s') : Inv procOf pidOf s' := by
  cases a with
  | step i ok n =>
    obtain ⟨s₁, hcall, rfl⟩ := Option.map_eq_some_iff.mp hs
    exact h.call hcall
  | release i =>
    change (if s.pc i = .held then some (s.goto i .releasing) else none) = some s' at hs
    by_cases hheld : s.pc i = .held
    · rw [if_pos hheld] at hs
      obtain rfl := Option.some.inj hs
      have hflock := h.lock i (by rw [hheld]; rfl)
      refine h.moves (i := i) (c := .releasing) rfl (fun _ _ => rfl)
        (fun _ _ hj => ⟨hj, rfl, rfl, rfl⟩) (fun _ => hflock) nofun nofun nofun
    · rw [if_neg hheld] at hs
      cases hs
  | kill p =>
    obtain rfl := Option.some.inj hs
    exact h.kill
  | rewrite content =>
    obtain rfl := Option.some.inj hs
    exact ⟨h.lock, h.fresh, h.tmp, fun _ _ hw => nomatch hw⟩

theorem Inv.of_reachable (h : (lockSystem procOf pidOf).Reachable s) : Inv procOf pidOf s := by
  refine System.Reachable.invariant (fun s hinit => ?_) (fun s a s' hs hstep => hs.step hstep) h
  obtain ⟨-, hidle, hfresh⟩ := hinit
  refine ⟨fun i hi => ?_, fun i _ => hfresh i, fun i hi => ?_, fun i hi => ?_⟩
  all_goals
    rw [hidle i] at hi
    cases hi

omit [DecidableEq L] [DecidableEq P] in
/-- A pid that was written is read. -/
theorem readPid_pidText (i : L) :
    readPid (some (pidText procOf pidOf i)) = (pidOf (procOf i)).val := by
  show ((parseInt IsI32 (trim (intDigits _)))).getD 0 = _
  rw [trim_intDigits, parseInt_intDigits (pidOf (procOf i)).property]
  rfl

/-- At most one locker holds the directory; a refused acquire has changed neither the lock
    nor the pid file; and from the end of an acquire to its release the pid file names the
    holder, unless somebody else has written it. -/
theorem single_instance (h : (lockSystem procOf pidOf).Reachable s) :
    (∀ i j, (s.pc i).locked = true → (s.pc j).locked = true → i = j) ∧
    (∀ i, (s.pc i = .refused ∨ ∃ pid, s.pc i = .conflict pid) → s.touched i = false) ∧
    (∀ i, s.pc i = .held → s.rewritten = false →
      s.pidFile = some (pidText procOf pidOf i) ∧
        readPid s.pidFile = (pidOf (procOf i)).val) := by
  have hinv := Inv.of_reachable h
  refine ⟨fun i j hi hj => ?_, fun i hi => ?_, fun i hi hw => ?_⟩
  · exact Option.some.inj ((hinv.lock i hi).symm.trans (hinv.lock j hj))
  · refine hinv.fresh i ?_
    rcases hi with hi | ⟨pid, hi⟩ <;> rw [hi] <;> rfl
  · have hfile := hinv.pid i hi hw
    rw [hfile]
    exact ⟨rfl, readPid_pidText i⟩

end

/-- The holder of the directory and a second process that comes while it holds it. -/
theorem single_instance_two : ∃ s : State Nat,
    (lockSystem (fun i => i) (fun p => ⟨if p = 0 then 71 else 72, by split <;> decide⟩)).runFrom
      { dir := false, lockFile := false, pidFile := none, tmp := none, flock := none,
        pc := fun _ => .idle, touched := fun _ => false, rewritten := false }
      [.step 0 true 0, .step 0 true 0, .step 0 true 0, .step 0 true 0, .step 0 true 0,
        .step 0 true 0, .step 1 true 0, .step 1 true 0, .step 1 true 0, .step 1 true 0] = some s ∧
    s.pc 0 = .held ∧ s.pc 1 = .conflict (some 71) ∧ s.touched 1 = false ∧
      s.pidFile = some "71".toList := by
  have hrun : (lockSystem (fun i => i)
      (fun p => ⟨if p = 0 then 71 else 72, by split <;> decide⟩)).runFrom
      { dir := false, lockFile := false, pidFile := none, tmp := none, flock := none,
        pc := fun _ => .idle, touched := fun _ => false, rewritten := false }
      [.step 0 true 0, .step 0 true 0, .step 0 true 0, .step 0 true 0, .step 0 true 0,
        .step 0 true 0, .step 1 true 0, .step 1 true 0, .step 1 true 0, .step 1 true 0]
      = some _ := rfl
  obtain ⟨-, hrefused, hnames⟩ := single_instance
    (System.runFrom_reachable (.init ⟨rfl, fun _ => rfl, fun _ => rfl⟩) hrun)
  exact ⟨_, hrun, rfl, rfl, hrefused 1 (.inr ⟨_, rfl⟩), (hnames 0 rfl rfl).1⟩

end GnDrive.InstanceLock
