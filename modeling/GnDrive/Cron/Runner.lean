/-
  GnDrive.Cron.Runner

  The cron runner and its tick thread (`cron.rs`).

  A tick collects the handlers of the entries that are due while it holds the
  lock of the map, and calls them one after another when it has let go of it.
  In between, other threads add, replace and remove entries.  A handler is
  named by the number of its registration; `removed` is a ghost field, the
  handlers whose entries have been removed or replaced.

  `removed_stays_removed` gives the condition under which none of those is
  called again, and `late_call` says that there is no weaker one.  `start` and
  `stop` of the tick thread are left out.
-/

import GnDrive.Cron.Zones
import GnDrive.Lib.System

namespace GnDrive.Cron

structure Runner where
  entries : List (String × Entry Nat)
  /-- The number of registrations so far. -/
  registered : Nat
  /-- Collected by the tick, and still to be called. -/
  fired : List Nat
  /-- The handler the tick thread is in. -/
  calling : Option Nat
  removed : List Nat

/-- `call i`: the map has no order of its own, so that any of the collected
    handlers may be the next. -/
inductive RunnerAct where
  | tick (now : Int)
  | call (i : Nat)
  | finish
  | add (id : String) (schedule : CronSchedule) (now : Int)
  | remove (id : String)

namespace Runner

def initial : Runner := ⟨[], 0, [], none, []⟩

/-- The handlers of the entry under `id`. -/
def handlersOf (s : Runner) (id : String) : List Nat :=
  (s.entries.filter (·.1 = id)).map (·.2.handler)

/-- `CronRunner::remove`. -/
def remove (s : Runner) (id : String) : Runner :=
  { s with entries := s.entries.filter (·.1 ≠ id), removed := s.removed ++ s.handlersOf id }

/-- `CronRunner::add_at` for a schedule that fires next at `next`. -/
def insert (s : Runner) (id : String) (schedule : CronSchedule) (next : Int) : Runner :=
  let s := s.remove id
  { s with
    entries := s.entries ++ [(id, ⟨schedule, s.registered, next⟩)]
    registered := s.registered + 1 }

def step (z : Zone) (s : Runner) : RunnerAct → Option Runner
  | .tick now =>
      if s.fired.isEmpty && s.calling.isNone then
        match tickAt z now s.entries with
        | .ok (entries, fired) => some { s with entries, fired }
        | .error _ => none
      else none
  | .call i =>
      match s.calling, s.fired[i]? with
      | none, some h => some { s with fired := s.fired.eraseIdx i, calling := some h }
      | _, _ => none
  | .finish =>
      match s.calling with
      | some _ => some { s with calling := none }
      | none => none
  | .add id schedule now =>
      match schedule.nextAfter z now with
      | .ok (some next) => some (s.insert id schedule next)
      | .ok none => some s
      | .error _ => none
  | .remove id => some (s.remove id)

/-- The handler that the step begins to call. -/
def calls (s : Runner) : RunnerAct → Option Nat
  | .call i => s.fired[i]?
  | _ => none

/-- The handlers whose entry the step takes out of the map. -/
def takesOut (z : Zone) (s : Runner) : RunnerAct → List Nat
  | .remove id => s.handlersOf id
  | .add id schedule now =>
      match schedule.nextAfter z now with
      | .ok (some _) => s.handlersOf id
      | _ => []
  | _ => []

/-- No entry is taken out while its handler is collected and still to be
    called. -/
def notDue (z : Zone) (s : Runner) (a : RunnerAct) : Bool :=
  (s.takesOut z a).all fun h => !s.fired.contains h

end Runner

def runnerSystem (z : Zone) : System Runner RunnerAct where
  init s := s = .initial
  step := Runner.step z

-- ============================================================================
-- Handlers
-- ============================================================================

section

variable {z : Zone} {now : Int} {H : Type} {e e' : Entry H} {f : Option H}
  {entries entries' : List (String × Entry H)} {fired : List H}

theorem tick_handler (h : e.tick z now = .ok (e', f)) :
    e'.handler = e.handler ∧ ∀ x, f = some x → x = e.handler := by
  unfold Entry.tick at h
  split at h
  · cases hnext : e.schedule.nextAfter z now with
    | error p => rw [hnext] at h; contradiction
    | ok next =>
      cases hparked : CronSchedule.addDuration now (36500 * 86400 * NANOS) with
      | error p => rw [hnext, hparked] at h; contradiction
      | ok parked =>
        rw [hnext, hparked] at h
        obtain ⟨rfl, rfl⟩ := Prod.mk.inj (Except.ok.inj h)
        exact ⟨rfl, fun x hx => (Option.some.inj hx).symm⟩
  · obtain ⟨rfl, rfl⟩ := Prod.mk.inj (Except.ok.inj h)
    exact ⟨rfl, fun x hx => by contradiction⟩

/-- A tick leaves the handlers of the entries as they are, and collects only
    handlers of entries. -/
theorem tickAt_handlers (h : tickAt z now entries = .ok (entries', fired)) :
    entries'.map (·.2.handler) = entries.map (·.2.handler) ∧
      ∀ x ∈ fired, x ∈ entries.map (·.2.handler) := by
  induction entries generalizing entries' fired with
  | nil =>
    obtain ⟨rfl, rfl⟩ := Prod.mk.inj (Except.ok.inj h)
    simp
  | cons p rest ih =>
    obtain ⟨id, e⟩ := p
    unfold tickAt at h
    cases htick : e.tick z now with
    | error p => rw [htick] at h; contradiction
    | ok r =>
      cases hrest : tickAt z now rest with
      | error p => rw [htick, hrest] at h; contradiction
      | ok q =>
        rw [htick, hrest] at h
        obtain ⟨rfl, rfl⟩ := Prod.mk.inj (Except.ok.inj h)
        obtain ⟨hsame, hfired⟩ := tick_handler htick
        obtain ⟨hmap, hmem⟩ := ih hrest
        refine ⟨by simp [hsame, hmap], fun x hx => ?_⟩
        rcases List.mem_append.mp hx with hx | hx
        · have := hfired x (by simpa using hx)
          exact List.mem_cons.mpr (.inl this)
        · exact List.mem_cons_of_mem _ (hmem x hx)

end

namespace Runner

variable {z : Zone} {s s' : Runner} {a : RunnerAct}

def handlers (s : Runner) : List Nat := s.entries.map (·.2.handler)

/-- Handlers that are removed are neither in the map nor collected. -/
structure Sound (s : Runner) : Prop where
  nodup : s.handlers.Nodup
  entered : ∀ h ∈ s.handlers, h < s.registered ∧ h ∉ s.removed
  collected : ∀ h ∈ s.fired, h < s.registered ∧ h ∉ s.removed
  gone : ∀ h ∈ s.removed, h < s.registered

theorem mem_handlersOf {id : String} {h : Nat} :
    h ∈ s.handlersOf id ↔ ∃ e, (id, e) ∈ s.entries ∧ e.handler = h := by
  simp only [handlersOf, List.mem_map, List.mem_filter, decide_eq_true_eq]
  constructor
  · rintro ⟨⟨_, e⟩, ⟨hmem, rfl⟩, rfl⟩
    exact ⟨e, hmem, rfl⟩
  · rintro ⟨e, hmem, rfl⟩
    exact ⟨(id, e), ⟨hmem, rfl⟩, rfl⟩

/-- What is left in the map is not what has been taken out. -/
theorem kept_not_taken {id : String} (hnodup : s.handlers.Nodup) {h : Nat}
    (hkept : h ∈ (s.remove id).handlers) : h ∈ s.handlers ∧ h ∉ s.handlersOf id := by
  obtain ⟨⟨id', e⟩, hmem, rfl⟩ := List.mem_map.mp hkept
  obtain ⟨hmem, hid⟩ := List.mem_filter.mp hmem
  refine ⟨List.mem_map.mpr ⟨_, hmem, rfl⟩, fun htaken => ?_⟩
  obtain ⟨e', hmem', heq⟩ := mem_handlersOf.mp htaken
  have hsame := List.inj_on_of_nodup_map hnodup hmem hmem' heq.symm
  have hne : id' ≠ id := by simpa using hid
  exact hne (congrArg Prod.fst hsame)

theorem Sound.remove (h : s.Sound) {id : String} (hdue : ∀ x ∈ s.handlersOf id, x ∉ s.fired) :
    (s.remove id).Sound where
  nodup := h.nodup.sublist (List.filter_sublist.map _)
  entered x hx := by
    obtain ⟨hmem, hnot⟩ := kept_not_taken h.nodup hx
    refine ⟨(h.entered x hmem).1, fun hremoved => ?_⟩
    rcases List.mem_append.mp hremoved with hold | hnew
    · exact (h.entered x hmem).2 hold
    · exact hnot hnew
  collected x hx := by
    refine ⟨(h.collected x hx).1, fun hremoved => ?_⟩
    rcases List.mem_append.mp hremoved with hold | hnew
    · exact (h.collected x hx).2 hold
    · exact hdue x hnew hx
  gone x hx := by
    rcases List.mem_append.mp hx with hold | hnew
    · exact h.gone x hold
    · obtain ⟨e, hmem, rfl⟩ := mem_handlersOf.mp hnew
      exact (h.entered _ (List.mem_map.mpr ⟨_, hmem, rfl⟩)).1

theorem Sound.insert (h : s.Sound) {id : String} {schedule : CronSchedule} {next : Int}
    (hdue : ∀ x ∈ s.handlersOf id, x ∉ s.fired) : (s.insert id schedule next).Sound := by
  have hr := h.remove hdue
  have hhandlers : (s.insert id schedule next).handlers = (s.remove id).handlers ++ [s.registered] := by
    simp [Runner.insert, handlers, Runner.remove]
  refine ⟨?_, fun x hx => ?_, fun x hx => ?_, fun x hx => ?_⟩
  · rw [hhandlers, List.nodup_append_comm]
    refine List.nodup_cons.mpr ⟨fun hmem => ?_, hr.nodup⟩
    have hlt : s.registered < s.registered := (hr.entered _ hmem).1
    exact absurd hlt (Nat.lt_irrefl _)
  · rw [hhandlers] at hx
    rcases List.mem_append.mp hx with hold | hnew
    · exact ⟨Nat.lt_succ_of_lt (hr.entered x hold).1, (hr.entered x hold).2⟩
    · obtain rfl := List.mem_singleton.mp hnew
      exact ⟨Nat.lt_succ_self _, fun hgone => absurd (hr.gone _ hgone) (Nat.lt_irrefl _)⟩
  · exact ⟨Nat.lt_succ_of_lt (hr.collected x hx).1, (hr.collected x hx).2⟩
  · exact Nat.lt_succ_of_lt (hr.gone x hx)

/-- Step lemma. -/
theorem Sound.step (h : s.Sound) (hok : s.notDue z a = true) (hs : s.step z a = some s') :
    s'.Sound := by
  have hdue : ∀ x ∈ s.takesOut z a, x ∉ s.fired := by simpa [notDue] using hok
  cases a with
  | tick now =>
    simp only [Runner.step] at hs
    split at hs
    · split at hs
      · rename_i entries fired htick
        obtain rfl := Option.some.inj hs
        obtain ⟨hmap, hmem⟩ := tickAt_handlers htick
        have hhandlers : Runner.handlers { s with entries, fired } = s.handlers := hmap
        refine ⟨by rw [hhandlers]; exact h.nodup, fun x hx => ?_, fun x hx => ?_, h.gone⟩
        · exact h.entered x (hhandlers ▸ hx)
        · exact h.entered x (hmem x hx)
      · cases hs
    · cases hs
  | call i =>
    simp only [Runner.step] at hs
    split at hs
    · obtain rfl := Option.some.inj hs
      exact ⟨h.nodup, h.entered, fun x hx => h.collected x (List.mem_of_mem_eraseIdx hx), h.gone⟩
    · cases hs
  | finish =>
    simp only [Runner.step] at hs
    split at hs
    · obtain rfl := Option.some.inj hs
      exact ⟨h.nodup, h.entered, h.collected, h.gone⟩
    · cases hs
  | add id schedule now =>
    simp only [Runner.step] at hs
    simp only [takesOut] at hdue
    split at hs
    · rename_i next hnext
      obtain rfl := Option.some.inj hs
      rw [hnext] at hdue
      exact h.insert hdue
    · obtain rfl := Option.some.inj hs
      exact h
    · cases hs
  | remove id =>
    obtain rfl := Option.some.inj hs
    exact h.remove hdue

end Runner

/-- In a run in which no entry is removed or replaced while its handler is
    collected and still to be called, no call of a handler begins after its
    entry has been removed or replaced. -/
theorem removed_stays_removed (z : Zone) {s s' : Runner} {a : RunnerAct} {h : Nat}
    (hrun : (runnerSystem z).ReachableIf (fun s a => s.notDue z a = true) s)
    (hs : s.step z a = some s') (hcall : s.calls a = some h) : h ∉ s.removed := by
  have hsound : s.Sound := by
    refine hrun.invariant ?_ fun _ _ _ hp hok hs => hp.step hok hs
    rintro _ rfl
    exact ⟨List.nodup_nil, by simp [Runner.handlers, Runner.initial], by simp [Runner.initial],
      by simp [Runner.initial]⟩
  cases a with
  | call i => exact (hsound.collected h (List.mem_of_getElem? hcall)).2
  | tick now => cases hcall
  | finish => cases hcall
  | add id schedule now => cases hcall
  | remove id => cases hcall

def utc : Zone where
  offset _ := 0
  ofLocal w := .single w
  clock_earliest w t h := by
    obtain rfl := Option.some.inj h
    exact Int.add_zero _

/-- Two entries, of which one is removed before the tick. -/
def removedBefore : List RunnerAct :=
  [.add "a" (everySchedule 1) 0, .add "b" (everySchedule 1) 0, .remove "b", .tick (5 * NANOS)]

theorem removed_stays_removed_before :
    ∃ s s', (runnerSystem utc).ReachableIf (fun s a => s.notDue utc a = true) s ∧
      s.step utc (.call 0) = some s' ∧ s.calls (.call 0) = some 0 ∧ s.removed = [1] ∧
      0 ∉ s.removed := by
  have hrun : ((runnerSystem utc).runIf (Runner.notDue utc) .initial removedBefore).any (fun s =>
      (s.step utc (.call 0)).isSome && s.calls (.call 0) == some 0 && s.removed == [1]) = true := by
    decide +kernel
  obtain ⟨s, hs, hend⟩ := (Option.any_eq_true _ _).mp hrun
  simp only [Bool.and_eq_true, beq_iff_eq] at hend
  obtain ⟨⟨hstep, hcall⟩, hremoved⟩ := hend
  obtain ⟨s', hs'⟩ := Option.isSome_iff_exists.mp hstep
  have hreach := System.runIf_reachableIf (.init rfl) hs
  exact ⟨s, s', hreach, hs', hcall, hremoved, removed_stays_removed utc hreach hs' hcall⟩

/-- An entry that is taken out while its handler is collected can still have it
    called. -/
theorem late_call (z : Zone) {s s' : Runner} {a : RunnerAct} {h : Nat}
    (hs : s.step z a = some s') (htaken : h ∈ s.takesOut z a) (hfired : h ∈ s.fired) :
    ∃ as t i, (runnerSystem z).runFrom s' as = some t ∧ (t.step z (.call i)).isSome = true ∧
      t.calls (.call i) = some h ∧ h ∈ t.removed := by
  have htaken' : s'.fired = s.fired ∧ h ∈ s'.removed := by
    cases a with
    | remove id =>
      obtain rfl := Option.some.inj hs
      exact ⟨rfl, List.mem_append_right _ htaken⟩
    | add id schedule now =>
      simp only [Runner.step] at hs
      simp only [Runner.takesOut] at htaken
      split at hs
      · rename_i next hnext
        obtain rfl := Option.some.inj hs
        rw [hnext] at htaken
        exact ⟨rfl, List.mem_append_right _ htaken⟩
      · rename_i hnext
        rw [hnext] at htaken
        cases htaken
      · cases hs
    | tick now => cases htaken
    | call i => cases htaken
    | finish => cases htaken
  obtain ⟨hsame, hremoved⟩ := htaken'
  obtain ⟨i, hi⟩ := List.mem_iff_getElem?.mp (hsame ▸ hfired)
  cases hcalling : s'.calling with
  | none => exact ⟨[], s', i, rfl, by simp [Runner.step, hcalling, hi], hi, hremoved⟩
  | some c =>
    refine ⟨[.finish], { s' with calling := none }, i, ?_, ?_, hi, hremoved⟩
    · simp [runnerSystem, Runner.step, hcalling]
    · simp [Runner.step, hi]

/-- A handler that runs for long, and an entry removed meanwhile. -/
def removedMeanwhile : List RunnerAct :=
  [.add "a" (everySchedule 1) 0, .add "b" (everySchedule 1) 0, .tick (5 * NANOS), .call 0,
    .remove "b", .finish]

theorem removed_called : ∃ s s', (runnerSystem utc).Reachable s ∧
    s.step utc (.call 0) = some s' ∧ s.calls (.call 0) = some 1 ∧ 1 ∈ s.removed := by
  have hrun : ((runnerSystem utc).runFrom .initial removedMeanwhile).any (fun s =>
      (s.step utc (.call 0)).isSome && s.calls (.call 0) == some 1 && s.removed.contains 1)
        = true := by
    decide +kernel
  obtain ⟨s, hs, hend⟩ := (Option.any_eq_true _ _).mp hrun
  simp only [Bool.and_eq_true, beq_iff_eq, List.contains_iff_mem] at hend
  obtain ⟨⟨hstep, hcall⟩, hremoved⟩ := hend
  obtain ⟨s', hs'⟩ := Option.isSome_iff_exists.mp hstep
  exact ⟨s, s', System.runFrom_reachable (.init rfl) hs, hs', hcall, hremoved⟩

end GnDrive.Cron
