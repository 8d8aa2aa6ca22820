/-
  GnDrive.Sync.Registry

  What the maps of the engine say about the tasks (`Active` in
  `sync_engine.rs`).

  `step_registry` says what a step can do to the set of busy keys and to the
  map of active tasks, and who stops holding a key.  From it: an active task
  is unfinished, an outcome belongs to a finished task, and a busy key is held
  by a call or by an unfinished task.
-/

import GnDrive.Sync.BusyKey

namespace GnDrive.Sync

section

variable {e e' : Engine} {a : Act} {k : Key} {t : TaskId} {x x' : Task}

-- ============================================================================
-- Who stops holding a key
-- ============================================================================

theorem Change.still_unfinished (h : Change e a t x x') (hx : x.unfinished = true)
    (hkeep : x.releases = false) : x'.unfinished = true := by
  cases h with
  | own _ hadv =>
    cases hpc : x.pc with
    | calling =>
      simp only [Task.advance, hpc] at hadv
      split at hadv <;> cases hadv <;> rfl
    | releasing st => simp [Task.releases, hpc] at hkeep
    | finished st => simp [Task.unfinished, hpc] at hx
    | readClient =>
      simp only [Task.advance, hpc] at hadv
      cases hadv
      cases e.client <;> rfl
    | _ =>
      simp only [Task.advance, hpc] at hadv
      cases hadv
      rfl
  | token => exact hx
  | cancelled => exact hx
  | taken => exact hx

/-- A task is unfinished until its own thread releases its key. -/
theorem unfinished_step (hs : e.step a = some e') (hx : e.task t = some x)
    (hu : x.unfinished = true) (hkeep : (∃ answer, a = .task t answer) → x.releases = false) :
    ∃ x', e'.task t = some x' ∧ x'.unfinished = true ∧ x'.key = x.key := by
  rcases step_task hs t with h | ⟨-, -, -, -, hnone, -⟩ | ⟨y, y', hy, hy', hchange⟩
  · exact ⟨x, h.trans hx, hu, rfl⟩
  · rw [hnone] at hx
    cases hx
  · obtain rfl := Option.some.inj (hy.symm.trans hx)
    refine ⟨y', hy', ?_, hchange.key_eq⟩
    cases hchange with
    | own ha hadv => exact (Change.own ha hadv).still_unfinished hu (hkeep ⟨_, ha⟩)
    | token => exact hu
    | cancelled => exact hu
    | taken => exact hu

theorem setCall_key {c d : Caller} {pc : CallPc} (hc : (e.call c).key = none)
    (hd : (e.call d).key = some k) : ((e.setCall c pc).call d).key = some k := by
  rcases setCall_call e c d pc with ⟨-, h⟩ | ⟨rfl, -⟩
  · rwa [h]
  · rw [hc] at hd
    cases hd

theorem free_key {c : Caller} (h : e.free c = true) : (e.call c).key = none := by
  unfold Engine.free at h
  cases hc : e.call c with
  | reserved key => simp [hc] at h
  | admitted key b => simp [hc] at h
  | _ => rfl

/-- A call holds its key until it enters. -/
theorem call_key_step (hs : e.step a = some e') {d : Caller} (hd : (e.call d).key = some k)
    (hkeep : ∀ t, a ≠ .enter d t) : (e'.call d).key = some k := by
  cases a with
  | plane =>
    obtain rfl := Option.some.inj hs
    rwa [planeStep_call]
  | start =>
    obtain rfl := Option.some.inj hs
    exact hd
  | stopFlag j =>
    simp only [Engine.step] at hs
    split at hs <;> cases hs
    exact hd
  | stopHarvest j =>
    simp only [Engine.step] at hs
    split at hs
    · split at hs <;> cases hs
      exact hd
    · cases hs
  | stopCancel j u =>
    simp only [Engine.step] at hs
    split at hs
    · split at hs <;> cases hs
      simpa using hd
    · split at hs <;> cases hs
      simpa using hd
    · cases hs
  | stopDone j =>
    simp only [Engine.step] at hs
    split at hs <;> cases hs
    exact hd
  | startSync c key found =>
    simp only [Engine.step] at hs
    split at hs <;> cases hs
    rename_i hfree
    exact setCall_key (free_key (by simpa using hfree)) hd
  | startPathSync c key paths =>
    simp only [Engine.step] at hs
    split at hs <;> cases hs
    rename_i hfree
    exact setCall_key (free_key (by simpa using hfree)) hd
  | check c =>
    simp only [Engine.step] at hs
    split at hs
    · rename_i key hc
      have hnone : (e.call c).key = none := by rw [hc]; rfl
      split at hs <;> cases hs
      · exact setCall_key hnone hd
      · exact setCall_key (e := e.setBusy key true) hnone hd
    · cases hs
  | takeAdmit c =>
    simp only [Engine.step] at hs
    split at hs
    · rename_i key hc
      split at hs <;> cases hs
      rcases setCall_call { e with admitHeld := true } c d (.admitted key e.running)
        with ⟨-, h⟩ | ⟨rfl, h⟩
      · rw [h]
        exact hd
      · rw [h]
        rwa [hc] at hd
    · cases hs
  | enter c u =>
    have hne : d ≠ c := fun h => hkeep u (by rw [h])
    simp only [Engine.step] at hs
    split at hs
    · cases hs
      simpa [Engine.setCall, hne] using hd
    · split at hs <;> cases hs
      simpa [Engine.setCall, hne] using hd
    · cases hs
  | stopSync c u =>
    simp only [Engine.step] at hs
    split at hs
    · cases hs
    · rename_i hfree
      have hnone := free_key (by simpa using hfree)
      split at hs <;> cases hs <;> exact setCall_key hnone hd
  | cancel c =>
    simp only [Engine.step] at hs
    split at hs
    · rename_i u hc
      cases hs
      refine setCall_key ?_ (by simpa using hd)
      rw [onTask_call, hc]
      rfl
    · rename_i u hc
      cases hs
      refine setCall_key ?_ (by simpa using hd)
      rw [onTask_call, hc]
      rfl
    · cases hs
  | task u answer =>
    simp only [Engine.step] at hs
    split at hs
    · cases hs
    · obtain ⟨y, -, rfl⟩ := Option.map_eq_some_iff.mp hs
      split <;> exact hd
  | take u =>
    simp only [Engine.step] at hs
    split at hs
    · cases hs
    · split at hs <;> cases hs
      exact hd

/-- A holder stays one, unless it is a call that enters or a task that
    releases its key. -/
theorem holds_kept (hs : e.step a = some e') {h : Holder} (hh : Holds e k h)
    (hcall : ∀ c t, h = .call c → a ≠ .enter c t)
    (htask : ∀ t x, h = .task t → e.task t = some x → (∃ answer, a = .task t answer) →
      x.releases = false) : Holds e' k h := by
  cases h with
  | call c => exact call_key_step hs hh fun t => hcall c t rfl
  | task t =>
    obtain ⟨x, hx, hu, rfl⟩ := hh
    obtain ⟨x', hx', hu', hkey⟩ := unfinished_step hs hx hu (htask t x rfl hx)
    exact ⟨x', hx', hu', hkey⟩

-- ============================================================================
-- What a step can do to the maps
-- ============================================================================

inductive RegistryStep (e : Engine) (a : Act) (e' : Engine) : Prop where
  | same : e'.busy = e.busy → e'.active = e.active → (∀ k h, Holds e k h → Holds e' k h) →
      RegistryStep e a e'
  | reserved {c : Caller} {key : Key} : a = .check c → e'.busy = Function.update e.busy key true →
      e'.active = e.active → Holds e' key (.call c) → (∀ k h, Holds e k h → Holds e' k h) →
      RegistryStep e a e'
  | refused {c : Caller} {t : TaskId} {key : Key} : a = .enter c t →
      e.call c = .admitted key false → e'.busy = Function.update e.busy key false →
      e'.active = e.active → RegistryStep e a e'
  | entered {c : Caller} {t : TaskId} {key : Key} : a = .enter c t →
      e.call c = .admitted key true → e.task t = none → e'.task t = some (.new key) →
      e'.busy = Function.update e.busy key true → e'.active = t :: e.active → RegistryStep e a e'
  | released {t : TaskId} {answer : Answer} {x : Task} : a = .task t answer →
      e.task t = some x → x.releases = true → e'.busy = Function.update e.busy x.key false →
      e'.active = e.active.erase t → RegistryStep e a e'
  | harvested : (∃ j, a = .stopHarvest j) → e'.busy = (fun _ => false) → e'.active = [] →
      RegistryStep e a e'

theorem onTask_active (e : Engine) (t : TaskId) (f : Task → Task) :
    (e.onTask t f).active = e.active := by
  unfold Engine.onTask
  split <;> rfl

theorem planeStep_active (e : Engine) : e.planeStep.active = e.active := by
  unfold Engine.planeStep
  cases e.plane <;> rfl

/-- A step that is neither an entry nor a step of a task thread. -/
theorem RegistryStep.quiet (hs : e.step a = some e') (henter : ∀ c t, a ≠ .enter c t)
    (htask : ∀ t answer, a ≠ .task t answer) (hbusy : e'.busy = e.busy)
    (hactive : e'.active = e.active) : RegistryStep e a e' :=
  .same hbusy hactive fun _ _ hh => holds_kept hs hh (fun c t _ => henter c t)
    fun t _ _ _ ha => absurd ha.choose_spec (htask t _)

theorem step_registry (hs : e.step a = some e') : RegistryStep e a e' := by
  have hstep := hs
  cases a with
  | plane =>
    obtain rfl := Option.some.inj hs
    exact .quiet hstep (by simp) (by simp) (planeStep_busy e) (planeStep_active e)
  | start =>
    obtain rfl := Option.some.inj hs
    exact .quiet hstep (by simp) (by simp) rfl rfl
  | stopFlag j =>
    simp only [Engine.step] at hs
    split at hs <;> cases hs
    exact .quiet hstep (by simp) (by simp) rfl rfl
  | stopHarvest j =>
    simp only [Engine.step] at hs
    split at hs
    · split at hs <;> cases hs
      exact .harvested ⟨j, rfl⟩ rfl rfl
    · cases hs
  | stopCancel j u =>
    simp only [Engine.step] at hs
    split at hs
    · split at hs <;> cases hs
      exact .quiet hstep (by simp) (by simp) (onTask_busy e u _) (onTask_active e u _)
    · split at hs <;> cases hs
      exact .quiet hstep (by simp) (by simp) (onTask_busy e u _) (onTask_active e u _)
    · cases hs
  | stopDone j =>
    simp only [Engine.step] at hs
    split at hs <;> cases hs
    exact .quiet hstep (by simp) (by simp) rfl rfl
  | startSync c key found =>
    simp only [Engine.step] at hs
    split at hs <;> cases hs
    exact .quiet hstep (by simp) (by simp) rfl rfl
  | startPathSync c key paths =>
    simp only [Engine.step] at hs
    split at hs <;> cases hs
    exact .quiet hstep (by simp) (by simp) rfl rfl
  | check c =>
    simp only [Engine.step] at hs
    split at hs
    · rename_i key hc
      split at hs <;> cases hs
      · exact .quiet hstep (by simp) (by simp) rfl rfl
      · have hnew : Holds ((e.setBusy key true).setCall c (.reserved key)) key (.call c) := by
          simp [Holds, Engine.setCall, CallPc.key]
        exact .reserved rfl rfl rfl hnew fun k h hh =>
          holds_kept hstep hh (fun _ _ _ => by simp) fun _ _ _ _ ha => absurd ha.choose_spec (by simp)
    · cases hs
  | takeAdmit c =>
    simp only [Engine.step] at hs
    split at hs
    · split at hs <;> cases hs
      exact .quiet hstep (by simp) (by simp) rfl rfl
    · cases hs
  | enter c u =>
    simp only [Engine.step] at hs
    split at hs
    · rename_i key hc
      cases hs
      exact .refused rfl hc rfl rfl
    · rename_i key hc
      split at hs <;> cases hs
      rename_i hu
      refine .entered rfl hc (by simpa using hu) ?_ rfl rfl
      simp [Engine.setTask]
    · cases hs
  | stopSync c u =>
    simp only [Engine.step] at hs
    split at hs
    · cases hs
    · split at hs <;> cases hs <;> exact .quiet hstep (by simp) (by simp) rfl rfl
  | cancel c =>
    simp only [Engine.step] at hs
    split at hs
    · cases hs
      exact .quiet hstep (by simp) (by simp) (onTask_busy e _ _) (onTask_active e _ _)
    · cases hs
      exact .quiet hstep (by simp) (by simp) (onTask_busy e _ _) (onTask_active e _ _)
    · cases hs
  | task u answer =>
    simp only [Engine.step] at hs
    split at hs
    · cases hs
    · rename_i y hu
      obtain ⟨y', -, rfl⟩ := Option.map_eq_some_iff.mp hs
      cases hrel : y.releases with
      | true =>
        exact .released rfl hu hrel rfl rfl
      | false =>
        rw [hrel] at hstep
        refine .same rfl rfl fun k h hh => holds_kept hstep hh (fun _ _ _ => by simp) ?_
        rintro t x - hx ⟨answer', ha⟩
        cases ha
        obtain rfl := Option.some.inj (hu.symm.trans hx)
        exact hrel
  | take u =>
    simp only [Engine.step] at hs
    split at hs
    · cases hs
    · split at hs <;> cases hs
      exact .quiet hstep (by simp) (by simp) rfl rfl

-- ============================================================================
-- The invariant
-- ============================================================================

structure Registered (e : Engine) : Prop where
  nodup : e.active.Nodup
  active : ∀ t ∈ e.active, ∃ x, e.task t = some x ∧ x.unfinished = true
  outcome : ∀ t x, e.task t = some x → ∀ st, x.outcome = some st → x.pc = .finished st
  held : ∀ key, e.busy key = true → ∃ h, Holds e key h

theorem registered_initial : Registered .initial where
  nodup := .nil
  active t ht := by cases ht
  outcome t x hx := by cases hx
  held key hb := by cases hb

theorem Change.outcome (h : Change e a t x x') (hx : ∀ st, x.outcome = some st → x.pc = .finished st) :
    ∀ st, x'.outcome = some st → x'.pc = .finished st := by
  cases h with
  | own _ hadv =>
    have hnone : ∀ {pc : TaskPc}, x.pc = pc → (∀ st, pc ≠ .finished st) → x.outcome = none := by
      intro pc hpc hne
      cases ho : x.outcome with
      | none => rfl
      | some st => exact absurd (hpc.symm.trans (hx st ho)) (hne st)
    cases hpc : x.pc with
    | releasing st =>
      simp only [Task.advance, hpc] at hadv
      cases hadv
      intro st' ho
      obtain rfl := Option.some.inj ho
      rfl
    | finished st => simp [Task.advance, hpc] at hadv
    | calling =>
      have ho := hnone hpc (by simp)
      simp only [Task.advance, hpc] at hadv
      split at hadv <;> cases hadv <;>
        · intro st' hst
          rw [ho] at hst
          cases hst
    | _ =>
      have ho := hnone hpc (by simp)
      simp only [Task.advance, hpc] at hadv
      cases hadv
      intro st' hst
      rw [ho] at hst
      cases hst
  | token => exact hx
  | cancelled => exact hx
  | taken =>
    intro st ho
    cases ho

/-- Step lemma. -/
theorem Registered.step (h : Registered e) (hs : e.step a = some e') : Registered e' := by
  have houtcome : ∀ t x, e'.task t = some x → ∀ st, x.outcome = some st → x.pc = .finished st :=
    step_tasks hs h.outcome (fun _ _ st ho => by cases ho)
      fun t x x' _ hx hc => hc.outcome hx
  -- an active task that does not release its key stays unfinished
  have hactive : ∀ t ∈ e.active, (∀ answer, a ≠ .task t answer) →
      ∃ x, e'.task t = some x ∧ x.unfinished = true := by
    intro t ht hne
    obtain ⟨x, hx, hu⟩ := h.active t ht
    obtain ⟨x', hx', hu', -⟩ := unfinished_step hs hx hu fun ⟨answer, ha⟩ => absurd ha (hne answer)
    exact ⟨x', hx', hu'⟩
  have hholder : ∀ t ∈ e.active, ∀ k x, e.task t = some x → x.key = k → Holds e k (.task t) := by
    intro t ht k x hx hk
    obtain ⟨y, hy, hu⟩ := h.active t ht
    obtain rfl := Option.some.inj (hx.symm.trans hy)
    exact ⟨x, hx, hu, hk⟩
  have hkept : ∀ t ∈ e.active, (∀ k h, Holds e k h → Holds e' k h) →
      ∃ x, e'.task t = some x ∧ x.unfinished = true := by
    intro t ht hkeep
    obtain ⟨x, hx, -⟩ := h.active t ht
    obtain ⟨x', hx', hu', -⟩ := hkeep x.key _ (hholder t ht _ x hx rfl)
    exact ⟨x', hx', hu'⟩
  cases step_registry hs with
  | same hb ha hkeep =>
    refine ⟨ha ▸ h.nodup, fun t ht => hkept t (ha ▸ ht) hkeep, houtcome, fun key hbusy => ?_⟩
    obtain ⟨h₀, hh⟩ := h.held key (by rw [← hb]; exact hbusy)
    exact ⟨h₀, hkeep key h₀ hh⟩
  | @reserved c key₀ hact hb ha hnew hkeep =>
    refine ⟨ha ▸ h.nodup, fun t ht => hkept t (ha ▸ ht) hkeep, houtcome, fun key hbusy => ?_⟩
    by_cases hk : key = key₀
    · exact ⟨.call c, hk ▸ hnew⟩
    · rw [hb, Function.update_of_ne hk] at hbusy
      obtain ⟨h₀, hh⟩ := h.held key hbusy
      exact ⟨h₀, hkeep key h₀ hh⟩
  | @refused c t₀ key₀ hact hc hb ha =>
    subst hact
    refine ⟨ha ▸ h.nodup, fun t ht => hactive t (ha ▸ ht) (by simp), houtcome, fun key hbusy => ?_⟩
    by_cases hk : key = key₀
    · rw [hb, hk, Function.update_self] at hbusy
      cases hbusy
    · rw [hb, Function.update_of_ne hk] at hbusy
      obtain ⟨h₀, hh⟩ := h.held key hbusy
      refine ⟨h₀, holds_kept hs hh (fun c' t' hh₀ hact => ?_) fun _ _ _ _ ha => absurd ha.choose_spec (by simp)⟩
      cases hact
      subst hh₀
      rw [Holds, hc] at hh
      exact hk (Option.some.inj hh).symm
  | @entered c t₀ key₀ hact hc hnone hnew hb ha =>
    subst hact
    have hfresh : t₀ ∉ e.active := by
      intro ht
      obtain ⟨x, hx, -⟩ := h.active t₀ ht
      rw [hnone] at hx
      cases hx
    refine ⟨ha ▸ List.nodup_cons.mpr ⟨hfresh, h.nodup⟩, fun t ht => ?_, houtcome,
      fun key hbusy => ?_⟩
    · rcases List.mem_cons.mp (ha ▸ ht) with rfl | ht
      · exact ⟨_, hnew, rfl⟩
      · exact hactive t ht (by simp)
    · by_cases hk : key = key₀
      · exact ⟨.task t₀, .new key₀, hnew, rfl, hk.symm⟩
      · rw [hb, Function.update_of_ne hk] at hbusy
        obtain ⟨h₀, hh⟩ := h.held key hbusy
        refine ⟨h₀, holds_kept hs hh (fun c' t' hh₀ hact => ?_)
          fun _ _ _ _ ha => absurd ha.choose_spec (by simp)⟩
        cases hact
        subst hh₀
        rw [Holds, hc] at hh
        exact hk (Option.some.inj hh).symm
  | @released t₀ answer x₀ hact hx₀ hrel hb ha =>
    subst hact
    refine ⟨ha ▸ h.nodup.erase t₀, fun t ht => ?_, houtcome, fun key hbusy => ?_⟩
    · rw [ha, h.nodup.mem_erase_iff] at ht
      exact hactive t ht.2 fun answer' hact => ht.1 (by cases hact; rfl)
    · by_cases hk : key = x₀.key
      · rw [hb, hk, Function.update_self] at hbusy
        cases hbusy
      · rw [hb, Function.update_of_ne hk] at hbusy
        obtain ⟨h₀, hh⟩ := h.held key hbusy
        refine ⟨h₀, holds_kept hs hh (fun _ _ _ => by simp) fun t x hh₀ hx hact => ?_⟩
        obtain ⟨answer', hact⟩ := hact
        cases hact
        subst hh₀
        obtain ⟨y, hy, -, hy'⟩ := hh
        obtain rfl := Option.some.inj (hy.symm.trans hx₀)
        exact absurd hy'.symm hk
  | harvested hact hb ha =>
    refine ⟨by rw [ha]; exact .nil, fun t ht => ?_, houtcome, fun key hbusy => ?_⟩
    · rw [ha] at ht
      cases ht
    · rw [hb] at hbusy
      cases hbusy

theorem registered (h : engineSystem.Reachable e) : Registered e := by
  refine h.invariant ?_ fun _ _ _ hr hs => hr.step hs
  rintro _ rfl
  exact registered_initial

/-- A finished task stays finished. -/
theorem finished_step (hs : e.step a = some e') {st : Status} (hx : e.task t = some x)
    (hpc : x.pc = .finished st) : ∃ x', e'.task t = some x' ∧ x'.pc = .finished st := by
  rcases step_task hs t with h | ⟨-, -, -, -, hnone, -⟩ | ⟨y, y', hy, hy', hchange⟩
  · exact ⟨x, h.trans hx, hpc⟩
  · rw [hnone] at hx
    cases hx
  · obtain rfl := Option.some.inj (hy.symm.trans hx)
    refine ⟨y', hy', ?_⟩
    cases hchange with
    | own ha hadv => simp [Task.advance, hpc] at hadv
    | token => exact hpc
    | cancelled => exact hpc
    | taken => exact hpc

end
end GnDrive.Sync
