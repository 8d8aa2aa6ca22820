/-
  GnDrive.Sync.Admit

  The mutex `admit` and what `stop` does while it holds it.

  One call of `start_sync` or `stop` at a time holds `admit`.  A stop takes
  every active task out of the map and cancels each, so when it gives `admit`
  back, every task there is has been cancelled or has finished
  (`Harvested.all_ending`).
-/

import GnDrive.Sync.Registry

namespace GnDrive.Sync

section

variable {e e' : Engine} {a : Act} {t : TaskId} {x x' : Task} {j : Nat}

-- ============================================================================
-- Who holds the mutex
-- ============================================================================

inductive AdmitHolder where
  | call (c : Caller)
  | stop (j : Nat)

def HoldsAdmit (e : Engine) : AdmitHolder → Prop
  | .call c => ∃ key running, e.call c = .admitted key running
  | .stop j => ∃ ts now, e.stop j = .cancelling ts now

/-- A step leaves the mutex alone, takes it when it is free, or gives it back. -/
inductive AdmitStep (e e' : Engine) : Prop where
  | kept : e'.admitHeld = e.admitHeld → (∀ h, HoldsAdmit e' h → HoldsAdmit e h) → AdmitStep e e'
  | taken (h₀ : AdmitHolder) : e.admitHeld = false → e'.admitHeld = true →
      (∀ h, HoldsAdmit e' h → h = h₀ ∨ HoldsAdmit e h) → AdmitStep e e'
  | released (h₀ : AdmitHolder) : HoldsAdmit e h₀ → e'.admitHeld = false →
      (∀ h, HoldsAdmit e' h → HoldsAdmit e h ∧ h ≠ h₀) → AdmitStep e e'

theorem holdsAdmit_congr (hcall : e'.call = e.call) (hstop : e'.stop = e.stop) {h : AdmitHolder}
    (hh : HoldsAdmit e' h) : HoldsAdmit e h := by
  cases h with
  | call c => simpa [HoldsAdmit, hcall] using hh
  | stop j => simpa [HoldsAdmit, hstop] using hh

/-- A call goes on to `pc`. -/
theorem holdsAdmit_setCall {c : Caller} {pc : CallPc} {h : AdmitHolder}
    (hh : HoldsAdmit (e.setCall c pc) h) :
    h = .call c ∧ (∃ key b, pc = .admitted key b) ∨ h ≠ .call c ∧ HoldsAdmit e h := by
  cases h with
  | call d =>
    rcases setCall_call e c d pc with ⟨hne, hsame⟩ | ⟨rfl, hself⟩
    · refine .inr ⟨fun hd => hne (AdmitHolder.call.inj hd), ?_⟩
      simpa [HoldsAdmit, hsame] using hh
    · refine .inl ⟨rfl, ?_⟩
      simpa [HoldsAdmit, hself] using hh
  | stop j => exact .inr ⟨by simp, hh⟩

/-- A stop goes on to `pc`. -/
theorem holdsAdmit_setStop {pc : StopPc} {h : AdmitHolder} (hh : HoldsAdmit (e.setStop j pc) h) :
    h = .stop j ∧ (∃ ts now, pc = .cancelling ts now) ∨ h ≠ .stop j ∧ HoldsAdmit e h := by
  cases h with
  | call c => exact .inr ⟨by simp, hh⟩
  | stop i =>
    by_cases hi : i = j
    · subst hi
      refine .inl ⟨rfl, ?_⟩
      simpa [HoldsAdmit, Engine.setStop] using hh
    · refine .inr ⟨fun h => hi (AdmitHolder.stop.inj h), ?_⟩
      simpa [HoldsAdmit, Engine.setStop, hi] using hh

/-- A call goes on without the mutex. -/
theorem AdmitStep.setCall {c : Caller} {pc : CallPc} (hpc : ∀ key b, pc ≠ .admitted key b) :
    AdmitStep e (e.setCall c pc) := by
  refine .kept rfl fun h hh => ?_
  rcases holdsAdmit_setCall hh with ⟨-, key, b, hpc'⟩ | ⟨-, hold⟩
  · exact absurd hpc' (hpc key b)
  · exact hold

/-- A call gives the mutex back. -/
theorem AdmitStep.leave {c : Caller} {p : CallPc} (hc : ∃ key b, e.call c = .admitted key b)
    (hheld : e'.admitHeld = false) (hcall : e'.call = (e.setCall c p).call)
    (hstop : e'.stop = e.stop) (hpc : ∀ key b, p ≠ .admitted key b) : AdmitStep e e' := by
  refine .released (.call c) hc hheld fun h hh => ?_
  rcases holdsAdmit_setCall (holdsAdmit_congr (e := e.setCall c p) hcall hstop hh) with
    ⟨-, key, b, hpc'⟩ | ⟨hne, hold⟩
  · exact absurd hpc' (hpc key b)
  · exact ⟨hold, hne⟩

theorem onTask_stop (e : Engine) (t : TaskId) (f : Task → Task) :
    (e.onTask t f).stop = e.stop := by
  unfold Engine.onTask
  split <;> rfl

theorem onTask_admitHeld (e : Engine) (t : TaskId) (f : Task → Task) :
    (e.onTask t f).admitHeld = e.admitHeld := by
  unfold Engine.onTask
  split <;> rfl

theorem planeStep_stop (e : Engine) : e.planeStep.stop = e.stop := by
  unfold Engine.planeStep
  cases e.plane <;> rfl

theorem planeStep_admitHeld (e : Engine) : e.planeStep.admitHeld = e.admitHeld := by
  unfold Engine.planeStep
  cases e.plane <;> rfl

theorem step_admit (hs : e.step a = some e') : AdmitStep e e' := by
  cases a with
  | plane =>
    obtain rfl := Option.some.inj hs
    exact .kept (planeStep_admitHeld e) fun _ hh =>
      holdsAdmit_congr (planeStep_call e) (planeStep_stop e) hh
  | start =>
    obtain rfl := Option.some.inj hs
    exact .kept rfl fun _ hh => hh
  | stopFlag j =>
    simp only [Engine.step] at hs
    split at hs <;> cases hs
    refine .kept rfl fun h hh => ?_
    rcases holdsAdmit_setStop hh with ⟨-, ts, now, hpc⟩ | ⟨-, hold⟩
    · cases hpc
    · exact hold
  | stopHarvest j =>
    simp only [Engine.step] at hs
    split at hs
    · split at hs <;> cases hs
      rename_i hfree
      refine .taken (.stop j) (by simpa using hfree) rfl fun h hh => ?_
      rcases holdsAdmit_setStop hh with ⟨hj, -⟩ | ⟨-, hold⟩
      · exact .inl hj
      · exact .inr hold
    · cases hs
  | stopCancel j u =>
    have hkept : ∀ {ts now pc f}, e.stop j = .cancelling ts now →
        AdmitStep e ((e.onTask u f).setStop j pc) := by
      intro ts now pc f hj
      refine .kept (onTask_admitHeld e u f) fun h hh => ?_
      rcases holdsAdmit_setStop hh with ⟨rfl, -⟩ | ⟨-, hold⟩
      · exact ⟨ts, now, hj⟩
      · exact holdsAdmit_congr (onTask_call e u f) (onTask_stop e u f) hold
    simp only [Engine.step] at hs
    split at hs
    · rename_i hj
      split at hs <;> cases hs
      exact hkept hj
    · rename_i hj
      split at hs <;> cases hs
      exact hkept hj
    · cases hs
  | stopDone j =>
    simp only [Engine.step] at hs
    split at hs
    · rename_i hj
      cases hs
      refine .released (.stop j) ⟨_, _, hj⟩ rfl fun h hh => ?_
      rcases holdsAdmit_setStop hh with ⟨-, ts, now, hpc⟩ | ⟨hne, hold⟩
      · cases hpc
      · exact ⟨hold, hne⟩
    · cases hs
  | startSync c key found =>
    simp only [Engine.step] at hs
    split at hs <;> cases hs
    apply AdmitStep.setCall
    intro key b
    split_ifs <;> simp
  | startPathSync c key paths =>
    simp only [Engine.step] at hs
    split at hs <;> cases hs
    apply AdmitStep.setCall
    intro key b
    split_ifs <;> simp
  | check c =>
    simp only [Engine.step] at hs
    split at hs
    · split at hs <;> cases hs
      · exact .setCall (by simp)
      · rename_i key hc _
        refine .kept rfl fun h hh => ?_
        rcases holdsAdmit_setCall hh with ⟨-, key, b, hpc⟩ | ⟨-, hold⟩
        · cases hpc
        · exact holdsAdmit_congr rfl rfl hold
    · cases hs
  | takeAdmit c =>
    simp only [Engine.step] at hs
    split at hs
    · split at hs <;> cases hs
      rename_i hfree
      refine .taken (.call c) (by simpa using hfree) rfl fun h hh => ?_
      rcases holdsAdmit_setCall hh with ⟨hc, -⟩ | ⟨-, hold⟩
      · exact .inl hc
      · exact .inr hold
    · cases hs
  | enter c u =>
    simp only [Engine.step] at hs
    split at hs
    · rename_i key hc
      cases hs
      exact .leave ⟨key, false, hc⟩ rfl rfl rfl (p := .refused .notRunning) (by simp)
    · rename_i key hc
      split at hs <;> cases hs
      exact .leave ⟨key, true, hc⟩ rfl rfl rfl (p := .returned u) (by simp)
    · cases hs
  | stopSync c u =>
    simp only [Engine.step] at hs
    split at hs
    · cases hs
    · split at hs <;> cases hs <;> exact .setCall (by simp)
  | cancel c =>
    have hkept : ∀ {u f pc}, (∀ key b, pc ≠ .admitted key b) →
        AdmitStep e ((e.onTask u f).setCall c pc) := by
      intro u f pc hpc
      refine .kept (onTask_admitHeld e u f) fun h hh => ?_
      rcases holdsAdmit_setCall hh with ⟨-, key, b, hpc'⟩ | ⟨-, hold⟩
      · exact absurd hpc' (hpc key b)
      · exact holdsAdmit_congr (onTask_call e u f) (onTask_stop e u f) hold
    simp only [Engine.step] at hs
    split at hs
    · cases hs
      exact hkept (by simp)
    · cases hs
      exact hkept (by simp)
    · cases hs
  | task u answer =>
    simp only [Engine.step] at hs
    split at hs
    · cases hs
    · obtain ⟨y, -, rfl⟩ := Option.map_eq_some_iff.mp hs
      split
      · exact .kept rfl fun _ hh => holdsAdmit_congr rfl rfl hh
      · exact .kept rfl fun _ hh => holdsAdmit_congr rfl rfl hh
  | take u =>
    simp only [Engine.step] at hs
    split at hs
    · cases hs
    · split at hs <;> cases hs
      exact .kept rfl fun _ hh => holdsAdmit_congr rfl rfl hh

/-- The mutex is held by one thread at most. -/
structure OneAdmitted (e : Engine) : Prop where
  held : ∀ h, HoldsAdmit e h → e.admitHeld = true
  one : ∀ h h', HoldsAdmit e h → HoldsAdmit e h' → h = h'

theorem OneAdmitted.step (h : OneAdmitted e) (hs : e.step a = some e') : OneAdmitted e' := by
  cases step_admit hs with
  | kept hheld hold =>
    refine ⟨fun h₁ hh => ?_, fun h₁ h₂ hh₁ hh₂ => h.one _ _ (hold _ hh₁) (hold _ hh₂)⟩
    rw [hheld]
    exact h.held h₁ (hold h₁ hh)
  | taken h₀ hfree hheld hold =>
    have hnone : ∀ h₁, ¬ HoldsAdmit e h₁ := by
      intro h₁ hh
      rw [h.held h₁ hh] at hfree
      cases hfree
    have honly : ∀ h₁, HoldsAdmit e' h₁ → h₁ = h₀ := fun h₁ hh =>
      (hold h₁ hh).resolve_right (hnone h₁)
    exact ⟨fun _ _ => hheld, fun h₁ h₂ hh₁ hh₂ => (honly h₁ hh₁).trans (honly h₂ hh₂).symm⟩
  | released h₀ hheld hfree hold =>
    have hnone : ∀ h₁, ¬ HoldsAdmit e' h₁ := fun h₁ hh =>
      (hold h₁ hh).2 (h.one _ _ (hold h₁ hh).1 hheld)
    exact ⟨fun h₁ hh => absurd hh (hnone h₁), fun h₁ _ hh _ => absurd hh (hnone h₁)⟩

-- ============================================================================
-- What a stop does to the tasks
-- ============================================================================

/-- The task has been cancelled, or its thread has ended. -/
def Ending (e : Engine) (t : TaskId) : Prop :=
  ∃ x, e.task t = some x ∧ (x.token = true ∨ ∃ st, x.pc = .finished st)

theorem Task.advance_token {answer : Answer} (h : x.advance e answer = some x') :
    x'.token = x.token := by
  unfold Task.advance at h
  split at h
  case h_4 => split at h <;> cases h <;> rfl
  all_goals cases h
  all_goals rfl

theorem Change.token_kept (h : Change e a t x x') (hx : x.token = true) : x'.token = true := by
  cases h with
  | own _ hadv => rw [Task.advance_token hadv, hx]
  | token => rfl
  | cancelled => exact hx
  | taken => exact hx

theorem Ending.step (h : Ending e t) (hs : e.step a = some e') : Ending e' t := by
  obtain ⟨x, hx, htoken | ⟨st, hpc⟩⟩ := h
  · rcases step_task hs t with hsame | ⟨-, -, -, -, hnone, -⟩ | ⟨y, y', hy, hy', hchange⟩
    · exact ⟨x, hsame.trans hx, .inl htoken⟩
    · rw [hnone] at hx
      cases hx
    · obtain rfl := Option.some.inj (hy.symm.trans hx)
      exact ⟨y', hy', .inl (hchange.token_kept htoken)⟩
  · obtain ⟨x', hx', hpc'⟩ := finished_step hs hx hpc
    exact ⟨x', hx', .inr ⟨st, hpc'⟩⟩

/-- Where a step can bring the stop `j`. -/
inductive StopChange (e : Engine) (a : Act) (j : Nat) (e' : Engine) : Prop where
  | flagged : e.stop j = .idle → e'.stop j = .flagged → StopChange e a j e'
  | harvested : a = .stopHarvest j → e.stop j = .flagged → e'.stop j = .cancelling e.active none →
      StopChange e a j e'
  | token {ts : List TaskId} {t : TaskId} : e.stop j = .cancelling ts none →
      e'.stop j = .cancelling ts (some t) →
      (∀ x, e.task t = some x → ∃ x', e'.task t = some x' ∧ x'.token = true) → StopChange e a j e'
  | status {ts : List TaskId} {t : TaskId} : e.stop j = .cancelling ts (some t) →
      e'.stop j = .cancelling (ts.erase t) none → StopChange e a j e'
  | done : e.stop j = .cancelling [] none → e'.stop j = .idle → StopChange e a j e'

theorem setStop_stop (e : Engine) (i : Nat) (pc : StopPc) (j : Nat) :
    j ≠ i ∧ (e.setStop i pc).stop j = e.stop j ∨ j = i ∧ (e.setStop i pc).stop j = pc := by
  by_cases hj : j = i
  · subst hj
    exact .inr ⟨rfl, by simp [Engine.setStop]⟩
  · exact .inl ⟨hj, by simp [Engine.setStop, hj]⟩

theorem step_stop (hs : e.step a = some e') (j : Nat) :
    e'.stop j = e.stop j ∧ a ≠ .stopHarvest j ∨ StopChange e a j e' := by
  cases a with
  | plane =>
    obtain rfl := Option.some.inj hs
    exact .inl ⟨by rw [planeStep_stop], by simp⟩
  | start =>
    obtain rfl := Option.some.inj hs
    exact .inl ⟨rfl, by simp⟩
  | stopFlag i =>
    simp only [Engine.step] at hs
    split at hs <;> cases hs
    rename_i hi
    rcases setStop_stop { e with running := false } i .flagged j with ⟨-, h⟩ | ⟨rfl, h⟩
    · exact .inl ⟨h, by simp⟩
    · exact .inr (.flagged hi h)
  | stopHarvest i =>
    simp only [Engine.step] at hs
    split at hs
    · rename_i hi
      split at hs <;> cases hs
      rcases setStop_stop { e with admitHeld := true, active := [], busy := fun _ => false } i
        (.cancelling e.active none) j with ⟨hne, h⟩ | ⟨rfl, h⟩
      · exact .inl ⟨h, by simpa using fun hji => hne hji.symm⟩
      · exact .inr (.harvested rfl hi h)
    · cases hs
  | stopCancel i u =>
    simp only [Engine.step] at hs
    split at hs
    · rename_i ts hi
      split at hs <;> cases hs
      rcases setStop_stop (e.onTask u fun x => { x with token := true }) i
        (.cancelling ts (some u)) j with ⟨-, h⟩ | ⟨rfl, h⟩
      · exact .inl ⟨by rw [h, onTask_stop], by simp⟩
      · refine .inr (.token hi h fun x hx => ⟨{ x with token := true }, ?_, rfl⟩)
        simp [Engine.onTask, hx, Engine.setTask]
    · rename_i ts now hi
      split at hs <;> cases hs
      rename_i hu
      subst hu
      rcases setStop_stop (e.onTask u fun x => { x with status := .cancelled }) i
        (.cancelling (ts.erase u) none) j with ⟨-, h⟩ | ⟨rfl, h⟩
      · exact .inl ⟨by rw [h, onTask_stop], by simp⟩
      · exact .inr (.status hi h)
    · cases hs
  | stopDone i =>
    simp only [Engine.step] at hs
    split at hs
    · rename_i hi
      cases hs
      rcases setStop_stop { e with admitHeld := false } i .idle j with ⟨-, h⟩ | ⟨rfl, h⟩
      · exact .inl ⟨h, by simp⟩
      · exact .inr (.done hi h)
    · cases hs
  | startSync c key found =>
    simp only [Engine.step] at hs
    split at hs <;> cases hs
    exact .inl ⟨rfl, by simp⟩
  | startPathSync c key paths =>
    simp only [Engine.step] at hs
    split at hs <;> cases hs
    exact .inl ⟨rfl, by simp⟩
  | check c =>
    simp only [Engine.step] at hs
    split at hs
    · split at hs <;> cases hs <;> exact .inl ⟨rfl, by simp⟩
    · cases hs
  | takeAdmit c =>
    simp only [Engine.step] at hs
    split at hs
    · split at hs <;> cases hs
      exact .inl ⟨rfl, by simp⟩
    · cases hs
  | enter c u =>
    simp only [Engine.step] at hs
    split at hs
    · cases hs
      exact .inl ⟨rfl, by simp⟩
    · split at hs <;> cases hs
      exact .inl ⟨rfl, by simp⟩
    · cases hs
  | stopSync c u =>
    simp only [Engine.step] at hs
    split at hs
    · cases hs
    · split at hs <;> cases hs <;> exact .inl ⟨rfl, by simp⟩
  | cancel c =>
    simp only [Engine.step] at hs
    split at hs
    · cases hs
      exact .inl ⟨by rw [show (Engine.setCall _ _ _).stop = _ from onTask_stop e _ _], by simp⟩
    · cases hs
      exact .inl ⟨by rw [show (Engine.setCall _ _ _).stop = _ from onTask_stop e _ _], by simp⟩
    · cases hs
  | task u answer =>
    simp only [Engine.step] at hs
    split at hs
    · cases hs
    · obtain ⟨y, -, rfl⟩ := Option.map_eq_some_iff.mp hs
      split
      · exact .inl ⟨rfl, by simp⟩
      · exact .inl ⟨rfl, by simp⟩
  | take u =>
    simp only [Engine.step] at hs
    split at hs
    · cases hs
    · split at hs <;> cases hs
      exact .inl ⟨rfl, by simp⟩

theorem harvest_stop (hs : e.step (.stopHarvest j) = some e') :
    e'.stop j = .cancelling e.active none := by
  simp only [Engine.step] at hs
  split at hs
  · split at hs <;> cases hs
    simp [Engine.setStop]
  · cases hs

theorem enter_spec {c : Caller} {key : Key} (hs : e.step (.enter c t) = some e')
    (hc : e.call c = .admitted key true) : e'.task t = some (.new key) ∧ t ∈ e'.active := by
  simp only [Engine.step, hc] at hs
  split at hs <;> cases hs
  exact ⟨by simp [Engine.setTask], List.mem_cons_self⟩

/-- A task that leaves the map on its own has finished. -/
theorem released_finished {answer : Answer} (hs : e.step (.task t answer) = some e')
    (hx : e.task t = some x) (hrel : x.releases = true) : Ending e' t := by
  obtain ⟨st, hpc⟩ : ∃ st, x.pc = .releasing st := by
    unfold Task.releases at hrel
    split at hrel
    · exact ⟨_, by assumption⟩
    · cases hrel
  simp only [Engine.step, hx, Task.advance, hpc, hrel, Option.map_some, if_true] at hs
  obtain rfl := Option.some.inj hs
  exact ⟨{ x with outcome := some st, pc := .finished st }, by simp [Engine.setTask], .inr ⟨st, rfl⟩⟩

/-- While a stop cancels, no task is active; and every task is active, on the
    list of that stop, or ending. -/
structure Harvested (e : Engine) : Prop where
  mutex : OneAdmitted e
  active : ∀ j ts now, e.stop j = .cancelling ts now → e.active = []
  now : ∀ j ts t, e.stop j = .cancelling ts (some t) →
    ∀ x, e.task t = some x → x.token = true
  task : ∀ t x, e.task t = some x → t ∈ e.active ∨ Ending e t ∨
    ∃ j ts now, e.stop j = .cancelling ts now ∧ t ∈ ts

theorem harvested_initial : Harvested .initial where
  mutex := by
    refine ⟨fun h hh => ?_, fun h h' hh _ => ?_⟩
    · cases h <;> obtain ⟨_, _, hh⟩ := hh <;> cases hh
    · cases h <;> obtain ⟨_, _, hh⟩ := hh <;> cases hh
  active _ _ _ h := by cases h
  now _ _ _ h := by cases h
  task _ _ h := by cases h

namespace Harvested

/-- While a stop cancels, no call registers a task. -/
theorem no_entry (h : Harvested e) {ts : List TaskId} {now : Option TaskId}
    (hj : e.stop j = .cancelling ts now) {c : Caller} {key : Key} {b : Bool} :
    e.call c ≠ .admitted key b := by
  intro hc
  cases h.mutex.one (.call c) (.stop j) ⟨key, b, hc⟩ ⟨ts, now, hj⟩

theorem active_step (h : Harvested e) (hs : e.step a = some e') {ts : List TaskId}
    {now : Option TaskId} (hj : e'.stop j = .cancelling ts now) : e'.active = [] := by
  have hbefore : (∃ ts now, e.stop j = .cancelling ts now) → e'.active = [] := by
    rintro ⟨ts₀, now₀, hj₀⟩
    have hempty := h.active j ts₀ now₀ hj₀
    cases step_registry hs with
    | same _ hactive _ => rw [hactive, hempty]
    | reserved _ _ hactive _ _ => rw [hactive, hempty]
    | refused _ _ _ hactive => rw [hactive, hempty]
    | entered _ hc _ _ _ _ => exact absurd hc (h.no_entry hj₀)
    | released _ _ _ _ hactive => rw [hactive, hempty, List.erase_nil]
    | harvested _ _ hactive => exact hactive
  rcases step_stop hs j with ⟨hsame, -⟩ | hchange
  · exact hbefore ⟨ts, now, hsame ▸ hj⟩
  cases hchange with
  | flagged _ h' =>
    rw [h'] at hj
    cases hj
  | harvested ha _ _ =>
    cases step_registry hs with
    | harvested _ _ hactive => exact hactive
    | same _ _ _ =>
      subst ha
      simp only [Engine.step] at hs
      split at hs
      · split at hs <;> cases hs
        rfl
      · cases hs
    | _ => simp_all
  | token h₀ _ _ => exact hbefore ⟨_, _, h₀⟩
  | status h₀ _ => exact hbefore ⟨_, _, h₀⟩
  | done _ h' =>
    rw [h'] at hj
    cases hj

/-- A task that a stop has cancelled keeps its token. -/
theorem now_step (h : Harvested e) (hs : e.step a = some e') {ts : List TaskId}
    (hj : e'.stop j = .cancelling ts (some t)) (hx : e'.task t = some x') : x'.token = true := by
  have hbefore : ∀ ts now, e.stop j = .cancelling ts now →
      (∀ x, e.task t = some x → x.token = true) → x'.token = true := by
    intro ts₀ now₀ hj₀ htoken
    rcases step_task hs t with hsame | ⟨c, key, -, hc, -⟩ | ⟨y, y', hy, hy', hchange⟩
    · exact htoken x' (hsame ▸ hx)
    · exact absurd hc (h.no_entry hj₀)
    · obtain rfl := Option.some.inj (hy'.symm.trans hx)
      exact hchange.token_kept (htoken y hy)
  rcases step_stop hs j with ⟨hsame, -⟩ | hchange
  · exact hbefore ts (some t) (hsame ▸ hj) (h.now j ts t (hsame ▸ hj))
  cases hchange with
  | flagged _ h' | harvested _ _ h' | status _ h' | done _ h' =>
    rw [h'] at hj
    cases hj
  | token h₀ h' hset =>
    rw [h'] at hj
    cases hj
    rcases step_task hs t with hsame | ⟨c, key, -, hc, -⟩ | ⟨y, y', hy, -, -⟩
    · obtain ⟨y, hy, htoken⟩ := hset x' (hsame ▸ hx)
      obtain rfl := Option.some.inj (hy.symm.trans hx)
      exact htoken
    · exact absurd hc (h.no_entry h₀)
    · obtain ⟨y', hy', htoken⟩ := hset y hy
      obtain rfl := Option.some.inj (hy'.symm.trans hx)
      exact htoken

/-- A task leaves the map when it finishes or when a stop takes it. -/
theorem active_leave (hs : e.step a = some e') (ht : t ∈ e.active) :
    t ∈ e'.active ∨ Ending e' t ∨ ∃ j ts now, e'.stop j = .cancelling ts now ∧ t ∈ ts := by
  cases step_registry hs with
  | same _ hactive _ | reserved _ _ hactive _ _ | refused _ _ _ hactive =>
    rw [hactive]
    exact .inl ht
  | entered _ _ _ _ _ hactive =>
    rw [hactive]
    exact .inl (.tail _ ht)
  | @released u answer y ha hy hrel _ hactive =>
    by_cases htu : t = u
    · subst htu ha
      exact .inr (.inl (released_finished hs hy hrel))
    · rw [hactive]
      exact .inl ((List.mem_erase_of_ne htu).mpr ht)
  | harvested ha _ _ =>
    obtain ⟨i, rfl⟩ := ha
    exact .inr (.inr ⟨i, e.active, none, harvest_stop hs, ht⟩)

/-- A task leaves the list of a stop when the stop has cancelled it. -/
theorem list_leave (h : Harvested e) (hs : e.step a = some e') (hx : e.task t = some x)
    {ts : List TaskId} {now : Option TaskId} (hj : e.stop j = .cancelling ts now) (ht : t ∈ ts) :
    Ending e' t ∨ ∃ ts now, e'.stop j = .cancelling ts now ∧ t ∈ ts := by
  rcases step_stop hs j with ⟨hsame, -⟩ | hchange
  · exact .inr ⟨ts, now, hsame.trans hj, ht⟩
  cases hchange with
  | flagged h₀ _ | harvested _ h₀ _ =>
    rw [h₀] at hj
    cases hj
  | token h₀ h' _ =>
    rw [h₀] at hj
    cases hj
    exact .inr ⟨ts, _, h', ht⟩
  | @status _ u h₀ h' =>
    rw [h₀] at hj
    cases hj
    by_cases htu : t = u
    · subst htu
      have hending : Ending e t := ⟨x, hx, .inl (h.now j ts t h₀ x hx)⟩
      exact .inl (hending.step hs)
    · exact .inr ⟨_, none, h', (List.mem_erase_of_ne htu).mpr ht⟩
  | done h₀ _ =>
    rw [h₀] at hj
    cases hj
    cases ht

/-- Step lemma. -/
theorem step (h : Harvested e) (hs : e.step a = some e') : Harvested e' where
  mutex := h.mutex.step hs
  active _ _ _ hj := h.active_step hs hj
  now _ _ _ hj _ hx := h.now_step hs hj hx
  task t x' hx' := by
    have hold : ∀ x, e.task t = some x →
        t ∈ e'.active ∨ Ending e' t ∨ ∃ j ts now, e'.stop j = .cancelling ts now ∧ t ∈ ts := by
      intro x hx
      rcases h.task t x hx with hactive | hending | ⟨j, ts, now, hj, ht⟩
      · exact active_leave hs hactive
      · exact .inr (.inl (hending.step hs))
      · rcases h.list_leave hs hx hj ht with hending | hlist
        · exact .inr (.inl hending)
        · exact .inr (.inr ⟨j, hlist⟩)
    rcases step_task hs t with hsame | ⟨c, key, ha, hc, -⟩ | ⟨x, -, hx, -⟩
    · exact hold x' (hsame ▸ hx')
    · subst ha
      exact .inl (enter_spec hs hc).2
    · exact hold x hx

/-- When a stop has cancelled all it took, every task is ending. -/
theorem all_ending (h : Harvested e) (hj : e.stop j = .cancelling [] none)
    (hx : e.task t = some x) : Ending e t := by
  rcases h.task t x hx with hactive | hending | ⟨i, ts, now, hi, ht⟩
  · rw [h.active j [] none hj] at hactive
    cases hactive
  · exact hending
  · cases h.mutex.one (.stop i) (.stop j) ⟨ts, now, hi⟩ ⟨[], none, hj⟩
    rw [hj] at hi
    cases hi
    cases ht

end Harvested

end

end GnDrive.Sync
