/-
  GnDrive.Sync.Leftover

  What a finished flow leaves behind.

  When `wait_task` finds the flow cancelled it leaves the task running;
  `run_ops` then asks the task to stop and ends the run without waiting for it.
  The task keeps its place in the active map and its busy key until its thread
  is done, and a start of the same flow in the meantime is refused.
  `flow_leaves_nothing` says that a flow whose wait gives up only on finished
  tasks leaves no task and no busy key behind.
-/

import GnDrive.Sync.FlowRuns

namespace GnDrive.Sync

/-- A wait of the flow `f` gives up only on a task that has finished. -/
def givesUpFinished (f : String) (s : FlowRuns) : FlowAct → Bool
  | .giveUp g =>
      match s.flows.pc g with
      | .waiting _ t _ => g != f || (s.engine.task t).all fun x => !x.unfinished
      | _ => true
  | _ => true

/-- The thread is still going to take the outcome of the task. -/
def Awaited (e : Engine) (f : String) (t : TaskId) : FlowPc → Prop
  | .starting _ _ => e.call (.flow f) = .returned t
  | .waiting _ u _ => u = t
  | _ => False

/-- The tasks of the flow have finished or are awaited. -/
def Settled (e : Engine) (f : String) (owner : TaskId → Option Caller) (pc : FlowPc) : Prop :=
  ∀ t, owner t = some (.flow f) → (∃ st, FinishedAs e t st) ∨ Awaited e f t pc

/-- Every active task was registered by a caller. -/
def Owned (e : Engine) (owner : TaskId → Option Caller) : Prop :=
  ∀ t ∈ e.active, ∃ c, owner t = some c

section

variable {s s' : FlowRuns} {m : Flows} {fa : FlowAct} {a : Act} {e e' : Engine} {f : String}
  {t : TaskId} {pc : FlowPc} {owner : TaskId → Option Caller}

theorem recordOwner_cases (s : FlowRuns) (fa : FlowAct) (t : TaskId) :
    s.recordOwner fa t = s.owner t ∨ ∃ c key, fa = .engine (.enter c t) ∧
      s.engine.call c = .admitted key true ∧ s.recordOwner fa t = some c := by
  cases fa with
  | engine a =>
    cases a with
    | enter c u =>
      cases hc : s.engine.call c with
      | admitted key b =>
        cases b with
        | false => exact .inl (by simp [FlowRuns.recordOwner, hc])
        | true =>
          by_cases hu : t = u
          · subst hu
            exact .inr ⟨c, key, rfl, hc, by simp [FlowRuns.recordOwner, hc]⟩
          · exact .inl (by simp [FlowRuns.recordOwner, hc, hu])
      | _ => exact .inl (by simp [FlowRuns.recordOwner, hc])
    | _ => exact .inl rfl
  | _ => exact .inl rfl

theorem recordOwner_other (hfa : ∀ a, fa ≠ .engine a) : s.recordOwner fa = s.owner := by
  cases fa with
  | engine a => exact absurd rfl (hfa a)
  | _ => rfl

theorem finished_flow_step (hs : s.flows.step fa = some m) (h : ∃ st, FinishedAs s.engine t st) :
    ∃ st, FinishedAs m.engine t st :=
  h.imp fun st hfin => flow_engine_step (FinishedAs · t st) hs hfin fun _ ha => hfin.step ha

theorem Awaited.of_call (h : Awaited e f t pc) (hcall : e'.call (.flow f) = e.call (.flow f)) :
    Awaited e' f t pc := by
  cases pc with
  | starting op rest => exact hcall.trans h
  | _ => exact h

/-- A thread in the middle of a call awaits no task. -/
theorem not_awaited {ops : List Op} {ts : List TaskId} (hprog : Progress e f ops ts pc)
    (hcall : e.free (.flow f) = false) : ¬ Awaited e f t pc := by
  intro h
  cases pc with
  | starting op rest =>
    simp only [Awaited] at h
    simp [Engine.free, h] at hcall
  | waiting op u rest => exact absurd hprog.2 (by simp [hcall])
  | _ => exact h

theorem settled_engine (ho : Orderly s) (h : Settled s.engine f s.owner (s.flows.pc f))
    (hown : a.byFlow = false) (hs : s.engine.step a = some e) :
    Settled e f (s.recordOwner (.engine a)) (s.flows.pc f) := by
  have hold : ∀ t, s.owner t = some (.flow f) → s.engine.free (.flow f) = false →
      ∃ st, FinishedAs e t st := fun t ht hcall =>
    (((h t ht).resolve_right (not_awaited (ho.progress f) hcall))).imp fun _ hfin => hfin.step hs
  intro t ht
  rcases recordOwner_cases s (.engine a) t with hsame | ⟨c, key, hfa, hc, hnew⟩
  · rw [hsame] at ht
    cases step_flow_call hs hown f with
    | still hcall =>
      exact (h t ht).imp (fun hfin => hfin.imp fun _ hf => hf.step hs) fun haw => haw.of_call hcall
    | checked _ hc => exact .inl (hold t ht (by simp [Engine.free, hc]))
    | admitted _ hc => exact .inl (hold t ht (by simp [Engine.free, hc]))
    | refused _ hc => exact .inl (hold t ht (by simp [Engine.free, hc]))
    | entered _ hc => exact .inl (hold t ht (by simp [Engine.free, hc]))
    | cancelled _ hc => exact .inl (hold t ht (by simp [Engine.free, hc]))
  · obtain rfl := Option.some.inj (hnew.symm.trans ht)
    cases hfa
    obtain ⟨op, rest, hpc, -, -⟩ := (ho.progress f).starting (.inr (.inr ⟨_, hc⟩))
    rw [hpc]
    cases step_flow_call hs hown f with
    | still _ hne => exact absurd rfl (hne t)
    | entered ha _ hret =>
      cases ha
      exact .inr hret
    | refused ha hc' =>
      rw [hc] at hc'
      cases hc'
    | checked ha | admitted ha | cancelled ha => cases ha

theorem finished_or_awaited (h : Settled s.engine f s.owner pc) (ht : s.owner t = some (.flow f))
    (hs : s.flows.step fa = some m) : (∃ st, FinishedAs m.engine t st) ∨ Awaited s.engine f t pc :=
  (h t ht).imp (finished_flow_step hs) id

theorem finished_of_not_unfinished {x : Task} (h : x.unfinished = false) :
    ∃ st, x.pc = .finished st := by
  unfold Task.unfinished at h
  split at h
  · exact ⟨_, ‹_›⟩
  · cases h

theorem Settled.of_not_awaited (h : Settled s.engine f s.owner (s.flows.pc f))
    (hno : ∀ t, ¬ Awaited s.engine f t (s.flows.pc f)) (hs : s.flows.step fa = some m) :
    Settled m.engine f s.owner pc := fun t ht =>
  .inl (finished_flow_step hs ((h t ht).resolve_right (hno t)))

/-- The thread goes on to wait for the task that it has just registered. -/
theorem settled_next (h : Settled s.engine f s.owner (s.flows.pc f))
    (hs : s.flows.step (.next f) = some m) : Settled m.engine f s.owner (m.pc f) := by
  have hrun := hs
  simp only [Flows.step, Flows.runOps] at hrun
  split at hrun
  · rename_i hpc
    exact h.of_not_awaited (by rw [hpc]; exact fun _ => id) hs
  · rename_i hpc
    exact h.of_not_awaited (by rw [hpc]; exact fun _ => id) hs
  · rename_i op rest hpc
    split at hrun
    · rename_i u hc
      cases hrun
      intro t ht
      refine (finished_or_awaited h ht hs).imp id fun haw => ?_
      rw [hpc] at haw
      have hu : u = t := CallPc.returned.inj (hc.symm.trans haw)
      simpa [Flows.setPc, Awaited] using hu
    · rename_i err hc
      refine h.of_not_awaited (fun t haw => ?_) hs
      rw [hpc] at haw
      cases hc.symm.trans haw
    · cases hrun
  · rename_i hpc
    exact h.of_not_awaited (by rw [hpc]; exact fun _ => id) hs
  · rename_i hpc
    exact h.of_not_awaited (by rw [hpc]; exact fun _ => id) hs
  · cases hrun

/-- Step lemma. -/
theorem settled_step (ho : Orderly s) (h : Settled s.engine f s.owner (s.flows.pc f))
    (hok : givesUpFinished f s fa = true) (hs : s.flows.step fa = some m) :
    Settled m.engine f (s.recordOwner fa) (m.pc f) := by
  by_cases hnext : fa = .next f
  · subst hnext
    exact settled_next h hs
  by_cases hgive : fa = .giveUp f
  · subst hgive
    have hrun := hs
    simp only [Flows.step] at hrun
    split at hrun
    · rename_i op u rest hpc
      intro t ht
      refine .inl (finished_flow_step hs ((h t ht).elim id fun haw => ?_))
      -- the task that is given up has finished
      rw [hpc] at haw
      obtain rfl : u = t := haw
      obtain ⟨-, -, -, x, hx, -⟩ := (hpc ▸ ho.progress f).1
      simp only [givesUpFinished, hpc, hx, bne_self_eq_false, Bool.false_or, Option.all_some,
        Bool.not_eq_true'] at hok
      exact (finished_of_not_unfinished hok).imp fun _ hfin => ⟨x, hx, hfin⟩
    · cases hrun
  by_cases htake : fa = .take f
  · subst htake
    have hrun := hs
    simp only [Flows.step] at hrun
    split at hrun
    · rename_i op u rest hpc
      split at hrun
      · cases hrun
      · rename_i st hst
        intro t ht
        refine .inl (finished_flow_step hs ((h t ht).elim id fun haw => ?_))
        rw [hpc] at haw
        obtain rfl : u = t := haw
        obtain ⟨x, hx, hout⟩ := Option.bind_eq_some_iff.mp hst
        exact ⟨st, x, hx, ho.registered.outcome u x hx st hout⟩
    · cases hrun
  by_cases hbegin : ∃ ops, fa = .begin f ops
  · obtain ⟨ops, rfl⟩ := hbegin
    refine h.of_not_awaited (fun t haw => ?_) hs
    have hrun := hs
    simp only [Flows.step] at hrun
    split at hrun
    · cases hrun
    · rename_i hguard
      simp only [Flows.isRunning, Bool.or_eq_true, not_or] at hguard
      split at hguard
      · rename_i hpc
        rw [hpc] at haw
        exact haw
      · rename_i hpc
        rw [hpc] at haw
        exact haw
      · exact hguard.1.1 rfl
  by_cases hengine : ∃ a, fa = .engine a
  · obtain ⟨a, rfl⟩ := hengine
    simp only [Flows.step] at hs
    split at hs
    · cases hs
    · rename_i hown
      obtain ⟨e, he, rfl⟩ := Option.map_eq_some_iff.mp hs
      exact settled_engine ho h (by simpa using hown) he
  obtain ⟨hpc, hcall⟩ := flow_others hs (not_exists.mp hbegin) hnext hgive htake
  rw [recordOwner_other (not_exists.mp hengine), hpc]
  rcases hcall with hcall | ⟨a, hfa, -⟩
  · exact fun t ht => (finished_or_awaited h ht hs).imp id fun haw => haw.of_call hcall
  · exact absurd ⟨a, hfa⟩ hengine

/-- A task is registered by the caller that is recorded as its owner. -/
theorem owned_step (h : Owned s.engine s.owner) (hs : s.flows.step fa = some m) :
    Owned m.engine (s.recordOwner fa) := by
  have hkeep : ∀ t, (∃ c, s.owner t = some c) → ∃ c, s.recordOwner fa t = some c := by
    intro t ht
    rcases recordOwner_cases s fa t with hsame | ⟨c, -, -, -, hnew⟩
    · exact hsame ▸ ht
    · exact ⟨c, hnew⟩
  intro t ht
  rcases (flow_step hs).1 with heng | ⟨a, ha, hfa⟩
  · rw [heng] at ht
    exact hkeep t (h t ht)
  · cases step_registry ha with
    | same _ hact => exact hkeep t (h t (hact ▸ ht))
    | reserved _ _ hact => exact hkeep t (h t (hact ▸ ht))
    | refused _ _ _ hact => exact hkeep t (h t (hact ▸ ht))
    | released _ _ _ _ hact => exact hkeep t (h t (List.mem_of_mem_erase (hact ▸ ht)))
    | harvested _ _ hact =>
      rw [hact] at ht
      cases ht
    | @entered c u key henter hc _ _ _ hact =>
      rcases hfa with rfl | hthread
      · rcases List.mem_cons.mp (hact ▸ ht) with rfl | ht
        · subst henter
          exact ⟨c, by simp only [FlowRuns.recordOwner, hc, Function.update_self]⟩
        · exact hkeep t (h t ht)
      · rw [henter] at hthread
        cases hthread

end

/-- In every run in which the waits of the flow `f` give up only on tasks that
    have finished: once `f` has ended, every task it ever registered has
    finished, each active task is another caller's, and so is whatever holds a
    busy key of `f`. -/
theorem flow_leaves_nothing {f : String} {s : FlowRuns}
    (h : runsSystem.ReachableIf (fun s fa => givesUpFinished f s fa = true) s) {st : Status}
    (hend : s.flows.pc f = .ended st) :
    (∀ t, s.owner t = some (.flow f) → ∃ st, FinishedAs s.engine t st) ∧
    (∀ t ∈ s.engine.active, ∃ c, c ≠ .flow f ∧ s.owner t = some c) ∧
    ∀ op, s.engine.busy (busyKey f op) = true →
      ∃ holder, Holds s.engine (busyKey f op) holder ∧ holder ≠ .call (.flow f) ∧
        ∀ t, holder = .task t → s.owner t ≠ some (.flow f) := by
  have hall : Orderly s ∧ Settled s.engine f s.owner (s.flows.pc f) ∧ Owned s.engine s.owner := by
    refine System.ReachableIf.invariant (P := fun s : FlowRuns =>
      Orderly s ∧ Settled s.engine f s.owner (s.flows.pc f) ∧ Owned s.engine s.owner) ?_ ?_ h
    · rintro _ rfl
      refine ⟨orderly_initial, ?_, ?_⟩
      · rintro t ⟨⟩
      · rintro t ⟨⟩
    · rintro s fa s' ⟨ho, hset, hown⟩ hok hs
      have ho' := ho.step hs
      obtain ⟨m, hm, rfl⟩ := Option.map_eq_some_iff.mp hs
      exact ⟨ho', settled_step ho hset hok hm, owned_step hown hm⟩
  obtain ⟨ho, hset, hown⟩ := hall
  have hfin : ∀ t, s.owner t = some (.flow f) → ∃ st, FinishedAs s.engine t st := by
    intro t ht
    refine (hset t ht).resolve_right ?_
    rw [hend]
    exact id
  refine ⟨hfin, fun t ht => ?_, fun op hbusy => ?_⟩
  · obtain ⟨c, hc⟩ := hown t ht
    refine ⟨c, fun hcf => ?_, hc⟩
    obtain ⟨st', hst'⟩ := hfin t (hcf ▸ hc)
    exact hst'.not_active ho.registered ht
  · obtain ⟨holder, hholds⟩ := ho.registered.held _ hbusy
    refine ⟨holder, hholds, ?_, ?_⟩
    · rintro rfl
      have hfree := (hend ▸ ho.progress f).1
      rw [Holds, free_key hfree] at hholds
      cases hholds
    · rintro t rfl howner
      obtain ⟨st', x, hx, hpc⟩ := hfin t howner
      obtain ⟨y, hy, hu, -⟩ := hholds
      obtain rfl := Option.some.inj (hx.symm.trans hy)
      rw [Task.unfinished, hpc] at hu
      cases hu

/-- A flow that is stopped while its task is in the client call; the task is
    cancelled by another caller and finishes before the wait gives up. -/
def stoppedInTime : List FlowAct :=
  startedFlow ++ taskSteps 3 ++ [.stop "f", .engine (.stopSync (.rpc 0) 0),
    .engine (.cancel (.rpc 0)), .engine (.cancel (.rpc 0))] ++
    List.replicate 8 (.engine (.task 0 (.error true))) ++ [.giveUp "f", .next "f", .next "f"]

theorem flow_leaves_nothing_stopped :
    ∃ s, runsSystem.runFrom .initial stoppedInTime = some s ∧
      s.flows.pc "f" = .ended .cancelled ∧ s.owner 0 = some (.flow "f") ∧
      ∃ st, FinishedAs s.engine 0 st := by
  have hrun : (runsSystem.runIf (givesUpFinished "f") .initial stoppedInTime).any (fun s =>
      decide (s.flows.pc "f" = .ended .cancelled ∧ s.owner 0 = some (.flow "f"))) = true := by
    decide +kernel
  obtain ⟨s, hs, hend⟩ := (Option.any_eq_true _ _).mp hrun
  obtain ⟨hend, howner⟩ := of_decide_eq_true hend
  exact ⟨s, System.runFrom_of_runIf hs, hend, howner,
    (flow_leaves_nothing (System.runIf_reachableIf (.init rfl) hs) hend).1 0 howner⟩

/-- A flow that is stopped during the client call ends with its task active,
    and is refused when it is started again. -/
def leftRunning : List FlowAct :=
  startedFlow ++ taskSteps 3 ++ [.stop "f", .giveUp "f", .next "f", .engine (.cancel (.flow "f")),
    .engine (.cancel (.flow "f")), .next "f"]

def restartedFlow : List FlowAct :=
  [.begin "f" [⟨"o", true⟩], .next "f", .engine (.check (.flow "f")), .next "f"]

theorem flow_left_task_running :
    (runsSystem.runFrom .initial leftRunning).any (fun s =>
      decide (s.flows.pc "f" = .ended .cancelled ∧ s.owner 0 = some (.flow "f") ∧
        0 ∈ s.engine.active)) = true ∧
    (runsSystem.runFrom .initial (leftRunning ++ restartedFlow)).any (fun s =>
      decide (s.engine.call (.flow "f") = .refused .profileBusy ∧
        s.flows.pc "f" = .ended .failed)) = true := by
  decide +kernel

end GnDrive.Sync
