/-
  GnDrive.Sync.Outcome

  The three records of how a task ended.

  The task thread sets the status, publishes the terminal event, saves the
  history row, and in `Finish::drop` reads the status back for `wait_task`.
  A cancel that writes the status between the first and the last of these
  changes only what `wait_task` gets.  The row is saved through whatever store
  is attached at that point, so a detach or close in between leaves it
  `running`.  `outcomes_agree` says that without these two the records agree.
-/

import GnDrive.Sync.Engine

namespace GnDrive.Sync

/-- The final status is set and `Finish` has not read it yet. -/
def Task.settled (x : Task) : Bool :=
  match x.pc with
  | .publishing _ | .ended _ | .savingFinal _ _ | .finishing => true
  | _ => false

/-- The cancel does not overwrite the status of a task that has settled. -/
def cancelsInTime (e : Engine) (a : Act) : Bool :=
  ((e.cancels a).bind e.task).all fun x => !x.settled || x.status == .cancelled

/-- The final save of a task whose row says `running` has an open store. -/
def savesToOpenStore (e : Engine) : Act → Bool
  | .task t _ => (e.task t).all fun x =>
      match x.pc with
      | .savingFinal _ store => x.row != some .running || store.isSome && store == e.openStore
      | _ => true
  | _ => true

def undisturbed (e : Engine) (a : Act) : Bool := cancelsInTime e a && savesToOpenStore e a

/-- What the finished task's records say: `outcome` is there until `wait_task`
    takes it. -/
def Agree (x : Task) : Prop :=
  ∀ st, x.pc = .finished st → st ≠ .running ∧ x.events = [st] ∧
    (x.row = none ∨ x.row = some st) ∧ (x.outcome = none ∨ x.outcome = some st)

-- ============================================================================
-- What holds at each point of the thread
-- ============================================================================

/-- Nothing says yet how the task ended. -/
structure Unreported (x : Task) : Prop where
  events : x.events = []
  row : x.row = none ∨ x.row = some .running
  outcome : x.outcome = none

/-- The event is out; the row and the outcome are not. -/
structure Published (x : Task) (st : Status) : Prop where
  final : st ≠ .running
  status : x.status = st
  events : x.events = [st]
  row : x.row = none ∨ x.row = some .running
  outcome : x.outcome = none

/-- Everything names `st` but the status may change. -/
structure Recorded (x : Task) (st : Status) : Prop where
  final : st ≠ .running
  events : x.events = [st]
  row : x.row = none ∨ x.row = some st
  outcome : x.outcome = none ∨ x.outcome = some st

def Coherent (x : Task) : Prop :=
  match x.pc with
  | .spawned | .savingRunning _ | .readClient | .calling | .deciding _ => Unreported x
  | .settling st => Unreported x ∧ st ≠ .running
  | .publishing st => Unreported x ∧ st ≠ .running ∧ x.status = st
  | .ended st | .savingFinal st _ => Published x st
  | .finishing => Recorded x x.status
  | .releasing st | .finished st => Recorded x st

section

variable {e : Engine} {a : Act} {t : TaskId} {x x' : Task} {answer : Answer}

theorem saveHistory_cases (e : Engine) (store : Option Nat) (st : Status) (row : Option Status) :
    (store.isSome && store == e.openStore) = true ∧ saveHistory e store st row = some st ∨
      (store.isSome && store == e.openStore) = false ∧ saveHistory e store st row = row := by
  unfold saveHistory
  cases h : store.isSome && store == e.openStore with
  | true => exact .inl ⟨rfl, if_pos rfl⟩
  | false => exact .inr ⟨rfl, if_neg (by simp)⟩

/-- Step lemma: the thread's own steps, one case for each point. -/
theorem Coherent.advance (h : Coherent x)
    (hsave : ∀ st store, x.pc = .savingFinal st store → x.row = some .running →
      (store.isSome && store == e.openStore) = true)
    (hs : x.advance e answer = some x') : Coherent x' := by
  unfold Coherent at h
  cases hpc : x.pc with
  | spawned =>
    simp only [Task.advance, hpc] at h hs
    obtain rfl := Option.some.inj hs
    exact ⟨h.events, h.row, h.outcome⟩
  | savingRunning store =>
    simp only [Task.advance, hpc] at h hs
    obtain rfl := Option.some.inj hs
    refine ⟨h.events, ?_, h.outcome⟩
    rcases saveHistory_cases e store .running x.row with ⟨-, hr⟩ | ⟨-, hr⟩
    · exact .inr hr
    · simpa only [hr] using h.row
  | readClient =>
    simp only [Task.advance, hpc] at h hs
    obtain rfl := Option.some.inj hs
    cases hc : e.client with
    | true => exact ⟨h.events, h.row, h.outcome⟩
    | false => exact ⟨⟨h.events, h.row, h.outcome⟩, by decide⟩
  | calling =>
    simp only [Task.advance, hpc] at h hs
    cases answer with
    | ok =>
      obtain rfl := Option.some.inj hs
      exact ⟨⟨h.events, h.row, h.outcome⟩, by decide⟩
    | error c =>
      obtain rfl := Option.some.inj hs
      exact ⟨h.events, h.row, h.outcome⟩
  | deciding c =>
    simp only [Task.advance, hpc] at h hs
    obtain rfl := Option.some.inj hs
    refine ⟨⟨h.events, h.row, h.outcome⟩, ?_⟩
    split <;> decide
  | settling st =>
    simp only [Task.advance, hpc] at h hs
    obtain rfl := Option.some.inj hs
    exact ⟨⟨h.1.events, h.1.row, h.1.outcome⟩, h.2, rfl⟩
  | publishing st =>
    simp only [Task.advance, hpc] at h hs
    obtain rfl := Option.some.inj hs
    exact ⟨h.2.1, h.2.2, by simp [h.1.events], h.1.row, h.1.outcome⟩
  | ended st =>
    simp only [Task.advance, hpc] at h hs
    obtain rfl := Option.some.inj hs
    exact ⟨h.final, h.status, h.events, h.row, h.outcome⟩
  | savingFinal st store =>
    simp only [Task.advance, hpc] at h hs
    obtain rfl := Option.some.inj hs
    have hrow : saveHistory e store st x.row = none ∨ saveHistory e store st x.row = some st := by
      rcases saveHistory_cases e store st x.row with ⟨-, hr⟩ | ⟨hclosed, hr⟩
      · exact .inr hr
      · rcases h.row with hnone | hrunning
        · exact .inl (hr.trans hnone)
        · rw [hsave st store hpc hrunning] at hclosed
          cases hclosed
    have hst : x.status = st := h.status
    exact ⟨hst ▸ h.final, hst ▸ h.events, hst ▸ hrow, .inl h.outcome⟩
  | finishing =>
    simp only [Task.advance, hpc] at h hs
    obtain rfl := Option.some.inj hs
    have hst : (if (x.status == .running) = true then Status.failed else x.status) = x.status :=
      if_neg (by simpa using h.final)
    rw [hst]
    exact ⟨h.final, h.events, h.row, h.outcome⟩
  | releasing st =>
    simp only [Task.advance, hpc] at h hs
    obtain rfl := Option.some.inj hs
    exact ⟨h.final, h.events, h.row, .inr rfl⟩
  | finished st => simp [Task.advance, hpc] at hs

/-- The records stay, except that the outcome may be taken and the status of a
    task that has not settled may change. -/
theorem Coherent.of_kept (h : Coherent x) (hpc : x'.pc = x.pc) (hrow : x'.row = x.row)
    (hevents : x'.events = x.events) (houtcome : x'.outcome = x.outcome ∨ x'.outcome = none)
    (hstatus : x.settled = true → x'.status = x.status) : Coherent x' := by
  have hnone : x.outcome = none → x'.outcome = none := fun hx => houtcome.elim (·.trans hx) id
  have hunreported : Unreported x → Unreported x' := fun h =>
    ⟨hevents.trans h.events, by rw [hrow]; exact h.row, hnone h.outcome⟩
  have hrecorded : ∀ {st}, Recorded x st → Recorded x' st := fun h =>
    ⟨h.final, hevents.trans h.events, by rw [hrow]; exact h.row,
      h.outcome.elim (fun hx => .inl (hnone hx)) fun hx =>
        houtcome.elim (fun hx' => .inr (hx'.trans hx)) .inl⟩
  unfold Task.settled at hstatus
  unfold Coherent at h ⊢
  rw [hpc]
  cases hx : x.pc with
  | spawned | savingRunning _ | readClient | calling | deciding _ =>
    simp only [hx] at h
    exact hunreported h
  | settling st =>
    simp only [hx] at h
    exact ⟨hunreported h.1, h.2⟩
  | publishing st =>
    simp only [hx] at h hstatus
    exact ⟨hunreported h.1, h.2.1, (hstatus trivial).trans h.2.2⟩
  | ended st | savingFinal st _ =>
    simp only [hx] at h hstatus
    exact ⟨h.final, (hstatus trivial).trans h.status, hevents.trans h.events,
      by rw [hrow]; exact h.row, hnone h.outcome⟩
  | finishing =>
    simp only [hx] at h hstatus
    rw [hstatus trivial]
    exact hrecorded h
  | releasing st | finished st =>
    simp only [hx] at h
    exact hrecorded h

/-- Step lemma: an undisturbed step keeps every task coherent. -/
theorem coherent_step {e' : Engine} (h : ∀ t x, e.task t = some x → Coherent x)
    (hok : undisturbed e a = true) (hs : e.step a = some e') :
    ∀ t x, e'.task t = some x → Coherent x := by
  obtain ⟨hcancel, hsave⟩ := Bool.and_eq_true_iff.mp hok
  refine step_tasks hs h (fun _ _ => ⟨rfl, .inl rfl, rfl⟩) ?_
  intro t x x' hx hc hchange
  cases hchange with
  | own ha hadv =>
    subst ha
    refine hc.advance (fun st store hpc hrow => ?_) hadv
    simpa [savesToOpenStore, hx, hpc, hrow] using hsave
  | token => exact hc.of_kept rfl rfl rfl (.inl rfl) fun _ => rfl
  | cancelled hcan =>
    refine hc.of_kept rfl rfl rfl (.inl rfl) fun hset => ?_
    have hall : (!x.settled || x.status == .cancelled) = true := by
      simpa [cancelsInTime, hcan, hx] using hcancel
    rw [hset] at hall
    exact (beq_iff_eq.mp hall).symm
  | taken => exact hc.of_kept rfl rfl rfl (.inr rfl) fun _ => rfl

end

theorem Coherent.agree {x : Task} (h : Coherent x) : Agree x := by
  intro st hpc
  unfold Coherent at h
  simp only [hpc] at h
  exact ⟨h.final, h.events, h.row, h.outcome⟩

/-- In every run in which no cancel overwrites the status of a task that has
    settled, and every final save that has a running row to replace finds an
    open store, what `wait_task` returns for a finished task, its history row
    and its terminal event name the same outcome, and the row is not left
    running. -/
theorem outcomes_agree {e : Engine}
    (h : engineSystem.ReachableIf (fun e a => undisturbed e a = true) e) :
    ∀ t x, e.task t = some x → Agree x := by
  have hinv : ∀ t x, e.task t = some x → Coherent x := by
    refine System.ReachableIf.invariant (P := fun e : Engine => ∀ t x, e.task t = some x →
      Coherent x) ?_ (fun _ _ _ hp hok hs => coherent_step hp hok hs) h
    rintro _ rfl t x hx
    cases hx
  exact fun t x hx => (hinv t x hx).agree

/-- A started engine with an attached data plane, and a task whose client call
    returns `Ok` and whose thread takes `n` steps. -/
def taskRun (n : Nat) : List Act :=
  [.plane, .plane, .plane, .plane, .start, .startPathSync (.rpc 0) "f:o" true, .check (.rpc 0),
    .takeAdmit (.rpc 0), .enter (.rpc 0) 0] ++ List.replicate n (.task 0 .ok)

def Engine.records (e : Engine) (t : TaskId) :
    Option (TaskPc × Option Status × List Status × Option Status) :=
  (e.task t).map fun x => (x.pc, x.row, x.events, x.outcome)

/-- An undisturbed task. -/
theorem outcomes_agree_completed :
    ∃ e x, engineSystem.runFrom .initial (taskRun 10) = some e ∧ e.task 0 = some x ∧
      x.pc = .finished .completed ∧ Agree x := by
  have hrun : (engineSystem.runIf undisturbed .initial (taskRun 10)).bind (·.records 0)
      = some (.finished .completed, some .completed, [.completed], some .completed) := by
    decide +kernel
  obtain ⟨e, he, hr⟩ := Option.bind_eq_some_iff.mp hrun
  obtain ⟨x, hx, heq⟩ := Option.map_eq_some_iff.mp hr
  exact ⟨e, x, System.runFrom_of_runIf he, hx, congrArg Prod.fst heq,
    outcomes_agree (System.runIf_reachableIf (.init rfl) he) 0 x hx⟩

/-- A `stop_sync` between the terminal event and `Finish`: `wait_task` gets
    `cancelled`.  A detach at the same point: the row stays `running`. -/
theorem outcomes_disagree :
    (engineSystem.runFrom .initial (taskRun 6 ++ [.stopSync (.rpc 1) 0, .cancel (.rpc 1),
        .cancel (.rpc 1)] ++ List.replicate 4 (.task 0 .ok))).bind (·.records 0)
      = some (.finished .cancelled, some .completed, [.completed], some .cancelled) ∧
    (engineSystem.runFrom .initial (taskRun 6 ++ [.plane] ++
        List.replicate 4 (.task 0 .ok))).bind (·.records 0)
      = some (.finished .completed, some .running, [.completed], some .completed) := by
  decide +kernel

end GnDrive.Sync
