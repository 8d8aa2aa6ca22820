/-
  GnDrive.Runtime.Log

  The log of a flow and the revision of the hub.

  The log is the end of what the flow's executions have said since the hub last forgot the
  flow, without repetitions (`hub_log`); the revision goes up with every change of the
  records.
-/

import GnDrive.Lib.RecentLog
import GnDrive.Runtime.Hub

namespace GnDrive.Runtime

open Events

/-- What changes the records. -/
inductive HubCall where
  | event (ev : BusEvent)
  | reset
  | forget (flowId : String)

namespace Hub

def call (h : Hub) : HubCall → Hub
  | .event ev => h.onEvent ev
  | .reset => h.reset
  | .forget flowId => h.forget flowId

def run (calls : List HubCall) : Hub := calls.foldl call {}

end Hub

-- ============================================================================
-- The lines of a flow
-- ============================================================================

/-- The two entries differ in what a repetition has to share. -/
def Differs (a b : RuntimeLogEntry) : Prop :=
  ¬ (a.status = b.status ∧ a.opId = b.opId ∧ a.error = b.error)

instance : DecidableRel Differs := fun a b =>
  inferInstanceAs (Decidable (¬ (a.status = b.status ∧ a.opId = b.opId ∧ a.error = b.error)))

/-- What an execution event says in the log of its flow. -/
def logLine (fe : FlowExecutionEvent) : RuntimeLogEntry :=
  ⟨fe.status, fe.opId, fe.error,
    if fe.opId == "" then "Flow" else "Op " ++ String.ofList (fe.opId.toList.take 8)⟩

/-- The lines of a flow after one more call. -/
def linesAfter (id : String) (lines : List RuntimeLogEntry) : HubCall → List RuntimeLogEntry
  | .event (.flowExecution fe) =>
      if fe.flowId = id ∧ id ≠ "" then lines ++ [logLine fe] else lines
  | .event _ => lines
  | .reset => []
  | .forget flowId => if flowId = id ∧ id ≠ "" then [] else lines

/-- The lines of a flow since it was last forgotten. -/
def lines (id : String) (calls : List HubCall) : List RuntimeLogEntry :=
  calls.foldl (linesAfter id) []

/-- A flow without a record has an empty log. -/
def FlowMap.log (flows : FlowMap) (id : String) : List RuntimeLogEntry :=
  ((flows id).map (·.log)).getD []

section

variable {h : Hub} {flows : FlowMap} {id f : String} {fr : FlowRuntime}

-- ============================================================================
-- One call
-- ============================================================================

theorem appendLog_eq (log : List RuntimeLogEntry) (e : RuntimeLogEntry) :
    appendLog log e = RecentLog.push Differs MAX_LOG log e := by
  have hnew : (log.getLast?.any fun last =>
      last.status == e.status && last.opId == e.opId && last.error == e.error) = true ↔
        ¬ RecentLog.IsNew Differs log e := by
    unfold RecentLog.IsNew Differs
    cases log.getLast? with
    | none => simp
    | some last => simp [and_assoc]
  unfold appendLog RecentLog.push
  dsimp only
  by_cases h : RecentLog.IsNew Differs log e
  · rw [if_pos h, if_neg (hnew.not.mpr (not_not_intro h))]
    rfl
  · rw [if_neg h, if_pos (hnew.mpr h)]

theorem log_applyFlow (fe : FlowExecutionEvent) (fr : FlowRuntime) :
    (fr.applyFlow fe).log = appendLog fr.log (logLine fe) := by
  unfold FlowRuntime.applyFlow logLine FlowRuntime.onOp
  dsimp only
  congr 1
  split_ifs <;> rfl

/-- A sync event leaves the log alone. -/
theorem log_applySync (started : Bool) (prog : SyncProgressEvent) (opId : String)
    (fr : FlowRuntime) : (fr.applySync started prog opId).log = fr.log := by
  unfold FlowRuntime.applySync FlowRuntime.onOp
  dsimp only
  split_ifs <;> rfl

theorem log_onEntry (flows : FlowMap) (f id : String) (g : FlowRuntime → FlowRuntime) :
    (flows.onEntry f g).log id =
      if id = f then (g ((flows f).getD {})).log else flows.log id := by
  unfold FlowMap.log FlowMap.onEntry
  by_cases hid : id = f
  · rw [if_pos hid, hid, Function.update_self]
    rfl
  · rw [if_neg hid, Function.update_of_ne hid]

theorem log_getD (flows : FlowMap) (id : String) : ((flows id).getD {}).log = flows.log id := by
  unfold FlowMap.log
  cases flows id <;> rfl

theorem log_syncEvent (flows : FlowMap) (ev : BusEvent) :
    (Runtime.applySync flows ev).log id = flows.log id := by
  unfold Runtime.applySync
  split
  · rfl
  · split
    · rfl
    · rw [log_onEntry, log_applySync, log_getD]
      split
      · rename_i hid
        rw [hid]
      · rfl

theorem log_flowEvent (h : Hub) (id : String) (fe : FlowExecutionEvent) :
    (h.onEvent (.flowExecution fe)).flows.log id =
      if fe.flowId = id ∧ id ≠ "" then appendLog (h.flows.log id) (logLine fe)
      else h.flows.log id := by
  unfold Hub.onEvent
  dsimp only
  by_cases hempty : fe.flowId = ""
  · rw [if_pos (beq_iff_eq.mpr hempty), if_neg]
    rintro ⟨rfl, hne⟩
    exact hne hempty
  · rw [if_neg (fun h => hempty (beq_iff_eq.mp h))]
    show (Runtime.applyFlow h.flows fe).log id = _
    unfold Runtime.applyFlow
    rw [log_onEntry, log_applyFlow, log_getD]
    by_cases hid : id = fe.flowId
    · subst hid
      rw [if_pos rfl, if_pos ⟨rfl, hempty⟩]
    · rw [if_neg hid, if_neg fun h => hid h.1.symm]

theorem log_otherEvent (h : Hub) (id : String) {ev : BusEvent}
    (hev : ∀ fe, ev ≠ .flowExecution fe) : (h.onEvent ev).flows.log id = h.flows.log id := by
  cases ev with
  | flowExecution fe => exact absurd rfl (hev fe)
  | syncStarted e => exact log_syncEvent h.flows (.syncStarted e)
  | syncProgress p => exact log_syncEvent h.flows (.syncProgress p)
  | syncCompleted e => exact log_syncEvent h.flows (.syncCompleted e)
  | syncFailed p => exact log_syncEvent h.flows (.syncFailed p)
  | _ => rfl

/-- One call appends the line that it adds. -/
theorem log_call (h : Hub) (id : String) (c : HubCall) (lines : List RuntimeLogEntry)
    (hlog : h.flows.log id = (lines.destutter Differs).rtake MAX_LOG) :
    (h.call c).flows.log id = ((linesAfter id lines c).destutter Differs).rtake MAX_LOG := by
  cases c with
  | event ev =>
    show (h.onEvent ev).flows.log id = _
    by_cases hev : ∃ fe, ev = .flowExecution fe
    · obtain ⟨fe, rfl⟩ := hev
      rw [log_flowEvent, hlog]
      unfold linesAfter
      dsimp only
      split
      · rw [appendLog_eq, RecentLog.push_eq (by decide)]
      · rfl
    · rw [log_otherEvent h id fun fe heq => hev ⟨fe, heq⟩, hlog]
      cases ev with
      | flowExecution fe => exact absurd ⟨fe, rfl⟩ hev
      | _ => rfl
  | reset => rfl
  | forget flowId =>
    show (h.forget flowId).flows.log id = _
    unfold Hub.forget linesAfter
    dsimp only
    by_cases hempty : flowId = ""
    · rw [if_pos (beq_iff_eq.mpr hempty), if_neg, hlog]
      rintro ⟨rfl, hne⟩
      exact hne hempty
    · rw [if_neg (fun h => hempty (beq_iff_eq.mp h))]
      unfold FlowMap.log at hlog ⊢
      by_cases hid : id = flowId
      · subst hid
        rw [if_pos ⟨rfl, hempty⟩]
        dsimp only
        rw [Function.update_self]
        rfl
      · rw [if_neg fun h => hid h.1.symm]
        dsimp only
        rw [Function.update_of_ne hid, hlog]

/-- A call leaves the hub as it is, or brings the revision up. -/
theorem call_rev (h : Hub) (c : HubCall) : h.call c = h ∨ (h.call c).rev = h.rev + 1 := by
  cases c with
  | event ev =>
    show h.onEvent ev = h ∨ (h.onEvent ev).rev = h.rev + 1
    unfold Hub.onEvent
    split
    · split
      · exact .inl rfl
      · exact .inr rfl
    · exact .inr rfl
    · exact .inr rfl
    · exact .inr rfl
    · exact .inr rfl
    · exact .inl rfl
  | reset => exact .inr rfl
  | forget flowId =>
    show h.forget flowId = h ∨ (h.forget flowId).rev = h.rev + 1
    unfold Hub.forget
    split
    · exact .inl rfl
    · exact .inr rfl

/-- The overlay leaves the log alone. -/
theorem log_applyTask (flows : FlowMap) (t : TaskSnapshot) :
    (Runtime.applyTask flows t).log id = flows.log id := by
  unfold Runtime.applyTask
  split
  · rfl
  · rename_i flowId opId _
    have hlog : ∀ fr : FlowRuntime, (fr.applyTask t opId).log = fr.log := by
      intro fr
      unfold FlowRuntime.applyTask FlowRuntime.onOp
      dsimp only
      split_ifs <;> rfl
    rw [log_onEntry, hlog, log_getD]
    split
    · rename_i hid
      rw [hid]
    · rfl

theorem log_snapshot (h : Hub) (statuses : String → Option String) (tasks : List TaskSnapshot)
    (id : String) : FlowMap.log (h.snapshot statuses tasks) id = h.flows.log id := by
  have hstatuses : (h.withStatuses statuses).log id = h.flows.log id := by
    unfold FlowMap.log Hub.withStatuses
    cases statuses id with
    | none => rfl
    | some status =>
      cases h.flows id with
      | none => dsimp only; split_ifs <;> rfl
      | some fr => dsimp only; split_ifs <;> rfl
  have hoverlay : (tasks.foldl applyTask (h.withStatuses statuses)).log id = h.flows.log id :=
    overlay_invariant (P := fun m => m.log id = h.flows.log id) hstatuses fun m t _ hm =>
      (log_applyTask m t).trans hm
  rw [← hoverlay]
  unfold FlowMap.log Hub.snapshot Hub.toFlowState
  rw [Option.map_map]
  rfl

end

/-- After any calls, the log of a flow in the hub and in every snapshot is the end of its
    lines without the repetitions, and a call that changes the records brings the revision
    up. -/
theorem hub_log (calls : List HubCall) :
    (∀ id, (Hub.run calls).flows.log id = ((lines id calls).destutter Differs).rtake MAX_LOG) ∧
      (∀ id statuses tasks, FlowMap.log ((Hub.run calls).snapshot statuses tasks) id =
        ((lines id calls).destutter Differs).rtake MAX_LOG) ∧
      ∀ c, ((Hub.run calls).call c).flows ≠ (Hub.run calls).flows →
        (Hub.run calls).rev < ((Hub.run calls).call c).rev := by
  have hlog : ∀ id, (Hub.run calls).flows.log id =
      ((lines id calls).destutter Differs).rtake MAX_LOG := by
    intro id
    unfold Hub.run lines
    induction calls using List.reverseRecOn with
    | nil => rfl
    | append_singleton calls c ih =>
      rw [List.foldl_append, List.foldl_append]
      exact log_call _ id c _ ih
  refine ⟨hlog, fun id statuses tasks => (log_snapshot _ _ _ _).trans (hlog id), fun c hne => ?_⟩
  rcases call_rev (Hub.run calls) c with heq | hrev
  · exact absurd (by rw [heq]) hne
  · rw [hrev]
    omega

end GnDrive.Runtime
