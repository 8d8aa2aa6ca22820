/-
  GnDrive.Runtime.Hub

  The projection of live run state (`runtime_hub.rs`).

  The hub keeps a record of each flow that the events on the bus name, and a
  snapshot lays the statuses of the flow engine and then the active tasks over
  these records.  Both the sync events and the tasks name a flow by a busy key
  `flowID:opID` only, which `splitBusyKey` takes apart at the first colon:
  `busyKeys_lawful` says for which ids and profile names this is the inverse of
  building the key.  `snapshot_refines` says when the overlay keeps what the
  flow engine and the records say.

  Times of events and log entries are left out, and a snapshot is a map, not a
  vector sorted by id.
-/

import GnDrive.Events.Bus
import GnDrive.Flows.Requests

namespace GnDrive.Runtime

open Events

-- ============================================================================
-- Busy keys
-- ============================================================================

/-- The busy key of an operation of a flow. -/
def busyKey (flowId opId : String) : String := flowId ++ ":" ++ opId

/-- `"flowID:opID"` → `(flowID, opID)`; nothing for a key without a usable
    colon (missing, leading or trailing). -/
def splitBusyKey (profileId : String) : Option (String × String) :=
  let s := profileId.toList
  match s.idxOf? ':' with
  | none => none
  | some i =>
      if i = 0 || i + 1 = s.length then none
      else some (String.ofList (s.take i), String.ofList (s.drop (i + 1)))

/-- What the store and the requests accept as the id of a flow or of an
    operation, or as the name of a profile. -/
abbrev Id := { s : String // s ≠ "" }

/-- The keys of the operations `ops`, pairs of a flow's and an operation's id,
    are different, are split into these ids, and no name of a profile is split. -/
structure Lawful (ops : Set (Id × Id)) (profiles : Set Id) : Prop where
  injective : ∀ k ∈ ops, ∀ k' ∈ ops, busyKey k.1 k.2 = busyKey k'.1 k'.2 → k = k'
  split : ∀ k ∈ ops, splitBusyKey (busyKey k.1 k.2) = some (k.1.1, k.2.1)
  plain : ∀ p ∈ profiles, splitBusyKey p = none

/-- The first colon is neither the first nor the last character. -/
def UsableColon (s : String) : Prop := ':' ∈ s.toList.dropLast ∧ s.toList.head? ≠ some ':'

section

variable {s f o : String}

/-- The first colon cuts a text into a part without colons and the rest. -/
theorem idxOf?_colon {l : Text} {i : Nat} :
    l.idxOf? ':' = some i ↔ ∃ a b, l = a ++ ':' :: b ∧ ':' ∉ a ∧ a.length = i := by
  rw [List.idxOf?_eq_some_iff]
  constructor
  · rintro ⟨hi, hcolon, hfirst⟩
    have hsplit : l = l.take i ++ ':' :: l.drop (i + 1) := by
      rw [← hcolon, ← List.drop_eq_getElem_cons hi, List.take_append_drop]
    refine ⟨l.take i, l.drop (i + 1), hsplit, fun hmem => ?_, by rw [List.length_take]; omega⟩
    obtain ⟨j, hj, hget⟩ := List.mem_iff_getElem.mp hmem
    rw [List.length_take] at hj
    rw [List.getElem_take] at hget
    exact hfirst j (by omega) hget
  · rintro ⟨a, b, rfl, ha, rfl⟩
    refine ⟨by simp, by simp, fun j hj hget => ha ?_⟩
    rw [List.getElem_append_left hj] at hget
    exact hget ▸ List.getElem_mem hj

theorem toList_ne_nil : s.toList ≠ [] ↔ s ≠ "" := not_congr String.toList_eq_nil_iff

@[simp] theorem busyKey_toList : (busyKey f o).toList = f.toList ++ ':' :: o.toList := by
  simp [busyKey]

/-- What is split is a key whose first colon stands between two ids. -/
theorem splitBusyKey_eq_some :
    splitBusyKey s = some (f, o) ↔ s = busyKey f o ∧ ':' ∉ f.toList ∧ f ≠ "" ∧ o ≠ "" := by
  unfold splitBusyKey
  simp only
  constructor
  · intro h
    split at h
    · cases h
    · rename_i i hi
      obtain ⟨a, b, hs, ha, rfl⟩ := idxOf?_colon.mp hi
      rw [hs] at h
      split at h
      · cases h
      · rename_i hne
        simp only [List.length_append, List.length_cons, Bool.or_eq_true, decide_eq_true_eq, not_or,
          List.length_eq_zero_iff] at hne
        have hfo : String.ofList a = f ∧ String.ofList b = o := by simpa using h
        obtain ⟨rfl, rfl⟩ := hfo
        have hb : b ≠ [] := fun hb => hne.2 (by simp [hb])
        refine ⟨String.toList_inj.mp ?_, by simpa using ha, ?_, ?_⟩
        · simpa using hs
        · simpa [← String.toList_inj] using hne.1
        · simpa [← String.toList_inj] using hb
  · rintro ⟨rfl, hf, hfe, hoe⟩
    have hi : (busyKey f o).toList.idxOf? ':' = some f.toList.length :=
      idxOf?_colon.mpr ⟨f.toList, o.toList, busyKey_toList, hf, rfl⟩
    have hf0 : 0 < f.toList.length := List.length_pos_iff.mpr (toList_ne_nil.mpr hfe)
    have ho0 : 0 < o.toList.length := List.length_pos_iff.mpr (toList_ne_nil.mpr hoe)
    rw [hi, busyKey_toList]
    simp only [List.length_append, List.length_cons]
    rw [if_neg (by simp only [Bool.or_eq_true, decide_eq_true_eq]; omega)]
    simp

/-- What is not split is a name without a usable colon. -/
theorem splitBusyKey_eq_none : splitBusyKey s = none ↔ ¬ UsableColon s := by
  constructor
  · rintro h ⟨hmem, hhead⟩
    obtain ⟨a, b, hdrop, ha⟩ := List.eq_append_cons_of_mem hmem
    have hne : s.toList ≠ [] := by
      rintro hs
      simp [hs] at hmem
    have hs : s.toList = a ++ ':' :: (b ++ [s.toList.getLast hne]) := by
      conv_lhs => rw [← List.dropLast_append_getLast hne, hdrop]
      simp
    have hsome : splitBusyKey s =
        some (String.ofList a, String.ofList (b ++ [s.toList.getLast hne])) := by
      refine splitBusyKey_eq_some.mpr
        ⟨String.toList_inj.mp (by simpa using hs), by simpa using ha, ?_, ?_⟩
      · rw [Ne, ← String.toList_inj]
        rintro hnil
        have hnil : a = [] := by simpa using hnil
        rw [hs, hnil] at hhead
        exact hhead rfl
      · rw [Ne, ← String.toList_inj]
        simp
    rw [h] at hsome
    cases hsome
  · intro h
    cases hsplit : splitBusyKey s with
    | none => rfl
    | some fo =>
      obtain ⟨rfl, hcolon, hf, ho⟩ :=
        splitBusyKey_eq_some.mp (show splitBusyKey s = some (fo.1, fo.2) from hsplit)
      have hf' : fo.1.toList ≠ [] := toList_ne_nil.mpr hf
      have ho' : fo.2.toList ≠ [] := toList_ne_nil.mpr ho
      refine absurd ⟨?_, ?_⟩ h
      · rw [busyKey_toList, List.dropLast_append_of_ne_nil (by simp)]
        simp [List.dropLast_cons_of_ne_nil ho']
      · intro hhead
        rw [busyKey_toList, List.head?_append_of_ne_nil _ hf'] at hhead
        exact hcolon (List.mem_of_head? hhead)

/-- For any operations and profiles: the keys are lawful exactly when no flow's
    id has a colon and no profile's name has a usable one. -/
theorem busyKeys_lawful (ops : Set (Id × Id)) (profiles : Set Id) :
    Lawful ops profiles ↔
      (∀ k ∈ ops, ':' ∉ k.1.1.toList) ∧ ∀ p ∈ profiles, ¬ UsableColon p := by
  constructor
  · intro h
    refine ⟨fun k hk => ?_, fun p hp => splitBusyKey_eq_none.mp (h.plain p hp)⟩
    exact (splitBusyKey_eq_some.mp (h.split k hk)).2.1
  · rintro ⟨hcolon, hplain⟩
    have hsplit : ∀ k ∈ ops, splitBusyKey (busyKey k.1 k.2) = some (k.1.1, k.2.1) := fun k hk =>
      splitBusyKey_eq_some.mpr ⟨rfl, hcolon k hk, k.1.2, k.2.2⟩
    refine ⟨fun k hk k' hk' heq => ?_, hsplit, fun p hp => splitBusyKey_eq_none.mpr (hplain p hp)⟩
    -- equal keys are split into the same ids
    have hsame := hsplit k hk
    rw [heq, hsplit k' hk'] at hsame
    obtain ⟨hf, ho⟩ := Prod.mk.inj (Option.some.inj hsame)
    exact Prod.ext (Subtype.ext hf.symm) (Subtype.ext ho.symm)

/-- The operation `c` of the flow `a:b` has the key of the operation `b:c` of
    the flow `a`. -/
theorem busyKeys_shared : ¬ ∀ ops profiles, Lawful ops profiles := by
  intro h
  have hsplit := (h {(⟨"a:b", by decide⟩, ⟨"c", by decide⟩)} ∅).split _ rfl
  exact absurd hsplit (by decide +kernel)

end

-- ============================================================================
-- Records of flows
-- ============================================================================

def MAX_LOG : Nat := 40

structure OpRuntime where
  status : String := ""
  lastError : String := ""
deriving DecidableEq

structure RuntimeLogEntry where
  status : String
  opId : String
  error : String
  label : String
deriving DecidableEq

structure FlowRuntime where
  status : String := ""
  lastError : String := ""
  ops : String → Option OpRuntime := fun _ => none
  sync : Option SyncProgressEvent := none
  log : List RuntimeLogEntry := []

abbrev FlowMap := String → Option FlowRuntime

/-- `entry(id).or_default()`, changed by `f`. -/
def FlowMap.onEntry (flows : FlowMap) (id : String) (f : FlowRuntime → FlowRuntime) : FlowMap :=
  Function.update flows id (some (f ((flows id).getD {})))

def FlowRuntime.onOp (fr : FlowRuntime) (id : String) (f : OpRuntime → OpRuntime) : FlowRuntime :=
  { fr with ops := Function.update fr.ops id (some (f ((fr.ops id).getD {}))) }

/-- Append, dropping a repetition of the last entry, and the oldest ones beyond
    `MAX_LOG`. -/
def appendLog (log : List RuntimeLogEntry) (e : RuntimeLogEntry) : List RuntimeLogEntry :=
  let repeated := log.getLast?.any fun last =>
    last.status == e.status && last.opId == e.opId && last.error == e.error
  if repeated then log
  else
    let log := log ++ [e]
    log.drop (log.length - MAX_LOG)

def FlowRuntime.applyFlow (fe : FlowExecutionEvent) (fr : FlowRuntime) : FlowRuntime :=
  let soft := fe.status == "cancelled" || fe.status == "cancelling"
  let fr :=
    if fe.opId != "" then
      let fr := fr.onOp fe.opId fun op =>
        ⟨fe.status, if fe.error != "" then fe.error else op.lastError⟩
      let fr := if fe.error != "" && !soft then { fr with lastError := fe.error } else fr
      if ["running", "cancelling", "failed", "cancelled"].contains fe.status then
        { fr with status := fe.status }
      else fr
    else
      let fr := { fr with status := fe.status }
      let fr := if fe.error != "" && !soft then { fr with lastError := fe.error } else fr
      if soft then { fr with lastError := "" } else fr
  let label :=
    if fe.opId == "" then "Flow" else "Op " ++ String.ofList (fe.opId.toList.take 8)
  { fr with log := appendLog fr.log ⟨fe.status, fe.opId, fe.error, label⟩ }

def FlowRuntime.applySync (started : Bool) (prog : SyncProgressEvent) (opId : String)
    (fr : FlowRuntime) : FlowRuntime :=
  let fr :=
    if opId != "" then
      fr.onOp opId fun op =>
        { status :=
            if prog.state != "" then prog.state else if started then "running" else op.status
          lastError := if prog.errorMessage != "" then prog.errorMessage else op.lastError }
    else fr
  let fr :=
    if started || prog.state == "running" then { fr with status := "running" }
    else if ["failed", "cancelled", "completed"].contains prog.state && fr.status == "" then
      { fr with status := prog.state }
    else fr
  let fr :=
    if prog.errorMessage != "" && prog.state != "cancelled" then
      { fr with lastError := prog.errorMessage }
    else fr
  { fr with sync := some prog }

/-- A sync event as a progress event, with whether it is the start. -/
def syncOf : BusEvent → Option (Bool × SyncProgressEvent)
  | .syncStarted e => some (true, ⟨e.taskId, e.profileId, e.action, "running", 0, 0, ""⟩)
  | .syncProgress p | .syncFailed p => some (false, p)
  | .syncCompleted e => some (false, ⟨e.taskId, e.profileId, e.action, "completed", e.bytes, 0, ""⟩)
  | _ => none

def applyFlow (flows : FlowMap) (fe : FlowExecutionEvent) : FlowMap :=
  flows.onEntry fe.flowId (.applyFlow fe)

def applySync (flows : FlowMap) (ev : BusEvent) : FlowMap :=
  match syncOf ev with
  | none => flows
  | some (started, prog) =>
      match splitBusyKey prog.profileId with
      | none => flows
      | some (flowId, opId) => flows.onEntry flowId (.applySync started prog opId)

structure TaskSnapshot where
  id : String
  name : String
  action : String
  status : String
  bytes : Int
  bytesTotal : Int
deriving DecidableEq

/-- The status that the overlay shows. -/
def TaskSnapshot.shown (t : TaskSnapshot) : String := if t.status == "" then "running" else t.status

def FlowRuntime.applyTask (t : TaskSnapshot) (opId : String) (fr : FlowRuntime) : FlowRuntime :=
  let fr := { fr with status := t.shown }
  let fr := if opId != "" then fr.onOp opId fun _ => ⟨t.shown, ""⟩ else fr
  { fr with sync := some ⟨t.id, t.name, t.action, t.shown, t.bytes, t.bytesTotal, ""⟩ }

def applyTask (flows : FlowMap) (t : TaskSnapshot) : FlowMap :=
  match splitBusyKey t.name with
  | none => flows
  | some (flowId, opId) => flows.onEntry flowId (.applyTask t opId)

-- ============================================================================
-- The hub
-- ============================================================================

/-- The guarded state of the hub. -/
structure Hub where
  rev : Int := 0
  flows : FlowMap := fun _ => none

namespace Hub

def reset (h : Hub) : Hub := ⟨h.rev + 1, fun _ => none⟩

def forget (h : Hub) (flowId : String) : Hub :=
  if flowId == "" then h else ⟨h.rev + 1, Function.update h.flows flowId none⟩

def onEvent (h : Hub) (ev : BusEvent) : Hub :=
  match ev with
  | .flowExecution fe => if fe.flowId == "" then h else ⟨h.rev + 1, applyFlow h.flows fe⟩
  | .syncStarted _ | .syncProgress _ | .syncCompleted _ | .syncFailed _ =>
      ⟨h.rev + 1, applySync h.flows ev⟩
  | _ => h

/-- The records with the statuses of the flow engine over them. -/
def withStatuses (h : Hub) (statuses : String → Option String) : FlowMap := fun id =>
  match statuses id with
  | none => h.flows id
  | some status =>
      let fr := (h.flows id).getD {}
      some (if status != "" then { fr with status := status } else fr)

/-- `to_flow_state`. -/
def toFlowState (fr : FlowRuntime) : FlowRuntime :=
  { fr with status := if fr.status == "" then "idle" else fr.status }

/-- What `flow_engine.statuses()` and `sync_engine.active_tasks()` return is
    laid over the records; the tasks come in any order. -/
def snapshot (h : Hub) (statuses : String → Option String) (tasks : List TaskSnapshot) : FlowMap :=
  fun id => (tasks.foldl applyTask (h.withStatuses statuses) id).map toFlowState

end Hub

-- ============================================================================
-- What the overlay of the tasks keeps
-- ============================================================================

def FlowMap.status (flows : FlowMap) (f : String) : Option String := (flows f).map (·.status)

def FlowMap.op (flows : FlowMap) (f o : String) : Option OpRuntime := (flows f).bind (·.ops o)

/-- The snapshot shows what the flow engine reports of a flow that it runs, and
    the tasks neither erase an error nor turn a cancelling flow back. -/
structure Refines (h : Hub) (statuses : String → Option String) (tasks : List TaskSnapshot) :
    Prop where
  engine : ∀ f st, st = "running" ∨ st = "cancelling" → statuses f = some st →
    (h.snapshot statuses tasks).status f = some st
  errors : ∀ f o op, h.flows.op f o = some op → op.lastError ≠ "" →
    ((h.snapshot statuses tasks).op f o).map (·.lastError) = some op.lastError
  cancelling : ∀ f, (h.withStatuses statuses).status f = some "cancelling" →
    (h.snapshot statuses tasks).status f ≠ some "running"

/-- The task shows the status that the flow engine reports of its flow, does not
    show a flow as running whose record alone says `cancelling`, and there is no
    error recorded for its operation. -/
structure Fits (h : Hub) (statuses : String → Option String) (t : TaskSnapshot) (f o : String) :
    Prop where
  engine : ∀ st, st = "running" ∨ st = "cancelling" → statuses f = some st → t.shown = st
  cancelling : statuses f = none ∨ statuses f = some "" → h.flows.status f = some "cancelling" →
    t.shown ≠ "running"
  errors : ∀ op, h.flows.op f o = some op → op.lastError = ""

section

variable {h : Hub} {statuses : String → Option String} {tasks : List TaskSnapshot}
  {flows : FlowMap} {t : TaskSnapshot} {f o : String}

theorem shown_ne_empty : t.shown ≠ "" := by
  unfold TaskSnapshot.shown
  split
  · decide
  · rename_i hne
    simpa using hne

theorem applyTask_other (hne : ∀ o, splitBusyKey t.name ≠ some (f, o)) :
    applyTask flows t f = flows f := by
  unfold applyTask
  cases hsplit : splitBusyKey t.name with
  | none => rfl
  | some key =>
    have hfg : f ≠ key.1 := by
      intro hf
      exact hne key.2 (by rw [hsplit, hf])
    simp [FlowMap.onEntry, hfg]

theorem applyTask_status (hsplit : splitBusyKey t.name = some (f, o)) :
    (applyTask flows t).status f = some t.shown := by
  simp only [applyTask, hsplit, FlowMap.status, FlowMap.onEntry, FlowRuntime.applyTask]
  split <;> simp [FlowRuntime.onOp]

/-- A task changes the record of its own operation only. -/
theorem applyTask_op_other (hne : splitBusyKey t.name ≠ some (f, o)) :
    (applyTask flows t).op f o = flows.op f o := by
  unfold applyTask
  cases hsplit : splitBusyKey t.name with
  | none => rfl
  | some key =>
    obtain ⟨g, p⟩ := key
    by_cases hfg : f = g
    · subst hfg
      have hop : o ≠ p := by
        rintro rfl
        exact hne hsplit
      simp only [FlowMap.op, FlowMap.onEntry, FlowRuntime.applyTask]
      cases flows f <;> split <;> simp [FlowRuntime.onOp, hop]
    · simp [FlowMap.op, FlowMap.onEntry, hfg]

theorem applyTask_op (hsplit : splitBusyKey t.name = some (f, o)) :
    (applyTask flows t).op f o = some ⟨t.shown, ""⟩ := by
  have ho : o ≠ "" := (splitBusyKey_eq_some.mp hsplit).2.2.2
  simp [applyTask, hsplit, FlowMap.op, FlowMap.onEntry, FlowRuntime.applyTask, FlowRuntime.onOp, ho]

/-- What every task keeps, the overlay of all of them keeps. -/
theorem overlay_invariant {P : FlowMap → Prop} (h0 : P flows)
    (hstep : ∀ m t, t ∈ tasks → P m → P (applyTask m t)) : P (tasks.foldl applyTask flows) := by
  induction tasks generalizing flows with
  | nil => exact h0
  | cons t tasks ih =>
    refine ih (hstep _ t List.mem_cons_self h0) fun m u hu hm => ?_
    exact hstep m u (List.mem_cons_of_mem _ hu) hm

/-- Without tasks of the flow, the overlay leaves it as it is. -/
theorem overlay_other (hne : ∀ t ∈ tasks, ∀ o, splitBusyKey t.name ≠ some (f, o)) :
    tasks.foldl applyTask flows f = flows f :=
  overlay_invariant (P := fun m => m f = flows f) rfl fun _ t ht hm =>
    (applyTask_other (hne t ht)).trans hm

theorem withStatuses_status {st : String} (hst : st ≠ "") (hf : statuses f = some st) :
    (h.withStatuses statuses).status f = some st := by
  simp [FlowMap.status, Hub.withStatuses, hf, hst]

theorem withStatuses_op : (h.withStatuses statuses).op f o = h.flows.op f o := by
  unfold FlowMap.op Hub.withStatuses
  cases statuses f with
  | none => rfl
  | some st => cases h.flows f <;> by_cases hst : st = "" <;> simp [hst]

theorem snapshot_status :
    (h.snapshot statuses tasks).status f =
      ((tasks.foldl applyTask (h.withStatuses statuses)).status f).map fun st =>
        if st = "" then "idle" else st := by
  simp only [Hub.snapshot, FlowMap.status, Option.map_map]
  congr 1
  funext fr
  simp [Hub.toFlowState]

theorem snapshot_op :
    (h.snapshot statuses tasks).op f o = (tasks.foldl applyTask (h.withStatuses statuses)).op f o := by
  unfold Hub.snapshot FlowMap.op
  rw [Option.bind_map]
  rfl

theorem overlay_last :
    (tasks ++ [t]).foldl applyTask flows = applyTask (tasks.foldl applyTask flows) t := by
  rw [List.foldl_append, List.foldl_cons, List.foldl_nil]

/-- Tasks that fit keep what the flow engine and the records say. -/
theorem Refines.of_fits
    (hfits : ∀ t ∈ tasks, ∀ f o, splitBusyKey t.name = some (f, o) → Fits h statuses t f o) :
    Refines h statuses tasks where
  engine f st hrun hst := by
    have hne : st ≠ "" := by
      rintro rfl
      simp at hrun
    have hoverlay : (tasks.foldl applyTask (h.withStatuses statuses)).status f = some st := by
      refine overlay_invariant (P := fun m => m.status f = some st)
        (withStatuses_status hne hst) fun m t ht hm => ?_
      by_cases hof : ∃ o, splitBusyKey t.name = some (f, o)
      · obtain ⟨o, ho⟩ := hof
        rw [applyTask_status ho, (hfits t ht f o ho).engine st hrun hst]
      · rw [FlowMap.status, applyTask_other (not_exists.mp hof)]
        exact hm
    rw [snapshot_status, hoverlay, Option.map_some, if_neg hne]
  errors f o op hop herr := by
    have hoverlay : (tasks.foldl applyTask (h.withStatuses statuses)).op f o = some op := by
      refine overlay_invariant (P := fun m => m.op f o = some op)
        (withStatuses_op.trans hop) fun m t ht hm => ?_
      have hother : splitBusyKey t.name ≠ some (f, o) := fun ho =>
        herr ((hfits t ht f o ho).errors op hop)
      rw [applyTask_op_other hother, hm]
    rw [snapshot_op, hoverlay, Option.map_some]
  cancelling f hcan := by
    have hoverlay : (tasks.foldl applyTask (h.withStatuses statuses)).status f ≠ some "running" := by
      refine overlay_invariant (P := fun m => m.status f ≠ some "running")
        (by simp [hcan]) fun m t ht hm => ?_
      by_cases hof : ∃ o, splitBusyKey t.name = some (f, o)
      · obtain ⟨o, ho⟩ := hof
        have hfit := hfits t ht f o ho
        rw [applyTask_status ho, Ne, Option.some.injEq]
        cases hst : statuses f with
        | none =>
          refine hfit.cancelling (.inl hst) ?_
          simpa [FlowMap.status, Hub.withStatuses, hst] using hcan
        | some st =>
          by_cases hempty : st = ""
          · subst hempty
            refine hfit.cancelling (.inr hst) ?_
            rw [FlowMap.status, Hub.withStatuses, hst] at hcan
            cases hfl : h.flows f with
            | none => simp [hfl] at hcan
            | some fr => simpa [FlowMap.status, hfl] using hcan
          · rw [withStatuses_status hempty hst, Option.some.injEq] at hcan
            rw [hfit.engine st (.inr hcan) hst, hcan]
            decide
      · rw [FlowMap.status, applyTask_other (not_exists.mp hof)]
        exact hm
    rw [snapshot_status]
    cases hst : (tasks.foldl applyTask (h.withStatuses statuses)).status f with
    | none => simp
    | some st =>
      rw [hst] at hoverlay
      rw [Option.map_some, Ne, Option.some.injEq]
      split
      · decide
      · exact fun heq => hoverlay (by rw [heq])

/-- The task that comes last has to fit. -/
theorem Refines.fits_last (href : Refines h statuses (tasks ++ [t]))
    (hsplit : splitBusyKey t.name = some (f, o)) : Fits h statuses t f o := by
  have hshown : (h.snapshot statuses (tasks ++ [t])).status f = some t.shown := by
    rw [snapshot_status, overlay_last, applyTask_status hsplit, Option.map_some,
      if_neg shown_ne_empty]
  refine ⟨fun st hrun hst => ?_, fun hnone hcan hrun => ?_, fun op hop => ?_⟩
  · exact Option.some.inj (hshown.symm.trans (href.engine f st hrun hst))
  · refine href.cancelling f ?_ (hshown.trans (by rw [hrun]))
    rcases hnone with hnone | hempty
    · simpa [FlowMap.status, Hub.withStatuses, hnone] using hcan
    · cases hfl : h.flows f <;> simp_all [FlowMap.status, Hub.withStatuses]
  · by_contra herr
    have hkept := href.errors f o op hop herr
    rw [snapshot_op, overlay_last, applyTask_op hsplit, Option.map_some, Option.some.injEq] at hkept
    exact herr hkept.symm

/-- Whatever the order of the active tasks, the snapshot refines the flow engine
    and keeps the errors exactly when every active task that is attributed to an
    operation fits. -/
theorem snapshot_refines (h : Hub) (statuses : String → Option String) (tasks : List TaskSnapshot) :
    (∀ ts, ts.Perm tasks → Refines h statuses ts) ↔
      ∀ t ∈ tasks, ∀ f o, splitBusyKey t.name = some (f, o) → Fits h statuses t f o := by
  constructor
  · intro href t ht f o hsplit
    have hperm : (tasks.erase t ++ [t]).Perm tasks :=
      (List.perm_append_singleton t _).trans (List.perm_cons_erase ht).symm
    exact (href _ hperm).fits_last hsplit
  · intro hfits ts hperm
    exact .of_fits fun t ht => hfits t (hperm.mem_iff.mp ht)

/-- A flow that is being cancelled, while the task of its operation runs. -/
theorem cancelling_shown_running :
    ¬ ∀ h statuses tasks, Refines h statuses tasks := by
  intro href
  have hshown := (href {} (fun _ => some "cancelling")
    [⟨"t", "f:o", "push", "running", 0, 0⟩]).engine "f" "cancelling" (.inr rfl) rfl
  exact absurd hshown (by decide +kernel)

end

end GnDrive.Runtime
