/-
  GnDrive.Gpui.RuntimeAgreement

  The window's fold of the run events against the hub's.

  Both sides touch the record of one flow, so the comparison comes down to that
  record: `agrees_execution` and `agrees_sync` say which events keep it equal.
  `SyncFits` and `FlowFits` are these conditions on the event and on the hub
  before it.
-/

import GnDrive.Gpui.WindowRuntime
import GnDrive.Lib.System

namespace GnDrive.Gpui.Window

open Events (BusEvent FlowExecutionEvent SyncProgressEvent)
open GnDrive.Runtime (FlowRuntime OpRuntime FlowMap Hub busyKey splitBusyKey syncOf)
open Keyed (upsert find?_upsert)
open Rpc (Json JsonDict)

-- ============================================================================
-- What is read of a pushed event
-- ============================================================================

section

variable {data : JsonDict} {names : List Text} {key key' : Text} {s : String}

theorem textField_of (h : names.filterMap data.get = [text s]) : textField data names = some s := by
  simp [textField, h, text]

theorem textField_missing (h : names.filterMap data.get = []) : textField data names = some "" := by
  simp [textField, h]

theorem textOf_of (h : data.get key = some (text s)) : textOf data key key' = s := by
  simp [textOf, h, text]

end

/-- The counts of a progress are such that the window can read them. -/
def Countable (p : SyncProgressEvent) : Prop :=
  (0 ≤ p.transferred ∧ p.transferred < 2 ^ 64) ∧ 0 ≤ p.total ∧ p.total < 2 ^ 64

instance (p : SyncProgressEvent) : Decidable (Countable p) := by
  unfold Countable
  infer_instance

theorem countField_of {data : JsonDict} {name : Text} {n : Int} (h : data.get name = some (count n)) :
    countField data name = if 0 ≤ n ∧ n < 2 ^ 64 then some n.toNat else none := by
  simp [countField, h, count]

theorem countField_missing {data : JsonDict} {name : Text} (h : data.get name = none) :
    countField data name = some 0 := by
  simp [countField, h]

theorem ofValue_syncProgress (p : SyncProgressEvent) :
    SyncProgress.ofValue (syncProgress p) =
      if Countable p then
        some { taskId := p.taskId, profileId := p.profileId, action := p.action, state := p.state,
               transferred := p.transferred.toNat, total := p.total.toNat,
               errorMessage := p.errorMessage }
      else none := by
  have htask : textField (syncProgress p) ["taskID".toList, "taskId".toList] = some p.taskId :=
    textField_of rfl
  have hprofile : textField (syncProgress p) ["profileID".toList, "profileId".toList] =
      some p.profileId := textField_of rfl
  have haction : textField (syncProgress p) ["action".toList] = some p.action := textField_of rfl
  have hstate : textField (syncProgress p) ["state".toList] = some p.state := textField_of rfl
  have herror : textField (syncProgress p) ["errorMessage".toList] = some p.errorMessage :=
    textField_of rfl
  have htransferred := @countField_of (syncProgress p) "transferred".toList p.transferred rfl
  have htotal := @countField_of (syncProgress p) "total".toList p.total rfl
  have herrors : countField (syncProgress p) "errors".toList = some 0 := countField_missing rfl
  unfold SyncProgress.ofValue
  rw [htask, hprofile, haction, hstate, herror, htransferred, htotal, herrors]
  by_cases h₁ : 0 ≤ p.transferred ∧ p.transferred < 2 ^ 64
  · by_cases h₂ : 0 ≤ p.total ∧ p.total < 2 ^ 64
    · rw [if_pos h₁, if_pos h₂, if_pos (show Countable p from ⟨h₁, h₂⟩)]
      rfl
    · rw [if_pos h₁, if_neg h₂, if_neg (show ¬ Countable p from fun h => h₂ h.2)]
      rfl
  · rw [if_neg h₁, if_neg (show ¬ Countable p from fun h => h₁ h.1)]
    rfl

theorem ofValue_some {data : JsonDict} {progress : SyncProgress}
    (h : SyncProgress.ofValue data = some progress) :
    textField data ["profileID".toList, "profileId".toList] = some progress.profileId ∧
      textField data ["state".toList] = some progress.state := by
  unfold SyncProgress.ofValue at h
  simp only [Option.bind_eq_bind, Option.bind_eq_some_iff, Option.some.injEq] at h
  obtain ⟨_, _, _, hprofile, _, _, _, hstate, _, _, _, _, _, _, _, _, rfl⟩ := h
  exact ⟨hprofile, hstate⟩

theorem progressOf_fields (event : String) (data : JsonDict) :
    (progressOf event data).profileId =
      (let profileId := ((SyncProgress.ofValue data).getD {}).profileId
       if profileId = "" then textOf data "profileID".toList "profileId".toList else profileId) ∧
    (progressOf event data).state =
      (let state := ((SyncProgress.ofValue data).getD {}).state
       if state = "" then stateOf event else state) := by
  generalize hbase : (SyncProgress.ofValue data).getD {} = base
  unfold progressOf
  rw [hbase]
  by_cases hp : base.profileId = "" <;> by_cases ha : base.action = "" <;>
    by_cases hs : base.state = "" <;> simp [hp, ha, hs]

/-- The profile is read, whether or not the rest is. -/
theorem progressOf_profileId {event k : String} {data : JsonDict}
    (hfield : textField data ["profileID".toList, "profileId".toList] = some k)
    (htext : textOf data "profileID".toList "profileId".toList = k) :
    (progressOf event data).profileId = k := by
  rw [(progressOf_fields event data).1, htext]
  cases h : SyncProgress.ofValue data with
  | none => rfl
  | some progress =>
    obtain rfl := Option.some.inj ((ofValue_some h).1.symm.trans hfield)
    simp

/-- Without a state, the event gives its name. -/
theorem progressOf_state_missing {event : String} {data : JsonDict}
    (hfield : textField data ["state".toList] = some "") :
    (progressOf event data).state = stateOf event := by
  rw [(progressOf_fields event data).2]
  cases h : SyncProgress.ofValue data with
  | none => rfl
  | some progress =>
    have hstate : progress.state = "" :=
      Option.some.inj ((ofValue_some h).2.symm.trans hfield)
    simp [hstate]

theorem progressOf_state (event : String) (p : SyncProgressEvent) :
    (progressOf event (syncProgress p)).state =
      if Countable p ∧ p.state ≠ "" then p.state else stateOf event := by
  rw [(progressOf_fields event _).2, ofValue_syncProgress]
  by_cases hc : Countable p
  · by_cases hs : p.state = "" <;> simp [hc, hs]
  · simp [hc]

/-- The progress that the window makes of a sync event. -/
def seenOf (ev : BusEvent) : Option SyncProgress :=
  match ev with
  | .syncStarted _ | .syncProgress _ | .syncCompleted _ | .syncFailed _ =>
      (pushed ev).map fun (event, data) => progressOf event data
  | _ => none

/-- Hub and window read the same key. -/
theorem seenOf_profileId {ev : BusEvent} {started : Bool} {prog : SyncProgressEvent}
    (h : syncOf ev = some (started, prog)) :
    ∃ seen, seenOf ev = some seen ∧ seen.profileId = prog.profileId := by
  cases ev <;> simp only [syncOf, reduceCtorEq, Option.some.injEq, Prod.mk.injEq] at h <;>
    obtain ⟨-, rfl⟩ := h <;> refine ⟨_, rfl, progressOf_profileId (textField_of rfl) (textOf_of rfl)⟩

theorem onEvent_sync {ev : BusEvent} {seen : SyncProgress} (h : seenOf ev = some seen)
    (rt : Runtime) : rt.onEvent ev = rt.applySync seen := by
  cases ev <;> simp only [seenOf, pushed, reduceCtorEq, Option.map_some, Option.some.injEq] at h <;>
    subst h <;> rfl

theorem onEvent_flowExecution (rt : Runtime) (fe : FlowExecutionEvent) :
    rt.onEvent (.flowExecution fe) =
      if fe.flowId = "" then rt else rt.onFlow fe.flowId (.execution fe.status fe.opId fe.error) := by
  have hflow : ∀ data : JsonDict, (pushed (.flowExecution fe)) = some ("flow:execution", data) →
      textOf data "flowID".toList "flowId".toList = fe.flowId ∧
      textOf data "status".toList "status".toList = fe.status ∧
      textOf data "opID".toList "opId".toList = fe.opId ∧
      textOf data "error".toList "error".toList = fe.error := by
    intro data hdata
    obtain rfl := (Prod.mk.inj (Option.some.inj hdata)).2
    exact ⟨textOf_of rfl, textOf_of rfl, textOf_of rfl, textOf_of rfl⟩
  obtain ⟨h₁, h₂, h₃, h₄⟩ := hflow _ rfl
  show (if textOf _ _ _ = "" then rt else rt.onFlow (textOf _ _ _)
    (.execution (textOf _ _ _) (textOf _ _ _) (textOf _ _ _))) = _
  rw [h₁, h₂, h₃, h₄]

-- ============================================================================
-- Keys
-- ============================================================================

section

variable {k f o : String}

theorem flowPart_colon (k : String) : ':' ∉ (flowPart k).toList := by
  intro h
  simp only [flowPart, String.toList_ofList] at h
  simpa using List.mem_takeWhile_imp h

theorem key_of_opPart (h : opPart k ≠ "") : k = busyKey (flowPart k) (opPart k) := by
  have hsplit := List.takeWhile_append_dropWhile (p := (· ≠ ':')) (l := k.toList)
  cases hd : k.toList.dropWhile (· ≠ ':') with
  | nil =>
    rw [opPart, hd] at h
    exact absurd rfl h
  | cons c rest =>
    have hc : c = ':' := by
      have hhead := List.head?_dropWhile_not (· ≠ ':') k.toList
      rw [hd] at hhead
      simpa using hhead
    rw [hd, hc] at hsplit
    refine String.toList_inj.mp ?_
    rw [Runtime.busyKey_toList, flowPart, opPart, hd, String.toList_ofList, String.toList_ofList]
    exact hsplit.symm

theorem parts_busyKey (hf : ':' ∉ f.toList) :
    flowPart (busyKey f o) = f ∧ opPart (busyKey f o) = o := by
  have hall : ∀ c ∈ f.toList, (decide (c ≠ ':')) = true := by
    intro c hc
    exact decide_eq_true fun heq => hf (heq ▸ hc)
  constructor
  · refine String.toList_inj.mp ?_
    rw [flowPart, String.toList_ofList, Runtime.busyKey_toList, List.takeWhile_append_of_pos hall]
    simp
  · refine String.toList_inj.mp ?_
    rw [opPart, String.toList_ofList, Runtime.busyKey_toList, List.dropWhile_append_of_pos hall]
    simp

/-- The hub takes apart the keys both of whose parts the window finds. -/
theorem splitBusyKey_parts (k : String) :
    splitBusyKey k =
      if flowPart k ≠ "" ∧ opPart k ≠ "" then some (flowPart k, opPart k) else none := by
  split
  · rename_i h
    exact Runtime.splitBusyKey_eq_some.mpr ⟨key_of_opPart h.2, flowPart_colon k, h.1, h.2⟩
  · rename_i h
    by_contra hne
    obtain ⟨⟨f, o⟩, hsome⟩ := Option.ne_none_iff_exists'.mp hne
    obtain ⟨rfl, hf, hfe, hoe⟩ := Runtime.splitBusyKey_eq_some.mp hsome
    rw [(parts_busyKey hf).1, (parts_busyKey hf).2] at h
    exact h ⟨hfe, hoe⟩

end

-- ============================================================================
-- Agreement
-- ============================================================================

/-- The hub's projection of the events alone. -/
def projection (h : Hub) : FlowMap := h.snapshot (fun _ => none) []

/-- The same statuses of flows and operations. -/
structure Agrees (rt : Runtime) (h : Hub) : Prop where
  flow : ∀ f, (rt.flow f).map (·.status) = (projection h f).map (·.status)
  op : ∀ f o, ((rt.flow f).bind (·.op o)).map (·.status) =
    ((projection h f).bind (·.ops o)).map (·.status)

/-- The same statuses in the records of one flow. -/
structure SameFlow (fl : RuntimeFlow) (fr : FlowRuntime) : Prop where
  status : fl.status = (Hub.toFlowState fr).status
  ops : ∀ o, (fl.op o).map (·.status) = (fr.ops o).map (·.status)

def Same (fl : Option RuntimeFlow) (fr : Option FlowRuntime) : Prop :=
  fl.map (·.status) = fr.map (fun fr => (Hub.toFlowState fr).status) ∧
    ∀ o, (fl.bind (·.op o)).map (·.status) = (fr.bind (·.ops o)).map (·.status)

@[simp] theorem projection_eq (h : Hub) (f : String) :
    projection h f = (h.flows f).map Hub.toFlowState := rfl

theorem agrees_iff {rt : Runtime} {h : Hub} : Agrees rt h ↔ ∀ f, Same (rt.flow f) (h.flows f) := by
  have hops : ∀ f o, (projection h f).bind (·.ops o) = (h.flows f).bind (·.ops o) := by
    intro f o
    rw [projection_eq, Option.bind_map]
    rfl
  constructor
  · intro hagree f
    refine ⟨?_, fun o => ?_⟩
    · rw [hagree.flow f, projection_eq, Option.map_map]
      rfl
    · rw [hagree.op f o, hops]
  · intro hsame
    refine ⟨fun f => ?_, fun f o => ?_⟩
    · rw [(hsame f).1, projection_eq, Option.map_map]
      rfl
    · rw [(hsame f).2 o, hops]

theorem same_some {fl : RuntimeFlow} {fr : FlowRuntime} :
    Same (some fl) (some fr) ↔ SameFlow fl fr := by
  constructor
  · rintro ⟨hstatus, hops⟩
    exact ⟨Option.some.inj hstatus, hops⟩
  · rintro ⟨hstatus, hops⟩
    exact ⟨congrArg some hstatus, hops⟩

theorem Same.isSome {fl : Option RuntimeFlow} {fr : Option FlowRuntime} (h : Same fl fr) :
    fl.isSome = fr.isSome := by
  have := congrArg Option.isSome h.1
  simpa using this

/-- The records that both sides start from, where there are none yet. -/
theorem Same.getD {fl : Option RuntimeFlow} {fr : Option FlowRuntime} {f : String}
    (h : Same fl fr) : SameFlow (fl.getD { id := f, status := "idle" }) (fr.getD {}) := by
  cases fl with
  | none =>
    cases fr with
    | none => exact ⟨rfl, fun o => rfl⟩
    | some fr => cases h.isSome
  | some fl =>
    cases fr with
    | none => cases h.isSome
    | some fr => exact same_some.mp h

theorem flow_onFlow {rt : Runtime} {id : String} {g : RuntimeFlow → RuntimeFlow}
    (hg : ∀ fl, (g fl).id = fl.id) (f : String) :
    (rt.onFlow id g).flow f =
      if f = id then some (g ((rt.flow id).getD { id, status := "idle" })) else rt.flow f :=
  find?_upsert (f := RuntimeFlow.id) (k := id)
    (show RuntimeFlow.id { id, status := "idle" } = id from rfl) hg rt.flows f

/-- Both sides change the record of one flow: they agree exactly when these
    records are still the same. -/
theorem agrees_onFlow {rt : Runtime} {h : Hub} {id : String} {g : RuntimeFlow → RuntimeFlow}
    {g' : FlowRuntime → FlowRuntime} {rev : Int} (hagree : Agrees rt h)
    (hg : ∀ fl, (g fl).id = fl.id) :
    Agrees (rt.onFlow id g) ⟨rev, h.flows.onEntry id g'⟩ ↔
      SameFlow (g ((rt.flow id).getD { id, status := "idle" })) (g' ((h.flows id).getD {})) := by
  have hold := agrees_iff.mp hagree
  rw [agrees_iff]
  constructor
  · intro hsame
    have hid := hsame id
    rw [flow_onFlow hg, if_pos rfl] at hid
    simpa [FlowMap.onEntry, same_some] using hid
  · intro hsame f
    rw [flow_onFlow hg]
    by_cases hf : f = id
    · simpa [hf, FlowMap.onEntry, same_some] using hsame
    · simpa [hf, FlowMap.onEntry] using hold f

-- ============================================================================
-- One event
-- ============================================================================

/-- What the hub takes from the event of an operation for its flow. -/
def FlowExecutionEvent.lifted (fe : FlowExecutionEvent) : Bool :=
  ["running", "cancelling", "failed", "cancelled"].contains fe.status

/-- The event of a flow has a status, unless the flow is idle; that of an
    operation has one that the hub takes for the flow too, or the flow's own. -/
structure FlowFits (fe : FlowExecutionEvent) (fr : FlowRuntime) : Prop where
  whole : fe.opId = "" → fe.status ≠ "" ∨ (Hub.toFlowState fr).status = "idle"
  lifted : fe.opId ≠ "" → fe.status ≠ "" →
    FlowExecutionEvent.lifted fe = true ∨ (Hub.toFlowState fr).status = fe.status
  op : fe.opId ≠ "" → fe.status = "" → ∀ op, fr.ops fe.opId = some op → op.status = ""

section

variable {fl : RuntimeFlow} {fr : FlowRuntime} {o : String}

theorem execution_status (status opId error : String) :
    (fl.execution status opId error).status = if status ≠ "" then status else fl.status := by
  unfold RuntimeFlow.execution
  by_cases hs : status = "" <;> by_cases ho : opId = "" <;> simp [hs, ho, RuntimeFlow.onOp]

theorem execution_id (status opId error : String) (fl : RuntimeFlow) :
    (fl.execution status opId error).id = fl.id := by
  unfold RuntimeFlow.execution
  by_cases hs : status = "" <;> by_cases ho : opId = "" <;> simp [hs, ho, RuntimeFlow.onOp]

theorem op_onOp {id : String} {g : RuntimeOp → RuntimeOp} (hg : ∀ op, (g op).id = op.id) :
    (fl.onOp id g).op o = if o = id then some (g ((fl.op id).getD ⟨id, "", ""⟩)) else fl.op o :=
  find?_upsert (f := RuntimeOp.id) (k := id) (show RuntimeOp.id ⟨id, "", ""⟩ = id from rfl) hg
    fl.ops o

theorem op_congr {fl' : RuntimeFlow} (h : fl'.ops = fl.ops) (id : String) : fl'.op id = fl.op id := by
  unfold RuntimeFlow.op
  rw [h]

theorem execution_op (status opId error : String) :
    ((fl.execution status opId error).op o).map (·.status) =
      if opId ≠ "" ∧ o = opId then
        some (if status ≠ "" then status else ((fl.op opId).map (·.status)).getD "")
      else (fl.op o).map (·.status) := by
  unfold RuntimeFlow.execution
  generalize hfl : (if status ≠ "" then _ else fl : RuntimeFlow) = fl'
  have hops : fl'.ops = fl.ops := by
    rw [← hfl]
    split <;> rfl
  by_cases hopId : opId = ""
  · simp [hopId, op_congr hops]
  · simp only [hopId, ne_eq, not_false_eq_true, if_true, true_and]
    rw [op_onOp, op_congr hops, op_congr hops]
    · split
      · cases fl.op opId <;> rfl
      · rfl
    · exact fun _ => rfl

theorem applyFlow_status (fe : FlowExecutionEvent) :
    (fr.applyFlow fe).status =
      if fe.opId = "" ∨ FlowExecutionEvent.lifted fe = true then fe.status else fr.status := by
  unfold FlowRuntime.applyFlow FlowExecutionEvent.lifted
  by_cases ho : fe.opId = ""
  · simp only [ho, bne_self_eq_false, Bool.false_eq_true, if_false, true_or, if_true]
    split <;> split <;> rfl
  · have hne : (fe.opId != "") = true := bne_iff_ne.mpr ho
    simp only [hne, if_true, ho, false_or]
    split
    · rfl
    · split <;> rfl

theorem applyFlow_ops (fe : FlowExecutionEvent) :
    ((fr.applyFlow fe).ops o).map (·.status) =
      if fe.opId ≠ "" ∧ o = fe.opId then some fe.status else (fr.ops o).map (·.status) := by
  have hupdate : ∀ g : OpRuntime → OpRuntime, (∀ op, (g op).status = fe.status) →
      ((fr.onOp fe.opId g).ops o).map (·.status) =
        if o = fe.opId then some fe.status else (fr.ops o).map (·.status) := by
    intro g hg
    unfold FlowRuntime.onOp
    by_cases ho : o = fe.opId
    · subst ho
      simp [hg]
    · simp [ho]
  unfold FlowRuntime.applyFlow
  by_cases ho : fe.opId = ""
  · simp only [ho, bne_self_eq_false, Bool.false_eq_true, if_false, ne_eq, not_true_eq_false,
      false_and]
    split <;> split <;> rfl
  · have hne : (fe.opId != "") = true := bne_iff_ne.mpr ho
    simp only [hne, if_true, ne_eq, ho, not_false_eq_true, true_and]
    rw [← hupdate (fun op => ⟨fe.status, if fe.error != "" then fe.error else op.lastError⟩)
      fun _ => rfl]
    split <;> split <;> rfl

theorem shown_eq {st : String} (h : st ≠ "idle") (h' : st ≠ "") :
    (Hub.toFlowState fr).status = st ↔ fr.status = st := by
  unfold Hub.toFlowState
  by_cases he : fr.status = ""
  · simp [he, h.symm, h'.symm]
  · simp [he]

theorem agrees_execution (hsame : SameFlow fl fr) (fe : FlowExecutionEvent) :
    SameFlow (fl.execution fe.status fe.opId fe.error) (fr.applyFlow fe) ↔ FlowFits fe fr := by
  have hshown : (Hub.toFlowState (fr.applyFlow fe)).status =
      if fe.opId = "" ∨ FlowExecutionEvent.lifted fe = true then
        if fe.status = "" then "idle" else fe.status
      else (Hub.toFlowState fr).status := by
    show (if (fr.applyFlow fe).status == "" then "idle" else (fr.applyFlow fe).status) = _
    rw [applyFlow_status]
    split <;> simp [Hub.toFlowState]
  have hold : (fl.op fe.opId).map (·.status) = (fr.ops fe.opId).map (·.status) := hsame.ops fe.opId
  have hlifted : FlowExecutionEvent.lifted fe = true → fe.status ≠ "" := by
    intro hl he
    simp [FlowExecutionEvent.lifted, he] at hl
  constructor
  · rintro ⟨hstatus, hops⟩
    rw [execution_status, hshown, hsame.status] at hstatus
    refine ⟨fun ho => ?_, fun ho hs => ?_, fun ho hs op hop => ?_⟩
    · by_cases hs : fe.status = ""
      · right
        simpa [hs, ho] using hstatus
      · exact .inl hs
    · by_cases hl : FlowExecutionEvent.lifted fe = true
      · exact .inl hl
      · right
        simpa [hs, ho, hl] using hstatus.symm
    · have hnew := hops fe.opId
      have hkey : fe.opId ≠ "" ∧ fe.opId = fe.opId := ⟨ho, rfl⟩
      rw [execution_op, applyFlow_ops, if_pos hkey, if_pos hkey, hold, hop] at hnew
      simpa [hs] using hnew
  · intro hfits
    refine ⟨?_, fun o => ?_⟩
    · rw [execution_status, hshown, hsame.status]
      by_cases ho : fe.opId = ""
      · rcases hfits.whole ho with hs | hidle
        · simp [ho, hs]
        · by_cases hs : fe.status = "" <;> simp [ho, hs, hidle]
      · by_cases hs : fe.status = ""
        · have hl : ¬ FlowExecutionEvent.lifted fe = true := fun hl => hlifted hl hs
          simp [ho, hs, hl]
        · rcases hfits.lifted ho hs with hl | heq
          · simp [hs, hl]
          · simp [ho, hs, heq]
    · rw [execution_op, applyFlow_ops]
      by_cases ho : fe.opId ≠ "" ∧ o = fe.opId
      · rw [if_pos ho, if_pos ho, hold]
        by_cases hs : fe.status = ""
        · cases hop : fr.ops fe.opId with
          | none => simp [hs]
          | some op => simp [hs, hfits.op ho.1 hs op hop]
        · simp [hs]
      · rw [if_neg ho, if_neg ho, hsame.ops o]


-- ============================================================================
-- Sync events
-- ============================================================================

def terminal (state : String) : Bool := ["failed", "cancelled", "completed"].contains state

/-- The status that the window gives the flow for a state. -/
def fate (state : String) : Option String :=
  if running state then some "running" else if terminal state then some state else none

/-- The window reads the state that the hub reads, or the one that the operation
    is in; and a state that it takes for the flow is one that the hub takes for
    it too, or the flow's own. -/
structure SyncFits (seen : String) (prog : SyncProgressEvent) (fr : FlowRuntime) (o : String) :
    Prop where
  op : seen = prog.state ∨ prog.state = "" ∧ (fr.ops o).map (·.status) = some seen
  flow : ∀ st, fate seen = some st →
    prog.state = "running" ∨ fr.status = st ∨ terminal prog.state = true ∧ fr.status = ""

theorem sync_status (progress : SyncProgress) (opId : String) :
    (fl.applySync progress opId).status = (fate progress.state).getD fl.status := by
  have hop : ∀ fl' : RuntimeFlow, ∀ g, (if opId ≠ "" then fl'.onOp opId g else fl').status =
      fl'.status := by
    intro fl' g
    split <;> rfl
  unfold RuntimeFlow.applySync fate terminal
  simp only [hop]
  by_cases hrun : running progress.state = true
  · simp [hrun]
  · by_cases h₁ : progress.state = "completed"
    · simp [h₁, show running "completed" = false from rfl]
    · by_cases h₂ : progress.state = "cancelled"
      · simp [h₂, show running "cancelled" = false from rfl]
      · by_cases h₃ : progress.state = "failed"
        · simp [h₃, show running "failed" = false from rfl]
        · simp [hrun, h₁, h₂, h₃]

theorem sync_id (progress : SyncProgress) (opId : String) (fl : RuntimeFlow) :
    (fl.applySync progress opId).id = fl.id := by
  have hop : ∀ fl' : RuntimeFlow, ∀ g, (if opId ≠ "" then fl'.onOp opId g else fl').id = fl'.id := by
    intro fl' g
    split <;> rfl
  unfold RuntimeFlow.applySync
  simp only [hop]
  split
  · rfl
  · split
    · rfl
    · split
      · rfl
      · split <;> rfl

theorem sync_op (progress : SyncProgress) (opId : String) :
    ((fl.applySync progress opId).op o).map (·.status) =
      if opId ≠ "" ∧ o = opId then some progress.state else (fl.op o).map (·.status) := by
  have hset : ∀ fl' : RuntimeFlow, ∀ g : RuntimeOp → RuntimeOp, fl'.ops = fl.ops →
      (∀ op, (g op).id = op.id) → (∀ op, (g op).status = progress.state) →
      (((if opId ≠ "" then fl'.onOp opId g else fl').op o).map (·.status) =
        if opId ≠ "" ∧ o = opId then some progress.state else (fl.op o).map (·.status)) := by
    intro fl' g hops hid hstate
    by_cases hopId : opId = ""
    · simp [hopId, op_congr hops]
    · simp only [hopId, ne_eq, not_false_eq_true, if_true, true_and]
      rw [op_onOp hid, op_congr hops, op_congr hops]
      split
      · simp [hstate]
      · rfl
  unfold RuntimeFlow.applySync
  refine hset _ _ ?_ (fun _ => rfl) fun _ => rfl
  split
  · rfl
  · split
    · rfl
    · split
      · rfl
      · split <;> rfl

theorem hubSync_status (started : Bool) (prog : SyncProgressEvent) (opId : String) :
    (fr.applySync started prog opId).status =
      if started || prog.state == "running" then "running"
      else if terminal prog.state && fr.status == "" then prog.state else fr.status := by
  have hop : ∀ g, (if opId != "" then fr.onOp opId g else fr).status = fr.status := by
    intro g
    split <;> rfl
  have herr : ∀ (b : Bool) (fr' : FlowRuntime) (e : String),
      (if b then { fr' with lastError := e } else fr').status = fr'.status := by
    intro b fr' e
    split <;> rfl
  unfold FlowRuntime.applySync terminal
  simp only [herr, hop]
  split
  · rfl
  · split
    · rfl
    · exact hop _

theorem hubSync_ops (started : Bool) (prog : SyncProgressEvent) (opId : String) :
    ((fr.applySync started prog opId).ops o).map (·.status) =
      if opId ≠ "" ∧ o = opId then
        some (if prog.state ≠ "" then prog.state else if started then "running"
          else ((fr.ops opId).map (·.status)).getD "")
      else (fr.ops o).map (·.status) := by
  unfold FlowRuntime.applySync
  generalize hfr : (if opId != "" then fr.onOp opId _ else fr) = fr'
  have hops : ((fr'.ops o).map (·.status) : Option String) =
      if opId ≠ "" ∧ o = opId then
        some (if prog.state ≠ "" then prog.state else if started then "running"
          else ((fr.ops opId).map (·.status)).getD "")
      else (fr.ops o).map (·.status) := by
    rw [← hfr]
    by_cases hopId : opId = ""
    · simp [hopId]
    · by_cases ho : o = opId
      · subst ho
        cases hold : fr.ops o <;> simp [hopId, FlowRuntime.onOp, hold]
      · simp [hopId, ho, FlowRuntime.onOp]
  have herr : ∀ (b : Bool) (fr'' : FlowRuntime) (e : String),
      (if b then { fr'' with lastError := e } else fr'').ops = fr''.ops := by
    intro b fr'' e
    split <;> rfl
  rw [← hops]
  simp only [herr]
  split
  · rfl
  · split <;> rfl

theorem fate_ne {state st : String} (h : fate state = some st) : st ≠ "idle" ∧ st ≠ "" := by
  unfold fate at h
  split at h
  · obtain rfl := Option.some.inj h
    decide
  · split at h
    · rename_i hterm
      obtain rfl := Option.some.inj h
      constructor
      · rintro rfl
        exact absurd hterm (by decide)
      · rintro rfl
        exact absurd hterm (by decide)
    · cases h

theorem fate_terminal {state : String} (h : terminal state = true) : fate state = some state := by
  have hrun : running state = false := by
    by_contra hr
    simp only [running, Bool.or_eq_true, decide_eq_true_eq, Bool.not_eq_false] at hr
    rcases hr with rfl | rfl <;> exact absurd h (by decide)
  simp [fate, hrun, h]

/-- The hub's status of the flow, where the progress is not `running`. -/
theorem hubSync_shown {prog : SyncProgressEvent} (opId : String) (hrun : prog.state ≠ "running") :
    (Hub.toFlowState (fr.applySync false prog opId)).status =
      if terminal prog.state = true ∧ fr.status = "" then prog.state
      else (Hub.toFlowState fr).status := by
  show (if (fr.applySync false prog opId).status == "" then "idle"
    else (fr.applySync false prog opId).status) = _
  rw [hubSync_status]
  by_cases hterm : terminal prog.state = true ∧ fr.status = ""
  · have hne : prog.state ≠ "" := (fate_ne (fate_terminal hterm.1)).2
    simp [hrun, hterm, hne]
  · rw [if_neg hterm]
    have hterm' : ¬ ((terminal prog.state && fr.status == "") = true) := by simpa using hterm
    have hrun' : ¬ ((false || prog.state == "running") = true) := by simpa using hrun
    rw [if_neg hrun', if_neg hterm']
    rfl

theorem agrees_sync {started : Bool} {prog : SyncProgressEvent} {seen : SyncProgress}
    {opId : String} (hsame : SameFlow fl fr) (hopId : opId ≠ "") (hseen : seen.state ≠ "")
    (hstarted : started = true → prog.state = "running") :
    SameFlow (fl.applySync seen opId) (fr.applySync started prog opId) ↔
      SyncFits seen.state prog fr opId := by
  have hops : (∀ o, ((fl.applySync seen opId).op o).map (·.status) =
        ((fr.applySync started prog opId).ops o).map (·.status)) ↔
      (seen.state = prog.state ∨
        prog.state = "" ∧ (fr.ops opId).map (·.status) = some seen.state) := by
    have hone : ((fl.applySync seen opId).op opId).map (·.status) =
          ((fr.applySync started prog opId).ops opId).map (·.status) ↔
        (seen.state = prog.state ∨
          prog.state = "" ∧ (fr.ops opId).map (·.status) = some seen.state) := by
      rw [sync_op, hubSync_ops]
      by_cases hs : prog.state = ""
      · have hns : started = false := by
          by_contra hst
          rw [hstarted (by simpa using hst)] at hs
          exact absurd hs (by decide)
        cases fr.ops opId <;> simp [hopId, hs, hns, hseen, eq_comm]
      · simp [hopId, hs]
    rw [← hone]
    refine ⟨fun h => h opId, fun h o => ?_⟩
    by_cases ho : o = opId
    · rw [ho, h]
    · rw [sync_op, hubSync_ops]
      simp [ho, hsame.ops o]
  have hflow : (seen.state = prog.state ∨
        prog.state = "" ∧ (fr.ops opId).map (·.status) = some seen.state) →
      ((fl.applySync seen opId).status = (Hub.toFlowState (fr.applySync started prog opId)).status ↔
        ∀ st, fate seen.state = some st →
          prog.state = "running" ∨ fr.status = st ∨ terminal prog.state = true ∧ fr.status = "") := by
    intro hop
    rw [sync_status, hsame.status]
    by_cases hrun : prog.state = "running"
    · -- the hub's flow runs, and so does the window's
      have hs : seen.state = "running" := by
        rcases hop with hs | ⟨hs, -⟩
        · rw [hs, hrun]
        · rw [hrun] at hs
          exact absurd hs (by decide)
      have hraw : (fr.applySync started prog opId).status = "running" := by
        rw [hubSync_status, hrun]
        simp
      have hfate : fate seen.state = some "running" := by rw [hs]; decide
      refine iff_of_true ?_ fun st _ => .inl hrun
      rw [hfate]
      simp [Hub.toFlowState, hraw]
    · have hns : started = false := by
        by_contra hst
        exact hrun (hstarted (by simpa using hst))
      rw [hns, hubSync_shown opId hrun]
      cases hfate : fate seen.state with
      | none =>
        have hterm : ¬ terminal prog.state = true := by
          intro hterm
          rcases hop with hs | ⟨hs, -⟩
          · rw [hs, fate_terminal hterm] at hfate
            cases hfate
          · rw [hs] at hterm
            exact absurd hterm (by decide)
        simp [hterm]
      | some st =>
        obtain ⟨hidle, hne⟩ := fate_ne hfate
        by_cases hterm : terminal prog.state = true ∧ fr.status = ""
        · have hst : st = prog.state := by
            rcases hop with hs | ⟨hs, -⟩
            · rw [hs, fate_terminal hterm.1] at hfate
              exact (Option.some.inj hfate).symm
            · rw [hs] at hterm
              exact absurd hterm.1 (by decide)
          simp [hterm, hst]
        · rw [if_neg hterm, Option.getD_some, eq_comm, shown_eq hidle hne]
          constructor
          · rintro hraw st' hst'
            obtain rfl := Option.some.inj hst'
            exact .inr (.inl hraw)
          · intro h
            exact ((h st rfl).resolve_left hrun).resolve_right hterm
  constructor
  · rintro ⟨hstatus, hopsame⟩
    have hop := hops.mp hopsame
    exact ⟨hop, (hflow hop).mp hstatus⟩
  · rintro ⟨hop, hfl⟩
    exact ⟨(hflow hop).mpr hfl, hops.mpr hop⟩

end

-- ============================================================================
-- The events of a run
-- ============================================================================

/-- The events that the hub projects. -/
def isRun : BusEvent → Bool
  | .flowExecution _ | .syncStarted _ | .syncProgress _ | .syncCompleted _ | .syncFailed _ => true
  | _ => false

/-- A progress whose key names no operation, and which the hub leaves alone,
    changes nothing: the flow is there and has the status that the window takes
    from the state. -/
def WholeFits (h : Hub) (f seen : String) : Prop :=
  ∃ fr, h.flows f = some fr ∧ ∀ st, fate seen = some st → (Hub.toFlowState fr).status = st

/-- The window and the hub, which agree on what was before, agree on the event. -/
def Fits (h : Hub) (ev : BusEvent) : Prop :=
  match ev with
  | .flowExecution fe => fe.flowId ≠ "" → FlowFits fe ((h.flows fe.flowId).getD {})
  | ev =>
      ∀ started prog seen, syncOf ev = some (started, prog) → seenOf ev = some seen →
        let f := flowPart prog.profileId
        let o := opPart prog.profileId
        f ≠ "" → (o = "" → WholeFits h f seen.state) ∧
          (o ≠ "" → SyncFits seen.state prog ((h.flows f).getD {}) o)

section

variable {rt : Runtime} {h : Hub} {ev : BusEvent} {seen : SyncProgress} {started : Bool}
  {prog : SyncProgressEvent}

theorem seenOf_state_ne (hseen : seenOf ev = some seen) : seen.state ≠ "" := by
  have hne : ∀ event data, stateOf event ≠ "" → (progressOf event data).state ≠ "" := by
    intro event data hevent
    rw [(progressOf_fields event data).2]
    by_cases hs : ((SyncProgress.ofValue data).getD {}).state = ""
    · rwa [hs]
    · simp [hs]
  cases ev <;>
    simp only [seenOf, pushed, reduceCtorEq, Option.map_some, Option.some.injEq] at hseen <;>
    subst hseen <;> exact hne _ _ (by decide)

theorem syncOf_started (hev : syncOf ev = some (started, prog)) :
    started = true → prog.state = "running" := by
  cases ev <;> simp only [syncOf, reduceCtorEq, Option.some.injEq, Prod.mk.injEq] at hev <;>
    obtain ⟨rfl, rfl⟩ := hev <;> simp

theorem hub_onEvent_sync (hev : syncOf ev = some (started, prog)) :
    h.onEvent ev = ⟨h.rev + 1,
      if flowPart prog.profileId ≠ "" ∧ opPart prog.profileId ≠ "" then
        h.flows.onEntry (flowPart prog.profileId)
          (.applySync started prog (opPart prog.profileId))
      else h.flows⟩ := by
  have happly : GnDrive.Runtime.applySync h.flows ev =
      if flowPart prog.profileId ≠ "" ∧ opPart prog.profileId ≠ "" then
        h.flows.onEntry (flowPart prog.profileId)
          (.applySync started prog (opPart prog.profileId))
      else h.flows := by
    unfold GnDrive.Runtime.applySync
    rw [hev]
    simp only [splitBusyKey_parts]
    by_cases hk : flowPart prog.profileId ≠ "" ∧ opPart prog.profileId ≠ ""
    · rw [if_pos hk, if_pos hk]
    · rw [if_neg hk, if_neg hk]
  rw [← happly]
  cases ev <;> first | rfl | cases hev

theorem agrees_whole {f : String} (hagree : Agrees rt h) {rev : Int} :
    Agrees (rt.onFlow f (.applySync seen "")) ⟨rev, h.flows⟩ ↔ WholeFits h f seen.state := by
  have hold := agrees_iff.mp hagree
  have hid := sync_id seen ""
  rw [agrees_iff]
  constructor
  · intro hsame
    have hf := hsame f
    rw [flow_onFlow hid, if_pos rfl] at hf
    cases hfr : h.flows f with
    | none => 
      rw [hfr] at hf
      cases hf.isSome
    | some fr =>
      rw [hfr, same_some] at hf
      have hstart := (hold f).getD (f := f)
      rw [hfr] at hstart
      refine ⟨fr, hfr, fun st hst => ?_⟩
      have hstatus := hf.status
      rw [sync_status, hst] at hstatus
      exact hstatus.symm
  · rintro ⟨fr, hfr, hst⟩ g
    rw [flow_onFlow hid]
    by_cases hg : g = f
    · have hstart := (hold f).getD (f := f)
      rw [if_pos hg, hg, hfr, same_some]
      rw [hfr] at hstart
      refine ⟨?_, fun o => ?_⟩
      · rw [sync_status]
        cases hfate : fate seen.state with
        | none => exact hstart.status
        | some st => exact (hst st hfate).symm
      · rw [sync_op]
        simpa using hstart.ops o
    · rw [if_neg hg]
      exact hold g

theorem agrees_flowExecution (hagree : Agrees rt h) (fe : FlowExecutionEvent) :
    Agrees (rt.onEvent (.flowExecution fe)) (h.onEvent (.flowExecution fe)) ↔
      Fits h (.flowExecution fe) := by
  have hold := agrees_iff.mp hagree
  show _ ↔ (fe.flowId ≠ "" → FlowFits fe ((h.flows fe.flowId).getD {}))
  rw [onEvent_flowExecution]
  by_cases hid : fe.flowId = ""
  · have hhub : h.onEvent (.flowExecution fe) = h := by simp [Hub.onEvent, hid]
    rw [if_pos hid, hhub]
    exact iff_of_true hagree fun hne => absurd hid hne
  · have hhub : h.onEvent (.flowExecution fe) =
        ⟨h.rev + 1, h.flows.onEntry fe.flowId (.applyFlow fe)⟩ := by
      simp [Hub.onEvent, hid, GnDrive.Runtime.applyFlow]
    rw [if_neg hid, hhub, agrees_onFlow hagree (execution_id _ _ _),
      agrees_execution (hold fe.flowId).getD]
    simp [hid]

/-- One event: it is agreed on exactly when it fits. -/
theorem agrees_onEvent (hagree : Agrees rt h) (hrun : isRun ev = true) :
    Agrees (rt.onEvent ev) (h.onEvent ev) ↔ Fits h ev := by
  have hsync : ∀ started prog, syncOf ev = some (started, prog) →
      (Agrees (rt.onEvent ev) (h.onEvent ev) ↔
        ∀ started prog seen, syncOf ev = some (started, prog) → seenOf ev = some seen →
          flowPart prog.profileId ≠ "" →
            (opPart prog.profileId = "" → WholeFits h (flowPart prog.profileId) seen.state) ∧
            (opPart prog.profileId ≠ "" → SyncFits seen.state prog
              ((h.flows (flowPart prog.profileId)).getD {}) (opPart prog.profileId))) := by
    intro started prog hev
    obtain ⟨seen, hseen, hkey⟩ := seenOf_profileId hev
    have hone : (∀ started' prog' seen', syncOf ev = some (started', prog') →
        seenOf ev = some seen' → flowPart prog'.profileId ≠ "" →
          (opPart prog'.profileId = "" → WholeFits h (flowPart prog'.profileId) seen'.state) ∧
          (opPart prog'.profileId ≠ "" → SyncFits seen'.state prog'
            ((h.flows (flowPart prog'.profileId)).getD {}) (opPart prog'.profileId))) ↔
        (flowPart prog.profileId ≠ "" →
          (opPart prog.profileId = "" → WholeFits h (flowPart prog.profileId) seen.state) ∧
          (opPart prog.profileId ≠ "" → SyncFits seen.state prog
            ((h.flows (flowPart prog.profileId)).getD {}) (opPart prog.profileId))) := by
      refine ⟨fun hall => hall _ _ _ hev hseen, fun hone started' prog' seen' hev' hseen' => ?_⟩
      obtain ⟨rfl, rfl⟩ := Prod.mk.inj (Option.some.inj (hev'.symm.trans hev))
      obtain rfl := Option.some.inj (hseen'.symm.trans hseen)
      exact hone
    rw [hone, onEvent_sync hseen, hub_onEvent_sync hev]
    unfold Runtime.applySync
    simp only [hkey]
    by_cases hf : flowPart prog.profileId = ""
    · rw [if_pos hf, if_neg fun hk => hk.1 hf]
      exact iff_of_true ⟨hagree.flow, hagree.op⟩ fun hne => absurd hf hne
    · rw [if_neg hf]
      by_cases ho : opPart prog.profileId = ""
      · rw [if_neg fun hk => hk.2 ho, ho, agrees_whole hagree]
        simp [hf]
      · rw [if_pos ⟨hf, ho⟩, agrees_onFlow hagree (sync_id _ _),
          agrees_sync (agrees_iff.mp hagree _).getD ho (seenOf_state_ne hseen) (syncOf_started hev)]
        simp [hf, ho]
  cases ev with
  | flowExecution fe => exact agrees_flowExecution hagree fe
  | syncStarted e | syncProgress e | syncCompleted e | syncFailed e => exact hsync _ _ rfl
  | _ => cases hrun


end

-- ============================================================================
-- Runs of events
-- ============================================================================

/-- The window's run state and the hub after the same events. -/
def foldWindow (evs : List BusEvent) : Runtime := evs.foldl Runtime.onEvent {}

def foldHub (evs : List BusEvent) : Hub := evs.foldl Hub.onEvent {}

theorem agrees_empty : Agrees {} {} := ⟨fun _ => rfl, fun _ _ => rfl⟩

theorem foldWindow_concat (evs : List BusEvent) (ev : BusEvent) :
    foldWindow (evs ++ [ev]) = (foldWindow evs).onEvent ev := by
  simp [foldWindow]

theorem foldHub_concat (evs : List BusEvent) (ev : BusEvent) :
    foldHub (evs ++ [ev]) = (foldHub evs).onEvent ev := by
  simp [foldHub]

/-- The two agree all along a sequence of events exactly when each of the events
    fits. -/
theorem agrees_throughout (evs : List BusEvent) (hrun : ∀ ev ∈ evs, isRun ev = true) :
    (∀ pre, pre <+: evs → Agrees (foldWindow pre) (foldHub pre)) ↔
      ∀ pre ev, pre ++ [ev] <+: evs → Fits (foldHub pre) ev := by
  constructor
  · intro hall pre ev hpre
    have hev : isRun ev = true := hrun ev (hpre.subset (by simp))
    have hafter := hall _ hpre
    rw [foldWindow_concat, foldHub_concat] at hafter
    exact (agrees_onEvent (hall pre ((List.prefix_append pre [ev]).trans hpre)) hev).mp hafter
  · intro hfits pre hpre
    -- by induction on the events so far
    induction pre using List.reverseRecOn with
    | nil => exact agrees_empty
    | append_singleton pre ev ih =>
      have hev : isRun ev = true := hrun ev (hpre.subset (by simp))
      rw [foldWindow_concat, foldHub_concat]
      exact (agrees_onEvent (ih ((List.prefix_append pre [ev]).trans hpre)) hev).mpr
        (hfits pre ev hpre)

-- ============================================================================
-- Whose progress is shown
-- ============================================================================

/-- The key that a sync event carries. -/
def keyOf (ev : BusEvent) : Option String := (syncOf ev).map (·.2.profileId)

theorem execution_sync (status opId error : String) (fl : RuntimeFlow) :
    (fl.execution status opId error).sync = fl.sync := by
  unfold RuntimeFlow.execution
  by_cases hs : status = "" <;> by_cases ho : opId = "" <;> simp [hs, ho, RuntimeFlow.onOp]

theorem sync_sync (progress : SyncProgress) (opId : String) (fl : RuntimeFlow) :
    (fl.applySync progress opId).sync = some progress := by
  have hop : ∀ fl' : RuntimeFlow, ∀ g, (if opId ≠ "" then fl'.onOp opId g else fl').sync =
      fl'.sync := by
    intro fl' g
    split <;> rfl
  unfold RuntimeFlow.applySync
  simp only [hop]
  split
  · rfl
  · split
    · rfl
    · split
      · rfl
      · split <;> rfl

theorem sync_onFlow {rt : Runtime} {id f : String} {g : RuntimeFlow → RuntimeFlow}
    (hg : ∀ fl, (g fl).id = fl.id) :
    ((rt.onFlow id g).flow f).bind (·.sync) =
      if f = id then (g ((rt.flow id).getD { id, status := "idle" })).sync
      else (rt.flow f).bind (·.sync) := by
  rw [flow_onFlow hg]
  split <;> rfl

/-- A progress that a flow's record keeps was there before, or is that of the
    event. -/
theorem sync_onEvent {rt : Runtime} {ev : BusEvent} {f : String} {p : SyncProgress}
    (hrun : isRun ev = true) (h : ((rt.onEvent ev).flow f).bind (·.sync) = some p) :
    (rt.flow f).bind (·.sync) = some p ∨
      f ≠ "" ∧ flowPart p.profileId = f ∧ keyOf ev = some p.profileId := by
  have hsync : ∀ started prog, syncOf ev = some (started, prog) →
      (rt.flow f).bind (·.sync) = some p ∨
        f ≠ "" ∧ flowPart p.profileId = f ∧ keyOf ev = some p.profileId := by
    intro started prog hev
    obtain ⟨seen, hseen, hkey⟩ := seenOf_profileId hev
    rw [onEvent_sync hseen, Runtime.applySync] at h
    split at h
    · exact .inl h
    · rename_i hf
      rw [sync_onFlow (sync_id _ _)] at h
      split at h
      · rename_i hfid
        rw [sync_sync] at h
        obtain rfl := Option.some.inj h
        exact .inr ⟨hfid ▸ hf, hfid.symm, by rw [keyOf, hev, hkey]; rfl⟩
      · exact .inl h
  cases ev with
  | flowExecution fe =>
    left
    rw [onEvent_flowExecution] at h
    split at h
    · exact h
    · rw [sync_onFlow (execution_id _ _ _)] at h
      split at h
      · rename_i hfid
        rw [execution_sync, ← hfid] at h
        cases hfl : rt.flow f with
        | none =>
          rw [hfl] at h
          cases h
        | some fl =>
          rw [hfl] at h
          exact h
      · exact h
  | syncStarted e | syncProgress e | syncCompleted e | syncFailed e => exact hsync _ _ rfl
  | _ => cases hrun

/-- What a flow's record keeps of the progress has a key of that flow, and one
    that an event carried. -/
theorem sync_foldWindow {evs : List BusEvent} (hrun : ∀ ev ∈ evs, isRun ev = true) {f : String}
    {p : SyncProgress} (h : ((foldWindow evs).flow f).bind (·.sync) = some p) :
    f ≠ "" ∧ flowPart p.profileId = f ∧ ∃ ev ∈ evs, keyOf ev = some p.profileId := by
  induction evs using List.reverseRecOn with
  | nil => cases h
  | append_singleton evs ev ih =>
    rw [foldWindow_concat] at h
    rcases sync_onEvent (hrun ev (by simp)) h with hold | ⟨hf, hpart, hkey⟩
    · obtain ⟨hf, hpart, ev', hmem, hkey⟩ :=
        ih (fun e he => hrun e (List.mem_append_left _ he)) hold
      exact ⟨hf, hpart, ev', List.mem_append_left _ hmem, hkey⟩
    · exact ⟨hf, hpart, ev, by simp, hkey⟩

/-- The progress of a key that has just come. -/
theorem syncFor_last {ev : BusEvent} {seen : SyncProgress} {f o : String}
    (hseen : seenOf ev = some seen) (hf : f ≠ "") (hpart : flowPart seen.profileId = f)
    (hend : Text.endsWith o.toList seen.profileId.toList = true) :
    (foldWindow [ev]).syncFor f o = some seen := by
  have hone : foldWindow [ev] = ({} : Runtime).applySync seen := onEvent_sync hseen {}
  have hkept : ((foldWindow [ev]).flow f).bind (·.sync) = some seen := by
    rw [hone, Runtime.applySync]
    simp only [hpart]
    rw [if_neg hf, sync_onFlow (sync_id _ _), if_pos rfl, sync_sync]
  unfold Runtime.syncFor
  simp [hkept, hend]

/-- Each operation is shown the progress of its own key only: for all sequences
    of events that carry given keys this holds exactly when no operation's id is
    the end of a key of its flow that is not its own. -/
theorem attributed_iff (keys : Set String) (ids : Set (String × String)) :
    (∀ evs, (∀ ev ∈ evs, isRun ev = true ∧ ∀ k, keyOf ev = some k → k ∈ keys) →
      ∀ f o, (f, o) ∈ ids → ∀ p, (foldWindow evs).syncFor f o = some p →
        p.profileId = busyKey f o) ↔
    ∀ f o, (f, o) ∈ ids → f ≠ "" → ∀ k ∈ keys, flowPart k = f →
      Text.endsWith o.toList k.toList = true → k = busyKey f o := by
  constructor
  · intro hall f o hfo hf k hk hpart hend
    have hev : syncOf (.syncStarted ⟨"", k, ""⟩) = some (true, ⟨"", k, "", "running", 0, 0, ""⟩) := rfl
    obtain ⟨seen, hseen, hkey⟩ := seenOf_profileId hev
    have hkey : seen.profileId = k := hkey
    rw [← hkey] at hpart hend ⊢
    refine hall [.syncStarted ⟨"", k, ""⟩] ?_ f o hfo seen (syncFor_last hseen hf hpart hend)
    intro ev hev
    rw [List.mem_singleton.mp hev]
    refine ⟨rfl, fun k' hk' => ?_⟩
    have hkk : k = k' := Option.some.inj hk'
    rwa [← hkk]
  · intro hids evs hevs f o hfo p hp
    unfold Runtime.syncFor at hp
    split at hp
    · cases hp
    · rename_i sync hsync
      obtain ⟨hf, hpart, ev, hev, hkey⟩ := sync_foldWindow (fun ev hev => (hevs ev hev).1) hsync
      simp only at hp
      split at hp
      · rename_i hshown
        obtain rfl := Option.some.inj hp
        rcases Bool.or_eq_true_iff.mp hshown with hend | hexact
        · exact hids f o hfo hf _ ((hevs ev hev).2 _ hkey) hpart hend
        · exact of_decide_eq_true hexact
      · cases hp

-- ============================================================================
-- A new engine
-- ============================================================================

theorem adopt_iff (rt snapshot : Runtime) :
    rt.adopt snapshot = snapshot ↔ rt.revision ≤ snapshot.revision ∨ rt = snapshot := by
  unfold Runtime.adopt
  by_cases h : rt.revision ≤ snapshot.revision
  · simp [h]
  · simp [h]

/-- The window and the engine it talks to. -/
structure Session where
  hub : Hub := {}
  rt : Runtime := {}

inductive Frame where
  | event (ev : BusEvent)
  /-- The engine pushes what its hub projects. -/
  | snapshot (rt : Runtime)
  | restart

/-- A snapshot bears the hub's revision, and a new engine begins with an empty
    hub. -/
def Session.step (s : Session) : Frame → Option Session
  | .event ev => some ⟨s.hub.onEvent ev, s.rt.onEvent ev⟩
  | .snapshot rt => if rt.revision = s.hub.rev then some { s with rt := s.rt.adopt rt } else none
  | .restart => some { s with hub := {} }

def sessions : System Session Frame where
  init s := s = {}
  step := Session.step

/-- The run goes on with the same engine. -/
def SameEngine (_ : Session) : Frame → Prop
  | .restart => False
  | _ => True

/-- An event leaves the revision alone, unless it locks the window. -/
theorem onEvent_revision (rt : Runtime) (ev : BusEvent) :
    (rt.onEvent ev).revision = rt.revision ∨ (rt.onEvent ev).revision = 0 := by
  have hsync : ∀ seen, seenOf ev = some seen → (rt.onEvent ev).revision = rt.revision := by
    intro seen hseen
    rw [onEvent_sync hseen, Runtime.applySync]
    split <;> rfl
  cases ev with
  | flowExecution fe =>
    left
    rw [onEvent_flowExecution]
    split <;> rfl
  | syncStarted e | syncProgress e | syncCompleted e | syncFailed e => exact .inl (hsync _ rfl)
  | authLocked => exact .inr rfl
  | _ => exact .inl rfl

theorem rev_le_onEvent (h : Hub) (ev : BusEvent) : h.rev ≤ (h.onEvent ev).rev := by
  unfold Hub.onEvent
  split
  · split
    · exact le_refl _
    · show h.rev ≤ h.rev + 1
      omega
  all_goals first | exact le_refl _ | (show h.rev ≤ h.rev + 1; omega)

/-- As long as the engine lives, its revision is not behind the window's. -/
theorem revision_le_rev {s : Session} (h : sessions.ReachableIf SameEngine s) :
    s.rt.revision ≤ s.hub.rev ∧ 0 ≤ s.hub.rev := by
  refine System.ReachableIf.invariant
    (P := fun s : Session => s.rt.revision ≤ s.hub.rev ∧ 0 ≤ s.hub.rev) ?_ ?_ h
  · rintro s rfl
    exact ⟨le_refl _, le_refl _⟩
  · rintro s a s' ⟨hle, hpos⟩ hok hs
    cases a with
    | event ev =>
      obtain rfl := Option.some.inj hs
      have hgrow := rev_le_onEvent s.hub ev
      have hkeep := onEvent_revision s.rt ev
      constructor
      · show (s.rt.onEvent ev).revision ≤ (s.hub.onEvent ev).rev
        omega
      · show 0 ≤ (s.hub.onEvent ev).rev
        omega
    | snapshot rt =>
      simp only [sessions, Session.step] at hs
      split at hs
      · rename_i hrev
        obtain rfl := Option.some.inj hs
        refine ⟨?_, hpos⟩
        show (s.rt.adopt rt).revision ≤ s.hub.rev
        rw [(adopt_iff s.rt rt).mpr (.inl (by omega)), hrev]
      · cases hs
    | restart => exact absurd hok id

theorem applySnapshot_iff {rt snapshot : Runtime} {locked : Bool}
    (hlocked : locked = true → snapshot = {}) :
    rt.applySnapshot locked snapshot = snapshot ↔
      locked = true ∨ rt.revision ≤ snapshot.revision ∨ rt = snapshot := by
  cases locked with
  | true => simp [Runtime.applySnapshot, hlocked]
  | false => simp [Runtime.applySnapshot, adopt_iff]

/-- The window's run state and the hub's: when they agree on a sequence of
    events, whose progress is shown, and when a snapshot is taken over. -/
theorem window_runtime_iff (evs : List BusEvent) (keys : Set String) (ids : Set (String × String))
    (rt snapshot : Runtime) (locked : Bool) (s : Session) :
    ((∀ ev ∈ evs, isRun ev = true) →
      ((∀ pre, pre <+: evs → Agrees (foldWindow pre) (foldHub pre)) ↔
        ∀ pre ev, pre ++ [ev] <+: evs → Fits (foldHub pre) ev)) ∧
    ((∀ evs, (∀ ev ∈ evs, isRun ev = true ∧ ∀ k, keyOf ev = some k → k ∈ keys) →
        ∀ f o, (f, o) ∈ ids → ∀ p, (foldWindow evs).syncFor f o = some p →
          p.profileId = busyKey f o) ↔
      ∀ f o, (f, o) ∈ ids → f ≠ "" → ∀ k ∈ keys, flowPart k = f →
        Text.endsWith o.toList k.toList = true → k = busyKey f o) ∧
    (rt.adopt snapshot = snapshot ↔ rt.revision ≤ snapshot.revision ∨ rt = snapshot) ∧
    ((locked = true → snapshot = {}) →
      (rt.applySnapshot locked snapshot = snapshot ↔
        locked = true ∨ rt.revision ≤ snapshot.revision ∨ rt = snapshot)) ∧
    (sessions.ReachableIf SameEngine s → snapshot.revision = s.hub.rev →
      s.rt.adopt snapshot = snapshot) := by
  refine ⟨agrees_throughout evs, attributed_iff keys ids, adopt_iff rt snapshot,
    applySnapshot_iff, fun hs hrev => ?_⟩
  refine (adopt_iff s.rt snapshot).mpr (.inl ?_)
  rw [hrev]
  exact (revision_le_rev hs).1

/-- A flow that runs: the events fit, and the first snapshot is taken over. -/
theorem window_runtime_running :
    (∀ pre, pre <+: [BusEvent.flowExecution ⟨"f", "", "running", ""⟩] →
      Agrees (foldWindow pre) (foldHub pre)) ∧
    Runtime.applySnapshot ⟨0, []⟩ false ⟨1, []⟩ = ⟨1, []⟩ ∧
    Runtime.adopt (Session.rt {}) ⟨0, []⟩ = ⟨0, []⟩ := by
  refine ⟨((window_runtime_iff _ ∅ ∅ {} {} false {}).1 ?_).mpr ?_, ?_, ?_⟩
  · intro ev hev
    rw [List.mem_singleton.mp hev]
    rfl
  · intro pre ev hpre
    obtain rfl : pre = [] := by
      have hlen := hpre.length_le
      simp only [List.length_append, List.length_singleton] at hlen
      exact List.length_eq_zero_iff.mp (by omega)
    obtain rfl : ev = .flowExecution ⟨"f", "", "running", ""⟩ := by simpa using hpre
    intro _
    exact ⟨fun _ => .inl (by decide), fun h => absurd rfl h, fun h => absurd rfl h⟩
  · exact ((window_runtime_iff [] ∅ ∅ _ _ false {}).2.2.2.1 (by decide)).mpr
      (.inr (.inl (by decide)))
  · exact (window_runtime_iff [] ∅ ∅ {} ⟨0, []⟩ false {}).2.2.2.2 (.init rfl) rfl

/-- A sync that starts, an operation whose id is the end of another's, and a
    snapshot of a new engine. -/
theorem window_runtime_differs :
    ¬ Agrees (foldWindow [.syncStarted ⟨"t", "f:o", "push"⟩])
      (foldHub [.syncStarted ⟨"t", "f:o", "push"⟩]) ∧
    (((foldWindow [.syncStarted ⟨"t", "f:ab", "push"⟩]).syncFor "f" "b").any
      fun p => p.profileId ≠ busyKey "f" "b") = true ∧
    ((sessions.runFrom {} [.event (.flowExecution ⟨"f", "", "running", ""⟩), .snapshot ⟨1, []⟩,
      .restart]).any fun s => s.hub.rev = 0 && s.rt.adopt ⟨0, []⟩ ≠ ⟨0, []⟩) = true := by
  refine ⟨fun hagree => ?_, by decide +kernel, by decide +kernel⟩
  have hop := hagree.op "f" "o"
  revert hop
  decide +kernel

end GnDrive.Gpui.Window
