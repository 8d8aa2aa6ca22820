/-
  GnDrive.Gpui.OperationIds

  The ids of the operations that are drawn in the window.

  A new operation is named after the clock: `O` and the last six digits of the milliseconds.  The
  store takes an id once, in whatever flow, and the window tells operations apart by their ids.
  If no connection is drawn at a time whose six digits an operation has that is still in the
  draft or in the store, all ids stay apart (`operation_ids_fresh`); connections drawn a multiple
  of 1000 seconds apart have one id.
-/

import GnDrive.Flows.Order
import GnDrive.Gpui.Connections

namespace GnDrive.Gpui

open Keyed (lastBy lastBy_of_nodup)
open Rclone (F64)

-- ============================================================================
-- The window and the store
-- ============================================================================

/-- The operation in a request. -/
def Operation.sent (op : Operation) : Flows.FlowOperation :=
  ⟨op.id, op.flowId, op.sourceRemote, op.sourcePath, op.targetRemote, op.targetPath, op.action,
    op.syncConfig, op.isExpanded, op.sortOrder⟩

/-- The operation in a reply. -/
def Operation.received (op : Flows.FlowOperation) : Operation :=
  ⟨op.id, op.flowId, op.sourceRemote, op.sourcePath, op.targetRemote, op.targetPath, op.action,
    op.syncConfig, op.isExpanded, op.sortOrder⟩

/-- The window with its store.  For the statements, `old` remembers the ids that were stored at
    the start, and `times` when connections were drawn. -/
structure Desk (D S : Type) where
  db : Flows.Db
  window : Inspector D S
  selectedFlow : Option Text
  old : List Text
  times : List Nat

inductive DeskAct (D S : Type) where
  | adoptFlow (order : IterationOrder S) (id : Text)
  | connectNodes (order : IterationOrder S) (running : Bool) (now : Nat) (source target : Text)
  /-- An edit that is no connection. -/
  | edit (a : CanvasEdit D S)
  | options (a : InspectorEdit S)
  /-- `row` has what else there is of the flow. -/
  | saveFlow (time : Text) (row : Flows.FlowRow)
  | createFlow (time : Text) (row : Flows.FlowRow)
  | deleteFlow (id : Text)

namespace Desk

section

variable {D S : Type} [CanvasJson D S] (J : Flows.JsonText) (F : Type) [F64Input F]

/-- The flow is read from the store and shown. -/
def adoptFlow (order : IterationOrder S) (id : Text) (d : Desk D S) : Desk D S :=
  match Flows.getFlow J d.db id with
  | none => d
  | some flow =>
      let draft : Flow := ⟨flow.operations.map Operation.received, flow.canvasJson⟩
      { d with
        selectedFlow := some id
        window := { d.window with
          draft := some draft
          graph := some (toGraph order draft) } }

omit [CanvasJson D S] in
/-- The flow that a save sends. -/
def sentFlow (row : Flows.FlowRow) (d : Desk D S) : Option Flows.Flow :=
  match d.selectedFlow, d.window.draft with
  | some id, some draft =>
      some { row with
        id
        canvasJson := draft.canvasJson
        operations := draft.operations.map Operation.sent }
  | _, _ => none

def step (d : Desk D S) : DeskAct D S → Option (Desk D S)
  | .adoptFlow order id => some (d.adoptFlow J order id)
  | .connectNodes order running now source target =>
      some { d with
        window := d.window.connectNodes order running d.selectedFlow now source target
        times := now :: d.times }
  | .edit a => if a.newIds = [] then some { d with window := d.window.edit a } else none
  | .options a => some { d with window := d.window.step F a }
  | .saveFlow time row =>
      (d.sentFlow row).map fun flow =>
        match Flows.saveFlow J time flow d.db with
        | .ok db => { d with db }
        | .error _ => d
  | .createFlow time row =>
      if d.db.flows.any (·.id = row.id) then none
      else
        match Flows.saveFlow J time { row with operations := [] } d.db with
        | .ok db => some { d with db }
        | .error _ => some d
  | .deleteFlow id =>
      match Flows.deleteFlow id d.db with
      | .error _ => some d
      | .ok db =>
          if d.selectedFlow = some id then
            some { d with
              db
              selectedFlow := none
              window := { d.window with draft := none, graph := none } }
          else some { d with db }

/-- The window is opened on a store.  The id is the primary key of the operations. -/
def system : System (Desk D S) (DeskAct D S) where
  init d := (d.db.operations.map (·.id)).Nodup ∧ d.old = d.db.operations.map (·.id) ∧
    d.times = [] ∧ d.window.draft = none ∧ d.window.graph = none
  step d a := d.step J F a

end

variable {D S : Type}

/-- The ids in the draft. -/
def drafted (d : Desk D S) : List Text :=
  (d.window.draft.map fun draft => draft.operations.map Operation.id).getD []

/-- The ids in the draft and in the store. -/
def ids (d : Desk D S) : List Text := d.drafted ++ d.db.operations.map (·.id)

/-- What is there was not drawn at a time with the same six digits, and is not named after them
    from the start. -/
def Spaced (d : Desk D S) (now : Nat) : Prop :=
  ∀ id ∈ d.ids, (∀ t ∈ d.times, id = operationId t → t % 1000000 ≠ now % 1000000) ∧
    (id ∈ d.old → id ≠ operationId now)

/-- The connection passes the checks. -/
def Draws (d : Desk D S) (running : Bool) (source target : Text) : Prop :=
  running = false ∧ d.selectedFlow.isSome = true ∧
    ∃ graph, d.window.graph = some graph ∧ connectError source target PUSH graph = none

/-- Connections are drawn at spaced times. -/
def WellTimed (d : Desk D S) : DeskAct D S → Prop
  | .connectNodes _ running now source target => d.Draws running source target → d.Spaced now
  | _ => True

/-- No two operations are taken for one, neither in the window nor in the store. -/
structure Unmerged (J : Flows.JsonText) (d : Desk D S) : Prop where
  drafted : d.drafted.Nodup
  found : ∀ graph draft, d.window.graph = some graph → d.window.draft = some draft →
    ∀ e ∈ graph.edges, lastBy Operation.id draft.operations e.id = some e.operation
  saved : ∀ time row flow, d.sentFlow row = some flow →
    Flows.saveFlow J time flow d.db ≠ .error (.db "UNIQUE constraint failed: operations.id".toList)

end Desk

-- ============================================================================
-- Ids and times
-- ============================================================================

theorem operationId_inj {t t' : Nat} :
    operationId t = operationId t' ↔ t % 1000000 = t' % 1000000 := by
  constructor
  · intro h
    have hdigits : Nat.toDigits 10 (t % 1000000) = Nat.toDigits 10 (t' % 1000000) :=
      (List.cons.inj h).2
    have hread := congrArg (Nat.ofDigitChars 10 · 0) hdigits
    simpa only [Nat.ofDigitChars_ten_toDigits] using hread
  · intro h
    unfold operationId
    rw [h]

/-- Where every id is from the start or from the clock, the times tell which one is new. -/
theorem Desk.spaced_iff {D S : Type} {d : Desk D S}
    (hnamed : ∀ id ∈ d.ids, id ∈ d.old ∨ ∃ t ∈ d.times, id = operationId t) (now : Nat) :
    d.Spaced now ↔ operationId now ∉ d.ids := by
  constructor
  · intro hspaced hmem
    obtain ⟨hlate, hold⟩ := hspaced _ hmem
    rcases hnamed _ hmem with h | ⟨t, ht, heq⟩
    · exact hold h rfl
    · exact hlate t ht heq (operationId_inj.mp heq).symm
  · intro hfresh id hid
    refine ⟨fun t _ heq hsame => hfresh ?_, fun _ heq => hfresh (heq ▸ hid)⟩
    rw [← operationId_inj.mpr hsame, ← heq]
    exact hid

-- ============================================================================
-- The primary key
-- ============================================================================

section

variable {J : Flows.JsonText} {time : Text} {f : Flows.Flow} {db : Flows.Db}

theorem insertOperations_unique {flowId : Text} {ops : List Flows.FlowOperation} {n : Nat}
    {rows : List Flows.OperationRow} (hnodup : (ops.map (·.id)).Nodup)
    (hfresh : ∀ op ∈ ops, ∀ r ∈ rows, r.id ≠ op.id) (m : Text) :
    Flows.insertOperations J flowId n ops rows ≠ .error (.db m) := by
  induction ops generalizing n rows with
  | nil =>
    intro heq
    cases heq
  | cons src rest ih =>
    unfold Flows.insertOperations
    by_cases hid : src.id = []
    · rw [if_pos hid]
      intro heq
      cases heq
    · rw [if_neg hid]
      show (if rows.any (·.id = src.id) then _ else Flows.insertOperations J flowId (n + 1) rest
        (rows ++ [Flows.operationRow J flowId n src])) ≠ _
      obtain ⟨hsrc, hrest⟩ := List.nodup_cons.mp hnodup
      have hunused : ¬rows.any (·.id = src.id) = true := by
        intro hany
        obtain ⟨r, hr, heq⟩ := List.any_eq_true.mp hany
        exact hfresh src List.mem_cons_self r hr (of_decide_eq_true heq)
      rw [if_neg hunused]
      refine ih hrest fun op hop r hr => ?_
      rcases List.mem_append.mp hr with hr | hr
      · exact hfresh op (List.mem_cons_of_mem _ hop) r hr
      · rw [List.mem_singleton.mp hr]
        exact fun heq => hsrc (List.mem_map.mpr ⟨op, hop, heq.symm⟩)

/-- Ids that differ from each other and from those of the other flows are all taken. -/
theorem saveFlow_unique (hnodup : (f.operations.map (·.id)).Nodup)
    (hfresh : ∀ op ∈ f.operations, ∀ r ∈ db.operations, r.flowId ≠ f.id → r.id ≠ op.id)
    (m : Text) : Flows.saveFlow J time f db ≠ .error (.db m) := by
  unfold Flows.saveFlow
  by_cases hid : f.id = []
  · rw [if_pos hid]
    exact nofun
  · rw [if_neg hid]
    show (Flows.insertOperations J f.id 0 f.operations (db.operations.filter (·.flowId ≠ f.id)) >>=
      fun rows => .ok (Flows.Db.mk (Flows.upsertFlow time f.toFlowRow db.flows) rows)) ≠ _
    have hinsert : Flows.insertOperations J f.id 0 f.operations
        (db.operations.filter (·.flowId ≠ f.id)) ≠ .error (.db m) := by
      refine insertOperations_unique hnodup (fun op hop r hr => ?_) m
      obtain ⟨hr, hother⟩ := List.mem_filter.mp hr
      exact hfresh op hop r hr (of_decide_eq_true hother)
    cases hrows : Flows.insertOperations J f.id 0 f.operations
        (db.operations.filter (·.flowId ≠ f.id)) with
    | error e =>
      rw [hrows] at hinsert
      intro h
      exact hinsert (congrArg Except.error (Except.error.inj h))
    | ok rows => exact nofun

end

-- ============================================================================
-- What the window shows
-- ============================================================================

namespace Inspector

section

variable {D S : Type} [CanvasJson D S] {F : Type} [F64Input F] {order : IterationOrder S}
  {w w' : Inspector D S} {graph : FlowGraph D S} {draft : Flow}

/-- The window shows a graph of edges that are operations of its draft. -/
structure Displays (w : Inspector D S) (graph : FlowGraph D S) (draft : Flow) : Prop where
  hasGraph : w.graph = some graph
  hasDraft : w.draft = some draft
  nodes : (graph.nodes.map GraphNode.id).Nodup
  ids : (graph.edges.map GraphEdge.id).Sublist (draft.operations.map Operation.id)
  own : ∀ e ∈ graph.edges, e.operation ∈ draft.operations ∧ e.operation.id = e.id

theorem toEdge_operation {all : List (GraphNode S)} {op : Operation} {e : GraphEdge}
    (h : toEdge all op = some e) : e.operation = op ∧ e.id = op.id := by
  unfold toEdge at h
  split at h
  · rw [← Option.some.inj h]
    exact ⟨rfl, rfl⟩
  · cases h

theorem displays_toGraph (hgraph : w.graph = some (toGraph order draft))
    (hdraft : w.draft = some draft) : w.Displays (toGraph order draft) draft := by
  refine ⟨hgraph, hdraft, kept_ids draft order, edges_sublist _ _, ?_⟩
  intro e he
  obtain ⟨op, hop, hedge⟩ := List.mem_filterMap.mp he
  obtain ⟨rfl, hid⟩ := toEdge_operation hedge
  exact ⟨hop, hid.symm⟩

omit [CanvasJson D S] in
/-- The edges find their operations when no two have one id. -/
theorem Displays.found (h : w.Displays graph draft)
    (hnodup : (draft.operations.map Operation.id).Nodup) {e : GraphEdge} (he : e ∈ graph.edges) :
    lastBy Operation.id draft.operations e.id = some e.operation := by
  obtain ⟨hop, hid⟩ := h.own e he
  rw [← hid]
  exact lastBy_of_nodup hnodup hop

/-- Operations that are made of a graph have ids of its edges. -/
theorem fromGraph_ids (graph : FlowGraph D S) (previous : List Operation) :
    ((fromGraph graph previous).1.map Operation.id).Sublist (graph.edges.map GraphEdge.id) := by
  unfold fromGraph
  dsimp only
  rw [map_mapIdx_const fun i (b : GraphEdge × GraphNode S × GraphNode S) =>
    (rfl : (redrawn previous b.1 b.2.1 b.2.2 i).id = b.1.id)]
  induction graph.edges with
  | nil => exact .slnil
  | cons e es ih =>
    cases hends : endpoints graph.nodes e with
    | none =>
      rw [List.filterMap_cons_none hends]
      exact ih.cons _
    | some b =>
      have hb : b.1 = e := by
        unfold endpoints at hends
        split at hends
        · rw [← Option.some.inj hends]
        · cases hends
      rw [List.filterMap_cons_some hends, List.map_cons, hb]
      exact ih.cons_cons _

theorem Rebuilt.displays {graph' : FlowGraph D S} {previous : List Operation} {new : List Text}
    (hr : Rebuilt order graph' previous w')
    (hids : (graph'.edges.map GraphEdge.id).Sublist (draft.operations.map Operation.id ++ new)) :
    ∃ graph'' draft', w'.Displays graph'' draft' ∧
      (draft'.operations.map Operation.id).Sublist (draft.operations.map Operation.id ++ new) :=
  ⟨_, _, displays_toGraph hr.graph hr.draft, (fromGraph_ids graph' previous).trans hids⟩

/-- After an edit the draft has no ids but its own and those that the edit brings. -/
theorem displays_edit (h : w.Displays graph draft) (a : CanvasEdit D S) :
    ∃ graph' draft', (w.edit a).Displays graph' draft' ∧
      (draft'.operations.map Operation.id).Sublist
        (draft.operations.map Operation.id ++ a.newIds) := by
  rcases edit_cases h.hasGraph h.hasDraft h.nodes a with
    hsame | ⟨order, graph', previous, hr, hids⟩ | ⟨node, canvas, hfresh, hgraph, hdraft⟩
  · rw [hsame]
    exact ⟨graph, draft, h, List.sublist_append_left ..⟩
  · exact hr.displays (hids.trans (h.ids.append_right _))
  · refine ⟨_, _, ⟨hgraph, hdraft, ?_, h.ids, h.own⟩, List.sublist_append_left ..⟩
    show ((graph.nodes ++ [node]).map GraphNode.id).Nodup
    rw [List.map_append, List.map_singleton]
    exact List.nodup_append.mpr ⟨h.nodes, List.nodup_singleton _, fun i hi j hj heq =>
      hfresh (List.mem_singleton.mp hj ▸ heq ▸ hi)⟩

theorem displays_applySyncConfig (h : w.Displays graph draft) (order : IterationOrder S)
    (edgeId : Text) (c : SyncConfig) :
    ∃ graph' draft', (w.applySyncConfig order edgeId c).Displays graph' draft' ∧
      (draft'.operations.map Operation.id).Sublist (draft.operations.map Operation.id) := by
  unfold applySyncConfig
  dsimp only
  rw [h.hasGraph]
  dsimp only
  by_cases hany : graph.edges.any (·.id = edgeId) = true
  · rw [if_pos hany]
    obtain ⟨e, he, hid⟩ := List.any_eq_true.mp hany
    obtain ⟨l₁, e, l₂, hes, hid, hfirst⟩ := exists_split ⟨e, he, of_decide_eq_true hid⟩
    have hr := @rebuilt_sync D S _ order { w with
      syncConfig := some c
      graph := some { graph with
        edges := graph.edges.modify (graph.edges.findIdx (·.id = edgeId))
          (GraphEdge.setOptions c) } } _ _ rfl h.hasDraft
    have hids : (graph.edges.modify (graph.edges.findIdx (·.id = edgeId))
        (GraphEdge.setOptions c)).map GraphEdge.id = graph.edges.map GraphEdge.id := by
      rw [modify_split hes hid hfirst, hes]
      simp [GraphEdge.setOptions]
    have hdisplays := @Rebuilt.displays D S _ order _ draft _ _ [] hr (by
      rw [List.append_nil]
      show ((graph.edges.modify _ _).map GraphEdge.id).Sublist _
      rw [hids]
      exact h.ids)
    rw [List.append_nil] at hdisplays
    exact hdisplays
  · rw [if_neg hany]
    exact ⟨graph, draft, ⟨rfl, h.hasDraft, h.nodes, h.ids, h.own⟩, List.Sublist.refl _⟩

theorem displays_step (h : w.Displays graph draft) (a : InspectorEdit S) :
    ∃ graph' draft', (w.step F a).Displays graph' draft' ∧
      (draft'.operations.map Operation.id).Sublist (draft.operations.map Operation.id) := by
  rcases step_target F w a with ⟨-, hview⟩ | ⟨order, id, c, -, hview⟩
  · exact ⟨graph, draft, ⟨hview.2.trans h.hasGraph, hview.1.trans h.hasDraft, h.nodes, h.ids,
      h.own⟩, List.Sublist.refl _⟩
  · obtain ⟨graph', draft', h', hids⟩ := displays_applySyncConfig h order id c
    exact ⟨graph', draft', ⟨hview.2.trans h'.hasGraph, hview.1.trans h'.hasDraft, h'.nodes, h'.ids,
      h'.own⟩, hids⟩

/-- Nothing is open. -/
def Closed (w : Inspector D S) : Prop := w.draft = none ∧ w.graph = none

theorem closed_edit (h : w.Closed) (a : CanvasEdit D S) : (w.edit a).Closed := by
  obtain ⟨draft, graph, config, edge, inputs⟩ := w
  obtain ⟨rfl, rfl⟩ := h
  cases a with
  | connect order running flowId now source target => cases running <;> exact ⟨rfl, rfl⟩
  | rename order running nodeId path remote =>
    unfold edit setNodePath
    dsimp only
    split <;> exact ⟨rfl, rfl⟩
  | setAction order running edgeId action => cases running <;> exact ⟨rfl, rfl⟩
  | addNode home x y viewport rounds running => cases running <;> exact ⟨rfl, rfl⟩
  | deleteNode order running id => cases running <;> exact ⟨rfl, rfl⟩
  | deleteEdge order running id => cases running <;> exact ⟨rfl, rfl⟩

theorem closed_step (h : w.Closed) (a : InspectorEdit S) : (w.step F a).Closed := by
  have hview : w.SameView (w.step F a) := by
    rcases step_target F w a with ⟨-, hview⟩ | ⟨order, id, c, -, hview⟩
    · exact hview
    · have hsame : w.SameView (w.applySyncConfig order id c) := by
        unfold applySyncConfig
        dsimp only
        rw [h.2]
        exact ⟨rfl, h.2.symm ▸ rfl⟩
      exact ⟨hview.1.trans hsame.1, hview.2.trans hsame.2⟩
  exact ⟨hview.1.trans h.1, hview.2.trans h.2⟩

end

end Inspector

-- ============================================================================
-- Step by step
-- ============================================================================

namespace Desk

section

variable {D S : Type} [CanvasJson D S] {J : Flows.JsonText} {F : Type} [F64Input F]
  {d d' : Desk D S}

/-- All ids are apart, and it is known where they come from. -/
structure Coherent (d : Desk D S) : Prop where
  stored : (d.db.operations.map (·.id)).Nodup
  drafted : d.drafted.Nodup
  named : ∀ id ∈ d.ids, id ∈ d.old ∨ ∃ t ∈ d.times, id = operationId t
  /-- What is drafted is stored in no other flow. -/
  apart : ∀ id ∈ d.drafted, ∀ r ∈ d.db.operations, d.selectedFlow ≠ some r.flowId → r.id ≠ id
  window : d.window.Closed ∨ ∃ graph draft, d.window.Displays graph draft

omit [CanvasJson D S] in
theorem drafted_closed (h : d.window.Closed) : d.drafted = [] := by
  unfold drafted
  rw [h.1]
  rfl

omit [CanvasJson D S] in
theorem drafted_displays {graph : FlowGraph D S} {draft : Flow}
    (h : d.window.Displays graph draft) : d.drafted = draft.operations.map Operation.id := by
  unfold drafted
  rw [h.hasDraft]
  rfl

omit [CanvasJson D S] in
/-- What a save sends is the draft of the selected flow. -/
theorem sentFlow_some {row : Flows.FlowRow} {flow : Flows.Flow} (h : d.sentFlow row = some flow) :
    d.selectedFlow = some flow.id ∧ flow.operations.map (·.id) = d.drafted := by
  unfold sentFlow at h
  unfold drafted
  cases hselected : d.selectedFlow with
  | none =>
    rw [hselected] at h
    cases h
  | some id =>
    cases hdraft : d.window.draft with
    | none =>
      rw [hselected, hdraft] at h
      cases h
    | some draft =>
      rw [hselected, hdraft] at h
      obtain rfl := Option.some.inj h
      refine ⟨rfl, ?_⟩
      show (draft.operations.map Operation.sent).map (·.id) = _
      rw [List.map_map]
      rfl

omit [CanvasJson D S] in
/-- Another window on the store, whose draft has ids of the old one and ids that are new. -/
theorem Coherent.redraw (h : d.Coherent) {w : Inspector D S} {times : List Nat} {new : List Text}
    (hwindow : w.Closed ∨ ∃ graph draft, w.Displays graph draft)
    (hids : ({ d with window := w, times } : Desk D S).drafted.Sublist (d.drafted ++ new))
    (hnodup : new.Nodup) (hfresh : ∀ id ∈ new, id ∉ d.ids ∧ ∃ t ∈ times, id = operationId t)
    (htimes : d.times ⊆ times) : ({ d with window := w, times } : Desk D S).Coherent := by
  refine ⟨h.stored, ?_, ?_, ?_, hwindow⟩
  · refine hids.nodup (h.drafted.append hnodup fun id hid hnew => ?_)
    exact (hfresh id hnew).1 (List.mem_append_left _ hid)
  · intro id hid
    have hcases : id ∈ d.ids ∨ id ∈ new := by
      rcases List.mem_append.mp hid with hid | hid
      · exact (List.mem_append.mp (hids.subset hid)).imp_left (List.mem_append_left _)
      · exact .inl (List.mem_append_right _ hid)
    rcases hcases with hid | hid
    · exact (h.named id hid).imp_right fun ⟨t, ht, heq⟩ => ⟨t, htimes ht, heq⟩
    · exact .inr (hfresh id hid).2
  · intro id hid r hr hother heq
    rcases List.mem_append.mp (hids.subset hid) with hid | hid
    · exact h.apart id hid r hr hother heq
    · exact (hfresh id hid).1 (List.mem_append_right _ (heq ▸ List.mem_map_of_mem hr))

omit [CanvasJson D S] in
/-- The same without new ids. -/
theorem Coherent.narrow (h : d.Coherent) {w : Inspector D S} {times : List Nat}
    (hwindow : w.Closed ∨ ∃ graph draft, w.Displays graph draft)
    (hids : ({ d with window := w, times } : Desk D S).drafted.Sublist d.drafted)
    (htimes : d.times ⊆ times) : ({ d with window := w, times } : Desk D S).Coherent :=
  h.redraw hwindow (hids.trans (List.sublist_append_left _ [])) List.nodup_nil nofun htimes

omit [CanvasJson D S] in
/-- Another store under the window, without new ids, whose rows of other flows were there. -/
theorem Coherent.restore (h : d.Coherent) {db : Flows.Db}
    (hstored : (db.operations.map (·.id)).Nodup)
    (hids : ∀ id ∈ db.operations.map (·.id), id ∈ d.ids)
    (hothers : ∀ r ∈ db.operations, d.selectedFlow ≠ some r.flowId → r ∈ d.db.operations) :
    ({ d with db } : Desk D S).Coherent := by
  refine ⟨hstored, h.drafted, fun id hid => ?_, fun id hid r hr hother => ?_, h.window⟩
  · rcases List.mem_append.mp hid with hid | hid
    · exact h.named id (List.mem_append_left _ hid)
    · exact h.named id (hids id hid)
  · exact h.apart id hid r (hothers r hr hother) hother

theorem coherent_edit (h : d.Coherent) {a : CanvasEdit D S} {times : List Nat}
    (hfresh : ∀ id ∈ a.newIds, id ∉ d.ids ∧ ∃ t ∈ times, id = operationId t)
    (htimes : d.times ⊆ times) :
    ({ d with window := d.window.edit a, times } : Desk D S).Coherent := by
  have hnodup : a.newIds.Nodup := by
    cases a with
    | connect => exact List.nodup_singleton _
    | _ => exact List.nodup_nil
  rcases h.window with hclosed | ⟨graph, draft, hdisplays⟩
  · have hclosed' := Inspector.closed_edit hclosed a
    refine h.redraw (.inl hclosed') ?_ hnodup hfresh htimes
    rw [drafted_closed hclosed']
    exact List.nil_sublist _
  · obtain ⟨graph', draft', hdisplays', hids⟩ := Inspector.displays_edit hdisplays a
    refine h.redraw (.inr ⟨graph', draft', hdisplays'⟩) ?_ hnodup hfresh htimes
    rw [drafted_displays hdisplays, drafted_displays hdisplays']
    exact hids

theorem coherent_options (h : d.Coherent) (a : InspectorEdit S) :
    ({ d with window := d.window.step F a } : Desk D S).Coherent := by
  rcases h.window with hclosed | ⟨graph, draft, hdisplays⟩
  · have hclosed' := @Inspector.closed_step D S _ F _ _ hclosed a
    refine h.narrow (.inl hclosed') ?_ (List.Subset.refl _)
    rw [drafted_closed hclosed']
    exact List.nil_sublist _
  · obtain ⟨graph', draft', hdisplays', hids⟩ :=
      @Inspector.displays_step D S _ F _ _ _ _ hdisplays a
    refine h.narrow (.inr ⟨graph', draft', hdisplays'⟩) ?_ (List.Subset.refl _)
    rw [drafted_displays hdisplays, drafted_displays hdisplays']
    exact hids

/-- A connection that does not pass the checks changes nothing. -/
theorem connectNodes_refused (h : d.Coherent) {order : IterationOrder S} {running : Bool}
    {now : Nat} {source target : Text} (hrefused : ¬d.Draws running source target) :
    d.window.connectNodes order running d.selectedFlow now source target = d.window := by
  rcases h.window with ⟨hdraft, hgraph⟩ | ⟨graph, draft, hdisplays⟩
  · unfold Inspector.connectNodes
    rw [hgraph, ite_self]
  · have hspec := @Inspector.connectNodes_spec D S _ order running _ _ _ hdisplays.hasGraph
      hdisplays.hasDraft d.selectedFlow now source target
    rcases hspec with ⟨hsame, -⟩ | ⟨hrun, hcheck, flow, hflow, -⟩
    · exact hsame
    · refine absurd ⟨hrun, ?_, graph, hdisplays.hasGraph, hcheck⟩ hrefused
      rw [hflow]
      rfl

theorem coherent_connect (h : d.Coherent) {order : IterationOrder S} {running : Bool} {now : Nat}
    {source target : Text} (hspaced : d.Draws running source target → d.Spaced now) :
    ({ d with
      window := d.window.connectNodes order running d.selectedFlow now source target
      times := now :: d.times } : Desk D S).Coherent := by
  by_cases hdraws : d.Draws running source target
  · have hfresh := (spaced_iff h.named now).mp (hspaced hdraws)
    refine @coherent_edit D S _ d h
      (.connect order running d.selectedFlow now source target) _ (fun id hid => ?_)
      (List.subset_cons_self ..)
    rw [List.mem_singleton.mp hid]
    exact ⟨hfresh, now, List.mem_cons_self, rfl⟩
  · rw [connectNodes_refused h hdraws]
    exact h.narrow h.window (List.Sublist.refl _) (List.subset_cons_self ..)

theorem coherent_adopt (h : d.Coherent) (order : IterationOrder S) (id : Text) :
    (d.adoptFlow J order id).Coherent := by
  unfold adoptFlow
  cases hload : Flows.getFlow J d.db id with
  | none => exact h
  | some flow =>
    obtain ⟨rfl, hops⟩ := Flows.getFlow_some hload
    dsimp only
    have hdraft : (flow.operations.map Operation.received).map Operation.id =
        Flows.order J d.db flow.id := by
      rw [List.map_map, hops]
      rfl
    have hperm := @Flows.order_perm J d.db flow.id
    have hstored : ∀ i ∈ Flows.order J d.db flow.id,
        ∃ r ∈ d.db.operations, r.flowId = flow.id ∧ r.id = i := by
      intro i hi
      obtain ⟨r, hr, rfl⟩ := List.mem_map.mp (hperm.mem_iff.mp hi)
      obtain ⟨hr, hflow⟩ := List.mem_filter.mp hr
      exact ⟨r, hr, of_decide_eq_true hflow, rfl⟩
    have hdisplays := @Inspector.displays_toGraph D S _ order { d.window with
      draft := some ⟨flow.operations.map Operation.received, flow.canvasJson⟩
      graph := some (toGraph order
        ⟨flow.operations.map Operation.received, flow.canvasJson⟩) } _ rfl rfl
    refine ⟨h.stored, ?_, ?_, ?_, .inr ⟨_, _, hdisplays⟩⟩
    · show ((flow.operations.map Operation.received).map Operation.id).Nodup
      rw [hdraft, hperm.nodup_iff]
      exact (List.filter_sublist.map _).nodup h.stored
    · intro i hi
      refine h.named i ?_
      rcases List.mem_append.mp hi with hi | hi
      · obtain ⟨r, hr, -, rfl⟩ := hstored i (hdraft ▸ hi)
        exact List.mem_append_right _ (List.mem_map_of_mem hr)
      · exact List.mem_append_right _ hi
    · intro i hi r hr hother heq
      obtain ⟨r', hr', hflow, rfl⟩ := hstored i (hdraft ▸ hi)
      have hrow := List.inj_on_of_nodup_map h.stored hr hr' heq
      exact hother (congrArg some (hrow ▸ hflow.symm))

omit [CanvasJson D S] in
theorem coherent_save (h : d.Coherent) {time : Text} {row : Flows.FlowRow} {flow : Flows.Flow}
    {db : Flows.Db} (hsent : d.sentFlow row = some flow)
    (hsave : Flows.saveFlow J time flow d.db = .ok db) : ({ d with db } : Desk D S).Coherent := by
  obtain ⟨hselected, hdrafted⟩ := sentFlow_some hsent
  refine h.restore (Flows.nodup_saved hsave h.stored) (fun i hi => ?_) fun r hr hother => ?_
  · rw [Flows.map_id_saved hsave] at hi
    rcases List.mem_append.mp hi with hi | hi
    · exact List.mem_append_right _ ((List.filter_sublist.map _).subset hi)
    · exact List.mem_append_left _ (hdrafted ▸ hi)
  · obtain ⟨-, -, -, -, rfl⟩ := Flows.saveFlow_ok_iff.mp hsave
    rcases List.mem_append.mp hr with hr | hr
    · exact List.mem_of_mem_filter hr
    · obtain ⟨i, hi, rfl⟩ := List.mem_mapIdx.mp hr
      exact absurd hselected hother

theorem coherent_step (h : d.Coherent) {a : DeskAct D S} (hok : d.WellTimed a)
    (hs : d.step J F a = some d') : d'.Coherent := by
  cases a with
  | adoptFlow order id =>
    obtain rfl := Option.some.inj hs
    exact coherent_adopt h order id
  | connectNodes order running now source target =>
    obtain rfl := Option.some.inj hs
    exact coherent_connect h hok
  | edit a =>
    unfold step at hs
    dsimp only at hs
    by_cases hnew : a.newIds = []
    · rw [if_pos hnew] at hs
      obtain rfl := Option.some.inj hs
      refine coherent_edit h (fun id hid => ?_) (List.Subset.refl _)
      rw [hnew] at hid
      cases hid
    · rw [if_neg hnew] at hs
      cases hs
  | options a =>
    obtain rfl := Option.some.inj hs
    exact coherent_options h a
  | saveFlow time row =>
    obtain ⟨flow, hsent, rfl⟩ := Option.map_eq_some_iff.mp hs
    cases hsave : Flows.saveFlow J time flow d.db with
    | error e => exact h
    | ok db => exact coherent_save h hsent hsave
  | createFlow time row =>
    unfold step at hs
    dsimp only at hs
    split at hs
    · cases hs
    · cases hsave : Flows.saveFlow J time { row with operations := [] } d.db with
      | error e =>
        rw [hsave] at hs
        obtain rfl := Option.some.inj hs
        exact h
      | ok db =>
        rw [hsave] at hs
        obtain rfl := Option.some.inj hs
        refine h.restore (Flows.nodup_saved hsave h.stored) (fun i hi => ?_) fun r hr _ => ?_
        · rw [Flows.map_id_saved hsave, List.map_nil, List.append_nil] at hi
          exact List.mem_append_right _ ((List.filter_sublist.map _).subset hi)
        · obtain ⟨-, -, -, -, rfl⟩ := Flows.saveFlow_ok_iff.mp hsave
          rw [List.mapIdx_nil, List.append_nil] at hr
          exact List.mem_of_mem_filter hr
  | deleteFlow id =>
    unfold step at hs
    dsimp only at hs
    cases hdelete : Flows.deleteFlow id d.db with
    | error e =>
      rw [hdelete] at hs
      obtain rfl := Option.some.inj hs
      exact h
    | ok db =>
      have hsub : db.operations.Sublist d.db.operations := by
        unfold Flows.deleteFlow at hdelete
        split at hdelete
        · obtain rfl := Except.ok.inj hdelete
          exact List.filter_sublist
        · cases hdelete
      have hkept : ({ d with db } : Desk D S).Coherent :=
        h.restore ((hsub.map _).nodup h.stored)
          (fun i hi => List.mem_append_right _ ((hsub.map _).subset hi))
          fun r hr _ => hsub.subset hr
      rw [hdelete] at hs
      dsimp only at hs
      split at hs
      · obtain rfl := Option.some.inj hs
        refine ⟨hkept.stored, List.nodup_nil, fun i hi => ?_, nofun, .inl ⟨rfl, rfl⟩⟩
        exact hkept.named i (List.mem_append_right _ hi)
      · obtain rfl := Option.some.inj hs
        exact hkept

-- ============================================================================
-- Runs
-- ============================================================================

omit [CanvasJson D S] in
theorem Coherent.unmerged (h : d.Coherent) : d.Unmerged J := by
  refine ⟨h.drafted, ?_, ?_⟩
  · intro graph draft hgraph hdraft e he
    rcases h.window with hclosed | ⟨graph', draft', hdisplays⟩
    · rw [hclosed.2] at hgraph
      cases hgraph
    · obtain rfl := Option.some.inj (hdisplays.hasGraph.symm.trans hgraph)
      obtain rfl := Option.some.inj (hdisplays.hasDraft.symm.trans hdraft)
      exact hdisplays.found (drafted_displays hdisplays ▸ h.drafted) he
  · intro time row flow hsent
    obtain ⟨hselected, hdrafted⟩ := sentFlow_some hsent
    refine saveFlow_unique (hdrafted ▸ h.drafted) (fun op hop r hr hother => ?_) _
    refine h.apart op.id (hdrafted ▸ List.mem_map_of_mem hop) r hr ?_
    rw [hselected]
    exact fun heq => hother (Option.some.inj heq).symm

/-- In every run whose connections are drawn at spaced times no two operations are taken for one;
    and the id of the next one is new when its time is spaced, and only then. -/
theorem operation_ids_fresh (h : (system J F).ReachableIf WellTimed d) :
    d.Unmerged J ∧ ∀ now, d.Spaced now ↔ operationId now ∉ d.ids := by
  have hcoherent : d.Coherent := by
    refine System.ReachableIf.invariant (P := Coherent) ?_ ?_ h
    · rintro d ⟨hnodup, hold, -, hclosed⟩
      refine ⟨hnodup, ?_, fun id hid => .inl ?_, fun id hid => ?_, .inl hclosed⟩
      · rw [drafted_closed hclosed]
        exact List.nodup_nil
      · rw [ids, drafted_closed hclosed, List.nil_append, ← hold] at hid
        exact hid
      · rw [drafted_closed hclosed] at hid
        cases hid
    · intro d a d' hcoherent hok hs
      exact coherent_step hcoherent hok hs
  exact ⟨hcoherent.unmerged, spaced_iff hcoherent.named⟩

end

-- ============================================================================
-- One push
-- ============================================================================

/-- A window on a store with one push, whose id is that of the first millisecond. -/
def unopened : Desk Nat Nat where
  db := {
    flows := [⟨"F1".toList, "Flow".toList, false, false, [], 0, [], [], []⟩]
    operations := [⟨"O1".toList, "F1".toList, [], "/".toList, "gdrive".toList, "/b".toList,
      "push".toList, [], false, 0⟩] }
  window := ⟨none, none, none, none, fun _ => none⟩
  selectedFlow := none
  old := ["O1".toList]
  times := []

def opened : Desk Nat Nat := unopened.adoptFlow Flows.Sample.json Inspector.asIs "F1".toList

/-- The push is connected the other way round as well. -/
def backwards (now : Nat) : DeskAct Nat Nat :=
  .connectNodes Inspector.asIs false now (stableNodeId (locationKey "gdrive".toList "/b".toList))
    (stableNodeId (locationKey [] "/".toList))

def drawnAt (now : Nat) : Desk Nat Nat :=
  { opened with
    window := opened.window.connectNodes Inspector.asIs false opened.selectedFlow now
      (stableNodeId (locationKey "gdrive".toList "/b".toList))
      (stableNodeId (locationKey [] "/".toList))
    times := now :: opened.times }

theorem drawnAt_reachable {ok : Desk Nat Nat → DeskAct Nat Nat → Prop} {now : Nat}
    (hopen : ok unopened (.adoptFlow Inspector.asIs "F1".toList))
    (hdraw : ok opened (backwards now)) :
    (system Flows.Sample.json Nat).ReachableIf ok (drawnAt now) := by
  have hinit : (system Flows.Sample.json Nat).init unopened :=
    ⟨List.nodup_singleton _, rfl, rfl, rfl, rfl⟩
  have hopened : (system Flows.Sample.json Nat).ReachableIf ok opened :=
    .step (.init hinit) hopen rfl
  exact .step hopened hdraw rfl

theorem opened_ids : opened.ids = ["O1".toList, "O1".toList] := by decide +kernel

/-- Five milliseconds into the count. -/
theorem drawn_at_five : (drawnAt 5).Unmerged Flows.Sample.json ∧
    ∀ now, (drawnAt 5).Spaced now ↔ operationId now ∉ (drawnAt 5).ids := by
  refine operation_ids_fresh (drawnAt_reachable trivial fun _ id hid => ?_)
  rw [opened_ids] at hid
  have hone : id = "O1".toList := by simpa using hid
  rw [hone]
  exact ⟨nofun, fun _ => by decide +kernel⟩

/-- A thousand seconds after the push was drawn. -/
theorem drawn_after_1000_seconds :
    ¬∀ d : Desk Nat Nat, (system Flows.Sample.json Nat).Reachable d →
      d.Unmerged Flows.Sample.json := by
  intro h
  have htwice : (drawnAt 1000001).drafted = ["O1".toList, "O1".toList] := by decide +kernel
  have hnodup := (h (drawnAt 1000001) (drawnAt_reachable trivial trivial)).drafted
  rw [htwice] at hnodup
  exact absurd hnodup (by decide)

end Desk

end GnDrive.Gpui
