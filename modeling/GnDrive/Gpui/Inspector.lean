/-
  GnDrive.Gpui.Inspector

  The options that the inspector edits, and the flow that is saved (`main.rs` of
  the window).

  An edit of options goes into the graph's copy of the operation; the working copy
  is rebuilt from the graph, and the graph from the working copy.  `from_graph`
  takes the operation of an edge from the working copy when it is there, so of the
  edit only the action arrives.

  The text fields of the inspector are read whenever an option is set and before a
  save.
-/

import GnDrive.Gpui.CanvasText
import GnDrive.Gpui.GraphRoundTrip
import GnDrive.Gpui.OptionReads
import GnDrive.Lib.System

namespace GnDrive.Gpui

open Keyed (lastBy lastBy_of_nodup)
open Rclone (F64)
open Rpc (Json JsonDict)
open Text (trim)

/-- `allowed` is what `number_error` lets pass: `x.is_finite() && x >= 0.0`. -/
class F64Input (F : Type) extends F64Json F where
  allowed : F → Bool

-- ============================================================================
-- The text fields
-- ============================================================================

section

variable (F : Type) [F64Input F]

/-- A field's text is read; a number that is not allowed changes nothing. -/
def FieldDef.collect (d : FieldDef) (c : SyncConfig) (text : Text) : SyncConfig :=
  match d.kind with
  | .int =>
      if trim text = [] then c.setInt d.key none
      else
        match Rpc.parseI64 (trim text) with
        | some n => if 0 ≤ n then c.setInt d.key (some n) else c
        | none => c
  | .double =>
      if trim text = [] then c.setDouble (F := F) d.key none
      else
        match F64.parse (trim text) with
        | some (x : F) => if F64Input.allowed x then c.setDouble d.key (some x) else c
        | none => c
  | .text | .select => c.setText d.key text
  | .list => c.setList d.key (((text.splitOn '\n').map trim).filter (· ≠ []))
  | .bool => c

/-- `inputs` are the text fields, by the key of the option. -/
def collectSyncValues (inputs : Text → Option Text) (c : SyncConfig) : SyncConfig :=
  FIELDS.foldl (fun c d => ((inputs d.key).map (d.collect F c)).getD c) c

end

-- ============================================================================
-- The working copy
-- ============================================================================

/-- What the window holds of the open flow. -/
structure Inspector (D S : Type) where
  draft : Option Flow
  graph : Option (FlowGraph D S)
  syncConfig : Option SyncConfig
  syncEdge : Option Text
  inputs : Text → Option Text

/-- The edge's copy of the options. -/
def GraphEdge.setOptions (c : SyncConfig) (e : GraphEdge) : GraphEdge :=
  { e with
    action := c.action
    operation := { e.operation with syncConfig := c.toJson, action := c.action } }

namespace Inspector

variable {D S : Type} [CanvasJson D S]

/-- `order` is the order in which the map of nodes is gone through this time. -/
def syncGraphToDraft (order : IterationOrder S) (w : Inspector D S) : Inspector D S :=
  match w.graph, w.draft with
  | none, _ => w
  | some _, none => { w with graph := none }
  | some graph, some draft =>
      let rebuilt := fromGraph graph draft.operations
      let draft : Flow := ⟨rebuilt.1, rebuilt.2⟩
      { w with draft := some draft, graph := some (toGraph order draft) }

def applySyncConfig (order : IterationOrder S) (w : Inspector D S) (edgeId : Text)
    (c : SyncConfig) : Inspector D S :=
  let w := { w with syncConfig := some c }
  match w.graph with
  | none => w
  | some graph =>
      if graph.edges.any (·.id = edgeId) then
        syncGraphToDraft order { w with
          graph := some { graph with
            edges := graph.edges.modify (graph.edges.findIdx (·.id = edgeId))
              (GraphEdge.setOptions c) } }
      else w

section

variable (F : Type) [F64Input F] (order : IterationOrder S) (w : Inspector D S)

def applyCurrentSyncWith (c : SyncConfig) : Inspector D S :=
  match w.syncEdge with
  | none => w
  | some edgeId => w.applySyncConfig order edgeId (collectSyncValues F w.inputs c)

def setSyncFlag (running : Bool) (key : Text) (value : Bool) : Inspector D S :=
  match running, w.syncConfig with
  | false, some c => w.applyCurrentSyncWith F order (c.setFlag key value)
  | _, _ => w

/-- The choice is put into the field as well. -/
def setSyncChoice (running : Bool) (key value : Text) : Inspector D S :=
  match running, w.syncConfig with
  | false, some c =>
      { w with
        inputs := fun k => if k = key then (w.inputs k).map fun _ => value else w.inputs k
      }.applyCurrentSyncWith F order (c.setText key value)
  | _, _ => w

/-- `collect_editors` at an edge whose endpoints are as they were. -/
def collectEditors (edgeId : Text) : Inspector D S :=
  match w.syncConfig with
  | none => w
  | some c => w.applySyncConfig order edgeId (collectSyncValues F w.inputs c)

end

end Inspector

-- ============================================================================
-- What an edit is for
-- ============================================================================

namespace Operation

/-- The operation with other options. -/
def edited (id : Text) (c : SyncConfig) (op : Operation) : Operation :=
  if op.id = id then { op with syncConfig := c.toJson, action := c.action } else op

/-- The same operation, its options being the same map. -/
def Alike (op op' : Operation) : Prop :=
  op' = { op with syncConfig := op'.syncConfig } ∧
    ∀ k, op'.syncConfig.get k = op.syncConfig.get k

end Operation

/-- The edit of the operations that the inspector shows. -/
def edited (id : Text) (c : SyncConfig) (ops : List Operation) : List Operation :=
  ops.map (Operation.edited id c)

section

variable {D S : Type} [CanvasJson D S]

/-- The window shows the flow. -/
def Inspector.Shows (w : Inspector D S) (flow : Flow) : Prop :=
  w.draft = some flow ∧ ∃ order, w.graph = some (toGraph order flow)

/-- The flow that would be saved has these operations. -/
def Inspector.Sends (w : Inspector D S) (ops : List Operation) : Prop :=
  ∃ flow, w.draft = some flow ∧ List.Forall₂ Operation.Alike ops flow.operations

variable (D S) in
/-- When an edit of options reaches the operations: each is drawn between nodes
    spelled as it is, and numbered in order; the edited one has these options
    already, apart from the action, and the others have their own action among
    their options. -/
def Flow.Fits (flow : Flow) (id : Text) (c : SyncConfig) : Prop :=
  ∀ op i, (op, i) ∈ flow.operations.zipIdx →
    (∃ s t, nodeFor (flow.nodes D S) op.sourceKey = some s ∧
      nodeFor (flow.nodes D S) op.targetKey = some t ∧ op.Between s t) ∧
    op.sortOrder = i ∧
    if op.id = id then ∀ k, k ≠ ACTION → op.syncConfig.get k = c.toJson.get k
    else op.action = normalizeAction op.action ∧
      op.syncConfig.get ACTION = some (.string op.action)

end

-- ============================================================================
-- The edges of an edited graph
-- ============================================================================

section

variable {α κ : Type} [DecidableEq κ]

/-- With keys that do not repeat, the first entry of a key is the only one. -/
theorem modify_findIdx {key : α → κ} {l : List α} (hnodup : (l.map key).Nodup) (k : κ)
    (f : α → α) :
    l.modify (l.findIdx (key · = k)) f = l.map fun a => if key a = k then f a else a := by
  induction l with
  | nil => rfl
  | cons a l ih =>
    rw [List.map_cons] at hnodup
    obtain ⟨hhead, htail⟩ := List.nodup_cons.mp hnodup
    rw [List.findIdx_cons]
    by_cases ha : key a = k
    · have hrest : ∀ b ∈ l, (if key b = k then f b else b) = id b := fun b hb => by
        rw [if_neg fun hbk => hhead ?_, id]
        exact List.mem_map.mpr ⟨b, hb, hbk.trans ha.symm⟩
      rw [List.map_cons, if_pos ha, List.map_congr_left hrest, List.map_id]
      simp [ha]
    · rw [List.map_cons, if_neg ha, ← ih htail]
      simp [ha]

end

theorem mapIdx_map {α β γ : Type} (g : α → β) (h : Nat → β → γ) (l : List α) :
    (l.map g).mapIdx h = l.mapIdx fun i a => h i (g a) := by
  rw [List.mapIdx_eq_iff]
  intro i
  rw [List.getElem?_mapIdx, List.getElem?_map, Option.map_map]
  rfl

section

variable {D S : Type} [CanvasJson D S] {flow : Flow} {id : Text} {c : SyncConfig}

omit [CanvasJson D S] in
theorem edges_sublist (all : List (GraphNode S)) (ops : List Operation) :
    ((ops.filterMap (toEdge all)).map GraphEdge.id).Sublist (ops.map Operation.id) := by
  induction ops with
  | nil => exact .slnil
  | cons op ops ih =>
    cases hedge : toEdge all op with
    | none =>
      rw [List.filterMap_cons_none hedge]
      exact ih.cons _
    | some e =>
      have hid : e.id = op.id := by
        unfold toEdge at hedge
        split at hedge
        · rw [← Option.some.inj hedge]
        · cases hedge
      rw [List.filterMap_cons_some hedge, List.map_cons, List.map_cons, hid]
      exact ih.cons_cons _

/-- The edge with the edited options in place of the one with the id. -/
def editedEdge (id : Text) (c : SyncConfig) (e : GraphEdge) : GraphEdge :=
  if e.id = id then e.setOptions c else e

omit [CanvasJson D S] in
theorem endpoints_edited (nodes : List (GraphNode S)) (e : GraphEdge) :
    endpoints nodes (editedEdge id c e) =
      (endpoints nodes e).map fun b => (editedEdge id c b.1, b.2) := by
  have hsource : (editedEdge id c e).source = e.source := by
    unfold editedEdge
    split <;> rfl
  have htarget : (editedEdge id c e).target = e.target := by
    unfold editedEdge
    split <;> rfl
  unfold endpoints
  rw [hsource, htarget]
  split <;> rfl

/-- The operations that an edit of a flow leads to. -/
theorem fromGraph_edited (order : IterationOrder S)
    (hids : (flow.operations.map Operation.id).Nodup) :
    (fromGraph (D := D) { toGraph order flow with
        edges := (toGraph (D := D) order flow).edges.modify
          ((toGraph (D := D) order flow).edges.findIdx (·.id = id)) (GraphEdge.setOptions c) }
      flow.operations).1 =
      (flow.operations.filterMap (drawn (flow.nodes D S))).mapIdx
        fun i (e, source, target) => redrawn flow.operations (editedEdge id c e) source target i := by
  obtain ⟨added, hadded, -, -⟩ := inserted_added (D := D) (storedNodes D S flow) flow.operations
  have hkept := lastBy_kept order (storedNodes D S flow) added
  rw [← hadded] at hkept
  have hnodes : ∀ k, lastBy GraphNode.id
      (keptNodes order (storedNodes D S flow) (flow.nodes D S)) k =
        lastBy GraphNode.id (flow.nodes D S) k := hkept
  have hnodup : ((flow.operations.filterMap (toEdge (flow.nodes D S))).map GraphEdge.id).Nodup :=
    (edges_sublist _ _).nodup hids
  have hedges : (toGraph (D := D) order flow).edges =
      flow.operations.filterMap (toEdge (flow.nodes D S)) := rfl
  have hdrawn : ∀ op : Operation,
      (toEdge (flow.nodes D S) op).bind
        (fun e => endpoints (keptNodes order (storedNodes D S flow) (flow.nodes D S))
          (editedEdge id c e)) =
        (drawn (flow.nodes D S) op).map fun b => (editedEdge id c b.1, b.2) := by
    intro op
    rw [← endpoints_toEdge hnodes op, Option.map_bind]
    exact congrArg _ (funext fun e => endpoints_edited _ e)
  rw [hedges, modify_findIdx hnodup]
  show ((((flow.operations.filterMap (toEdge (flow.nodes D S))).map (editedEdge id c)).filterMap
    (endpoints (keptNodes order (storedNodes D S flow) (flow.nodes D S)))).mapIdx _) = _
  rw [List.filterMap_map, List.filterMap_filterMap]
  simp only [Function.comp_apply, hdrawn]
  rw [← List.map_filterMap, mapIdx_map]

/-- When two operations, the second being the first between other places, with
    another action, other options and another number, are alike. -/
theorem alike_iff {op : Operation} {sr sp tr tp a : Text} {m : JsonDict} {n : Int} :
    op.Alike { op with
      sourceRemote := sr, sourcePath := sp, targetRemote := tr, targetPath := tp
      action := a, syncConfig := m, sortOrder := n } ↔
    (sr = op.sourceRemote ∧ sp = op.sourcePath ∧ tr = op.targetRemote ∧ tp = op.targetPath) ∧
      n = op.sortOrder ∧ a = op.action ∧ ∀ k, m.get k = op.syncConfig.get k := by
  obtain ⟨id, flowId, sr', sp', tr', tp', a', m', expanded, n'⟩ := op
  unfold Operation.Alike
  simp only [Operation.mk.injEq, true_and]
  constructor
  · rintro ⟨⟨hsr, hsp, htr, htp, ha, hn⟩, hm⟩
    exact ⟨⟨hsr, hsp, htr, htp⟩, hn, ha, hm⟩
  · rintro ⟨⟨hsr, hsp, htr, htp⟩, hn, ha, hm⟩
    exact ⟨⟨hsr, hsp, htr, htp, ha, hn⟩, hm⟩

theorem get_toJson_action (c : SyncConfig) : c.toJson.get ACTION = some (.string c.action) :=
  JsonDict.get_insert_self _ _ _

/-- What an operation has to be for the edit to reach it. -/
def Operation.FitsAt (op : Operation) (id : Text) (c : SyncConfig) (i : Nat)
    (s t : GraphNode S) : Prop :=
  op.Between s t ∧ op.sortOrder = i ∧
    if op.id = id then ∀ k, k ≠ ACTION → op.syncConfig.get k = c.toJson.get k
    else op.action = normalizeAction op.action ∧
      op.syncConfig.get ACTION = some (.string op.action)

omit [CanvasJson D S] in
theorem alike_redrawn (hids : (flow.operations.map Operation.id).Nodup) {op : Operation}
    (hop : op ∈ flow.operations) (s t : GraphNode S) (i : Nat) :
    (op.edited id c).Alike
        (redrawn flow.operations
          (editedEdge id c ⟨op.id, s.id, t.id, normalizeAction op.action, op⟩) s t i) ↔
      op.FitsAt id c i s t := by
  have hprevious := lastBy_of_nodup hids hop
  unfold Operation.FitsAt Operation.edited editedEdge
  by_cases hid : op.id = id
  · simp only [if_pos hid]
    have haction : normalizeAction c.action = c.action := normalizeAction_normalizeAction _
    have hne : c.action ≠ [] := normalizeAction_ne_nil _
    have hredrawn : redrawn flow.operations (GraphEdge.setOptions c
        ⟨op.id, s.id, t.id, normalizeAction op.action, op⟩) s t i =
        { op with
          sourceRemote := s.remote, sourcePath := normalizePath s.path
          targetRemote := t.remote, targetPath := normalizePath t.path
          action := c.action, syncConfig := op.syncConfig.insert ACTION (.string c.action)
          sortOrder := i } := by
      unfold redrawn GraphEdge.setOptions
      simp only [hprevious, Option.getD_some, if_neg hne, haction]
    have halike := @alike_iff { op with syncConfig := c.toJson, action := c.action } s.remote
      (normalizePath s.path) t.remote (normalizePath t.path) c.action
      (op.syncConfig.insert ACTION (.string c.action)) i
    rw [hredrawn, halike]
    refine and_congr Iff.rfl (and_congr eq_comm ⟨fun h k hk => ?_, fun h => ⟨rfl, fun k => ?_⟩⟩)
    · rw [← h.2 k, JsonDict.get_insert_of_ne _ _ hk]
    · by_cases hk : k = ACTION
      · rw [hk, JsonDict.get_insert_self]
        exact (get_toJson_action c).symm
      · rw [JsonDict.get_insert_of_ne _ _ hk, h k hk]
  · simp only [if_neg hid]
    rw [redrawn_eq hids hop]
    have halike := @alike_iff op s.remote (normalizePath s.path) t.remote (normalizePath t.path)
      (normalizeAction op.action)
      (op.syncConfig.insert ACTION (.string (normalizeAction op.action))) i
    refine halike.trans (and_congr Iff.rfl (and_congr eq_comm ⟨?_, ?_⟩))
    · rintro ⟨ha, hget⟩
      refine ⟨ha.symm, ?_⟩
      rw [← hget ACTION, JsonDict.get_insert_self, ha]
    · rintro ⟨ha, hget⟩
      refine ⟨ha.symm, fun k => ?_⟩
      by_cases hk : k = ACTION
      · rw [hk, JsonDict.get_insert_self, hget, ← ha]
      · rw [JsonDict.get_insert_of_ne _ _ hk]

/-- The edit of a flow reaches its operations exactly when they fit. -/
theorem rebuilt_alike (hids : (flow.operations.map Operation.id).Nodup) :
    List.Forall₂ Operation.Alike (edited id c flow.operations)
        ((flow.operations.filterMap (drawn (flow.nodes D S))).mapIdx
          fun i (e, source, target) =>
            redrawn flow.operations (editedEdge id c e) source target i) ↔
      flow.Fits D S id c := by
  have hops : flow.operations = flow.operations.zipIdx.map Prod.fst := by
    rw [List.zipIdx_map_fst]
  have hedited : edited id c flow.operations =
      flow.operations.zipIdx.map fun p => p.1.edited id c := by
    conv_lhs => rw [edited, hops, List.map_map]
    rfl
  have hfilter : flow.operations.filterMap (drawn (flow.nodes D S)) =
      flow.operations.zipIdx.filterMap fun p => drawn (flow.nodes D S) p.1 := by
    conv_lhs => rw [hops, List.filterMap_map]
    rfl
  rw [hedited, hfilter, List.forall₂_map_left_iff,
    forall₂_mapIdx (Q := fun p b => p.1.FitsAt id c p.2 b.2.1 b.2.2)]
  · constructor
    · rintro h op i hp
      obtain ⟨⟨e, s, t⟩, hb, hbetween, hsort, hrest⟩ := h (op, i) hp
      obtain ⟨hs, ht, -⟩ := drawn_spec hb
      exact ⟨⟨s, t, hs, ht, hbetween⟩, hsort, hrest⟩
    · rintro h ⟨op, i⟩ hp
      obtain ⟨⟨s, t, hs, ht, hbetween⟩, hsort, hrest⟩ := h op i hp
      exact ⟨_, drawn_of hs ht, hbetween, hsort, hrest⟩
  · rintro i hi ⟨e, s, t⟩ hb
    obtain ⟨-, -, rfl⟩ := drawn_spec hb
    have hmem : (flow.operations.zipIdx[i]).1 ∈ flow.operations := by
      rw [List.getElem_zipIdx]
      exact List.getElem_mem _
    have hindex : (flow.operations.zipIdx[i]).2 = i := by
      rw [List.getElem_zipIdx]
      exact Nat.zero_add i
    dsimp only
    rw [alike_redrawn hids hmem, hindex]

/-- What an edit makes of a window that shows the flow. -/
theorem shows_applySyncConfig {w : Inspector D S} (hids : (flow.operations.map Operation.id).Nodup)
    (order : IterationOrder S) (h : w.Shows flow)
    (hedge : ∃ e ∈ flow.operations.filterMap (toEdge (flow.nodes D S)), e.id = id) :
    ∃ flow', (w.applySyncConfig order id c).Shows flow' ∧ flow'.operations =
      (flow.operations.filterMap (drawn (flow.nodes D S))).mapIdx
        fun i (e, source, target) => redrawn flow.operations (editedEdge id c e) source target i := by
  obtain ⟨hdraft, shown, hgraph⟩ := h
  obtain ⟨e, he, heid⟩ := hedge
  have hany : (toGraph (D := D) shown flow).edges.any (·.id = id) = true :=
    List.any_eq_true.mpr ⟨e, he, decide_eq_true heid⟩
  rw [← fromGraph_edited shown hids]
  unfold Inspector.applySyncConfig
  simp only [hgraph, hany, if_true, Inspector.syncGraphToDraft, hdraft]
  exact ⟨_, ⟨rfl, order, rfl⟩, rfl⟩


/-- Of operations that fit, the edited one has an edge. -/
theorem edge_of_fits (h : flow.Fits D S id c) {op : Operation} (hop : op ∈ flow.operations)
    (hid : op.id = id) :
    ∃ e ∈ flow.operations.filterMap (toEdge (flow.nodes D S)), e.id = id := by
  obtain ⟨i, hi, rfl⟩ := List.mem_iff_getElem.mp hop
  obtain ⟨⟨s, t, hs, ht, -⟩, -, -⟩ := h flow.operations[i] i (by simp [List.mem_zipIdx_iff_getElem?])
  obtain ⟨s', hs', -⟩ := Option.bind_eq_some_iff.mp hs
  obtain ⟨t', ht', -⟩ := Option.bind_eq_some_iff.mp ht
  have hedge : toEdge (flow.nodes D S) flow.operations[i] = some ⟨flow.operations[i].id, s'.id,
      t'.id, normalizeAction flow.operations[i].action, flow.operations[i]⟩ := by
    unfold toEdge
    rw [hs', ht']
  exact ⟨_, List.mem_filterMap.mpr ⟨_, hop, hedge⟩, hid⟩

end

-- ============================================================================
-- Edits one after the other
-- ============================================================================

theorem Operation.Alike.refl (op : Operation) : op.Alike op := ⟨rfl, fun _ => rfl⟩

theorem Operation.Alike.trans {op op' op'' : Operation} (h : op.Alike op') (h' : op'.Alike op'') :
    op.Alike op'' := by
  refine ⟨?_, fun k => (h'.2 k).trans (h.2 k)⟩
  have hop := h'.1
  rw [h.1] at hop
  exact hop

theorem Operation.Alike.edited {op op' : Operation} (h : op.Alike op') (id : Text)
    (c : SyncConfig) : (op.edited id c).Alike (op'.edited id c) := by
  have hop := h.1
  generalize op'.syncConfig = m at hop
  subst hop
  unfold Operation.edited
  by_cases hid : op.id = id
  · simp only [if_pos hid]
    exact .refl _
  · simp only [if_neg hid]
    exact h

theorem alike_trans {l l' l'' : List Operation} (h : List.Forall₂ Operation.Alike l l')
    (h' : List.Forall₂ Operation.Alike l' l'') : List.Forall₂ Operation.Alike l l'' := by
  induction h generalizing l'' with
  | nil => exact h'
  | cons hop _ ih =>
    cases h' with
    | cons hop' htail => exact .cons (hop.trans hop') (ih htail)

theorem alike_ids {l l' : List Operation} (h : List.Forall₂ Operation.Alike l l') :
    l'.map Operation.id = l.map Operation.id := by
  induction h with
  | nil => rfl
  | cons hop _ ih => rw [List.map_cons, List.map_cons, ih, hop.1]

theorem edited_ids (id : Text) (c : SyncConfig) (ops : List Operation) :
    (edited id c ops).map Operation.id = ops.map Operation.id := by
  unfold edited
  rw [List.map_map]
  refine List.map_congr_left fun op _ => ?_
  show (op.edited id c).id = op.id
  unfold Operation.edited
  split <;> rfl

theorem edited_alike {l l' : List Operation} (h : List.Forall₂ Operation.Alike l l') (id : Text)
    (c : SyncConfig) : List.Forall₂ Operation.Alike (edited id c l) (edited id c l') := by
  unfold edited
  rw [List.forall₂_map_left_iff, List.forall₂_map_right_iff]
  exact h.imp fun _ _ hop => hop.edited id c

/-- What the user does in the inspector; a step that reaches the graph comes with
    the order in which the new graph's map is gone through. -/
inductive InspectorEdit (S : Type) where
  | typed (key text : Text)
  | flag (order : IterationOrder S) (running : Bool) (key : Text) (value : Bool)
  | choice (order : IterationOrder S) (running : Bool) (key value : Text)
  | collect (order : IterationOrder S) (edgeId : Text)
  /-- Any other options. -/
  | options (order : IterationOrder S) (edgeId : Text) (c : SyncConfig)

namespace Inspector

section

variable {D S : Type} [CanvasJson D S] (F : Type) [F64Input F]

def step (w : Inspector D S) : InspectorEdit S → Inspector D S
  | .typed key text => { w with inputs := fun k => if k = key then some text else w.inputs k }
  | .flag order running key value => w.setSyncFlag F order running key value
  | .choice order running key value => w.setSyncChoice F order running key value
  | .collect order edgeId => w.collectEditors F order edgeId
  | .options order edgeId c => w.applySyncConfig order edgeId c

/-- The edge that is edited, and its new options. -/
def target (w : Inspector D S) : InspectorEdit S → Option (Text × SyncConfig)
  | .typed _ _ => none
  | .flag _ running key value =>
      match running, w.syncConfig, w.syncEdge with
      | false, some c, some edgeId =>
          some (edgeId, collectSyncValues F w.inputs (c.setFlag key value))
      | _, _, _ => none
  | .choice _ running key value =>
      match running, w.syncConfig, w.syncEdge with
      | false, some c, some edgeId =>
          some (edgeId, collectSyncValues F
            (fun k => if k = key then (w.inputs k).map fun _ => value else w.inputs k)
            (c.setText key value))
      | _, _, _ => none
  | .collect _ edgeId => w.syncConfig.map fun c => (edgeId, collectSyncValues F w.inputs c)
  | .options _ edgeId c => some (edgeId, c)

/-- Two windows show the same. -/
def SameView (w w' : Inspector D S) : Prop := w'.draft = w.draft ∧ w'.graph = w.graph

theorem sameView_apply {w w' : Inspector D S} (h : w.SameView w') (order : IterationOrder S)
    (id : Text) (c : SyncConfig) :
    (w.applySyncConfig order id c).SameView (w'.applySyncConfig order id c) := by
  obtain ⟨draft, graph, config, edge, inputs⟩ := w
  obtain ⟨draft', graph', config', edge', inputs'⟩ := w'
  obtain ⟨rfl, rfl⟩ := h
  unfold applySyncConfig syncGraphToDraft SameView
  cases graph' with
  | none => exact ⟨rfl, rfl⟩
  | some g =>
    dsimp only
    split
    · cases draft' <;> exact ⟨rfl, rfl⟩
    · exact ⟨rfl, rfl⟩

/-- An edit is an edit of its target, or none. -/
theorem step_target (w : Inspector D S) (a : InspectorEdit S) :
    (w.target F a = none ∧ w.SameView (w.step F a)) ∨
      ∃ order id c, w.target F a = some (id, c) ∧
        (w.applySyncConfig order id c).SameView (w.step F a) := by
  obtain ⟨draft, graph, config, edge, inputs⟩ := w
  cases a with
  | typed key text => exact .inl ⟨rfl, rfl, rfl⟩
  | flag order running key value =>
    cases running with
    | true => exact .inl ⟨rfl, rfl, rfl⟩
    | false =>
      cases config with
      | none => exact .inl ⟨rfl, rfl, rfl⟩
      | some c =>
        cases edge with
        | none => exact .inl ⟨rfl, rfl, rfl⟩
        | some edgeId => exact .inr ⟨order, _, _, rfl, rfl, rfl⟩
  | choice order running key value =>
    cases running with
    | true => exact .inl ⟨rfl, rfl, rfl⟩
    | false =>
      cases config with
      | none => exact .inl ⟨rfl, rfl, rfl⟩
      | some c =>
        cases edge with
        | none => exact .inl ⟨rfl, rfl, rfl⟩
        | some edgeId =>
          have hview : SameView (⟨draft, graph, some c, some edgeId, inputs⟩ : Inspector D S)
              ⟨draft, graph, some c, some edgeId,
                fun k => if k = key then (inputs k).map fun _ => value else inputs k⟩ := ⟨rfl, rfl⟩
          exact .inr ⟨order, _, _, rfl, sameView_apply hview order edgeId _⟩
  | collect order edgeId =>
    cases config with
    | none => exact .inl ⟨rfl, rfl, rfl⟩
    | some c => exact .inr ⟨order, _, _, rfl, rfl, rfl⟩
  | options order edgeId c => exact .inr ⟨order, edgeId, c, rfl, rfl, rfl⟩

variable (D) in
/-- The window from a flow on, and the operations as they are to be. -/
def system (flow : Flow) : System (Inspector D S × List Operation) (InspectorEdit S) where
  init s := s.1.Shows flow ∧ s.2 = flow.operations
  step s a := some (s.1.step F a,
    ((s.1.target F a).map fun (id, c) => edited id c s.2).getD s.2)

/-- Each edit of options fits the flow. -/
def Fitting (s : Inspector D S × List Operation) (a : InspectorEdit S) : Prop :=
  ∀ flow id c, s.1.draft = some flow → s.1.target F a = some (id, c) → flow.Fits D S id c

/-- What is shown, and that it is what the operations are to be. -/
def Right (s : Inspector D S × List Operation) : Prop :=
  ∃ flow, s.1.Shows flow ∧ (flow.operations.map Operation.id).Nodup ∧
    List.Forall₂ Operation.Alike s.2 flow.operations

omit [F64Input F] in
/-- An edit that fits. -/
theorem right_apply {w : Inspector D S} {flow : Flow} {id : Text} {c : SyncConfig}
    (hids : (flow.operations.map Operation.id).Nodup) (h : w.Shows flow)
    (hfit : flow.Fits D S id c) (order : IterationOrder S) :
    ∃ flow', (w.applySyncConfig order id c).Shows flow' ∧
      List.Forall₂ Operation.Alike (edited id c flow.operations) flow'.operations := by
  by_cases hop : ∃ op ∈ flow.operations, op.id = id
  · obtain ⟨op, hop, hid⟩ := hop
    obtain ⟨flow', hshows, hops⟩ :=
      shows_applySyncConfig (c := c) hids order h (edge_of_fits hfit hop hid)
    refine ⟨flow', hshows, ?_⟩
    rw [hops]
    exact (rebuilt_alike hids).mpr hfit
  · -- nothing has the id, neither an operation nor an edge
    refine ⟨flow, ?_, ?_⟩
    · obtain ⟨hdraft, shown, hgraph⟩ := h
      have hany : (toGraph (D := D) shown flow).edges.any (·.id = id) = false := by
        rw [List.any_eq_false]
        intro e he heid
        have hmem := (edges_sublist (flow.nodes D S) flow.operations).subset
          (List.mem_map_of_mem (f := GraphEdge.id) he)
        obtain ⟨op, hmem, heq⟩ := List.mem_map.mp hmem
        exact hop ⟨op, hmem, heq.trans (of_decide_eq_true heid)⟩
      unfold applySyncConfig
      simp only [hgraph, hany, Bool.false_eq_true, if_false]
      exact ⟨hdraft, shown, rfl⟩
    · have hsame : edited id c flow.operations = flow.operations := by
        have hself : ∀ op ∈ flow.operations, op.edited id c = op := fun op hmem =>
          if_neg fun hid => hop ⟨op, hmem, hid⟩
        exact (List.map_congr_left hself).trans (List.map_id _)
      rw [hsame]
      exact List.forall₂_same.mpr fun op _ => .refl op

theorem right_step {flow₀ : Flow} {s s' : Inspector D S × List Operation} {a : InspectorEdit S}
    (h : Right s) (hfits : Fitting F s a) (hs : (system D F flow₀).step s a = some s') :
    Right s' := by
  obtain ⟨flow, hshows, hids, halike⟩ := h
  have hs' := Option.some.inj hs
  rcases step_target F s.1 a with ⟨hnone, hview⟩ | ⟨order, id, c, hsome, hview⟩
  · rw [hnone] at hs'
    rw [← hs']
    exact ⟨flow, ⟨hview.1.trans hshows.1, hshows.2.imp fun _ hgraph => hview.2.trans hgraph⟩, hids,
      halike⟩
  · rw [hsome] at hs'
    rw [← hs']
    obtain ⟨flow', ⟨hdraft, hgraph⟩, hedited⟩ :=
      right_apply hids hshows (hfits flow id c hshows.1 hsome) order
    refine ⟨flow', ⟨hview.1.trans hdraft, hgraph.imp fun _ hg => hview.2.trans hg⟩, ?_,
      alike_trans (edited_alike halike id c) hedited⟩
    rw [alike_ids hedited, edited_ids]
    exact hids

omit [F64Input F] in
theorem sends_iff {flow : Flow} (hids : (flow.operations.map Operation.id).Nodup)
    {w : Inspector D S} (h : w.Shows flow) (order : IterationOrder S) {e : GraphEdge}
    (he : e ∈ flow.operations.filterMap (toEdge (flow.nodes D S))) (c : SyncConfig) :
    (w.applySyncConfig order e.id c).Sends (edited e.id c flow.operations) ↔
      flow.Fits D S e.id c := by
  obtain ⟨flow', ⟨hshows, -⟩, hops⟩ :=
    shows_applySyncConfig (c := c) hids order h ⟨e, he, rfl⟩
  rw [← rebuilt_alike hids, ← hops]
  constructor
  · rintro ⟨flow'', hdraft, hsends⟩
    rw [hshows] at hdraft
    rw [Option.some.inj hdraft]
    exact hsends
  · exact fun halike => ⟨flow', hshows, halike⟩

end

/-- One push from this machine to a folder. -/
def onePush : Flow where
  operations := [⟨"O1".toList, "F1".toList, [], "/".toList, "gdrive".toList, "/b".toList,
    "push".toList, [(ACTION, .string "push".toList)], false, 0⟩]
  canvasJson := []

/-- The map in the order of its entries. -/
def asIs : IterationOrder Nat := ⟨id, fun l => .refl l⟩

def showing (flow : Flow) : Inspector Nat Nat :=
  ⟨some flow, some (toGraph asIs flow), none, none, fun _ => none⟩

/-- The options of a push both ways. -/
def bothWays : SyncConfig := ⟨[(ACTION, .string "bi".toList)]⟩

/-- The options of the push, with `dry_run`. -/
def dryRun : SyncConfig :=
  ⟨[(ACTION, .string "push".toList), ("dry_run".toList, .bool true)]⟩

theorem onePush_drawn {op : Operation} {i : Nat} (h : (op, i) ∈ onePush.operations.zipIdx) :
    op.id = "O1".toList ∧ op.syncConfig = [(ACTION, .string "push".toList)] ∧
      (∃ s t, nodeFor (onePush.nodes Nat Nat) op.sourceKey = some s ∧
        nodeFor (onePush.nodes Nat Nat) op.targetKey = some t ∧ op.Between s t) ∧
      op.sortOrder = i := by
  obtain ⟨rfl, rfl⟩ := Prod.mk.inj (List.mem_singleton.mp h)
  refine ⟨rfl, rfl, ?_, rfl⟩
  have hboth : ((nodeFor (onePush.nodes Nat Nat) (locationKey [] "/".toList)).any fun s =>
      (nodeFor (onePush.nodes Nat Nat) (locationKey "gdrive".toList "/b".toList)).any fun t =>
        s.remote = [] && normalizePath s.path = "/".toList && t.remote = "gdrive".toList &&
          normalizePath t.path = "/b".toList) = true := by decide +kernel
  obtain ⟨s, hs, htarget⟩ := (Option.any_eq_true _ _).mp hboth
  obtain ⟨t, ht, hbetween⟩ := (Option.any_eq_true _ _).mp htarget
  simp only [Bool.and_eq_true, decide_eq_true_eq] at hbetween
  obtain ⟨⟨⟨hsr, hsp⟩, htr⟩, htp⟩ := hbetween
  exact ⟨s, t, hs, ht, hsr, hsp, htr, htp⟩

theorem onePush_fits : onePush.Fits Nat Nat "O1".toList bothWays := by
  intro op i hp
  obtain ⟨hop, hconfig, hdrawn, hsort⟩ := onePush_drawn hp
  refine ⟨hdrawn, hsort, ?_⟩
  rw [if_pos hop, hconfig]
  intro k hk
  have hjson : bothWays.toJson = [(ACTION, .string "bi".toList)] := rfl
  rw [hjson]
  simp [Rpc.JsonDict.get, hk.symm]

theorem onePush_edge : ∃ e ∈ onePush.operations.filterMap (toEdge (onePush.nodes Nat Nat)),
    e.id = "O1".toList := edge_of_fits onePush_fits List.mem_cons_self rfl

instance wholeInput : F64Input Nat where
  toF64Json := wholeJson
  allowed _ := true

end Inspector

end GnDrive.Gpui
