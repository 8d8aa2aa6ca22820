/-
  GnDrive.Gpui.CanvasEdits

  The edits of the canvas (`main.rs` of the window): connecting nodes, renaming the endpoint at
  a node, changing an action, adding and deleting nodes and edges.

  Each edit but the adding of a node makes the operations anew of the edited graph.  What they
  connect depends on the edges and on where the nodes are, and on nothing that was stored
  before (`fromGraph_connections`).
-/

import GnDrive.Gpui.Inspector
import GnDrive.Gpui.Locations

namespace GnDrive.Gpui

open Keyed (lastBy lastBy_map lastBy_of_nodup lastBy_spec)
open Rclone (composePath)
open Rpc (Json JsonDict)
open Text (trim)

-- ============================================================================
-- The checks of a connection
-- ============================================================================

inductive ConnectError where
  | missingEndpoint
  | selfLoop
  | unknownNode
  | duplicateEdge
deriving DecidableEq

def ConnectError.label : ConnectError → String
  | missingEndpoint => "Cannot connect an empty endpoint"
  | selfLoop => "Cannot connect a node to itself"
  | unknownNode => "Cannot connect"
  | duplicateEdge => "This connection already exists"

section

variable {D S : Type}

def connectError (source target action : Text) (graph : FlowGraph D S) : Option ConnectError :=
  if source = [] ∨ target = [] then some .missingEndpoint
  else if source = target then some .selfLoop
  else if !graph.nodes.any (·.id = source) || !graph.nodes.any (·.id = target) then
    some .unknownNode
  else if graph.edges.any fun edge => edge.source = source && edge.target = target &&
      normalizeAction edge.action = normalizeAction action then
    some .duplicateEdge
  else none

end

-- ============================================================================
-- The edits
-- ============================================================================

/-- What an operation at a renamed location becomes. -/
def Operation.relocate (oldKey remote path : Text) (op : Operation) : Operation :=
  let op := if op.sourceKey = oldKey then { op with sourceRemote := remote, sourcePath := path }
    else op
  if op.targetKey = oldKey then { op with targetRemote := remote, targetPath := path } else op

def SyncConfig.setAction (c : SyncConfig) (action : Text) : SyncConfig :=
  ⟨c.map.insert ACTION (.string (normalizeAction action))⟩

/-- The edge's new action. -/
def GraphEdge.setAction (action : Text) (e : GraphEdge) : GraphEdge :=
  { e with
    action
    operation := { e.operation with
      action, syncConfig := e.operation.syncConfig.insert ACTION (.string action) } }

def PUSH : Text := "push".toList

/-- `format!("O{}", now_ms() % 1_000_000)`. -/
def operationId (now : Nat) : Text := 'O' :: Nat.toDigits 10 (now % 1000000)

/-- The operation of a connection that was drawn. -/
def newOperation {S : Type} (nodes : List (GraphNode S)) (id flowId source target : Text) :
    Operation :=
  let s := nodes.find? (·.id = source)
  let t := nodes.find? (·.id = target)
  { id
    flowId
    sourceRemote := (s.map (·.remote)).getD []
    sourcePath := (s.map (·.path)).getD []
    targetRemote := (t.map (·.remote)).getD []
    targetPath := (t.map (·.path)).getD []
    action := PUSH
    syncConfig := [(ACTION, .string PUSH)]
    isExpanded := false
    sortOrder := 0 }

/-- `{home}/New folder`, the later ones with a number. -/
def newFolderPath (home : Text) (index : Nat) : Text :=
  home ++ "/New folder".toList ++ if index = 1 then [] else ' ' :: Nat.toDigits 10 index

/-- The loop of `add_node`, for so many rounds. -/
def newFolder {S : Type} (home : Text) (nodes : List (GraphNode S)) : Nat → Nat → Option Text
  | 0, _ => none
  | rounds + 1, index =>
      if nodes.any (·.id = stableNodeId (locationKey LOCAL (newFolderPath home index))) then
        newFolder home nodes rounds (index + 1)
      else some (newFolderPath home index)

namespace Inspector

variable {D S : Type} [CanvasJson D S]

def rebindGraph (order : IterationOrder S) (w : Inspector D S) : Inspector D S :=
  match w.graph, w.draft with
  | none, _ => w
  | some _, none => { w with graph := none }
  | some graph, some draft =>
      let rebuilt := fromGraph graph draft.operations
      let draft : Flow := ⟨rebuilt.1, rebuilt.2⟩
      { w with draft := some draft, graph := some (toGraph order draft) }

/-- `running`: the selected flow is running. -/
def setNodePath (order : IterationOrder S) (running : Bool) (nodeId path : Text)
    (remote : Option Text) (w : Inspector D S) : Inspector D S :=
  if running || path = [] then w
  else
    let remote := remote.getD (splitLocation path).1
    let newPath := normalizePath (splitLocation path).2
    match w.graph with
    | none => w
    | some graph =>
        match graph.nodes.find? (·.id = nodeId) with
        | none => w
        | some node =>
            if node.remote = remote ∧ node.path = newPath then w
            else
              let oldKey := locationKey node.remote node.path
              rebindGraph order { w with
                draft := w.draft.map fun draft =>
                  { draft with
                    operations := draft.operations.map (.relocate oldKey remote newPath) }
                graph := some { graph with
                  nodes := graph.nodes.modify (graph.nodes.findIdx (·.id = nodeId)) fun n =>
                    { n with remote, path := newPath } } }

/-- The action of the selected edge. -/
def setEdgeAction (order : IterationOrder S) (running : Bool) (edgeId action : Text)
    (w : Inspector D S) : Inspector D S :=
  if running then w
  else match w.graph with
    | none => w
    | some graph =>
        if graph.edges.any (·.id = edgeId) then
          syncGraphToDraft order { w with
            graph := some { graph with
              edges := graph.edges.modify (graph.edges.findIdx (·.id = edgeId))
                (GraphEdge.setAction (normalizeAction action)) }
            syncConfig := w.syncConfig.map (·.setAction (normalizeAction action)) }
        else w

/-- `viewport` is that of the canvas, which the graph does not have yet. -/
def syncCanvasOnly (viewport : Viewport D) (w : Inspector D S) : Inspector D S :=
  match w.graph with
  | none => w
  | some graph =>
      { w with draft := w.draft.map fun draft =>
          { draft with
            canvasJson := CanvasJson.serialize S {
              viewport
              nodes := graph.nodes.map fun n =>
                ⟨n.id, n.remote, n.path, n.label, CanvasJson.toDouble n.x,
                  CanvasJson.toDouble n.y⟩ } } }

/-- A new folder at `x`, `y`; the loop for its name takes so many rounds. -/
def addNode (home : Text) (x y : S) (viewport : Viewport D) (rounds : Nat) (running : Bool)
    (w : Inspector D S) : Inspector D S :=
  if running then w
  else match w.draft, w.graph with
    | some _, some graph =>
        match newFolder home graph.nodes rounds 1 with
        | none => w
        | some path =>
            syncCanvasOnly viewport { w with
              graph := some { graph with
                nodes := graph.nodes ++ [{
                  id := stableNodeId (locationKey LOCAL path)
                  remote := LOCAL
                  path
                  label := "New folder".toList
                  x
                  y }] } }
    | _, _ => w

/-- `flowId` is the selected flow, `now` the clock in milliseconds. -/
def connectNodes (order : IterationOrder S) (running : Bool) (flowId : Option Text) (now : Nat)
    (source target : Text) (w : Inspector D S) : Inspector D S :=
  if running then w
  else match w.graph with
    | none => w
    | some graph =>
        match connectError source target PUSH graph, flowId with
        | none, some flowId =>
            let id := operationId now
            syncGraphToDraft order { w with
              graph := some { graph with
                edges := graph.edges ++ [{
                  id
                  source
                  target
                  action := PUSH
                  operation := newOperation graph.nodes id flowId source target }] } }
        | _, _ => w

def deleteNode (order : IterationOrder S) (running : Bool) (id : Text) (w : Inspector D S) :
    Inspector D S :=
  if running then w
  else match w.graph with
    | none => w
    | some graph =>
        syncGraphToDraft order { w with
          graph := some { graph with
            nodes := graph.nodes.filter (·.id ≠ id)
            edges := graph.edges.filter fun edge => edge.source ≠ id && edge.target ≠ id } }

def deleteEdge (order : IterationOrder S) (running : Bool) (id : Text) (w : Inspector D S) :
    Inspector D S :=
  if running then w
  else match w.graph with
    | none => w
    | some graph =>
        syncGraphToDraft order { w with
          graph := some { graph with edges := graph.edges.filter (·.id ≠ id) } }

end Inspector

-- ============================================================================
-- What is connected
-- ============================================================================

/-- What an operation is about: the locations of rclone and the action. -/
structure Connection where
  id : Text
  source : Text
  target : Text
  action : Text
deriving DecidableEq

def Operation.connection (op : Operation) : Connection where
  id := op.id
  source := composePath op.sourceRemote op.sourcePath
  target := composePath op.targetRemote op.targetPath
  action := normalizeAction op.action

def GraphEdge.connection (loc : Text → Option Text) (action : GraphEdge → Text) (e : GraphEdge) :
    Option Connection :=
  match loc e.source, loc e.target with
  | some source, some target => some ⟨e.id, source, target, action e⟩
  | _, _ => none

/-- The action of the operation that is made of an edge. -/
def edgeAction (previous : List Operation) (e : GraphEdge) : Text :=
  if e.action = [] then
    normalizeAction ((lastBy Operation.id previous e.id).getD e.operation).action
  else normalizeAction e.action

section

variable {D S : Type}

def GraphNode.location (n : GraphNode S) : Text := composePath n.remote n.path

def locationOf (nodes : List (GraphNode S)) (id : Text) : Option Text :=
  (lastBy GraphNode.id nodes id).map GraphNode.location

theorem redrawn_connection (previous : List Operation) (e : GraphEdge)
    (source target : GraphNode S) (i : Nat) :
    (redrawn previous e source target i).connection =
      ⟨e.id, source.location, target.location, edgeAction previous e⟩ := by
  unfold redrawn Operation.connection GraphNode.location edgeAction
  simp only [composePath_normalizePath, Connection.mk.injEq, true_and]
  split_ifs <;> exact normalizeAction_normalizeAction _

theorem map_mapIdx_const {α β γ : Type} {f : Nat → α → β} {g : β → γ} {h : α → γ}
    (hfg : ∀ i a, g (f i a) = h a) (l : List α) : (l.mapIdx f).map g = l.map h := by
  refine List.ext_getElem (by simp) fun i hi hi' => ?_
  simp [hfg]

/-- The operations made of a graph connect what its edges do, where its nodes are. -/
theorem fromGraph_connections [CanvasJson D S] (graph : FlowGraph D S)
    (previous : List Operation) :
    (fromGraph graph previous).1.map Operation.connection =
      graph.edges.filterMap
        (GraphEdge.connection (locationOf graph.nodes) (edgeAction previous)) := by
  unfold fromGraph
  dsimp only
  rw [map_mapIdx_const fun i b => redrawn_connection previous b.1 b.2.1 b.2.2 i,
    List.map_filterMap]
  congr 1
  funext e
  unfold endpoints GraphEdge.connection locationOf
  cases lastBy GraphNode.id graph.nodes e.source with
  | none => rfl
  | some source => cases lastBy GraphNode.id graph.nodes e.target <;> rfl

theorem edgeAction_of_ne {previous : List Operation} {e : GraphEdge} (h : e.action ≠ []) :
    edgeAction previous e = normalizeAction e.action := if_neg h

-- ============================================================================
-- A node at another place
-- ============================================================================

/-- The node with the id, put elsewhere. -/
def movedTo (id remote path : Text) (n : GraphNode S) : GraphNode S :=
  if n.id = id then { n with remote, path } else n

theorem movedTo_id (id remote path : Text) (n : GraphNode S) :
    (movedTo id remote path n).id = n.id := by
  unfold movedTo
  split <;> rfl

theorem locationOf_movedTo (nodes : List (GraphNode S)) (id remote path k : Text) :
    locationOf (nodes.map (movedTo id remote path)) k =
      if k = id then (locationOf nodes k).map fun _ => composePath remote path
      else locationOf nodes k := by
  have hids : GraphNode.id ∘ movedTo id remote path = (GraphNode.id : GraphNode S → Text) :=
    funext fun n => movedTo_id id remote path n
  unfold locationOf
  rw [lastBy_map, hids]
  cases h : lastBy GraphNode.id nodes k with
  | none => simp
  | some n =>
    obtain ⟨-, rfl⟩ := lastBy_spec h
    by_cases hid : n.id = id
    · simp [movedTo, hid, GraphNode.location]
    · simp [movedTo, hid]

end

-- ============================================================================
-- What the edits do
-- ============================================================================

namespace Inspector

section

variable {D S : Type} [CanvasJson D S]

/-- The window after its operations were made anew of a graph. -/
structure Rebuilt (order : IterationOrder S) (graph : FlowGraph D S) (previous : List Operation)
    (w : Inspector D S) : Prop where
  draft : w.draft = some ⟨(fromGraph graph previous).1, (fromGraph graph previous).2⟩
  graph : w.graph =
    some (toGraph order ⟨(fromGraph graph previous).1, (fromGraph graph previous).2⟩)

variable {order : IterationOrder S} {running : Bool} {w : Inspector D S} {graph : FlowGraph D S}
  {draft : Flow}

theorem rebuilt_sync (hgraph : w.graph = some graph) (hdraft : w.draft = some draft) :
    Rebuilt order graph draft.operations (w.syncGraphToDraft order) := by
  unfold syncGraphToDraft
  rw [hgraph, hdraft]
  exact ⟨rfl, rfl⟩

theorem rebuilt_rebind (w : Inspector D S) (graph : FlowGraph D S) (ops : List Operation)
    (hgraph : w.graph = some graph)
    (hops : w.draft.map Flow.operations = some ops) :
    Rebuilt order graph ops (w.rebindGraph order) := by
  obtain ⟨draft, hdraft, rfl⟩ := Option.map_eq_some_iff.mp hops
  unfold rebindGraph
  rw [hgraph, hdraft]
  exact ⟨rfl, rfl⟩

theorem setNodePath_spec (hgraph : w.graph = some graph) (hdraft : w.draft = some draft)
    (hids : (graph.nodes.map GraphNode.id).Nodup) (nodeId path : Text) (remote : Option Text) :
    (w.setNodePath order running nodeId path remote = w ∧
      (running = true ∨ path = [] ∨ ∀ node ∈ graph.nodes, node.id = nodeId →
        node.remote = remote.getD (splitLocation path).1 ∧
          node.path = normalizePath (splitLocation path).2)) ∨
      running = false ∧ path ≠ [] ∧ ∃ node ∈ graph.nodes, node.id = nodeId ∧
        Rebuilt order
          { graph with
            nodes := graph.nodes.map (movedTo nodeId (remote.getD (splitLocation path).1)
              (normalizePath (splitLocation path).2)) }
          (draft.operations.map (.relocate (locationKey node.remote node.path)
            (remote.getD (splitLocation path).1) (normalizePath (splitLocation path).2)))
          (w.setNodePath order running nodeId path remote) := by
  unfold setNodePath
  by_cases hstop : (running || path = []) = true
  · refine .inl ⟨if_pos hstop, ?_⟩
    rw [Bool.or_eq_true, decide_eq_true_eq] at hstop
    exact hstop.elim .inl fun hpath => .inr (.inl hpath)
  · rw [if_neg hstop, hgraph]
    rw [Bool.or_eq_true, decide_eq_true_eq, not_or, Bool.not_eq_true] at hstop
    dsimp only
    cases hnode : graph.nodes.find? (·.id = nodeId) with
    | none =>
      rw [List.find?_eq_none] at hnode
      exact .inl ⟨rfl, .inr (.inr fun node hmem hid => absurd (decide_eq_true hid) (hnode node hmem))⟩
    | some node =>
      dsimp only
      split_ifs with hsame
      · refine .inl ⟨rfl, .inr (.inr fun other hother hid => ?_)⟩
        have hfound : node.id = nodeId := by simpa using List.find?_some hnode
        rw [List.inj_on_of_nodup_map hids hother (List.mem_of_find?_eq_some hnode)
          (hid.trans hfound.symm)]
        exact hsame
      · refine .inr ⟨hstop.1, hstop.2, node, List.mem_of_find?_eq_some hnode,
          by simpa using List.find?_some hnode, ?_⟩
        rw [modify_findIdx hids, hdraft]
        exact rebuilt_rebind _ _ _ rfl rfl

theorem setEdgeAction_spec (hgraph : w.graph = some graph) (hdraft : w.draft = some draft)
    (edgeId action : Text) :
    (w.setEdgeAction order running edgeId action = w ∧
      (running = true ∨ ∀ e ∈ graph.edges, e.id ≠ edgeId)) ∨
      running = false ∧ (∃ e ∈ graph.edges, e.id = edgeId) ∧ Rebuilt order
        { graph with
          edges := graph.edges.modify (graph.edges.findIdx (·.id = edgeId))
            (.setAction (normalizeAction action)) }
        draft.operations (w.setEdgeAction order running edgeId action) := by
  unfold setEdgeAction
  cases running with
  | true => exact .inl ⟨rfl, .inl rfl⟩
  | false =>
    rw [hgraph, if_neg Bool.false_ne_true]
    dsimp only
    by_cases hedge : graph.edges.any (·.id = edgeId) = true
    · rw [if_pos hedge]
      obtain ⟨e, he, hid⟩ := List.any_eq_true.mp hedge
      exact .inr ⟨rfl, ⟨e, he, of_decide_eq_true hid⟩, rebuilt_sync rfl hdraft⟩
    · rw [if_neg hedge]
      refine .inl ⟨rfl, .inr fun e he hid => hedge ?_⟩
      exact List.any_eq_true.mpr ⟨e, he, decide_eq_true hid⟩

theorem connectNodes_spec (hgraph : w.graph = some graph) (hdraft : w.draft = some draft)
    (flowId : Option Text) (now : Nat) (source target : Text) :
    (w.connectNodes order running flowId now source target = w ∧
      (running = true ∨ flowId = none ∨ connectError source target PUSH graph ≠ none)) ∨
      running = false ∧ connectError source target PUSH graph = none ∧ ∃ flow,
        flowId = some flow ∧ Rebuilt order
          { graph with
            edges := graph.edges ++ [{
              id := operationId now
              source
              target
              action := PUSH
              operation := newOperation graph.nodes (operationId now) flow source target }] }
          draft.operations (w.connectNodes order running flowId now source target) := by
  unfold connectNodes
  cases running with
  | true => exact .inl ⟨rfl, .inl rfl⟩
  | false =>
    rw [hgraph]
    dsimp only
    cases connectError source target PUSH graph with
    | some error => exact .inl ⟨rfl, .inr (.inr (Option.some_ne_none error))⟩
    | none =>
      cases flowId with
      | none => exact .inl ⟨rfl, .inr (.inl rfl)⟩
      | some flow => exact .inr ⟨rfl, rfl, flow, rfl, rebuilt_sync rfl hdraft⟩

theorem deleteNode_spec (hgraph : w.graph = some graph) (hdraft : w.draft = some draft)
    (id : Text) :
    w.deleteNode order running id = w ∨
      Rebuilt order
        { graph with
          nodes := graph.nodes.filter (·.id ≠ id)
          edges := graph.edges.filter fun edge => edge.source ≠ id && edge.target ≠ id }
        draft.operations (w.deleteNode order running id) := by
  unfold deleteNode
  cases running with
  | true => exact .inl rfl
  | false =>
    rw [hgraph]
    exact .inr (rebuilt_sync rfl hdraft)

theorem deleteEdge_spec (hgraph : w.graph = some graph) (hdraft : w.draft = some draft)
    (id : Text) :
    w.deleteEdge order running id = w ∨
      Rebuilt order { graph with edges := graph.edges.filter (·.id ≠ id) } draft.operations
        (w.deleteEdge order running id) := by
  unfold deleteEdge
  cases running with
  | true => exact .inl rfl
  | false =>
    rw [hgraph]
    exact .inr (rebuilt_sync rfl hdraft)

omit [CanvasJson D S] in
theorem newFolder_fresh {home : Text} {nodes : List (GraphNode S)} {rounds index : Nat}
    {path : Text} (h : newFolder home nodes rounds index = some path) :
    stableNodeId (locationKey LOCAL path) ∉ nodes.map GraphNode.id := by
  induction rounds generalizing index with
  | zero => cases h
  | succ rounds ih =>
    unfold newFolder at h
    by_cases htaken :
        nodes.any (·.id = stableNodeId (locationKey LOCAL (newFolderPath home index))) = true
    · rw [if_pos htaken] at h
      exact ih h
    · rw [if_neg htaken] at h
      obtain rfl := Option.some.inj h
      intro hmem
      obtain ⟨n, hn, hid⟩ := List.mem_map.mp hmem
      exact htaken (List.any_eq_true.mpr ⟨n, hn, decide_eq_true hid⟩)

/-- A new folder is one more node; the operations and the edges stay. -/
theorem addNode_spec (hgraph : w.graph = some graph) (hdraft : w.draft = some draft) (home : Text)
    (x y : S) (viewport : Viewport D) (rounds : Nat) :
    w.addNode home x y viewport rounds running = w ∨
      ∃ node canvas, node.id ∉ graph.nodes.map GraphNode.id ∧
        (w.addNode home x y viewport rounds running).graph =
          some { graph with nodes := graph.nodes ++ [node] } ∧
        (w.addNode home x y viewport rounds running).draft = some ⟨draft.operations, canvas⟩ := by
  unfold addNode
  cases running with
  | true => exact .inl rfl
  | false =>
    rw [hgraph, hdraft, if_neg Bool.false_ne_true]
    dsimp only
    cases hpath : newFolder home graph.nodes rounds 1 with
    | none => exact .inl rfl
    | some path =>
      unfold syncCanvasOnly
      exact .inr ⟨_, _, newFolder_fresh hpath, rfl, rfl⟩

end

end Inspector

end GnDrive.Gpui
