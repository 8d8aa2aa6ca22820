/-
  GnDrive.Gpui.LocationFields

  What a save does with the location fields of the inspector that nobody touched.

  `collect_editors` writes the text of the fields back to every operation at the location.
  That is without effect exactly where the location comes back from its text
  (`location_comes_back_iff`).
-/

import GnDrive.Gpui.CanvasEdits

namespace GnDrive.Gpui

open Keyed (lastBy lastBy_map lastBy_of_nodup)
open Rclone (composePath)
open Text (trim)

namespace Inspector

section

variable {D S : Type} [CanvasJson D S]

/-- What the operations transfer. -/
def transfers (w : Inspector D S) : Option (List Connection) :=
  w.draft.map fun draft => draft.operations.map Operation.connection

/-- `collect_editors` at a node, whose field shows `text`. -/
def collectNode (order : IterationOrder S) (running : Bool) (id text : Text) (w : Inspector D S) :
    Inspector D S :=
  w.setNodePath order running id (trim text) none

/-- `collect_editors` at an edge, as far as its locations go. -/
def collectEdge (order order' : IterationOrder S) (running : Bool) (id source target : Text)
    (w : Inspector D S) : Inspector D S :=
  match w.graph.bind fun graph => graph.edges.find? (·.id = id) with
  | none => w
  | some edge =>
      (w.collectNode order running edge.source source).collectNode order' running edge.target target

/-- The graph shows the draft: what is made of it connects what the operations do, and no two
    of its nodes have one id. -/
structure InStep (w : Inspector D S) (graph : FlowGraph D S) (draft : Flow) : Prop where
  hasGraph : w.graph = some graph
  hasDraft : w.draft = some draft
  nodes : (graph.nodes.map GraphNode.id).Nodup
  shown : (fromGraph graph draft.operations).1.map Operation.connection =
    draft.operations.map Operation.connection

end

end Inspector

-- ============================================================================
-- A node put where it is
-- ============================================================================

theorem relocate_id (key remote path : Text) (op : Operation) :
    (op.relocate key remote path).id = op.id := by
  unfold Operation.relocate
  dsimp only
  split_ifs <;> rfl

theorem relocate_action (key remote path : Text) (op : Operation) :
    (op.relocate key remote path).action = op.action := by
  unfold Operation.relocate
  dsimp only
  split_ifs <;> rfl

theorem edgeAction_relocate (ops : List Operation) (key remote path : Text) (e : GraphEdge) :
    edgeAction (ops.map (.relocate key remote path)) e = edgeAction ops e := by
  have hids : Operation.id ∘ Operation.relocate key remote path = Operation.id :=
    funext fun op => relocate_id key remote path op
  unfold edgeAction
  rw [lastBy_map, hids]
  cases lastBy Operation.id ops e.id with
  | none => rfl
  | some op =>
    rw [Option.map_some, Option.getD_some, relocate_action]
    rfl

theorem fieldLocation_trim (text : Text) : fieldLocation (trim text) = fieldLocation text := by
  unfold fieldLocation splitLocation
  rw [Text.trim_trim]

section

variable {D S : Type} [CanvasJson D S] {order order' : IterationOrder S} {running : Bool}
  {w : Inspector D S} {graph : FlowGraph D S} {draft : Flow}

/-- A field that is read as the location of its node changes no transfer. -/
theorem collectNode_transfers (h : w.InStep graph draft) {node : GraphNode S}
    (hnode : node ∈ graph.nodes) {text : Text} (htext : fieldLocation text = node.location) :
    (w.collectNode order running node.id text).transfers = w.transfers := by
  have hspec := @Inspector.setNodePath_spec D S _ order running w graph draft h.hasGraph h.hasDraft
    h.nodes node.id (trim text) none
  rcases hspec with ⟨hsame, -⟩ | ⟨-, -, found, hfound, hid, hrebuilt⟩
  · unfold Inspector.collectNode
    rw [hsame]
  · have hloc : locationOf (graph.nodes.map (movedTo node.id (splitLocation (trim text)).1
        (normalizePath (splitLocation (trim text)).2))) = locationOf graph.nodes := by
      funext k
      rw [locationOf_movedTo]
      split_ifs with hk
      · subst hk
        have hback : composePath (splitLocation (trim text)).1
            (normalizePath (splitLocation (trim text)).2) = node.location := by
          rw [composePath_normalizePath, ← htext, ← fieldLocation_trim]
          rfl
        unfold locationOf
        rw [lastBy_of_nodup h.nodes hnode, hback]
        rfl
      · rfl
    unfold Inspector.collectNode Inspector.transfers
    rw [hrebuilt.draft, h.hasDraft, Option.map_some, Option.map_some, ← h.shown,
      fromGraph_connections, fromGraph_connections]
    dsimp only [Option.getD_none]
    rw [hloc]
    congr 3
    funext e
    exact edgeAction_relocate _ _ _ _ e

/-- The two fields of an edge, where the window shows the target at its place after the
    first. -/
theorem collectEdge_transfers (h : w.InStep graph draft) {edge : GraphEdge}
    (hedge : graph.edges.find? (·.id = edge.id) = some edge) {s : GraphNode S}
    (hs : s ∈ graph.nodes) (hsid : s.id = edge.source) {source target : Text}
    (hsource : fieldLocation source = s.location) {graph' : FlowGraph D S} {draft' : Flow}
    (h' : (w.collectNode order running edge.source source).InStep graph' draft')
    {t : GraphNode S} (ht : t ∈ graph'.nodes) (htid : t.id = edge.target)
    (htarget : fieldLocation target = t.location) :
    (w.collectEdge order order' running edge.id source target).transfers = w.transfers := by
  unfold Inspector.collectEdge
  rw [h.hasGraph, Option.bind_some, hedge]
  show ((w.collectNode order running edge.source source).collectNode order' running edge.target
    target).transfers = _
  rw [← htid, collectNode_transfers h' ht htarget, ← hsid]
  exact collectNode_transfers h hs hsource

end

-- ============================================================================
-- Locations that come back
-- ============================================================================

/-- The text of a location is read as the location, and a save that takes it from the field of
    a node there changes no transfer. -/
structure ComesBack (remote path : Text) : Prop where
  text : fieldLocation (locationText remote path) = composePath remote path
  saved : ∀ (D S : Type) [CanvasJson D S] (order : IterationOrder S) (running : Bool)
    (w : Inspector D S) (graph : FlowGraph D S) (draft : Flow), w.InStep graph draft →
    ∀ node ∈ graph.nodes, node.remote = remote → node.path = path →
      (w.collectNode order running node.id (locationText remote path)).transfers = w.transfers

/-- A location comes back from its field exactly when it is kept. -/
theorem location_comes_back_iff (remote path : Text) :
    ComesBack remote path ↔ LocationKept remote path := by
  rw [← fieldLocation_locationText_iff]
  constructor
  · exact ComesBack.text
  · intro h
    refine ⟨h, fun D S _ order running w graph draft hstep node hnode hremote hpath => ?_⟩
    refine collectNode_transfers hstep hnode ?_
    rw [h, ← hremote, ← hpath]
    rfl

/-- A remote that is given in place loses its first colon: the operation goes to a folder of
    this machine from then on. -/
theorem remote_in_place_lost :
    composePath ":sftp,host=h".toList "/data".toList = ":sftp,host=h:/data".toList ∧
      fieldLocation (locationText ":sftp,host=h".toList "/data".toList) =
        "sftp,host=h:/data".toList ∧
      ¬ComesBack ":sftp,host=h".toList "/data".toList := by
  have hcompose : composePath ":sftp,host=h".toList "/data".toList =
      ":sftp,host=h:/data".toList := by decide
  have hfield : fieldLocation (locationText ":sftp,host=h".toList "/data".toList) =
      "sftp,host=h:/data".toList := by decide
  refine ⟨hcompose, hfield, fun h => ?_⟩
  have htext := h.text
  rw [hcompose, hfield] at htext
  exact absurd htext (by decide)

end GnDrive.Gpui
