/-
  GnDrive.Gpui.Graph

  A flow's operations and the graph on its canvas (`graph.rs` of the window).

  `to_graph` draws an edge for each operation between the nodes of its locations,
  which it takes from the stored canvas or adds; `from_graph` makes operations and
  a canvas of the graph again.  Both look nodes up in hash maps: a later node takes
  the place of an earlier one under its key or its id.

  The canvas text, its numbers and the order in which a hash map is gone through
  are parameters.
-/

import GnDrive.Gpui.SyncConfig
import GnDrive.Lib.Keyed

namespace GnDrive.Gpui

open Keyed (distinct lastBy under)
open Rpc (Json JsonDict)
open Text (trim)

-- ============================================================================
-- The canvas
-- ============================================================================

structure Viewport (N : Type) where
  x : N
  y : N
  zoom : N
deriving DecidableEq

structure CanvasLocation (N : Type) where
  id : Text
  remote : Text
  path : Text
  label : Text
  x : N
  y : N
deriving DecidableEq

/-- `N` is the type of its numbers. -/
structure CanvasModel (N : Type) where
  viewport : Viewport N
  nodes : List (CanvasLocation N)
deriving DecidableEq

section

variable {N M : Type}

def Viewport.map (f : N → M) (v : Viewport N) : Viewport M := ⟨f v.x, f v.y, f v.zoom⟩

def CanvasLocation.map (f : N → M) (n : CanvasLocation N) : CanvasLocation M :=
  ⟨n.id, n.remote, n.path, n.label, f n.x, f n.y⟩

def CanvasModel.map (f : N → M) (c : CanvasModel N) : CanvasModel M :=
  ⟨c.viewport.map f, c.nodes.map (CanvasLocation.map f)⟩

def CanvasModel.numbers (c : CanvasModel N) : List N :=
  [c.viewport.x, c.viewport.y, c.viewport.zoom] ++ c.nodes.flatMap fun n => [n.x, n.y]

end

theorem CanvasModel.map_map {A B C : Type} (f : A → B) (g : B → C) (c : CanvasModel A) :
    (c.map f).map g = c.map (g ∘ f) := by
  unfold CanvasModel.map
  rw [List.map_map]
  rfl

theorem CanvasModel.map_congr {A B : Type} {f g : A → B} {c : CanvasModel A} :
    c.map f = c.map g ↔ ∀ a ∈ c.numbers, f a = g a := by
  obtain ⟨⟨x, y, zoom⟩, nodes⟩ := c
  simp only [CanvasModel.map, CanvasModel.mk.injEq, Viewport.map, Viewport.mk.injEq,
    CanvasModel.numbers, List.map_inj_left, CanvasLocation.map, CanvasLocation.mk.injEq, true_and,
    List.mem_append, List.mem_flatMap]
  constructor
  · rintro ⟨⟨hx, hy, hzoom⟩, hnodes⟩ a (ha | ⟨n, hn, ha⟩)
    · simp only [List.mem_cons, List.not_mem_nil, or_false] at ha
      rcases ha with rfl | rfl | rfl
      · exact hx
      · exact hy
      · exact hzoom
    · simp only [List.mem_cons, List.not_mem_nil, or_false] at ha
      rcases ha with rfl | rfl
      · exact (hnodes n hn).1
      · exact (hnodes n hn).2
  · intro h
    exact ⟨⟨h x (by simp), h y (by simp), h zoom (by simp)⟩, fun n hn =>
      ⟨h n.x (.inr ⟨n, hn, by simp⟩), h n.y (.inr ⟨n, hn, by simp⟩)⟩⟩

theorem CanvasModel.numbers_map {A B : Type} (f : A → B) (c : CanvasModel A) :
    (c.map f).numbers = c.numbers.map f := by
  unfold CanvasModel.numbers CanvasModel.map
  rw [List.map_append, List.flatMap_map, List.map_flatMap]
  rfl

theorem CanvasModel.map_id {A : Type} (c : CanvasModel A) : c.map id = c := by
  have hnodes : ∀ n ∈ c.nodes, CanvasLocation.map id n = id n := fun _ _ => rfl
  unfold CanvasModel.map
  rw [List.map_congr_left hnodes, List.map_id]
  rfl

/-- 64-bit floats `D` and 32-bit floats `S`, and the text of the canvas.  A number
    is written as `text` and read by `number`, to which `null`, what is written for
    infinity, is none; a canvas with such a number is not read at all.  `rereads`:
    reading is exact enough to tell 32-bit floats apart. -/
class CanvasJson (D S : Type) where
  toSingle : D → S
  toDouble : S → D
  /-- `0.0`, to which `1.0` was added so many times, times `COL_GAP`. -/
  columnX : Nat → S
  /-- The index as a float, times `ROW_GAP`. -/
  rowY : Nat → S
  /-- `0.0`, to which `1.0` was added so many times, times `ROW_GAP`. -/
  extraY : Nat → S
  COL_GAP : S
  viewport : Viewport D
  text : D → Text
  number : Text → Option D
  parse : Text → CanvasModel D
  serialize : CanvasModel D → Text
  rereads : ∀ s d, number (text (toDouble s)) = some d → toSingle d = s
  number_viewport : ∀ d ∈ [viewport.x, viewport.y, viewport.zoom], (number (text d)).isSome
  number_layout : ∀ i, (number (text (toDouble (columnX i)))).isSome ∧
    (number (text (toDouble (rowY i)))).isSome
  number_extra : (number (text (toDouble COL_GAP))).isSome ∧
    ∀ i, (number (text (toDouble (extraY i)))).isSome
  serialize_inj : ∀ c c', serialize c = serialize c' ↔ c.map text = c'.map text
  parse_serialize : ∀ c c' : CanvasModel D,
    (c.map text).map number = c'.map some → parse (serialize c) = c'
  parse_null : ∀ c : CanvasModel D, (∃ d ∈ c.numbers, number (text d) = none) →
    parse (serialize c) = ⟨viewport, []⟩

-- ============================================================================
-- Operations and graphs
-- ============================================================================

structure Operation where
  id : Text
  flowId : Text
  sourceRemote : Text
  sourcePath : Text
  targetRemote : Text
  targetPath : Text
  action : Text
  syncConfig : JsonDict
  isExpanded : Bool
  sortOrder : Int

/-- A flow, as far as its graph is concerned. -/
structure Flow where
  operations : List Operation
  canvasJson : Text

structure GraphNode (S : Type) where
  id : Text
  remote : Text
  path : Text
  label : Text
  x : S
  y : S
deriving DecidableEq

structure GraphEdge where
  id : Text
  source : Text
  target : Text
  action : Text
  operation : Operation

structure FlowGraph (D S : Type) where
  nodes : List (GraphNode S)
  edges : List GraphEdge
  viewport : Viewport D

def NUL : Char := Char.ofNat 0

def normalizePath (path : Text) : Text := if trim path = [] then ['/'] else trim path

def locationKey (remote path : Text) : Text := trim remote ++ NUL :: normalizePath path

/-- FNV-1a, 32 bits. -/
def stableNodeId (key : Text) : Text :=
  let hash := (key.flatMap String.utf8EncodeChar).foldl
    (fun (h : UInt32) b => (h ^^^ b.toUInt32) * 16777619) 2166136261
  "n_".toList ++ Nat.toDigits 16 hash.toNat

def GraphNode.key {S : Type} (n : GraphNode S) : Text := locationKey n.remote n.path

namespace Operation

def sourceKey (op : Operation) : Text := locationKey op.sourceRemote op.sourcePath

def targetKey (op : Operation) : Text := locationKey op.targetRemote op.targetPath

end Operation

/-- The order in which the values of a hash map come. -/
structure IterationOrder (S : Type) where
  order : List (GraphNode S) → List (GraphNode S)
  perm : ∀ l, (order l).Perm l

section

variable {D S : Type} [CanvasJson D S]

-- ============================================================================
-- From operations to a graph
-- ============================================================================

/-- The columns and the nodes that were placed. -/
structure Layout (S : Type) where
  columns : List (Text × Nat)
  nodes : List (GraphNode S)

variable (D) in
/-- `place` -/
def Layout.place (l : Layout S) (remote path : Text) (col row : Nat) : Layout S :=
  let key := locationKey remote path
  if l.nodes.any (·.key = key) then l
  else
    { l with nodes := l.nodes ++ [{
        id := stableNodeId key
        remote := trim remote
        path := normalizePath path
        label := []
        x := CanvasJson.columnX D col
        y := CanvasJson.rowY D row }] }

/-- `columns.entry(key).or_insert(col)` -/
def Layout.column (l : Layout S) (key : Text) (col : Nat) : Layout S :=
  match l.columns.lookup key with
  | some _ => l
  | none => { l with columns := (key, col) :: l.columns }

variable (D) in
/-- A target sits one column right of its source. -/
def Layout.layOp (l : Layout S) (op : Operation) (row : Nat) : Layout S :=
  let l := l.column op.sourceKey 0
  let sourceCol := (l.columns.lookup op.sourceKey).getD 0
  let l := l.place D op.sourceRemote op.sourcePath sourceCol row
  let targetCol := (l.columns.lookup op.targetKey).getD (sourceCol + 1)
  let l := l.column op.targetKey targetCol
  l.place D op.targetRemote op.targetPath targetCol row

variable (D S) in
/-- The nodes of `default_layout`; they become nodes of the graph as they are. -/
def defaultLayout (ops : List Operation) : List (GraphNode S) :=
  (ops.zipIdx.foldl (fun (l : Layout S) (op, row) => l.layOp D op row) ⟨[], []⟩).nodes

/-- A stored node; without an id it gets the one of its location. -/
def storedNode (n : CanvasLocation D) : GraphNode S where
  id := if n.id = [] then stableNodeId (locationKey n.remote n.path) else n.id
  remote := n.remote
  path := normalizePath n.path
  label := n.label
  x := CanvasJson.toSingle n.x
  y := CanvasJson.toSingle n.y

variable (D) in
/-- A node for a location that has none, the key being cut at its first NUL. -/
def extraNode (key : Text) (extra : Nat) : GraphNode S where
  id := stableNodeId key
  remote := key.takeWhile (· ≠ NUL)
  path := (key.dropWhile (· ≠ NUL)).tail
  label := []
  x := CanvasJson.COL_GAP D
  y := CanvasJson.extraY D extra

variable (D) in
/-- The nodes that were inserted so far, and how many of them were missing. -/
def addMissing (acc : List (GraphNode S) × Nat) (key : Text) : List (GraphNode S) × Nat :=
  match lastBy GraphNode.key acc.1 key with
  | some _ => acc
  | none => (acc.1 ++ [extraNode D key acc.2], acc.2 + 1)

def needed (ops : List Operation) : List Text :=
  distinct (ops.flatMap fun op => [op.sourceKey, op.targetKey])

variable (D) in
/-- What is inserted into the two maps, in this order. -/
def inserted (stored : List (GraphNode S)) (ops : List Operation) : List (GraphNode S) :=
  if stored.isEmpty && !ops.isEmpty then stored ++ defaultLayout D S ops
  else ((needed ops).foldl (addMissing D) (stored, 0)).1

def toEdge (all : List (GraphNode S)) (op : Operation) : Option GraphEdge :=
  match lastBy GraphNode.key all op.sourceKey, lastBy GraphNode.key all op.targetKey with
  | some source, some target =>
      some ⟨op.id, source.id, target.id, normalizeAction op.action, op⟩
  | _, _ => none

/-- The values of the map by id. -/
def idValues (all : List (GraphNode S)) : List (GraphNode S) :=
  under GraphNode.id all (distinct (all.map GraphNode.id))

/-- The stored order where possible. -/
def keptNodes (order : IterationOrder S) (stored all : List (GraphNode S)) : List (GraphNode S) :=
  under GraphNode.id all (distinct (stored.map GraphNode.id)) ++
    (order.order (idValues all)).filter fun n => !(stored.map GraphNode.id).contains n.id

variable (D S) in
def storedNodes (flow : Flow) : List (GraphNode S) :=
  (CanvasJson.parse (D := D) S flow.canvasJson).nodes.map storedNode

def toGraph (order : IterationOrder S) (flow : Flow) : FlowGraph D S :=
  let stored : List (GraphNode S) := storedNodes D S flow
  let all := inserted D stored flow.operations
  { nodes := keptNodes order stored all
    edges := flow.operations.filterMap (toEdge all)
    viewport := (CanvasJson.parse (D := D) S flow.canvasJson).viewport }

-- ============================================================================
-- From a graph to operations
-- ============================================================================

/-- The operation of an edge between two nodes. -/
def redrawn (previous : List Operation) (edge : GraphEdge) (source target : GraphNode S)
    (sortOrder : Nat) : Operation :=
  let op := (lastBy Operation.id previous edge.id).getD edge.operation
  let action := if edge.action = [] then normalizeAction op.action else normalizeAction edge.action
  { op with
    id := edge.id
    sourceRemote := source.remote
    sourcePath := normalizePath source.path
    targetRemote := target.remote
    targetPath := normalizePath target.path
    action
    syncConfig := op.syncConfig.insert ACTION (.string action)
    sortOrder }

/-- An edge whose nodes are there, with them. -/
def endpoints (nodes : List (GraphNode S)) (edge : GraphEdge) :
    Option (GraphEdge × GraphNode S × GraphNode S) :=
  match lastBy GraphNode.id nodes edge.source, lastBy GraphNode.id nodes edge.target with
  | some source, some target => some (edge, source, target)
  | _, _ => none

def fromGraph (graph : FlowGraph D S) (previousOps : List Operation) : List Operation × Text :=
  let ops := (graph.edges.filterMap (endpoints graph.nodes)).mapIdx
    fun i (edge, source, target) => redrawn previousOps edge source target i
  let canvas : CanvasModel D :=
    { viewport := graph.viewport
      nodes := graph.nodes.map fun n =>
        ⟨n.id, n.remote, normalizePath n.path, n.label, CanvasJson.toDouble n.x,
          CanvasJson.toDouble n.y⟩ }
  (ops, CanvasJson.serialize S canvas)

end

end GnDrive.Gpui
