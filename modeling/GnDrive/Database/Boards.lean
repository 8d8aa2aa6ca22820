/-
  GnDrive.Database.Boards

  Boards in the store (`models.rs`, `store.rs`) and `boards.save`
  (`dispatcher.rs`): a board is written with all its nodes and edges in one
  transaction, and read again in the order of their ids (`load_saved`).
-/

import GnDrive.Board.Layers
import GnDrive.Database.ProfileRows

namespace GnDrive.Database

open Board (BoardNode BoardEdge)
open Flows (JsonText StoreError okOr storeError)
open Rclone (F64)
open Rpc (Json JsonDict RpcError bind_eq_ok)
open Text (trim)

/-! ## Models -/

/-- A node with all its columns. -/
structure GraphNode (F : Type) extends BoardNode where
  label : Text
  x : F
  y : F

/-- An edge with all its columns; the options are the text of a JSON object. -/
structure GraphEdge extends BoardEdge where
  syncConfig : Text

structure Board (F : Type) where
  id : Text
  name : Text
  createdAt : Text := []
  updatedAt : Text := []
  nodes : List (GraphNode F)
  edges : List GraphEdge

structure BoardRow where
  id : Text
  name : Text
  createdAt : Text
  updatedAt : Text

/-- The tables `boards`, `board_nodes` and `board_edges`; a node and an edge stand
    beside the id of their board. -/
structure BoardTables (F : Type) where
  boards : List BoardRow
  nodes : List (Text × GraphNode F)
  edges : List (Text × GraphEdge)

section

variable {F : Type} [SqlReal F] (J : JsonText)

-- ============================================================================
-- Reading
-- ============================================================================

/-- The rows of a board, `ORDER BY id`. -/
def selectRows {α : Type} (id : α → Text) (boardId : Text) (rows : List (Text × α)) : List α :=
  ((rows.filter (·.1 = boardId)).map (·.2)).insertionSort fun a b => id a ≤ id b

/-- The options, or an object without members. -/
def GraphEdge.filled (e : GraphEdge) : GraphEdge :=
  { e with syncConfig := if e.syncConfig = [] then "\x7b\x7d".toList else e.syncConfig }

def loadBoardGraph (db : BoardTables F) (id : Text) : Option (Board F) :=
  (db.boards.find? (·.id = id)).map fun r =>
    { id := r.id, name := r.name, createdAt := r.createdAt, updatedAt := r.updatedAt
      nodes := selectRows (·.id) id db.nodes
      edges := (selectRows (·.id) id db.edges).map GraphEdge.filled }

-- ============================================================================
-- Writing
-- ============================================================================

/-- `INSERT INTO boards … ON CONFLICT(id) DO UPDATE`, at the time `now`. -/
def upsertBoard (now : Text) (b : Board F) (boards : List BoardRow) : List BoardRow :=
  if boards.any (·.id = b.id) then
    boards.map fun r => if r.id = b.id then { r with name := b.name, updatedAt := now } else r
  else boards ++ [{ id := b.id, name := b.name, createdAt := now, updatedAt := now }]

/-- `INSERT INTO` a table with the primary key `(board_id, id)`; `null` is a column of
    the row that is `NOT NULL` and would be. -/
def insertRows {α : Type} (table : Text) (id : α → Text) (null : α → Option Text)
    (boardId : Text) : List α → List (Text × α) → Except StoreError (List (Text × α))
  | [], rows => .ok rows
  | a :: rest, rows =>
      match null a with
      | some column =>
          .error (.db ("NOT NULL constraint failed: ".toList ++ table ++ ".".toList ++ column))
      | none =>
          if rows.any fun r => r.1 = boardId ∧ id r.2 = id a then
            .error (.db ("UNIQUE constraint failed: ".toList ++ table ++ ".board_id, ".toList ++
              table ++ ".id".toList))
          else insertRows table id null boardId rest (rows ++ [(boardId, a)])

/-- SQLite has no NaN: it is bound as `NULL`. -/
def nullCoordinate (n : GraphNode F) : Option Text :=
  if SqlReal.isNaN n.x then some "x".toList
  else if SqlReal.isNaN n.y then some "y".toList
  else none

/-- Upsert a board and replace its nodes and edges, at the time `now`; an error
    rolls back. -/
def saveBoardGraph (now : Text) (b : Board F) (db : BoardTables F) :
    Except StoreError (BoardTables F) := do
  let nodes ← insertRows "board_nodes".toList (·.id) nullCoordinate b.id b.nodes
    (db.nodes.filter (·.1 ≠ b.id))
  let edges ← insertRows "board_edges".toList (·.id) (fun _ => none) b.id
    (b.edges.map GraphEdge.filled) (db.edges.filter (·.1 ≠ b.id))
  return { boards := upsertBoard now b db.boards, nodes, edges }

-- ============================================================================
-- The request
-- ============================================================================

/-- `json::double_value`. -/
def doubleValue : Json → Option F
  | .number n => some (F64.ofNumber n)
  | .string s => F64.parse (trim s)
  | _ => none

def parseNode (nd : JsonDict) : Except RpcError (GraphNode F) := do
  let coord (k : Text) : F := ((nd.any? k).bind doubleValue).getD F64.zero
  let id ← nd.string "id".toList
  let remoteName ← nd.string "remoteName".toList
  let path ← nd.string "path".toList
  let label ← nd.string "label".toList
  return {
    id := id.getD [], remoteName := remoteName.getD [], path := path.getD []
    label := label.getD [], x := coord "x".toList, y := coord "y".toList }

def parseEdge (ed : JsonDict) : Except RpcError GraphEdge := do
  let syncConfig ← match ← ed.dict "syncConfig".toList with
    | some cfg => pure (J.toString cfg)
    | none =>
        match ← ed.string "syncConfig".toList with
        | some (c :: cs) => pure (c :: cs)
        | _ => pure "\x7b\x7d".toList
  let id ← ed.string "id".toList
  let sourceId ← ed.string "sourceID".toList
  let targetId ← ed.string "targetID".toList
  let action ← ed.string "action".toList
  return {
    id := id.getD [], sourceId := sourceId.getD [], targetId := targetId.getD []
    action := action.getD [], syncConfig }

/-- The objects of an array, none where the key is not there. -/
def parseAll {α : Type} (key : Text) (parse : JsonDict → Except RpcError α) :
    Option (List Json) → Except RpcError (List α)
  | none => .ok []
  | some raw =>
      raw.mapM fun
        | .object d => parse d
        | _ => .error (.invalidParams key none)

def parseBoard (d : JsonDict) : Except RpcError (Board F) := do
  let nodes ← parseAll "nodes".toList parseNode (← d.array "nodes".toList)
  let edges ← parseAll "edges".toList (parseEdge J) (← d.array "edges".toList)
  let id ← d.string "id".toList
  let name ← d.string "name".toList
  return { id := id.getD [], name := name.getD [], nodes, edges }

def blank (s : Text) : Bool := s.all fun c => c = ' ' || c = '\t'

/-- New ids for the edges without one, in order. -/
def nameEdges : List Text → List GraphEdge → List GraphEdge
  | _, [] => []
  | uuids, e :: rest =>
      if e.id = [] then { e with id := uuids.headD [] } :: nameEdges uuids.tail rest
      else e :: nameEdges uuids rest

/-- `boards.save`, with the ids `new_uuid` gives it and the time of its save; the
    answer is the board as the store has it then. -/
def boardsSave (params : JsonDict) (uuids : List Text) (now : Text) (db : BoardTables F) :
    Except RpcError (BoardTables F × Board F) := do
  match ← params.dict "board".toList with
  | none => .error (.invalidParams "board".toList none)
  | some raw =>
      let board ← parseBoard J raw
      if blank board.id then .error (.invalidParams "board.id".toList none)
      else if blank board.name then .error (.invalidParams "board.name".toList none)
      else match board.nodes.findIdx? (·.id = []) with
        | some i =>
            .error (.invalidParams
              ("board.nodes[".toList ++ (toString i).toList ++ "].id".toList) none)
        | none =>
            let board := { board with edges := nameEdges uuids board.edges }
            let db ← (saveBoardGraph now board db).mapError storeError
            let saved ← okOr (loadBoardGraph db board.id) (storeError .notFound)
            return (db, saved)

end

-- ============================================================================
-- A saved board
-- ============================================================================

section

variable {F : Type} [SqlReal F] {J : JsonText} {params : JsonDict} {uuids : List Text}
  {now : Text} {b saved : Board F} {db db' : BoardTables F}

theorem insertRows_ok {α : Type} {table boardId : Text} {id : α → Text} {null : α → Option Text}
    {news : List α} {rows rows' : List (Text × α)}
    (h : insertRows table id null boardId news rows = .ok rows') :
    rows' = rows ++ news.map fun a => (boardId, a) := by
  induction news generalizing rows with
  | nil =>
    obtain rfl := Except.ok.inj h
    simp
  | cons a rest ih =>
    unfold insertRows at h
    cases hnull : null a with
    | some column =>
      rw [hnull] at h
      cases h
    | none =>
      rw [hnull] at h
      dsimp only at h
      split at h
      · cases h
      · rw [ih h, List.append_assoc, List.map_cons, List.singleton_append]

/-- The rows of other boards are left alone, those of the board are the new ones. -/
theorem selectRows_replaced {α : Type} (id : α → Text) (boardId : Text) (rows : List (Text × α))
    (news : List α) :
    selectRows id boardId (rows.filter (·.1 ≠ boardId) ++ news.map fun a => (boardId, a)) =
      news.insertionSort fun a b => id a ≤ id b := by
  have hold : (rows.filter (·.1 ≠ boardId)).filter (·.1 = boardId) = [] := by
    rw [List.filter_eq_nil_iff]
    intro r hr heq
    have hne := of_decide_eq_true (List.mem_filter.mp hr).2
    exact hne (of_decide_eq_true heq)
  have hnew : (news.map fun a => (boardId, a)).filter (·.1 = boardId) =
      news.map fun a => (boardId, a) := by
    rw [List.filter_eq_self]
    intro r hr
    obtain ⟨a, -, rfl⟩ := List.mem_map.mp hr
    exact decide_eq_true rfl
  unfold selectRows
  rw [List.filter_append, hold, hnew, List.nil_append, List.map_map]
  exact congrArg _ (List.map_id news)

omit [SqlReal F] in
theorem find?_upsertBoard (now : Text) (b : Board F) (boards : List BoardRow) :
    ∃ created, (upsertBoard now b boards).find? (·.id = b.id) =
      some { id := b.id, name := b.name, createdAt := created, updatedAt := now } := by
  unfold upsertBoard
  by_cases hany : boards.any (·.id = b.id) = true
  · rw [if_pos hany, List.find?_map]
    have hids : ((fun r : BoardRow => decide (r.id = b.id)) ∘ fun r =>
        if r.id = b.id then { r with name := b.name, updatedAt := now } else r) =
          fun r => decide (r.id = b.id) := by
      funext r
      by_cases hr : r.id = b.id
      · simp [hr]
      · simp [hr]
    rw [hids]
    cases hfind : boards.find? fun r => decide (r.id = b.id) with
    | none =>
      obtain ⟨r, hr, hid⟩ := List.any_eq_true.mp hany
      exact absurd hid (List.find?_eq_none.mp hfind r hr)
    | some r =>
      have hr : r.id = b.id := by simpa using List.find?_some hfind
      refine ⟨r.createdAt, ?_⟩
      rw [Option.map_some, if_pos hr, ← hr]
  · have hnone : boards.find? (fun r => decide (r.id = b.id)) = none :=
      List.find?_eq_none.mpr fun r hr hid => hany (List.any_eq_true.mpr ⟨r, hr, hid⟩)
    refine ⟨now, ?_⟩
    rw [if_neg hany, List.find?_append, hnone]
    simp

theorem GraphEdge.filled_filled (e : GraphEdge) : e.filled.filled = e.filled := by
  unfold filled
  by_cases h : e.syncConfig = []
  · rw [if_pos h]
    rfl
  · rw [if_neg h, if_neg h]

/-- A board is loaded as it was saved, its nodes and edges in the order of their ids. -/
theorem load_saved (h : saveBoardGraph now b db = .ok db') :
    ∃ created, loadBoardGraph db' b.id =
      some { b with
        createdAt := created
        updatedAt := now
        nodes := b.nodes.insertionSort fun m n => m.id ≤ n.id
        edges := (b.edges.map GraphEdge.filled).insertionSort fun d e => d.id ≤ e.id } := by
  unfold saveBoardGraph at h
  obtain ⟨nodes, hnodes, h⟩ := bind_eq_ok h
  obtain ⟨edges, hedges, h⟩ := bind_eq_ok h
  obtain rfl := Except.ok.inj h
  obtain ⟨created, hboard⟩ := find?_upsertBoard now b db.boards
  refine ⟨created, ?_⟩
  unfold loadBoardGraph
  rw [insertRows_ok hnodes, insertRows_ok hedges, hboard]
  dsimp only [Option.map_some]
  rw [selectRows_replaced, selectRows_replaced]
  congr 2
  -- a text that is there is read as it is
  have hfixed : ∀ e ∈ (b.edges.map GraphEdge.filled).insertionSort fun d e => d.id ≤ e.id,
      e.filled = id e := by
    intro e he
    obtain ⟨d, -, rfl⟩ := List.mem_map.mp ((List.mem_insertionSort _).mp he)
    exact d.filled_filled
  rw [List.map_congr_left hfixed, List.map_id]

/-- `boards.save` answers with the board it has saved. -/
theorem boardsSave_answer (h : boardsSave J params uuids now db = .ok (db', saved)) :
    ∃ b created, saveBoardGraph now b db = .ok db' ∧
      saved = { b with
        createdAt := created
        updatedAt := now
        nodes := b.nodes.insertionSort fun m n => m.id ≤ n.id
        edges := (b.edges.map GraphEdge.filled).insertionSort fun d e => d.id ≤ e.id } := by
  unfold boardsSave at h
  obtain ⟨raw, -, h⟩ := bind_eq_ok h
  cases raw with
  | none => cases h
  | some raw =>
    obtain ⟨b, -, h⟩ := bind_eq_ok h
    split at h
    · cases h
    split at h
    · cases h
    split at h
    · cases h
    obtain ⟨db₁, hsave, h⟩ := bind_eq_ok h
    obtain ⟨loaded, hload, h⟩ := bind_eq_ok h
    cases hsaved : saveBoardGraph now { b with edges := nameEdges uuids b.edges } db with
    | error e =>
      rw [hsaved] at hsave
      cases hsave
    | ok db₂ =>
      rw [hsaved] at hsave
      obtain rfl := Except.ok.inj hsave
      obtain ⟨created, hboard⟩ := load_saved hsaved
      rw [hboard] at hload
      obtain rfl := Except.ok.inj hload
      obtain ⟨rfl, rfl⟩ := Prod.mk.inj (Except.ok.inj h)
      exact ⟨_, created, hsaved, rfl⟩

end

end GnDrive.Database
