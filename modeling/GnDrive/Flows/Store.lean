/-
  GnDrive.Flows.Store

  Flows and their operations in the store (`models.rs`, `store.rs`): the two
  tables, `get_flow` with its two queries, and `save_flow`, one transaction
  that upserts the flow and replaces its operations.

  The column `sync_config` holds JSON text; the reader and the writer of that
  text are those of `serde_json`.
-/

import GnDrive.Rpc.Params
import Mathlib.Data.List.Sort

namespace GnDrive.Flows

open Text (trim)
open Rpc (Json JsonDict)

/-- `serde_json::to_string` and `serde_json::from_str`. -/
structure JsonText where
  toString : JsonDict → Text
  fromStr : Text → Option Json

/-! ## Models -/

structure FlowOperation where
  id : Text
  flowId : Text
  sourceRemote : Text
  sourcePath : Text
  targetRemote : Text
  targetPath : Text
  action : Text
  syncConfig : JsonDict
  isExpanded : Bool
  sortOrder : Int

namespace FlowAction

def isValid (d : Text) : Bool :=
  trim d ∈ ["push".toList, "bi".toList, "bi-resync".toList]

/-- Empty or legacy values (e.g. pull) → push. -/
def normalize (d : Text) : Text := if isValid (trim d) then trim d else "push".toList

theorem normalize_eq (a : Text) :
    normalize a =
      if trim a ∈ ["push".toList, "bi".toList, "bi-resync".toList] then trim a
      else "push".toList := by
  unfold normalize isValid
  rw [Text.trim_trim]
  by_cases h : trim a ∈ ["push".toList, "bi".toList, "bi-resync".toList]
  · rw [if_pos h, if_pos (decide_eq_true h)]
  · rw [if_neg h, if_neg fun hd => h (of_decide_eq_true hd)]

theorem normalize_mem (a : Text) :
    normalize a ∈ ["push".toList, "bi".toList, "bi-resync".toList] := by
  rw [normalize_eq]
  split
  · assumption
  · decide

theorem normalize_of_mem {a : Text} (h : a ∈ ["push".toList, "bi".toList, "bi-resync".toList]) :
    normalize a = a ∧ trim a ≠ [] := by
  simp only [List.mem_cons, List.not_mem_nil, or_false] at h
  rcases h with rfl | rfl | rfl
  · decide
  · decide
  · decide

end FlowAction

namespace FlowOperation

/-- Effective flow action (column or `sync_config.action`), normalized. -/
def resolvedAction (op : FlowOperation) : Text :=
  if trim op.action ≠ [] then FlowAction.normalize op.action
  else
    match op.syncConfig.get "action".toList with
    | some (.string a) => if trim a ≠ [] then FlowAction.normalize a else "push".toList
    | _ => "push".toList

/-- Keep action column and `sync_config.action` aligned. -/
def normalizeAction (op : FlowOperation) : FlowOperation :=
  { op with
    syncConfig := op.syncConfig.insert "action".toList (.string op.resolvedAction)
    action := op.resolvedAction }

/-- Every operation has an action of a flow. -/
theorem resolvedAction_mem (op : FlowOperation) :
    op.resolvedAction ∈ ["push".toList, "bi".toList, "bi-resync".toList] := by
  unfold resolvedAction
  split
  · exact FlowAction.normalize_mem _
  · split
    · split
      · exact FlowAction.normalize_mem _
      · decide
    · decide

theorem resolvedAction_of_ne {op : FlowOperation} (h : trim op.action ≠ []) :
    op.resolvedAction = FlowAction.normalize op.action := if_pos h

theorem resolvedAction_of_mem {op : FlowOperation}
    (h : op.action ∈ ["push".toList, "bi".toList, "bi-resync".toList]) :
    op.resolvedAction = op.action := by
  obtain ⟨hself, hblank⟩ := FlowAction.normalize_of_mem h
  rw [resolvedAction_of_ne hblank, hself]

theorem normalizeAction_normalizeAction (op : FlowOperation) :
    op.normalizeAction.normalizeAction = op.normalizeAction := by
  have haction : op.normalizeAction.resolvedAction = op.resolvedAction :=
    resolvedAction_of_mem op.resolvedAction_mem
  conv_lhs => rw [normalizeAction]
  rw [haction]
  unfold normalizeAction
  rw [JsonDict.insert_insert]

end FlowOperation

/-- The columns of a flow. -/
structure FlowRow where
  id : Text
  name : Text
  isCollapsed : Bool
  scheduleEnabled : Bool
  scheduleCron : Text
  sortOrder : Int
  canvasJson : Text
  createdAt : Text
  updatedAt : Text
deriving DecidableEq, Repr

structure Flow extends FlowRow where
  operations : List FlowOperation

/-- A row of the table `operations`. -/
structure OperationRow where
  id : Text
  flowId : Text
  sourceRemote : Text
  sourcePath : Text
  targetRemote : Text
  targetPath : Text
  action : Text
  syncConfig : Text
  isExpanded : Bool
  sortOrder : Int
deriving DecidableEq, Repr

structure Db where
  flows : List FlowRow
  operations : List OperationRow
deriving DecidableEq, Repr

inductive StoreError where
  | notFound
  | invalid (message : Text)
  | db (message : Text)
deriving DecidableEq, Repr

section

variable (J : JsonText)

-- ============================================================================
-- Reading
-- ============================================================================

def scanOperation (r : OperationRow) : FlowOperation :=
  let config := match J.fromStr r.syncConfig with
    | some (.object m) => if r.syncConfig = [] then [] else m
    | _ => []
  FlowOperation.normalizeAction
    { id := r.id, flowId := r.flowId, sourceRemote := r.sourceRemote, sourcePath := r.sourcePath
      targetRemote := r.targetRemote, targetPath := r.targetPath, action := r.action
      syncConfig := config, isExpanded := r.isExpanded, sortOrder := r.sortOrder }

/-- `ORDER BY sort_order, id`. -/
def OperationRow.before (a b : OperationRow) : Prop :=
  a.sortOrder < b.sortOrder ∨ a.sortOrder = b.sortOrder ∧ ¬ b.id < a.id

instance : DecidableRel OperationRow.before := fun a b => by
  unfold OperationRow.before
  infer_instance

def listOperations (db : Db) (flowId : Text) : List FlowOperation :=
  ((db.operations.filter (·.flowId = flowId)).insertionSort OperationRow.before).map
    (scanOperation J)

def scanFlow (r : FlowRow) : FlowRow :=
  { r with canvasJson := if r.canvasJson = [] then "\x7b\x7d".toList else r.canvasJson }

/-- The first query of `get_flow`. -/
def queryFlow (db : Db) (id : Text) : Option FlowRow := (db.flows.find? (·.id = id)).map scanFlow

/-- `get_flow`; the query of the operations is the second one. -/
def getFlow (db : Db) (id : Text) : Option Flow :=
  (queryFlow db id).map fun r => { r with operations := listOperations J db r.id }

-- ============================================================================
-- Writing
-- ============================================================================

/-- `INSERT INTO flows … ON CONFLICT(id) DO UPDATE`, at the time `now`. -/
def upsertFlow (now : Text) (f : FlowRow) (flows : List FlowRow) : List FlowRow :=
  let canvas := if f.canvasJson = [] then "\x7b\x7d".toList else f.canvasJson
  if flows.any (·.id = f.id) then
    flows.map fun r =>
      if r.id = f.id then { f with canvasJson := canvas, createdAt := r.createdAt, updatedAt := now }
      else r
  else
    flows ++ [{ f with
      canvasJson := canvas
      createdAt := if f.createdAt = [] then now else f.createdAt
      updatedAt := now }]

/-- `INSERT INTO operations` for the operations from the index `idx` on. -/
def insertOperations (flowId : Text) :
    Nat → List FlowOperation → List OperationRow → Except StoreError (List OperationRow)
  | _, [], rows => .ok rows
  | idx, src :: rest, rows =>
      if src.id = [] then .error (.invalid "flow: operation id is required".toList)
      else
        let op := FlowOperation.normalizeAction
          { src with
            flowId := flowId
            sortOrder := if src.sortOrder = 0 then idx else src.sortOrder }
        let row : OperationRow :=
          { id := op.id, flowId := flowId
            sourceRemote := op.sourceRemote
            sourcePath := if op.sourcePath = [] then "/".toList else op.sourcePath
            targetRemote := op.targetRemote
            targetPath := if op.targetPath = [] then "/".toList else op.targetPath
            action := op.action, syncConfig := J.toString op.syncConfig
            isExpanded := op.isExpanded, sortOrder := op.sortOrder }
        -- the id is the table's primary key
        if rows.any (·.id = row.id) then
          .error (.db "UNIQUE constraint failed: operations.id".toList)
        else insertOperations flowId (idx + 1) rest (rows ++ [row])

/-- Upsert a flow and replace its operations, at the time `now`; an error
    rolls back. -/
def saveFlow (now : Text) (f : Flow) (db : Db) : Except StoreError Db :=
  if f.id = [] then .error (.invalid "flow: id is required".toList)
  else do
    let kept := db.operations.filter (·.flowId ≠ f.id)
    let operations ← insertOperations J f.id 0 f.operations kept
    return { flows := upsertFlow now f.toFlowRow db.flows, operations }

/-- The operations go with their flow (`ON DELETE CASCADE`). -/
def deleteFlow (id : Text) (db : Db) : Except StoreError Db :=
  if db.flows.any (·.id = id) then
    .ok { flows := db.flows.filter (·.id ≠ id), operations := db.operations.filter (·.flowId ≠ id) }
  else .error .notFound

end

end GnDrive.Flows
