/-
  GnDrive.Flows.Requests

  The requests that change a flow (`dispatcher.rs`): `operations.create`,
  `operations.update`, `operations.delete`, `operations.reorder` and
  `flows.save`.

  The four on operations load the flow, edit its list in memory and write the
  whole flow back; `edit` is that change of the loaded flow.  `handle` is a
  request that nobody interrupts: load, edit, save.
-/

import GnDrive.Flows.Store

namespace GnDrive.Flows

open Rpc (Json JsonDict RpcError)

section

variable (J : JsonText)

-- ============================================================================
-- Parsing
-- ============================================================================

def parseOperation (d : JsonDict) (flowId : Text) : Except RpcError FlowOperation := do
  let syncConfig ← match ← d.dict "syncConfig".toList with
    | some cfg => pure cfg
    | none =>
        match ← d.string "syncConfig".toList with
        | some s =>
            match J.fromStr s with
            | some (.object m) => pure m
            | _ => pure []
        | none => pure []
  let id ← d.string "id".toList
  let sourceRemote ← d.string "sourceRemote".toList
  let sourcePath ← d.string "sourcePath".toList
  let targetRemote ← d.string "targetRemote".toList
  let targetPath ← d.string "targetPath".toList
  let action ← d.string "action".toList
  let isExpanded ← d.bool "isExpanded".toList
  let sortOrder ← d.int "sortOrder".toList
  return FlowOperation.normalizeAction
    { id := id.getD [], flowId
      sourceRemote := sourceRemote.getD [], sourcePath := sourcePath.getD "/".toList
      targetRemote := targetRemote.getD [], targetPath := targetPath.getD "/".toList
      action := action.getD [], syncConfig
      isExpanded := isExpanded.getD false, sortOrder := sortOrder.getD 0 }

def parseFlow (p : JsonDict) : Except RpcError Flow := do
  let id := (← p.string "id".toList).getD []
  let canvasJson ← match ← p.string "canvasJSON".toList with
    | some (c :: cs) => pure (c :: cs)
    | _ => do
        let canvas ← p.dict "canvas".toList
        pure ((canvas.map J.toString).getD "\x7b\x7d".toList)
  let operations ← match ← p.array "operations".toList with
    | none => pure []
    | some ops =>
        ops.mapM fun
          | .object od => parseOperation J od id
          | _ => .error (RpcError.invalidParams "operations".toList none)
  let name ← p.string "name".toList
  let isCollapsed ← p.bool "isCollapsed".toList
  let scheduleEnabled ← p.bool "scheduleEnabled".toList
  let scheduleCron ← p.string "scheduleCron".toList
  let sortOrder ← p.int "sortOrder".toList
  return {
    id, name := name.getD [], isCollapsed := isCollapsed.getD false
    scheduleEnabled := scheduleEnabled.getD false, scheduleCron := scheduleCron.getD []
    sortOrder := sortOrder.getD 0, canvasJson, createdAt := [], updatedAt := [], operations }

/-- `json::operation`. -/
def operationJson (op : FlowOperation) : JsonDict :=
  [("id".toList, .string op.id), ("flowID".toList, .string op.flowId),
    ("sourceRemote".toList, .string op.sourceRemote),
    ("sourcePath".toList, .string op.sourcePath),
    ("targetRemote".toList, .string op.targetRemote),
    ("targetPath".toList, .string op.targetPath),
    ("action".toList, .string op.resolvedAction),
    ("syncConfig".toList, .object op.syncConfig),
    ("isExpanded".toList, .bool op.isExpanded),
    ("sortOrder".toList, .number (.int op.sortOrder))]

-- ============================================================================
-- The edits
-- ============================================================================

inductive Method where
  | operationsCreate
  | operationsUpdate
  | operationsDelete
  | operationsReorder
  | flowsSave
deriving DecidableEq, Repr

/-- A request, with the ids `new_uuid` gives it and the time of its save. -/
structure Request where
  method : Method
  params : JsonDict
  uuids : List Text
  now : Text

namespace Request

/-- The flow a request on operations loads, once its parameters are read. -/
def flowId (r : Request) : Except RpcError Text := do
  let id ← r.params.requireString "flowID".toList
  match r.method with
  | .operationsCreate =>
      match ← r.params.dict "operation".toList with
      | none => .error (.invalidParams "operation".toList none)
      | some _ => return id
  | .operationsUpdate =>
      let _ ← r.params.requireString "operationID".toList
      match ← r.params.dict "patch".toList with
      | none => .error (.invalidParams "patch".toList none)
      | some _ => return id
  | .operationsDelete =>
      let _ ← r.params.requireString "operationID".toList
      return id
  | .operationsReorder =>
      let _ ← r.params.stringArray "operationIDs".toList
      return id
  | .flowsSave => return id

end Request

/-- `ok_or`. -/
def okOr {α : Type} (o : Option α) (e : RpcError) : Except RpcError α := o.elim (.error e) .ok

def operationNotFound (opId : Text) : RpcError :=
  .new "operation_not_found" ("operation ".toList ++ opId ++ " not found".toList)

/-- `operations.create`: the new operation comes last. -/
def createOperation (raw : JsonDict) (uuid : Text) (flow : Flow) : Except RpcError Flow := do
  let op ← parseOperation J raw flow.id
  let op := { op with
    id := if op.id = [] then uuid else op.id
    sortOrder := (flow.operations.map FlowOperation.sortOrder).max?.getD (-1) + 1 }
  return { flow with operations := flow.operations ++ [op.normalizeAction] }

/-- `operations.update`: the patch over the operation as it is. -/
def updateOperation (opId : Text) (patch : JsonDict) (flow : Flow) : Except RpcError Flow := do
  let old ← okOr (flow.operations.find? (·.id = opId)) (operationNotFound opId)
  let fixed : List Text := ["id".toList, "flowID".toList, "sortOrder".toList]
  let merged := (patch.filter fun kv => !fixed.contains kv.1).foldl
    (fun m kv => m.insert kv.1 kv.2) (operationJson old)
  let op ← parseOperation J merged flow.id
  let op := { op with id := opId, sortOrder := old.sortOrder }
  let idx := flow.operations.findIdx (·.id = opId)
  return { flow with operations := flow.operations.set idx op.normalizeAction }

/-- `operations.delete`: the others are numbered afresh. -/
def deleteOperation (opId : Text) (flow : Flow) : Except RpcError Flow :=
  if flow.operations.any (·.id = opId) then
    let kept := flow.operations.filter (·.id ≠ opId)
    .ok { flow with operations := kept.mapIdx fun i op => { op with sortOrder := i } }
  else .error (operationNotFound opId)

/-- `operations.reorder`: the ids must be those of the flow's operations. -/
def reorderOperations (ids : List Text) (flow : Flow) : Except RpcError Flow :=
  let existing := flow.operations.map (·.id)
  if ids.length ≠ flow.operations.length ∨ ¬ ids.Nodup ∨
      ¬ (ids.all existing.contains ∧ existing.all ids.contains) then
    .error (.invalidParams "operationIDs".toList
      (some "operationIDs must be a permutation of the flow's operations".toList))
  else do
    let reordered ← ids.mapM fun id =>
      okOr (flow.operations.find? (·.id = id)) (.invalidParams "operationIDs".toList none)
    return { flow with operations := reordered.mapIdx fun i op => { op with sortOrder := i } }

/-- What a request makes of the flow it has loaded. -/
def edit (r : Request) (flow : Flow) : Except RpcError Flow := do
  match r.method with
  | .operationsCreate =>
      createOperation J ((← r.params.dict "operation".toList).getD []) (r.uuids.headD []) flow
  | .operationsUpdate =>
      updateOperation J (← r.params.requireString "operationID".toList)
        ((← r.params.dict "patch".toList).getD []) flow
  | .operationsDelete =>
      deleteOperation (← r.params.requireString "operationID".toList) flow
  | .operationsReorder =>
      reorderOperations ((← r.params.stringArray "operationIDs".toList).getD []) flow
  | .flowsSave => return flow

/-- New ids for the operations without one, in order. -/
def nameOperations (flowId : Text) :
    Nat → List Text → List FlowOperation → List FlowOperation
  | _, _, [] => []
  | i, uuids, op :: rest =>
      let fresh := op.id = []
      let op := { op with
        id := if fresh then uuids.headD [] else op.id
        flowId := flowId
        sortOrder := if op.sortOrder = 0 then i else op.sortOrder }
      op.normalizeAction :: nameOperations flowId (i + 1) (if fresh then uuids.tail else uuids) rest

/-- The flow a `flows.save` brings. -/
def savedFlow (r : Request) : Except RpcError Flow := do
  match ← r.params.dict "flow".toList with
  | none => .error (.invalidParams "flow".toList none)
  | some raw =>
      let flow ← parseFlow J raw
      if flow.id = [] then .error (.invalidParams "flow.id".toList none)
      else return { flow with operations := nameOperations flow.id 0 r.uuids flow.operations }

-- ============================================================================
-- One request at a time
-- ============================================================================

/-- `RpcError::from(StoreError)`. -/
def storeError : StoreError → RpcError
  | .notFound => .new "not_found" "record not found".toList
  | .invalid m =>
      if Text.contains "name is required".toList m then
        ⟨"missing_name", m, some "name".toList⟩
      else if Text.contains "invalid direction".toList m then
        ⟨"invalid_direction", m, some "direction".toList⟩
      else .new "invalid_params" m
  | .db m => .new "internal_error" m

def flowBusy (id : Text) : RpcError :=
  .new "flow_busy" ("flow ".toList ++ id ++ " is running — stop it first".toList)

def flowNotFound (id : Text) : RpcError :=
  .new "flow_not_found" ("flow ".toList ++ id ++ " not found".toList)

/-- A request from its first query to its save, in one go. -/
def handle (r : Request) (db : Db) : Except RpcError Db :=
  let save (flow : Flow) := (saveFlow J r.now flow db).mapError storeError
  match r.method with
  | .flowsSave => (savedFlow J r).bind save
  | _ =>
      r.flowId.bind fun id =>
        match getFlow J db id with
        | none => .error (flowNotFound id)
        | some flow => (edit J r flow).bind save

/-- Requests one after another. -/
def handleAll (rs : List Request) (db : Db) : Except RpcError Db :=
  rs.foldlM (fun db r => handle J r db) db

end

end GnDrive.Flows
