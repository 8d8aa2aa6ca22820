/-
  GnDrive.Flows.Operations

  What the requests on operations leave of the others.

  `edit` takes operations from a listing and hands them back to `save_flow`, so the
  fields of an operation that is not touched go to the table and come back as they
  were (`scan_operationRow`).  `operations.delete` and `operations.reorder` number
  the list afresh, and a list that is numbered by its places is listed as it is
  (`listOperations_numbered`).
-/

import GnDrive.Flows.Order

namespace GnDrive.Flows

open Rpc (Json JsonDict RpcError bind_eq_ok)

section

variable (J : JsonText)

/-- A store that saves and deletions have made from an empty one. -/
inductive Stored : Db → Prop where
  | empty : Stored { flows := [], operations := [] }
  | save {now : Text} {f : Flow} {db db' : Db} :
      Stored db → saveFlow J now f db = .ok db' → Stored db'
  | delete {id : Text} {db db' : Db} :
      Stored db → deleteFlow id db = .ok db' → Stored db'

/-- `serde_json` reads the text of `m` as `m`. -/
def ReadsBack (m : JsonDict) : Prop :=
  J.toString m ≠ [] ∧ J.fromStr (J.toString m) = some (.object m)

/-- A request, while `busy` says which flows are running. -/
def handleUnless (busy : Text → Bool) (r : Request) (db : Db) : Except RpcError Db :=
  let save (flow : Flow) := (saveFlow J r.now flow db).mapError storeError
  match r.method with
  | .flowsSave =>
      (savedFlow J r).bind fun flow =>
        if busy flow.id then .error (flowBusy flow.id) else save flow
  | _ =>
      r.flowId.bind fun id =>
        match getFlow J db id with
        | none => .error (flowNotFound id)
        | some flow => if busy id then .error (flowBusy id) else (edit J r flow).bind save

/-- The ids that `operations.reorder` is given. -/
def Request.orderedIds (r : Request) : Except RpcError (List Text) :=
  (r.params.stringArray "operationIDs".toList).map (·.getD [])

/-- The operations, numbered by their places. -/
def numbered (ops : List FlowOperation) : List FlowOperation :=
  ops.mapIdx fun i op => { op with sortOrder := (i : Int) }

/-- The operations are those of a list, but for their numbers. -/
def SameFields (news olds : List FlowOperation) : Prop :=
  ∀ op ∈ news, ∃ old ∈ olds, op = { old with sortOrder := op.sortOrder }

/-- `operations.reorder` of a loaded flow takes the permutations of its operations, and
    lists them in that order. -/
def Reorders (busy : Text → Bool) (db : Db) (flow : Flow) : Prop :=
  ∀ r : Request, r.method = .operationsReorder →
    r.params.requireString "flowID".toList = .ok flow.id →
    ((∃ db', handleUnless J busy r db = .ok db') ↔
      ∃ ids, r.orderedIds = .ok ids ∧ ids.Perm (flow.operations.map (·.id))) ∧
    ∀ ids db', r.orderedIds = .ok ids → handleUnless J busy r db = .ok db' →
      order J db' flow.id = ids ∧ SameFields (listOperations J db' flow.id) flow.operations

/-- `operations.delete` of a loaded flow leaves the other operations in their order. -/
def Deletes (busy : Text → Bool) (db : Db) (flow : Flow) : Prop :=
  ∀ (r : Request) (opId : Text), r.method = .operationsDelete →
    r.params.requireString "flowID".toList = .ok flow.id →
    r.params.requireString "operationID".toList = .ok opId →
    ∀ db', handleUnless J busy r db = .ok db' →
      order J db' flow.id = (flow.operations.map (·.id)).filter (· ≠ opId) ∧
        SameFields (listOperations J db' flow.id) flow.operations

/-- The rows of a store: no id twice, and nothing empty that `save_flow` fills in. -/
structure Db.Sound (db : Db) : Prop where
  flowIds : ∀ f ∈ db.flows, f.id ≠ []
  ids : (db.operations.map (·.id)).Nodup
  named : ∀ r ∈ db.operations, r.id ≠ []
  paths : ∀ r ∈ db.operations, r.sourcePath ≠ [] ∧ r.targetPath ≠ []

/-- An operation of the flow as a listing gives it. -/
structure FlowOperation.Listed (op : FlowOperation) (flowId : Text) : Prop where
  flowId : op.flowId = flowId
  named : op.id ≠ []
  normal : op.normalizeAction = op
  sourcePath : op.sourcePath ≠ []
  targetPath : op.targetPath ≠ []

end

section

variable {J : JsonText} {busy : Text → Bool} {flowId now : Text} {db db' : Db} {f flow : Flow}
  {r : Request} {op : FlowOperation}

-- ============================================================================
-- The store
-- ============================================================================

theorem upsertFlow_ids (h : ∀ r ∈ db.flows, r.id ≠ []) (hid : f.id ≠ []) :
    ∀ r ∈ upsertFlow now f.toFlowRow db.flows, r.id ≠ [] := by
  intro r hr
  unfold upsertFlow at hr
  dsimp only at hr
  split at hr
  · obtain ⟨row, hrow, rfl⟩ := List.mem_map.mp hr
    split
    · exact hid
    · exact h row hrow
  · rcases List.mem_append.mp hr with hr | hr
    · exact h r hr
    · rw [List.mem_singleton.mp hr]
      exact hid

theorem path_ne_nil (p : Text) : (if p = [] then "/".toList else p) ≠ [] := by
  split
  · decide
  · assumption

theorem Db.Sound.save (h : db.Sound) (hsave : saveFlow J now f db = .ok db') : db'.Sound := by
  obtain ⟨hid, hnamed, -, -, rfl⟩ := saveFlow_ok_iff.mp hsave
  have hnew : ∀ r ∈ f.operations.mapIdx (operationRow J f.id),
      r.id ≠ [] ∧ r.sourcePath ≠ [] ∧ r.targetPath ≠ [] := by
    intro r hr
    obtain ⟨i, hi, rfl⟩ := List.mem_mapIdx.mp hr
    exact ⟨hnamed f.operations[i] (List.getElem_mem hi), path_ne_nil f.operations[i].sourcePath,
      path_ne_nil f.operations[i].targetPath⟩
  have hold : ∀ r ∈ db.operations.filter (·.flowId ≠ f.id), r ∈ db.operations ∧ r.flowId ≠ f.id :=
    fun r hr => ⟨List.mem_of_mem_filter hr, of_decide_eq_true (List.mem_filter.mp hr).2⟩
  refine ⟨upsertFlow_ids h.flowIds hid, nodup_saved hsave h.ids, fun r hr => ?_, fun r hr => ?_⟩
  · rcases List.mem_append.mp hr with hr | hr
    · exact h.named r (hold r hr).1
    · exact (hnew r hr).1
  · rcases List.mem_append.mp hr with hr | hr
    · exact h.paths r (hold r hr).1
    · exact (hnew r hr).2

theorem Db.Sound.delete {id : Text} (h : db.Sound) (hdelete : deleteFlow id db = .ok db') :
    db'.Sound := by
  unfold deleteFlow at hdelete
  split at hdelete
  · obtain rfl := Except.ok.inj hdelete
    exact ⟨fun f hf => h.flowIds f (List.mem_of_mem_filter hf),
      (List.filter_sublist.map _).nodup h.ids, fun r hr => h.named r (List.mem_of_mem_filter hr),
      fun r hr => h.paths r (List.mem_of_mem_filter hr)⟩
  · cases hdelete

theorem Stored.sound (h : Stored J db) : db.Sound := by
  induction h with
  | empty => exact ⟨nofun, List.nodup_nil, nofun, nofun⟩
  | save _ hsave ih => exact ih.save hsave
  | delete _ hdelete ih => exact ih.delete hdelete

-- ============================================================================
-- Operations of a listing
-- ============================================================================

/-- A listed operation is read from a row of its flow. -/
theorem mem_listOperations :
    op ∈ listOperations J db flowId ↔
      ∃ r ∈ db.operations, r.flowId = flowId ∧ scanOperation J r = op := by
  unfold listOperations
  simp only [List.mem_map, List.mem_insertionSort, List.mem_filter, decide_eq_true_eq, and_assoc]

theorem Db.Sound.listed (h : db.Sound) (hop : op ∈ listOperations J db flowId) :
    op.Listed flowId := by
  obtain ⟨r, hr, hflow, rfl⟩ := mem_listOperations.mp hop
  exact ⟨hflow, h.named r hr, FlowOperation.normalizeAction_normalizeAction _, (h.paths r hr).1,
    (h.paths r hr).2⟩

theorem Db.Sound.listed_nodup (h : db.Sound) (flowId : Text) : (order J db flowId).Nodup := by
  rw [(order_perm db flowId).nodup_iff]
  exact (List.filter_sublist.map _).nodup h.ids

/-- Action and options are aligned; no other field matters. -/
theorem FlowOperation.normal_iff :
    op.normalizeAction = op ↔ op.resolvedAction = op.action ∧
      op.syncConfig.insert "action".toList (.string op.action) = op.syncConfig := by
  constructor
  · intro h
    have haction : op.resolvedAction = op.action := congrArg FlowOperation.action h
    refine ⟨haction, ?_⟩
    rw [← haction]
    exact congrArg FlowOperation.syncConfig h
  · rintro ⟨haction, hconfig⟩
    unfold normalizeAction
    rw [haction, hconfig]

/-- An operation keeps its action and options under another number. -/
theorem normalizeAction_numbered (h : op.normalizeAction = op) (n : Int) :
    FlowOperation.normalizeAction { op with sortOrder := n } = { op with sortOrder := n } := by
  have hfields := FlowOperation.normal_iff.mp h
  exact FlowOperation.normal_iff.mpr hfields

theorem FlowOperation.Listed.numbered (h : op.Listed flowId) (n : Int) :
    FlowOperation.Listed { op with sortOrder := n } flowId :=
  ⟨h.flowId, h.named, normalizeAction_numbered h.normal n, h.sourcePath, h.targetPath⟩

/-- An operation comes back from its row, with what `save_flow` fills in. -/
theorem scan_row (hflow : op.flowId = flowId) (hnormal : op.normalizeAction = op)
    (hread : ReadsBack J op.syncConfig) (idx : Nat) :
    scanOperation J (operationRow J flowId idx op) =
      { op with
        sourcePath := if op.sourcePath = [] then "/".toList else op.sourcePath
        targetPath := if op.targetPath = [] then "/".toList else op.targetPath
        sortOrder := if op.sortOrder = 0 then (idx : Int) else op.sortOrder } := by
  obtain ⟨hne, hread⟩ := hread
  have hrow : operationRow J flowId idx op =
      { id := op.id, flowId := op.flowId, sourceRemote := op.sourceRemote
        sourcePath := if op.sourcePath = [] then "/".toList else op.sourcePath
        targetRemote := op.targetRemote
        targetPath := if op.targetPath = [] then "/".toList else op.targetPath
        action := op.action, syncConfig := J.toString op.syncConfig, isExpanded := op.isExpanded
        sortOrder := if op.sortOrder = 0 then (idx : Int) else op.sortOrder } := by
    unfold operationRow
    rw [← hflow, normalizeAction_numbered hnormal]
  rw [hrow]
  unfold scanOperation
  dsimp only
  rw [hread]
  dsimp only
  rw [if_neg hne]
  have hfields := normalizeAction_numbered hnormal
    (if op.sortOrder = 0 then (idx : Int) else op.sortOrder)
  exact congrArg (fun o : FlowOperation => { o with
    sourcePath := if op.sourcePath = [] then "/".toList else op.sourcePath
    targetPath := if op.targetPath = [] then "/".toList else op.targetPath }) hfields

/-- A listed operation comes back from its row as it was, but for its number. -/
theorem scan_operationRow (hop : op.Listed flowId) (hread : ReadsBack J op.syncConfig) (idx : Nat) :
    scanOperation J (operationRow J flowId idx op) =
      { op with sortOrder := if op.sortOrder = 0 then (idx : Int) else op.sortOrder } := by
  rw [scan_row hop.flowId hop.normal hread, if_neg hop.sourcePath, if_neg hop.targetPath]

/-- A list that is numbered by its places is listed as it is. -/
theorem listOperations_numbered (h : saveFlow J now f db = .ok db')
    (hnum : ∀ (i : Nat) (op : FlowOperation), f.operations[i]? = some op → op.sortOrder = i) :
    listOperations J db' f.id = (f.operations.mapIdx (operationRow J f.id)).map (scanOperation J) := by
  have hsorted : (f.operations.mapIdx (operationRow J f.id)).Pairwise OperationRow.before := by
    rw [List.pairwise_iff_getElem]
    intro i j hi hj hij
    rw [List.length_mapIdx] at hi hj
    have hfirst := hnum i _ (List.getElem?_eq_getElem hi)
    have hsecond := hnum j _ (List.getElem?_eq_getElem hj)
    left
    rw [List.getElem_mapIdx, List.getElem_mapIdx, operationRow_sortOrder, operationRow_sortOrder,
      hfirst, hsecond]
    split <;> split <;> omega
  rw [listOperations_saved h, hsorted.insertionSort_eq]

/-- A listed list that is numbered by its places, and saved. -/
theorem numbered_saved {ops : List FlowOperation} (hsound : db.Sound)
    (hops : ops ⊆ listOperations J db f.id)
    (hf : f.operations = numbered ops)
    (h : saveFlow J now f db = .ok db') :
    order J db' f.id = ops.map (·.id) ∧
      ((∀ op ∈ listOperations J db f.id, ReadsBack J op.syncConfig) →
        SameFields (listOperations J db' f.id) (listOperations J db f.id)) := by
  have hlist : listOperations J db' f.id =
      ops.mapIdx fun i op => scanOperation J (operationRow J f.id i { op with sortOrder := (i : Int) }) := by
    rw [listOperations_numbered h fun i op hop => ?_, hf]
    · apply List.ext_getElem?
      intro i
      simp [numbered, Function.comp_def]
    · rw [hf, numbered, List.getElem?_mapIdx] at hop
      obtain ⟨old, -, rfl⟩ := Option.map_eq_some_iff.mp hop
      rfl
  constructor
  · rw [order, hlist]
    apply List.ext_getElem?
    intro i
    simp [Function.comp_def]
  · intro hreads op hop
    rw [hlist] at hop
    obtain ⟨i, hi, rfl⟩ := List.mem_mapIdx.mp hop
    have hmem := hops (List.getElem_mem hi)
    refine ⟨ops[i], hmem, ?_⟩
    exact scan_operationRow ((hsound.listed hmem).numbered i) (hreads ops[i] hmem) i

-- ============================================================================
-- The requests
-- ============================================================================

/-- A flow that is not running is open to requests. -/
theorem handleUnless_idle (hmethod : r.method ≠ .flowsSave) (hid : r.flowId = .ok flowId)
    (hidle : busy flowId = false) : handleUnless J busy r db = handle J r db := by
  rw [handle_eq hmethod hid]
  unfold handleUnless
  split
  · contradiction
  · rw [hid]
    dsimp only [Except.bind]
    cases getFlow J db flowId with
    | none => rfl
    | some flow =>
      dsimp only
      rw [hidle, if_neg Bool.false_ne_true]

theorem handle_loaded (hmethod : r.method ≠ .flowsSave) (hid : r.flowId = .ok flowId)
    (hload : getFlow J db flowId = some flow) :
    (∃ db', handle J r db = .ok db') ↔
      ∃ f, edit J r flow = .ok f ∧ ∃ db', saveFlow J r.now f db = .ok db' := by
  constructor
  · rintro ⟨db', h⟩
    obtain ⟨flow', f, hload', hedit, hsave⟩ := handle_ok hmethod hid h
    obtain rfl := Option.some.inj (hload.symm.trans hload')
    exact ⟨f, hedit, db', hsave⟩
  · rintro ⟨f, hedit, db', hsave⟩
    refine ⟨db', ?_⟩
    rw [handle_eq hmethod hid, hload]
    dsimp only
    rw [hedit]
    show (saveFlow J r.now f db).mapError storeError = _
    rw [hsave]
    rfl

/-- Operations of the loaded flow can be saved again, in any order. -/
theorem saves_again {ops : List FlowOperation} (hsound : db.Sound)
    (hload : getFlow J db flowId = some flow)
    (hops : ∀ op ∈ ops, op.id ∈ flow.operations.map (·.id)) (hnodup : (ops.map (·.id)).Nodup) :
    ∃ db', saveFlow J now { flow with operations := ops } db = .ok db' := by
  have hid : flow.id ≠ [] := by
    obtain ⟨row, hrow, rfl⟩ := Option.map_eq_some_iff.mp hload
    obtain ⟨found, hfound, rfl⟩ := Option.map_eq_some_iff.mp hrow
    exact hsound.flowIds found (List.mem_of_find?_eq_some hfound)
  obtain ⟨rfl, hlist⟩ := getFlow_some hload
  have hrow : ∀ op ∈ ops, ∃ r ∈ db.operations, r.flowId = flow.id ∧ r.id = op.id := by
    intro op hop
    obtain ⟨old, hold, heq⟩ := List.mem_map.mp (hops op hop)
    rw [hlist] at hold
    obtain ⟨r, hr, hflow, rfl⟩ := mem_listOperations.mp hold
    exact ⟨r, hr, hflow, heq⟩
  refine ⟨_, saveFlow_ok_iff.mpr ⟨hid, fun op hop => ?_, hnodup, fun op hop r hr hother heq => ?_,
    rfl⟩⟩
  · obtain ⟨r, hr, -, heq⟩ := hrow op hop
    rw [← heq]
    exact hsound.named r hr
  · obtain ⟨own, hown, hflow, hsame⟩ := hrow op hop
    obtain rfl := List.inj_on_of_nodup_map hsound.ids hr hown (heq.trans hsame.symm)
    exact hother hflow

theorem map_id_numbered (ops : List FlowOperation) :
    (numbered ops).map (·.id) = ops.map (·.id) := by
  unfold numbered
  apply List.ext_getElem?
  intro i
  simp [Function.comp_def]

/-- The operations with the given ids, in their order. -/
theorem mapM_find {ids : List Text} {ops reordered : List FlowOperation} {e : RpcError}
    (h : ids.mapM (fun id => okOr (ops.find? (·.id = id)) e) = .ok reordered) :
    reordered ⊆ ops ∧ reordered.map (·.id) = ids := by
  induction ids generalizing reordered with
  | nil =>
    obtain rfl := Except.ok.inj h
    exact ⟨List.nil_subset _, rfl⟩
  | cons id ids ih =>
    rw [List.mapM_cons] at h
    obtain ⟨op, hop, h⟩ := bind_eq_ok h
    obtain ⟨rest, hrest, h⟩ := bind_eq_ok h
    obtain rfl := Except.ok.inj h
    obtain ⟨hsub, hids⟩ := ih hrest
    cases hfind : ops.find? (·.id = id) with
    | none =>
      rw [hfind] at hop
      cases hop
    | some found =>
      rw [hfind] at hop
      obtain rfl := Except.ok.inj hop
      have hid : found.id = id := by simpa using List.find?_some hfind
      refine ⟨List.cons_subset.mpr ⟨List.mem_of_find?_eq_some hfind, hsub⟩, ?_⟩
      rw [List.map_cons, hid, hids]

theorem mapM_find_ok {ids : List Text} {ops : List FlowOperation} {e : RpcError}
    (h : ∀ id ∈ ids, id ∈ ops.map (·.id)) :
    ∃ reordered, ids.mapM (fun id => okOr (ops.find? (·.id = id)) e) = .ok reordered := by
  induction ids with
  | nil => exact ⟨[], rfl⟩
  | cons id ids ih =>
    obtain ⟨rest, hrest⟩ := ih fun id' hid' => h id' (List.mem_cons_of_mem _ hid')
    obtain ⟨op, hop, hid⟩ := List.mem_map.mp (h id List.mem_cons_self)
    cases hfind : ops.find? (·.id = id) with
    | none =>
      have hne := List.find?_eq_none.mp hfind op hop
      exact absurd (decide_eq_true hid) hne
    | some found =>
      refine ⟨found :: rest, ?_⟩
      rw [List.mapM_cons, hfind, hrest]
      rfl

/-- `operations.reorder` takes permutations only. -/
theorem reorderOperations_ok_iff {ids : List Text} (hnodup : (flow.operations.map (·.id)).Nodup) :
    (∃ f, reorderOperations ids flow = .ok f) ↔ ids.Perm (flow.operations.map (·.id)) := by
  have hguard : ids.Perm (flow.operations.map (·.id)) ↔
      ¬ (ids.length ≠ flow.operations.length ∨ ¬ ids.Nodup ∨
        ¬ (ids.all (flow.operations.map (·.id)).contains ∧
          (flow.operations.map (·.id)).all ids.contains)) := by
    simp only [not_or, not_not, List.all_eq_true, List.contains_iff_mem]
    constructor
    · intro hperm
      exact ⟨by rw [hperm.length_eq, List.length_map], hperm.nodup_iff.mpr hnodup,
        fun id hid => hperm.mem_iff.mp hid, fun id hid => hperm.mem_iff.mpr hid⟩
    · rintro ⟨-, hids, hsub, hsup⟩
      exact (List.perm_ext_iff_of_nodup hids hnodup).mpr fun id => ⟨hsub id, hsup id⟩
  unfold reorderOperations
  dsimp only
  split
  · rename_i hbad
    exact iff_of_false nofun fun hperm => hguard.mp hperm hbad
  · rename_i hgood
    have hperm := hguard.mpr hgood
    obtain ⟨reordered, hreordered⟩ := mapM_find_ok (e := .invalidParams "operationIDs".toList none)
      fun id hid => hperm.mem_iff.mp hid
    rw [hreordered]
    exact iff_of_true ⟨_, rfl⟩ hperm

theorem reorderOperations_ok {ids : List Text} (h : reorderOperations ids flow = .ok f) :
    ∃ ops, ops ⊆ flow.operations ∧ ops.map (·.id) = ids ∧
      f = { flow with operations := numbered ops } := by
  unfold reorderOperations at h
  dsimp only at h
  split at h
  · cases h
  · obtain ⟨ops, hops, h⟩ := bind_eq_ok h
    obtain rfl := Except.ok.inj h
    obtain ⟨hsub, hids⟩ := mapM_find hops
    exact ⟨ops, hsub, hids, rfl⟩

/-! ## `operations.reorder` -/

theorem flowId_reorder (hmethod : r.method = .operationsReorder)
    (hflow : r.params.requireString "flowID".toList = .ok flowId) :
    (∃ id, r.flowId = .ok id) ↔ ∃ ids, r.orderedIds = .ok ids := by
  unfold Request.flowId Request.orderedIds
  rw [hflow, hmethod]
  show (∃ id, (r.params.stringArray "operationIDs".toList >>= fun _ => .ok flowId) = .ok id) ↔ _
  cases r.params.stringArray "operationIDs".toList with
  | error e => exact iff_of_false nofun nofun
  | ok ids => exact iff_of_true ⟨flowId, rfl⟩ ⟨ids.getD [], rfl⟩

theorem flowId_eq (hflow : r.params.requireString "flowID".toList = .ok flowId)
    {id : Text} (h : r.flowId = .ok id) : id = flowId := by
  unfold Request.flowId at h
  rw [hflow] at h
  obtain ⟨id', hid, h⟩ := bind_eq_ok h
  obtain rfl := Except.ok.inj hid
  split at h
  · obtain ⟨d, -, h⟩ := bind_eq_ok h
    split at h
    · cases h
    · exact (Except.ok.inj h).symm
  · obtain ⟨_, -, h⟩ := bind_eq_ok h
    obtain ⟨d, -, h⟩ := bind_eq_ok h
    split at h
    · cases h
    · exact (Except.ok.inj h).symm
  · obtain ⟨_, -, h⟩ := bind_eq_ok h
    exact (Except.ok.inj h).symm
  · obtain ⟨_, -, h⟩ := bind_eq_ok h
    exact (Except.ok.inj h).symm
  · exact (Except.ok.inj h).symm

theorem handleUnless_error {e : RpcError} (hmethod : r.method ≠ .flowsSave)
    (h : r.flowId = .error e) : handleUnless J busy r db = .error e := by
  unfold handleUnless
  split
  · contradiction
  · rw [h]
    rfl

theorem edit_reorder {ids : List Text} (hmethod : r.method = .operationsReorder)
    (hids : r.orderedIds = .ok ids) : edit J r flow = reorderOperations ids flow := by
  unfold Request.orderedIds at hids
  unfold edit
  rw [hmethod]
  dsimp only
  cases harray : r.params.stringArray "operationIDs".toList with
  | error e =>
    rw [harray] at hids
    cases hids
  | ok given =>
    rw [harray] at hids
    obtain rfl := Except.ok.inj hids
    rfl

theorem reorders (hsound : db.Sound) (hload : getFlow J db flow.id = some flow)
    (hreads : ∀ op ∈ flow.operations, ReadsBack J op.syncConfig) (hidle : busy flow.id = false) :
    Reorders J busy db flow := by
  intro r hmethod hflow
  have hother : r.method ≠ .flowsSave := by
    rw [hmethod]
    decide
  obtain ⟨-, hlist⟩ := getFlow_some hload
  have hnodup : (flow.operations.map (·.id)).Nodup := by
    rw [hlist]
    exact hsound.listed_nodup flow.id
  constructor
  · cases hids : r.flowId with
    | error e =>
      rw [handleUnless_error hother hids]
      refine iff_of_false nofun ?_
      rintro ⟨ids, hordered, -⟩
      obtain ⟨id, hid⟩ := (flowId_reorder hmethod hflow).mpr ⟨ids, hordered⟩
      rw [hids] at hid
      cases hid
    | ok id =>
      obtain rfl := flowId_eq hflow hids
      obtain ⟨ids, hordered⟩ := (flowId_reorder hmethod hflow).mp ⟨_, hids⟩
      rw [handleUnless_idle hother hids hidle, handle_loaded hother hids hload,
        edit_reorder hmethod hordered]
      constructor
      · rintro ⟨f, hf, -⟩
        exact ⟨ids, hordered, (reorderOperations_ok_iff hnodup).mp ⟨f, hf⟩⟩
      · rintro ⟨ids', hordered', hperm⟩
        obtain rfl := Except.ok.inj (hordered.symm.trans hordered')
        obtain ⟨f, hf⟩ := (reorderOperations_ok_iff hnodup).mpr hperm
        obtain ⟨ops, hsub, hids', rfl⟩ := reorderOperations_ok hf
        refine ⟨_, hf, saves_again hsound hload (fun op hop => ?_) ?_⟩
        · have hmem := List.mem_map_of_mem (f := FlowOperation.id) hop
          rw [map_id_numbered, hids'] at hmem
          exact hperm.mem_iff.mp hmem
        · rw [map_id_numbered, hids']
          exact hperm.nodup_iff.mpr hnodup
  · intro ids db' hordered hhandle
    obtain ⟨id, hids⟩ := (flowId_reorder hmethod hflow).mpr ⟨ids, hordered⟩
    obtain rfl := flowId_eq hflow hids
    rw [handleUnless_idle hother hids hidle] at hhandle
    obtain ⟨flow', f, hload', hedit, hsave⟩ := handle_ok hother hids hhandle
    obtain rfl := Option.some.inj (hload.symm.trans hload')
    rw [edit_reorder hmethod hordered] at hedit
    obtain ⟨ops, hsub, rfl, rfl⟩ := reorderOperations_ok hedit
    rw [hlist] at hsub hreads ⊢
    obtain ⟨horder, hfields⟩ := numbered_saved (f := { flow with operations := numbered ops })
      hsound hsub rfl hsave
    exact ⟨horder, hfields hreads⟩

/-! ## `operations.delete` -/

theorem deletes (hsound : db.Sound) (hload : getFlow J db flow.id = some flow)
    (hreads : ∀ op ∈ flow.operations, ReadsBack J op.syncConfig) (hidle : busy flow.id = false) :
    Deletes J busy db flow := by
  intro r opId hmethod hflow hop db' hhandle
  have hother : r.method ≠ .flowsSave := by
    rw [hmethod]
    decide
  obtain ⟨-, hlist⟩ := getFlow_some hload
  cases hids : r.flowId with
  | error e =>
    rw [handleUnless_error hother hids] at hhandle
    cases hhandle
  | ok id =>
    obtain rfl := flowId_eq hflow hids
    rw [handleUnless_idle hother hids hidle] at hhandle
    obtain ⟨flow', f, hload', hedit, hsave⟩ := handle_ok hother hids hhandle
    obtain rfl := Option.some.inj (hload.symm.trans hload')
    unfold edit at hedit
    rw [hmethod] at hedit
    obtain ⟨opId', hop', hedit⟩ := bind_eq_ok hedit
    obtain rfl := Except.ok.inj (hop.symm.trans hop')
    unfold deleteOperation at hedit
    split at hedit
    · obtain rfl := Except.ok.inj hedit
      have hsub : flow.operations.filter (·.id ≠ opId) ⊆ listOperations J db flow.id := by
        rw [← hlist]
        exact List.filter_subset_self _
      obtain ⟨horder, hfields⟩ := numbered_saved
        (f := { flow with operations := numbered (flow.operations.filter (·.id ≠ opId)) })
        hsound hsub rfl hsave
      rw [hlist] at hreads
      refine ⟨?_, ?_⟩
      · rw [List.filter_map]
        exact horder
      · rw [hlist]
        exact hfields hreads
    · cases hedit

end

namespace Sample

/-- `operations.reorder` of the flow `f`. -/
def reorder (ids : List String) : Request where
  method := .operationsReorder
  params := [("flowID".toList, .string "f".toList),
    ("operationIDs".toList, .array (ids.map fun id => .string id.toList))]
  uuids := []
  now := "2026-01-01 00:00:00".toList

/-- `operations.delete` of an operation of the flow `f`. -/
def deletion (id : String) : Request where
  method := .operationsDelete
  params := [("flowID".toList, .string "f".toList), ("operationID".toList, .string id.toList)]
  uuids := []
  now := "2026-01-01 00:00:00".toList

/-- The operation `id` from and to nowhere. -/
def operation (id : String) : FlowOperation :=
  FlowOperation.normalizeAction
    { id := id.toList, flowId := "f".toList, sourceRemote := [], sourcePath := "/".toList
      targetRemote := [], targetPath := "/".toList, action := [], syncConfig := []
      isExpanded := false, sortOrder := 0 }

/-- The flow `f` with the operations `a` and `b`. -/
def flow : Flow where
  id := "f".toList
  name := []
  isCollapsed := false
  scheduleEnabled := false
  scheduleCron := []
  sortOrder := 0
  canvasJson := []
  createdAt := []
  updatedAt := []
  operations := [operation "a", operation "b"]

theorem stored_flow : ∃ db : Db, ∃ loaded : Flow, Stored json db ∧
    getFlow json db "f".toList = some loaded ∧ loaded.id = "f".toList ∧
    loaded.operations.map FlowOperation.rank = [("a".toList, 0), ("b".toList, 1)] ∧
    (∀ op ∈ loaded.operations, ReadsBack json op.syncConfig) ∧
    ∃ db', handleUnless json (fun _ => false) (deletion "a") db = .ok db' ∧
      (listOperations json db' "f".toList).map FlowOperation.rank = [("b".toList, 0)] := by
  refine ⟨_, _, .save (f := flow) .empty (show saveFlow json [] flow _ = .ok _ from rfl), rfl, rfl,
    ?_, ?_, _, rfl, ?_⟩
  · decide +kernel
  · intro op hop
    obtain ⟨r, hr, -, rfl⟩ := mem_listOperations.mp hop
    -- both rows have the text of the action alone
    rcases List.mem_cons.mp hr with rfl | hr
    · exact ⟨by decide, rfl⟩
    · obtain rfl := List.mem_singleton.mp hr
      exact ⟨by decide, rfl⟩
  · decide +kernel

/-- The ranks of `a` and `b` name them in order. -/
theorem ids_of_ranks {ops : List FlowOperation}
    (h : ops.map FlowOperation.rank = [("a".toList, 0), ("b".toList, 1)]) :
    ops.map (·.id) = ["a".toList, "b".toList] := by
  have hids := congrArg (List.map Prod.fst) h
  rwa [List.map_map] at hids

end Sample

end GnDrive.Flows
