/-
  GnDrive.Gpui.Caches

  What the window keeps between frames (`cache.rs`): the status of each node and of each flow,
  the progress of each edge and of each node, and the order of the file cards.

  `Reference` is what a frame computed before, from the graph and the runtime alone.  The
  caches agree with it but for one thing: the number of file cards is taken as 32 bits, so of
  2³² transfers and more the card shows a part only (`window_caches_iff`).

  The headings and the dots of the transfers are left out.
-/

import GnDrive.Gpui.Graph
import GnDrive.Lib.Tables

namespace GnDrive.Gpui.Caches

open Function (update)
open Tables (collect orInsert)

-- ============================================================================
-- The runtime
-- ============================================================================

structure FileTransfer (D : Type) where
  name : Text
  size : Nat
  bytes : Nat
  progress : D
  status : Text
  speed : D
  error : Text

structure SyncProgress (D : Type) where
  taskId : Text
  profileId : Text
  action : Text
  state : Text
  transferred : Nat
  total : Nat
  bytesPerSec : D
  eta : Int
  errors : Nat
  currentFile : Text
  stage : Text
  stageDetail : Text
  filesTransferred : Nat
  totalFiles : Nat
  checks : Nat
  totalChecks : Nat
  deletes : Nat
  renames : Nat
  transfers : List (FileTransfer D)
  errorMessage : Text

structure RuntimeOp where
  id : Text
  status : Text
  lastError : Text

/-- A flow of the runtime without its log. -/
structure RuntimeFlow (D : Type) where
  id : Text
  status : Text
  lastError : Text
  ops : List RuntimeOp
  sync : Option (SyncProgress D)

structure Runtime (D : Type) where
  revision : Int
  flows : List (RuntimeFlow D)

/-- No two flows have one id, and no two operations of a flow. -/
structure Runtime.Distinct {D : Type} (runtime : Runtime D) : Prop where
  flows : (runtime.flows.map (·.id)).Nodup
  ops : ∀ flow ∈ runtime.flows, (flow.ops.map (·.id)).Nodup

section

variable {D S : Type}

def Runtime.flow (runtime : Runtime D) (flowId : Text) : Option (RuntimeFlow D) :=
  runtime.flows.find? (·.id = flowId)

def IDLE : Text := "idle".toList
def FAILED : Text := "failed".toList
def COMPLETED : Text := "completed".toList

/-- `format::running`. -/
def running (status : Text) : Bool := status = "running".toList || status = "cancelling".toList

/-- `sync_for`. -/
def syncFor (runtime : Runtime D) (flowId opId : Text) : Option (SyncProgress D) :=
  (runtime.flow flowId).bind fun flow => flow.sync.bind fun sync =>
    let exact := ((flowId.isPrefixOf? sync.profileId).bind ([':'].isPrefixOf? ·)).any (· = opId)
    if Text.endsWith opId sync.profileId || exact then some sync else none

-- ============================================================================
-- The order of the cards
-- ============================================================================

def cardRank (status : Text) : Nat :=
  if status = "transferring".toList then 0
  else if status = "checking".toList then 1
  else if status = "failed".toList then 2
  else if status = "pending".toList then 3
  else if status = "checked".toList then 4
  else if status = "completed".toList then 5
  else 6

/-- By the rank of the status, then by the name. -/
def cardCmp (left right : FileTransfer D) : Ordering :=
  (compare (cardRank left.status) (cardRank right.status)).then (compare left.name right.name)

def rankedTransfers (transfers : List (FileTransfer D)) : List (FileTransfer D) :=
  transfers.mergeSort fun left right => (cardCmp left right).isLE

def foundLe (left right : Option (FileTransfer D)) : Bool :=
  match left, right with
  | some left, some right => (cardCmp left right).isLE
  | _, _ => false

/-- The comparison of two places; no place is outside the list. -/
def placeLe (transfers : List (FileTransfer D)) (left right : Nat) : Bool :=
  foundLe transfers[left]? transfers[right]?

def rankIndices (transfers : List (FileTransfer D)) : List Nat :=
  -- `transfers.len() as u32`
  (List.range (transfers.length % 2 ^ 32)).mergeSort (placeLe transfers)

/-- The rows that a panel reads off the indices. -/
def rows (transfers : List (FileTransfer D)) (order : List Nat) : List (Option (FileTransfer D)) :=
  order.map (transfers[·]?)

-- ============================================================================
-- The caches
-- ============================================================================

/-- The statuses that are folded so far, and the nodes with a running edge. -/
structure NodeStatuses where
  status : Text → Option Text
  running : List Text

def touchNode (ops : Text → Option Text) (edgeId : Text) (st : NodeStatuses) (nodeId : Text) :
    NodeStatuses :=
  if st.running.contains nodeId then st
  else match ops edgeId with
    | none => st
    | some opStatus =>
        if running opStatus then
          { status := update st.status nodeId (some opStatus), running := st.running ++ [nodeId] }
        else if opStatus = FAILED ∨
            (opStatus = COMPLETED ∧ (st.status nodeId).getD IDLE = IDLE) then
          { st with status := update st.status nodeId (some opStatus) }
        else st

def touchEdge (ops : Text → Option Text) (st : NodeStatuses) (edge : GraphEdge) : NodeStatuses :=
  if edge.source = edge.target then touchNode ops edge.id st edge.source
  else touchNode ops edge.id (touchNode ops edge.id st edge.source) edge.target

/-- The statuses of the selected flow's operations. -/
def opStatuses (runtime : Runtime D) (flowId : Text) : Text → Option Text :=
  match runtime.flow flowId with
  | some flow => collect (·.id) (·.status) flow.ops
  | none => fun _ => none

def nodeStatuses (edges : List GraphEdge) (runtime : Runtime D) (flowId : Text) :
    Text → Option Text :=
  (edges.foldl (touchEdge (opStatuses runtime flowId)) ⟨fun _ => none, []⟩).status

/-- `SyncCache`. -/
structure SyncCache (D : Type) where
  progresses : Text → Option (SyncProgress D)
  ranked : Text → Option (List Nat)
  nodeProgress : Text → Option (SyncProgress D)

namespace SyncCache

def empty : SyncCache D := ⟨fun _ => none, fun _ => none, fun _ => none⟩

def addEdge (runtime : Runtime D) (flowId : Text) (cache : SyncCache D) (edge : GraphEdge) :
    SyncCache D :=
  match syncFor runtime flowId edge.id with
  | none => cache
  | some progress =>
      { progresses := update cache.progresses edge.id (some progress)
        ranked := update cache.ranked edge.id (some (rankIndices progress.transfers))
        nodeProgress :=
          orInsert (orInsert cache.nodeProgress edge.source progress) edge.target progress }

def build (runtime : Runtime D) (flowId : Text) (edges : List GraphEdge) : SyncCache D :=
  edges.foldl (addEdge runtime flowId) empty

end SyncCache

/-- `RuntimeCache`. -/
structure RuntimeCache where
  statuses : Text → Option Text

namespace RuntimeCache

def build (runtime : Runtime D) : RuntimeCache where
  statuses :=
    collect (·.id) (fun flow => if flow.status = [] then IDLE else flow.status) runtime.flows

def status (cache : RuntimeCache) (flowId : Text) : Text := (cache.statuses flowId).getD IDLE

end RuntimeCache

-- ============================================================================
-- The scans of a frame
-- ============================================================================

namespace Reference

def syncFor (runtime : Runtime D) (flowId opId : Text) : Option (SyncProgress D) :=
  (runtime.flow flowId).bind fun flow => flow.sync.bind fun sync =>
    let profile := flowId ++ [':'] ++ opId
    if sync.profileId = profile ∨ Text.endsWith opId sync.profileId then some sync else none

/-- The loop of `node_status`, which returns at the first running edge. -/
def scan (runtime : Runtime D) (flowId nodeId : Text) : Text → List GraphEdge → Text
  | status, [] => status
  | status, edge :: edges =>
      if edge.source ≠ nodeId ∧ edge.target ≠ nodeId then scan runtime flowId nodeId status edges
      else match runtime.flow flowId with
        | none => scan runtime flowId nodeId status edges
        | some flow =>
            match flow.ops.find? (·.id = edge.id) with
            | none => scan runtime flowId nodeId status edges
            | some op =>
                if running op.status then op.status
                else if op.status = FAILED ∨ (op.status = COMPLETED ∧ status = IDLE) then
                  scan runtime flowId nodeId op.status edges
                else scan runtime flowId nodeId status edges

def nodeStatus (graph : FlowGraph D S) (runtime : Runtime D) (flowId nodeId : Text) : Text :=
  scan runtime flowId nodeId IDLE graph.edges

/-- The progress of the first edge at the node that has one. -/
def nodeProgress (graph : FlowGraph D S) (runtime : Runtime D) (flowId nodeId : Text) :
    Option (SyncProgress D) :=
  graph.edges.findSome? fun edge =>
    if edge.source = nodeId ∨ edge.target = nodeId then syncFor runtime flowId edge.id else none

def flowStatus (runtime : Runtime D) (flowId : Text) : Text :=
  (((runtime.flow flowId).map (·.status)).filter (· ≠ [])).getD IDLE

end Reference

-- ============================================================================
-- The lookups
-- ============================================================================

theorem exact_iff (flowId opId profileId : Text) :
    ((flowId.isPrefixOf? profileId).bind ([':'].isPrefixOf? ·)).any (· = opId) = true ↔
      profileId = flowId ++ [':'] ++ opId := by
  have hcolon (rest : Text) :
      ([':'].isPrefixOf? rest).any (· = opId) = true ↔ rest = [':'] ++ opId := by
    cases h : [':'].isPrefixOf? rest with
    | none =>
      have hne : rest ≠ [':'] ++ opId := fun heq => by
        rw [heq, List.isPrefixOf?_eq_some_iff_append_eq.mpr rfl] at h
        exact Option.some_ne_none _ h
      simpa using hne
    | some op =>
      rw [List.isPrefixOf?_eq_some_iff_append_eq] at h
      rw [← h, List.append_cancel_left_eq]
      simp
  cases h : flowId.isPrefixOf? profileId with
  | none =>
    have hne : profileId ≠ flowId ++ [':'] ++ opId := fun heq => by
      rw [heq, List.append_assoc, List.isPrefixOf?_eq_some_iff_append_eq.mpr rfl] at h
      exact Option.some_ne_none _ h
    exact iff_of_false Bool.false_ne_true hne
  | some rest =>
    rw [List.isPrefixOf?_eq_some_iff_append_eq] at h
    rw [← h, List.append_assoc, List.append_cancel_left_eq]
    exact hcolon rest

theorem syncFor_eq (runtime : Runtime D) (flowId opId : Text) :
    syncFor runtime flowId opId = Reference.syncFor runtime flowId opId := by
  unfold syncFor Reference.syncFor
  congr 1
  funext flow
  congr 1
  funext sync
  refine if_congr ?_ rfl rfl
  rw [Bool.or_eq_true, exact_iff, or_comm]

theorem RuntimeCache.status_eq {runtime : Runtime D} (h : runtime.Distinct) (flowId : Text) :
    (RuntimeCache.build runtime).status flowId = Reference.flowStatus runtime flowId := by
  unfold RuntimeCache.status RuntimeCache.build Reference.flowStatus Runtime.flow
  dsimp only
  rw [Tables.collect_eq_find? _ h.flows]
  cases runtime.flows.find? (·.id = flowId) with
  | none => rfl
  | some flow =>
    by_cases hs : flow.status = []
    · simp [hs, Option.filter]
    · simp [hs, Option.filter]

theorem opStatuses_eq {runtime : Runtime D} (h : runtime.Distinct) (flowId opId : Text) :
    opStatuses runtime flowId opId =
      ((runtime.flow flowId).bind fun flow => flow.ops.find? (·.id = opId)).map (·.status) := by
  unfold opStatuses
  cases hf : runtime.flow flowId with
  | none => rfl
  | some flow =>
    exact Tables.collect_eq_find? _ (h.ops flow (List.mem_of_find?_eq_some hf)) opId

-- ============================================================================
-- The statuses of the nodes
-- ============================================================================

/-- The edges at a node. -/
def touches (edge : GraphEdge) (nodeId : Text) : Bool :=
  edge.source = nodeId || edge.target = nodeId

/-- What is kept of one node. -/
def NodeStatuses.at (st : NodeStatuses) (nodeId : Text) : Option Text × Bool :=
  (st.status nodeId, st.running.contains nodeId)

/-- The step of `touchNode` at its own node. -/
def foldStatus (ops : Text → Option Text) (seen : Option Text × Bool) (edge : GraphEdge) :
    Option Text × Bool :=
  if seen.2 then seen
  else match ops edge.id with
    | none => seen
    | some opStatus =>
        if running opStatus then (some opStatus, true)
        else if opStatus = FAILED ∨ (opStatus = COMPLETED ∧ seen.1.getD IDLE = IDLE) then
          (some opStatus, false)
        else seen

theorem touchNode_at (ops : Text → Option Text) (edge : GraphEdge) (st : NodeStatuses)
    (nodeId k : Text) :
    (touchNode ops edge.id st nodeId).at k =
      if nodeId = k then foldStatus ops (st.at k) edge else st.at k := by
  unfold touchNode foldStatus NodeStatuses.at
  by_cases hk : nodeId = k
  · subst hk
    by_cases hrun : st.running.contains nodeId = true
    · simp only [hrun, if_true]
    · have hmem : nodeId ∉ st.running := fun h => hrun (List.contains_iff_mem.mpr h)
      rw [if_neg hrun, if_pos rfl]
      dsimp only
      rw [if_neg hrun]
      cases ops edge.id with
      | none => rfl
      | some opStatus =>
        dsimp only
        split_ifs <;> simp [hmem]
  · have hne : k ≠ nodeId := fun h => hk h.symm
    rw [if_neg hk]
    by_cases hrun : st.running.contains nodeId = true
    · rw [if_pos hrun]
    · rw [if_neg hrun]
      cases ops edge.id with
      | none => rfl
      | some opStatus =>
        dsimp only
        split_ifs <;> simp [hne]

theorem touchEdge_at (ops : Text → Option Text) (st : NodeStatuses) (edge : GraphEdge)
    (k : Text) :
    (touchEdge ops st edge).at k =
      if touches edge k then foldStatus ops (st.at k) edge else st.at k := by
  unfold touchEdge touches
  by_cases hloop : edge.source = edge.target
  · rw [if_pos hloop, touchNode_at, ← hloop]
    simp
  · rw [if_neg hloop, touchNode_at, touchNode_at]
    by_cases ht : edge.target = k
    · have hs : edge.source ≠ k := fun h => hloop (h.trans ht.symm)
      simp [ht, hs]
    · by_cases hs : edge.source = k <;> simp [ht, hs]

/-- Nothing follows a running edge. -/
theorem foldl_foldStatus_running (ops : Text → Option Text) (status : Option Text)
    (edges : List GraphEdge) :
    edges.foldl (foldStatus ops) (status, true) = (status, true) := by
  induction edges with
  | nil => rfl
  | cons edge edges ih =>
    rw [List.foldl_cons]
    exact ih

/-- The fold over the edges at a node is the scan of that node. -/
theorem foldl_foldStatus_eq_scan {runtime : Runtime D} (h : runtime.Distinct)
    (flowId nodeId : Text) (edges : List GraphEdge) (status : Option Text) :
    ((edges.filter (touches · nodeId)).foldl (foldStatus (opStatuses runtime flowId))
        (status, false)).1.getD IDLE =
      Reference.scan runtime flowId nodeId (status.getD IDLE) edges := by
  induction edges generalizing status with
  | nil => rfl
  | cons edge edges ih =>
    unfold Reference.scan
    by_cases htouch : touches edge nodeId = true
    · have hat : ¬(edge.source ≠ nodeId ∧ edge.target ≠ nodeId) := fun ⟨hs, ht⟩ => by
        simp [touches, hs, ht] at htouch
      rw [List.filter_cons, if_pos htouch, List.foldl_cons, if_neg hat]
      have hop := opStatuses_eq h flowId edge.id
      cases hf : runtime.flow flowId with
      | none =>
        rw [hf] at hop
        simp only [foldStatus, hop, Option.bind_none, Option.map_none, Bool.false_eq_true, if_false]
        exact ih status
      | some flow =>
        dsimp only
        cases ho : flow.ops.find? (·.id = edge.id) with
        | none =>
          simp only [hf, Option.bind_some, ho, Option.map_none] at hop
          simp only [foldStatus, hop, Bool.false_eq_true, if_false]
          exact ih status
        | some op =>
          simp only [hf, Option.bind_some, ho, Option.map_some] at hop
          dsimp only
          by_cases hrun : running op.status = true
          · have hstep : foldStatus (opStatuses runtime flowId) (status, false) edge =
                (some op.status, true) := by
              simp [foldStatus, hop, hrun]
            rw [hstep, foldl_foldStatus_running, if_pos hrun]
            rfl
          · rw [if_neg hrun]
            by_cases hset : op.status = FAILED ∨
                (op.status = COMPLETED ∧ status.getD IDLE = IDLE)
            · have hstep : foldStatus (opStatuses runtime flowId) (status, false) edge =
                  (some op.status, false) := by
                simp [foldStatus, hop, hrun, hset]
              rw [hstep, if_pos hset]
              exact ih (some op.status)
            · have hstep : foldStatus (opStatuses runtime flowId) (status, false) edge =
                  (status, false) := by
                simp [foldStatus, hop, hrun, hset]
              rw [hstep, if_neg hset]
              exact ih status
    · have hat : edge.source ≠ nodeId ∧ edge.target ≠ nodeId := by
        simpa [touches] using htouch
      rw [List.filter_cons, if_neg htouch, if_pos hat]
      exact ih status

theorem nodeStatuses_eq {runtime : Runtime D} (h : runtime.Distinct) (graph : FlowGraph D S)
    (flowId nodeId : Text) :
    (nodeStatuses graph.edges runtime flowId nodeId).getD IDLE =
      Reference.nodeStatus graph runtime flowId nodeId := by
  have hview := Tables.view_foldl (touchEdge_at (opStatuses runtime flowId)) graph.edges
    ⟨fun _ => none, []⟩ nodeId
  have hfst := congrArg Prod.fst hview
  show ((NodeStatuses.at _ nodeId).1).getD IDLE = _
  rw [hfst]
  exact foldl_foldStatus_eq_scan h flowId nodeId graph.edges none

-- ============================================================================
-- The progress of the edges and of the nodes
-- ============================================================================

namespace SyncCache

theorem build_concat (runtime : Runtime D) (flowId : Text) (edges : List GraphEdge)
    (edge : GraphEdge) :
    build runtime flowId (edges ++ [edge]) =
      addEdge runtime flowId (build runtime flowId edges) edge := by
  unfold build
  rw [List.foldl_append]
  rfl

theorem progresses_build (runtime : Runtime D) (flowId : Text) (edges : List GraphEdge)
    (k : Text) :
    (build runtime flowId edges).progresses k =
      if ∃ edge ∈ edges, edge.id = k then syncFor runtime flowId k else none := by
  induction edges using List.reverseRecOn with
  | nil => simp [build, empty]
  | append_singleton edges edge ih =>
    rw [build_concat]
    unfold addEdge
    by_cases hk : edge.id = k
    · have hex : ∃ e ∈ edges ++ [edge], e.id = k := ⟨edge, by simp, hk⟩
      rw [if_pos hex, hk]
      cases hs : syncFor runtime flowId k with
      | none =>
        rw [hs] at ih
        simpa using ih
      | some progress => simp
    · have hiff : (∃ e ∈ edges ++ [edge], e.id = k) ↔ ∃ e ∈ edges, e.id = k := by simp [hk]
      have hne : k ≠ edge.id := fun h => hk h.symm
      simp only [hiff, ← ih]
      cases syncFor runtime flowId edge.id with
      | none => rfl
      | some progress => exact Function.update_of_ne hne _ _

theorem ranked_build (runtime : Runtime D) (flowId : Text) (edges : List GraphEdge) (k : Text) :
    (build runtime flowId edges).ranked k =
      ((build runtime flowId edges).progresses k).map fun p => rankIndices p.transfers := by
  induction edges using List.reverseRecOn with
  | nil => rfl
  | append_singleton edges edge ih =>
    rw [build_concat]
    unfold addEdge
    cases syncFor runtime flowId edge.id with
    | none => exact ih
    | some progress =>
      by_cases hk : k = edge.id
      · subst hk
        simp
      · simpa [hk] using ih

theorem nodeProgress_addEdge (runtime : Runtime D) (flowId : Text) (cache : SyncCache D)
    (edge : GraphEdge) (k : Text) :
    (addEdge runtime flowId cache edge).nodeProgress k =
      if touches edge k then (cache.nodeProgress k).or (syncFor runtime flowId edge.id)
      else cache.nodeProgress k := by
  unfold addEdge touches
  cases syncFor runtime flowId edge.id with
  | none => simp
  | some progress =>
    dsimp only
    rw [Tables.orInsert_apply, Tables.orInsert_apply]
    by_cases hs : edge.source = k
    · by_cases ht : edge.target = k
      · simp [hs, ht]
      · have ht' : k ≠ edge.target := fun h => ht h.symm
        simp [hs, ht']
    · have hs' : k ≠ edge.source := fun h => hs h.symm
      by_cases ht : edge.target = k
      · simp [hs', ht]
      · have ht' : k ≠ edge.target := fun h => ht h.symm
        simp [hs, hs', ht, ht']

theorem nodeProgress_build (runtime : Runtime D) (flowId : Text) (graph : FlowGraph D S)
    (nodeId : Text) :
    (build runtime flowId graph.edges).nodeProgress nodeId =
      Reference.nodeProgress graph runtime flowId nodeId := by
  have hview : (build runtime flowId graph.edges).nodeProgress nodeId =
      (graph.edges.filter (touches · nodeId)).foldl
        (fun p edge => p.or (syncFor runtime flowId edge.id)) none :=
    Tables.view_foldl (nodeProgress_addEdge runtime flowId) graph.edges empty nodeId
  rw [hview, Tables.foldl_or, Option.none_or, ← List.head?_filterMap, List.filterMap_filter,
    List.head?_filterMap]
  unfold Reference.nodeProgress
  congr 1
  funext edge
  refine if_congr ?_ (syncFor_eq runtime flowId edge.id) rfl
  simp [touches]

end SyncCache

-- ============================================================================
-- The order of the cards
-- ============================================================================

/-- A card whose index does not fit has no row. -/
theorem length_rankIndices (transfers : List (FileTransfer D)) :
    (rankIndices transfers).length = transfers.length % 2 ^ 32 := by
  unfold rankIndices
  rw [List.length_mergeSort, List.length_range]

theorem map_getElem?_range (transfers : List (FileTransfer D)) :
    (List.range transfers.length).map (transfers[·]?) = transfers.map some := by
  refine List.ext_getElem (by simp) fun i hi hi' => ?_
  have hlt : i < transfers.length := by simpa using hi
  simp [hlt]

/-- The rows read off the indices are the ranked transfers exactly when there is an index for
    each. -/
theorem rows_rankIndices_iff (transfers : List (FileTransfer D)) :
    rows transfers (rankIndices transfers) = (rankedTransfers transfers).map some ↔
      transfers.length < 2 ^ 32 := by
  constructor
  · intro h
    have hlen := congrArg List.length h
    unfold rows rankedTransfers at hlen
    rw [List.length_map, List.length_map, length_rankIndices, List.length_mergeSort] at hlen
    rw [← hlen]
    exact Nat.mod_lt _ (by decide)
  · intro h
    unfold rows rankIndices rankedTransfers
    rw [Nat.mod_eq_of_lt h]
    have hplaces : ((List.range transfers.length).mergeSort (placeLe transfers)).map
        (transfers[·]?) = ((List.range transfers.length).map (transfers[·]?)).mergeSort foundLe :=
      List.map_mergeSort fun l _ r _ => rfl
    have hsome : (transfers.mergeSort fun left right => (cardCmp left right).isLE).map some =
        (transfers.map some).mergeSort foundLe :=
      List.map_mergeSort fun l _ r _ => rfl
    rw [hplaces, map_getElem?_range, hsome]

-- ============================================================================
-- The caches against the scans
-- ============================================================================

/-- The file cards that a panel shows of an edge. -/
def SyncCache.cards (cache : SyncCache D) (edgeId : Text) :
    Option (List (Option (FileTransfer D))) :=
  (cache.progresses edgeId).bind fun p => (cache.ranked edgeId).map (rows p.transfers)

/-- The caches hold what the scans of a frame find. -/
structure CachesAgree (graph : FlowGraph D S) (runtime : Runtime D) (flowId : Text) : Prop where
  nodeStatus : ∀ nodeId, (nodeStatuses graph.edges runtime flowId nodeId).getD IDLE =
    Reference.nodeStatus graph runtime flowId nodeId
  progress : ∀ edge ∈ graph.edges,
    (SyncCache.build runtime flowId graph.edges).progresses edge.id =
      Reference.syncFor runtime flowId edge.id
  nodeProgress : ∀ nodeId, (SyncCache.build runtime flowId graph.edges).nodeProgress nodeId =
    Reference.nodeProgress graph runtime flowId nodeId
  ranking : ∀ edge ∈ graph.edges,
    (SyncCache.build runtime flowId graph.edges).cards edge.id =
      (Reference.syncFor runtime flowId edge.id).map fun p =>
        (rankedTransfers p.transfers).map some
  flowStatus : ∀ id, (RuntimeCache.build runtime).status id = Reference.flowStatus runtime id

/-- The progress of the selected flow, where an edge shows it, has an index for each of its
    transfers. -/
def Indexable (graph : FlowGraph D S) (runtime : Runtime D) (flowId : Text) : Prop :=
  ∀ edge ∈ graph.edges, ∀ p, Reference.syncFor runtime flowId edge.id = some p →
    p.transfers.length < 2 ^ 32

theorem progress_eq (graph : FlowGraph D S) (runtime : Runtime D) (flowId : Text)
    {edge : GraphEdge} (h : edge ∈ graph.edges) :
    (SyncCache.build runtime flowId graph.edges).progresses edge.id =
      Reference.syncFor runtime flowId edge.id := by
  rw [SyncCache.progresses_build, if_pos ⟨edge, h, rfl⟩, syncFor_eq]

theorem ranking_iff (graph : FlowGraph D S) (runtime : Runtime D) (flowId : Text)
    {edge : GraphEdge} (h : edge ∈ graph.edges) :
    (SyncCache.build runtime flowId graph.edges).cards edge.id =
        (Reference.syncFor runtime flowId edge.id).map (fun p =>
          (rankedTransfers p.transfers).map some) ↔
      ∀ p, Reference.syncFor runtime flowId edge.id = some p → p.transfers.length < 2 ^ 32 := by
  unfold SyncCache.cards
  rw [SyncCache.ranked_build, progress_eq graph runtime flowId h]
  cases Reference.syncFor runtime flowId edge.id with
  | none => simp
  | some p =>
    have hrows := rows_rankIndices_iff p.transfers
    simpa using hrows

end

-- ============================================================================
-- A flow with one operation
-- ============================================================================

namespace Sample

def transfer : FileTransfer Nat where
  name := "a".toList
  size := 1
  bytes := 0
  progress := 0
  status := "pending".toList
  speed := 0
  error := []

def progress (transfers : List (FileTransfer Nat)) : SyncProgress Nat where
  taskId := "t".toList
  profileId := "f:o".toList
  action := "push".toList
  state := "running".toList
  transferred := 0
  total := 0
  bytesPerSec := 0
  eta := 0
  errors := 0
  currentFile := []
  stage := []
  stageDetail := []
  filesTransferred := 0
  totalFiles := 0
  checks := 0
  totalChecks := 0
  deletes := 0
  renames := 0
  transfers := transfers
  errorMessage := []

def runtime (transfers : List (FileTransfer Nat)) : Runtime Nat where
  revision := 1
  flows := [{
    id := "f".toList
    status := "running".toList
    lastError := []
    ops := [⟨"o".toList, "running".toList, []⟩]
    sync := some (progress transfers) }]

def operation : Operation where
  id := "o".toList
  flowId := "f".toList
  sourceRemote := []
  sourcePath := "/a".toList
  targetRemote := "gd".toList
  targetPath := "/b".toList
  action := "push".toList
  syncConfig := []
  isExpanded := false
  sortOrder := 0

def graph : FlowGraph Nat Nat where
  nodes := []
  edges := [⟨"o".toList, "n".toList, "m".toList, "push".toList, operation⟩]
  viewport := ⟨0, 0, 1⟩

theorem runtime_distinct (transfers : List (FileTransfer Nat)) : (runtime transfers).Distinct where
  flows := List.nodup_singleton _
  ops := fun flow h => by
    rw [List.mem_singleton.mp h]
    exact List.nodup_singleton _

theorem syncFor_runtime (transfers : List (FileTransfer Nat)) :
    Reference.syncFor (runtime transfers) "f".toList "o".toList = some (progress transfers) :=
  rfl

end Sample

end GnDrive.Gpui.Caches
