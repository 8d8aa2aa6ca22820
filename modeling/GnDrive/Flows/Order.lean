/-
  GnDrive.Flows.Order

  What `save_flow` writes and `list_operations` finds afterwards.

  A save numbers the operations whose sort order is 0 by their place in the list,
  and leaves the other numbers as they are; the query sorts by the result.  A 0
  stands for "no number yet" in a new operation, but an operation can be stored
  with it, at any place that negative numbers leave.  Saved again it gets a
  number that may meet or pass the next operation's (`order_kept_iff`).
-/

import GnDrive.Flows.Serial
import GnDrive.Lib.Sorted

namespace GnDrive.Flows

open Rpc (Json JsonDict RpcError bind_eq_ok)

-- ============================================================================
-- The rows of a save
-- ============================================================================

section

variable (J : JsonText)

/-- The row for the operation `src` at the index `idx`. -/
def operationRow (flowId : Text) (idx : Nat) (src : FlowOperation) : OperationRow :=
  let op := FlowOperation.normalizeAction
    { src with flowId := flowId, sortOrder := if src.sortOrder = 0 then idx else src.sortOrder }
  { id := op.id, flowId := flowId
    sourceRemote := op.sourceRemote
    sourcePath := if op.sourcePath = [] then "/".toList else op.sourcePath
    targetRemote := op.targetRemote
    targetPath := if op.targetPath = [] then "/".toList else op.targetPath
    action := op.action, syncConfig := J.toString op.syncConfig
    isExpanded := op.isExpanded, sortOrder := op.sortOrder }

/-- The ids of a flow's operations as they are listed. -/
def order (db : Db) (flowId : Text) : List Text := (listOperations J db flowId).map (·.id)

end

section

variable {J : JsonText} {flowId now : Text} {db db' : Db} {f : Flow}

@[simp] theorem operationRow_id (idx : Nat) (src : FlowOperation) :
    (operationRow J flowId idx src).id = src.id := rfl

theorem map_id_rows (ops : List FlowOperation) :
    (ops.mapIdx (operationRow J flowId)).map OperationRow.id = ops.map (·.id) := by
  apply List.ext_getElem?
  intro i
  simp [Function.comp_def]

@[simp] theorem operationRow_flowId (idx : Nat) (src : FlowOperation) :
    (operationRow J flowId idx src).flowId = flowId := rfl

@[simp] theorem operationRow_sortOrder (idx : Nat) (src : FlowOperation) :
    (operationRow J flowId idx src).sortOrder =
      if src.sortOrder = 0 then (idx : Int) else src.sortOrder := rfl

@[simp] theorem scanOperation_id (r : OperationRow) : (scanOperation J r).id = r.id := rfl

@[simp] theorem scanOperation_sortOrder (r : OperationRow) :
    (scanOperation J r).sortOrder = r.sortOrder := rfl

/-- The inserts go through when every operation has an id that no other row has. -/
theorem insertOperations_ok_iff {ops : List FlowOperation} {n : Nat} {rows rows' : List OperationRow} :
    insertOperations J flowId n ops rows = .ok rows' ↔
      (∀ op ∈ ops, op.id ≠ []) ∧ (ops.map (·.id)).Nodup ∧
        (∀ op ∈ ops, ∀ r ∈ rows, r.id ≠ op.id) ∧
        rows' = rows ++ ops.mapIdx fun i op => operationRow J flowId (n + i) op := by
  induction ops generalizing n rows with
  | nil =>
    unfold insertOperations
    simp [eq_comm]
  | cons src rest ih =>
    have hnext : (src :: rest).mapIdx (fun i op => operationRow J flowId (n + i) op) =
        operationRow J flowId n src ::
          rest.mapIdx fun i op => operationRow J flowId (n + 1 + i) op := by
      rw [List.mapIdx_cons, Nat.add_zero]
      congr 2
      funext i op
      rw [Nat.add_assoc, Nat.add_comm 1]
    rw [hnext]
    unfold insertOperations
    by_cases hid : src.id = []
    · simp [hid]
    rw [if_neg hid]
    show (if rows.any (·.id = src.id) then _ else
      insertOperations J flowId (n + 1) rest (rows ++ [operationRow J flowId n src])) = _ ↔ _
    by_cases hused : rows.any (·.id = src.id) = true
    · obtain ⟨r, hr, heq⟩ := List.any_eq_true.mp hused
      rw [if_pos hused]
      refine iff_of_false nofun fun ⟨_, _, hfresh, _⟩ => ?_
      exact hfresh src List.mem_cons_self r hr (of_decide_eq_true heq)
    · have hfresh : ∀ r ∈ rows, r.id ≠ src.id := fun r hr heq =>
        hused (List.any_eq_true.mpr ⟨r, hr, decide_eq_true heq⟩)
      rw [if_neg hused, ih, List.append_assoc, List.singleton_append]
      constructor
      · rintro ⟨hids, hnodup, hrows, rfl⟩
        have hsrc : src.id ∉ rest.map (·.id) := by
          intro hmem
          obtain ⟨op, hop, heq⟩ := List.mem_map.mp hmem
          exact hrows op hop _ (List.mem_append_right _ (List.mem_singleton_self _)) heq.symm
        refine ⟨List.forall_mem_cons.mpr ⟨hid, hids⟩, List.nodup_cons.mpr ⟨hsrc, hnodup⟩,
          List.forall_mem_cons.mpr ⟨hfresh, fun op hop r hr => ?_⟩, rfl⟩
        exact hrows op hop r (List.mem_append_left _ hr)
      · rintro ⟨hids, hnodup, hrows, rfl⟩
        obtain ⟨hsrc, hnodup⟩ := List.nodup_cons.mp hnodup
        refine ⟨fun op hop => hids op (List.mem_cons_of_mem _ hop), hnodup, fun op hop r hr => ?_, rfl⟩
        rcases List.mem_append.mp hr with hr | hr
        · exact hrows op (List.mem_cons_of_mem _ hop) r hr
        · rw [List.mem_singleton.mp hr]
          exact fun heq => hsrc (List.mem_map.mpr ⟨op, hop, heq.symm⟩)

theorem saveFlow_ok_iff :
    saveFlow J now f db = .ok db' ↔
      f.id ≠ [] ∧ (∀ op ∈ f.operations, op.id ≠ []) ∧ (f.operations.map (·.id)).Nodup ∧
        (∀ op ∈ f.operations, ∀ r ∈ db.operations, r.flowId ≠ f.id → r.id ≠ op.id) ∧
        db' = { flows := upsertFlow now f.toFlowRow db.flows
                operations := db.operations.filter (·.flowId ≠ f.id) ++
                  f.operations.mapIdx (operationRow J f.id) } := by
  unfold saveFlow
  by_cases hid : f.id = []
  · simp [hid]
  rw [if_neg hid]
  show (insertOperations J f.id 0 f.operations (db.operations.filter (·.flowId ≠ f.id)) >>=
    fun rows => .ok (Db.mk (upsertFlow now f.toFlowRow db.flows) rows)) = .ok db' ↔ _
  have hinsert := @insertOperations_ok_iff J f.id f.operations 0
    (db.operations.filter (·.flowId ≠ f.id))
  simp only [Nat.zero_add] at hinsert
  cases hrows : insertOperations J f.id 0 f.operations (db.operations.filter (·.flowId ≠ f.id)) with
  | error e =>
    refine iff_of_false nofun fun ⟨_, hids, hnodup, hfresh, _⟩ => ?_
    have hok := hinsert.mpr ⟨hids, hnodup, fun op hop r hr => ?_, rfl⟩
    · rw [hrows] at hok
      cases hok
    · obtain ⟨hr, hother⟩ := List.mem_filter.mp hr
      exact hfresh op hop r hr (of_decide_eq_true hother)
  | ok rows =>
    obtain ⟨hids, hnodup, hfresh, rfl⟩ := hinsert.mp hrows
    constructor
    · intro h
      obtain rfl := Except.ok.inj h
      refine ⟨hid, hids, hnodup, fun op hop r hr hother => ?_, rfl⟩
      exact hfresh op hop r (List.mem_filter.mpr ⟨hr, decide_eq_true hother⟩)
    · rintro ⟨-, -, -, -, rfl⟩
      rfl

/-- The ids after a save: those of the other flows, and those that were saved. -/
theorem map_id_saved (h : saveFlow J now f db = .ok db') :
    db'.operations.map (·.id) =
      (db.operations.filter (·.flowId ≠ f.id)).map (·.id) ++ f.operations.map (·.id) := by
  obtain ⟨-, -, -, -, rfl⟩ := saveFlow_ok_iff.mp h
  rw [List.map_append, map_id_rows]

/-- A save keeps the ids apart. -/
theorem nodup_saved (h : saveFlow J now f db = .ok db')
    (hids : (db.operations.map (·.id)).Nodup) : (db'.operations.map (·.id)).Nodup := by
  obtain ⟨-, -, hnodup, hfresh, -⟩ := saveFlow_ok_iff.mp h
  rw [map_id_saved h]
  refine List.Nodup.append ((List.filter_sublist.map _).nodup hids) hnodup ?_
  intro id hid hid'
  obtain ⟨r, hr, rfl⟩ := List.mem_map.mp hid
  obtain ⟨op, hop, heq⟩ := List.mem_map.mp hid'
  obtain ⟨hr, hother⟩ := List.mem_filter.mp hr
  exact hfresh op hop r hr (of_decide_eq_true hother) heq.symm

/-- A listing has the rows of its flow. -/
theorem order_perm (db : Db) (flowId : Text) :
    (order J db flowId).Perm ((db.operations.filter (·.flowId = flowId)).map OperationRow.id) := by
  unfold order listOperations
  rw [List.map_map]
  exact (List.perm_insertionSort _ _).map _

/-- The rows of a flow are those of its last save. -/
theorem rows_saved (h : saveFlow J now f db = .ok db') :
    db'.operations.filter (·.flowId = f.id) = f.operations.mapIdx (operationRow J f.id) := by
  obtain ⟨-, -, -, -, rfl⟩ := saveFlow_ok_iff.mp h
  have hold : (db.operations.filter (·.flowId ≠ f.id)).filter (·.flowId = f.id) = [] := by
    rw [List.filter_eq_nil_iff]
    intro r hr
    simpa using (List.mem_filter.mp hr).2
  have hnew : (f.operations.mapIdx (operationRow J f.id)).filter (·.flowId = f.id) =
      f.operations.mapIdx (operationRow J f.id) := by
    rw [List.filter_eq_self]
    intro r hr
    obtain ⟨i, hi, rfl⟩ := List.mem_mapIdx.mp hr
    exact decide_eq_true rfl
  show (db.operations.filter (·.flowId ≠ f.id) ++
    f.operations.mapIdx (operationRow J f.id)).filter (·.flowId = f.id) = _
  rw [List.filter_append, hold, hnew, List.nil_append]

/-- The listing after a save is that of the saved operations, sorted by their new
    numbers. -/
theorem listOperations_saved (h : saveFlow J now f db = .ok db') :
    listOperations J db' f.id =
      ((f.operations.mapIdx (operationRow J f.id)).insertionSort OperationRow.before).map
        (scanOperation J) := by
  unfold listOperations
  rw [rows_saved h]

end

-- ============================================================================
-- The order of the query
-- ============================================================================

section

variable {a b c : OperationRow}

theorem before_total (a b : OperationRow) : a.before b ∨ b.before a := by
  unfold OperationRow.before
  rcases Int.lt_trichotomy a.sortOrder b.sortOrder with hlt | heq | hgt
  · exact .inl (.inl hlt)
  · by_cases hid : b.id < a.id
    · exact .inr (.inr ⟨heq.symm, List.lt_asymm hid⟩)
    · exact .inl (.inr ⟨heq, hid⟩)
  · exact .inr (.inl hgt)

theorem before_trans (hab : a.before b) (hbc : b.before c) : a.before c := by
  unfold OperationRow.before at *
  rcases hab with hab | ⟨hab, hid⟩
  · rcases hbc with hbc | ⟨hbc, -⟩
    · exact .inl (by omega)
    · exact .inl (by omega)
  · rcases hbc with hbc | ⟨hbc, hid'⟩
    · exact .inl (by omega)
    · exact .inr ⟨by omega, List.le_trans hid hid'⟩

theorem before_antisymm (hab : a.before b) (hba : b.before a) : a.id = b.id := by
  unfold OperationRow.before at *
  rcases hab with hab | ⟨hab, hid⟩
  · rcases hba with hba | ⟨hba, -⟩
    · omega
    · omega
  · rcases hba with hba | ⟨-, hid'⟩
    · omega
    · exact List.le_antisymm hid hid'

instance : Std.Total OperationRow.before := ⟨before_total⟩

instance : IsTrans OperationRow OperationRow.before := ⟨fun _ _ _ => before_trans⟩

end

/-- `a` comes before `b` in a listing. -/
def FlowOperation.listedBefore (a b : FlowOperation) : Prop :=
  a.sortOrder < b.sortOrder ∨ a.sortOrder = b.sortOrder ∧ ¬ b.id < a.id

/-- No operation with the sort order 0 at the place `i` of the list has one behind it
    whose positive number is below `i`, or is `i` and loses the tie. -/
def ZerosFit (others : Text → Bool) (ops : List FlowOperation) : Prop :=
  ∀ (i : Nat) (z : FlowOperation), ops[i]? = some z → z.sortOrder = 0 → others z.id = true →
    ∀ o ∈ ops, others o.id = true → 0 < o.sortOrder →
      (i : Int) < o.sortOrder ∨ (i : Int) = o.sortOrder ∧ ¬ o.id < z.id

section

variable {J : JsonText} {flowId now : Text} {db db' : Db} {f flow : Flow}
  {others : Text → Bool} {ops ops' : List FlowOperation}

theorem listOperations_sorted (db : Db) (flowId : Text) :
    (listOperations J db flowId).Pairwise FlowOperation.listedBefore := by
  unfold listOperations
  rw [List.pairwise_map]
  exact List.pairwise_insertionSort OperationRow.before _

/-- What decides the place of an operation. -/
def FlowOperation.rank (op : FlowOperation) : Text × Int := (op.id, op.sortOrder)

/-- `ops'` has the other operations at their places in `ops`, with their numbers. -/
def SameOthers (others : Text → Bool) (ops ops' : List FlowOperation) : Prop :=
  ∀ (i : Nat) (k : Text × Int), others k.1 = true →
    (ops'[i]?.map FlowOperation.rank = some k ↔ ops[i]?.map FlowOperation.rank = some k)

theorem SameOthers.symm (h : SameOthers others ops ops') : SameOthers others ops' ops :=
  fun i k hk => (h i k hk).symm

theorem SameOthers.getElem (h : SameOthers others ops ops') {i : Nat} {op : FlowOperation}
    (hop : ops[i]? = some op) (hothers : others op.id = true) :
    ∃ op', ops'[i]? = some op' ∧ op'.id = op.id ∧ op'.sortOrder = op.sortOrder := by
  have hrank : ops[i]?.map FlowOperation.rank = some op.rank := by
    rw [hop, Option.map_some]
  obtain ⟨op', hop', heq⟩ := Option.map_eq_some_iff.mp ((h i op.rank hothers).mpr hrank)
  exact ⟨op', hop', congrArg Prod.fst heq, congrArg Prod.snd heq⟩

/-- The new numbers keep the others in their order exactly when the zeros fit. -/
theorem pairwise_saved_iff (hsorted : ops.Pairwise FlowOperation.listedBefore)
    (hsame : SameOthers others ops ops') :
    (ops'.mapIdx (operationRow J flowId)).Pairwise
        (fun a b => others a.id → others b.id → a.before b) ↔ ZerosFit others ops := by
  rw [List.pairwise_iff_getElem] at hsorted ⊢
  simp only [List.length_mapIdx, List.getElem_mapIdx, operationRow_id, OperationRow.before,
    operationRow_sortOrder]
  constructor
  · intro h i z hz hzero hothers o ho hothers' hpos
    obtain ⟨j, hj, rfl⟩ := List.getElem_of_mem ho
    obtain ⟨hi, rfl⟩ := List.getElem?_eq_some_iff.mp hz
    have hij : i < j := by
      rcases Nat.lt_trichotomy i j with hlt | heq | hgt
      · exact hlt
      · subst heq
        omega
      · rcases hsorted j i hj hi hgt with hlt | ⟨heq, -⟩
        · omega
        · omega
    obtain ⟨z', hz', hzid, hznum⟩ := hsame.getElem hz hothers
    obtain ⟨o', ho', hoid, honum⟩ := hsame.getElem (List.getElem?_eq_getElem hj) hothers'
    obtain ⟨hi', rfl⟩ := List.getElem?_eq_some_iff.mp hz'
    obtain ⟨hj', rfl⟩ := List.getElem?_eq_some_iff.mp ho'
    have hbefore := h i j hi' hj' hij (by rwa [hzid]) (by rwa [hoid])
    rw [hzid, hoid, hznum, honum, if_pos hzero, if_neg (by omega)] at hbefore
    exact hbefore
  · intro h i j hi' hj' hij hothers hothers'
    obtain ⟨a, ha, haid, hanum⟩ := hsame.symm.getElem (List.getElem?_eq_getElem hi') hothers
    obtain ⟨b, hb, hbid, hbnum⟩ := hsame.symm.getElem (List.getElem?_eq_getElem hj') hothers'
    obtain ⟨hi, rfl⟩ := List.getElem?_eq_some_iff.mp ha
    obtain ⟨hj, rfl⟩ := List.getElem?_eq_some_iff.mp hb
    have hlisted := hsorted i j hi hj hij
    unfold FlowOperation.listedBefore at hlisted
    rw [← haid] at hothers ⊢
    rw [← hbid] at hothers' ⊢
    rw [← hanum, ← hbnum]
    by_cases hazero : ops[i].sortOrder = 0
    · rw [if_pos hazero]
      by_cases hbzero : ops[j].sortOrder = 0
      · rw [if_pos hbzero]
        exact .inl (by omega)
      · -- behind a zero comes a positive number
        rw [if_neg hbzero]
        exact h i _ ha hazero hothers _ (List.getElem_mem hj) hothers' (by omega)
    · rw [if_neg hazero]
      by_cases hbzero : ops[j].sortOrder = 0
      · rw [if_pos hbzero]
        exact .inl (by omega)
      · rw [if_neg hbzero]
        exact hlisted

theorem getFlow_some {flow : Flow} (h : getFlow J db flowId = some flow) :
    flow.id = flowId ∧ flow.operations = listOperations J db flowId := by
  obtain ⟨row, hrow, rfl⟩ := Option.map_eq_some_iff.mp h
  obtain rfl := queryFlow_id hrow
  exact ⟨rfl, rfl⟩

theorem order_saved_iff (h : saveFlow J now f db = .ok db')
    (hids : (f.operations.map (·.id)).filter others = (order J db f.id).filter others)
    (hsame : SameOthers others (listOperations J db f.id) f.operations) :
    (order J db' f.id).filter others = (order J db f.id).filter others ↔
      ZerosFit others (listOperations J db f.id) := by
  obtain ⟨-, -, hnodup, -, -⟩ := saveFlow_ok_iff.mp h
  have hkeys : (f.operations.mapIdx (operationRow J f.id)).map OperationRow.id =
      f.operations.map (·.id) :=
    map_id_rows f.operations
  have hsaved : order J db' f.id =
      ((f.operations.mapIdx (operationRow J f.id)).insertionSort OperationRow.before).map
        OperationRow.id := by
    unfold order
    rw [listOperations_saved h, List.map_map]
    rfl
  have hpair : (f.operations.mapIdx (operationRow J f.id)).Pairwise _ ↔ _ :=
    pairwise_saved_iff (listOperations_sorted db f.id) hsame
  rw [← hpair, ← hids, hsaved, ← hkeys]
  exact Sorted.map_filter_insertionSort_iff others (by rwa [hkeys])
    fun a _ b _ hab hba => before_antisymm hab hba

end

-- ============================================================================
-- The requests
-- ============================================================================

section

variable {J : JsonText} {flowId opId now : Text} {db db' : Db} {f flow : Flow} {r : Request}
  {others : Text → Bool}

/-- A request on operations: load, edit, save. -/
theorem handle_eq (hmethod : r.method ≠ .flowsSave) (hid : r.flowId = .ok flowId) :
    handle J r db =
      match getFlow J db flowId with
      | none => .error (flowNotFound flowId)
      | some flow => (edit J r flow).bind fun f => (saveFlow J r.now f db).mapError storeError := by
  unfold handle
  split
  · contradiction
  · rw [hid]
    rfl

theorem handle_ok (hmethod : r.method ≠ .flowsSave) (hid : r.flowId = .ok flowId)
    (h : handle J r db = .ok db') :
    ∃ flow f, getFlow J db flowId = some flow ∧ edit J r flow = .ok f ∧
      saveFlow J r.now f db = .ok db' := by
  rw [handle_eq hmethod hid] at h
  split at h
  · cases h
  · rename_i flow hload
    cases hedit : edit J r flow with
    | error e =>
      rw [hedit] at h
      cases h
    | ok f =>
      rw [hedit] at h
      change (saveFlow J r.now f db).mapError storeError = _ at h
      cases hsave : saveFlow J r.now f db with
      | error e =>
        rw [hsave] at h
        cases h
      | ok db'' =>
        rw [hsave] at h
        obtain rfl := Except.ok.inj h
        exact ⟨flow, f, hload, hedit, hsave⟩

theorem edit_create (hmethod : r.method = .operationsCreate) (h : edit J r flow = .ok f) :
    ∃ new, f = { flow with operations := flow.operations ++ [new] } := by
  unfold edit at h
  rw [hmethod] at h
  obtain ⟨raw, -, h⟩ := bind_eq_ok h
  unfold createOperation at h
  obtain ⟨op, -, h⟩ := bind_eq_ok h
  obtain rfl := Except.ok.inj h
  exact ⟨_, rfl⟩

theorem edit_update (hmethod : r.method = .operationsUpdate)
    (hop : r.params.requireString "operationID".toList = .ok opId) (h : edit J r flow = .ok f) :
    ∃ i old new, flow.operations[i]? = some old ∧ old.id = opId ∧ new.id = opId ∧
      f = { flow with operations := flow.operations.set i new } := by
  unfold edit at h
  rw [hmethod] at h
  obtain ⟨opId', hop', h⟩ := bind_eq_ok h
  obtain rfl := Except.ok.inj (hop.symm.trans hop')
  obtain ⟨patch, -, h⟩ := bind_eq_ok h
  unfold updateOperation at h
  obtain ⟨old, hold, h⟩ := bind_eq_ok h
  obtain ⟨op, -, h⟩ := bind_eq_ok h
  obtain rfl := Except.ok.inj h
  have hfound : flow.operations.findIdx (·.id = opId) < flow.operations.length := by
    unfold okOr at hold
    cases hfind : flow.operations.find? (·.id = opId) with
    | none =>
      rw [hfind] at hold
      cases hold
    | some found =>
      rw [List.findIdx_lt_length]
      have hid := List.find?_some hfind
      exact ⟨found, List.mem_of_find?_eq_some hfind, hid⟩
  refine ⟨_, _, _, List.getElem?_eq_getElem hfound, ?_, ?_, rfl⟩
  · exact of_decide_eq_true (List.findIdx_getElem (w := hfound))
  · rfl

variable (J) in
/-- A flow is written back: loaded and saved as it is, or by a request that adds or
    changes one operation.  With the ids of the operations that are left alone. -/
inductive Resaved (db : Db) (flowId : Text) : (Text → Bool) → Db → Prop where
  | save {flow : Flow} {now : Text} {db' : Db} :
      getFlow J db flowId = some flow → saveFlow J now flow db = .ok db' →
      Resaved db flowId (fun _ => true) db'
  | create {r : Request} {db' : Db} :
      r.method = .operationsCreate → r.flowId = .ok flowId → handle J r db = .ok db' →
      Resaved db flowId (fun id => (order J db flowId).contains id) db'
  | update {r : Request} {opId : Text} {db' : Db} :
      r.method = .operationsUpdate → r.flowId = .ok flowId →
      r.params.requireString "operationID".toList = .ok opId → handle J r db = .ok db' →
      Resaved db flowId (fun id => id ≠ opId) db'

/-- The other operations keep their order exactly when none of them that has the sort
    order 0 comes to meet or pass, at its place in the list, a positive one behind it. -/
theorem order_kept_iff (h : Resaved J db flowId others db') :
    (order J db' flowId).filter others = (order J db flowId).filter others ↔
      ZerosFit others (listOperations J db flowId) := by
  cases h with
  | save hload hsave =>
    obtain ⟨rfl, hops⟩ := getFlow_some hload
    refine order_saved_iff hsave ?_ fun i k _ => ?_
    · rw [hops, order]
    · rw [hops]
  | @create r _ hmethod hid hhandle =>
    obtain ⟨flow, f, hload, hedit, hsave⟩ := handle_ok (by rw [hmethod]; decide) hid hhandle
    obtain ⟨rfl, hops⟩ := getFlow_some hload
    obtain ⟨new, rfl⟩ := edit_create hmethod hedit
    obtain ⟨-, -, hnodup, -, -⟩ := saveFlow_ok_iff.mp hsave
    have hnew : (order J db flow.id).contains new.id = false := by
      rw [hops, List.map_append] at hnodup
      rw [Bool.eq_false_iff, Ne, List.contains_iff_mem]
      intro hmem
      exact List.disjoint_of_nodup_append hnodup hmem (List.mem_singleton_self _)
    refine order_saved_iff (f := { flow with operations := flow.operations ++ [new] }) hsave ?_
      fun i k hk => ?_
    · show ((flow.operations ++ [new]).map (·.id)).filter _ = _
      rw [List.map_append, List.filter_append, hops]
      have hnone : ([new].map (·.id)).filter
          (fun id => (order J db flow.id).contains id) = [] := by
        rw [List.filter_eq_nil_iff]
        intro id hmem
        rw [List.mem_singleton.mp hmem, hnew]
        exact Bool.false_ne_true
      rw [hnone, List.append_nil, order]
    · show (flow.operations ++ [new])[i]?.map FlowOperation.rank = some k ↔ _
      rw [← hops]
      rcases Nat.lt_trichotomy i flow.operations.length with hlt | heq | hgt
      · rw [List.getElem?_append_left hlt]
      · rw [heq, List.getElem?_concat_length, List.getElem?_eq_none (Nat.le_refl _)]
        refine iff_of_false (fun hrank => ?_) nofun
        obtain rfl := Option.some.inj hrank
        exact Bool.false_ne_true (hnew.symm.trans hk)
      · rw [List.getElem?_eq_none (by simp; omega), List.getElem?_eq_none (by omega)]
  | @update r opId _ hmethod hid hop hhandle =>
    obtain ⟨flow, f, hload, hedit, hsave⟩ := handle_ok (by rw [hmethod]; decide) hid hhandle
    obtain ⟨rfl, hops⟩ := getFlow_some hload
    obtain ⟨i, old, new, hget, hold, hnew, rfl⟩ := edit_update hmethod hop hedit
    obtain ⟨hi, rfl⟩ := List.getElem?_eq_some_iff.mp hget
    have hset : (flow.operations.set i new).map (·.id) = flow.operations.map (·.id) := by
      rw [List.map_set, hnew]
      apply List.ext_getElem?
      intro j
      by_cases hij : i = j
      · subst hij
        rw [List.getElem?_set_self (by rwa [List.length_map]), List.getElem?_map, hget,
          Option.map_some, hold]
      · rw [List.getElem?_set_ne hij]
    refine order_saved_iff (f := { flow with operations := flow.operations.set i new }) hsave ?_
      fun j k hk => ?_
    · show ((flow.operations.set i new).map (·.id)).filter _ = _
      rw [hset, hops, order]
    · show (flow.operations.set i new)[j]?.map FlowOperation.rank = some k ↔ _
      rw [← hops]
      by_cases hij : i = j
      · subst hij
        rw [List.getElem?_set_self hi, hget]
        refine iff_of_false (fun hrank => ?_) fun hrank => ?_
        · obtain rfl := Option.some.inj hrank
          exact of_decide_eq_true hk hnew
        · obtain rfl := Option.some.inj hrank
          exact of_decide_eq_true hk hold
      · rw [List.getElem?_set_ne hij]

end

namespace Sample

/-- `operations.update` of an operation of the flow `f`, with a new action. -/
def update (id : String) : Request where
  method := .operationsUpdate
  params := [("flowID".toList, .string "f".toList), ("operationID".toList, .string id.toList),
    ("patch".toList, .object [("action".toList, .string "bi".toList)])]
  uuids := []
  now := "2026-01-01 00:00:00".toList

/-- `flows.save` of the operations `z`, `a` before it and `b` behind it. -/
def saveTied : Request where
  method := .flowsSave
  params := [("flow".toList, .object [("id".toList, .string "f".toList),
    ("operations".toList, .array [
      .object [("id".toList, .string "z".toList)],
      .object [("id".toList, .string "a".toList), ("sortOrder".toList, .number (.int (-5)))],
      .object [("id".toList, .string "b".toList), ("sortOrder".toList, .number (.int 1))]])])]
  uuids := []
  now := "2026-01-01 00:00:00".toList

end Sample

/-- Three operations, the second of them changed. -/
theorem order_kept_two : ∃ db db' : Db,
    handleAll Sample.json [Sample.create "b", Sample.create "a", Sample.create "c"] Sample.db =
      .ok db ∧ handle Sample.json (Sample.update "a") db = .ok db' ∧
      (order Sample.json db' "f".toList).filter (· ≠ "a".toList) = ["b".toList, "c".toList] := by
  obtain ⟨db, hdb, db', hdb', horder, hfit⟩ : ∃ db : Db,
      handleAll Sample.json [Sample.create "b", Sample.create "a", Sample.create "c"] Sample.db =
        .ok db ∧ ∃ db' : Db, handle Sample.json (Sample.update "a") db = .ok db' ∧
        (order Sample.json db "f".toList).filter (· ≠ "a".toList) = ["b".toList, "c".toList] ∧
        (listOperations Sample.json db "f".toList).map FlowOperation.rank =
          [("b".toList, 0), ("a".toList, 1), ("c".toList, 2)] :=
    ⟨_, rfl, _, rfl, by decide +kernel, by decide +kernel⟩
  have hrank : ∀ (i : Nat) (op : FlowOperation),
      (listOperations Sample.json db "f".toList)[i]? = some op →
        [("b".toList, (0 : Int)), ("a".toList, 1), ("c".toList, 2)][i]? = some op.rank := by
    intro i op hop
    rw [← hfit, List.getElem?_map, hop, Option.map_some]
  refine ⟨db, db', hdb, hdb', ?_⟩
  rw [← horder]
  refine (order_kept_iff (.update rfl rfl rfl hdb')).mpr ?_
  intro i z hz hzero _ o _ _ hpos
  -- the only 0 comes first
  match i, hrank i z hz with
  | 0, _ => exact .inl hpos
  | 1, heq =>
    have hone : 1 = z.sortOrder := congrArg Prod.snd (Option.some.inj heq)
    omega
  | 2, heq =>
    have htwo : 2 = z.sortOrder := congrArg Prod.snd (Option.some.inj heq)
    omega

/-- A stored 0 behind a negative number meets the 1 behind it, and loses the tie. -/
theorem zero_passed : ¬ ∀ (J : JsonText) (rs : List Request) (db : Db),
    handleAll J rs { flows := [], operations := [] } = .ok db →
      ∀ (flowId : Text) (others : Text → Bool) (db' : Db), Resaved J db flowId others db' →
        (order J db' flowId).filter others = (order J db flowId).filter others := by
  intro h
  obtain ⟨db, hdb, flow, hload, db', hsave, hbefore, hafter⟩ : ∃ db : Db,
      handleAll Sample.json [Sample.saveTied] { flows := [], operations := [] } = .ok db ∧
        ∃ flow : Flow, getFlow Sample.json db "f".toList = some flow ∧
          ∃ db' : Db, saveFlow Sample.json [] flow db = .ok db' ∧
            order Sample.json db "f".toList = ["a".toList, "z".toList, "b".toList] ∧
            order Sample.json db' "f".toList = ["a".toList, "b".toList, "z".toList] :=
    ⟨_, rfl, _, rfl, _, rfl, by decide +kernel, by decide +kernel⟩
  have hkept := h Sample.json _ db hdb "f".toList _ db' (.save hload hsave)
  rw [hbefore, hafter] at hkept
  exact absurd hkept (by decide)

end GnDrive.Flows
