/-
  GnDrive.Flows.Patch

  `operations.update`: the patch over the JSON form of the stored operation, parsed
  again.

  The JSON form of a listed operation parses to that operation
  (`parse_operationJson`), and a field is read from its own key, so a key that the
  patch does not name gives back the old field.  The action has two places, the
  column and the options: the options follow the column.
-/

import GnDrive.Flows.Operations

namespace GnDrive.Flows

open Rpc (Json JsonDict RpcError bind_eq_ok)

section

variable (J : JsonText)

/-- The options of an operation. -/
def readConfig (d : JsonDict) : Except RpcError JsonDict := do
  match ← d.dict "syncConfig".toList with
  | some cfg => return cfg
  | none =>
      match ← d.string "syncConfig".toList with
      | some s =>
          match J.fromStr s with
          | some (.object m) => return m
          | _ => return []
      | none => return []

end

/-- What a patch leaves of an operation: the fields it does not name, and of the
    options, which follow the action, all but the action. -/
structure Patched (patch : JsonDict) (old new : FlowOperation) : Prop where
  id : new.id = old.id
  flowId : new.flowId = old.flowId
  sourceRemote : patch.get "sourceRemote".toList = none → new.sourceRemote = old.sourceRemote
  sourcePath : patch.get "sourcePath".toList = none → new.sourcePath = old.sourcePath
  targetRemote : patch.get "targetRemote".toList = none → new.targetRemote = old.targetRemote
  targetPath : patch.get "targetPath".toList = none → new.targetPath = old.targetPath
  action : patch.get "action".toList = none → new.action = old.action
  isExpanded : patch.get "isExpanded".toList = none → new.isExpanded = old.isExpanded
  syncConfig : patch.get "syncConfig".toList = none →
    new.syncConfig = old.syncConfig.insert "action".toList (.string new.action)

section

variable {J : JsonText} {busy : Text → Bool} {flowId : Text} {db db' : Db} {d d' patch : JsonDict}
  {op old new : FlowOperation} {f flow : Flow} {r : Request}

/-- An operation is parsed field by field. -/
theorem parseOperation_eq :
    parseOperation J d flowId = do
      let syncConfig ← readConfig J d
      let id ← d.string "id".toList
      let sourceRemote ← d.string "sourceRemote".toList
      let sourcePath ← d.string "sourcePath".toList
      let targetRemote ← d.string "targetRemote".toList
      let targetPath ← d.string "targetPath".toList
      let action ← d.string "action".toList
      let isExpanded ← d.bool "isExpanded".toList
      let sortOrder ← d.int "sortOrder".toList
      return FlowOperation.normalizeAction
        { id := id.getD [], flowId
          sourceRemote := sourceRemote.getD [], sourcePath := sourcePath.getD "/".toList
          targetRemote := targetRemote.getD [], targetPath := targetPath.getD "/".toList
          action := action.getD [], syncConfig
          isExpanded := isExpanded.getD false, sortOrder := sortOrder.getD 0 } := by
  unfold parseOperation readConfig
  cases d.dict "syncConfig".toList with
  | error e => rfl
  | ok cfg =>
    cases cfg with
    | some cfg => rfl
    | none =>
      cases d.string "syncConfig".toList with
      | error e => rfl
      | ok s =>
        cases s with
        | none => rfl
        | some s =>
          dsimp only [bind, Except.bind]
          cases J.fromStr s with
          | none => rfl
          | some v => cases v <;> rfl

-- ============================================================================
-- The JSON form
-- ============================================================================

theorem readConfig_json (op : FlowOperation) :
    readConfig J (operationJson op) = .ok op.syncConfig := rfl

/-- The JSON form of a listed operation parses to that operation; the number is an
    `i64`. -/
theorem parse_operationJson (hop : op.Listed flowId) :
    parseOperation J (operationJson op) flowId =
      .ok { op with sortOrder := Rpc.saturate op.sortOrder } := by
  obtain ⟨haction, -⟩ := FlowOperation.normal_iff.mp hop.normal
  have hform : parseOperation J (operationJson op) flowId =
      .ok (FlowOperation.normalizeAction
        { op with
          flowId := flowId, action := op.resolvedAction
          sortOrder := Rpc.saturate op.sortOrder }) := by
    rw [parseOperation_eq, readConfig_json]
    rfl
  rw [hform, haction, ← hop.flowId]
  exact congrArg _ (hop.numbered _).normal

theorem readConfig_congr (h : d.get "syncConfig".toList = d'.get "syncConfig".toList) :
    readConfig J d = readConfig J d' := by
  have hsame : JsonDict.SameAt "syncConfig".toList d d' := JsonDict.sameAt_of_get (by decide) h
  unfold readConfig
  rw [hsame.dict, hsame.string]

-- ============================================================================
-- The patch
-- ============================================================================

theorem get_foldl_insert {l : List (Text × Json)} {k : Text} (m : JsonDict)
    (h : ∀ kv ∈ l, kv.1 ≠ k) : (l.foldl (fun m kv => m.insert kv.1 kv.2) m).get k = m.get k := by
  induction l generalizing m with
  | nil => rfl
  | cons kv l ih =>
    rw [List.foldl_cons, ih _ fun kv' hkv' => h kv' (List.mem_cons_of_mem _ hkv')]
    exact JsonDict.get_insert_of_ne m kv.2 (Ne.symm (h kv List.mem_cons_self))

/-- A key that the patch does not name. -/
theorem get_merged {fixed : List Text} {k : Text} (h : patch.get k = none) :
    ((patch.filter fun kv => !fixed.contains kv.1).foldl (fun m kv => m.insert kv.1 kv.2)
      (operationJson old)).get k = (operationJson old).get k := by
  refine get_foldl_insert _ fun kv hkv heq => ?_
  have hfound := List.find?_eq_none.mp (Option.map_eq_none_iff.mp h) kv (List.mem_of_mem_filter hkv)
  exact hfound (decide_eq_true heq)

/-- A parse of the old operation with some of its keys replaced. -/
theorem parse_patched (hold : old.Listed flowId)
    (hkeys : ∀ k, patch.get k = none → d.get k = (operationJson old).get k)
    (h : parseOperation J d flowId = .ok op) :
    op.normalizeAction = op ∧ Patched patch old { op with id := old.id } := by
  rw [parseOperation_eq] at h
  obtain ⟨cfg, hcfg, h⟩ := bind_eq_ok h
  obtain ⟨id, -, h⟩ := bind_eq_ok h
  obtain ⟨sourceRemote, hsr, h⟩ := bind_eq_ok h
  obtain ⟨sourcePath, hsp, h⟩ := bind_eq_ok h
  obtain ⟨targetRemote, htr, h⟩ := bind_eq_ok h
  obtain ⟨targetPath, htp, h⟩ := bind_eq_ok h
  obtain ⟨action, ha, h⟩ := bind_eq_ok h
  obtain ⟨isExpanded, he, h⟩ := bind_eq_ok h
  obtain ⟨sortOrder, -, h⟩ := bind_eq_ok h
  obtain rfl := Except.ok.inj h
  have hread : ∀ (k v : Text) (x : Option Text), JsonDict.aliases k = [k] →
      (operationJson old).string k = .ok (some v) → d.string k = .ok x → patch.get k = none →
        x = some v := by
    intro k v x hk hjson hx hnone
    rw [(JsonDict.sameAt_of_get hk (hkeys k hnone)).string, hjson] at hx
    exact (Except.ok.inj hx).symm
  refine ⟨FlowOperation.normalizeAction_normalizeAction _, rfl, hold.flowId.symm, ?_, ?_, ?_, ?_, ?_,
    ?_, ?_⟩
  · intro hnone
    rw [hread "sourceRemote".toList old.sourceRemote _ (by decide) rfl hsr hnone]
    rfl
  · intro hnone
    rw [hread "sourcePath".toList old.sourcePath _ (by decide) rfl hsp hnone]
    rfl
  · intro hnone
    rw [hread "targetRemote".toList old.targetRemote _ (by decide) rfl htr hnone]
    rfl
  · intro hnone
    rw [hread "targetPath".toList old.targetPath _ (by decide) rfl htp hnone]
    rfl
  · intro hnone
    rw [hread "action".toList old.resolvedAction _ (by decide) rfl ha hnone]
    obtain ⟨haction, -⟩ := FlowOperation.normal_iff.mp hold.normal
    rw [haction]
    exact FlowOperation.resolvedAction_of_mem (by rw [← haction]; exact old.resolvedAction_mem)
  · intro hnone
    have hjson : (operationJson old).bool "isExpanded".toList = .ok (some old.isExpanded) := rfl
    rw [(JsonDict.sameAt_of_get (by decide) (hkeys _ hnone)).bool, hjson] at he
    obtain rfl := Except.ok.inj he
    rfl
  · intro hnone
    rw [readConfig_congr (hkeys _ hnone), readConfig_json] at hcfg
    obtain rfl := Except.ok.inj hcfg
    rfl

/-- The loaded flow with the patched operation in the place of the old one. -/
theorem edit_patch (hnodup : (flow.operations.map (·.id)).Nodup) (hold : old ∈ flow.operations)
    (hmethod : r.method = .operationsUpdate)
    (hop : r.params.requireString "operationID".toList = .ok old.id)
    (hpatch : r.params.dict "patch".toList = .ok (some patch)) (h : edit J r flow = .ok f) :
    ∃ (i : Nat) (d : JsonDict) (op : FlowOperation), flow.operations[i]? = some old ∧
      (∀ k, patch.get k = none → d.get k = (operationJson old).get k) ∧
      parseOperation J d flow.id = .ok op ∧
      f = { flow with operations := flow.operations.set i (FlowOperation.normalizeAction
        { op with id := old.id, sortOrder := old.sortOrder }) } := by
  have hsame : ∀ other ∈ flow.operations, other.id = old.id → other = old :=
    fun other hother heq => List.inj_on_of_nodup_map hnodup hother hold heq
  unfold edit at h
  rw [hmethod] at h
  dsimp only at h
  rw [hop, hpatch] at h
  change updateOperation J old.id patch flow = .ok f at h
  unfold updateOperation at h
  obtain ⟨found, hfound, h⟩ := bind_eq_ok h
  obtain ⟨op, hparse, h⟩ := bind_eq_ok h
  obtain rfl := Except.ok.inj h
  obtain rfl : found = old := by
    cases hfind : flow.operations.find? (·.id = old.id) with
    | none =>
      rw [hfind] at hfound
      cases hfound
    | some other =>
      rw [hfind] at hfound
      obtain rfl := Except.ok.inj hfound
      have hid := List.find?_some hfind
      exact hsame _ (List.mem_of_find?_eq_some hfind) (of_decide_eq_true hid)
  have hlt : flow.operations.findIdx (·.id = found.id) < flow.operations.length :=
    List.findIdx_lt_length_of_exists ⟨found, hold, decide_eq_true rfl⟩
  refine ⟨flow.operations.findIdx (·.id = found.id), _, op, ?_, fun k hk => get_merged hk, hparse,
    rfl⟩
  rw [List.getElem?_eq_getElem hlt]
  exact congrArg some (hsame _ (List.getElem_mem hlt)
    (of_decide_eq_true (List.findIdx_getElem (w := hlt))))

/-- The operations of a saved flow are listed, at some place. -/
theorem listed_of_saved (h : saveFlow J r.now f db = .ok db') {i : Nat}
    (hop : f.operations[i]? = some op) :
    scanOperation J (operationRow J f.id i op) ∈ listOperations J db' f.id := by
  obtain ⟨hi, rfl⟩ := List.getElem?_eq_some_iff.mp hop
  rw [listOperations_saved h]
  exact List.mem_map_of_mem ((List.mem_insertionSort _).mpr (List.mem_mapIdx.mpr ⟨i, hi, rfl⟩))

/-- What the row of a patched operation gives back. -/
theorem Patched.scan (h : Patched patch old new) (hold : old.Listed flowId)
    (hnormal : new.normalizeAction = new) (hread : ReadsBack J new.syncConfig) (idx : Nat) :
    Patched patch old (scanOperation J (operationRow J flowId idx new)) := by
  rw [scan_row (h.flowId.trans hold.flowId) hnormal hread]
  refine ⟨h.id, h.flowId, h.sourceRemote, fun hnone => ?_, h.targetRemote, fun hnone => ?_, h.action,
    h.isExpanded, h.syncConfig⟩
  · show (if new.sourcePath = [] then _ else new.sourcePath) = _
    rw [h.sourcePath hnone, if_neg hold.sourcePath]
  · show (if new.targetPath = [] then _ else new.targetPath) = _
    rw [h.targetPath hnone, if_neg hold.targetPath]

theorem handleUnless_ok (hmethod : r.method ≠ .flowsSave) (hid : r.flowId = .ok flowId)
    (h : handleUnless J busy r db = .ok db') : handle J r db = .ok db' := by
  cases hbusy : busy flowId with
  | false => rwa [handleUnless_idle hmethod hid hbusy] at h
  | true =>
    unfold handleUnless at h
    split at h
    · contradiction
    · rw [hid] at h
      dsimp only [Except.bind] at h
      rw [hbusy] at h
      cases hload : getFlow J db flowId with
      | none =>
        rw [hload] at h
        cases h
      | some flow =>
        rw [hload] at h
        cases h

theorem Patched.of_nil (h : Patched [] old new) (hold : old.Listed flowId) :
    new = { old with sortOrder := new.sortOrder } := by
  obtain ⟨hid, hflow, hsr, hsp, htr, htp, ha, he, hcfg⟩ := h
  obtain ⟨-, hconfig⟩ := FlowOperation.normal_iff.mp hold.normal
  have hcfg := hcfg rfl
  rw [ha rfl, hconfig] at hcfg
  cases new
  simp only at hid hflow hsr hsp htr htp ha he hcfg
  rw [hid, hflow, hsr rfl, hsp rfl, htr rfl, htp rfl, ha rfl, he rfl, hcfg]

end

namespace Sample

/-- The flow `f`, and its operation `a` before and after the action was changed. -/
theorem stored_updated : ∃ (db db' : Db) (loaded : Flow) (old : FlowOperation), Stored json db ∧
    getFlow json db "f".toList = some loaded ∧ old ∈ loaded.operations ∧ old.id = "a".toList ∧
    old.syncConfig.get "action".toList = some (.string "push".toList) ∧
    (∀ f, edit json (update "a") loaded = .ok f →
      ∀ op ∈ f.operations, ReadsBack json op.syncConfig) ∧
    handleUnless json (fun _ => false) (update "a") db = .ok db' ∧
    ∀ new ∈ listOperations json db' "f".toList, new.id = "a".toList →
      new.syncConfig.get "action".toList = some (.string "bi".toList) := by
  refine ⟨_, _, _, _, .save (f := flow) .empty (show saveFlow json [] flow _ = .ok _ from rfl), rfl, List.mem_cons_self, rfl, rfl,
    ?_, rfl, ?_⟩
  · intro f hf op hop
    obtain rfl := Except.ok.inj hf
    rcases List.mem_cons.mp hop with rfl | hop
    · exact ⟨by decide, rfl⟩
    · obtain rfl := List.mem_singleton.mp hop
      exact ⟨by decide, rfl⟩
  · intro new hnew hid
    obtain ⟨r, hr, -, rfl⟩ := mem_listOperations.mp hnew
    rcases List.mem_cons.mp hr with rfl | hr
    · rfl
    · obtain rfl := List.mem_singleton.mp hr
      exact absurd hid (by decide)

end Sample

end GnDrive.Flows
