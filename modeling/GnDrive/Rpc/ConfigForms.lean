/-
  GnDrive.Rpc.ConfigForms

  The two forms of options in a request: an object, or the text of one.

  `parse_operation` and `parse_board` both go on to read a text where there is no
  object.  The accessor of an object, which comes first, refuses a value of another
  kind, and the reader of the text is reached with no value at all.  Four requests
  bring options to the two parsers (`Giving`): where one of them is accepted with an
  object, it is refused with a text in its place (`refused_with_text`).
-/

import GnDrive.Database.Boards
import GnDrive.Flows.Patch

namespace GnDrive.Rpc.ConfigForms

open Database
open Flows

-- ============================================================================
-- Requests
-- ============================================================================

/-- A request that gives options, but for the options: the operation of a flow, a new
    operation, a patch, the edge of a board. -/
inductive Giving where
  | flowsSave (params flow : JsonDict) (before : List Json) (operation : JsonDict)
      (after : List Json)
  | operationsCreate (params operation : JsonDict)
  | operationsUpdate (params patch : JsonDict)
  | boardsSave (params board : JsonDict) (before : List Json) (edge : JsonDict)
      (after : List Json)

/-- An object with the options. -/
def withConfig (d : JsonDict) (v : Json) : JsonDict := d.insert "syncConfig".toList v

def Giving.params (v : Json) : Giving → JsonDict
  | .flowsSave params flow before operation after =>
      params.insert "flow".toList (.object (flow.insert "operations".toList
        (.array (before ++ .object (withConfig operation v) :: after))))
  | .operationsCreate params operation =>
      params.insert "operation".toList (.object (withConfig operation v))
  | .operationsUpdate params patch =>
      params.insert "patch".toList (.object (withConfig patch v))
  | .boardsSave params board before edge after =>
      params.insert "board".toList (.object (board.insert "edges".toList
        (.array (before ++ .object (withConfig edge v) :: after))))

structure Store (F : Type) where
  flows : Db
  boards : BoardTables F

section

variable {F : Type} [SqlReal F] (J : JsonText) (busy : Text → Bool)

/-- What a request with the options `v` makes of the store. -/
def answer (q : Giving) (uuids : List Text) (now : Text) (v : Json) (st : Store F) :
    Except RpcError (Store F) :=
  let params := q.params v
  let onFlows (method : Method) :=
    (handleUnless J busy { method, params, uuids, now } st.flows).map
      fun db => { st with flows := db }
  match q with
  | .flowsSave .. => onFlows .flowsSave
  | .operationsCreate .. => onFlows .operationsCreate
  | .operationsUpdate .. => onFlows .operationsUpdate
  | .boardsSave .. =>
      (boardsSave J params uuids now st.boards).map fun saved => { st with boards := saved.1 }

/-- The operations and the edges have the same options. -/
structure SameOptions (a b : Store F) : Prop where
  operations : ∀ id, (listOperations J a.flows id).map (·.syncConfig) =
    (listOperations J b.flows id).map (·.syncConfig)
  edges : ∀ id, (loadBoardGraph a.boards id).map (·.edges.map fun e => J.fromStr e.syncConfig) =
    (loadBoardGraph b.boards id).map (·.edges.map fun e => J.fromStr e.syncConfig)

/-- A request is accepted with the object `c` and with the text `s`, and stores the same
    options. -/
def FormsAgree (q : Giving) (uuids : List Text) (now : Text) (c : JsonDict) (s : Text)
    (st : Store F) : Prop :=
  ∃ a b, answer J busy q uuids now (.object c) st = .ok a ∧
    answer J busy q uuids now (.string s) st = .ok b ∧ SameOptions J a b

end

/-- The error of a text. -/
def notAnObject : RpcError := .invalidParams "syncConfig".toList none

section

variable {J : JsonText} {busy : Text → Bool} {c d flow patch : JsonDict} {s flowId : Text}

-- ============================================================================
-- Reading an entry
-- ============================================================================

/-- The first spelling of a key is the key. -/
theorem any?_of_get {k : Text} {v : Json} (h : d.get k = some v) (hnull : v ≠ .null) :
    d.any? k = some v := by
  unfold JsonDict.any? JsonDict.aliases
  rw [List.findSome?_cons, h]
  cases v <;> first | contradiction | rfl

theorem dict_insert_self (d m : JsonDict) (k : Text) :
    (d.insert k (.object m)).dict k = .ok (some m) := by
  unfold JsonDict.dict
  rw [any?_of_get (JsonDict.get_insert_self d k _) (by simp)]

theorem array_insert_self (d : JsonDict) (k : Text) (l : List Json) :
    (d.insert k (.array l)).array k = .ok (some l) := by
  unfold JsonDict.array
  rw [any?_of_get (JsonDict.get_insert_self d k _) (by simp)]

/-- A text is not taken for an object. -/
theorem dict_of_text {k : Text} (h : d.get k = some (.string s)) :
    d.dict k = .error (.invalidParams k none) := by
  unfold JsonDict.dict
  rw [any?_of_get h (by simp)]

-- ============================================================================
-- The parsers
-- ============================================================================

theorem parseOperation_text (h : d.get "syncConfig".toList = some (.string s)) :
    parseOperation J d flowId = .error notAnObject := by
  have hread : readConfig J d = .error notAnObject := by
    unfold readConfig
    rw [dict_of_text h]
    rfl
  rw [parseOperation_eq, hread]
  rfl

theorem parseOperation_withConfig (d : JsonDict) :
    parseOperation J (withConfig d (.string s)) flowId = .error notAnObject :=
  parseOperation_text (JsonDict.get_insert_self d _ _)

theorem parseEdge_withConfig (d : JsonDict) :
    parseEdge J (withConfig d (.string s)) = .error notAnObject := by
  unfold parseEdge withConfig
  rw [dict_of_text (JsonDict.get_insert_self d _ _)]
  rfl

/-- What stands before an element has been read when the element is. -/
theorem mapM_replaced {ε α β : Type} {f : α → Except ε β} {before after : List α} {a b : α} {e : ε}
    {ys : List β} (h : (before ++ a :: after).mapM f = .ok ys) (hb : f b = .error e) :
    (before ++ b :: after).mapM f = .error e := by
  induction before generalizing ys with
  | nil =>
    rw [List.nil_append, List.mapM_cons, hb]
    rfl
  | cons x rest ih =>
    rw [List.cons_append, List.mapM_cons] at h
    obtain ⟨y, hy, h⟩ := bind_eq_ok h
    obtain ⟨zs, hzs, -⟩ := bind_eq_ok h
    rw [List.cons_append, List.mapM_cons, hy]
    show ((rest ++ b :: after).mapM f >>= fun ys => pure (y :: ys)) = .error e
    rw [ih hzs]
    rfl

theorem parseAll_replaced {α : Type} {key : Text} {parse : JsonDict → Except RpcError α}
    {before after : List Json} {m m' : JsonDict} {e : RpcError} {l : List α}
    (h : parseAll key parse (some (before ++ .object m :: after)) = .ok l)
    (hm : parse m' = .error e) :
    parseAll key parse (some (before ++ .object m' :: after)) = .error e :=
  mapM_replaced h hm

/-- The canvas of a flow. -/
def readCanvas (J : JsonText) (p : JsonDict) : Except RpcError Text := do
  match ← p.string "canvasJSON".toList with
  | some (c :: cs) => return c :: cs
  | _ => return ((← p.dict "canvas".toList).map J.toString).getD "\x7b\x7d".toList

/-- A flow is parsed field by field, its operations third. -/
theorem parseFlow_eq (p : JsonDict) :
    parseFlow J p =
      p.string "id".toList >>= fun id =>
      readCanvas J p >>= fun canvasJson =>
      p.array "operations".toList >>= fun raw =>
      parseAll "operations".toList (fun d => parseOperation J d (id.getD [])) raw >>=
      fun operations => do
        let name ← p.string "name".toList
        let isCollapsed ← p.bool "isCollapsed".toList
        let scheduleEnabled ← p.bool "scheduleEnabled".toList
        let scheduleCron ← p.string "scheduleCron".toList
        let sortOrder ← p.int "sortOrder".toList
        return {
          id := id.getD [], name := name.getD [], isCollapsed := isCollapsed.getD false
          scheduleEnabled := scheduleEnabled.getD false, scheduleCron := scheduleCron.getD []
          sortOrder := sortOrder.getD 0, canvasJson, createdAt := [], updatedAt := []
          operations } := by
  unfold parseFlow readCanvas
  cases p.string "id".toList with
  | error e => rfl
  | ok id =>
    -- the text of the canvas, its object and the operations are there or not
    rcases p.array "operations".toList with e | (_ | raw) <;>
      rcases p.dict "canvas".toList with e | canvas <;>
      rcases p.string "canvasJSON".toList with e | (_ | (_ | ⟨c, cs⟩)) <;>
      rfl

/-- Before the operations nothing of a flow is read from them. -/
theorem parseFlow_replaced {before after : List Json} {m m' : JsonDict} {e : RpcError} {f : Flow}
    (h : parseFlow J (flow.insert "operations".toList (.array (before ++ .object m :: after))) =
      .ok f)
    (hm : ∀ flowId, parseOperation J m' flowId = .error e) :
    parseFlow J (flow.insert "operations".toList (.array (before ++ .object m' :: after))) =
      .error e := by
  have hid : ∀ v, (flow.insert "operations".toList v).string "id".toList =
      flow.string "id".toList :=
    fun v => (JsonDict.sameAt_insert flow v (by decide)).string
  have hcanvas : ∀ v, readCanvas J (flow.insert "operations".toList v) = readCanvas J flow := by
    intro v
    unfold readCanvas
    rw [(JsonDict.sameAt_insert flow v (by decide)).string,
      (JsonDict.sameAt_insert flow v (by decide)).dict]
  rw [parseFlow_eq, hid, hcanvas, array_insert_self] at h
  obtain ⟨id, hread, h⟩ := bind_eq_ok h
  obtain ⟨canvas, hreadCanvas, h⟩ := bind_eq_ok h
  obtain ⟨raw, hraw, h⟩ := bind_eq_ok h
  obtain ⟨operations, hops, -⟩ := bind_eq_ok h
  obtain rfl := Except.ok.inj hraw
  rw [parseFlow_eq, hid, hcanvas, array_insert_self, hread, hreadCanvas]
  show (parseAll _ _ _ >>= _) = _
  rw [parseAll_replaced hops (hm _)]
  rfl

theorem parseBoard_replaced {F : Type} [SqlReal F] {board : JsonDict} {before after : List Json}
    {m m' : JsonDict} {e : RpcError} {b : Database.Board F}
    (h : parseBoard J (board.insert "edges".toList (.array (before ++ .object m :: after))) = .ok b)
    (hm : parseEdge J m' = .error e) :
    parseBoard J (board.insert "edges".toList (.array (before ++ .object m' :: after))) =
      (.error e : Except RpcError (Database.Board F)) := by
  have hnodes : ∀ v, (board.insert "edges".toList v).array "nodes".toList =
      board.array "nodes".toList :=
    fun v => (JsonDict.sameAt_insert board v (by decide)).array
  unfold parseBoard at h ⊢
  rw [hnodes, array_insert_self] at h ⊢
  obtain ⟨raw, hraw, h⟩ := bind_eq_ok h
  obtain ⟨nodes, hread, h⟩ := bind_eq_ok h
  obtain ⟨rawEdges, hrawEdges, h⟩ := bind_eq_ok h
  obtain ⟨edges, hedges, -⟩ := bind_eq_ok h
  obtain rfl := Except.ok.inj hrawEdges
  rw [hraw]
  show (parseAll _ _ _ >>= _) = _
  rw [hread]
  show (parseAll _ _ _ >>= _) = _
  rw [parseAll_replaced hedges hm]
  rfl

-- ============================================================================
-- The edits
-- ============================================================================

/-- All entries of a key hold what was put in last. -/
theorem mem_insert {k : Text} {v : Json} {kv : Text × Json} (h : kv ∈ d.insert k v)
    (hk : kv.1 = k) : kv.2 = v := by
  unfold JsonDict.insert at h
  split at h
  · obtain ⟨old, -, rfl⟩ := List.mem_map.mp h
    by_cases hold : old.1 = k
    · rw [if_pos hold]
    · rw [if_neg hold] at hk
      exact absurd hk hold
  · rename_i hany
    rcases List.mem_append.mp h with h | h
    · exact absurd (List.any_eq_true.mpr ⟨kv, h, decide_eq_true hk⟩) hany
    · rw [List.mem_singleton.mp h]

theorem get_foldl_of_mem {k : Text} {v : Json} {l : List (Text × Json)}
    (hl : ∀ kv ∈ l, kv.1 = k → kv.2 = v) (m : JsonDict)
    (h : m.get k = some v ∨ ∃ kv ∈ l, kv.1 = k) :
    (l.foldl (fun m kv => m.insert kv.1 kv.2) m).get k = some v := by
  induction l generalizing m with
  | nil =>
    rcases h with h | ⟨kv, hkv, -⟩
    · exact h
    · cases hkv
  | cons kv rest ih =>
    rw [List.foldl_cons]
    apply ih fun x hx => hl x (List.mem_cons_of_mem kv hx)
    by_cases hk : kv.1 = k
    · left
      rw [hk, hl kv List.mem_cons_self hk]
      exact JsonDict.get_insert_self m k v
    · rcases h with h | ⟨x, hx, hxk⟩
      · left
        rw [JsonDict.get_insert_of_ne m kv.2 (Ne.symm hk)]
        exact h
      · right
        rcases List.mem_cons.mp hx with rfl | hx
        · exact absurd hxk hk
        · exact ⟨x, hx, hxk⟩

/-- A patch with the options over an operation. -/
theorem get_patched {fixed : List Text} {k : Text} (m patch : JsonDict) (v : Json)
    (hk : fixed.contains k = false) :
    (((patch.insert k v).filter fun kv => !fixed.contains kv.1).foldl
      (fun m kv => m.insert kv.1 kv.2) m).get k = some v := by
  apply get_foldl_of_mem
  · intro kv hkv
    exact mem_insert (List.mem_of_mem_filter hkv)
  · right
    obtain ⟨kv, hfind, -⟩ := Option.map_eq_some_iff.mp (JsonDict.get_insert_self patch k v)
    have hkey : kv.1 = k := by simpa using List.find?_some hfind
    refine ⟨kv, List.mem_filter.mpr ⟨List.mem_of_find?_eq_some hfind, ?_⟩, hkey⟩
    rw [hkey, hk]
    rfl

theorem createOperation_text {uuid : Text} (f : Flow) :
    createOperation J (withConfig d (.string s)) uuid f = .error notAnObject := by
  unfold createOperation
  rw [parseOperation_withConfig]
  rfl

/-- The operation to patch is found before its patch is read. -/
theorem updateOperation_replaced {opId : Text} {f f' : Flow} {v : Json}
    (h : updateOperation J opId (withConfig patch v) f = .ok f') :
    updateOperation J opId (withConfig patch (.string s)) f = .error notAnObject := by
  unfold updateOperation withConfig at h ⊢
  obtain ⟨old, hold, -⟩ := bind_eq_ok h
  rw [hold]
  show (parseOperation J _ f.id >>= _) = _
  rw [parseOperation_text (get_patched (operationJson old) patch (.string s) (by decide))]
  rfl

/-! ## Requests on operations -/

theorem handleUnless_eq {r : Request} {db : Db} (hmethod : r.method ≠ .flowsSave)
    (hid : r.flowId = .ok flowId) :
    handleUnless J busy r db =
      match getFlow J db flowId with
      | none => .error (flowNotFound flowId)
      | some f =>
          if busy flowId then .error (flowBusy flowId)
          else (edit J r f).bind fun f => (saveFlow J r.now f db).mapError storeError := by
  unfold handleUnless
  split
  · contradiction
  · rw [hid]
    rfl

/-- A request that loads the flow another one loads, and fails where that one edits it. -/
theorem handleUnless_replaced {r r' : Request} {db db' : Db} {e : RpcError}
    (hmethod : r.method ≠ .flowsSave) (hmethod' : r'.method ≠ .flowsSave)
    (hid : r'.flowId = r.flowId)
    (hedit : ∀ f f', edit J r f = .ok f' → edit J r' f = .error e)
    (h : handleUnless J busy r db = .ok db') : handleUnless J busy r' db = .error e := by
  cases hflow : r.flowId with
  | error err =>
    rw [handleUnless_error hmethod hflow] at h
    cases h
  | ok id =>
    rw [handleUnless_eq hmethod hflow] at h
    rw [handleUnless_eq hmethod' (hid.trans hflow)]
    cases hload : getFlow J db id with
    | none =>
      rw [hload] at h
      cases h
    | some f =>
      rw [hload] at h
      dsimp only at h ⊢
      cases hbusy : busy id with
      | true =>
        rw [hbusy, if_pos rfl] at h
        cases h
      | false =>
        rw [hbusy, if_neg (by decide)] at h
        rw [if_neg (by decide)]
        obtain ⟨f', hf', -⟩ := bind_eq_ok h
        rw [hedit f f' hf']
        rfl

-- ============================================================================
-- The requests
-- ============================================================================

section

variable {F : Type} [SqlReal F] {uuids : List Text} {now : Text} {before after : List Json}
  {params board operation edge : JsonDict}

theorem flowsSave_replaced {db db' : Db}
    (h : handleUnless J busy
      { method := .flowsSave, uuids, now
        params := (Giving.flowsSave params flow before operation after).params (.object c) } db =
          .ok db') :
    handleUnless J busy
      { method := .flowsSave, uuids, now
        params := (Giving.flowsSave params flow before operation after).params (.string s) } db =
          .error notAnObject := by
  unfold handleUnless savedFlow Giving.params at h ⊢
  dsimp only at h ⊢
  rw [dict_insert_self] at h ⊢
  obtain ⟨f, hf, -⟩ := bind_eq_ok h
  obtain ⟨raw, hraw, hf⟩ := bind_eq_ok hf
  obtain rfl := Except.ok.inj hraw
  obtain ⟨parsed, hparsed, -⟩ := bind_eq_ok hf
  dsimp only [bind, Except.bind]
  rw [parseFlow_replaced hparsed fun flowId => parseOperation_withConfig operation]

theorem operationsCreate_replaced {db db' : Db}
    (h : handleUnless J busy
      { method := .operationsCreate, uuids, now
        params := (Giving.operationsCreate params operation).params (.object c) } db = .ok db') :
    handleUnless J busy
      { method := .operationsCreate, uuids, now
        params := (Giving.operationsCreate params operation).params (.string s) } db =
          .error notAnObject := by
  have hid : ∀ m, (params.insert "operation".toList m).requireString "flowID".toList =
      params.requireString "flowID".toList :=
    fun m => (JsonDict.sameAt_insert params m (by decide)).requireString
  refine handleUnless_replaced (by simp) (by simp) ?_ ?_ h
  · unfold Request.flowId Giving.params
    dsimp only
    rw [hid, hid, dict_insert_self, dict_insert_self]
    rfl
  · intro f f' hf
    unfold edit Giving.params
    dsimp only
    rw [dict_insert_self]
    exact createOperation_text f

theorem operationsUpdate_replaced {patch : JsonDict} {db db' : Db}
    (h : handleUnless J busy
      { method := .operationsUpdate, uuids, now
        params := (Giving.operationsUpdate params patch).params (.object c) } db = .ok db') :
    handleUnless J busy
      { method := .operationsUpdate, uuids, now
        params := (Giving.operationsUpdate params patch).params (.string s) } db =
          .error notAnObject := by
  have hid : ∀ k m, "patch".toList ∉ JsonDict.aliases k →
      (params.insert "patch".toList m).requireString k = params.requireString k :=
    fun k m hk => (JsonDict.sameAt_insert params m hk).requireString
  refine handleUnless_replaced (by simp) (by simp) ?_ ?_ h
  · unfold Request.flowId Giving.params
    dsimp only
    rw [hid _ _ (by decide), hid _ _ (by decide), hid _ _ (by decide), hid _ _ (by decide),
      dict_insert_self, dict_insert_self]
    rfl
  · intro f f' hf
    unfold edit Giving.params at hf ⊢
    dsimp only at hf ⊢
    rw [hid _ _ (by decide), dict_insert_self] at hf ⊢
    obtain ⟨opId, hop, hf⟩ := bind_eq_ok hf
    rw [hop]
    exact updateOperation_replaced hf

theorem boardsSave_replaced {db : BoardTables F} {saved : BoardTables F × Database.Board F}
    (h : boardsSave J ((Giving.boardsSave params board before edge after).params (.object c)) uuids
      now db = .ok saved) :
    boardsSave J ((Giving.boardsSave params board before edge after).params (.string s)) uuids now
      db = .error notAnObject := by
  unfold boardsSave Giving.params at h ⊢
  dsimp only at h ⊢
  rw [dict_insert_self] at h ⊢
  obtain ⟨raw, hraw, h⟩ := bind_eq_ok h
  obtain rfl := Except.ok.inj hraw
  obtain ⟨b, hb, -⟩ := bind_eq_ok h
  show (parseBoard J _ >>= _) = _
  rw [parseBoard_replaced hb (parseEdge_withConfig edge)]
  rfl

/-- A request that is accepted with an object is refused with a text in its place. -/
theorem refused_with_text {q : Giving} {st st' : Store F}
    (h : answer J busy q uuids now (.object c) st = .ok st') :
    answer J busy q uuids now (.string s) st = .error notAnObject := by
  have hmap : ∀ {α β : Type} {x : Except RpcError α} {g : α → β} {b : β}, x.map g = .ok b →
      ∃ a, x = .ok a := by
    intro α β x g b hx
    cases x with
    | error e => cases hx
    | ok a => exact ⟨a, rfl⟩
  obtain ⟨params, flow, before, operation, after⟩ | ⟨params, operation⟩ | ⟨params, patch⟩ |
    ⟨params, board, before, edge, after⟩ := q
  · obtain ⟨db, hdb⟩ := hmap h
    exact congrArg (Except.map _) (flowsSave_replaced hdb)
  · obtain ⟨db, hdb⟩ := hmap h
    exact congrArg (Except.map _) (operationsCreate_replaced hdb)
  · obtain ⟨db, hdb⟩ := hmap h
    exact congrArg (Except.map _) (operationsUpdate_replaced hdb)
  · obtain ⟨saved, hsaved⟩ := hmap h
    exact congrArg (Except.map _) (boardsSave_replaced hsaved)

end

end

/-- The two forms agree on no request. -/
theorem forms_never_agree {F : Type} [SqlReal F] (J : JsonText) (busy : Text → Bool) (q : Giving)
    (uuids : List Text) (now : Text) (c : JsonDict) (s : Text) (st : Store F) :
    ¬ FormsAgree J busy q uuids now c s st ∧
      ∀ st', answer J busy q uuids now (.object c) st = .ok st' →
        answer J busy q uuids now (.string s) st = .error notAnObject := by
  refine ⟨?_, fun st' h => refused_with_text h⟩
  rintro ⟨a, b, ha, hb, -⟩
  rw [refused_with_text ha] at hb
  cases hb

namespace Sample

/-- `operations.create` in the flow `f`. -/
def creation : Giving :=
  .operationsCreate [("flowID".toList, .string "f".toList)] [("id".toList, .string "a".toList)]

def store : Store Nat :=
  { flows := Flows.Sample.db, boards := { boards := [], nodes := [], edges := [] } }

end Sample

/-- An object without members is taken, its text is not. -/
theorem empty_text_refused : ¬ ∀ (J : JsonText) (busy : Text → Bool) (q : Giving)
    (uuids : List Text) (now : Text) (c : JsonDict) (s : Text) (st : Store Nat),
    J.toString c = s → J.fromStr s = some (.object c) →
      (∃ st', answer J busy q uuids now (.object c) st = .ok st') →
        FormsAgree J busy q uuids now c s st := by
  intro h
  have hobject : ∃ st', answer Flows.Sample.json (fun _ => false) Sample.creation [] [] (.object [])
      Sample.store = .ok st' := ⟨_, rfl⟩
  obtain ⟨a, b, ha, hb, -⟩ := h Flows.Sample.json (fun _ => false) Sample.creation [] [] []
    "\x7b\x7d".toList Sample.store rfl rfl hobject
  rw [refused_with_text ha] at hb
  cases hb

end GnDrive.Rpc.ConfigForms
