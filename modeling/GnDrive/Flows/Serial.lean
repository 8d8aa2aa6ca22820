/-
  GnDrive.Flows.Serial

  Concurrent requests on flows.

  Each worker handles one request (`stdio.rs`: `run_job`): a query for the
  flow, a query for its operations, the edit in memory, the saving
  transaction, and the two queries of the answer.  Nothing is held from one of
  these to the next, so another worker's save may come in between.

  `log` has the workers in the order of their saves.  As long as a save finds
  the flow as its request loaded it, the store is what the logged requests
  make of it one after another (`no_lost_update`).
-/

import GnDrive.Flows.Requests
import GnDrive.Lib.System
import Mathlib.Data.List.Nodup
import Mathlib.Logic.Function.Basic

namespace GnDrive.Flows

open Rpc (Json JsonDict RpcError)

/-- Where a worker is between two accesses of the store.  `base` is the flow
    the request loaded, if it loaded one. -/
inductive Pc where
  | idle
  | row (r : FlowRow)
  | loaded (f : Flow)
  | ready (base : Option Flow) (f : Flow)
  | saved (id : Text)
  | savedRow (r : FlowRow)
  | done (f : Flow)
  | failed (e : RpcError)

structure Workers where
  db : Db
  pc : Nat → Pc
  log : List Nat

/-- The worker `i` takes a query, decides what to save, or saves; `busy` is
    what `ensure_flow_mutable` finds. -/
inductive Act where
  | query (i : Nat)
  | decide (i : Nat) (busy : Bool)
  | save (i : Nat)

section

variable (J : JsonText) (jobs : List Request)

/-- The next query of a worker with the request `r`. -/
def query (r : Request) (db : Db) : Pc → Option Pc
  | .idle =>
      match r.method with
      | .flowsSave => none
      | _ =>
          match r.flowId with
          | .error e => some (.failed e)
          | .ok id =>
              match queryFlow db id with
              | none => some (.failed (flowNotFound id))
              | some row => some (.row row)
  | .row row => some (.loaded { row with operations := listOperations J db row.id })
  | .saved id =>
      match queryFlow db id with
      | none => some (.failed (storeError .notFound))
      | some row => some (.savedRow row)
  | .savedRow row => some (.done { row with operations := listOperations J db row.id })
  | _ => none

/-- What the worker will save. -/
def decision (r : Request) (busy : Bool) : Pc → Option Pc
  | .idle =>
      match r.method with
      | .flowsSave =>
          match savedFlow J r with
          | .error e => some (.failed e)
          | .ok f => some (if busy then .failed (flowBusy f.id) else .ready none f)
      | _ => none
  | .loaded f =>
      if busy then some (.failed (flowBusy f.id))
      else
        match edit J r f with
        | .error e => some (.failed e)
        | .ok f' => some (.ready (some f) f')
  | _ => none

namespace Workers

def goto (s : Workers) (i : Nat) (p : Pc) : Workers :=
  { s with pc := Function.update s.pc i p }

end Workers

def workersStep (s : Workers) : Act → Option Workers
  | .query i => do
      let r ← jobs[i]?
      let p ← query J r s.db (s.pc i)
      return s.goto i p
  | .decide i busy => do
      let r ← jobs[i]?
      let p ← decision J r busy (s.pc i)
      return s.goto i p
  | .save i => do
      let r ← jobs[i]?
      match s.pc i with
      | .ready _ f =>
          match saveFlow J r.now f s.db with
          | .error e => return s.goto i (.failed (storeError e))
          | .ok db => return { s.goto i (.saved f.id) with db, log := s.log ++ [i] }
      | _ => none

/-- One worker for each of `jobs`, over the store `db`. -/
def flowSystem (db : Db) : System Workers Act where
  init s := s = ⟨db, fun _ => .idle, []⟩
  step := workersStep J jobs

/-- A save finds the flow as its request loaded it. -/
def FindsLoaded (s : Workers) : Act → Prop
  | .save i => ∀ base f, s.pc i = .ready (some base) f → getFlow J s.db base.id = some base
  | _ => True

-- ============================================================================
-- The invariant
-- ============================================================================

/-- The workers that have saved. -/
def Pc.hasSaved : Pc → Bool
  | .saved _ | .savedRow _ | .done _ => true
  | _ => false

/-- The workers that have not. -/
def Pc.unsaved : Pc → Bool
  | .idle | .row _ | .loaded _ | .ready _ _ => true
  | _ => false

/-- What a worker with the request `r` has established. -/
def Pc.Fits (r : Request) : Pc → Prop
  | .row found => r.method ≠ .flowsSave ∧ r.flowId = .ok found.id
  | .loaded f => r.method ≠ .flowsSave ∧ r.flowId = .ok f.id
  | .ready none f => r.method = .flowsSave ∧ savedFlow J r = .ok f
  | .ready (some base) f =>
      r.method ≠ .flowsSave ∧ r.flowId = .ok base.id ∧ edit J r base = .ok f
  | _ => True

/-- The requests of the log. -/
def logged (log : List Nat) : List Request := log.filterMap (jobs[·]?)

structure Workers.Inv (db₀ : Db) (s : Workers) : Prop where
  serial : handleAll J (logged jobs s.log) db₀ = .ok s.db
  nodup : s.log.Nodup
  valid : ∀ i ∈ s.log, i < jobs.length
  fits : ∀ i r, jobs[i]? = some r → (s.pc i).Fits J r
  saved : ∀ i, (s.pc i).hasSaved = true → i ∈ s.log
  unsaved : ∀ i, (s.pc i).unsaved = true → i ∉ s.log

variable {J jobs} {db₀ : Db} {s s' : Workers} {i : Nat} {r : Request}

/-- A worker moves on without saving. -/
theorem Workers.Inv.goto (h : s.Inv J jobs db₀) {p : Pc} (hr : jobs[i]? = some r)
    (hfits : p.Fits J r) (hsaved : p.hasSaved = true → (s.pc i).hasSaved = true)
    (hunsaved : p.unsaved = true → (s.pc i).unsaved = true) : (s.goto i p).Inv J jobs db₀ where
  serial := h.serial
  nodup := h.nodup
  valid := h.valid
  fits j r' hr' := by
    show (Function.update s.pc i p j).Fits J r'
    by_cases hij : j = i
    · subst hij
      rw [Function.update_self]
      obtain rfl := Option.some.inj (hr.symm.trans hr')
      exact hfits
    · rw [Function.update_of_ne hij]
      exact h.fits j r' hr'
  saved j hj := by
    have hj : (Function.update s.pc i p j).hasSaved = true := hj
    by_cases hij : j = i
    · subst hij
      rw [Function.update_self] at hj
      exact h.saved j (hsaved hj)
    · rw [Function.update_of_ne hij] at hj
      exact h.saved j hj
  unsaved j hj := by
    have hj : (Function.update s.pc i p j).unsaved = true := hj
    by_cases hij : j = i
    · subst hij
      rw [Function.update_self] at hj
      exact h.unsaved j (hunsaved hj)
    · rw [Function.update_of_ne hij] at hj
      exact h.unsaved j hj

/-- A flow keeps its id when its row is read. -/
theorem queryFlow_id {db : Db} {id : Text} {row : FlowRow} (h : queryFlow db id = some row) :
    row.id = id := by
  obtain ⟨r, hr, rfl⟩ := Option.map_eq_some_iff.mp h
  have := List.find?_some hr
  exact of_decide_eq_true this

theorem query_kept (h : s.Inv J jobs db₀) (hr : jobs[i]? = some r) {p : Pc}
    (hq : query J r s.db (s.pc i) = some p) : (s.goto i p).Inv J jobs db₀ := by
  have hfits := h.fits i r hr
  cases hpc : s.pc i with
  | idle =>
      rw [hpc] at hq
      cases hm : r.method with
      | flowsSave =>
          simp only [query, hm] at hq
          contradiction
      | _ =>
          have hne : r.method ≠ .flowsSave := by
            rw [hm]
            exact nofun
          simp only [query, hm] at hq
          split at hq
          · obtain rfl := Option.some.inj hq
            exact h.goto hr trivial nofun nofun
          · rename_i id hid
            split at hq
            · obtain rfl := Option.some.inj hq
              exact h.goto hr trivial nofun nofun
            · rename_i row hrow
              obtain rfl := Option.some.inj hq
              refine h.goto hr ⟨hne, ?_⟩ nofun fun _ => by rw [hpc]; rfl
              rw [hid, queryFlow_id hrow]
  | row found =>
      rw [hpc] at hq hfits
      obtain rfl := Option.some.inj hq
      exact h.goto hr hfits nofun fun _ => by rw [hpc]; rfl
  | saved id =>
      rw [hpc] at hq
      simp only [query] at hq
      split at hq
      · obtain rfl := Option.some.inj hq
        exact h.goto hr trivial nofun nofun
      · obtain rfl := Option.some.inj hq
        exact h.goto hr trivial (fun _ => by rw [hpc]; rfl) nofun
  | savedRow found =>
      rw [hpc] at hq
      obtain rfl := Option.some.inj hq
      exact h.goto hr trivial (fun _ => by rw [hpc]; rfl) nofun
  | _ =>
      rw [hpc] at hq
      contradiction

theorem decision_kept (h : s.Inv J jobs db₀) (hr : jobs[i]? = some r) {busy : Bool} {p : Pc}
    (hd : decision J r busy (s.pc i) = some p) : (s.goto i p).Inv J jobs db₀ := by
  have hfits := h.fits i r hr
  cases hpc : s.pc i with
  | idle =>
      rw [hpc] at hd
      cases hm : r.method with
      | flowsSave =>
          simp only [decision, hm] at hd
          split at hd
          · obtain rfl := Option.some.inj hd
            exact h.goto hr trivial nofun nofun
          · rename_i f hf
            obtain rfl := Option.some.inj hd
            split
            · exact h.goto hr trivial nofun nofun
            · exact h.goto hr ⟨hm, hf⟩ nofun fun _ => by rw [hpc]; rfl
      | _ =>
          simp only [decision, hm] at hd
          contradiction
  | loaded f =>
      rw [hpc] at hd hfits
      simp only [decision] at hd
      split at hd
      · obtain rfl := Option.some.inj hd
        exact h.goto hr trivial nofun nofun
      · split at hd
        · obtain rfl := Option.some.inj hd
          exact h.goto hr trivial nofun nofun
        · rename_i f' hf'
          obtain rfl := Option.some.inj hd
          exact h.goto hr ⟨hfits.1, hfits.2, hf'⟩ nofun fun _ => by rw [hpc]; rfl
  | _ =>
      rw [hpc] at hd
      contradiction

/-- A save that finds the loaded flow is the request handled in one go. -/
theorem handle_of_ready {base : Option Flow} {f : Flow} {db db' : Db}
    (hfits : (Pc.ready base f).Fits J r)
    (hbase : ∀ b, base = some b → getFlow J db b.id = some b)
    (hsave : saveFlow J r.now f db = .ok db') : handle J r db = .ok db' := by
  cases base with
  | none =>
      obtain ⟨hm, hf⟩ := hfits
      unfold handle
      rw [hm]
      simp only [hf, Except.bind, hsave]
      rfl
  | some b =>
      obtain ⟨hm, hid, hedit⟩ := hfits
      have hget := hbase b rfl
      unfold handle
      cases hmethod : r.method with
      | flowsSave => exact absurd hmethod hm
      | _ =>
          simp only [hid, Except.bind, hget, hedit, hsave]
          rfl

theorem save_kept (h : s.Inv J jobs db₀) (hr : jobs[i]? = some r) {base : Option Flow} {f : Flow}
    (hpc : s.pc i = .ready base f) (hok : FindsLoaded J s (.save i)) {db : Db}
    (hsave : saveFlow J r.now f s.db = .ok db) :
    Workers.Inv J jobs db₀ { s.goto i (.saved f.id) with db, log := s.log ++ [i] } := by
  have hfits := h.fits i r hr
  rw [hpc] at hfits
  have hhandle : handle J r s.db = .ok db :=
    handle_of_ready hfits (fun b hb => hok b f (hb ▸ hpc)) hsave
  have hfresh : i ∉ s.log := h.unsaved i (by rw [hpc]; rfl)
  refine ⟨?_, ?_, ?_, fun j r' hr' => ?_, fun j hj => ?_, fun j hj => ?_⟩
  · have hlog : logged jobs (s.log ++ [i]) = logged jobs s.log ++ [r] := by
      unfold logged
      rw [List.filterMap_append]
      simp [hr]
    show handleAll J (logged jobs (s.log ++ [i])) db₀ = .ok db
    rw [hlog]
    unfold handleAll
    rw [List.foldlM_append]
    have hserial := h.serial
    unfold handleAll at hserial
    rw [hserial]
    show (handle J r s.db >>= fun db => pure db) = _
    rw [hhandle]
    rfl
  · exact List.nodup_append.mpr ⟨h.nodup, List.nodup_singleton i, by
      intro a ha b hb
      rw [List.mem_singleton.mp hb]
      rintro rfl
      exact hfresh ha⟩
  · intro j hj
    rcases List.mem_append.mp hj with hold | hnew
    · exact h.valid j hold
    · rw [List.mem_singleton.mp hnew]
      exact (List.getElem?_eq_some_iff.mp hr).1
  · show (Function.update s.pc i _ j).Fits J r'
    by_cases hij : j = i
    · rw [hij, Function.update_self]
      trivial
    · rw [Function.update_of_ne hij]
      exact h.fits j r' hr'
  · have hj : (Function.update s.pc i (.saved f.id) j).hasSaved = true := hj
    by_cases hij : j = i
    · rw [hij]
      exact List.mem_append.mpr (Or.inr (List.mem_singleton_self i))
    · rw [Function.update_of_ne hij] at hj
      exact List.mem_append.mpr (Or.inl (h.saved j hj))
  · have hj : (Function.update s.pc i (.saved f.id) j).unsaved = true := hj
    by_cases hij : j = i
    · rw [hij, Function.update_self] at hj
      contradiction
    · rw [Function.update_of_ne hij] at hj
      intro hmem
      rcases List.mem_append.mp hmem with hold | hnew
      · exact h.unsaved j hj hold
      · exact hij (List.mem_singleton.mp hnew)

theorem flow_init (h : (flowSystem J jobs db₀).init s) : s.Inv J jobs db₀ := by
  rw [show s = _ from h]
  exact ⟨rfl, List.nodup_nil, fun _ hi => absurd hi List.not_mem_nil, fun _ _ _ => trivial,
    nofun, fun _ _ => List.not_mem_nil⟩

theorem flow_step {a : Act} (h : s.Inv J jobs db₀) (hok : FindsLoaded J s a)
    (hstep : workersStep J jobs s a = some s') : s'.Inv J jobs db₀ := by
  cases a with
  | query i =>
      obtain ⟨r, hr, hstep⟩ := Option.bind_eq_some_iff.mp hstep
      obtain ⟨p, hp, hstep⟩ := Option.bind_eq_some_iff.mp hstep
      obtain rfl := Option.some.inj hstep
      exact query_kept h hr hp
  | decide i busy =>
      obtain ⟨r, hr, hstep⟩ := Option.bind_eq_some_iff.mp hstep
      obtain ⟨p, hp, hstep⟩ := Option.bind_eq_some_iff.mp hstep
      obtain rfl := Option.some.inj hstep
      exact decision_kept h hr hp
  | save i =>
      obtain ⟨r, hr, hstep⟩ := Option.bind_eq_some_iff.mp hstep
      split at hstep
      · rename_i base f hpc
        split at hstep
        · obtain rfl := Option.some.inj hstep
          exact h.goto hr trivial nofun nofun
        · rename_i db hsave
          obtain rfl := Option.some.inj hstep
          exact save_kept h hr hpc hok hsave
      · contradiction

theorem filterMap_range (l : List Request) :
    (List.range l.length).filterMap (l[·]?) = l := by
  induction l with
  | nil => rfl
  | cons r rest ih =>
      rw [List.length_cons, List.range_succ_eq_map, List.filterMap_cons, List.filterMap_map]
      exact congrArg (r :: ·) ih

/-- When every request has saved, the log has each of them once. -/
theorem logged_perm (h : s.Inv J jobs db₀) (hall : ∀ i < jobs.length, i ∈ s.log) :
    (logged jobs s.log).Perm jobs := by
  have hlog : s.log.Perm (List.range jobs.length) := by
    rw [List.perm_ext_iff_of_nodup h.nodup List.nodup_range]
    intro i
    rw [List.mem_range]
    exact ⟨h.valid i, hall i⟩
  have := hlog.filterMap (jobs[·]?)
  rwa [filterMap_range] at this

/-- Requests whose saves find the flows as they were loaded lose no update:
    when all have returned, the store is what they make of it one after
    another, in some order. -/
theorem no_lost_update (h : (flowSystem J jobs db₀).ReachableIf (FindsLoaded J) s)
    (hdone : ∀ i < jobs.length, ∃ f, s.pc i = .done f) :
    ∃ order : List Request, order.Perm jobs ∧ handleAll J order db₀ = .ok s.db := by
  have hinv : s.Inv J jobs db₀ :=
    h.invariant (fun _ => flow_init) fun _ _ _ hi hok hs => flow_step hi hok hs
  refine ⟨logged jobs s.log, logged_perm hinv fun i hi => ?_, hinv.serial⟩
  obtain ⟨f, hf⟩ := hdone i hi
  exact hinv.saved i (by rw [hf]; rfl)

end

-- ============================================================================
-- Runs
-- ============================================================================

namespace Sample

/-- `serde_json` on an object with the one member `action`. -/
def json : JsonText where
  toString
    | [(_, .string a)] => "\x7b\"action\":\"".toList ++ a ++ "\"\x7d".toList
    | _ => "\x7b\x7d".toList
  fromStr s :=
    if "\x7b\"action\":\"".toList.isPrefixOf s then
      some (.object [("action".toList, .string ((s.drop 11).takeWhile (· ≠ '"')))])
    else some (.object [])

/-- `operations.create` of an operation with the given id in the flow `f`. -/
def create (id : String) : Request where
  method := .operationsCreate
  params := [("flowID".toList, .string "f".toList),
    ("operation".toList, .object [("id".toList, .string id.toList)])]
  uuids := []
  now := "2026-01-01 00:00:00".toList

/-- `flows.save` of the flow `f` without operations. -/
def saveEmpty : Request where
  method := .flowsSave
  params := [("flow".toList, .object [("id".toList, .string "f".toList)])]
  uuids := []
  now := "2026-01-01 00:00:00".toList

/-- The store with the flow `f`. -/
def db : Db :=
  { flows := [
      { id := "f".toList, name := [], isCollapsed := false, scheduleEnabled := false
        scheduleCron := [], sortOrder := 0, canvasJson := "\x7b\x7d".toList
        createdAt := [], updatedAt := [] }]
    operations := [] }

/-- A worker's steps up to its save, and from there to its answer. -/
def load (i : Nat) : List Act := [.query i, .query i, .decide i false]
def finish (i : Nat) : List Act := [.save i, .query i, .query i]

def isDone : Pc → Bool
  | .done _ => true
  | _ => false

/-- The ids of the stored operations when both workers are done. -/
def outcome (s : Workers) : Option (List Text) :=
  if isDone (s.pc 0) && isDone (s.pc 1) then some (s.db.operations.map (·.id)) else none

theorem done_of_outcome {s : Workers} {ids : List Text} (h : outcome s = some ids) :
    (∀ i < 2, ∃ f, s.pc i = .done f) ∧ s.db.operations.map (·.id) = ids := by
  unfold outcome at h
  split at h
  · rename_i hdone
    rw [Bool.and_eq_true] at hdone
    have hpc : ∀ p, isDone p = true → ∃ f, p = .done f := by
      intro p hp
      cases p with
      | done f => exact ⟨f, rfl⟩
      | _ => contradiction
    refine ⟨fun i hi => ?_, Option.some.inj h⟩
    match i, hi with
    | 0, _ => exact hpc _ hdone.1
    | 1, _ => exact hpc _ hdone.2
  · contradiction

/-- A base without operations is the stored flow when the columns are. -/
def findsLoaded (s : Workers) : Act → Bool
  | .save i =>
      match s.pc i with
      | .ready (some base) _ =>
          match getFlow json s.db base.id with
          | some cur => cur.operations.isEmpty && base.operations.isEmpty &&
              decide (cur.toFlowRow = base.toFlowRow)
          | none => false
      | _ => true
  | _ => true

theorem findsLoaded_sound {s : Workers} {a : Act} (h : findsLoaded s a = true) :
    FindsLoaded json s a := by
  cases a with
  | save i =>
      intro base f hpc
      simp only [findsLoaded, hpc] at h
      split at h
      · rename_i cur hcur
        simp only [Bool.and_eq_true, List.isEmpty_iff, decide_eq_true_eq] at h
        obtain ⟨⟨hcur', hbase'⟩, hrow⟩ := h
        rw [hcur]
        obtain ⟨row, ops⟩ := base
        obtain ⟨row', ops'⟩ := cur
        simp only at hcur' hbase' hrow
        rw [hcur', hbase', hrow]
      · contradiction
  | _ => trivial

end Sample

/-- A save of the flow and then a creation. -/
theorem no_lost_update_two : ∃ s : Workers, s.db.operations.map (·.id) = ["a".toList] ∧
    ∃ order : List Request, order.Perm [Sample.saveEmpty, Sample.create "a"] ∧
      handleAll Sample.json order Sample.db = .ok s.db := by
  have hrun : ((flowSystem Sample.json [Sample.saveEmpty, Sample.create "a"] Sample.db).runIf
      Sample.findsLoaded ⟨Sample.db, fun _ => .idle, []⟩
      ([.decide 0 false] ++ Sample.finish 0 ++ Sample.load 1 ++ Sample.finish 1)).any
        (fun s => Sample.outcome s = some ["a".toList]) = true := by
    decide +kernel
  obtain ⟨s, hs, hout⟩ := (Option.any_eq_true _ _).mp hrun
  obtain ⟨hdone, hops⟩ := Sample.done_of_outcome (of_decide_eq_true hout)
  exact ⟨s, hops, no_lost_update
    ((System.runIf_reachableIf (.init rfl) hs).mono fun _ _ => Sample.findsLoaded_sound) hdone⟩

theorem perm_pair {a b : Request} {l : List Request} (h : l.Perm [a, b]) :
    l = [a, b] ∨ l = [b, a] := by
  match l, h.length_eq with
  | [x, y], _ =>
      rcases List.mem_pair.mp (h.subset List.mem_cons_self) with rfl | rfl
      · left
        rw [List.perm_singleton.mp ((List.perm_cons x).mp h)]
      · right
        rw [List.perm_singleton.mp ((List.perm_cons x).mp (h.trans (List.Perm.swap x a [])))]

/-- Two creations that load the flow before either saves it: both return,
    and the first operation is gone, which no order of the two explains. -/
theorem created_operation_lost : ∃ s : Workers,
    (flowSystem Sample.json [Sample.create "a", Sample.create "b"] Sample.db).Reachable s ∧
      (∀ i < 2, ∃ f, s.pc i = .done f) ∧ s.db.operations.map (·.id) = ["b".toList] ∧
      ¬ ∃ order : List Request, order.Perm [Sample.create "a", Sample.create "b"] ∧
        handleAll Sample.json order Sample.db = .ok s.db := by
  have hrun : ((flowSystem Sample.json [Sample.create "a", Sample.create "b"] Sample.db).runFrom
      ⟨Sample.db, fun _ => .idle, []⟩
      (Sample.load 0 ++ Sample.load 1 ++ Sample.finish 0 ++ Sample.finish 1)).any
        (fun s => Sample.outcome s = some ["b".toList]) = true := by
    decide +kernel
  obtain ⟨s, hs, hout⟩ := (Option.any_eq_true _ _).mp hrun
  obtain ⟨hdone, hops⟩ := Sample.done_of_outcome (of_decide_eq_true hout)
  refine ⟨s, System.runFrom_reachable (.init rfl) hs, hdone, hops, ?_⟩
  rintro ⟨order, hperm, hall⟩
  have hboth : ∀ order ∈ [[Sample.create "a", Sample.create "b"],
      [Sample.create "b", Sample.create "a"]],
      (handleAll Sample.json order Sample.db).toOption.map (·.operations.length) = some 2 := by
    decide +kernel
  have hmem : order ∈ [[Sample.create "a", Sample.create "b"],
      [Sample.create "b", Sample.create "a"]] := by
    rcases perm_pair hperm with rfl | rfl
    · exact List.mem_cons_self
    · exact List.mem_cons_of_mem _ List.mem_cons_self
  have htwo := hboth order hmem
  rw [hall] at htwo
  have htwo : s.db.operations.length = 2 := Option.some.inj htwo
  have hlen := congrArg List.length hops
  rw [List.length_map, htwo] at hlen
  contradiction

end GnDrive.Flows
