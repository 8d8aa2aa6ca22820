/-
  GnDrive.Board.Run

  One run of a board (`run_board` in `board_engine.rs`).

  The run takes the layers one after the other.  Each edge of a layer has a
  thread of its own, and the run joins all of them before it looks at what they
  returned, in the order of the layer.  `past` and `starts` are ghost fields:
  the threads of the layers joined so far, and the edges in the order they were
  started.

  `board_run_disciplined` is about boards whose edges name nodes of the board;
  an edge that names another ends the run when its layer comes up.
-/

import GnDrive.Board.Layers
import GnDrive.Lib.System

namespace GnDrive.Board

/-- What the rclone client returns: `cancelled` is that of `SyncFailedError`. -/
inductive Outcome where
  | ok
  | failed (msg : Text) (cancelled : Bool)
deriving DecidableEq

/-- Where the thread of an edge is. -/
inductive EdgePc where
  /-- Before it looks at the token. -/
  | waiting
  /-- In `run_edge`. -/
  | running
  | returned (r : Outcome)
  | done (res : Option Outcome)
  /-- It has returned `None` without running. -/
  | skipped
deriving DecidableEq

structure EdgeThread where
  edge : BoardEdge
  src : BoardNode
  dst : BoardNode
  pc : EdgePc
deriving DecidableEq

inductive RunPc where
  | top
  | joining
  | ended (res : Except BoardEngineError Unit)

/-- `layers` are the layers from the current one on. -/
structure Run where
  cancelled : Bool
  layers : List (List BoardEdge)
  threads : List EdgeThread
  firstErr : Option Text
  pc : RunPc
  starts : List BoardEdge
  past : List (List EdgeThread)

inductive RunAct where
  | layer
  | check (i : Nat)
  | finish (i : Nat) (r : Outcome)
  | settle (i : Nat)
  | join
  | cancel

def stoppedAt (edge : BoardEdge) (msg : Text) : BoardEngineError :=
  .failed ("board: stopped at edge ".toList ++ edge.id ++ ": ".toList ++ msg)

def completedWithErrors (msg : Text) : BoardEngineError :=
  .completedWithErrors ("board: completed with errors (first: ".toList ++ msg ++ ")".toList)

/-- `node_by_id.get`: the last node of an id wins. -/
def nodeById (nodes : List BoardNode) (id : Text) : Option BoardNode :=
  nodes.reverse.find? (·.id = id)

/-- The threads of a layer, unless an edge names no node. -/
def resolve (nodes : List BoardNode) : List BoardEdge → Except BoardEngineError (List EdgeThread)
  | [] => .ok []
  | e :: layer =>
      match nodeById nodes e.sourceId, nodeById nodes e.targetId with
      | some s, some d =>
          match resolve nodes layer with
          | .ok ts => .ok (⟨e, s, d, .waiting⟩ :: ts)
          | .error err => .error err
      | _, _ => .error (.missingNode e.id)

/-- The loop over the results of a layer: whether one is `None`, and the first
    error so far. -/
def collect (stopOnError : Bool) :
    List EdgeThread → Bool → Option Text → Except BoardEngineError (Bool × Option Text)
  | [], cancelled, firstErr => .ok (cancelled, firstErr)
  | t :: ts, cancelled, firstErr =>
      match t.pc with
      | .done (some .ok) => collect stopOnError ts cancelled firstErr
      | .done (some (.failed msg _)) =>
          if stopOnError then .error (stoppedAt t.edge msg)
          else collect stopOnError ts cancelled (some (firstErr.getD msg))
      | _ => collect stopOnError ts true firstErr

/-- The thread has returned. -/
def EdgeThread.over (t : EdgeThread) : Bool :=
  match t.pc with | .done _ | .skipped => true | _ => false

def EdgeThread.started (t : EdgeThread) : Bool :=
  match t.pc with | .waiting | .skipped => false | _ => true

namespace Run

def goto (s : Run) (i : Nat) (t : EdgeThread) (pc : EdgePc) : Run :=
  { s with threads := s.threads.set i { t with pc } }

def finishAs (s : Run) (res : Except BoardEngineError Unit) : Run := { s with pc := .ended res }

/-- The layer has been joined. -/
def joined (s : Run) : Run :=
  { s with past := s.past ++ [s.threads], threads := [], layers := s.layers.tail }

def step (nodes : List BoardNode) (stopOnError : Bool) (s : Run) : RunAct → Option Run
  | .layer =>
      match s.pc, s.layers with
      | .top, [] =>
          some (s.finishAs
            (match s.firstErr with
            | some e => .error (completedWithErrors e)
            | none => .ok ()))
      | .top, layer :: _ =>
          if s.cancelled then some (s.finishAs (.error .cancelled))
          else
            match resolve nodes layer with
            | .error err => some (s.finishAs (.error err))
            | .ok threads => some { s with threads, pc := .joining }
      | _, _ => none
  | .check i =>
      match s.threads[i]? with
      | some t =>
          match t.pc with
          | .waiting =>
              if s.cancelled then some (s.goto i t .skipped)
              else some { s.goto i t .running with starts := s.starts ++ [t.edge] }
          | _ => none
      | none => none
  -- the client says `cancelled` only when it finds the token cancelled
  | .finish i r =>
      match s.threads[i]? with
      | some t =>
          match t.pc, r with
          | .running, .failed msg true =>
              if s.cancelled then some (s.goto i t (.returned (.failed msg true))) else none
          | .running, r => some (s.goto i t (.returned r))
          | _, _ => none
      | none => none
  | .settle i =>
      match s.threads[i]? with
      | some t =>
          match t.pc with
          | .returned (.failed _ true) => some (s.goto i t (.done none))
          | .returned r => some (s.goto i t (.done (if s.cancelled then none else some r)))
          | _ => none
      | none => none
  | .join =>
      match s.pc with
      | .joining =>
          if s.threads.all EdgeThread.over then
            match collect stopOnError s.threads false s.firstErr with
            | .error err => some (s.joined.finishAs (.error err))
            | .ok (true, _) => some (s.joined.finishAs (.error .cancelled))
            | .ok (false, firstErr) => some { s.joined with firstErr, pc := .top }
          else none
      | _ => none
  | .cancel => some { s with cancelled := true }

end Run

/-- A run before its first layer, or one that `topo_layers` has ended. -/
def startRun (nodes : List BoardNode) (edges : List BoardEdge) : Run :=
  match topoLayers nodes edges with
  | .ok layers => ⟨false, layers, [], none, .top, [], []⟩
  | .error err => ⟨false, [], [], none, .ended (.error err), [], []⟩

def runSystem (nodes : List BoardNode) (edges : List BoardEdge) (stopOnError : Bool) :
    System Run RunAct where
  init s := s = startRun nodes edges
  step := Run.step nodes stopOnError

-- ============================================================================
-- What a run promises
-- ============================================================================

/-- The first failing edge, in the order of the layers and of their ids. -/
def firstFailure (ts : List EdgeThread) : Option (BoardEdge × Text) :=
  ts.findSome? fun t =>
    match t.pc with
    | .done (some (.failed msg _)) => some (t.edge, msg)
    | _ => none

/-- The edges of a run that have come to an end, in that order. -/
def Run.finished (s : Run) : List EdgeThread := s.past.flatten

/-- How a run reports the failure of an edge. -/
def reported (stopOnError : Bool) (edge : BoardEdge) (msg : Text) : BoardEngineError :=
  if stopOnError then stoppedAt edge msg else completedWithErrors msg

def NamesNodes (nodes : List BoardNode) (edges : List BoardEdge) : Prop :=
  ∀ e ∈ edges, (∃ n ∈ nodes, n.id = e.sourceId) ∧ ∃ n ∈ nodes, n.id = e.targetId

structure RunDisciplined (nodes : List BoardNode) (edges : List BoardEdge) (stopOnError : Bool)
    (s : Run) : Prop where
  /-- An edge starts when those entering its source have ended, and, with
      stop-on-error, when none of an earlier layer has failed. -/
  start : ∀ a s', s.step nodes stopOnError a = some s' → s'.starts = s.starts ∨
    ∃ e, s'.starts = s.starts ++ [e] ∧
      (∀ f ∈ edges, f.targetId = e.sourceId →
        ∃ t ∈ s.finished, t.edge = f ∧ ∃ r, t.pc = .done (some r)) ∧
      (stopOnError = true → firstFailure s.finished = none)
  once : s.starts.Subperm edges
  all : ∀ res, s.pc = .ended res → s.cancelled = false → stopOnError = false →
    s.starts.Perm edges
  error : ∀ err, s.pc = .ended (.error err) → s.cancelled = true ∧ err = .cancelled ∨
    ∃ edge msg, firstFailure s.finished = some (edge, msg) ∧ err = reported stopOnError edge msg
  ok : s.pc = .ended (.ok ()) → firstFailure s.finished = none

-- ============================================================================
-- The threads of a layer
-- ============================================================================

section

variable {nodes : List BoardNode} {edges layer : List BoardEdge} {L : List (List BoardEdge)}
  {stopOnError : Bool} {s s' : Run} {ts : List EdgeThread} {t u : EdgeThread} {i : Nat}

theorem nodeById_isSome {id : Text} (h : ∃ n ∈ nodes, n.id = id) :
    ∃ n, nodeById nodes id = some n := by
  obtain ⟨n, hn, hid⟩ := h
  refine Option.isSome_iff_exists.mp (List.find?_isSome.mpr ⟨n, List.mem_reverse.mpr hn, ?_⟩)
  simpa using hid

/-- A layer whose edges name nodes has its threads. -/
theorem resolve_ok (h : NamesNodes nodes layer) :
    ∃ ts, resolve nodes layer = .ok ts ∧ ts.map EdgeThread.edge = layer ∧
      ∀ t ∈ ts, t.pc = .waiting := by
  induction layer with
  | nil => exact ⟨[], rfl, rfl, by simp⟩
  | cons e layer ih =>
    obtain ⟨src, hsrc⟩ := nodeById_isSome (h e List.mem_cons_self).1
    obtain ⟨dst, hdst⟩ := nodeById_isSome (h e List.mem_cons_self).2
    obtain ⟨ts, hts, hmap, hpc⟩ := ih fun f hf => h f (List.mem_cons_of_mem _ hf)
    refine ⟨⟨e, src, dst, .waiting⟩ :: ts, by simp [resolve, hsrc, hdst, hts], by simp [hmap], ?_⟩
    intro t ht
    rcases List.mem_cons.mp ht with rfl | ht
    · rfl
    · exact hpc t ht

theorem firstFailure_append (ts us : List EdgeThread) :
    firstFailure (ts ++ us) = (firstFailure ts).or (firstFailure us) := List.findSome?_append

/-- The thread has returned a result of its edge. -/
def EdgeThread.Ran (t : EdgeThread) : Prop := ∃ r, t.pc = .done (some r)

/-- What `collect` makes of a layer. -/
theorem collect_spec (stopOnError : Bool) (ts : List EdgeThread) (cancelled : Bool) (firstErr : Option Text) :
    (∃ edge msg, collect stopOnError ts cancelled firstErr = .error (stoppedAt edge msg) ∧
        stopOnError = true ∧ firstFailure ts = some (edge, msg)) ∨
      ∃ c, collect stopOnError ts cancelled firstErr =
          .ok (c, firstErr.or ((firstFailure ts).map Prod.snd)) ∧
        (stopOnError = true → firstFailure ts = none) ∧
        (c = false → cancelled = false ∧ ∀ t ∈ ts, t.Ran) ∧
        (c = true → cancelled = true ∨ ∃ t ∈ ts, ¬ t.Ran) := by
  induction ts generalizing cancelled firstErr with
  | nil => exact .inr ⟨cancelled, by simp [collect, firstFailure], by simp [firstFailure],
      fun h => ⟨h, by simp⟩, fun h => .inl h⟩
  | cons t ts ih =>
    by_cases hok : t.pc = .done (some .ok)
    · have hfirst : firstFailure (t :: ts) = firstFailure ts := by simp [firstFailure, hok]
      have hran : t.Ran := ⟨_, hok⟩
      rw [hfirst, collect, hok]
      rcases ih cancelled firstErr with h | ⟨c, hc, hstop, hfalse, htrue⟩
      · exact .inl h
      · refine .inr ⟨c, hc, hstop, fun h => ⟨(hfalse h).1, ?_⟩, fun h => ?_⟩
        · exact List.forall_mem_cons.mpr ⟨hran, (hfalse h).2⟩
        · exact (htrue h).imp_right fun ⟨u, hu, hnot⟩ => ⟨u, .tail _ hu, hnot⟩
    by_cases hfail : ∃ msg b, t.pc = .done (some (.failed msg b))
    · obtain ⟨msg, b, hpc⟩ := hfail
      have hfirst : firstFailure (t :: ts) = some (t.edge, msg) := by simp [firstFailure, hpc]
      rw [hfirst, collect, hpc]
      cases stopOnError with
      | true => exact .inl ⟨t.edge, msg, rfl, rfl, rfl⟩
      | false =>
        rcases ih cancelled (some (firstErr.getD msg)) with ⟨_, _, _, h, _⟩ | ⟨c, hc, hstop, hfalse, htrue⟩
        · cases h
        · refine .inr ⟨c, ?_, by simp, fun h => ⟨(hfalse h).1, ?_⟩, fun h => ?_⟩
          · simp only [Bool.false_eq_true, if_false]
            rw [hc]
            cases firstErr <;> rfl
          · exact List.forall_mem_cons.mpr ⟨⟨_, hpc⟩, (hfalse h).2⟩
          · exact (htrue h).imp_right fun ⟨u, hu, hnot⟩ => ⟨u, .tail _ hu, hnot⟩
    · -- the thread has returned `None`
      have hnot : ¬ t.Ran := by
        rintro ⟨r, hr⟩
        cases r with
        | ok => exact hok hr
        | failed msg b => exact hfail ⟨msg, b, hr⟩
      have hfirst : firstFailure (t :: ts) = firstFailure ts := by
        rw [firstFailure, List.findSome?_cons]
        split
        · rename_i hsome
          split at hsome
          · rename_i msg b hpc
            exact absurd ⟨msg, b, hpc⟩ hfail
          · cases hsome
        · rfl
      have hcollect : collect stopOnError (t :: ts) cancelled firstErr =
          collect stopOnError ts true firstErr := by
        rw [collect]
        split
        · rename_i hpc
          exact absurd hpc hok
        · rename_i msg b hpc
          exact absurd ⟨msg, b, hpc⟩ hfail
        · rfl
      rw [hfirst, hcollect]
      rcases ih true firstErr with h | ⟨c, hc, hstop, hfalse, -⟩
      · exact .inl h
      · refine .inr ⟨c, hc, hstop, fun h => ?_, fun _ => .inr ⟨t, .head _, hnot⟩⟩
        cases (hfalse h).1

/-- The edges that have been started. -/
def startedEdges (ts : List EdgeThread) : List BoardEdge :=
  (ts.filter EdgeThread.started).map EdgeThread.edge

theorem startedEdges_append (ts us : List EdgeThread) :
    startedEdges (ts ++ us) = startedEdges ts ++ startedEdges us := by
  simp [startedEdges]

theorem startedEdges_perm {us : List EdgeThread} (h : ts.Perm us) :
    (startedEdges ts).Perm (startedEdges us) := (h.filter _).map _

theorem startedEdges_set (hi : ts[i]? = some t) (u : EdgeThread) :
    (startedEdges (ts.set i u)).Perm (startedEdges [u] ++ startedEdges (ts.eraseIdx i)) ∧
      (startedEdges ts).Perm (startedEdges [t] ++ startedEdges (ts.eraseIdx i)) := by
  obtain ⟨hlt, rfl⟩ := List.getElem?_eq_some_iff.mp hi
  rw [← startedEdges_append, ← startedEdges_append]
  exact ⟨startedEdges_perm (List.set_perm_cons_eraseIdx hlt u),
    startedEdges_perm (List.getElem_cons_eraseIdx_perm hlt).symm⟩

theorem map_edge_set (hi : ts[i]? = some t) (hedge : u.edge = t.edge) :
    (ts.set i u).map EdgeThread.edge = ts.map EdgeThread.edge := by
  obtain ⟨hlt, rfl⟩ := List.getElem?_eq_some_iff.mp hi
  rw [List.map_set, hedge]
  rw [← List.getElem_map EdgeThread.edge (h := by simpa using hlt), List.set_getElem_self]

-- ============================================================================
-- The invariant
-- ============================================================================

/-- The thread has returned `None`, or is about to because of the client. -/
def EdgeThread.cancels (t : EdgeThread) : Bool :=
  match t.pc with
  | .skipped | .done none | .returned (.failed _ true) => true
  | _ => false

def RunPc.going : RunPc → Bool
  | .ended _ => false
  | _ => true

/-- The invariant of a run over the layers `L`. -/
structure Run.Inv (L : List (List BoardEdge)) (stopOnError : Bool) (s : Run) : Prop where
  split : s.past.map (·.map EdgeThread.edge) ++ s.layers = L
  joining : s.threads ≠ [] → s.pc = .joining
  current : s.pc = .joining → ∃ rest, s.layers = s.threads.map EdgeThread.edge :: rest
  ran : s.pc.going = true → ∀ t ∈ s.finished, t.Ran
  firstErr : s.pc.going = true → s.firstErr = (firstFailure s.finished).map Prod.snd
  stop : s.pc.going = true → stopOnError = true → firstFailure s.finished = none
  starts : s.starts.Perm (startedEdges (s.finished ++ s.threads))
  token : ∀ t ∈ s.finished ++ s.threads, t.cancels = true → s.cancelled = true
  all : ∀ res, s.pc = .ended res → s.cancelled = false → stopOnError = false →
    s.layers = [] ∧ ∀ t ∈ s.finished, t.Ran
  error : ∀ err, s.pc = .ended (.error err) → s.cancelled = true ∧ err = .cancelled ∨
    ∃ edge msg, firstFailure s.finished = some (edge, msg) ∧ err = reported stopOnError edge msg
  ok : s.pc = .ended (.ok ()) → firstFailure s.finished = none

namespace Run.Inv

theorem initial : Run.Inv L stopOnError ⟨false, L, [], none, .top, [], []⟩ where
  split := rfl
  joining h := absurd rfl h
  current h := by cases h
  ran _ _ h := by cases h
  firstErr _ := rfl
  stop _ _ := rfl
  starts := .refl _
  token _ h := by cases h
  all _ h := by cases h
  error _ h := by cases h
  ok h := by cases h

/-- A thread goes on.  `started` are the edges that the step starts. -/
theorem goto (h : s.Inv L stopOnError) (hi : s.threads[i]? = some t) {pc : EdgePc}
    {started : List BoardEdge}
    (hstarted : startedEdges [{ t with pc := pc }] = startedEdges [t] ++ started)
    (hcancels : ({ t with pc := pc } : EdgeThread).cancels = true → s.cancelled = true) :
    Run.Inv L stopOnError { s.goto i t pc with starts := s.starts ++ started } := by
  have hpc : s.pc = .joining := h.joining fun hempty => by simp [hempty] at hi
  have hmap := map_edge_set (u := { t with pc := pc }) hi rfl
  refine ⟨h.split, fun _ => hpc, fun _ => ?_, h.ran, h.firstErr, h.stop, ?_, fun u hu => ?_, h.all,
    h.error, h.ok⟩
  · show ∃ rest, s.layers = (s.threads.set i { t with pc := pc }).map EdgeThread.edge :: rest
    rw [hmap]
    exact h.current hpc
  · obtain ⟨hnew, hold⟩ := startedEdges_set hi { t with pc := pc }
    show (s.starts ++ started).Perm
      (startedEdges (s.finished ++ s.threads.set i { t with pc := pc }))
    have hstarts := h.starts
    rw [startedEdges_append] at hstarts ⊢
    rw [hstarted, List.append_assoc] at hnew
    have hbefore : (s.starts ++ started).Perm (startedEdges s.finished ++
        (startedEdges [t] ++ startedEdges (s.threads.eraseIdx i) ++ started)) := by
      refine (hstarts.append_right started).trans ?_
      rw [List.append_assoc]
      exact (hold.append_right started).append_left _
    have hafter : (startedEdges [t] ++ startedEdges (s.threads.eraseIdx i) ++ started).Perm
        (startedEdges (s.threads.set i { t with pc := pc })) := by
      refine List.Perm.trans ?_ hnew.symm
      rw [List.append_assoc]
      exact List.perm_append_comm.append_left _
    exact hbefore.trans (hafter.append_left _)
  · rcases List.mem_append.mp hu with hold | hnew
    · exact h.token u (List.mem_append_left _ hold)
    · rcases List.mem_or_eq_of_mem_set hnew with hold | rfl
      · exact h.token u (List.mem_append_right _ hold)
      · exact hcancels

theorem no_threads (h : s.Inv L stopOnError) (hpc : s.pc ≠ .joining) : s.threads = [] := by
  by_contra hne
  exact hpc (h.joining hne)

/-- The run ends between two layers. -/
theorem finishAs (h : s.Inv L stopOnError) (hpc : s.pc = .top) {res : Except BoardEngineError Unit}
    (hall : s.cancelled = false → stopOnError = false → s.layers = [])
    (herror : ∀ err, res = .error err → s.cancelled = true ∧ err = .cancelled ∨
      ∃ edge msg, firstFailure s.finished = some (edge, msg) ∧ err = reported stopOnError edge msg)
    (hok : res = .ok () → firstFailure s.finished = none) : (s.finishAs res).Inv L stopOnError where
  split := h.split
  joining hne := absurd (h.no_threads (by simp [hpc])) hne
  current hj := by cases hj
  ran hg := by cases hg
  firstErr hg := by cases hg
  stop hg := by cases hg
  starts := h.starts
  token := h.token
  all _ _ hc hs := ⟨hall hc hs, h.ran (by simp [hpc, RunPc.going])⟩
  error err he := herror err (RunPc.ended.inj he)
  ok he := hok (RunPc.ended.inj he)

theorem joined_finished (s : Run) : s.joined.finished = s.finished ++ s.threads := by
  simp [Run.finished, Run.joined]

/-- A layer is joined, and the run goes on or ends. -/
theorem join (h : s.Inv L stopOnError) (hpc : s.pc = .joining) {pc : RunPc} {firstErr : Option Text}
    (hnot : pc ≠ .joining)
    (hgoing : pc.going = true → (∀ t ∈ s.threads, t.Ran) ∧
      firstErr = (firstFailure (s.finished ++ s.threads)).map Prod.snd ∧
      (stopOnError = true → firstFailure (s.finished ++ s.threads) = none))
    (hended : ∀ res, pc = .ended res → s.cancelled = false → stopOnError = true)
    (herror : ∀ err, pc = .ended (.error err) → s.cancelled = true ∧ err = .cancelled ∨
      ∃ edge msg, firstFailure (s.finished ++ s.threads) = some (edge, msg) ∧
        err = reported stopOnError edge msg)
    (hok : pc ≠ .ended (.ok ())) :
    Run.Inv L stopOnError { s.joined with firstErr := firstErr, pc := pc } := by
  obtain ⟨rest, hrest⟩ := h.current hpc
  have hfin : ({ s.joined with firstErr := firstErr, pc := pc } : Run).finished =
      s.finished ++ s.threads := joined_finished s
  refine ⟨?_, fun hne => absurd rfl hne, fun hj => absurd hj hnot, fun hg => ?_, fun hg => ?_,
    fun hg hs => ?_, ?_, fun t ht => ?_, fun res hres hc hs => ?_, fun err herr => ?_,
    fun hr => absurd hr hok⟩
  · show (s.past ++ [s.threads]).map (·.map EdgeThread.edge) ++ s.layers.tail = L
    rw [← h.split, hrest]
    simp
  · rw [hfin]
    intro t ht
    rcases List.mem_append.mp ht with hold | hnew
    · exact h.ran (by simp [hpc, RunPc.going]) t hold
    · exact (hgoing hg).1 t hnew
  · rw [hfin]
    exact (hgoing hg).2.1
  · rw [hfin]
    exact (hgoing hg).2.2 hs
  · rw [hfin]
    show s.starts.Perm (startedEdges (s.finished ++ s.threads ++ []))
    rw [List.append_nil]
    exact h.starts
  · rw [hfin] at ht
    exact h.token t (by simpa [Run.joined] using ht)
  · rw [hended res hres hc] at hs
    cases hs
  · rw [hfin]
    exact herror err herr

/-- A layer is spawned. -/
theorem spawn (h : s.Inv L stopOnError) (hpc : s.pc = .top) {layer : List BoardEdge}
    {rest : List (List BoardEdge)} (hlayers : s.layers = layer :: rest)
    (hmap : ts.map EdgeThread.edge = layer) (hwaiting : ∀ t ∈ ts, t.pc = .waiting) :
    Run.Inv L stopOnError { s with threads := ts, pc := .joining } := by
  have hgoing : s.pc.going = true := by rw [hpc]; rfl
  have hstarted : startedEdges ts = [] := by
    rw [startedEdges, List.map_eq_nil_iff, List.filter_eq_nil_iff]
    intro t ht
    simp [EdgeThread.started, hwaiting t ht]
  refine ⟨h.split, fun _ => rfl, fun _ => ⟨rest, by rw [hmap]; exact hlayers⟩, fun _ => h.ran hgoing,
    fun _ => h.firstErr hgoing, fun _ => h.stop hgoing, ?_, fun t ht hcancels => ?_,
    fun _ hr => (by cases hr), fun _ hr => (by cases hr), fun hr => (by cases hr)⟩
  · have hstarts := h.starts
    rw [h.no_threads (by simp [hpc]), List.append_nil] at hstarts
    show s.starts.Perm (startedEdges (s.finished ++ ts))
    rw [startedEdges_append, hstarted, List.append_nil]
    exact hstarts
  · rcases List.mem_append.mp ht with hold | hnew
    · exact h.token t (List.mem_append_left _ hold) hcancels
    · simp [EdgeThread.cancels, hwaiting t hnew] at hcancels

/-- A thread goes on, and no edge is started. -/
theorem move (h : s.Inv L stopOnError) (hi : s.threads[i]? = some t) {pc : EdgePc}
    (hstarted : ({ t with pc := pc } : EdgeThread).started = t.started)
    (hcancels : ({ t with pc := pc } : EdgeThread).cancels = true → s.cancelled = true) :
    (s.goto i t pc).Inv L stopOnError := by
  have hnone : startedEdges [{ t with pc := pc }] = startedEdges [t] ++ [] := by
    simp only [startedEdges, List.filter_cons, hstarted]
    split <;> simp
  have hmoved := h.goto hi hnone hcancels
  rw [List.append_nil] at hmoved
  exact hmoved

theorem cancel (h : s.Inv L stopOnError) : Run.Inv L stopOnError { s with cancelled := true } :=
  ⟨h.split, h.joining, h.current, h.ran, h.firstErr, h.stop, h.starts, fun _ _ _ => rfl,
    fun _ _ hc => (by cases hc), fun err he => (h.error err he).imp_left fun hc => ⟨rfl, hc.2⟩, h.ok⟩

theorem step_layer (h : s.Inv L stopOnError) (hL : ∀ layer ∈ L, NamesNodes nodes layer)
    (hs : s.step nodes stopOnError .layer = some s') : s'.Inv L stopOnError := by
  simp only [Run.step] at hs
  split at hs
  · rename_i hpc hlayers
    have hgoing : s.pc.going = true := by rw [hpc]; rfl
    have hfirst := h.firstErr hgoing
    cases hs
    refine h.finishAs hpc (fun _ _ => hlayers) (fun err herr => ?_) fun hok => ?_
    · split at herr
      · rename_i e he
        rw [he] at hfirst
        obtain ⟨⟨edge, msg⟩, hfail, rfl⟩ := Option.map_eq_some_iff.mp hfirst.symm
        refine .inr ⟨edge, msg, hfail, ?_⟩
        have hstop : stopOnError = false := by
          by_contra hstop
          rw [h.stop hgoing (by simpa using hstop)] at hfail
          cases hfail
        rw [reported, hstop]
        exact (Except.error.inj herr).symm
      · cases herr
    · split at hok
      · cases hok
      · rename_i he
        rw [he] at hfirst
        exact Option.map_eq_none_iff.mp hfirst.symm
  · rename_i layer rest hpc hlayers
    split at hs
    · rename_i hcancelled
      cases hs
      refine h.finishAs hpc (fun hc => ?_) (fun err herr => ?_) fun hok => ?_
      · rw [hcancelled] at hc
        cases hc
      · exact .inl ⟨hcancelled, (Except.error.inj herr).symm⟩
      · cases hok
    · have hmem : layer ∈ L := by
        rw [← h.split, hlayers]
        simp
      obtain ⟨ts, hts, hmap, hwaiting⟩ := resolve_ok (hL layer hmem)
      rw [hts] at hs
      cases hs
      exact h.spawn hpc hlayers hmap hwaiting
  · cases hs

theorem step_join (h : s.Inv L stopOnError) (hs : s.step nodes stopOnError .join = some s') :
    s'.Inv L stopOnError := by
  simp only [Run.step] at hs
  split at hs
  · rename_i hpc
    have hgoing : s.pc.going = true := by rw [hpc]; rfl
    split at hs
    · rename_i hover
      rcases collect_spec stopOnError s.threads false s.firstErr with
        ⟨edge, msg, hcollect, hstop, hfail⟩ | ⟨c, hcollect, hstop, hfalse, htrue⟩
      · rw [hcollect] at hs
        cases hs
        refine h.join hpc (by simp) (fun hg => by cases hg) (fun _ _ _ => hstop) (fun err herr => ?_)
          (by simp)
        refine .inr ⟨edge, msg, ?_, ?_⟩
        · rw [firstFailure_append, h.stop hgoing hstop, hfail]
          rfl
        · rw [reported, hstop]
          exact (Except.error.inj (RunPc.ended.inj herr)).symm
      · rw [hcollect] at hs
        cases c with
        | true =>
          cases hs
          -- a thread that returned `None` has seen the token cancelled
          have hcancelled : s.cancelled = true := by
            obtain ⟨t, ht, hnot⟩ := (htrue rfl).resolve_left (by simp)
            refine h.token t (List.mem_append_right _ ht) ?_
            have hend := List.all_eq_true.mp hover t ht
            unfold EdgeThread.over at hend
            unfold EdgeThread.cancels
            cases hp : t.pc with
            | done res =>
              cases res with
              | none => rfl
              | some r => exact absurd ⟨r, hp⟩ hnot
            | skipped => rfl
            | waiting | running | returned r =>
              rw [hp] at hend
              cases hend
          refine h.join hpc (by simp) (fun hg => by cases hg) (fun _ _ hc => ?_) (fun err herr => ?_)
            (by simp)
          · rw [hcancelled] at hc
            cases hc
          · exact .inl ⟨hcancelled, (Except.error.inj (RunPc.ended.inj herr)).symm⟩
        | false =>
          cases hs
          refine h.join hpc (by simp) (fun _ => ⟨(hfalse rfl).2, ?_, fun hst => ?_⟩)
            (fun _ hr => by cases hr) (fun _ hr => by cases hr) (by simp)
          · rw [firstFailure_append, h.firstErr hgoing]
            cases firstFailure s.finished <;> rfl
          · rw [firstFailure_append, h.stop hgoing hst, hstop hst]
            rfl
    · cases hs
  · cases hs

/-- Step lemma. -/
theorem step (h : s.Inv L stopOnError) (hL : ∀ layer ∈ L, NamesNodes nodes layer) {a : RunAct}
    (hs : s.step nodes stopOnError a = some s') : s'.Inv L stopOnError := by
  cases a with
  | layer => exact h.step_layer hL hs
  | check i =>
    simp only [Run.step] at hs
    split at hs
    · rename_i t hi
      split at hs
      · rename_i hpc
        split at hs
        · rename_i hcancelled
          cases hs
          exact h.move hi (by simp [EdgeThread.started, hpc]) fun _ => hcancelled
        · cases hs
          refine h.goto hi ?_ fun hc => ?_
          · simp [startedEdges, List.filter_cons, EdgeThread.started, hpc]
          · cases hc
      · cases hs
    · cases hs
  | finish i r =>
    simp only [Run.step] at hs
    split at hs
    · rename_i t hi
      split at hs
      · rename_i msg hpc
        split at hs
        · rename_i hcancelled
          cases hs
          exact h.move hi (by simp [EdgeThread.started, hpc]) fun _ => hcancelled
        · cases hs
      · rename_i r _ _ hpc hr
        cases hs
        refine h.move hi (by simp [EdgeThread.started, hpc]) fun hc => ?_
        cases r with
        | ok => cases hc
        | failed msg b =>
          cases b with
          | true => exact (hr msg rfl).elim
          | false => cases hc
      · cases hs
    · cases hs
  | settle i =>
    simp only [Run.step] at hs
    split at hs
    · rename_i t hi
      split at hs
      · rename_i msg hpc
        cases hs
        refine h.move hi (by simp [EdgeThread.started, hpc]) fun _ => ?_
        exact h.token t (List.mem_append_right _ (List.mem_of_getElem? hi))
          (by simp [EdgeThread.cancels, hpc])
      · rename_i r hr hpc
        cases hs
        refine h.move hi (by simp [EdgeThread.started, hpc]) fun hc => ?_
        by_contra hcancelled
        simp [EdgeThread.cancels, hcancelled] at hc
      · cases hs
    · cases hs
  | join => exact h.step_join hs
  | cancel =>
    cases hs
    exact h.cancel

-- ============================================================================
-- What the invariant says of the starts
-- ============================================================================

/-- Only a thread that looks at the token starts an edge. -/
theorem starts_cases {a : RunAct} (hs : s.step nodes stopOnError a = some s') :
    s'.starts = s.starts ∨ ∃ t ∈ s.threads, s'.starts = s.starts ++ [t.edge] := by
  cases a with
  | layer =>
    simp only [Run.step] at hs
    split at hs
    · cases hs
      exact .inl rfl
    · split at hs
      · cases hs
        exact .inl rfl
      · split at hs <;> cases hs <;> exact .inl rfl
    · cases hs
  | check i =>
    simp only [Run.step] at hs
    split at hs
    · rename_i t hi
      split at hs
      · split at hs <;> cases hs
        · exact .inl rfl
        · exact .inr ⟨t, List.mem_of_getElem? hi, rfl⟩
      · cases hs
    · cases hs
  | finish i r =>
    simp only [Run.step] at hs
    split at hs
    · split at hs
      · split at hs <;> cases hs
        exact .inl rfl
      · cases hs
        exact .inl rfl
      · cases hs
    · cases hs
  | settle i =>
    simp only [Run.step] at hs
    split at hs
    · split at hs <;> cases hs <;> exact .inl rfl
    · cases hs
  | join =>
    simp only [Run.step] at hs
    split at hs
    · split at hs
      · split at hs <;> cases hs <;> exact .inl rfl
      · cases hs
    · cases hs
  | cancel =>
    cases hs
    exact .inl rfl

theorem map_finished (s : Run) :
    s.finished.map EdgeThread.edge = (s.past.map (·.map EdgeThread.edge)).flatten := by
  rw [Run.finished, List.map_flatten]

/-- The edges that enter the source of an edge of the current layer have run. -/
theorem entering_ran (h : s.Inv L stopOnError) (hL : Layered edges L) (ht : t ∈ s.threads)
    {f : BoardEdge} (hf : f ∈ edges) (hft : f.targetId = t.edge.sourceId) :
    ∃ u ∈ s.finished, u.edge = f ∧ u.Ran := by
  have hpc := h.joining (List.ne_nil_of_mem ht)
  obtain ⟨rest, hrest⟩ := h.current hpc
  have hsplit := h.split
  rw [hrest] at hsplit
  have hlayer : L[s.past.length]? = some (s.threads.map EdgeThread.edge) := by
    rw [← hsplit, List.getElem?_append_right (by simp)]
    simp
  have hbefore := (hL.earliest _ _ hlayer t.edge (List.mem_map_of_mem ht)).1 f hf hft
  have htake : L.take s.past.length = s.past.map (·.map EdgeThread.edge) := by
    rw [← hsplit, List.take_append_of_le_length (by simp), List.take_of_length_le (by simp)]
  rw [htake, ← map_finished] at hbefore
  obtain ⟨u, hu, rfl⟩ := List.mem_map.mp hbefore
  exact ⟨u, hu, rfl, h.ran (by simp [hpc, RunPc.going]) u hu⟩

/-- The threads so far are those of a part of the layers. -/
theorem edges_sublist (h : s.Inv L stopOnError) :
    ((s.finished ++ s.threads).map EdgeThread.edge).Sublist L.flatten := by
  rw [← h.split, List.map_append, map_finished, List.flatten_append]
  refine List.Sublist.append_left ?_ _
  by_cases hpc : s.pc = .joining
  · obtain ⟨rest, hrest⟩ := h.current hpc
    rw [hrest, List.flatten_cons]
    exact List.sublist_append_left _ _
  · rw [h.no_threads hpc]
    exact List.nil_sublist _

theorem disciplined (h : s.Inv L stopOnError) (hL : Layered edges L) :
    RunDisciplined nodes edges stopOnError s where
  start a s' hs := by
    rcases starts_cases hs with hsame | ⟨t, ht, hstart⟩
    · exact .inl hsame
    · have hpc := h.joining (List.ne_nil_of_mem ht)
      refine .inr ⟨t.edge, hstart, fun f hf hft => h.entering_ran hL ht hf hft, fun hstop => ?_⟩
      exact h.stop (by simp [hpc, RunPc.going]) hstop
  once := by
    have hstarted : (startedEdges (s.finished ++ s.threads)).Sublist
        ((s.finished ++ s.threads).map EdgeThread.edge) := List.filter_sublist.map _
    exact h.starts.subperm.trans
      ((hstarted.trans h.edges_sublist).subperm.trans hL.perm.subperm)
  all res hres hcancelled hstop := by
    obtain ⟨hlayers, hran⟩ := h.all res hres hcancelled hstop
    have hstarted : startedEdges s.finished = s.finished.map EdgeThread.edge := by
      rw [startedEdges, List.filter_eq_self.mpr]
      intro t ht
      obtain ⟨r, hr⟩ := hran t ht
      simp [EdgeThread.started, hr]
    have hstarts := h.starts
    rw [h.no_threads (by simp [hres]), List.append_nil, hstarted, map_finished] at hstarts
    refine hstarts.trans (List.Perm.trans (.of_eq ?_) hL.perm)
    rw [← h.split, hlayers, List.append_nil]
  error := h.error
  ok := h.ok

end Run.Inv

end

-- ============================================================================
-- Runs of two boards
-- ============================================================================

/-- Two edges out of "a" and one that both lead up to. -/
def sampleNodes : List BoardNode := ["a", "b", "c"].map fun id => ⟨id.toList, [], "p".toList⟩

def sampleEdges : List BoardEdge :=
  [⟨"3".toList, "b".toList, "c".toList, []⟩, ⟨"2".toList, "a".toList, "b".toList, []⟩,
    ⟨"1".toList, "a".toList, "b".toList, []⟩]

/-- Both edges of the first layer fail, the one with the greater id first. -/
def bothFail : List RunAct :=
  [.layer, .check 0, .check 1, .finish 1 (.failed "x".toList false), .settle 1,
    .finish 0 (.failed "y".toList false), .settle 0, .join]

end GnDrive.Board
