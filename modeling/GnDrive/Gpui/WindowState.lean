/-
  GnDrive.Gpui.WindowState

  The window between the user and the engine (`main.rs` of the window): the
  requests that await a reply, the flags that hold buttons and reloads back
  meanwhile, and the working copy of the open flow.

  Each step is something that the user, the ticker or the engine does.  What a
  step needs from outside is part of it: whether the engine takes a request,
  whether the text fields of the inspector hold something new, what a reply
  says, and when 25 seconds are over.

  What a flow says is the list of the edits that went into it, next to the
  fields that the window compares; the engine answers a save with the flow that
  the request carried.  Texts, notices and the graph are left out.
-/

import GnDrive.Lib.System
import Mathlib.Logic.Function.Basic
import Mathlib.Data.Fintype.Sets

namespace GnDrive.Gpui.Window

structure Flow where
  id : String
  name : String
  sortOrder : Int
  updatedAt : String
  edits : List Nat
deriving DecidableEq

structure Snapshot where
  locked : Bool
  flows : List Flow

/-- `saveFlow` has the flow that the request carries. -/
inductive Pending where
  | snapshot
  | saveFlow (thenRun quiet : Bool) (flow : Flow)
  | execute
  | stop
  | createFlow
  | deleteFlow
  | providers
  | fsList
  | oauthStart
  | oauthComplete
  | remoteAdd
  | remoteTest
  | remoteDelete
  | auth
  | changePassword
  | removePassword
  | doctor
  | logs
  | health
  | serviceStatus
  | serviceAction
  | history
  | clearHistory
  | settingsSet
  | updateCheck
  | updateApply
  | generic
deriving DecidableEq

inductive Flag where
  | snapshotPending
  | layoutSaving
  | authBusy
  | addBusy
  | oauthBusy
  | browseLoading
  | updateBusy
deriving DecidableEq

instance : Fintype Flag where
  elems :=
    {.snapshotPending, .layoutSaving, .authBusy, .addBusy, .oauthBusy, .browseLoading, .updateBusy}
  complete f := by cases f <;> decide

/-- `edits` counts the edits made so far; `owed` are those that neither a reply
    to a save has confirmed nor the user has given up. -/
structure GnDriveWindow where
  pending : List (Nat × Pending) := []
  nextId : Nat := 0
  busy : Flag → Bool := fun _ => false
  reloadAt : Bool := false
  started : Bool := false
  oauthSession : Bool := false
  snapshot : Option Snapshot := none
  /-- The flows of the rail, which are those of the snapshot at the last refresh. -/
  rail : List Flow := []
  selectedFlow : Option String := none
  draft : Option Flow := none
  dirty : Bool := false
  viewportDirty : Bool := false
  layoutSaveAt : Bool := false
  /-- The flow that the user is asked about before the switch to it. -/
  ask : Option String := none
  edits : Nat := 0
  owed : List Nat := []

namespace GnDriveWindow

variable (w : GnDriveWindow)

-- ============================================================================
-- Requests
-- ============================================================================

def set (f : Flag) (b : Bool) : GnDriveWindow := { w with busy := Function.update w.busy f b }

/-- `ok` says that the engine has taken the request. -/
def send (ok : Bool) (p : Pending) : GnDriveWindow :=
  { w with
    nextId := w.nextId + 1
    pending := if ok then w.pending ++ [(w.nextId + 1, p)] else w.pending }

def reload (ok : Bool) : GnDriveWindow :=
  if w.busy .snapshotPending then { w with reloadAt := true }
  else (w.set .snapshotPending true).send ok .snapshot

def lookup (id : Nat) : Option Pending := (w.pending.find? (·.1 = id)).map (·.2)

def remove (id : Nat) : GnDriveWindow := { w with pending := w.pending.eraseP (·.1 = id) }

def locked : Bool := w.snapshot.any (·.locked)

-- ============================================================================
-- The working copy
-- ============================================================================

def refreshSnapshotCaches : GnDriveWindow :=
  let flows := (w.snapshot.map (·.flows)).getD []
  { w with rail := flows.mergeSort fun a b => a.sortOrder ≤ b.sortOrder }

/-- The user changes the flow, perhaps its name. -/
def edit (name : Option String) : GnDriveWindow :=
  match w.draft with
  | none => w
  | some d =>
      { w with
        draft := some { d with name := name.getD d.name, edits := w.edits :: d.edits }
        dirty := true
        edits := w.edits + 1
        owed := w.edits :: w.owed }

/-- `collect_editors`, and `commit_open_editors`; `typed` says that the fields
    hold something new. -/
def collectEditors (typed : Bool) : GnDriveWindow := if typed then w.edit none else w

def adoptFlow (flow : Flow) : GnDriveWindow := { w with draft := some flow, dirty := false }

def applySnapshot (s : Snapshot) : GnDriveWindow :=
  let w := { w with snapshot := some s }.refreshSnapshotCaches
  if s.locked then { w with selectedFlow := none, draft := none, dirty := false }
  else
    let selectedExists := w.selectedFlow.any fun id => w.rail.any (·.id = id)
    if !selectedExists then
      match w.rail.head? with
      | some flow => { w.adoptFlow flow with selectedFlow := some flow.id }
      | none => { w with selectedFlow := none, draft := none }
    else if !w.dirty then
      match w.rail.find? fun flow => some flow.id = w.selectedFlow with
      | some flow =>
          let differs :=
            (w.draft.map fun d => d.updatedAt ≠ flow.updatedAt || d.name ≠ flow.name).getD true
          if differs then w.adoptFlow flow else w
      | none => w
    else w

/-- `differ` is `editors_differ`. -/
def pickFlow (id : String) (differ : Bool) : GnDriveWindow :=
  if w.selectedFlow = some id then w
  else if (w.dirty || differ) && w.selectedFlow.isSome then { w with ask := some id }
  else
    match w.rail.find? (·.id = id) with
    | some flow => { w with selectedFlow := some id }.adoptFlow flow
    | none => w

/-- The user gives up what is not saved. -/
def giveUp : GnDriveWindow := { w with owed := [] }

def discardDraft : GnDriveWindow :=
  match w.selectedFlow.bind fun id => w.rail.find? (·.id = id) with
  | some flow => (w.adoptFlow flow).giveUp
  | none => w

/-- `running` is `selected_running`, `issue` that the inspector has one. -/
def saveFlowInner (thenRun quiet running issue typed ok : Bool) : GnDriveWindow :=
  if w.draft.isNone then w
  else if running || issue then w
  else
    let w := w.collectEditors typed
    match w.draft with
    | some flow => w.send ok (.saveFlow thenRun quiet flow)
    | none => w

/-- `typed` says that the open editors hold something new. -/
def executeFlow (typed ok : Bool) : GnDriveWindow := (w.collectEditors typed).send ok .execute

/-- `changed` is `sync_inputs_changed`. -/
def runFlow (empty running issue typed changed ok : Bool) : GnDriveWindow :=
  if w.draft.isNone || empty || running || issue then w
  else
    let w := w.collectEditors typed
    if w.dirty || changed then w.saveFlowInner true false running issue false ok
    else w.executeFlow false ok

/-- A draft stays open when the fields are read. -/
theorem collectEditors_draft (typed : Bool) (hdraft : w.draft.isSome = true) :
    ∃ flow, (w.collectEditors typed).draft = some flow := by
  obtain ⟨d, hd⟩ := Option.isSome_iff_exists.mp hdraft
  unfold collectEditors
  split
  · unfold edit
    rw [hd]
    exact ⟨_, rfl⟩
  · exact ⟨d, hd⟩

/-- A save reads the fields and sends the draft, or it does nothing. -/
theorem saveFlowInner_cases (thenRun quiet running issue typed ok : Bool) :
    ((w.draft.isSome = true ∧ running = false ∧ issue = false) ∧
      ∃ flow, (w.collectEditors typed).draft = some flow ∧
        w.saveFlowInner thenRun quiet running issue typed ok =
          (w.collectEditors typed).send ok (.saveFlow thenRun quiet flow)) ∨
    ¬(w.draft.isSome = true ∧ running = false ∧ issue = false) ∧
      w.saveFlowInner thenRun quiet running issue typed ok = w := by
  cases hd : w.draft with
  | none =>
    refine .inr ⟨by simp, ?_⟩
    unfold saveFlowInner
    simp [hd]
  | some d =>
    cases running <;> cases issue
    · obtain ⟨flow, hflow⟩ := w.collectEditors_draft typed (by rw [hd]; rfl)
      refine .inl ⟨⟨rfl, rfl, rfl⟩, flow, hflow, ?_⟩
      unfold saveFlowInner
      simp [hd, hflow]
    -- the flow runs, or the inspector has an issue
    all_goals
      refine .inr ⟨by simp, ?_⟩
      unfold saveFlowInner
      simp [hd]

-- ============================================================================
-- Replies
-- ============================================================================

end GnDriveWindow

/-- `unread` is a result that does not parse. -/
inductive Reply where
  | snapshot (s : Snapshot)
  | flow (flow : Flow)
  | session
  | unread

namespace GnDriveWindow

variable (w : GnDriveWindow)

/-- The engine confirms the edits that the saved flow has. -/
def confirm (flow : Flow) : GnDriveWindow :=
  { w with owed := w.owed.filter fun e => !flow.edits.contains e }

/-- A saved flow takes the place of the window's copies. -/
def adoptSaved (flow : Flow) : GnDriveWindow :=
  let snapshot := w.snapshot.map fun s =>
    { s with
      flows := s.flows.modify (s.flows.findIdx (·.id = flow.id)) fun _ => flow }
  let w := { w with snapshot }.refreshSnapshotCaches
  if w.selectedFlow = some flow.id then { w with draft := some flow, dirty := false } else w

/-- A new flow is in the snapshot, but not yet in the rail. -/
def pushFlow (flow : Flow) : GnDriveWindow :=
  { w with snapshot := w.snapshot.map fun s => { s with flows := s.flows ++ [flow] } }

/-- `handle_result`; `ok` is for the request that it sends, `typed` and `differ`
    are for `execute_flow` and `pick_flow`. -/
def handleResult (p : Pending) (reply : Reply) (ok typed differ : Bool) : GnDriveWindow :=
  match p with
  | .snapshot =>
      let w := w.set .snapshotPending false
      match reply with
      | .snapshot s => w.applySnapshot s
      | _ => w
  | .saveFlow thenRun _ _ =>
      let w := { w.set .layoutSaving false with viewportDirty := false }
      match reply with
      | .flow flow =>
          let w := (w.adoptSaved flow).confirm flow
          if thenRun then w.executeFlow typed ok else w
      | _ => w.reload ok
  | .createFlow =>
      let w :=
        match reply with
        | .flow flow => (w.pushFlow flow).pickFlow flow.id differ
        | _ => w
      w.reload ok
  | .deleteFlow | .execute | .stop | .removePassword | .remoteDelete => w.reload ok
  | .auth => (w.set .authBusy false).reload ok
  | .changePassword => if w.locked then w else w.send ok .generic
  | .fsList => w.set .browseLoading false
  | .oauthStart =>
      { w.set .addBusy false with
        oauthSession :=
          match reply with
          | .session => true
          | _ => false }
  | .oauthComplete | .remoteAdd => ((w.set .oauthBusy false).set .addBusy false).reload ok
  | .updateCheck => w.set .updateBusy false
  | _ => w

def handleError (p : Pending) : GnDriveWindow :=
  match p with
  | .snapshot => w.set .snapshotPending false
  | .auth => w.set .authBusy false
  | .saveFlow .. => w.set .layoutSaving false
  | .remoteAdd | .oauthStart | .oauthComplete => (w.set .addBusy false).set .oauthBusy false
  | .updateCheck => w.set .updateBusy false
  | .fsList => w.set .browseLoading false
  | _ => w

/-- What the ticker does with a request that has waited for too long. -/
def timeOut (p : Pending) : GnDriveWindow :=
  match p with
  | .updateCheck => w.set .updateBusy false
  | .auth => w.set .authBusy false
  | .remoteAdd | .oauthStart | .oauthComplete => (w.set .addBusy false).set .oauthBusy false
  | .saveFlow .. => w.set .layoutSaving false
  | _ => w

-- ============================================================================
-- The ticker
-- ============================================================================

/-- The link to the engine is ready; `ok` and `ok'` are for the two requests. -/
def linkReady (ok ok' providers : Bool) : GnDriveWindow :=
  if w.started then w
  else
    let w := { w with started := true }.reload ok
    if providers then w else w.send ok' .providers

/-- The layout is saved, or the edits with it. -/
def layoutFires (running : Bool) : Bool :=
  let viewportOnly := w.viewportDirty && !w.dirty
  let content := w.dirty && !w.viewportDirty
  w.layoutSaveAt && !running && !w.busy .layoutSaving && (viewportOnly || content)

def layoutTick (running issue typed ok : Bool) : GnDriveWindow :=
  let viewportOnly := w.viewportDirty && !w.dirty
  let w' := { w with layoutSaveAt := false }
  if w.layoutFires running then
    { w'.set .layoutSaving true with viewportDirty := false }.saveFlowInner false viewportOnly running
      issue typed ok
  else w'

-- ============================================================================
-- Forms
-- ============================================================================

/-- `refused` says that the form is not filled in, or that the lockout lasts. -/
def submitAuth (refused ok : Bool) : GnDriveWindow :=
  if w.busy .authBusy || !w.locked || refused then w else (w.set .authBusy true).send ok .auth

def submitAddRemote (oauth refused ok : Bool) : GnDriveWindow :=
  if w.busy .addBusy || w.busy .oauthBusy || refused then w
  else if oauth then ((w.set .oauthBusy true).set .addBusy true).send ok .oauthStart
  else (w.set .addBusy true).send ok .remoteAdd

def openAddRemote (ok providers : Bool) : GnDriveWindow :=
  let w := w.set .addBusy false
  if providers then w else w.send ok .providers

/-- `cancels` says that an authorization is to be cancelled. -/
def closeOverlay (cancels ok : Bool) : GnDriveWindow :=
  let w := if cancels && w.oauthSession then w.send ok .generic else w
  ({ w with oauthSession := false }.set .oauthBusy false).set .addBusy false

def loadFolder (ok : Bool) : GnDriveWindow := (w.set .browseLoading true).send ok .fsList

def checkUpdate (ok : Bool) : GnDriveWindow :=
  if w.busy .updateBusy then w else (w.set .updateBusy true).send ok .updateCheck

/-- The user has confirmed that a flow goes. -/
def deleteFlow (id : String) (ok ok' : Bool) : GnDriveWindow :=
  let w := w.send ok .deleteFlow
  let w :=
    if w.selectedFlow = some id then { w with selectedFlow := none, draft := none }.giveUp else w
  w.reload ok'

/-- The command that puts a mock engine in the place of the engine; with it the
    user gives the working copy up. -/
def mock : GnDriveWindow :=
  { w.set .snapshotPending false with
    snapshot := none, rail := [], started := false, selectedFlow := none, draft := none
    pending := [], owed := [] }

end GnDriveWindow

/-- Requests of forms that no flag holds back. -/
def Pending.plain : Pending → Bool
  | .execute | .stop | .createFlow | .providers | .remoteTest | .remoteDelete | .auth
  | .changePassword | .removePassword | .doctor | .logs | .health | .serviceStatus | .serviceAction
  | .history | .clearHistory | .settingsSet | .updateApply | .generic => true
  | _ => false

inductive Act where
  -- the user
  | edit (name : Option String) (layout : Bool)
  | viewport
  | save (running issue typed ok : Bool)
  | run (empty running issue typed changed ok : Bool)
  | pick (id : String) (differ : Bool)
  | confirmSwitch (differ : Bool)
  | discard
  | delete (id : String) (ok ok' : Bool)
  | reload (ok : Bool)
  | submitAuth (refused ok : Bool)
  | submitAddRemote (oauth refused ok : Bool)
  | openAddRemote (ok providers : Bool)
  | closeOverlay (cancels ok : Bool)
  | loadFolder (ok : Bool)
  | checkUpdate (ok : Bool)
  | request (p : Pending) (ok : Bool)
  | mock
  -- the ticker
  | linkReady (ok ok' providers : Bool)
  | linkLost
  | reloadTick (ok : Bool)
  | layoutTick (running issue typed ok : Bool)
  | timeout (id : Nat)
  -- the engine
  | reply (id : Nat) (reply : Reply) (ok typed differ : Bool)
  | error (id : Nat)
  | stateChanged
  | authUnlocked (ok : Bool)
  | authLocked (ok : Bool)
  | oauthAuthorized (ok : Bool)

/-- The engine answers a save with what the request carried. -/
def answers : Pending → Reply → Bool
  | .saveFlow _ _ sent, .flow flow => flow.id = sent.id && flow.edits = sent.edits
  | _, _ => true

namespace GnDriveWindow

def step (w : GnDriveWindow) : Act → Option GnDriveWindow
  | .edit name layout =>
      if w.draft.isSome then
        some (let w := w.edit name; { w with layoutSaveAt := w.layoutSaveAt || layout })
      else none
  | .viewport =>
      if w.draft.isSome then some { w with viewportDirty := true, layoutSaveAt := true } else none
  | .save running issue typed ok => some (w.saveFlowInner false false running issue typed ok)
  | .run empty running issue typed changed ok =>
      some (w.runFlow empty running issue typed changed ok)
  | .pick id differ => some (w.pickFlow id differ)
  | .confirmSwitch differ =>
      w.ask.map fun id => ({ w with ask := none, dirty := false }.giveUp).pickFlow id differ
  | .discard => some w.discardDraft
  | .delete id ok ok' => some (w.deleteFlow id ok ok')
  | .reload ok => some (w.reload ok)
  | .submitAuth refused ok => some (w.submitAuth refused ok)
  | .submitAddRemote oauth refused ok => some (w.submitAddRemote oauth refused ok)
  | .openAddRemote ok providers => some (w.openAddRemote ok providers)
  | .closeOverlay cancels ok => some (w.closeOverlay cancels ok)
  | .loadFolder ok => some (w.loadFolder ok)
  | .checkUpdate ok => some (w.checkUpdate ok)
  | .request p ok => if p.plain then some (w.send ok p) else none
  | .mock => some w.mock
  | .linkReady ok ok' providers => some (w.linkReady ok ok' providers)
  | .linkLost => some { w with started := false }
  | .reloadTick ok =>
      if w.reloadAt then
        let w := { w with reloadAt := false }
        some (if w.busy .snapshotPending then w else w.reload ok)
      else none
  | .layoutTick running issue typed ok => some (w.layoutTick running issue typed ok)
  | .timeout id => (w.lookup id).map fun p => (w.remove id).timeOut p
  | .reply id reply ok typed differ =>
      (w.lookup id).bind fun p =>
        if answers p reply then some ((w.remove id).handleResult p reply ok typed differ) else none
  | .error id => (w.lookup id).map fun p => (w.remove id).handleError p
  | .stateChanged => some { w with reloadAt := true }
  | .authUnlocked ok => some ({ w.set .authBusy false with ask := none }.reload ok)
  | .authLocked ok => some ({ w.set .authBusy false with ask := none }.reload ok)
  | .oauthAuthorized ok => some (if w.oauthSession then w.send ok .oauthComplete else w)

end GnDriveWindow

/-- The window from its start on. -/
def windowSystem : System GnDriveWindow Act where
  init w := w = {}
  step := GnDriveWindow.step

end GnDrive.Gpui.Window
