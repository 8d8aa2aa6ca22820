/-
  GnDrive.Gpui.Drafts

  The working copy of the open flow while replies come in.

  `Copy` is the part of the window that edits live in.  `step_moves` says once
  what each step does to it; the replies to a save and to a snapshot are the two
  steps that may take edits away which nobody has confirmed or given up.
-/

import GnDrive.Gpui.WindowState

namespace GnDrive.Gpui.Window

/-- What the window knows of the open flow. -/
structure Copy where
  selectedFlow : Option String
  draft : Option Flow
  dirty : Bool
  edits : Nat
  owed : List Nat

namespace Copy

variable {c c' : Copy}

/-- Every edit that is owed is in the draft, and the draft is marked. -/
def Kept (c : Copy) : Prop := ∀ e ∈ c.owed, c.dirty = true ∧ ∃ d, c.draft = some d ∧ e ∈ d.edits

/-- A draft is of the selected flow, and the edits owed were made. -/
structure Coherent (c : Copy) : Prop where
  selected : c.draft.isSome = true → c.selectedFlow.isSome = true
  made : ∀ e ∈ c.owed, e < c.edits

def edit (c : Copy) (name : Option String) : Copy :=
  match c.draft with
  | none => c
  | some d =>
      { c with
        draft := some { d with name := name.getD d.name, edits := c.edits :: d.edits }
        dirty := true
        edits := c.edits + 1
        owed := c.edits :: c.owed }

/-- The fields are read, when they hold something new. -/
def collect (c : Copy) (typed : Bool) : Copy := if typed then c.edit none else c

/-- Another flow is opened. -/
def adopt (c : Copy) (flow : Flow) : Copy :=
  { c with selectedFlow := some flow.id, draft := some flow, dirty := false }

/-- What a step does when it is not the reply to a save or to a snapshot. -/
inductive Moves (c : Copy) : Copy → Prop where
  | same : Moves c c
  | edited (name : Option String) : Moves c (c.edit name)
  /-- The user gives up what is not saved. -/
  | givenUp {c' : Copy} (howed : c'.owed = [])
      (hopen : (c.draft.isSome = true → c.selectedFlow.isSome = true) →
        c'.draft.isSome = true → c'.selectedFlow.isSome = true) : Moves c c'
  | picked (flow : Flow) (hclean : c.dirty = false ∨ c.selectedFlow = none) : Moves c (c.adopt flow)

theorem kept_nil (h : c.owed = []) : c.Kept := by
  intro e he
  rw [h] at he
  cases he

theorem owed_nil_of_clean (h : c.Kept) (hclean : c.dirty = false) : c.owed = [] := by
  refine List.eq_nil_iff_forall_not_mem.mpr fun e he => ?_
  have hdirty := (h e he).1
  rw [hclean] at hdirty
  cases hdirty

theorem owed_nil_of_closed (h : c.Kept) (hclosed : c.draft = none) : c.owed = [] := by
  refine List.eq_nil_iff_forall_not_mem.mpr fun e he => ?_
  obtain ⟨-, d, hd, -⟩ := h e he
  rw [hclosed] at hd
  cases hd

/-- A draft that is closed, or not marked, owes nothing. -/
theorem kept_iff_nil (hclosed : c.dirty = false ∨ c.draft = none) : c.Kept ↔ c.owed = [] :=
  ⟨fun h => hclosed.elim (owed_nil_of_clean h) (owed_nil_of_closed h), kept_nil⟩

theorem kept_edit (h : c.Kept) (name : Option String) : (c.edit name).Kept := by
  unfold edit
  split
  · exact h
  · rename_i d hd
    intro e he
    refine ⟨rfl, _, rfl, ?_⟩
    rcases List.mem_cons.mp he with rfl | hold
    · exact List.mem_cons_self
    · obtain ⟨-, d', hd', hmem⟩ := h e hold
      rw [hd] at hd'
      obtain rfl := Option.some.inj hd'
      exact List.mem_cons_of_mem _ hmem

theorem coherent_edit (h : c.Coherent) (name : Option String) : (c.edit name).Coherent := by
  unfold edit
  split
  · exact h
  · rename_i d hd
    refine ⟨fun _ => h.selected (by rw [hd]; rfl), fun e he => ?_⟩
    rcases List.mem_cons.mp he with rfl | hold
    · exact Nat.lt_succ_self _
    · exact Nat.lt_succ_of_lt (h.made e hold)

/-- An edit does not bring back one that the draft has lost. -/
theorem kept_of_edit {name : Option String} (hmade : ∀ e ∈ c.owed, e < c.edits)
    (h : (c.edit name).Kept) : ∀ e ∈ c.owed, ∃ d, c.draft = some d ∧ e ∈ d.edits := by
  intro e he
  unfold edit at h
  cases hd : c.draft with
  | none =>
    rw [hd] at h
    obtain ⟨-, d, hd', -⟩ := h e he
    rw [hd] at hd'
    cases hd'
  | some d =>
    rw [hd] at h
    obtain ⟨-, d', hd', hmem⟩ := h e (List.mem_cons_of_mem _ he)
    obtain rfl := Option.some.inj hd'
    refine ⟨d, rfl, (List.mem_cons.mp hmem).resolve_left ?_⟩
    have := hmade e he
    omega

theorem Moves.coherent (hmoves : c.Moves c') (h : c.Coherent) : c'.Coherent := by
  cases hmoves with
  | same => exact h
  | edited name => exact coherent_edit h name
  | givenUp howed hopen =>
    refine ⟨hopen h.selected, fun e he => ?_⟩
    rw [howed] at he
    cases he
  | picked flow _ => exact ⟨fun _ => rfl, h.made⟩

theorem Moves.kept (hmoves : c.Moves c') (hcoherent : c.Coherent) (h : c.Kept) : c'.Kept := by
  cases hmoves with
  | same => exact h
  | edited name => exact kept_edit h name
  | givenUp howed _ => exact kept_nil howed
  | picked flow hclean =>
    have hnil : c.owed = [] := by
      rcases hclean with hclean | hnone
      · exact owed_nil_of_clean h hclean
      · refine owed_nil_of_closed h ?_
        by_contra hsome
        have hselected := hcoherent.selected (Option.isSome_iff_ne_none.mpr hsome)
        rw [hnone] at hselected
        cases hselected
    exact kept_nil (c := c.adopt flow) hnil

end Copy

namespace GnDriveWindow

variable {w w' : GnDriveWindow}

def copy (w : GnDriveWindow) : Copy where
  selectedFlow := w.selectedFlow
  draft := w.draft
  dirty := w.dirty
  edits := w.edits
  owed := w.owed

/-- Every edit made to the open draft is still in it, and the draft is still
    marked as dirty, until a save that has the edit is confirmed or the user
    gives it up. -/
def Kept (w : GnDriveWindow) : Prop := w.copy.Kept

/-- The condition on a reply: a saved flow that takes the draft's place has all
    the edits that are owed, and a snapshot closes no draft with such edits. -/
def CarefulReply (w : GnDriveWindow) : Pending → Reply → Prop
  | .saveFlow .., .flow flow => w.selectedFlow = some flow.id → ∀ e ∈ w.owed, e ∈ flow.edits
  | .snapshot, .snapshot s =>
      w.owed = [] ∨
        s.locked = false ∧ (w.selectedFlow.any fun id => s.flows.any (·.id = id)) = true
  | _, _ => True

/-- What makes a step keep the edits. -/
def Careful (w : GnDriveWindow) : Act → Prop
  | .reply id reply .. => ∀ p, w.lookup id = some p → w.CarefulReply p reply
  | _ => True

-- ============================================================================
-- What the functions do to the copy
-- ============================================================================

theorem copy_edit (w : GnDriveWindow) (name : Option String) :
    (w.edit name).copy = w.copy.edit name := by
  unfold edit Copy.edit
  cases hd : w.draft with
  | none => simp [copy, hd]
  | some d => simp [copy, hd]

@[simp] theorem copy_send (w : GnDriveWindow) (ok : Bool) (p : Pending) :
    (w.send ok p).copy = w.copy := rfl

@[simp] theorem copy_reload (w : GnDriveWindow) (ok : Bool) : (w.reload ok).copy = w.copy := by
  unfold reload
  split <;> rfl

theorem moves_collect (w : GnDriveWindow) (typed : Bool) :
    w.copy.Moves (w.collectEditors typed).copy := by
  unfold collectEditors
  split
  · rw [copy_edit]
    exact .edited none
  · exact .same

theorem moves_saveFlowInner (w : GnDriveWindow) (thenRun quiet running issue typed ok : Bool) :
    w.copy.Moves (w.saveFlowInner thenRun quiet running issue typed ok).copy := by
  rcases w.saveFlowInner_cases thenRun quiet running issue typed ok with
    ⟨-, flow, -, hsave⟩ | ⟨-, hsave⟩
  · rw [hsave, copy_send]
    exact moves_collect w typed
  · rw [hsave]
    exact .same

/-- What is typed is read once. -/
theorem moves_runFlow (w : GnDriveWindow) (empty running issue typed changed ok : Bool) :
    w.copy.Moves (w.runFlow empty running issue typed changed ok).copy := by
  unfold runFlow
  split
  · exact .same
  · simp only
    split
    · have hsave : ((w.collectEditors typed).saveFlowInner true false running issue false ok).copy =
          (w.collectEditors typed).copy := by
        rcases (w.collectEditors typed).saveFlowInner_cases true false running issue false ok with
          ⟨-, flow, -, hsave⟩ | ⟨-, hsave⟩
        · rw [hsave]
          rfl
        · rw [hsave]
      rw [hsave]
      exact moves_collect w typed
    · exact moves_collect w typed

theorem moves_layoutTick (w : GnDriveWindow) (running issue typed ok : Bool) :
    w.copy.Moves (w.layoutTick running issue typed ok).copy := by
  unfold layoutTick
  simp only
  split
  · generalize hv : { { w with layoutSaveAt := false }.set .layoutSaving true with
      viewportDirty := false } = v
    have hcopy : w.copy = v.copy := by rw [← hv]; rfl
    rw [hcopy]
    exact moves_saveFlowInner v false _ running issue typed ok
  · exact .same

theorem find_rail {id : String} {flow : Flow} (h : w.rail.find? (·.id = id) = some flow) :
    flow.id = id := by simpa using List.find?_some h

/-- A pick opens another flow only when no edit is lost with the open one. -/
theorem copy_pickFlow (w : GnDriveWindow) (id : String) (differ : Bool) :
    (w.pickFlow id differ).copy = w.copy ∨
      ∃ flow, (w.dirty = false ∨ w.selectedFlow = none) ∧
        (w.pickFlow id differ).copy = w.copy.adopt flow := by
  unfold pickFlow
  split
  · exact .inl rfl
  · split
    · exact .inl rfl
    · rename_i hask
      split
      · rename_i flow hflow
        obtain rfl := find_rail hflow
        refine .inr ⟨flow, ?_, rfl⟩
        cases hdirty : w.dirty with
        | false => exact .inl rfl
        | true =>
          refine .inr ?_
          have hnone : ¬w.selectedFlow.isSome = true := by simpa [hdirty] using hask
          exact Option.not_isSome_iff_eq_none.mp hnone
      · exact .inl rfl

theorem moves_pickFlow (w : GnDriveWindow) (id : String) (differ : Bool) :
    w.copy.Moves (w.pickFlow id differ).copy := by
  rcases copy_pickFlow w id differ with hcopy | ⟨flow, hclean, hcopy⟩
  · rw [hcopy]
    exact .same
  · rw [hcopy]
    exact .picked flow hclean

theorem moves_discardDraft (w : GnDriveWindow) : w.copy.Moves w.discardDraft.copy := by
  unfold discardDraft
  split
  · rename_i flow hflow
    obtain ⟨id, hid, -⟩ := Option.bind_eq_some_iff.mp hflow
    refine .givenUp rfl fun _ _ => ?_
    show w.selectedFlow.isSome = true
    rw [hid]
    rfl
  · exact .same

theorem moves_deleteFlow (w : GnDriveWindow) (id : String) (ok ok' : Bool) :
    w.copy.Moves (w.deleteFlow id ok ok').copy := by
  unfold deleteFlow
  simp only [copy_reload]
  split
  · exact .givenUp rfl fun _ hdraft => nomatch hdraft
  · exact .same

/-- What the reply to another request than a save and a snapshot does. -/
theorem moves_result {p : Pending} (w : GnDriveWindow) (reply : Reply) (ok typed differ : Bool)
    (hsave : ∀ thenRun quiet sent flow, p = .saveFlow thenRun quiet sent → reply ≠ .flow flow)
    (hsnapshot : ∀ s, p = .snapshot → reply ≠ .snapshot s) :
    w.copy.Moves (w.handleResult p reply ok typed differ).copy := by
  cases p with
  | snapshot =>
    cases reply with
    | snapshot s => exact absurd rfl (hsnapshot s rfl)
    | flow | session | unread => exact .same
  | saveFlow thenRun quiet sent =>
    cases reply with
    | flow flow => exact absurd rfl (hsave thenRun quiet sent flow rfl)
    | snapshot | session | unread =>
      simp only [handleResult, copy_reload]
      exact .same
  | createFlow =>
    cases reply with
    | flow flow =>
      simp only [handleResult, copy_reload]
      exact moves_pickFlow (w.pushFlow flow) flow.id differ
    | snapshot | session | unread =>
      simp only [handleResult, copy_reload]
      exact .same
  | changePassword =>
    simp only [handleResult]
    split <;> exact .same
  | deleteFlow | execute | stop | removePassword | remoteDelete | auth | oauthComplete | remoteAdd =>
    simp only [handleResult, copy_reload]
    exact .same
  | fsList | oauthStart | updateCheck | providers | remoteTest | doctor | logs | health
  | serviceStatus | serviceAction | history | clearHistory | settingsSet | updateApply | generic =>
    exact .same

-- ============================================================================
-- The two replies
-- ============================================================================

theorem any_rail (s : Snapshot) (id : String) :
    ({ w with snapshot := some s }.refreshSnapshotCaches.rail.any (·.id = id)) =
      s.flows.any (·.id = id) := (List.mergeSort_perm _ _).any_eq

/-- A snapshot that closes the draft, or puts another flow in its place, takes
    the edits away. -/
theorem kept_applySnapshot (h : w.Kept) (s : Snapshot) :
    (w.applySnapshot s).Kept ↔ w.CarefulReply .snapshot (.snapshot s) := by
  show _ ↔ w.owed = [] ∨
    s.locked = false ∧ (w.selectedFlow.any fun id => s.flows.any (·.id = id)) = true
  unfold applySnapshot
  simp only [any_rail]
  generalize hv : { w with snapshot := some s }.refreshSnapshotCaches = v
  have hselected : v.selectedFlow = w.selectedFlow := by rw [← hv]; rfl
  have howed : v.owed = w.owed := by rw [← hv]; rfl
  have hkept : v.Kept := by rw [← hv]; exact h
  rw [← hselected, ← howed]
  cases hlocked : s.locked with
  | true => exact (Copy.kept_iff_nil (.inl rfl)).trans (by simp [copy])
  | false =>
    cases hexists : v.selectedFlow.any fun id => s.flows.any (·.id = id) with
    | false =>
      simp only [Bool.false_eq_true, if_false, Bool.not_false, if_true, and_false, or_false]
      split
      · exact Copy.kept_iff_nil (.inl rfl)
      · exact Copy.kept_iff_nil (.inr rfl)
    | true =>
      refine iff_of_true ?_ (.inr ⟨rfl, rfl⟩)
      simp only [Bool.false_eq_true, if_false, Bool.not_true]
      split
      · rename_i hclean
        have hdirty : v.dirty = false := by simpa using hclean
        have hnil : v.owed = [] := Copy.owed_nil_of_clean hkept hdirty
        split
        · split <;> exact Copy.kept_nil hnil
        · exact Copy.kept_nil hnil
      · exact hkept

theorem coherent_applySnapshot (h : w.copy.Coherent) (s : Snapshot) :
    (w.applySnapshot s).copy.Coherent := by
  unfold applySnapshot
  simp only
  split
  · exact ⟨fun hdraft => (nomatch hdraft), h.made⟩
  · split
    · split
      · exact ⟨fun _ => rfl, h.made⟩
      · exact ⟨fun hdraft => (nomatch hdraft), h.made⟩
    · rename_i hthere
      have hselected : w.selectedFlow.isSome = true := by
        cases hs : w.selectedFlow with
        | none => simp [hs, refreshSnapshotCaches] at hthere
        | some id => rfl
      split
      · split
        · split
          · exact ⟨fun _ => hselected, h.made⟩
          · exact ⟨h.selected, h.made⟩
        · exact ⟨h.selected, h.made⟩
      · exact ⟨h.selected, h.made⟩

/-- What a saved flow does to the copy. -/
theorem copy_saved (w : GnDriveWindow) (flow : Flow) :
    ((w.adoptSaved flow).confirm flow).copy =
      if w.selectedFlow = some flow.id then
        { w.copy with
          draft := some flow, dirty := false, owed := w.owed.filter fun e => !flow.edits.contains e }
      else { w.copy with owed := w.owed.filter fun e => !flow.edits.contains e } := by
  unfold adoptSaved
  simp only
  split
  · rename_i hselected
    have hsame : w.selectedFlow = some flow.id := hselected
    rw [if_pos hsame]
    rfl
  · rename_i hselected
    have hother : ¬w.selectedFlow = some flow.id := hselected
    rw [if_neg hother]
    rfl

/-- A saved flow takes the draft's place, with the edits that it has. -/
theorem kept_saved (h : w.Kept) (flow : Flow) :
    ((w.adoptSaved flow).confirm flow).Kept ↔
      (w.selectedFlow = some flow.id → ∀ e ∈ w.owed, e ∈ flow.edits) := by
  unfold Kept
  rw [copy_saved]
  split
  · rename_i hselected
    rw [imp_iff_right hselected, Copy.kept_iff_nil (.inl rfl)]
    simp [List.filter_eq_nil_iff]
  · rename_i hother
    refine iff_of_true ?_ fun hselected => absurd hselected hother
    intro e he
    exact h e (List.mem_of_mem_filter he)

theorem coherent_saved (h : w.copy.Coherent) (flow : Flow) :
    ((w.adoptSaved flow).confirm flow).copy.Coherent := by
  have hmade : ∀ e ∈ w.owed.filter (fun e => !flow.edits.contains e), e < w.edits :=
    fun e he => h.made e (List.mem_of_mem_filter he)
  rw [copy_saved]
  split
  · rename_i hselected
    refine ⟨fun _ => ?_, hmade⟩
    show w.selectedFlow.isSome = true
    rw [hselected]
    rfl
  · exact ⟨h.selected, hmade⟩

/-- What is typed before the saved flow runs does not bring lost edits back. -/
theorem kept_savedRun (hcoherent : w.copy.Coherent) (h : w.Kept) (flow : Flow) (typed ok : Bool) :
    (((w.adoptSaved flow).confirm flow).executeFlow typed ok).Kept ↔
      (w.selectedFlow = some flow.id → ∀ e ∈ w.owed, e ∈ flow.edits) := by
  have hmoves := moves_collect ((w.adoptSaved flow).confirm flow) typed
  have hmade := coherent_saved hcoherent flow
  constructor
  · intro hkept hselected e he
    have hcopy := copy_saved w flow
    rw [if_pos hselected] at hcopy
    by_contra hlost
    have howed : e ∈ ((w.adoptSaved flow).confirm flow).copy.owed := by
      rw [hcopy]
      exact List.mem_filter.mpr ⟨he, by simpa using hlost⟩
    -- the saved flow is the draft, and the edit is not in it
    have hdraft : ∃ d, ((w.adoptSaved flow).confirm flow).copy.draft = some d ∧ e ∈ d.edits := by
      have hcollected : (((w.adoptSaved flow).confirm flow).collectEditors typed).copy.Kept := hkept
      cases typed with
      | false => exact (hcollected e howed).2
      | true =>
        refine @Copy.kept_of_edit _ none hmade.made ?_ e howed
        rw [← copy_edit]
        exact hcollected
    obtain ⟨d, hd, hmem⟩ := hdraft
    rw [hcopy] at hd
    exact hlost (Option.some.inj hd ▸ hmem)
  · intro hcareful
    exact hmoves.kept hmade ((kept_saved h flow).mpr hcareful)

-- ============================================================================
-- The steps
-- ============================================================================

/-- What a step does: it is harmless, or it is one of the two replies. -/
theorem step_moves {a : Act} (hs : w.step a = some w') :
    (w.copy.Moves w'.copy ∧ w.Careful a) ∨
      ∃ id p reply ok typed differ, a = .reply id reply ok typed differ ∧ w.lookup id = some p ∧
        w' = (w.remove id).handleResult p reply ok typed differ ∧
        ((∃ s, p = .snapshot ∧ reply = .snapshot s) ∨
          ∃ thenRun quiet sent flow, p = .saveFlow thenRun quiet sent ∧ reply = .flow flow) := by
  cases a with
  | edit name layout =>
    simp only [step] at hs
    split at hs
    · rw [← Option.some.inj hs]
      refine .inl ⟨?_, trivial⟩
      show w.copy.Moves (w.edit name).copy
      rw [copy_edit]
      exact .edited name
    · cases hs
  | viewport =>
    simp only [step] at hs
    split at hs
    · rw [← Option.some.inj hs]
      exact .inl ⟨.same, trivial⟩
    · cases hs
  | save running issue typed ok =>
    rw [← Option.some.inj hs]
    exact .inl ⟨moves_saveFlowInner w false false running issue typed ok, trivial⟩
  | run empty running issue typed changed ok =>
    rw [← Option.some.inj hs]
    exact .inl ⟨moves_runFlow w empty running issue typed changed ok, trivial⟩
  | pick id differ =>
    rw [← Option.some.inj hs]
    exact .inl ⟨moves_pickFlow w id differ, trivial⟩
  | confirmSwitch differ =>
    obtain ⟨id, -, rfl⟩ := Option.map_eq_some_iff.mp hs
    refine .inl ⟨?_, trivial⟩
    rcases copy_pickFlow { w with ask := none, dirty := false }.giveUp id differ with
      hcopy | ⟨flow, -, hcopy⟩
    · rw [hcopy]
      exact .givenUp rfl fun hopen => hopen
    · rw [hcopy]
      exact .givenUp rfl fun _ _ => rfl
  | discard =>
    rw [← Option.some.inj hs]
    exact .inl ⟨moves_discardDraft w, trivial⟩
  | delete id ok ok' =>
    rw [← Option.some.inj hs]
    exact .inl ⟨moves_deleteFlow w id ok ok', trivial⟩
  | reload ok =>
    rw [← Option.some.inj hs, copy_reload]
    exact .inl ⟨.same, trivial⟩
  | submitAuth refused ok =>
    rw [← Option.some.inj hs]
    refine .inl ⟨?_, trivial⟩
    unfold submitAuth
    split <;> exact .same
  | submitAddRemote oauth refused ok =>
    rw [← Option.some.inj hs]
    refine .inl ⟨?_, trivial⟩
    unfold submitAddRemote
    split
    · exact .same
    · split <;> exact .same
  | openAddRemote ok providers =>
    rw [← Option.some.inj hs]
    refine .inl ⟨?_, trivial⟩
    unfold openAddRemote
    simp only
    split <;> exact .same
  | closeOverlay cancels ok =>
    rw [← Option.some.inj hs]
    refine .inl ⟨?_, trivial⟩
    unfold closeOverlay
    simp only
    split <;> exact .same
  | loadFolder ok =>
    rw [← Option.some.inj hs]
    exact .inl ⟨.same, trivial⟩
  | checkUpdate ok =>
    rw [← Option.some.inj hs]
    refine .inl ⟨?_, trivial⟩
    unfold checkUpdate
    split <;> exact .same
  | request p ok =>
    simp only [step] at hs
    split at hs
    · rw [← Option.some.inj hs]
      exact .inl ⟨.same, trivial⟩
    · cases hs
  | mock =>
    rw [← Option.some.inj hs]
    exact .inl ⟨.givenUp rfl fun _ hdraft => (nomatch hdraft), trivial⟩
  | linkReady ok ok' providers =>
    rw [← Option.some.inj hs]
    refine .inl ⟨?_, trivial⟩
    have hreload := copy_reload { w with started := true } ok
    unfold linkReady
    simp only
    split
    · exact .same
    · split
      · rw [hreload]
        exact .same
      · rw [copy_send, hreload]
        exact .same
  | linkLost | stateChanged =>
    rw [← Option.some.inj hs]
    exact .inl ⟨.same, trivial⟩
  | reloadTick ok =>
    simp only [step] at hs
    split at hs
    · rw [← Option.some.inj hs]
      refine .inl ⟨?_, trivial⟩
      split
      · exact .same
      · rw [copy_reload]
        exact .same
    · cases hs
  | layoutTick running issue typed ok =>
    rw [← Option.some.inj hs]
    exact .inl ⟨moves_layoutTick w running issue typed ok, trivial⟩
  | timeout id =>
    obtain ⟨p, -, rfl⟩ := Option.map_eq_some_iff.mp hs
    refine .inl ⟨?_, trivial⟩
    cases p <;> exact .same
  | error id =>
    obtain ⟨p, -, rfl⟩ := Option.map_eq_some_iff.mp hs
    refine .inl ⟨?_, trivial⟩
    cases p <;> exact .same
  | authUnlocked ok | authLocked ok =>
    rw [← Option.some.inj hs, copy_reload]
    exact .inl ⟨.same, trivial⟩
  | oauthAuthorized ok =>
    rw [← Option.some.inj hs]
    refine .inl ⟨?_, trivial⟩
    split <;> exact .same
  | reply id reply ok typed differ =>
    obtain ⟨p, hp, hanswer⟩ := Option.bind_eq_some_iff.mp hs
    split at hanswer
    · rw [← Option.some.inj hanswer]
      by_cases htwo : (∃ s, p = .snapshot ∧ reply = .snapshot s) ∨
          ∃ thenRun quiet sent flow, p = .saveFlow thenRun quiet sent ∧ reply = .flow flow
      · exact .inr ⟨id, p, reply, ok, typed, differ, rfl, hp, rfl, htwo⟩
      · obtain ⟨hsnapshot, hsave⟩ := not_or.mp htwo
        refine .inl ⟨?_, ?_⟩
        · exact moves_result (w.remove id) reply ok typed differ
            (fun thenRun quiet sent flow hp' hreply =>
              hsave ⟨thenRun, quiet, sent, flow, hp', hreply⟩)
            fun s hp' hreply => hsnapshot ⟨s, hp', hreply⟩
        · intro p' hp'
          obtain rfl := Option.some.inj (hp.symm.trans hp')
          unfold CarefulReply
          split
          · exact absurd ⟨_, _, _, _, rfl, rfl⟩ hsave
          · exact absurd ⟨_, rfl, rfl⟩ hsnapshot
          · trivial
    · cases hanswer

theorem coherent_step {a : Act} (h : w.copy.Coherent) (hs : w.step a = some w') :
    w'.copy.Coherent := by
  rcases step_moves hs with ⟨hmoves, -⟩ | ⟨id, p, reply, ok, typed, differ, -, -, rfl, hp⟩
  · exact hmoves.coherent h
  · rcases hp with ⟨s, rfl, rfl⟩ | ⟨thenRun, quiet, sent, flow, rfl, rfl⟩
    · exact coherent_applySnapshot (w := (w.remove id).set .snapshotPending false) h s
    · have hsaved := coherent_saved
        (w := { (w.remove id).set .layoutSaving false with viewportDirty := false }) h flow
      simp only [handleResult]
      split
      · exact (moves_collect _ typed).coherent hsaved
      · exact hsaved

/-- A step keeps the edits exactly when it meets the condition. -/
theorem kept_step {a : Act} (hcoherent : w.copy.Coherent) (h : w.Kept) (hs : w.step a = some w') :
    w'.Kept ↔ w.Careful a := by
  rcases step_moves hs with
    ⟨hmoves, hcareful⟩ | ⟨id, p, reply, ok, typed, differ, rfl, hlookup, rfl, hp⟩
  · exact iff_of_true (hmoves.kept hcoherent h) hcareful
  · have hcond : w.Careful (.reply id reply ok typed differ) ↔ w.CarefulReply p reply :=
      ⟨fun hall => hall p hlookup, fun hone p' hp' => by
        rwa [← Option.some.inj (hlookup.symm.trans hp')]⟩
    rw [hcond]
    rcases hp with ⟨s, rfl, rfl⟩ | ⟨thenRun, quiet, sent, flow, rfl, rfl⟩
    · exact kept_applySnapshot (w := (w.remove id).set .snapshotPending false) h s
    · simp only [handleResult]
      split
      · exact kept_savedRun
          (w := { (w.remove id).set .layoutSaving false with viewportDirty := false })
          hcoherent h flow typed ok
      · exact kept_saved
          (w := { (w.remove id).set .layoutSaving false with viewportDirty := false }) h flow

theorem coherent_reachable (h : windowSystem.Reachable w) : w.copy.Coherent := by
  refine h.invariant (P := fun w => w.copy.Coherent) ?_ fun w a w' hw hs => coherent_step hw hs
  rintro w rfl
  exact ⟨fun hdraft => (nomatch hdraft), fun e he => (nomatch he)⟩

/-- No edit is lost in a run whose replies meet the condition, and a reply that
    does not meet it takes edits away. -/
theorem edits_kept (w : GnDriveWindow) :
    (windowSystem.ReachableIf Careful w → w.Kept) ∧
    ∀ a w', windowSystem.Reachable w → w.Kept → windowSystem.step w a = some w' →
      (w'.Kept ↔ w.Careful a) := by
  refine ⟨fun hw => ?_, fun a w' hw h hs => kept_step (coherent_reachable hw) h hs⟩
  have hboth := hw.invariant (P := fun w => w.copy.Coherent ∧ w.Kept) ?_ ?_
  · exact hboth.2
  · rintro w rfl
    exact ⟨⟨fun hdraft => (nomatch hdraft), fun e he => (nomatch he)⟩, fun e he => (nomatch he)⟩
  · intro w a w' ⟨hcoherent, hkept⟩ hcareful hs
    exact ⟨coherent_step hcoherent hs, (kept_step hcoherent hkept hs).mpr hcareful⟩

/-- A flow is opened, edited and saved. -/
def saving : List Act :=
  [.linkReady true true true,
    .reply 1 (.snapshot ⟨false, [⟨"f", "Flow", 0, "t", []⟩]⟩) true false false,
    .edit none false, .save false false false true]

/-- The reply to the save. -/
def saved : Act := .reply 2 (.flow ⟨"f", "Flow", 0, "u", [0]⟩) true false false

/-- A reply comes when nothing is owed, or it is a flow with all that is owed. -/
def covers (w : GnDriveWindow) : Act → Bool
  | .reply _ (.flow flow) .. => w.owed.all flow.edits.contains
  | .reply .. => w.owed.isEmpty
  | _ => true

theorem careful_of_covers {a : Act} (h : w.covers a = true) : w.Careful a := by
  cases a with
  | reply id reply ok typed differ =>
    intro p _
    cases reply with
    | flow flow =>
      have hall : ∀ e ∈ w.owed, e ∈ flow.edits := by simpa [covers] using h
      cases p with
      | saveFlow thenRun quiet sent => exact fun _ => hall
      | _ => trivial
    | snapshot s =>
      have hnil : w.owed = [] := List.isEmpty_iff.mp h
      cases p with
      | snapshot => exact .inl hnil
      | _ => trivial
    | session | unread => cases p <;> trivial
  | _ => trivial

theorem edits_kept_saved :
    ∃ w, windowSystem.ReachableIf Careful w ∧ w.dirty = true ∧ w.owed = [1] ∧ w.Kept := by
  obtain ⟨w, hw, hstate⟩ := (Option.any_eq_true _ _).mp
    (show (windowSystem.runIf covers {} (saving ++ [saved, .edit none false])).any
      (fun w => w.dirty && w.owed = [1]) = true by decide +kernel)
  obtain ⟨hdirty, howed⟩ := Bool.and_eq_true_iff.mp hstate
  have hreach : windowSystem.ReachableIf Careful w :=
    (System.runIf_reachableIf (.init rfl) hw).mono fun _ _ => careful_of_covers
  exact ⟨w, hreach, hdirty, of_decide_eq_true howed, (edits_kept w).1 hreach⟩

/-- The user edits on while the save is under way; the reply takes the edit away
    and leaves the draft unmarked. -/
theorem edit_lost : ¬∀ w, windowSystem.Reachable w → w.Kept := by
  intro h
  obtain ⟨w, hw, hlost⟩ := (Option.any_eq_true _ _).mp
    (show (windowSystem.runFrom {} (saving ++ [.edit none false, saved])).any
      (fun w => !w.dirty && w.owed.contains 1) = true by decide +kernel)
  obtain ⟨hclean, howed⟩ := Bool.and_eq_true_iff.mp hlost
  have hmem : 1 ∈ w.owed := by simpa using howed
  have hdirty : w.dirty = true := (h w (System.runFrom_reachable (.init rfl) hw) 1 hmem).1
  rw [hdirty] at hclean
  cases hclean

end GnDriveWindow

end GnDrive.Gpui.Window
