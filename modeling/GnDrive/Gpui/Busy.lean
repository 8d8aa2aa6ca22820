/-
  GnDrive.Gpui.Busy

  The flags of the window and the requests they stand for.

  A flag is set before the request is sent and cleared in four places.
  `truthful_step` says of each step when a flag that is set still has a request
  of its kind behind it.
-/

import GnDrive.Gpui.WindowState

namespace GnDrive.Gpui.Window

/-- The requests that a flag stands for. -/
def Flag.holds : Flag → Pending → Bool
  | .snapshotPending, .snapshot => true
  | .layoutSaving, .saveFlow .. => true
  | .authBusy, .auth => true
  | .addBusy, .remoteAdd | .addBusy, .oauthStart | .addBusy, .oauthComplete => true
  | .oauthBusy, .remoteAdd | .oauthBusy, .oauthStart | .oauthBusy, .oauthComplete => true
  | .browseLoading, .fsList => true
  | .updateBusy, .updateCheck => true
  | _, _ => false

namespace GnDriveWindow

/-- A request that the flag stands for is pending. -/
def Backed (w : GnDriveWindow) (f : Flag) : Prop := ∃ q ∈ w.pending, f.holds q.2 = true

/-- Every flag that is set has such a request. -/
def Truthful (w : GnDriveWindow) : Prop := ∀ f, w.busy f = true → w.Backed f

/-- The request that a flag is set for is taken, or another one of its kind is
    still pending. -/
def Sent (w : GnDriveWindow) (ok : Bool) (f : Flag) : Prop := ok = true ∨ w.Backed f

/-- The condition on a reply, `p` being what was asked. -/
def HonestReply (w : GnDriveWindow) (id : Nat) (p : Pending) (reply : Reply) (ok : Bool) : Prop :=
  match p with
  | .saveFlow .. => (∀ flow, reply ≠ .flow flow) → w.Sent ok .snapshotPending
  | .createFlow | .deleteFlow | .execute | .stop | .removePassword | .remoteDelete | .auth
  | .oauthComplete | .remoteAdd => w.Sent ok .snapshotPending
  -- the authorization goes on without a request
  | .oauthStart => w.busy .oauthBusy = true → (w.remove id).Backed .oauthBusy
  | _ => True

/-- The condition on a request that is given up: the ticker clears no flag for a
    snapshot and for a folder. -/
def HonestTimeout (w : GnDriveWindow) (id : Nat) (p : Pending) : Prop :=
  p = .snapshot ∨ p = .fsList → ∀ f : Flag, f.holds p = true → w.busy f = true →
    (w.remove id).Backed f

/-- What makes a step keep the flags truthful. -/
def Honest (w : GnDriveWindow) : Act → Prop
  | .delete _ _ ok | .reload ok | .reloadTick ok | .authUnlocked ok | .authLocked ok =>
      w.Sent ok .snapshotPending
  | .linkReady ok _ _ => w.started = false → w.Sent ok .snapshotPending
  | .submitAuth refused ok =>
      w.busy .authBusy = false → w.locked = true → refused = false → w.Sent ok .authBusy
  | .submitAddRemote _ refused ok =>
      w.busy .addBusy = false → w.busy .oauthBusy = false → refused = false → w.Sent ok .addBusy
  | .loadFolder ok => w.Sent ok .browseLoading
  | .checkUpdate ok => w.busy .updateBusy = false → w.Sent ok .updateBusy
  -- an autosave that comes to its request
  | .layoutTick running issue _ ok =>
      w.layoutFires running = true →
        (w.draft.isSome = true ∧ issue = false ∧ ok = true) ∨ w.Backed .layoutSaving
  | .timeout id => ∀ p, w.lookup id = some p → w.HonestTimeout id p
  | .reply id reply ok _ _ => ∀ p, w.lookup id = some p → w.HonestReply id p reply ok
  | .mock => ∀ f, f ≠ .snapshotPending → w.busy f = false
  | _ => True

-- ============================================================================
-- Steps that leave the requests alone
-- ============================================================================

variable {w w' : GnDriveWindow} {f g : Flag} {p : Pending} {ok : Bool} {id : Nat}

/-- The flags and the pending requests are the same. -/
structure SameRequests (w w' : GnDriveWindow) : Prop where
  busy : w'.busy = w.busy
  pending : w'.pending = w.pending

theorem SameRequests.backed (h : SameRequests w w') (f : Flag) : w'.Backed f ↔ w.Backed f := by
  unfold Backed
  rw [h.pending]

theorem SameRequests.truthful (h : SameRequests w w') : Truthful w' ↔ Truthful w := by
  unfold Truthful
  rw [h.busy]
  exact forall_congr' fun f => imp_congr_right fun _ => h.backed f

theorem same_edit (w : GnDriveWindow) (name : Option String) : SameRequests w (w.edit name) := by
  unfold edit
  split <;> exact ⟨rfl, rfl⟩

theorem same_collect (w : GnDriveWindow) (typed : Bool) :
    SameRequests w (w.collectEditors typed) := by
  unfold collectEditors
  split
  · exact same_edit w none
  · exact ⟨rfl, rfl⟩

theorem same_applySnapshot (w : GnDriveWindow) (s : Snapshot) :
    SameRequests w (w.applySnapshot s) := by
  unfold applySnapshot
  simp only
  split
  · exact ⟨rfl, rfl⟩
  · split
    · split <;> exact ⟨rfl, rfl⟩
    · split
      · split
        · split <;> exact ⟨rfl, rfl⟩
        · exact ⟨rfl, rfl⟩
      · exact ⟨rfl, rfl⟩

theorem same_pickFlow (w : GnDriveWindow) (id : String) (differ : Bool) :
    SameRequests w (w.pickFlow id differ) := by
  unfold pickFlow
  split
  · exact ⟨rfl, rfl⟩
  · split
    · exact ⟨rfl, rfl⟩
    · split <;> exact ⟨rfl, rfl⟩

theorem same_discardDraft (w : GnDriveWindow) : SameRequests w w.discardDraft := by
  unfold discardDraft
  split <;> exact ⟨rfl, rfl⟩

theorem same_adoptSaved (w : GnDriveWindow) (flow : Flow) : SameRequests w (w.adoptSaved flow) := by
  unfold adoptSaved
  simp only
  split <;> exact ⟨rfl, rfl⟩

-- ============================================================================
-- Requests
-- ============================================================================

theorem backed_send : (w.send ok p).Backed f ↔ w.Backed f ∨ ok = true ∧ f.holds p = true := by
  unfold Backed send
  cases ok with
  | false => simp
  | true =>
    simp only [if_true, List.mem_append, List.mem_singleton, true_and]
    constructor
    · rintro ⟨q, hq | rfl, hf⟩
      · exact .inl ⟨q, hq, hf⟩
      · exact .inr hf
    · rintro (⟨q, hq, hf⟩ | hf)
      · exact ⟨q, .inl hq, hf⟩
      · exact ⟨_, .inr rfl, hf⟩

theorem truthful_send (h : Truthful w) (ok : Bool) (p : Pending) : Truthful (w.send ok p) :=
  fun f hf => backed_send.mpr (.inl (h f hf))

theorem set_busy (w : GnDriveWindow) (f g : Flag) (b : Bool) :
    (w.set f b).busy g = if g = f then b else w.busy g := by
  unfold set
  by_cases hg : g = f
  · simp [hg]
  · simp [hg]

theorem truthful_clear (h : Truthful w) (f : Flag) : Truthful (w.set f false) := by
  intro g hg
  rw [set_busy] at hg
  split at hg
  · cases hg
  · exact h g hg

/-- A flag is set and its request sent. -/
theorem truthful_flagSend (h : Truthful w) (hp : f.holds p = true)
    (hbusy : w'.busy = (w.set f true).busy) (hpending : w'.pending = w.pending) :
    Truthful (w'.send ok p) ↔ w.Sent ok f := by
  have hback : ∀ g, w'.Backed g ↔ w.Backed g := fun g => by
    unfold Backed
    rw [hpending]
  constructor
  · intro h'
    have hbacked := h' f (by show w'.busy f = true; rw [hbusy, set_busy, if_pos rfl])
    rcases backed_send.mp hbacked with hold | ⟨hok, -⟩
    · exact .inr ((hback f).mp hold)
    · exact .inl hok
  · intro hsent g hg
    refine backed_send.mpr ?_
    have hg' : w'.busy g = true := hg
    rw [hbusy, set_busy] at hg'
    split at hg'
    · rename_i hgf
      subst hgf
      rcases hsent with hok | hold
      · exact .inr ⟨hok, hp⟩
      · exact .inl ((hback g).mpr hold)
    · exact .inl ((hback g).mpr (h g hg'))

theorem truthful_setSend (h : Truthful w) (hp : f.holds p = true) :
    Truthful ((w.set f true).send ok p) ↔ w.Sent ok f := truthful_flagSend h hp rfl rfl

/-- A flag is set and no request is sent. -/
theorem truthful_flagged (h : Truthful w) (hbusy : w'.busy = (w.set f true).busy)
    (hpending : w'.pending = w.pending) : Truthful w' ↔ w.Backed f := by
  have hback : ∀ g, w'.Backed g ↔ w.Backed g := fun g => by
    unfold Backed
    rw [hpending]
  constructor
  · intro h'
    exact (hback f).mp (h' f (by rw [hbusy, set_busy, if_pos rfl]))
  · intro hf g hg
    rw [hbusy, set_busy] at hg
    refine (hback g).mpr ?_
    split at hg
    · rename_i hgf
      exact hgf ▸ hf
    · exact h g hg

theorem truthful_reload (h : Truthful w) :
    Truthful (w.reload ok) ↔ w.Sent ok .snapshotPending := by
  unfold reload
  split
  · rename_i hbusy
    exact iff_of_true h (.inr (h _ hbusy))
  · exact truthful_setSend h rfl

theorem sent_congr (h : ∀ f, w'.Backed f ↔ w.Backed f) : w'.Sent ok f ↔ w.Sent ok f := by
  unfold Sent
  rw [h f]

-- ============================================================================
-- Requests that are done
-- ============================================================================

theorem mem_of_lookup (h : w.lookup id = some p) : (id, p) ∈ w.pending := by
  obtain ⟨q, hq, rfl⟩ := Option.map_eq_some_iff.mp h
  have hid : q.1 = id := by simpa using List.find?_some hq
  rw [← hid]
  exact List.mem_of_find?_eq_some hq

/-- The requests that the removed one is not among keep their flags. -/
theorem backed_remove (h : w.lookup id = some p) (hf : f.holds p = false) :
    (w.remove id).Backed f ↔ w.Backed f := by
  constructor
  · rintro ⟨q, hq, hhold⟩
    exact ⟨q, List.mem_of_mem_eraseP hq, hhold⟩
  · -- the first request with the id is the removed one
    rintro ⟨q, hq, hhold⟩
    refine ⟨q, ?_, hhold⟩
    obtain ⟨q', hfind, hp⟩ := Option.map_eq_some_iff.mp h
    obtain ⟨hid, before, after, hsplit, hfirst⟩ := List.find?_eq_some_iff_append.mp hfind
    have herase : (w.remove id).pending = before ++ after := by
      show w.pending.eraseP _ = _
      rw [hsplit, List.eraseP_append_right _ fun x hx => by simpa using hfirst x hx]
      simp only [List.eraseP_cons, hid, cond_true]
    rw [hsplit] at hq
    rw [herase]
    rcases List.mem_append.mp hq with hb | ha
    · exact List.mem_append_left _ hb
    · rcases List.mem_cons.mp ha with rfl | ha
      · rw [hp, hf] at hhold
        cases hhold
      · exact List.mem_append_right _ ha

/-- A request is done, and the flags that stand for it are cleared. -/
theorem truthful_done (h : Truthful w) (hp : w.lookup id = some p)
    (hpending : w'.pending = (w.remove id).pending)
    (hbusy : ∀ f, w'.busy f = true → w.busy f = true ∧ f.holds p = false) : Truthful w' := by
  intro f hf
  obtain ⟨hold, hhold⟩ := hbusy f hf
  have hback : (w.remove id).Backed f := (backed_remove hp hhold).mpr (h f hold)
  unfold Backed
  rw [hpending]
  exact hback

/-- A request is done, and the flag `g` may still be set. -/
theorem truthful_left (h : Truthful w) (hp : w.lookup id = some p)
    (hpending : w'.pending = (w.remove id).pending)
    (hbusy : ∀ f, w'.busy f = true → w.busy f = true ∧ (f.holds p = false ∨ f = g)) :
    Truthful w' ↔ (w'.busy g = true → (w.remove id).Backed g) := by
  constructor
  · intro h' hg
    have := h' g hg
    unfold Backed at this
    rwa [hpending] at this
  · intro hg f hf
    unfold Backed
    rw [hpending]
    obtain ⟨hold, hhold | rfl⟩ := hbusy f hf
    · exact (backed_remove hp hhold).mpr (h f hold)
    · exact hg hf

/-- A request is done, the flags that stand for it are cleared, and the window
    reloads. -/
theorem truthful_doneReload (h : Truthful w) (hp : w.lookup id = some p)
    (hsnap : Flag.snapshotPending.holds p = false) (hpending : w'.pending = (w.remove id).pending)
    (hbusy : ∀ f, w'.busy f = true → w.busy f = true ∧ f.holds p = false) :
    Truthful (w'.reload ok) ↔ w.Sent ok .snapshotPending := by
  have hback : w'.Backed .snapshotPending ↔ w.Backed .snapshotPending := by
    rw [← backed_remove hp hsnap]
    unfold Backed
    rw [hpending]
  rw [truthful_reload (truthful_done h hp hpending hbusy)]
  unfold Sent
  rw [hback]

/-- The flags after one of them is cleared. -/
theorem cleared_one (hg : ∀ f, f ≠ g → f.holds p = false) :
    ∀ f, ((w.remove id).set g false).busy f = true → w.busy f = true ∧ f.holds p = false := by
  intro f hf
  rw [set_busy] at hf
  split at hf
  · cases hf
  · rename_i hne
    exact ⟨hf, hg f hne⟩

/-- The flags after both flags of the form for remotes are cleared. -/
theorem cleared_form
    (hg : ∀ f' : Flag, f' ≠ .addBusy → f' ≠ .oauthBusy → f'.holds p = false)
    (hfg : f = .addBusy ∧ g = .oauthBusy ∨ f = .oauthBusy ∧ g = .addBusy) :
    ∀ f', (((w.remove id).set f false).set g false).busy f' = true →
      w.busy f' = true ∧ f'.holds p = false := by
  intro f' hf'
  rw [set_busy, set_busy] at hf'
  split at hf'
  · cases hf'
  · split at hf'
    · cases hf'
    · rename_i hne hne'
      refine ⟨hf', hg f' ?_ ?_⟩
      · rcases hfg with ⟨rfl, rfl⟩ | ⟨rfl, rfl⟩ <;> assumption
      · rcases hfg with ⟨rfl, rfl⟩ | ⟨rfl, rfl⟩ <;> assumption

/-- No flag stands for the request. -/
theorem cleared_none (hp : ∀ f : Flag, f.holds p = false) :
    ∀ f, (w.remove id).busy f = true → w.busy f = true ∧ f.holds p = false :=
  fun f hf => ⟨hf, hp f⟩

-- ============================================================================
-- The functions of the window
-- ============================================================================

theorem truthful_saveFlowInner (h : Truthful w) (thenRun quiet running issue typed ok : Bool) :
    Truthful (w.saveFlowInner thenRun quiet running issue typed ok) := by
  rcases w.saveFlowInner_cases thenRun quiet running issue typed ok with
    ⟨-, flow, -, hsave⟩ | ⟨-, hsave⟩
  · rw [hsave]
    exact truthful_send ((same_collect w typed).truthful.mpr h) ok _
  · rw [hsave]
    exact h

theorem truthful_executeFlow (h : Truthful w) (typed ok : Bool) :
    Truthful (w.executeFlow typed ok) :=
  truthful_send ((same_collect w typed).truthful.mpr h) ok _

theorem truthful_runFlow (h : Truthful w) (empty running issue typed changed ok : Bool) :
    Truthful (w.runFlow empty running issue typed changed ok) := by
  unfold runFlow
  split
  · exact h
  · have hcollect := (same_collect w typed).truthful.mpr h
    simp only
    split
    · exact truthful_saveFlowInner hcollect true false running issue false ok
    · exact truthful_executeFlow hcollect false ok

/-- No flag stands for the request that deletes a flow. -/
theorem truthful_deleteFlow (h : Truthful w) (id : String) (sent : Bool) :
    Truthful (w.deleteFlow id sent ok) ↔ w.Sent ok .snapshotPending := by
  have hrefused : ∀ v : GnDriveWindow, SameRequests (w.send sent .deleteFlow) v →
      (Truthful (v.reload ok) ↔ w.Sent ok .snapshotPending) := by
    intro v hsame
    rw [truthful_reload (hsame.truthful.mpr (truthful_send h sent .deleteFlow))]
    refine or_congr_right ((hsame.backed _).trans (backed_send.trans (or_iff_left ?_)))
    rintro ⟨-, hf⟩
    cases hf
  unfold deleteFlow
  simp only
  split <;> exact hrefused _ ⟨rfl, rfl⟩

theorem truthful_linkReady (h : Truthful w) (ok' providers : Bool) :
    Truthful (w.linkReady ok ok' providers) ↔ (w.started = false → w.Sent ok .snapshotPending) := by
  unfold linkReady
  split
  · rename_i hstarted
    exact iff_of_true h fun hs => absurd (hs ▸ hstarted) (by decide)
  · rename_i hstarted
    have hsame : SameRequests w { w with started := true } := ⟨rfl, rfl⟩
    have hreload := @truthful_reload _ ok (hsame.truthful.mpr h)
    rw [sent_congr hsame.backed] at hreload
    have hsent : Truthful ({ w with started := true }.reload ok) ↔
        (w.started = false → w.Sent ok .snapshotPending) :=
      hreload.trans (imp_iff_right (by simpa using hstarted)).symm
    simp only
    split
    · exact hsent
    · rw [← hsent]
      -- no flag stands for the request for providers
      refine forall_congr' fun f => imp_congr_right fun _ => ?_
      rw [backed_send]
      exact or_iff_left (by rintro ⟨-, hf⟩; cases f <;> cases hf)

theorem truthful_submitAuth (h : Truthful w) (refused : Bool) :
    Truthful (w.submitAuth refused ok) ↔
      (w.busy .authBusy = false → w.locked = true → refused = false → w.Sent ok .authBusy) := by
  unfold submitAuth
  split
  · rename_i hguard
    refine iff_of_true h fun hbusy hlocked hrefused => ?_
    rw [hbusy, hlocked, hrefused] at hguard
    cases hguard
  · rename_i hguard
    simp only [Bool.or_eq_true, Bool.not_eq_true', not_or, Bool.not_eq_true,
      Bool.not_eq_false] at hguard
    obtain ⟨⟨hbusy, hlocked⟩, hrefused⟩ := hguard
    rw [truthful_setSend h rfl]
    exact ⟨fun hsent _ _ _ => hsent, fun hsent => hsent hbusy hlocked hrefused⟩

theorem truthful_checkUpdate (h : Truthful w) :
    Truthful (w.checkUpdate ok) ↔ (w.busy .updateBusy = false → w.Sent ok .updateBusy) := by
  unfold checkUpdate
  split
  · rename_i hbusy
    exact iff_of_true h fun hidle => absurd (hidle ▸ hbusy) (by decide)
  · rename_i hbusy
    rw [truthful_setSend h rfl, imp_iff_right (by simpa using hbusy)]

theorem truthful_submitAddRemote (h : Truthful w) (oauth refused : Bool) :
    Truthful (w.submitAddRemote oauth refused ok) ↔
      (w.busy .addBusy = false → w.busy .oauthBusy = false → refused = false →
        w.Sent ok .addBusy) := by
  unfold submitAddRemote
  split
  · rename_i hguard
    refine iff_of_true h fun hadd hoauth hrefused => ?_
    rw [hadd, hoauth, hrefused] at hguard
    cases hguard
  · rename_i hguard
    simp only [Bool.or_eq_true, not_or, Bool.not_eq_true] at hguard
    obtain ⟨⟨hadd, hoauth⟩, hrefused⟩ := hguard
    have hcond : (w.busy .addBusy = false → w.busy .oauthBusy = false → refused = false →
        w.Sent ok .addBusy) ↔ w.Sent ok .addBusy :=
      ⟨fun hsent => hsent hadd hoauth hrefused, fun hsent _ _ _ => hsent⟩
    rw [hcond]
    split
    · -- both flags stand for the same requests
      have hboth : w.Backed .oauthBusy ↔ w.Backed .addBusy := by
        refine exists_congr fun q => and_congr_right fun _ => ?_
        cases q.2 <;> rfl
      constructor
      · intro h'
        have hbacked := h' .addBusy (by
          show ((w.set .oauthBusy true).set .addBusy true).busy .addBusy = true
          rw [set_busy, if_pos rfl])
        rcases backed_send.mp hbacked with hold | ⟨hok, -⟩
        · exact .inr hold
        · exact .inl hok
      · intro hsent f hf
        have hf' : ((w.set .oauthBusy true).set .addBusy true).busy f = true := hf
        rw [set_busy, set_busy] at hf'
        refine backed_send.mpr ?_
        by_cases hfa : f = .addBusy
        · subst hfa
          exact hsent.symm.imp id fun hok => ⟨hok, rfl⟩
        · rw [if_neg hfa] at hf'
          by_cases hfo : f = .oauthBusy
          · subst hfo
            exact hsent.symm.imp hboth.mpr fun hok => ⟨hok, rfl⟩
          · rw [if_neg hfo] at hf'
            exact .inl (h f hf')
    · exact truthful_setSend h rfl

/-- An autosave sets its flag before the save looks at the draft and the
    inspector. -/
theorem truthful_layoutTick (h : Truthful w) (running issue typed : Bool) :
    Truthful (w.layoutTick running issue typed ok) ↔
      (w.layoutFires running = true →
        (w.draft.isSome = true ∧ issue = false ∧ ok = true) ∨ w.Backed .layoutSaving) := by
  unfold layoutTick
  simp only
  split
  · rename_i hfires
    rw [imp_iff_right hfires]
    have hrunning : running = false := by
      unfold layoutFires at hfires
      simp only [Bool.and_eq_true, Bool.not_eq_true'] at hfires
      exact hfires.1.1.2
    generalize hv : { { w with layoutSaveAt := false }.set .layoutSaving true with
      viewportDirty := false } = v
    have hbusy : v.busy = (w.set .layoutSaving true).busy := by rw [← hv]; rfl
    have hpending : v.pending = w.pending := by rw [← hv]; rfl
    have hdraft : v.draft = w.draft := by rw [← hv]; rfl
    rcases v.saveFlowInner_cases false (w.viewportDirty && !w.dirty) running issue typed ok with
      ⟨⟨hsome, -, hissue⟩, flow, -, hsave⟩ | ⟨hnot, hsave⟩
    · have hsame := same_collect v typed
      have hsend := @truthful_flagSend _ _ .layoutSaving
        (.saveFlow false (w.viewportDirty && !w.dirty) flow) ok h rfl (hsame.busy.trans hbusy)
        (hsame.pending.trans hpending)
      rw [hsave, hsend]
      exact or_congr_left ⟨fun hok => ⟨hdraft ▸ hsome, hissue, hok⟩, fun hall => hall.2.2⟩
    · rw [hsave, truthful_flagged h hbusy hpending]
      refine (or_iff_right ?_).symm
      rintro ⟨hsome, hissue, -⟩
      exact hnot ⟨hdraft ▸ hsome, hrunning, hissue⟩
  · rename_i hfires
    exact iff_of_true h fun hf => absurd hf hfires

-- ============================================================================
-- Replies, errors and requests that are given up
-- ============================================================================

theorem handleResult_snapshot (w : GnDriveWindow) (reply : Reply) (ok typed differ : Bool) :
    w.handleResult .snapshot reply ok typed differ =
      match reply with
      | .snapshot s => (w.set .snapshotPending false).applySnapshot s
      | _ => w.set .snapshotPending false := rfl

theorem handleResult_saveFlow (w : GnDriveWindow) (thenRun quiet : Bool) (sent : Flow)
    (reply : Reply) (ok typed differ : Bool) :
    w.handleResult (.saveFlow thenRun quiet sent) reply ok typed differ =
      match reply with
      | .flow flow =>
          if thenRun then
            ((({ w.set .layoutSaving false with viewportDirty := false } :
              GnDriveWindow).adoptSaved flow).confirm flow).executeFlow typed ok
          else
            (({ w.set .layoutSaving false with viewportDirty := false } :
              GnDriveWindow).adoptSaved flow).confirm flow
      | _ => ({ w.set .layoutSaving false with viewportDirty := false } : GnDriveWindow).reload ok :=
  rfl

theorem handleResult_createFlow (w : GnDriveWindow) (reply : Reply) (ok typed differ : Bool) :
    w.handleResult .createFlow reply ok typed differ =
      (match reply with
      | .flow flow => (w.pushFlow flow).pickFlow flow.id differ
      | _ => w).reload ok := rfl

theorem truthful_result (h : Truthful w) (hp : w.lookup id = some p) (reply : Reply)
    (typed differ : Bool) :
    Truthful ((w.remove id).handleResult p reply ok typed differ) ↔
      w.HonestReply id p reply ok := by
  cases p with
  | snapshot =>
    have hdone : Truthful ((w.remove id).set .snapshotPending false) :=
      truthful_done h hp rfl (cleared_one (by decide))
    refine iff_of_true ?_ trivial
    rw [handleResult_snapshot]
    split
    · exact (same_applySnapshot _ _).truthful.mpr hdone
    · exact hdone
  | saveFlow thenRun quiet sent =>
    generalize hv : { (w.remove id).set .layoutSaving false with viewportDirty := false } = v
    have hpending : v.pending = (w.remove id).pending := by rw [← hv]; rfl
    have hbusy : ∀ f, v.busy f = true → w.busy f = true ∧
        f.holds (.saveFlow thenRun quiet sent) = false := by
      rw [← hv]
      exact cleared_one (by intro f hf; cases f <;> first | rfl | contradiction)
    have hdone : Truthful v := truthful_done h hp hpending hbusy
    rw [handleResult_saveFlow, hv]
    split
    · rename_i flow
      have hadopted : Truthful ((v.adoptSaved flow).confirm flow) :=
        (same_adoptSaved v flow).truthful.mpr hdone
      refine iff_of_true ?_ fun hother => absurd rfl (hother flow)
      split
      · exact truthful_executeFlow hadopted typed ok
      · exact hadopted
    · rename_i hother
      rw [truthful_doneReload h hp rfl hpending hbusy]
      exact (imp_iff_right hother).symm
  | createFlow =>
    have hnone := @cleared_none w .createFlow id (by decide)
    rw [handleResult_createFlow]
    split
    · rename_i flow
      have hsame := same_pickFlow ((w.remove id).pushFlow flow) flow.id differ
      exact truthful_doneReload h hp rfl hsame.pending fun f hf => hnone f (hsame.busy ▸ hf)
    · exact truthful_doneReload h hp rfl rfl hnone
  | oauthStart =>
    have hbusy : ∀ f, ((w.remove id).set .addBusy false).busy f = true →
        w.busy f = true ∧ (f.holds .oauthStart = false ∨ f = .oauthBusy) := by
      intro f hf
      rw [set_busy] at hf
      split at hf
      · cases hf
      · refine ⟨hf, ?_⟩
        cases f <;> first | exact .inl rfl | exact .inr rfl | contradiction
    have hpending : ((w.remove id).handleResult .oauthStart reply ok typed differ).pending =
        (w.remove id).pending := rfl
    exact truthful_left h hp hpending hbusy
  | deleteFlow => exact truthful_doneReload h hp rfl rfl (cleared_none (by decide))
  | execute => exact truthful_doneReload h hp rfl rfl (cleared_none (by decide))
  | stop => exact truthful_doneReload h hp rfl rfl (cleared_none (by decide))
  | removePassword =>
    exact truthful_doneReload h hp rfl rfl (cleared_none (by decide))
  | remoteDelete =>
    exact truthful_doneReload h hp rfl rfl (cleared_none (by decide))
  | auth =>
    exact truthful_doneReload h hp rfl rfl
      (cleared_one (by decide))
  | oauthComplete =>
    exact truthful_doneReload h hp rfl rfl
      (cleared_form (by decide) (.inr ⟨rfl, rfl⟩))
  | remoteAdd =>
    exact truthful_doneReload h hp rfl rfl
      (cleared_form (by decide) (.inr ⟨rfl, rfl⟩))
  | fsList =>
    exact iff_of_true (truthful_done h hp rfl
      (cleared_one (by decide))) trivial
  | updateCheck =>
    exact iff_of_true (truthful_done h hp rfl
      (cleared_one (by decide))) trivial
  | changePassword =>
    have hdone : Truthful (w.remove id) :=
      truthful_done h hp rfl (cleared_none (by decide))
    refine iff_of_true ?_ trivial
    show Truthful (if (w.remove id).locked then w.remove id else (w.remove id).send ok .generic)
    split
    · exact hdone
    · exact truthful_send hdone ok .generic
  | providers | remoteTest | doctor | logs | health | serviceStatus | serviceAction | history
  | clearHistory | settingsSet | updateApply | generic =>
    exact iff_of_true (truthful_done h hp rfl (cleared_none (by decide))) trivial

theorem truthful_error (h : Truthful w) (hp : w.lookup id = some p) :
    Truthful ((w.remove id).handleError p) := by
  cases p with
  | saveFlow thenRun quiet sent =>
    exact truthful_done h hp rfl
      (cleared_one (by intro f hf; cases f <;> first | rfl | contradiction))
  | snapshot | auth | updateCheck | fsList =>
    exact truthful_done h hp rfl (cleared_one (by decide))
  | remoteAdd | oauthStart | oauthComplete =>
    exact truthful_done h hp rfl (cleared_form (by decide) (.inl ⟨rfl, rfl⟩))
  | execute | stop | createFlow | deleteFlow | providers | remoteTest | remoteDelete
  | changePassword | removePassword | doctor | logs | health | serviceStatus | serviceAction
  | history | clearHistory | settingsSet | updateApply | generic =>
    exact truthful_done h hp rfl (cleared_none (by decide))

theorem truthful_timeOut (h : Truthful w) (hp : w.lookup id = some p) :
    Truthful ((w.remove id).timeOut p) ↔ w.HonestTimeout id p := by
  cases p with
  | saveFlow thenRun quiet sent =>
    refine iff_of_true ?_ (by rintro (hs | hs) <;> cases hs)
    exact truthful_done h hp rfl
      (cleared_one (by intro f hf; cases f <;> first | rfl | contradiction))
  | auth | updateCheck =>
    refine iff_of_true ?_ (by rintro (hs | hs) <;> cases hs)
    exact truthful_done h hp rfl (cleared_one (by decide))
  | remoteAdd | oauthStart | oauthComplete =>
    refine iff_of_true ?_ (by rintro (hs | hs) <;> cases hs)
    exact truthful_done h hp rfl (cleared_form (by decide) (.inl ⟨rfl, rfl⟩))
  | snapshot =>
    refine (truthful_left (g := .snapshotPending) h hp rfl fun f hf => ⟨hf, ?_⟩).trans ?_
    · cases f <;> first | exact .inl rfl | exact .inr rfl
    · constructor
      · intro hg _ f hf hbusy
        cases f <;> first | exact hg hbusy | cases hf
      · exact fun hg hbusy => hg (.inl rfl) _ rfl hbusy
  | fsList =>
    refine (truthful_left (g := .browseLoading) h hp rfl fun f hf => ⟨hf, ?_⟩).trans ?_
    · cases f <;> first | exact .inl rfl | exact .inr rfl
    · constructor
      · intro hg _ f hf hbusy
        cases f <;> first | exact hg hbusy | cases hf
      · exact fun hg hbusy => hg (.inr rfl) _ rfl hbusy
  | execute | stop | createFlow | deleteFlow | providers | remoteTest | remoteDelete
  | changePassword | removePassword | doctor | logs | health | serviceStatus | serviceAction
  | history | clearHistory | settingsSet | updateApply | generic =>
    refine iff_of_true ?_ (by rintro (hs | hs) <;> cases hs)
    exact truthful_done h hp rfl (cleared_none (by decide))

-- ============================================================================
-- The steps
-- ============================================================================

/-- A step keeps the flags truthful exactly when it meets the condition. -/
theorem truthful_step {a : Act} (h : Truthful w) (hs : w.step a = some w') :
    Truthful w' ↔ w.Honest a := by
  cases a with
  | edit name layout =>
    simp only [step] at hs
    split at hs
    · have hsame := same_edit w name
      rw [← Option.some.inj hs]
      exact iff_of_true (SameRequests.truthful ⟨hsame.busy, hsame.pending⟩ |>.mpr h) trivial
    · cases hs
  | viewport =>
    simp only [step] at hs
    split at hs
    · rw [← Option.some.inj hs]
      exact iff_of_true h trivial
    · cases hs
  | save running issue typed ok =>
    rw [← Option.some.inj hs]
    exact iff_of_true (truthful_saveFlowInner h false false running issue typed ok) trivial
  | run empty running issue typed changed ok =>
    rw [← Option.some.inj hs]
    exact iff_of_true (truthful_runFlow h empty running issue typed changed ok) trivial
  | pick id differ =>
    rw [← Option.some.inj hs]
    exact iff_of_true ((same_pickFlow w id differ).truthful.mpr h) trivial
  | confirmSwitch differ =>
    obtain ⟨id, -, rfl⟩ := Option.map_eq_some_iff.mp hs
    have hsame := same_pickFlow { w with ask := none, dirty := false }.giveUp id differ
    exact iff_of_true (hsame.truthful.mpr h) trivial
  | discard =>
    rw [← Option.some.inj hs]
    exact iff_of_true ((same_discardDraft w).truthful.mpr h) trivial
  | delete id ok ok' =>
    rw [← Option.some.inj hs]
    exact truthful_deleteFlow h id ok
  | reload ok =>
    rw [← Option.some.inj hs]
    exact truthful_reload h
  | submitAuth refused ok =>
    rw [← Option.some.inj hs]
    exact truthful_submitAuth h refused
  | submitAddRemote oauth refused ok =>
    rw [← Option.some.inj hs]
    exact truthful_submitAddRemote h oauth refused
  | openAddRemote ok providers =>
    rw [← Option.some.inj hs]
    refine iff_of_true ?_ trivial
    unfold openAddRemote
    simp only
    split
    · exact truthful_clear h .addBusy
    · exact truthful_send (truthful_clear h .addBusy) ok .providers
  | closeOverlay cancels ok =>
    rw [← Option.some.inj hs]
    refine iff_of_true ?_ trivial
    unfold closeOverlay
    simp only
    split
    · exact truthful_clear (truthful_clear (truthful_send h ok .generic) .oauthBusy) .addBusy
    · exact truthful_clear (truthful_clear h .oauthBusy) .addBusy
  | loadFolder ok =>
    rw [← Option.some.inj hs]
    exact truthful_setSend h rfl
  | checkUpdate ok =>
    rw [← Option.some.inj hs]
    exact truthful_checkUpdate h
  | request p ok =>
    simp only [step] at hs
    split at hs
    · rw [← Option.some.inj hs]
      exact iff_of_true (truthful_send h ok p) trivial
    · cases hs
  | mock =>
    rw [← Option.some.inj hs]
    constructor
    · intro h' f hf
      by_contra hbusy
      have hset : w.mock.busy f = true := by
        show (w.set .snapshotPending false).busy f = true
        rw [set_busy, if_neg hf]
        simpa using hbusy
      obtain ⟨q, hq, -⟩ := h' f hset
      cases hq
    · intro hidle f hf
      have hset : (w.set .snapshotPending false).busy f = true := hf
      rw [set_busy] at hset
      split at hset
      · cases hset
      · rename_i hne
        rw [hidle f hne] at hset
        cases hset
  | linkReady ok ok' providers =>
    rw [← Option.some.inj hs]
    exact truthful_linkReady h ok' providers
  | linkLost =>
    rw [← Option.some.inj hs]
    exact iff_of_true h trivial
  | reloadTick ok =>
    simp only [step] at hs
    split at hs
    · rw [← Option.some.inj hs]
      split
      · rename_i hbusy
        exact iff_of_true h (.inr (h _ hbusy))
      · exact truthful_reload (w := { w with reloadAt := false }) h
    · cases hs
  | layoutTick running issue typed ok =>
    rw [← Option.some.inj hs]
    exact truthful_layoutTick h running issue typed
  | timeout id =>
    obtain ⟨p, hp, rfl⟩ := Option.map_eq_some_iff.mp hs
    rw [truthful_timeOut h hp]
    exact ⟨fun hhonest p' hp' => by rwa [← Option.some.inj (hp.symm.trans hp')],
      fun hhonest => hhonest p hp⟩
  | reply id reply ok typed differ =>
    obtain ⟨p, hp, hanswer⟩ := Option.bind_eq_some_iff.mp hs
    split at hanswer
    · rw [← Option.some.inj hanswer, truthful_result h hp]
      exact ⟨fun hhonest p' hp' => by rwa [← Option.some.inj (hp.symm.trans hp')],
        fun hhonest => hhonest p hp⟩
    · cases hanswer
  | error id =>
    obtain ⟨p, hp, rfl⟩ := Option.map_eq_some_iff.mp hs
    exact iff_of_true (truthful_error h hp) trivial
  | stateChanged =>
    rw [← Option.some.inj hs]
    exact iff_of_true h trivial
  | authUnlocked ok | authLocked ok =>
    rw [← Option.some.inj hs]
    exact truthful_reload (w := { w.set .authBusy false with ask := none })
      (truthful_clear h .authBusy)
  | oauthAuthorized ok =>
    rw [← Option.some.inj hs]
    refine iff_of_true ?_ trivial
    split
    · exact truthful_send h ok .oauthComplete
    · exact h

/-- The flags are truthful at the start, where none is set, and in every state
    that steps meeting the condition lead to; a step that does not meet it
    leaves a flag without its request. -/
theorem flags_truthful (w : GnDriveWindow) :
    (windowSystem.ReachableIf Honest w → Truthful w) ∧
    ∀ a w', Truthful w → windowSystem.step w a = some w' → (Truthful w' ↔ w.Honest a) := by
  refine ⟨fun hw => ?_, fun a w' h hs => truthful_step h hs⟩
  refine hw.invariant ?_ fun w a w' h hhonest hs => (truthful_step h hs).mpr hhonest
  rintro w rfl f hf
  cases hf

/-- The first snapshot finds the engine locked, and the user unlocks it. -/
def unlocking : List Act :=
  [.linkReady true true true, .reply 1 (.snapshot ⟨true, []⟩) true false false,
    .submitAuth false true]

theorem flags_truthful_unlocking :
    ∃ w, windowSystem.ReachableIf Honest w ∧ w.busy .authBusy = true ∧ w.Truthful := by
  have hmeets : windowSystem.Meets Honest {} unlocking := by
    refine System.Meets.cons (fun _ => .inl rfl) rfl ?_
    refine System.Meets.cons ?_ rfl ?_
    · intro p hp
      obtain rfl : p = .snapshot := (Option.some.inj hp).symm
      trivial
    refine System.Meets.cons (fun _ _ _ => .inl rfl) rfl ?_
    trivial
  obtain ⟨w, hw, hbusy⟩ := (Option.any_eq_true _ _).mp
    (show (windowSystem.runFrom {} unlocking).any (·.busy .authBusy) = true by decide +kernel)
  have hreach := System.runFrom_reachableIf (.init rfl) hmeets hw
  exact ⟨w, hreach, hbusy, (flags_truthful w).1 hreach⟩

/-- The first snapshot is given up, and the window never reloads again. -/
theorem flags_wedge : ¬∀ w, windowSystem.Reachable w → w.Truthful := by
  intro h
  obtain ⟨w, hw, hstuck⟩ := (Option.any_eq_true _ _).mp
    (show (windowSystem.runFrom {} [.linkReady true true true, .timeout 1]).any
      (fun w => w.busy .snapshotPending && w.pending.isEmpty) = true by decide +kernel)
  obtain ⟨hbusy, hempty⟩ := Bool.and_eq_true_iff.mp hstuck
  obtain ⟨q, hq, -⟩ := h w (System.runFrom_reachable (.init rfl) hw) .snapshotPending hbusy
  rw [List.isEmpty_iff.mp hempty] at hq
  cases hq

end GnDriveWindow

end GnDrive.Gpui.Window
