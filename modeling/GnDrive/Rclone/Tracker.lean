/-
  GnDrive.Rclone.Tracker

  The rows of the files (`FileTransferTracker`) over any sequence of calls.

  `Upserted` says what a call of `upsert` can do.  The names in order are always the keys of
  the map, and a failed row is never evicted.  The limit and the place for a new row are
  another matter: failed rows come on top of the limit, and a failed row that gets another
  status counts again (`RetriesInBound`); and above the limit a row is evicted for a new one
  that then finds no place either (`RoomIsUsed`).
-/

import GnDrive.Lib.OrderedMap
import GnDrive.Lib.System
import GnDrive.Rclone.Stats

namespace GnDrive.Rclone

open OrderedMap (count)
open Text (trim)

-- ============================================================================
-- Rows
-- ============================================================================

section

variable {F : Type}

/-- A call on the tracker. -/
inductive Call (F : Type) where
  | upsert (ft : FileTransfer F)
  | seed (entries : List FileEntry)

namespace FileTransferTracker

variable {tr : FileTransferTracker F} {ft : FileTransfer F} {name : Text}

/-- The name of the row that makes room. -/
def evictable (tr : FileTransferTracker F) : Option Text :=
  (tr.order.find? (tr.hasStatus ["pending"])).or
    (tr.order.find? (tr.hasStatus ["completed", "checked"]))

/-- How many rows are not failed. -/
def nonFailed (tr : FileTransferTracker F) : Nat :=
  count (fun ft => ft.status ≠ "failed".toList) tr.byName tr.order

/-- The names in order are the keys of the map, without duplicates; a row has a name. -/
structure Represented (tr : FileTransferTracker F) : Prop where
  keys : OrderedMap.Represents tr.byName tr.order
  named : tr.byName [] = none

def InBound (tr : FileTransferTracker F) : Prop := tr.nonFailed ≤ MAX_TRACKED_FILES

/-- The row of a new file is inserted, or the tracker stays as it was. -/
def InsertsOrLeaves (tr : FileTransferTracker F) : Call F → Prop
  | .upsert ft => tr.byName ft.name = none →
      (tr.upsert ft).byName ft.name = some ft ∨ tr.upsert ft = tr
  | .seed _ => True

/-- A failed row gets another status only if there is room for one more row. -/
def RetriesInBound (tr : FileTransferTracker F) : Call F → Prop
  | .upsert ft => tr.hasStatus ["failed"] ft.name → ft.status ≠ "failed".toList →
      ft.status ≠ "transferring".toList → tr.nonFailed < MAX_TRACKED_FILES
  | .seed _ => True

/-- With more rows than the limit, no new row evicts one. -/
def RoomIsUsed (tr : FileTransferTracker F) : Call F → Prop
  | .upsert ft => ft.name ≠ [] → tr.byName ft.name = none → ft.status ≠ "failed".toList →
      MAX_TRACKED_FILES < tr.order.length → tr.evictable = none
  | .seed _ => True

theorem hasStatus_iff {ss : List String} :
    tr.hasStatus ss name = true ↔
      ∃ ft, tr.byName name = some ft ∧ ft.status ∈ ss.map String.toList := by
  unfold hasStatus
  rw [Option.any_eq_true]
  refine exists_congr fun ft => and_congr_right fun _ => ?_
  rw [List.contains_iff_mem]

theorem evictable_spec (h : tr.evictable = some name) :
    name ∈ tr.order ∧ tr.hasStatus ["pending", "completed", "checked"] name = true := by
  have hsub : ∀ ss : List String, ss ⊆ ["pending", "completed", "checked"] →
      tr.order.find? (tr.hasStatus ss) = some name →
      name ∈ tr.order ∧ tr.hasStatus ["pending", "completed", "checked"] name = true := by
    intro ss hss hfind
    obtain ⟨ft, hft, hstatus⟩ := hasStatus_iff.mp (List.find?_some hfind)
    exact ⟨List.mem_of_find?_eq_some hfind,
      hasStatus_iff.mpr ⟨ft, hft, List.map_subset _ hss hstatus⟩⟩
  rcases Option.or_eq_some_iff.mp h with hpending | ⟨-, hdone⟩
  · exact hsub _ (by decide) hpending
  · exact hsub _ (by decide) hdone

theorem evictReplaceable_eq (tr : FileTransferTracker F) :
    tr.evictReplaceable = match tr.evictable with
      | some name => tr.remove name
      | none => tr := by
  unfold evictReplaceable evictable
  cases tr.order.find? (tr.hasStatus ["pending"]) with
  | some name => rfl
  | none => cases tr.order.find? (tr.hasStatus ["completed", "checked"]) <;> rfl

theorem length_remove (h : name ∈ tr.order) :
    (tr.remove name).order.length + 1 = tr.order.length :=
  List.length_erase_add_one h

/-- What a call of `upsert` comes to. -/
inductive Upserted (tr : FileTransferTracker F) (ft : FileTransfer F) :
    FileTransferTracker F → Prop where
  | unnamed : ft.name = [] → Upserted tr ft tr
  | kept : tr.hasStatus ["completed", "failed", "checked"] ft.name →
      ft.status = "transferring".toList → Upserted tr ft tr
  | changed (old : FileTransfer F) : ft.name ≠ [] → tr.byName ft.name = some old →
      ¬ (tr.hasStatus ["completed", "failed", "checked"] ft.name ∧
        ft.status = "transferring".toList) → Upserted tr ft (tr.set ft.name ft)
  | added : ft.name ≠ [] → tr.byName ft.name = none →
      (tr.order.length < MAX_TRACKED_FILES ∨ ft.status = "failed".toList) →
      Upserted tr ft (tr.push ft)
  | replaced (name : Text) : ft.name ≠ [] → tr.byName ft.name = none →
      ft.status ≠ "failed".toList → tr.order.length = MAX_TRACKED_FILES →
      tr.evictable = some name → Upserted tr ft ((tr.remove name).push ft)
  | lost (name : Text) : ft.name ≠ [] → tr.byName ft.name = none →
      ft.status ≠ "failed".toList → MAX_TRACKED_FILES < tr.order.length →
      tr.evictable = some name → Upserted tr ft (tr.remove name)
  | full : ft.name ≠ [] → tr.byName ft.name = none → ft.status ≠ "failed".toList →
      MAX_TRACKED_FILES ≤ tr.order.length → tr.evictable = none → Upserted tr ft tr

theorem upserted (tr : FileTransferTracker F) (ft : FileTransfer F) :
    Upserted tr ft (tr.upsert ft) := by
  unfold upsert
  by_cases hname : ft.name = []
  · rw [if_pos hname]
    exact .unnamed hname
  rw [if_neg hname]
  cases hrow : tr.byName ft.name with
  | some old =>
    dsimp only
    split
    · exact .kept ‹_ ∧ _›.1 ‹_ ∧ _›.2
    · exact .changed old hname hrow ‹_›
  | none =>
    dsimp only
    split
    · obtain ⟨hfull, hnot⟩ := ‹_ ∧ _›
      rw [evictReplaceable_eq]
      cases hevict : tr.evictable with
      | none =>
        dsimp only
        rw [if_pos hfull]
        exact .full hname hrow hnot hfull hevict
      | some name =>
        have hlen := length_remove (evictable_spec hevict).1
        dsimp only
        split
        · exact .lost name hname hrow hnot (by omega) hevict
        · exact .replaced name hname hrow hnot (by omega) hevict
    · refine .added hname hrow ?_
      by_cases hfull : MAX_TRACKED_FILES ≤ tr.order.length
      · exact .inr (not_not.mp fun hnot => ‹¬ (_ ∧ _)› ⟨hfull, hnot⟩)
      · exact .inl (Nat.lt_of_not_le hfull)

/-- What a listed file comes to. -/
inductive Seeded (tr : FileTransferTracker F) : FileTransferTracker F → Prop where
  | left : Seeded tr tr
  | sized (name : Text) (prev : FileTransfer F) (size : Int) : tr.byName name = some prev →
      Seeded tr (tr.set name { prev with size })
  | added (ft : FileTransfer F) : ft.name ≠ [] → tr.byName ft.name = none →
      tr.order.length < MAX_TRACKED_FILES → ft.status = "pending".toList → Seeded tr (tr.push ft)

/-! ## The names and the map -/

theorem Represented.new : (new : FileTransferTracker F).Represented :=
  ⟨OrderedMap.Represents.empty, rfl⟩

theorem Represented.set {old : FileTransfer F} (h : tr.Represented)
    (hold : tr.byName name = some old) (ft : FileTransfer F) : (tr.set name ft).Represented := by
  refine ⟨h.keys.set hold ft, ?_⟩
  have hne : [] ≠ name := by
    rintro rfl
    rw [h.named] at hold
    cases hold
  exact (Function.update_of_ne hne _ _).trans h.named

theorem Represented.push (h : tr.Represented) (hname : ft.name ≠ [])
    (hnew : tr.byName ft.name = none) : (tr.push ft).Represented :=
  ⟨h.keys.push hnew ft, (Function.update_of_ne hname.symm _ _).trans h.named⟩

theorem Represented.remove (h : tr.Represented) (name : Text) : (tr.remove name).Represented := by
  refine ⟨h.keys.remove name, ?_⟩
  by_cases hne : [] = name
  · rw [hne]
    exact Function.update_self ..
  · exact (Function.update_of_ne hne _ _).trans h.named

theorem byName_remove_self (tr : FileTransferTracker F) (name : Text) :
    (tr.remove name).byName name = none := Function.update_self ..

theorem byName_remove_of_none {name' : Text} (h : tr.byName name = none) :
    (tr.remove name').byName name = none := by
  by_cases heq : name = name'
  · rw [heq]
    exact Function.update_self ..
  · exact (Function.update_of_ne heq _ _).trans h

theorem Represented.upserted {tr' : FileTransferTracker F} (h : tr.Represented)
    (hup : Upserted tr ft tr') : tr'.Represented := by
  cases hup with
  | unnamed hname => exact h
  | kept hdone htransferring => exact h
  | changed old hname hold hnot => exact h.set hold ft
  | added hname hnew hroom => exact h.push hname hnew
  | replaced name hname hnew hnot hlen hevict =>
    exact (h.remove name).push hname (byName_remove_of_none hnew)
  | lost name hname hnew hnot hlen hevict => exact h.remove name
  | full hname hnew hnot hlen hevict => exact h

theorem Represented.seeded {tr' : FileTransferTracker F} (h : tr.Represented)
    (hseed : Seeded tr tr') : tr'.Represented := by
  cases hseed with
  | left => exact h
  | sized name prev size hprev => exact h.set hprev _
  | added ft hname hnew hroom hpending => exact h.push hname hnew

theorem isSome_set (byName : Text → Option (FileTransfer F)) (ft : FileTransfer F)
    {name name' : Text} (h : (byName name).isSome = true) :
    (Function.update byName name' (some ft) name).isSome = true := by
  by_cases heq : name = name'
  · rw [heq, Function.update_self]
    rfl
  · rwa [Function.update_of_ne heq]

/-- A row is there afterwards, unless it makes room in a full tracker. -/
theorem stays_upserted {tr' : FileTransferTracker F} (hup : Upserted tr ft tr')
    (hrow : (tr.byName name).isSome = true) :
    (tr'.byName name).isSome = true ∨
      tr.evictable = some name ∧ MAX_TRACKED_FILES ≤ tr.order.length := by
  have hremove : ∀ name', tr.evictable = some name' → MAX_TRACKED_FILES ≤ tr.order.length →
      (Function.update tr.byName name' none name).isSome = true ∨
        tr.evictable = some name ∧ MAX_TRACKED_FILES ≤ tr.order.length := by
    intro name' hevict hlen
    by_cases heq : name = name'
    · exact .inr ⟨heq ▸ hevict, hlen⟩
    · rw [Function.update_of_ne heq]
      exact .inl hrow
  cases hup with
  | unnamed hname => exact .inl hrow
  | kept hdone htransferring => exact .inl hrow
  | changed old hname hold hnot => exact .inl (isSome_set _ ft hrow)
  | added hname hnew hroom => exact .inl (isSome_set _ ft hrow)
  | replaced name' hname hnew hnot hlen hevict =>
    exact (hremove name' hevict (by omega)).imp_left fun h => isSome_set _ ft h
  | lost name' hname hnew hnot hlen hevict => exact hremove name' hevict (by omega)
  | full hname hnew hnot hlen hevict => exact .inl hrow

theorem stays_seeded {tr' : FileTransferTracker F} (hseed : Seeded tr tr')
    (hrow : (tr.byName name).isSome = true) : (tr'.byName name).isSome = true := by
  cases hseed with
  | left => exact hrow
  | sized name' prev size hprev => exact isSome_set _ _ hrow
  | added ft hname hnew hroom hpending => exact isSome_set _ ft hrow

theorem isSome_of_hasStatus {ss : List String} (h : tr.hasStatus ss name = true) :
    (tr.byName name).isSome := by
  obtain ⟨ft, hft, -⟩ := hasStatus_iff.mp h
  rw [hft]
  rfl

/-- A failed row never makes room. -/
theorem failed_not_evictable (h : tr.hasStatus ["failed"] name = true) :
    tr.evictable ≠ some name := by
  intro hevict
  obtain ⟨ft, hft, hstatus⟩ := hasStatus_iff.mp (evictable_spec hevict).2
  obtain ⟨ft', hft', hfailed⟩ := hasStatus_iff.mp h
  obtain rfl := Option.some.inj (hft.symm.trans hft')
  rw [List.mem_singleton.mp hfailed] at hstatus
  revert hstatus
  decide

/-! ## The limit -/

theorem hasStatus_failed (h : tr.byName name = some ft) :
    tr.hasStatus ["failed"] name = true ↔ ft.status = "failed".toList := by
  rw [hasStatus_iff]
  constructor
  · rintro ⟨ft', hft', hstatus⟩
    obtain rfl := Option.some.inj (h.symm.trans hft')
    exact List.mem_singleton.mp hstatus
  · exact fun hstatus => ⟨ft, h, List.mem_singleton.mpr hstatus⟩

theorem not_hasStatus_of_none {ss : List String} (h : tr.byName name = none) :
    ¬ tr.hasStatus ss name = true := by
  intro hstatus
  have hsome := isSome_of_hasStatus hstatus
  rw [h] at hsome
  cases hsome

theorem nonFailed_set {old : FileTransfer F} (h : tr.Represented)
    (hold : tr.byName name = some old) (ft : FileTransfer F) :
    (tr.set name ft).nonFailed + (if old.status ≠ "failed".toList then 1 else 0) =
      tr.nonFailed + if ft.status ≠ "failed".toList then 1 else 0 := by
  have hcount := OrderedMap.count_set (p := fun ft : FileTransfer F => ft.status ≠ "failed".toList)
    h.keys hold ft
  simp only [decide_eq_true_eq] at hcount
  exact hcount

theorem nonFailed_push (h : tr.Represented) (hnew : tr.byName ft.name = none) :
    (tr.push ft).nonFailed = tr.nonFailed + if ft.status ≠ "failed".toList then 1 else 0 := by
  have hcount : count _ (Function.update tr.byName _ _) _ = _ :=
    OrderedMap.count_push (p := fun ft : FileTransfer F => ft.status ≠ "failed".toList)
      (h.keys.not_mem hnew) ft
  simp only [decide_eq_true_eq] at hcount
  exact hcount

theorem nonFailed_remove (h : tr.Represented) (hmem : name ∈ tr.order) :
    (tr.remove name).nonFailed ≤ tr.nonFailed := by
  obtain ⟨old, hold⟩ := Option.isSome_iff_exists.mp ((h.keys.mem name).mp hmem)
  have hcount := OrderedMap.count_remove
    (p := fun ft : FileTransfer F => ft.status ≠ "failed".toList) h.keys hold
  show count _ _ _ ≤ count _ _ _
  exact Nat.le_of_add_right_le (Nat.le_of_eq hcount)

theorem nonFailed_le (tr : FileTransferTracker F) : tr.nonFailed ≤ tr.order.length :=
  OrderedMap.count_le _ _ _

theorem length_push (tr : FileTransferTracker F) (ft : FileTransfer F) :
    (tr.push ft).order.length = tr.order.length + 1 := List.length_append

/-! ## New rows -/

theorem upsert_new (hname : ft.name ≠ []) (hnew : tr.byName ft.name = none)
    (hroom : tr.order.length < MAX_TRACKED_FILES ∨ ft.status = "failed".toList) :
    tr.upsert ft = tr.push ft := by
  unfold upsert
  rw [if_neg hname, hnew]
  refine if_neg ?_
  rintro ⟨hfull, hnot⟩
  rcases hroom with hroom | hfailed
  · omega
  · exact hnot hfailed

theorem byName_push_of_ne (h : name ≠ ft.name) (tr : FileTransferTracker F) :
    (tr.push ft).byName name = tr.byName name := Function.update_of_ne h ..

theorem order_pushes (fts : List (FileTransfer F)) (tr : FileTransferTracker F) :
    (fts.foldl push tr).order = tr.order ++ fts.map (·.name) := by
  induction fts generalizing tr with
  | nil => exact (List.append_nil _).symm
  | cons ft fts ih =>
    rw [List.foldl_cons, ih, List.map_cons]
    exact List.append_assoc _ [ft.name] _

theorem byName_pushes_of_notMem {fts : List (FileTransfer F)} (h : name ∉ fts.map (·.name))
    (tr : FileTransferTracker F) : (fts.foldl push tr).byName name = tr.byName name := by
  induction fts generalizing tr with
  | nil => rfl
  | cons ft fts ih =>
    rw [List.map_cons, List.mem_cons, not_or] at h
    rw [List.foldl_cons, ih h.2, byName_push_of_ne h.1]

theorem byName_pushes {fts : List (FileTransfer F)} (hnodup : (fts.map (·.name)).Nodup)
    (hmem : ft ∈ fts) (tr : FileTransferTracker F) :
    (fts.foldl push tr).byName ft.name = some ft := by
  induction fts generalizing tr with
  | nil => cases hmem
  | cons ft' fts ih =>
    obtain ⟨hnew, hnodup⟩ := List.nodup_cons.mp hnodup
    rw [List.foldl_cons]
    rcases List.mem_cons.mp hmem with rfl | hmem
    · rw [byName_pushes_of_notMem hnew]
      exact Function.update_self ..
    · exact ih hnodup hmem _

/-- New files for which there is room all get a row. -/
theorem rows_new {E : Type} {f : FileTransferTracker F → E → FileTransferTracker F}
    {row : E → FileTransfer F} {es : List E}
    (hf : ∀ tr, ∀ e ∈ es, tr.byName (row e).name = none → tr.order.length < MAX_TRACKED_FILES →
      f tr e = tr.push (row e))
    (hnodup : (es.map fun e => (row e).name).Nodup)
    (hnew : ∀ e ∈ es, tr.byName (row e).name = none)
    (hroom : tr.order.length + es.length ≤ MAX_TRACKED_FILES) :
    es.foldl f tr = (es.map row).foldl push tr := by
  induction es generalizing tr with
  | nil => rfl
  | cons e es ih =>
    obtain ⟨hfirst, hnodup⟩ := List.nodup_cons.mp hnodup
    rw [List.length_cons] at hroom
    have hlen := length_push tr (row e)
    rw [List.foldl_cons, List.map_cons, List.foldl_cons,
      hf tr e (List.mem_cons_self ..) (hnew e (List.mem_cons_self ..)) (by omega)]
    apply ih (fun tr e' hmem => hf tr e' (List.mem_cons_of_mem _ hmem)) hnodup
    · intro e' hmem
      rw [byName_push_of_ne, hnew e' (List.mem_cons_of_mem _ hmem)]
      intro heq
      exact hfirst (List.mem_map.mpr ⟨e', hmem, heq.symm ▸ rfl⟩)
    · omega

theorem InBound.seeded {tr' : FileTransferTracker F} (h : tr.Represented ∧ tr.InBound)
    (hseed : Seeded tr tr') : tr'.Represented ∧ tr'.InBound := by
  refine ⟨h.1.seeded hseed, ?_⟩
  unfold InBound
  have hbound : tr.nonFailed ≤ MAX_TRACKED_FILES := h.2
  cases hseed with
  | left => exact hbound
  | sized name prev size hprev =>
    have hcount := nonFailed_set h.1 hprev { prev with size }
    dsimp only at hcount
    omega
  | added ft hname hnew hroom hpending =>
    have hlen := length_push tr ft
    have hle := nonFailed_le (tr.push ft)
    omega

/-- The step of the limit. -/
theorem inBound_upserted {tr' : FileTransferTracker F} (h : tr.Represented) (hbound : tr.InBound)
    (hup : Upserted tr ft tr') : tr'.InBound ↔ tr.RetriesInBound (.upsert ft) := by
  have hnone : tr.byName ft.name = none → tr.RetriesInBound (.upsert ft) := fun hnew hfailed =>
    absurd hfailed (not_hasStatus_of_none hnew)
  cases hup with
  | unnamed hname => exact iff_of_true hbound (hnone (hname ▸ h.named))
  | kept hdone htransferring =>
    exact iff_of_true hbound fun _ _ hnot => absurd htransferring hnot
  | changed old hname hold hnot =>
    have hcount := nonFailed_set h hold ft
    have hfailed := hasStatus_failed hold
    unfold InBound at hbound ⊢
    by_cases hold' : old.status = "failed".toList
    · rw [if_neg (not_not.mpr hold')] at hcount
      by_cases hft : ft.status = "failed".toList
      · rw [if_neg (not_not.mpr hft)] at hcount
        exact iff_of_true (by omega) fun _ hne => absurd hft hne
      · rw [if_pos hft] at hcount
        have hdone : tr.hasStatus ["completed", "failed", "checked"] ft.name = true :=
          hasStatus_iff.mpr ⟨old, hold, by rw [hold']; decide⟩
        constructor
        · intro hle _ _ _
          omega
        · intro hroom
          have hlt := hroom (hfailed.mpr hold') hft fun htransferring =>
            hnot ⟨hdone, htransferring⟩
          omega
    · rw [if_pos hold'] at hcount
      refine iff_of_true ?_ fun hstatus => absurd (hfailed.mp hstatus) hold'
      split at hcount <;> omega
  | added hname hnew hroom =>
    refine iff_of_true ?_ (hnone hnew)
    unfold InBound at hbound ⊢
    rcases hroom with hroom | hfailed
    · have hlen := length_push tr ft
      have hle := nonFailed_le (tr.push ft)
      omega
    · rw [nonFailed_push h hnew, if_neg (not_not.mpr hfailed)]
      exact hbound
  | replaced name hname hnew hnot hlen hevict =>
    refine iff_of_true ?_ (hnone hnew)
    have hremove := length_remove (evictable_spec hevict).1
    have hpush := length_push (tr.remove name) ft
    have hle := nonFailed_le ((tr.remove name).push ft)
    unfold InBound
    omega
  | lost name hname hnew hnot hlen hevict =>
    exact iff_of_true (Nat.le_trans (nonFailed_remove h (evictable_spec hevict).1) hbound)
      (hnone hnew)
  | full hname hnew hnot hlen hevict => exact iff_of_true hbound (hnone hnew)

/-- The step of the place for a new row. -/
theorem insertsOrLeaves_iff (tr : FileTransferTracker F) (c : Call F) :
    tr.InsertsOrLeaves c ↔ tr.RoomIsUsed c := by
  cases c with
  | seed entries => exact Iff.rfl
  | upsert ft =>
    unfold InsertsOrLeaves RoomIsUsed
    dsimp only
    have hup := upserted tr ft
    revert hup
    generalize tr.upsert ft = tr'
    intro hup
    cases hup with
    | unnamed hname =>
      exact iff_of_true (fun _ => .inr rfl) fun hne => absurd hname hne
    | kept hdone htransferring =>
      exact iff_of_true (fun _ => .inr rfl) fun _ hnew => absurd hdone (not_hasStatus_of_none hnew)
    | changed old hname hold hnot =>
      rw [hold]
      exact iff_of_true (fun hnew => nomatch hnew) fun _ hnew => nomatch hnew
    | added hname hnew hroom =>
      refine iff_of_true (fun _ => .inl (Function.update_self ..)) fun _ _ hnot hlen => ?_
      rcases hroom with hroom | hfailed
      · omega
      · exact absurd hfailed hnot
    | replaced name hname hnew hnot hlen hevict =>
      refine iff_of_true (fun _ => .inl (Function.update_self ..)) fun _ _ _ hlt => ?_
      omega
    | lost name hname hnew hnot hlen hevict =>
      refine iff_of_false (fun hall => ?_) fun hall => ?_
      · rcases hall hnew with hinserted | hsame
        · rw [byName_remove_of_none hnew] at hinserted
          cases hinserted
        · have hlength := length_remove (evictable_spec hevict).1
          rw [hsame] at hlength
          omega
      · rw [hall hname hnew hnot hlen] at hevict
        cases hevict
    | full hname hnew hnot hlen hevict => exact iff_of_true (fun _ => .inr rfl) fun _ _ _ _ => hevict

end FileTransferTracker

end

-- ============================================================================
-- Calls
-- ============================================================================

section

variable {F : Type} [F64Arith F]

namespace FileTransferTracker

variable {tr : FileTransferTracker F} {ft : FileTransfer F} {name : Text}

def call (tr : FileTransferTracker F) : Call F → FileTransferTracker F
  | .upsert ft => tr.upsert ft
  | .seed entries => tr.seedPending entries

/-- A failed row is there after the call. -/
def KeepsFailed (tr : FileTransferTracker F) (c : Call F) : Prop :=
  ∀ name, tr.hasStatus ["failed"] name → ((tr.call c).byName name).isSome

theorem seeded (tr : FileTransferTracker F) (e : FileEntry) : Seeded tr (tr.seedOne e) := by
  unfold seedOne
  generalize (if trim e.path ≠ [] then trim e.path else trim e.name) = name
  dsimp only
  split
  · exact .left
  rename_i hlisted
  have hname : name ≠ [] := by
    rintro rfl
    exact hlisted (Bool.or_true _)
  cases hrow : tr.byName name with
  | some prev =>
    dsimp only
    split
    · exact .sized name prev e.size hrow
    · exact .left
  | none =>
    dsimp only
    split
    · exact .left
    · exact .added { FileTransfer.new name "pending".toList with size := e.size } hname hrow
        (Nat.lt_of_not_le ‹_›) rfl

/-- The row of a listed file. -/
def pendingRow (e : FileEntry) : FileTransfer F :=
  { FileTransfer.new (if trim e.path ≠ [] then trim e.path else trim e.name) "pending".toList with
    size := e.size }

theorem seedOne_row (tr : FileTransferTracker F) (e : FileEntry) :
    tr.seedOne e =
      if e.isDir || (pendingRow e : FileTransfer F).name.isEmpty then tr
      else
        match tr.byName (pendingRow e : FileTransfer F).name with
        | some prev =>
            if prev.size = 0 ∧ 0 < e.size then
              tr.set (pendingRow e : FileTransfer F).name { prev with size := e.size }
            else tr
        | none =>
            if MAX_TRACKED_FILES ≤ tr.order.length then tr else tr.push (pendingRow e) := rfl

theorem seedOne_new {e : FileEntry} (hdir : e.isDir = false)
    (hname : (pendingRow e : FileTransfer F).name ≠ [])
    (hnew : tr.byName (pendingRow e : FileTransfer F).name = none)
    (hroom : tr.order.length < MAX_TRACKED_FILES) : tr.seedOne e = tr.push (pendingRow e) := by
  have hlisted : ¬ (e.isDir || (pendingRow e : FileTransfer F).name.isEmpty) = true := by
    rw [hdir, Bool.false_or, List.isEmpty_iff]
    exact hname
  rw [seedOne_row, if_neg hlisted, hnew]
  exact if_neg (Nat.not_le_of_lt hroom)

/-- What listed files keep, one by one. -/
theorem seedPending_invariant {P : FileTransferTracker F → Prop}
    (hP : ∀ tr tr', P tr → Seeded tr tr' → P tr') (h : P tr) (entries : List FileEntry) :
    P (tr.seedPending entries) := by
  unfold seedPending
  induction entries generalizing tr with
  | nil => exact h
  | cons e entries ih => exact ih (hP tr _ h (seeded tr e))

end FileTransferTracker

/-- The tracker, whatever is called. -/
def trackerSystem : System (FileTransferTracker F) (Call F) where
  init tr := tr = .new
  step tr c := some (tr.call c)

namespace FileTransferTracker

variable {tr : FileTransferTracker F} {ft : FileTransfer F} {name : Text}

theorem Represented.call (h : tr.Represented) (c : Call F) : (tr.call c).Represented := by
  cases c with
  | upsert ft => exact h.upserted (FileTransferTracker.upserted tr ft)
  | seed entries => exact seedPending_invariant (fun _ _ => Represented.seeded) h entries

/-- Failed rows are never evicted. -/
theorem keepsFailed (tr : FileTransferTracker F) (c : Call F) : tr.KeepsFailed c := by
  intro name hfailed
  have hrow := isSome_of_hasStatus hfailed
  cases c with
  | upsert ft =>
    rcases stays_upserted (upserted tr ft) hrow with hstays | ⟨hevict, -⟩
    · exact hstays
    · exact absurd hevict (failed_not_evictable hfailed)
  | seed entries =>
    exact seedPending_invariant (P := fun tr => (tr.byName name).isSome)
      (fun _ _ h hseed => stays_seeded hseed h) hrow entries

theorem inBound_call (h : tr.Represented) (hbound : tr.InBound) (c : Call F) :
    (tr.call c).InBound ↔ tr.RetriesInBound c := by
  cases c with
  | upsert ft => exact inBound_upserted h hbound (upserted tr ft)
  | seed entries =>
    exact iff_of_true (seedPending_invariant (fun _ _ => InBound.seeded) ⟨h, hbound⟩ entries).2
      trivial

end FileTransferTracker

open FileTransferTracker in
/-- In every run of calls the names in order are the keys, without duplicates, and failed rows
    are never evicted; the rows that are not failed stay within the limit, and each new row
    is inserted or nothing changes, if and only if the calls meet the two conditions. -/
theorem tracker_rows (calls : List (Call F)) :
    trackerSystem.Always Represented new calls ∧ trackerSystem.Meets KeepsFailed new calls ∧
      (trackerSystem.Always InBound new calls ↔ trackerSystem.Meets RetriesInBound new calls) ∧
      (trackerSystem.Meets InsertsOrLeaves new calls ↔
        trackerSystem.Meets RoomIsUsed new calls) := by
  have hkeep : ∀ (tr : FileTransferTracker F) (c : Call F) (tr' : FileTransferTracker F),
      tr.Represented → trackerSystem.step tr c = some tr' → tr'.Represented := by
    intro tr c tr' h hstep
    obtain rfl := Option.some.inj hstep
    exact h.call c
  have hbound : (new : FileTransferTracker F).InBound := Nat.zero_le _
  refine ⟨System.always_of_step hkeep Represented.new calls,
    System.meets_of_step hkeep (fun tr c _ => keepsFailed tr c) Represented.new calls, ?_, ?_⟩
  · refine System.always_iff_meets hkeep ?_ (fun _ _ => Option.some_ne_none _) Represented.new hbound
      calls
    intro tr c tr' h hbound hstep
    obtain rfl := Option.some.inj hstep
    exact inBound_call h hbound c
  · exact System.meets_congr hkeep (fun tr c _ => insertsOrLeaves_iff tr c) Represented.new calls

end

/-- As many listed files as there is room for. -/
def listed : List FileEntry := (List.range MAX_TRACKED_FILES).map fun n =>
  { name := [Char.ofNat (n + 256)], path := [], size := 0, isDir := false }

/-- Listed files fill the tracker, and a file fails. -/
def overfull : FileTransferTracker Nat :=
  (FileTransferTracker.new.call (.seed listed)).call
    (.upsert (FileTransfer.new "x.txt".toList "failed".toList))

def nextFile : FileTransfer Nat := FileTransfer.new "y.txt".toList "transferring".toList

namespace FileTransferTracker

/-- As many letters as there is room for are all different. -/
theorem letters_nodup {n : Nat} (h : n ≤ MAX_TRACKED_FILES) :
    ((List.range n).map fun i => [Char.ofNat (i + 256)]).Nodup := by
  have hnat : ∀ i < MAX_TRACKED_FILES, (Char.ofNat (i + 256)).toNat = i + 256 := by decide +kernel
  apply List.Nodup.map_on _ List.nodup_range
  intro i hi j hj hij
  have hi := List.mem_range.mp hi
  have hj := List.mem_range.mp hj
  have hchar := congrArg Char.toNat (List.singleton_inj.mp hij)
  rw [hnat i (by omega), hnat j (by omega)] at hchar
  omega

/-- The rows of the listed files. -/
def listedRows : List (FileTransfer Nat) := listed.map pendingRow

theorem listed_names : listedRows.map (·.name) =
    (List.range MAX_TRACKED_FILES).map fun n => [Char.ofNat (n + 256)] := by decide +kernel

theorem long_not_listed {name : Text} (h : name.length ≠ 1) : name ∉ listedRows.map (·.name) := by
  rw [listed_names]
  intro hmem
  obtain ⟨n, -, rfl⟩ := List.mem_map.mp hmem
  exact h rfl

/-- The listed files all get a row. -/
theorem seed_listed : (new : FileTransferTracker Nat).seedPending listed = listedRows.foldl push new := by
  have hnamed : ∀ e ∈ listed, e.isDir = false ∧ (pendingRow e : FileTransfer Nat).name ≠ [] := by
    decide +kernel
  apply rows_new
  · intro tr e hmem hnew hroom
    exact seedOne_new (hnamed e hmem).1 (hnamed e hmem).2 hnew hroom
  · have hnodup := letters_nodup (Nat.le_refl MAX_TRACKED_FILES)
    rw [← listed_names, listedRows, List.map_map] at hnodup
    exact hnodup
  · exact fun _ _ => rfl
  · decide +kernel

theorem overfull_eq : overfull =
    (listedRows.foldl push new).push (FileTransfer.new "x.txt".toList "failed".toList) := by
  rw [overfull, call, call, seed_listed]
  apply upsert_new
  · decide
  · exact byName_pushes_of_notMem (long_not_listed (by decide)) new
  · exact .inr rfl

/-- One of the listed files can make room. -/
theorem overfull_evictable : overfull.evictable ≠ none := by
  obtain ⟨ft, hmem⟩ : ∃ ft, ft ∈ listedRows := List.exists_mem_of_ne_nil _ (by decide +kernel)
  have hstatus : ∀ ft ∈ listedRows, ft.status = "pending".toList := by
    intro ft hmem
    obtain ⟨e, -, rfl⟩ := List.mem_map.mp hmem
    rfl
  have hnodup := letters_nodup (Nat.le_refl MAX_TRACKED_FILES)
  rw [← listed_names] at hnodup
  have hne : ft.name ≠ "x.txt".toList := by
    intro heq
    exact long_not_listed (by decide) (List.mem_map.mpr ⟨ft, hmem, heq⟩)
  have hrow : overfull.byName ft.name = some ft := by
    rw [overfull_eq, byName_push_of_ne hne, byName_pushes hnodup hmem]
  have horder : ft.name ∈ overfull.order := by
    rw [overfull_eq]
    refine List.mem_append_left _ ?_
    rw [order_pushes]
    exact List.mem_append_right _ (List.mem_map_of_mem hmem)
  have hpending : overfull.hasStatus ["pending"] ft.name = true :=
    hasStatus_iff.mpr ⟨ft, hrow, List.mem_singleton.mpr (hstatus ft hmem)⟩
  have hfind := List.find?_isSome.mpr ⟨ft.name, horder, hpending⟩
  obtain ⟨name, hname⟩ := Option.isSome_iff_exists.mp hfind
  rw [evictable, hname]
  exact Option.some_ne_none name

end FileTransferTracker

open FileTransferTracker in
/-- Then a row is evicted for the next file, which finds no place all the same. -/
theorem row_lost :
    ¬ trackerSystem.Meets InsertsOrLeaves new [.seed listed,
      .upsert (FileTransfer.new "x.txt".toList "failed".toList), .upsert nextFile] := by
  intro h
  have hlost := ((h.2 _ rfl).2 _ rfl).1
  have hnew : overfull.byName nextFile.name = none := by
    have hne : nextFile.name ≠ "x.txt".toList := by decide
    have hlong : nextFile.name.length ≠ 1 := by decide
    rw [overfull_eq, byName_push_of_ne hne, byName_pushes_of_notMem (long_not_listed hlong)]
    rfl
  have hlen : MAX_TRACKED_FILES < overfull.order.length := by
    have hnames : (listedRows.map (·.name)).length = MAX_TRACKED_FILES := by
      rw [listed_names, List.length_map, List.length_range]
    rw [overfull_eq, length_push, order_pushes, List.length_append, hnames]
    omega
  exact overfull_evictable
    ((insertsOrLeaves_iff overfull (.upsert nextFile)).mp hlost (by decide) hnew (by decide) hlen)

end GnDrive.Rclone
