/-
  GnDrive.Rclone.Pending

  The number of pending files in a snapshot.

  It is what is left of the announced total when the rows are taken off.  So a file that was
  reported finished counts as pending as soon as it has no row: its row was evicted, or it
  never found a place (`KeepsReported`).
-/

import GnDrive.Rclone.Finished

namespace GnDrive.Rclone

open Rpc (Json)

def STATUSES : List String :=
  ["transferring", "checking", "completed", "checked", "failed", "pending"]

section

variable {F : Type}

namespace FileTransferTracker

def rows (tr : FileTransferTracker F) : List (FileTransfer F) := tr.order.filterMap tr.byName

/-- The rows that `snapshot` counts. -/
def known (tr : FileTransferTracker F) : Nat :=
  tr.rows.countP fun ft => STATUSES.any fun s => ft.status = s.toList

/-- The number that `snapshot` shows as pending; 0 if it shows none. -/
def pending (tr : FileTransferTracker F) (total : Int) : Int :=
  if 0 < total ∧ 0 < total - tr.known then total - tr.known else 0

/-- The pending files are none that has a row or was reported finished, and with the
    finished ones they are not more than the total. -/
def Honest (tr : FileTransferTracker F) (total : Int) (reported : Finset Text) : Prop :=
  0 < tr.pending total →
    tr.pending total + (tr.order.toFinset ∪ reported).card ≤ total ∧
      tr.pending total + reported.card ≤ total

/-- Every row has one of the statuses. -/
def Known (tr : FileTransferTracker F) : Prop :=
  ∀ name ft, tr.byName name = some ft → ft.status ∈ STATUSES.map String.toList

end FileTransferTracker

namespace Watched

/-- Every file that was reported finished has a row. -/
def NoneMissing (w : Watched F) : Prop := ∀ name ∈ w.reported, (w.tracker.byName name).isSome

/-- In a full tracker no new row takes the place of one of a finished file, and a finished
    file finds a place. -/
def KeepsReported (w : Watched F) : Call F → Prop
  | .upsert ft => ft.name ≠ [] → w.tracker.byName ft.name = none →
      ft.status ≠ "failed".toList → MAX_TRACKED_FILES ≤ w.tracker.order.length →
      (∀ name, w.tracker.evictable = some name → name ∉ w.reported) ∧
        (isFinished ft.status →
          w.tracker.order.length = MAX_TRACKED_FILES ∧ w.tracker.evictable ≠ none)
  | .seed _ => True

end Watched

namespace FileTransferTracker

variable {tr tr' : FileTransferTracker F} {ft : FileTransfer F}

-- ============================================================================
-- What a snapshot counts
-- ============================================================================

/-- All rows count. -/
theorem known_eq (hr : tr.Represented) (hk : tr.Known) : tr.known = tr.order.length := by
  unfold known rows
  rw [List.countP_filterMap, List.countP_eq_length]
  intro name hmem
  obtain ⟨ft, hft⟩ := Option.isSome_iff_exists.mp ((hr.keys.mem name).mp hmem)
  obtain ⟨s, hs, hstatus⟩ := List.mem_map.mp (hk name ft hft)
  rw [hft]
  exact List.any_eq_true.mpr ⟨s, hs, decide_eq_true hstatus.symm⟩

/-- A snapshot is honest if it shows no pending files, or no finished file is missing. -/
theorem honest_iff (hr : tr.Represented) (hk : tr.Known) (total : Int) (reported : Finset Text) :
    tr.Honest total reported ↔
      total ≤ tr.order.length ∨ ∀ name ∈ reported, (tr.byName name).isSome = true := by
  have hcard : tr.order.toFinset.card = tr.order.length :=
    List.toFinset_card_of_nodup hr.keys.nodup
  unfold Honest pending
  rw [known_eq hr hk]
  by_cases hpending : total ≤ tr.order.length
  · rw [if_neg (by omega)]
    exact iff_of_true (fun h => absurd h (Int.lt_irrefl 0)) (.inl hpending)
  rw [if_pos (by omega)]
  constructor
  · intro h
    have hle := (h (by omega)).1
    refine .inr fun name hname => (hr.keys.mem name).mp ?_
    have heq : tr.order.toFinset = tr.order.toFinset ∪ reported :=
      Finset.eq_of_subset_of_card_le Finset.subset_union_left (by omega)
    have hmem : name ∈ tr.order.toFinset := by
      rw [heq]
      exact Finset.mem_union_right _ hname
    exact List.mem_toFinset.mp hmem
  · rintro (hle | hall) -
    · exact absurd hle hpending
    have hsub : reported ⊆ tr.order.toFinset := fun name hname =>
      List.mem_toFinset.mpr ((hr.keys.mem name).mpr (hall name hname))
    have hreported := Finset.card_le_card hsub
    rw [Finset.union_eq_left.mpr hsub]
    omega

/-! ## The statuses -/

theorem Known.set (hk : tr.Known) (name : Text) (hft : ft.status ∈ STATUSES.map String.toList) :
    (tr.set name ft).Known := by
  intro name' ft' hrow
  by_cases heq : name' = name
  · have hsame : (tr.set name ft).byName name' = some ft := by
      rw [heq]
      exact Function.update_self ..
    obtain rfl := Option.some.inj (hsame.symm.trans hrow)
    exact hft
  · exact hk name' ft' ((Function.update_of_ne heq _ _).symm.trans hrow)

theorem Known.remove (hk : tr.Known) (name : Text) : (tr.remove name).Known := by
  intro name' ft' hrow
  by_cases heq : name' = name
  · have hnone : (tr.remove name).byName name' = none := by
      rw [heq]
      exact Function.update_self ..
    rw [hnone] at hrow
    cases hrow
  · exact hk name' ft' ((Function.update_of_ne heq _ _).symm.trans hrow)

theorem Known.upserted (hk : tr.Known) (hft : ft.status ∈ STATUSES.map String.toList)
    (hup : Upserted tr ft tr') : tr'.Known := by
  cases hup with
  | unnamed hname => exact hk
  | kept hdone htransferring => exact hk
  | changed old hname hold hnot => exact hk.set ft.name hft
  | added hname hnew hroom => exact hk.set ft.name hft
  | replaced name hname hnew hnot hlen hevict => exact (hk.remove name).set ft.name hft
  | lost name hname hnew hnot hlen hevict => exact hk.remove name
  | full hname hnew hnot hlen hevict => exact hk

theorem Known.seeded (hk : tr.Known) (hseed : Seeded tr tr') : tr'.Known := by
  cases hseed with
  | left => exact hk
  | sized name prev size hprev => exact hk.set name (hk name prev hprev)
  | added ft hname hnew hroom hpending =>
    refine hk.set ft.name ?_
    rw [hpending]
    decide

end FileTransferTracker

end

section

variable {F : Type} [F64Arith F] {w : Watched F} {c : Call F}

open FileTransferTracker

/-- A snapshot: the rows, and one more with the number of pending files. -/
theorem snapshot_eq (tr : FileTransferTracker F) (total : Int) :
    tr.snapshot total = tr.rows ++
      if 0 < tr.pending total then
        [FileTransfer.new ("(".toList ++ toText (tr.pending total) ++ " pending)".toList)
          "pending".toList]
      else [] := by
  show (if 0 < total ∧ 0 < total - (tr.known : Int) then
      tr.rows ++ [FileTransfer.new ("(".toList ++ toText (total - tr.known) ++ " pending)".toList)
        "pending".toList]
    else tr.rows) = _
  unfold pending
  by_cases h : 0 < total ∧ 0 < total - (tr.known : Int)
  · rw [if_pos h, if_pos h, if_pos h.2]
  · rw [if_neg h, if_neg h, if_neg (Int.lt_irrefl 0), List.append_nil]

/-- The rows that are reported after the arrivals are those of a snapshot. -/
theorem fileTransfers_after (fromStr : Text → Option Json) (arrivals : List Arrival) :
    (SyncState.after fromStr arrivals : SyncState F).stats.fileTransfers =
      (SyncState.after fromStr arrivals : SyncState F).tracker.snapshot
        (SyncState.after fromStr arrivals : SyncState F).stats.filesTotal := by
  unfold SyncState.after
  induction arrivals using List.reverseRecOn with
  | nil => rfl
  | append_singleton arrivals a ih =>
    rw [List.foldl_append]
    cases a <;> rfl

theorem status_mem {s : String} (h : s ∈ STATUSES) :
    s.toList ∈ STATUSES.map String.toList := List.mem_map_of_mem h

theorem row_known {entry : JsonLogLine} {ft : FileTransfer F} (h : entry.row = some ft) :
    ft.status ∈ STATUSES.map String.toList := by
  unfold JsonLogLine.row at h
  dsimp only at h
  split at h
  · obtain rfl := Option.some.inj h
    exact status_mem (s := "failed") (by decide)
  split at h
  · split at h
    · obtain rfl := Option.some.inj h
      exact status_mem (s := "checked") (by decide)
    · obtain rfl := Option.some.inj h
      exact status_mem (s := "checking") (by decide)
  split at h
  · obtain rfl := Option.some.inj h
    exact status_mem (s := "completed") (by decide)
  split at h
  · obtain rfl := Option.some.inj h
    exact status_mem (s := "completed") (by decide)
  · cases h

theorem lineRows_known (fromStr : Text → Option Json) (line : Text) {ft : FileTransfer F}
    (h : ft ∈ lineRows fromStr line) : ft.status ∈ STATUSES.map String.toList := by
  unfold lineRows at h
  split at h
  · cases h
  rcases List.mem_append.mp h with h | h
  · obtain ⟨tr, -, rfl⟩ := List.mem_map.mp h
    exact status_mem (s := "transferring") (by decide)
  · split at h
    · cases h
    · exact row_known (Option.mem_toList.mp h)

/-- What every run of lines and listings keeps. -/
theorem run_known (fromStr : Text → Option Json) (arrivals : List Arrival) :
    (Watched.after (calls fromStr arrivals) : Watched F).Inv ∧
      (Watched.after (calls fromStr arrivals) : Watched F).tracker.Known := by
  have hcalls : ∀ c ∈ calls (F := F) fromStr arrivals, ∀ ft, c = .upsert ft →
      ft.status ∈ STATUSES.map String.toList := by
    intro c hc ft heq
    obtain ⟨a, -, hc⟩ := List.mem_flatMap.mp hc
    cases a with
    | line kind text =>
      obtain ⟨ft', hmem, rfl⟩ := List.mem_map.mp hc
      obtain rfl := Call.upsert.inj heq
      exact lineRows_known fromStr text hmem
    | seed entries =>
      obtain rfl := List.mem_singleton.mp hc
      cases heq
  have hrun : ∀ (cs : List (Call F)) (w : Watched F), (∀ c ∈ cs, ∀ ft, c = .upsert ft →
      ft.status ∈ STATUSES.map String.toList) → w.Inv ∧ w.tracker.Known →
        (cs.foldl Watched.call w).Inv ∧ (cs.foldl Watched.call w).tracker.Known := by
    intro cs
    induction cs with
    | nil => exact fun w _ h => h
    | cons c cs ih =>
      intro w hcs h
      refine ih (w.call c) (fun c' hc' => hcs c' (List.mem_cons_of_mem _ hc')) ⟨h.1.call c, ?_⟩
      cases c with
      | upsert ft =>
        exact h.2.upserted (hcs _ List.mem_cons_self ft rfl) (upserted w.tracker ft)
      | seed entries =>
        exact seedPending_invariant (fun _ _ => Known.seeded) h.2 entries
  exact hrun _ .new hcalls ⟨Watched.Inv.new, fun _ _ h => nomatch h⟩

/-- The files that are reported by a call of `upsert`, and have a row after it. -/
theorem noneMissing_upsert {ft : FileTransfer F} :
    (w.call (.upsert ft)).NoneMissing ↔
      (∀ name ∈ w.reported, ((w.tracker.upsert ft).byName name).isSome = true) ∧
        (ft.name ≠ [] → isFinished ft.status →
          ((w.tracker.upsert ft).byName ft.name).isSome = true) := by
  have hreported : (w.call (.upsert ft)).reported =
      if ft.name ≠ [] ∧ isFinished ft.status then insert ft.name w.reported else w.reported := rfl
  unfold Watched.NoneMissing
  rw [hreported]
  by_cases h : ft.name ≠ [] ∧ isFinished ft.status
  · rw [if_pos h, Finset.forall_mem_insert, and_comm]
    exact and_congr_right' ⟨fun hrow _ _ => hrow, fun hrow => hrow h.1 h.2⟩
  · rw [if_neg h]
    exact (and_iff_left fun hname hfinished => absurd ⟨hname, hfinished⟩ h).symm

omit [F64Arith F] in
/-- The step of the reported files. -/
theorem noneMissing_upserted {ft : FileTransfer F} {tr' : FileTransferTracker F}
    (h : w.NoneMissing) (hup : Upserted w.tracker ft tr') :
    (∀ name ∈ w.reported, (tr'.byName name).isSome = true) ∧
        (ft.name ≠ [] → isFinished ft.status → (tr'.byName ft.name).isSome = true) ↔
      w.KeepsReported (.upsert ft) := by
  have hinserted : ∀ byName : Text → Option (FileTransfer F),
      (Function.update byName ft.name (some ft) ft.name).isSome = true := by
    intro byName
    rw [Function.update_self]
    rfl
  have hstays : tr'.byName = Function.update w.tracker.byName ft.name (some ft) →
      (∀ name ∈ w.reported, (tr'.byName name).isSome = true) ∧
        (ft.name ≠ [] → isFinished ft.status → (tr'.byName ft.name).isSome = true) := by
    intro heq
    rw [heq]
    exact ⟨fun name hname => isSome_set _ ft (h name hname), fun _ _ => hinserted _⟩
  -- the row that makes room is missing if its file was reported
  have hgone : ∀ name, w.tracker.evictable = some name →
      ((∀ name' ∈ w.reported, ((w.tracker.remove name).byName name').isSome = true) ↔
        ∀ name', w.tracker.evictable = some name' → name' ∉ w.reported) := by
    intro name hevict
    have hnone : (w.tracker.remove name).byName name = none := Function.update_self ..
    constructor
    · intro hall name' hevict' hmem
      obtain rfl := Option.some.inj (hevict.symm.trans hevict')
      have hrow := hall name hmem
      rw [hnone] at hrow
      cases hrow
    · intro hall name' hmem
      have hne : name' ≠ name := fun heq => hall name hevict (heq ▸ hmem)
      have hsame : (w.tracker.remove name).byName name' = w.tracker.byName name' :=
        Function.update_of_ne hne ..
      rw [hsame]
      exact h name' hmem
  cases hup with
  | unnamed hname =>
    exact iff_of_true ⟨h, fun hne => absurd hname hne⟩ fun hne => absurd hname hne
  | kept hdone htransferring =>
    exact iff_of_true ⟨h, fun _ _ => isSome_of_hasStatus hdone⟩ fun _ hnew =>
      absurd hdone (not_hasStatus_of_none hnew)
  | changed old hname hold hnot =>
    refine iff_of_true (hstays rfl) fun _ hnew => ?_
    rw [hold] at hnew
    cases hnew
  | added hname hnew hroom =>
    refine iff_of_true (hstays rfl) fun _ _ hnot hfull => ?_
    rcases hroom with hroom | hfailed
    · omega
    · exact absurd hfailed hnot
  | replaced name hname hnew hnot hlen hevict =>
    have hrest : ∀ name' ∈ w.reported,
        (((w.tracker.remove name).push ft).byName name').isSome = true ↔
          ((w.tracker.remove name).byName name').isSome = true := by
      intro name' hmem
      have hne : name' ≠ ft.name := by
        rintro rfl
        have hrow := h _ hmem
        rw [hnew] at hrow
        cases hrow
      have hsame : ((w.tracker.remove name).push ft).byName name' =
          (w.tracker.remove name).byName name' := Function.update_of_ne hne ..
      rw [hsame]
    have hsome : w.tracker.evictable ≠ none := by
      rw [hevict]
      exact Option.some_ne_none _
    have hall := (forall₂_congr hrest).trans (hgone name hevict)
    constructor
    · exact fun hkeeps _ _ _ _ => ⟨hall.mp hkeeps.1, fun _ => ⟨hlen, hsome⟩⟩
    · exact fun hkeeps => ⟨hall.mpr (hkeeps hname hnew hnot (Nat.le_of_eq hlen.symm)).1,
        fun _ _ => hinserted _⟩
  | lost name hname hnew hnot hlen hevict =>
    have hnone : (w.tracker.remove name).byName ft.name = none := byName_remove_of_none hnew
    constructor
    · rintro ⟨hall, hrow⟩ - - - -
      refine ⟨(hgone name hevict).mp hall, fun hfinished => ?_⟩
      have hsome := hrow hname hfinished
      rw [hnone] at hsome
      cases hsome
    · intro hkeeps
      obtain ⟨hall, hplace⟩ := hkeeps hname hnew hnot (Nat.le_of_lt hlen)
      refine ⟨(hgone name hevict).mpr hall, fun _ hfinished => ?_⟩
      have hsame := (hplace hfinished).1
      omega
  | full hname hnew hnot hlen hevict =>
    constructor
    · rintro ⟨-, hrow⟩ - - - -
      refine ⟨fun name hsome => ?_, fun hfinished => ?_⟩
      · rw [hevict] at hsome
        cases hsome
      · have hsome := hrow hname hfinished
        rw [hnew] at hsome
        cases hsome
    · intro hkeeps
      exact ⟨h, fun _ hfinished => absurd hevict ((hkeeps hname hnew hnot hlen).2 hfinished).2⟩

theorem noneMissing_call (h : w.NoneMissing) (c : Call F) :
    (w.call c).NoneMissing ↔ w.KeepsReported c := by
  cases c with
  | upsert ft => exact noneMissing_upsert.trans (noneMissing_upserted h (upserted w.tracker ft))
  | seed entries =>
    refine iff_of_true (fun name hname => ?_) trivial
    exact seedPending_invariant (P := fun tr => (tr.byName name).isSome = true)
      (fun _ _ hrow hseed => stays_seeded hseed hrow) (h name hname) entries

variable (F) in
/-- The snapshot after the arrivals is honest. -/
def HonestAfter (fromStr : Text → Option Json) (arrivals : List Arrival) : Prop :=
  let st : SyncState F := .after fromStr arrivals
  st.tracker.Honest st.stats.filesTotal
    (Watched.after (calls fromStr arrivals) : Watched F).reported

theorem honestAfter_iff (fromStr : Text → Option Json) (arrivals : List Arrival) :
    HonestAfter F fromStr arrivals ↔
      (SyncState.after fromStr arrivals : SyncState F).stats.filesTotal ≤
          (SyncState.after fromStr arrivals : SyncState F).tracker.order.length ∨
        (Watched.after (calls fromStr arrivals) : Watched F).NoneMissing := by
  obtain ⟨hinv, hknown⟩ := run_known (F := F) fromStr arrivals
  unfold HonestAfter
  dsimp only
  rw [tracker_after]
  exact honest_iff hinv.represented hknown _ _

/-- A snapshot counts no finished file as pending if and only if it shows none pending, or
    every file that was reported finished has a row.  In a run they all have one, at any
    point, if and only if each call keeps to that; so all snapshots of such a run are
    honest. -/
theorem pending_honest (fromStr : Text → Option Json) (arrivals : List Arrival) :
    (HonestAfter F fromStr arrivals ↔
        (SyncState.after fromStr arrivals : SyncState F).stats.filesTotal ≤
            (SyncState.after fromStr arrivals : SyncState F).tracker.order.length ∨
          (Watched.after (calls fromStr arrivals) : Watched F).NoneMissing) ∧
      (watchedSystem.Always Watched.NoneMissing (.new : Watched F) (calls fromStr arrivals) ↔
        watchedSystem.Meets Watched.KeepsReported (.new : Watched F) (calls fromStr arrivals)) ∧
      (watchedSystem.Meets Watched.KeepsReported (.new : Watched F) (calls fromStr arrivals) →
        ∀ before, before <+: arrivals → HonestAfter F fromStr before) := by
  have hnew : (Watched.new : Watched F).NoneMissing := fun _ h => absurd h (Finset.notMem_empty _)
  have halways : ∀ cs : List (Call F), watchedSystem.Always Watched.NoneMissing .new cs ↔
      watchedSystem.Meets Watched.KeepsReported .new cs := by
    intro cs
    refine System.always_iff_meets inv_step ?_ (fun _ _ => Option.some_ne_none _)
      Watched.Inv.new hnew cs
    intro w c w' hw h hstep
    obtain rfl := Option.some.inj hstep
    exact noneMissing_call h c
  refine ⟨honestAfter_iff fromStr arrivals, halways _, ?_⟩
  rintro hmeets before ⟨rest, rfl⟩
  rw [calls_append] at hmeets
  exact (honestAfter_iff fromStr before).mpr
    (.inr (((halways _).mpr hmeets.of_append).last (runFrom_after _)))

end

theorem not_noneMissing {F : Type} {w : Watched F} {name : Text}
    (h : (w.tracker.byName name).isSome = false ∧ name ∈ w.reported) : ¬ w.NoneMissing := by
  intro hall
  have hsome := hall name h.2
  rw [h.1] at hsome
  cases hsome

/-- A line of totals and files in transfer, and what it is parsed to. -/
def statsLine (total : Nat) (names : List Text) : Text × Json :=
  let file (name : Text) : Text := "\x7b\"name\":\"".toList ++ name ++ "\"\x7d".toList
  ("\x7b\"stats\":\x7b\"totalTransfers\":".toList ++ Nat.toDigits 10 total ++
      ",\"transferring\":[".toList ++ [','].intercalate (names.map file) ++ "]\x7d\x7d".toList,
    .object [("stats".toList, .object [("totalTransfers".toList, .number (.int total)),
      ("transferring".toList,
        .array (names.map fun name => .object [("name".toList, .string name)]))])])

/-- Of 200 files 149 are in transfer, one is copied, and then another is in transfer. -/
def copiedAndGone : List (Text × Json) :=
  [statsLine 200 ((List.range 149).map fun n => [Char.ofNat (n + 256)]),
    logLine "info" "Copied (new)" "done.txt", statsLine 200 ["next.txt".toList]]

def copiedRun : List Arrival := copiedAndGone.map fun l => .line .stderr l.1

def copiedFile : Text := "done.txt".toList

/-- The rows of the lines. -/
def copiedRows : List (FileTransfer Nat) :=
  copiedAndGone.flatMap fun l => lineRows (parserOf copiedAndGone) l.1

theorem copiedRows_eq : ∃ fts done next, copiedRows = fts ++ [done, next] ∧
    fts.map (·.name) = (List.range 149).map (fun n => [Char.ofNat (n + 256)]) ∧
    (∀ ft ∈ fts, ft.status = "transferring".toList) ∧
    (done.name = copiedFile ∧ done.status = "completed".toList) ∧
    next.name = "next.txt".toList ∧ next.status = "transferring".toList := by
  have hrows : copiedRows.map (fun ft => (ft.name, ft.status)) =
      (List.range 149).map (fun n => ([Char.ofNat (n + 256)], "transferring".toList)) ++
        [(copiedFile, "completed".toList), ("next.txt".toList, "transferring".toList)] := by
    decide +kernel
  obtain ⟨fts, last, heq, hfts, hlast⟩ := List.map_eq_append_iff.mp hrows
  obtain ⟨done, last, rfl, hdone, hlast⟩ := List.map_eq_cons_iff.mp hlast
  obtain ⟨next, last, rfl, hnext, hlast⟩ := List.map_eq_cons_iff.mp hlast
  obtain rfl := List.map_eq_nil_iff.mp hlast
  refine ⟨fts, done, next, heq, ?_, ?_, Prod.ext_iff.mp hdone, Prod.ext_iff.mp hnext⟩
  · have hnames := congrArg (List.map Prod.fst) hfts
    rw [List.map_map, List.map_map] at hnames
    exact hnames
  · intro ft hmem
    have hpair := List.mem_map_of_mem (f := fun ft : FileTransfer Nat => (ft.name, ft.status)) hmem
    rw [hfts] at hpair
    obtain ⟨n, -, hn⟩ := List.mem_map.mp hpair
    exact (congrArg Prod.snd hn).symm

open FileTransferTracker in
/-- The copied file makes room in a tracker that is full of files in transfer. -/
theorem copied_evicted {fts : List (FileTransfer Nat)} {done next : FileTransfer Nat}
    (hnames : fts.map (·.name) = (List.range 149).map (fun n => [Char.ofNat (n + 256)]))
    (hfts : ∀ ft ∈ fts, ft.status = "transferring".toList)
    (hdone : done.name = copiedFile ∧ done.status = "completed".toList)
    (hnext : next.name = "next.txt".toList ∧ next.status = "transferring".toList) :
    (((fts.foldl upsert new).upsert done).upsert next).byName copiedFile = none ∧
      (((fts.foldl upsert new).upsert done).upsert next).order.length = 150 := by
  have hletters := letters_nodup (n := 149) (by decide)
  rw [← hnames] at hletters
  have hlong : ∀ name : Text, name.length ≠ 1 → name ∉ fts.map (·.name) := by
    intro name hlen hmem
    rw [hnames] at hmem
    obtain ⟨n, -, rfl⟩ := List.mem_map.mp hmem
    exact hlen rfl
  have hcount : fts.length = 149 := by
    have hlen := congrArg List.length hnames
    rw [List.length_map, List.length_map, List.length_range] at hlen
    exact hlen
  have hnew : fts.foldl upsert new = fts.foldl push new := by
    have hrows : fts.foldl upsert (new : FileTransferTracker Nat) = (fts.map id).foldl push new := by
      refine rows_new ?_ hletters (fun _ _ => rfl) ?_
      · intro tr ft hmem hnone hroom
        refine upsert_new (fun hnil => ?_) hnone (.inl hroom)
        exact hlong [] (by decide) (List.mem_map.mpr ⟨ft, hmem, hnil⟩)
      · rw [hcount]
        decide
    rw [hrows, List.map_id]
  have horder : (fts.foldl push new : FileTransferTracker Nat).order = fts.map (·.name) :=
    order_pushes fts new
  have hpushed : ((fts.foldl upsert new).upsert done : FileTransferTracker Nat) =
      (fts.foldl push new).push done := by
    have hnone := byName_pushes_of_notMem (hlong done.name (by rw [hdone.1]; decide)) new
    rw [hnew]
    refine upsert_new (by rw [hdone.1]; decide) hnone (.inl ?_)
    rw [horder, List.length_map, hcount]
    decide
  rw [hpushed]
  have hfull : ((fts.foldl push new).push done : FileTransferTracker Nat).order.length =
      MAX_TRACKED_FILES := by
    rw [length_push, horder, List.length_map, hcount]
    rfl
  have hdoneRow : ((fts.foldl push new).push done : FileTransferTracker Nat).byName copiedFile =
      some done := by
    rw [← hdone.1]
    exact Function.update_self ..
  have hnone : ((fts.foldl push new).push done : FileTransferTracker Nat).byName next.name =
      none := by
    have hne : next.name ≠ done.name := by
      rw [hdone.1, hnext.1]
      decide
    rw [byName_push_of_ne hne, byName_pushes_of_notMem (hlong _ (by rw [hnext.1]; decide))]
    rfl
  -- only the copied file can make room
  have hevict : ((fts.foldl push new).push done : FileTransferTracker Nat).evictable =
      some copiedFile := by
    have hrow : ∀ ft ∈ fts, ((fts.foldl push new).push done : FileTransferTracker Nat).byName
        ft.name = some ft := by
      intro ft hmem
      have hne : ft.name ≠ done.name := by
        rw [hdone.1]
        intro heq
        exact hlong copiedFile (by decide) (List.mem_map.mpr ⟨ft, hmem, heq⟩)
      rw [byName_push_of_ne hne, byName_pushes hletters hmem]
    have hlive : ∀ ss : List String, "transferring".toList ∉ ss.map String.toList →
        (fts.map (·.name)).find? (((fts.foldl push new).push done).hasStatus ss) = none := by
      intro ss hss
      rw [List.find?_eq_none]
      intro name hmem hstatus
      obtain ⟨ft, hft, rfl⟩ := List.mem_map.mp hmem
      obtain ⟨ft', hft', hmem'⟩ := hasStatus_iff.mp hstatus
      obtain rfl := Option.some.inj ((hrow ft hft).symm.trans hft')
      rw [hfts ft hft] at hmem'
      exact hss hmem'
    have hnames' : ((fts.foldl push new).push done : FileTransferTracker Nat).order =
        fts.map (·.name) ++ [copiedFile] := by
      rw [← hdone.1, ← horder]
      rfl
    have hwaits : ((fts.foldl push new).push done).hasStatus ["pending"] copiedFile = false := by
      rw [hasStatus, hdoneRow, Option.any_some, hdone.2]
      decide
    have hcompleted : ((fts.foldl push new).push done).hasStatus ["completed", "checked"]
        copiedFile = true := by
      rw [hasStatus, hdoneRow, Option.any_some, hdone.2]
      decide
    rw [evictable, hnames', List.find?_append, List.find?_append, hlive _ (by decide),
      hlive _ (by decide), List.find?_singleton, List.find?_singleton, hwaits, hcompleted]
    rfl
  have hup := upserted ((fts.foldl push new).push done) next
  revert hup
  generalize ((fts.foldl push new).push done).upsert next = tr'
  intro hup
  cases hup with
  | unnamed hname => exact absurd (hnext.1.symm.trans hname) (by decide)
  | kept hstatus _ => exact absurd hstatus (not_hasStatus_of_none hnone)
  | changed old _ hold _ => cases hnone.symm.trans hold
  | added _ _ hroom =>
    rcases hroom with hroom | hfailed
    · omega
    · exact absurd (hnext.2.symm.trans hfailed) (by decide)
  | replaced name _ _ _ _ hname =>
    obtain rfl := Option.some.inj (hevict.symm.trans hname)
    have hmem := (evictable_spec hevict).1
    have hlen := length_remove hmem
    refine ⟨?_, ?_⟩
    · rw [byName_push_of_ne (by rw [hnext.1]; decide), byName_remove_self]
    · rw [length_push]
      exact hlen.trans hfull
  | lost _ _ _ _ hlt _ => omega
  | full _ _ _ _ hnone' => cases hnone'.symm.trans hevict

/-- The copied file has no row any more, and is one of 50 that are pending. -/
theorem copied_pending : ¬ HonestAfter Nat (parserOf copiedAndGone) copiedRun := by
  have htotal : (SyncState.after (parserOf copiedAndGone) copiedRun : SyncState Nat).stats.filesTotal
      = 200 := by decide +kernel
  obtain ⟨fts, done, next, hrows, hnames, hfts, hdone, hnext⟩ := copiedRows_eq
  obtain ⟨hmissing, hlen⟩ := copied_evicted hnames hfts hdone hnext
  have hcalls : calls (parserOf copiedAndGone) copiedRun = copiedRows.map Call.upsert := by
    unfold calls copiedRun copiedRows
    rw [List.flatMap_map, List.map_flatMap]
  have hwatched : (Watched.after (calls (parserOf copiedAndGone) copiedRun) : Watched Nat) =
      (((fts.map Call.upsert).foldl Watched.call Watched.new).call (.upsert done)).call
        (.upsert next) := by
    rw [hcalls, hrows, Watched.after, List.map_append, List.foldl_append]
    rfl
  have hfold : ∀ (l : List (FileTransfer Nat)) (w : Watched Nat),
      ((l.map Call.upsert).foldl Watched.call w).tracker =
        l.foldl FileTransferTracker.upsert w.tracker := by
    intro l
    induction l with
    | nil => exact fun w => rfl
    | cons ft l ih => exact fun w => ih (w.call (.upsert ft))
  rw [honestAfter_iff, htotal, tracker_after]
  revert hwatched
  generalize (Watched.after (calls (parserOf copiedAndGone) copiedRun) : Watched Nat) = w
  intro hwatched
  have htracker : w.tracker =
      ((fts.foldl FileTransferTracker.upsert .new).upsert done).upsert next := by
    rw [hwatched, Watched.call, Watched.call, FileTransferTracker.call, FileTransferTracker.call,
      hfold]
    rfl
  have hreported : copiedFile ∈ w.reported := by
    have hfinished : done.name ≠ [] ∧ isFinished done.status := by
      rw [hdone.1, hdone.2]
      decide
    have hlive : ¬ (next.name ≠ [] ∧ isFinished next.status) := by
      rw [hnext.1, hnext.2]
      decide
    rw [hwatched, Watched.call, Watched.call, if_neg hlive, if_pos hfinished, hdone.1]
    exact Finset.mem_insert_self ..
  rw [htracker, hlen]
  rintro (hle | hall)
  · revert hle
    decide
  · have hgone : (w.tracker.byName copiedFile).isSome = false := by
      rw [htracker, hmissing, Option.isSome_none]
    exact not_noneMissing ⟨hgone, hreported⟩ hall

end GnDrive.Rclone
