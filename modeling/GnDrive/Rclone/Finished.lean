/-
  GnDrive.Rclone.Finished

  The files that are reported finished, over a whole run of rclone.

  A run's lines and listings come to calls on the tracker (`calls`); `Watched` is the tracker
  with the files that were finished.  `upsert` keeps a finished row from going back to
  `transferring`, and from nothing else; and it does not know the files whose rows were
  evicted (`KeepsFinished`).
-/

import GnDrive.Rclone.Client
import GnDrive.Rclone.Tracker
import Mathlib.Data.Finset.Card
import Mathlib.Data.Finset.Union

namespace GnDrive.Rclone

open Rpc (Json)

-- ============================================================================
-- Finished files
-- ============================================================================

def FINISHED : List String := ["completed", "failed", "checked"]

def LIVE : List String := ["transferring", "checking", "pending"]

def isFinished (status : Text) : Prop := status ∈ FINISHED.map String.toList

def isLive (status : Text) : Prop := status ∈ LIVE.map String.toList

instance (status : Text) : Decidable (isFinished status) :=
  inferInstanceAs (Decidable (status ∈ FINISHED.map String.toList))

instance (status : Text) : Decidable (isLive status) :=
  inferInstanceAs (Decidable (status ∈ LIVE.map String.toList))

section

variable {F : Type}

/-- The tracker, with what happened to it. -/
structure Watched (F : Type) where
  tracker : FileTransferTracker F
  /-- The files that had a finished row. -/
  finished : Finset Text
  /-- The files that a call said to be finished. -/
  reported : Finset Text

namespace Watched

def new : Watched F := ⟨.new, ∅, ∅⟩

/-- No file whose row was finished has a row that is not. -/
def Final (w : Watched F) : Prop :=
  ∀ name ∈ w.finished, ¬ w.tracker.hasStatus LIVE name

instance (w : Watched F) : Decidable w.Final :=
  inferInstanceAs (Decidable (∀ name ∈ w.finished, ¬ w.tracker.hasStatus LIVE name = true))

/-- A file whose row was finished is not taken up again: if it has its row, only as
    `transferring`, which a finished row ignores; if it was evicted, only while there is no
    room. -/
def KeepsFinished (w : Watched F) : Call F → Prop
  | .upsert ft => ft.name ∈ w.finished → isLive ft.status →
      ((w.tracker.byName ft.name).isSome →
        w.tracker.hasStatus FINISHED ft.name ∧ ft.status = "transferring".toList) ∧
      (w.tracker.byName ft.name = none → w.tracker.order.length = MAX_TRACKED_FILES →
        w.tracker.evictable = none)
  | .seed _ => True

end Watched

end

section

variable {F : Type} [F64Arith F]

namespace Watched

def call (w : Watched F) (c : Call F) : Watched F where
  tracker := w.tracker.call c
  finished := w.finished ∪
    ((w.tracker.call c).order.filter ((w.tracker.call c).hasStatus FINISHED)).toFinset
  reported :=
    match c with
    | .upsert ft =>
        if ft.name ≠ [] ∧ isFinished ft.status then insert ft.name w.reported else w.reported
    | .seed _ => w.reported

/-- After all calls of a run. -/
def after (calls : List (Call F)) : Watched F := calls.foldl call new

end Watched

def watchedSystem : System (Watched F) (Call F) where
  init w := w = .new
  step w c := some (w.call c)

/-- The row of a file in transfer. -/
def transferRow (tr : Json) : FileTransfer F where
  name := getStr tr "name"
  size := getI64 tr "size"
  bytes := getI64 tr "bytes"
  progress := getF64 tr "percentage"
  status := "transferring".toList
  speed := getF64 tr "speed"
  error := []

/-- The rows of a line, in the order in which they are upserted. -/
def lineRows (fromStr : Text → Option Json) (line : Text) : List (FileTransfer F) :=
  match decodeLogLine fromStr line with
  | none => []
  | some entry =>
      (entry.transferring.filter fun tr => getStr tr "name" ≠ []).map transferRow ++
      if entry.object = [] then [] else entry.row.toList

/-- What a run calls. -/
def calls (fromStr : Text → Option Json) (arrivals : List Arrival) : List (Call F) :=
  arrivals.flatMap fun a =>
    match a with
    | .line _ text => (lineRows fromStr text).map .upsert
    | .seed entries => [.seed entries]

/-- The state of a run after its arrivals. -/
def SyncState.after (fromStr : Text → Option Json) (arrivals : List Arrival) : SyncState F :=
  arrivals.foldl (SyncState.arrive fromStr) SyncState.initial.emit

-- ============================================================================
-- Lines are calls
-- ============================================================================

theorem ingestTransferring_foldl (l : List Json) (acc : SyncStats F × FileTransferTracker F) :
    (l.foldl ingestTransferring acc).2 =
      ((l.filter fun tr => getStr tr "name" ≠ []).map transferRow).foldl
        FileTransferTracker.upsert acc.2 := by
  induction l generalizing acc with
  | nil => rfl
  | cons tr l ih =>
    rw [List.foldl_cons, ih]
    unfold ingestTransferring
    dsimp only
    by_cases hname : getStr tr "name" = []
    · rw [if_pos hname, List.filter_cons_of_neg (by rwa [decide_eq_true_iff, not_not])]
    · rw [if_neg hname, List.filter_cons_of_pos (by rwa [decide_eq_true_iff]), List.map_cons,
        List.foldl_cons]
      rfl

theorem ingest_tracker (fromStr : Text → Option Json) (line : Text) (s : SyncStats F)
    (track : FileTransferTracker F) :
    (ingestJsonLogLine fromStr line s track).2 =
      (lineRows fromStr line).foldl FileTransferTracker.upsert track := by
  unfold ingestJsonLogLine lineRows
  cases decodeLogLine fromStr line with
  | none => rfl
  | some entry =>
    have htransferring := ingestTransferring_foldl entry.transferring (s, track)
    dsimp only
    rw [List.foldl_append, ← htransferring]
    by_cases hobject : entry.object = []
    · rw [if_pos hobject, if_pos hobject]
      rfl
    · rw [if_neg hobject, if_neg hobject]
      cases entry.row (F := F) <;> rfl

theorem arrive_tracker (fromStr : Text → Option Json) (st : SyncState F) (a : Arrival) :
    (st.arrive fromStr a).tracker =
      (calls fromStr [a]).foldl FileTransferTracker.call st.tracker := by
  unfold calls
  rw [List.flatMap_singleton]
  cases a with
  | seed entries => rfl
  | line kind text =>
    rw [List.foldl_map]
    exact ingest_tracker fromStr text _ st.tracker

theorem calls_append (fromStr : Text → Option Json) (as bs : List Arrival) :
    calls (F := F) fromStr (as ++ bs) = calls fromStr as ++ calls fromStr bs := List.flatMap_append

/-- The tracker of a run is the tracker after its calls. -/
theorem tracker_after (fromStr : Text → Option Json) (arrivals : List Arrival) :
    (SyncState.after fromStr arrivals).tracker =
      (Watched.after (calls fromStr arrivals) : Watched F).tracker := by
  have hcalls : ∀ (cs : List (Call F)) (w : Watched F),
      (cs.foldl Watched.call w).tracker = cs.foldl FileTransferTracker.call w.tracker := by
    intro cs
    induction cs with
    | nil => exact fun w => rfl
    | cons c cs ih => exact fun w => ih (w.call c)
  have hrun : ∀ (as : List Arrival) (st : SyncState F),
      (as.foldl (SyncState.arrive fromStr) st).tracker =
        (calls fromStr as).foldl FileTransferTracker.call st.tracker := by
    intro as
    induction as with
    | nil => exact fun st => rfl
    | cons a as ih =>
      intro st
      have hcons : calls (F := F) fromStr (a :: as) = calls fromStr [a] ++ calls fromStr as :=
        calls_append fromStr [a] as
      rw [List.foldl_cons, ih, arrive_tracker, hcons, List.foldl_append]
  unfold SyncState.after Watched.after
  rw [hrun, hcalls]
  rfl

theorem runFrom_after (cs : List (Call F)) :
    watchedSystem.runFrom Watched.new cs = some (Watched.after cs) := by
  have hrun : ∀ (cs : List (Call F)) (w : Watched F),
      watchedSystem.runFrom w cs = some (cs.foldl Watched.call w) := by
    intro cs
    induction cs with
    | nil => exact fun w => rfl
    | cons c cs ih => exact fun w => ih (w.call c)
  exact hrun cs .new

end

-- ============================================================================
-- The room in the tracker
-- ============================================================================

section

variable {F : Type} {tr tr' : FileTransferTracker F} {ft : FileTransfer F} {name : Text}

namespace FileTransferTracker

/-- A full tracker stays full. -/
theorem full_upserted (hup : Upserted tr ft tr') (h : MAX_TRACKED_FILES ≤ tr.order.length) :
    MAX_TRACKED_FILES ≤ tr'.order.length := by
  cases hup with
  | unnamed hname => exact h
  | kept hdone htransferring => exact h
  | changed old hname hold hnot => exact h
  | added hname hnew hroom =>
    rw [length_push]
    omega
  | replaced name hname hnew hnot hlen hevict =>
    have hremove := length_remove (evictable_spec hevict).1
    rw [length_push]
    omega
  | lost name hname hnew hnot hlen hevict =>
    have hremove := length_remove (evictable_spec hevict).1
    omega
  | full hname hnew hnot hlen hevict => exact h

/-- A row goes from a full tracker only, which stays full. -/
theorem full_of_gone (hup : Upserted tr ft tr') (hrow : (tr.byName name).isSome = true)
    (hgone : tr'.byName name = none) : MAX_TRACKED_FILES ≤ tr'.order.length := by
  rcases stays_upserted hup hrow with hstays | ⟨-, hfull⟩
  · rw [hgone] at hstays
    cases hstays
  · exact full_upserted hup hfull

theorem hasStatus_set {ss : List String} {name' : Text} :
    (tr.set name ft).hasStatus ss name' = true ↔
      name' = name ∧ ft.status ∈ ss.map String.toList ∨
        name' ≠ name ∧ tr.hasStatus ss name' = true := by
  unfold hasStatus set
  dsimp only
  by_cases heq : name' = name
  · rw [heq, Function.update_self, Option.any_some, List.contains_iff_mem]
    constructor
    · exact fun h => .inl ⟨rfl, h⟩
    · rintro (⟨-, h⟩ | ⟨hne, -⟩)
      · exact h
      · exact absurd rfl hne
  · rw [Function.update_of_ne heq]
    constructor
    · exact fun h => .inr ⟨heq, h⟩
    · rintro (⟨hsame, -⟩ | ⟨-, h⟩)
      · exact absurd hsame heq
      · exact h

theorem hasStatus_remove {ss : List String} {name' : Text}
    (h : (tr.remove name).hasStatus ss name' = true) : tr.hasStatus ss name' = true := by
  unfold hasStatus remove at h
  dsimp only at h
  by_cases heq : name' = name
  · rw [heq, Function.update_self] at h
    cases h
  · rwa [Function.update_of_ne heq] at h

/-- A finished row is not live. -/
theorem not_live (h : tr.hasStatus FINISHED name = true) : ¬ tr.hasStatus LIVE name = true := by
  intro hlive
  obtain ⟨ft, hft, hfinished⟩ := hasStatus_iff.mp h
  obtain ⟨ft', hft', hlive⟩ := hasStatus_iff.mp hlive
  obtain rfl := Option.some.inj (hft.symm.trans hft')
  have hdisjoint : ∀ status ∈ FINISHED.map String.toList, status ∉ LIVE.map String.toList := by
    decide
  exact hdisjoint _ hfinished hlive

end FileTransferTracker

end

-- ============================================================================
-- Finished rows
-- ============================================================================

section

variable {F : Type} {w : Watched F} {tr' : FileTransferTracker F} {ft : FileTransfer F}

open FileTransferTracker

/-- What holds in every run. -/
structure Watched.Inv (w : Watched F) : Prop where
  represented : w.tracker.Represented
  named : [] ∉ w.finished
  /-- A finished file without a row was evicted from a full tracker. -/
  gone : ∀ name ∈ w.finished, w.tracker.byName name = none →
    MAX_TRACKED_FILES ≤ w.tracker.order.length

theorem Watched.Inv.new : (new : Watched F).Inv :=
  ⟨Represented.new, Finset.notMem_empty _, fun _ h => absurd h (Finset.notMem_empty _)⟩

/-- A row that is written: what it says about the finished files. -/
theorem final_set (h : w.Final) :
    (∀ name ∈ w.finished, ¬ (w.tracker.set ft.name ft).hasStatus LIVE name = true) ↔
      (ft.name ∈ w.finished → ¬ isLive ft.status) := by
  constructor
  · exact fun hall hname hlive => hall ft.name hname (hasStatus_set.mpr (.inl ⟨rfl, hlive⟩))
  · intro hft name hname hlive
    rcases hasStatus_set.mp hlive with ⟨rfl, hstatus⟩ | ⟨-, hrow⟩
    · exact hft hname hstatus
    · exact h name hname hrow

/-- The step of `upsert`. -/
theorem final_upserted (hw : w.Inv) (h : w.Final) (hup : Upserted w.tracker ft tr') :
    (∀ name ∈ w.finished, ¬ tr'.hasStatus LIVE name = true) ↔ w.KeepsFinished (.upsert ft) := by
  cases hup with
  | unnamed hname =>
    exact iff_of_true h fun hmem => absurd (hname ▸ hmem) hw.named
  | kept hdone htransferring =>
    exact iff_of_true h fun _ _ => ⟨fun _ => ⟨hdone, htransferring⟩, fun hnew =>
      absurd hdone (not_hasStatus_of_none hnew)⟩
  | changed old hname hold hnot =>
    have hrow : (w.tracker.byName ft.name).isSome = true := by
      rw [hold]
      rfl
    rw [final_set h]
    exact forall_congr' fun hmem => forall_congr' fun hlive =>
      iff_of_false id fun hkeeps => hnot (hkeeps.1 hrow)
  | added hname hnew hroom =>
    -- an evicted file finds no place unless it failed
    have hnot : ft.name ∈ w.finished → ¬ isLive ft.status := by
      intro hmem hlive
      have hfull := hw.gone ft.name hmem hnew
      rcases hroom with hroom | hfailed
      · omega
      · rw [hfailed] at hlive
        revert hlive
        decide
    exact iff_of_true ((final_set h).mpr hnot) fun hmem hlive => absurd hlive (hnot hmem)
  | replaced name hname hnew hnot hlen hevict =>
    have hset : (∀ name' ∈ w.finished,
        ¬ ((w.tracker.remove name).set ft.name ft).hasStatus LIVE name' = true) ↔
          (ft.name ∈ w.finished → ¬ isLive ft.status) :=
      final_set (w := { w with tracker := w.tracker.remove name }) fun name' hmem hlive =>
        h name' hmem (hasStatus_remove hlive)
    refine Iff.trans hset (forall_congr' fun hmem => forall_congr' fun hlive => ?_)
    refine iff_of_false id fun hkeeps => ?_
    rw [hkeeps.2 hnew hlen] at hevict
    cases hevict
  | lost name hname hnew hnot hlen hevict =>
    refine iff_of_true (fun name' hmem hlive => h name' hmem (hasStatus_remove hlive))
      fun _ _ => ⟨fun hrow => ?_, fun _ hsame => by omega⟩
    rw [hnew] at hrow
    cases hrow
  | full hname hnew hnot hlen hevict =>
    refine iff_of_true h fun _ _ => ⟨fun hrow => ?_, fun _ _ => hevict⟩
    rw [hnew] at hrow
    cases hrow

/-- The watched files, with another tracker. -/
def Watched.with (w : Watched F) (tr : FileTransferTracker F) : Watched F := { w with tracker := tr }

theorem inv_upserted (hw : w.Inv) (hup : Upserted w.tracker ft tr') : (w.with tr').Inv := by
  refine ⟨hw.represented.upserted hup, hw.named, fun name hmem hnone => ?_⟩
  by_cases hrow : w.tracker.byName name = none
  · exact full_upserted hup (hw.gone name hmem hrow)
  · exact full_of_gone hup (Option.isSome_iff_ne_none.mpr hrow) hnone

theorem inv_seeded (hw : w.Inv) (hseed : Seeded w.tracker tr') : (w.with tr').Inv := by
  refine ⟨hw.represented.seeded hseed, hw.named, fun name hmem hnone => ?_⟩
  have hgone : w.tracker.byName name = none := by
    by_contra hrow
    have hstays := stays_seeded hseed (Option.isSome_iff_ne_none.mpr hrow)
    have hlost : tr'.byName name = none := hnone
    rw [hlost] at hstays
    cases hstays
  have hfull := hw.gone name hmem hgone
  show MAX_TRACKED_FILES ≤ tr'.order.length
  cases hseed with
  | left => exact hfull
  | sized name' prev size hprev => exact hfull
  | added ft hname hnew hroom hpending => omega

/-- A listing takes up no finished file again. -/
theorem final_seeded (hw : w.Inv) (h : w.Final) (hseed : Seeded w.tracker tr') :
    (w.with tr').Final := by
  intro name hmem hlive
  cases hseed with
  | left => exact h name hmem hlive
  | sized name' prev size hprev =>
    rcases hasStatus_set.mp hlive with ⟨rfl, hstatus⟩ | ⟨-, hrow⟩
    · exact h name hmem (hasStatus_iff.mpr ⟨prev, hprev, hstatus⟩)
    · exact h name hmem hrow
  | added ft hname hnew hroom hpending =>
    rcases hasStatus_set.mp hlive with ⟨rfl, -⟩ | ⟨-, hrow⟩
    · have hfull := hw.gone ft.name hmem hnew
      omega
    · exact h name hmem hrow

end

section

variable {F : Type} [F64Arith F] {w : Watched F} {c : Call F} {name : Text}

open FileTransferTracker

theorem mem_finished_call :
    name ∈ (w.call c).finished ↔
      name ∈ w.finished ∨ name ∈ (w.tracker.call c).order ∧
        (w.tracker.call c).hasStatus FINISHED name = true := by
  unfold Watched.call
  rw [Finset.mem_union, List.mem_toFinset, List.mem_filter]

theorem Watched.Inv.call (hw : w.Inv) (c : Call F) : (w.call c).Inv := by
  have hnext : (w.with (w.tracker.call c)).Inv := by
    cases c with
    | upsert ft => exact inv_upserted hw (upserted w.tracker ft)
    | seed entries =>
      exact seedPending_invariant (P := fun tr => (w.with tr).Inv)
        (fun tr _ h hseed => inv_seeded (w := w.with tr) h hseed) hw entries
  refine ⟨hnext.represented, fun hmem => ?_, fun name hmem hnone => ?_⟩
  · rcases mem_finished_call.mp hmem with hmem | ⟨-, hdone⟩
    · exact hw.named hmem
    · exact not_hasStatus_of_none hnext.represented.named hdone
  · rcases mem_finished_call.mp hmem with hmem | ⟨-, hdone⟩
    · exact hnext.gone name hmem hnone
    · exact absurd hdone (not_hasStatus_of_none hnone)

/-- The step of the finished rows. -/
theorem final_call (hw : w.Inv) (h : w.Final) (c : Call F) :
    (w.call c).Final ↔ w.KeepsFinished c := by
  have hbefore : (w.call c).Final ↔
      ∀ name ∈ w.finished, ¬ (w.tracker.call c).hasStatus LIVE name = true := by
    constructor
    · exact fun hfinal name hmem => hfinal name (mem_finished_call.mpr (.inl hmem))
    · intro hall name hmem
      rcases mem_finished_call.mp hmem with hmem | ⟨-, hdone⟩
      · exact hall name hmem
      · exact not_live hdone
  rw [hbefore]
  cases c with
  | upsert ft => exact final_upserted hw h (upserted w.tracker ft)
  | seed entries =>
    have hseeded := seedPending_invariant (P := fun tr => (w.with tr).Inv ∧ (w.with tr).Final)
      (fun tr _ h hseed => ⟨inv_seeded (w := w.with tr) h.1 hseed,
        final_seeded (w := w.with tr) h.1 h.2 hseed⟩) ⟨hw, h⟩ entries
    exact iff_of_true hseeded.2 trivial

theorem inv_step (w : Watched F) (c : Call F) (w' : Watched F) (h : w.Inv)
    (hstep : watchedSystem.step w c = some w') : w'.Inv := by
  obtain rfl := Option.some.inj hstep
  exact h.call c

/-- No file whose row was once finished has a row again that is transferring, checking or
    pending, at any point of a run, if and only if each upsert of the run keeps to that. -/
theorem finished_rows_final (fromStr : Text → Option Json) (arrivals : List Arrival) :
    (SyncState.after fromStr arrivals : SyncState F).tracker =
        (Watched.after (calls fromStr arrivals)).tracker ∧
      (watchedSystem.Always Watched.Final (.new : Watched F) (calls fromStr arrivals) ↔
        watchedSystem.Meets Watched.KeepsFinished (.new : Watched F) (calls fromStr arrivals)) := by
  refine ⟨tracker_after fromStr arrivals, ?_⟩
  have hnew : (Watched.new : Watched F).Final := fun _ h => absurd h (Finset.notMem_empty _)
  refine System.always_iff_meets inv_step ?_ (fun _ _ => Option.some_ne_none _) Watched.Inv.new hnew
    (calls fromStr arrivals)
  intro w c w' hw h hstep
  obtain rfl := Option.some.inj hstep
  exact final_call hw h c

end

/-- A log line about a file, and what it is parsed to. -/
def logLine (level msg object : String) : Text × Json :=
  (("\x7b\"level\":\"" ++ level ++ "\",\"msg\":\"" ++ msg ++ "\",\"object\":\"" ++ object ++
      "\"\x7d").toList,
    .object [("level".toList, .string level.toList), ("msg".toList, .string msg.toList),
      ("object".toList, .string object.toList)])

/-- The parser, on the lines of a run. -/
def parserOf (lines : List (Text × Json)) (t : Text) : Option Json :=
  (lines.find? (·.1 = t)).map Prod.snd

/-- A file is copied, and checked after that. -/
def checkedAgain : List (Text × Json) :=
  [logLine "info" "Copied (new)" "a.txt", logLine "info" "checking" "a.txt"]

/-- The completed row is `checking` again. -/
theorem checking_again :
    ¬ watchedSystem.Always Watched.Final (.new : Watched Nat)
      (calls (parserOf checkedAgain) (checkedAgain.map fun l => .line .stderr l.1)) := by
  intro h
  have hlast := h.last (runFrom_after _)
  revert hlast
  decide +kernel

end GnDrive.Rclone
