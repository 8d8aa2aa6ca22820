/-
  GnDrive.Rclone.ProgressThreads

  The threads that report the progress of one rclone run (`rclone/client.rs`, and
  `on_progress` of `sync_engine.rs`).

  The readers of the two streams and the thread that waits for the listing take a line or
  the listing in, take a snapshot, record it with the task and publish it.  The first two
  are each under the lock of the shared state, which is free between them, and nothing
  orders the callbacks: a thread with a newer snapshot can be the first to deliver.
  `snapshots_in_order` says that this is the only way out of order.
-/

import GnDrive.Lib.System
import GnDrive.Rclone.Client

namespace GnDrive.Rclone

open Rpc (Json)

namespace Progress

inductive Thread where
  | stdout
  | stderr
  /-- The caller, which waits for the listing and for the end of the run. -/
  | caller
deriving DecidableEq

/-- Where a thread is.  Snapshots are numbered in the order in which they are taken. -/
inductive Pc (F : Type) where
  | idle
  /-- It has changed the shared state, and `emit` comes next. -/
  | changed
  /-- It has a snapshot, and `on_progress` comes next. -/
  | snapped (k : Nat) (stats : SyncStats F)
  /-- In `on_progress`, with the task's statistics set. -/
  | recorded (k : Nat) (stats : SyncStats F)

inductive Act where
  /-- The readers are started. -/
  | spawn
  | line (kind : StreamKind) (text : Text)
  | seed (entries : List FileEntry)
  | snapshot (t : Thread)
  | setStats (t : Thread)
  | publish (t : Thread)

def readerOf : StreamKind → Thread
  | .stdout => .stdout
  | .stderr => .stderr

/-- `recorded` and `published` are the numbers of the snapshots, in the order in which the
    task's statistics were set to them and they were published. -/
structure State (F : Type) where
  shared : SyncState F
  started : Bool
  seeded : Bool
  pc : Thread → Pc F
  taken : List (SyncStats F)
  taskStats : Option (SyncStats F)
  recorded : List Nat
  published : List Nat

section

variable {F : Type}

def State.goto (s : State F) (t : Thread) (pc : Pc F) : State F :=
  { s with pc := Function.update s.pc t pc }

variable [F64Arith F] (fromStr : Text → Option Json)

/-- The lock of the shared state, if a step needs it, is free before and after it. -/
def progressStep (s : State F) : Act → Option (State F)
  | .spawn =>
      match s.pc .caller with
      | .idle => some { s with started := true }
      | _ => none
  | .line kind text =>
      if s.started then
        match s.pc (readerOf kind) with
        | .idle =>
            some ({ s with shared := s.shared.onLine fromStr text }.goto (readerOf kind) .changed)
        | _ => none
      else none
  | .seed entries =>
      if s.started ∧ s.seeded = false then
        match s.pc .caller with
        | .idle =>
            some ({ s with
              seeded := true
              shared := { s.shared with tracker := s.shared.tracker.seedPending entries } }.goto
                .caller .changed)
        | _ => none
      else none
  | .snapshot t =>
      match s.pc t with
      | .changed =>
          let shared := s.shared.emit
          some ({ s with shared, taken := s.taken ++ [shared.stats] }.goto t
            (.snapped s.taken.length shared.stats))
      | _ => none
  | .setStats t =>
      match s.pc t with
      | .snapped k stats =>
          some ({ s with taskStats := some stats, recorded := s.recorded ++ [k] }.goto t
            (.recorded k stats))
      | _ => none
  | .publish t =>
      match s.pc t with
      | .recorded k _ => some ({ s with published := s.published ++ [k] }.goto t .idle)
      | _ => none

/-- The caller comes to `emit` before there are readers. -/
def progressSystem : System (State F) Act where
  init s := s.started = false ∧ s.seeded = false ∧ s.pc .caller = .changed ∧
    s.pc .stdout = .idle ∧ s.pc .stderr = .idle ∧ s.taken = [] ∧ s.taskStats = none ∧
    s.recorded = [] ∧ s.published = []
  step := progressStep fromStr

end

-- ============================================================================
-- The order of delivery
-- ============================================================================

section

variable {F : Type}

/-- The snapshot that a thread has yet to record. -/
def Pc.unrecorded : Pc F → Option Nat
  | .snapped k _ => some k
  | _ => none

/-- The snapshot that a thread has yet to publish. -/
def Pc.unpublished : Pc F → Option Nat
  | .snapped k _ | .recorded k _ => some k
  | _ => none

namespace State

/-- Neither the task's statistics nor the published progress went back to an older
    snapshot, and the statistics are those of the last one recorded. -/
structure InOrder (s : State F) : Prop where
  recorded : s.recorded.Pairwise (· < ·)
  published : s.published.Pairwise (· < ·)
  taskStats : s.taskStats = s.recorded.getLast?.bind fun k => s.taken[k]?

/-- No thread waits with an older snapshot when one is recorded or published. -/
def NoneOlder (s : State F) : Act → Prop
  | .setStats t => ∀ u, u ≠ t → ∀ k ∈ (s.pc t).unrecorded, ∀ j ∈ (s.pc u).unrecorded, k < j
  | .publish t => ∀ u, u ≠ t → ∀ k ∈ (s.pc t).unpublished, ∀ j ∈ (s.pc u).unpublished, k < j
  | _ => True

instance {p : Thread → Prop} [DecidablePred p] : Decidable (∀ t, p t) :=
  decidable_of_iff (p .stdout ∧ p .stderr ∧ p .caller)
    ⟨fun h t => match t with | .stdout => h.1 | .stderr => h.2.1 | .caller => h.2.2,
      fun h => ⟨h _, h _, h _⟩⟩

instance (s : State F) (a : Act) : Decidable (s.NoneOlder a) :=
  match a with
  | .setStats t => inferInstanceAs (Decidable (∀ u, u ≠ t → ∀ k ∈ (s.pc t).unrecorded,
      ∀ j ∈ (s.pc u).unrecorded, k < j))
  | .publish t => inferInstanceAs (Decidable (∀ u, u ≠ t → ∀ k ∈ (s.pc t).unpublished,
      ∀ j ∈ (s.pc u).unpublished, k < j))
  | .spawn | .line .. | .seed _ | .snapshot _ => isTrue trivial

/-- What has been delivered is older than what has not, and what a thread has in hand is
    the snapshot of that number. -/
structure Inv (s : State F) : Prop extends InOrder s where
  inHand : ∀ t k stats, (s.pc t = .snapped k stats ∨ s.pc t = .recorded k stats) →
    s.taken[k]? = some stats
  unrecorded : ∀ t, ∀ j ∈ (s.pc t).unrecorded, ∀ k ∈ s.recorded, k < j
  unpublished : ∀ t, ∀ j ∈ (s.pc t).unpublished, ∀ k ∈ s.published, k < j
  taken : ∀ k ∈ s.recorded ++ s.published, k < s.taken.length

end State

variable {s s' : State F} {t : Thread}

theorem Pc.unpublished_of_unrecorded {pc : Pc F} {k : Nat} (h : k ∈ pc.unrecorded) :
    k ∈ pc.unpublished := by
  cases pc with
  | snapped j stats => exact h
  | idle | changed | recorded j stats => cases h

theorem pairwise_concat {l : List Nat} {k : Nat} (h : l.Pairwise (· < ·)) (hk : ∀ j ∈ l, j < k) :
    (l ++ [k]).Pairwise (· < ·) := by
  refine List.pairwise_append.mpr ⟨h, List.pairwise_singleton _ k, fun j hj i hi => ?_⟩
  obtain rfl := List.mem_singleton.mp hi
  exact hk j hj

/-- Steps that neither take nor deliver a snapshot. -/
theorem State.Inv.quiet {c : Pc F} (h : s.Inv) (hpc : s'.pc = Function.update s.pc t c)
    (hun : c.unpublished = none) (htaken : s'.taken = s.taken)
    (htask : s'.taskStats = s.taskStats) (hrecorded : s'.recorded = s.recorded)
    (hpublished : s'.published = s.published) : s'.Inv := by
  have hothers : ∀ u, u = t ∧ s'.pc u = c ∨ s'.pc u = s.pc u := by
    intro u
    rw [hpc]
    by_cases hu : u = t
    · subst hu
      exact .inl ⟨rfl, Function.update_self ..⟩
    · exact .inr (Function.update_of_ne hu ..)
  refine ⟨⟨?_, ?_, ?_⟩, fun u k stats hu => ?_, fun u j hj => ?_, fun u j hj => ?_, ?_⟩
  · rw [hrecorded]
    exact h.recorded
  · rw [hpublished]
    exact h.published
  · rw [htask, hrecorded, htaken]
    exact h.taskStats
  · rw [htaken]
    rcases hothers u with ⟨-, hself⟩ | hother
    · rw [hself] at hu
      rcases hu with rfl | rfl <;> cases hun
    · rw [hother] at hu
      exact h.inHand u k stats hu
  · rcases hothers u with ⟨-, hself⟩ | hother
    · rw [hself] at hj
      have hj' := Pc.unpublished_of_unrecorded hj
      rw [hun] at hj'
      cases hj'
    · rw [hother] at hj
      rw [hrecorded]
      exact h.unrecorded u j hj
  · rcases hothers u with ⟨-, hself⟩ | hother
    · rw [hself, hun] at hj
      cases hj
    · rw [hother] at hj
      rw [hpublished]
      exact h.unpublished u j hj
  · rw [hrecorded, hpublished, htaken]
    exact h.taken

/-- A new snapshot is newer than all that were delivered. -/
theorem State.Inv.snapshot {stats : SyncStats F} (h : s.Inv)
    (hpc : s'.pc = Function.update s.pc t (.snapped s.taken.length stats))
    (htaken : s'.taken = s.taken ++ [stats]) (htask : s'.taskStats = s.taskStats)
    (hrecorded : s'.recorded = s.recorded) (hpublished : s'.published = s.published) :
    s'.Inv := by
  have hgrow : ∀ k, k < s.taken.length → s'.taken[k]? = s.taken[k]? := by
    intro k hk
    rw [htaken, List.getElem?_append_left hk]
  have hothers : ∀ u, u = t ∧ s'.pc u = .snapped s.taken.length stats ∨ s'.pc u = s.pc u := by
    intro u
    rw [hpc]
    by_cases hu : u = t
    · subst hu
      exact .inl ⟨rfl, Function.update_self ..⟩
    · exact .inr (Function.update_of_ne hu ..)
  refine ⟨⟨?_, ?_, ?_⟩, fun u k x hu => ?_, fun u j hj => ?_, fun u j hj => ?_, ?_⟩
  · rw [hrecorded]
    exact h.recorded
  · rw [hpublished]
    exact h.published
  · rw [htask, hrecorded, h.taskStats]
    cases hlast : s.recorded.getLast? with
    | none => rfl
    | some k =>
      have hk := h.taken k (List.mem_append_left _ (List.mem_of_getLast? hlast))
      exact (hgrow k hk).symm
  · rcases hothers u with ⟨-, hself⟩ | hother
    · rw [hself] at hu
      obtain ⟨rfl, rfl⟩ : s.taken.length = k ∧ stats = x := by
        rcases hu with hu | hu
        · exact Pc.snapped.inj hu
        · cases hu
      rw [htaken, List.getElem?_concat_length]
    · rw [hother] at hu
      have hk := h.inHand u k x hu
      rw [hgrow k (List.getElem?_eq_some_iff.mp hk).1, hk]
  · rw [hrecorded]
    rcases hothers u with ⟨-, hself⟩ | hother
    · rw [hself] at hj
      obtain rfl := Option.some.inj hj
      exact fun k hk => h.taken k (List.mem_append_left _ hk)
    · rw [hother] at hj
      exact h.unrecorded u j hj
  · rw [hpublished]
    rcases hothers u with ⟨-, hself⟩ | hother
    · rw [hself] at hj
      obtain rfl := Option.some.inj hj
      exact fun k hk => h.taken k (List.mem_append_right _ hk)
    · rw [hother] at hj
      exact h.unpublished u j hj
  · rw [hrecorded, hpublished, htaken, List.length_append]
    exact fun k hk => Nat.lt_add_right _ (h.taken k hk)

/-- The oldest snapshot that waits is recorded. -/
theorem State.Inv.setStats {k : Nat} {stats : SyncStats F} (h : s.Inv)
    (hsnapped : s.pc t = .snapped k stats) (hok : s.NoneOlder (.setStats t))
    (hpc : s'.pc = Function.update s.pc t (.recorded k stats)) (htaken : s'.taken = s.taken)
    (htask : s'.taskStats = some stats) (hrecorded : s'.recorded = s.recorded ++ [k])
    (hpublished : s'.published = s.published) : s'.Inv := by
  have hk := h.inHand t k stats (.inl hsnapped)
  have hmine : k ∈ (s.pc t).unrecorded := by
    rw [hsnapped]
    rfl
  have hothers : ∀ u, u = t ∧ s'.pc u = .recorded k stats ∨ u ≠ t ∧ s'.pc u = s.pc u := by
    intro u
    rw [hpc]
    by_cases hu : u = t
    · subst hu
      exact .inl ⟨rfl, Function.update_self ..⟩
    · exact .inr ⟨hu, Function.update_of_ne hu ..⟩
  refine ⟨⟨?_, ?_, ?_⟩, fun u j x hu => ?_, fun u j hj i hi => ?_, fun u j hj => ?_,
    fun i hi => ?_⟩
  · rw [hrecorded]
    exact pairwise_concat h.recorded (h.unrecorded t k hmine)
  · rw [hpublished]
    exact h.published
  · rw [htask, hrecorded, List.getLast?_concat, htaken]
    exact hk.symm
  · rw [htaken]
    rcases hothers u with ⟨-, hself⟩ | ⟨-, hother⟩
    · rw [hself] at hu
      obtain ⟨rfl, rfl⟩ : k = j ∧ stats = x := by
        rcases hu with hu | hu
        · cases hu
        · exact Pc.recorded.inj hu
      exact hk
    · rw [hother] at hu
      exact h.inHand u j x hu
  · rcases hothers u with ⟨-, hself⟩ | ⟨hne, hother⟩
    · rw [hself] at hj
      cases hj
    · rw [hother] at hj
      rw [hrecorded] at hi
      rcases List.mem_append.mp hi with hi | hi
      · exact h.unrecorded u j hj i hi
      · obtain rfl := List.mem_singleton.mp hi
        exact hok u hne i hmine j hj
  · rw [hpublished]
    rcases hothers u with ⟨rfl, hself⟩ | ⟨-, hother⟩
    · rw [hself] at hj
      exact h.unpublished u j (by rw [hsnapped]; exact hj)
    · rw [hother] at hj
      exact h.unpublished u j hj
  · rw [htaken]
    rw [hrecorded, hpublished] at hi
    rcases List.mem_append.mp hi with hi | hi
    · rcases List.mem_append.mp hi with hi | hi
      · exact h.taken i (List.mem_append_left _ hi)
      · obtain rfl := List.mem_singleton.mp hi
        exact (List.getElem?_eq_some_iff.mp hk).1
    · exact h.taken i (List.mem_append_right _ hi)

/-- The oldest snapshot that waits is published. -/
theorem State.Inv.publish {k : Nat} {stats : SyncStats F} (h : s.Inv)
    (hin : s.pc t = .recorded k stats) (hok : s.NoneOlder (.publish t))
    (hpc : s'.pc = Function.update s.pc t .idle) (htaken : s'.taken = s.taken)
    (htask : s'.taskStats = s.taskStats) (hrecorded : s'.recorded = s.recorded)
    (hpublished : s'.published = s.published ++ [k]) : s'.Inv := by
  have hk := h.inHand t k stats (.inr hin)
  have hmine : k ∈ (s.pc t).unpublished := by
    rw [hin]
    rfl
  have hothers : ∀ u, s'.pc u = .idle ∨ u ≠ t ∧ s'.pc u = s.pc u := by
    intro u
    rw [hpc]
    by_cases hu : u = t
    · subst hu
      exact .inl (Function.update_self ..)
    · exact .inr ⟨hu, Function.update_of_ne hu ..⟩
  refine ⟨⟨?_, ?_, ?_⟩, fun u j x hu => ?_, fun u j hj => ?_, fun u j hj i hi => ?_,
    fun i hi => ?_⟩
  · rw [hrecorded]
    exact h.recorded
  · rw [hpublished]
    exact pairwise_concat h.published (h.unpublished t k hmine)
  · rw [htask, hrecorded, htaken]
    exact h.taskStats
  · rw [htaken]
    rcases hothers u with hself | ⟨-, hother⟩
    · rw [hself] at hu
      rcases hu with hu | hu <;> cases hu
    · rw [hother] at hu
      exact h.inHand u j x hu
  · rw [hrecorded]
    rcases hothers u with hself | ⟨-, hother⟩
    · rw [hself] at hj
      cases hj
    · rw [hother] at hj
      exact h.unrecorded u j hj
  · rcases hothers u with hself | ⟨hne, hother⟩
    · rw [hself] at hj
      cases hj
    · rw [hother] at hj
      rw [hpublished] at hi
      rcases List.mem_append.mp hi with hi | hi
      · exact h.unpublished u j hj i hi
      · obtain rfl := List.mem_singleton.mp hi
        exact hok u hne i hmine j hj
  · rw [htaken]
    rw [hrecorded, hpublished] at hi
    rcases List.mem_append.mp hi with hi | hi
    · exact h.taken i (List.mem_append_left _ hi)
    · rcases List.mem_append.mp hi with hi | hi
      · exact h.taken i (List.mem_append_right _ hi)
      · obtain rfl := List.mem_singleton.mp hi
        exact (List.getElem?_eq_some_iff.mp hk).1

end

-- ============================================================================
-- Runs
-- ============================================================================

section

variable {F : Type} [F64Arith F] {fromStr : Text → Option Json} {s s' : State F} {a : Act}

theorem State.Inv.step (h : s.Inv) (hok : s.NoneOlder a)
    (hs : progressStep fromStr s a = some s') : s'.Inv := by
  unfold progressStep at hs
  cases a with
  | spawn =>
    dsimp only at hs
    cases hpc : s.pc .caller with
    | idle =>
      rw [hpc] at hs
      obtain rfl := Option.some.inj hs
      exact h.quiet (t := .caller) (c := .idle) (by rw [← hpc, Function.update_eq_self]) rfl
        rfl rfl rfl rfl
    | changed | snapped | recorded =>
      rw [hpc] at hs
      cases hs
  | line kind text =>
    dsimp only at hs
    split at hs
    · cases hpc : s.pc (readerOf kind) with
      | idle =>
        rw [hpc] at hs
        obtain rfl := Option.some.inj hs
        exact h.quiet rfl rfl rfl rfl rfl rfl
      | changed | snapped | recorded =>
        rw [hpc] at hs
        cases hs
    · cases hs
  | seed entries =>
    dsimp only at hs
    split at hs
    · cases hpc : s.pc .caller with
      | idle =>
        rw [hpc] at hs
        obtain rfl := Option.some.inj hs
        exact h.quiet rfl rfl rfl rfl rfl rfl
      | changed | snapped | recorded =>
        rw [hpc] at hs
        cases hs
    · cases hs
  | snapshot t =>
    dsimp only at hs
    cases hpc : s.pc t with
    | changed =>
      rw [hpc] at hs
      obtain rfl := Option.some.inj hs
      exact h.snapshot rfl rfl rfl rfl rfl
    | idle | snapped | recorded =>
      rw [hpc] at hs
      cases hs
  | setStats t =>
    dsimp only at hs
    cases hpc : s.pc t with
    | snapped k stats =>
      rw [hpc] at hs
      obtain rfl := Option.some.inj hs
      exact h.setStats hpc hok rfl rfl rfl rfl rfl
    | idle | changed | recorded =>
      rw [hpc] at hs
      cases hs
  | publish t =>
    dsimp only at hs
    cases hpc : s.pc t with
    | recorded k stats =>
      rw [hpc] at hs
      obtain rfl := Option.some.inj hs
      exact h.publish hpc hok rfl rfl rfl rfl rfl
    | idle | changed | snapped =>
      rw [hpc] at hs
      cases hs

end

namespace Sample

def atFirst : State Nat where
  shared := SyncState.initial
  started := false
  seeded := false
  pc
    | .caller => .changed
    | _ => .idle
  taken := []
  taskStats := none
  recorded := []
  published := []

/-- The marker at the beginning. -/
def marker : List Act := [.snapshot .caller, .setStats .caller, .publish .caller, .spawn]

/-- A line of each stream, one after the other. -/
def apart : List Act :=
  marker ++ [.line .stdout [], .snapshot .stdout, .setStats .stdout, .publish .stdout,
    .line .stderr [], .snapshot .stderr, .setStats .stderr, .publish .stderr]

/-- Between the snapshot of the one and its callback comes all of the other. -/
def crossed : List Act :=
  marker ++ [.line .stdout [], .snapshot .stdout, .line .stderr [], .snapshot .stderr,
    .setStats .stderr, .publish .stderr, .setStats .stdout, .publish .stdout]

theorem atFirst_init (fromStr : Text → Option Json) : (progressSystem fromStr).init atFirst :=
  ⟨rfl, rfl, rfl, rfl, rfl, rfl, rfl, rfl, rfl⟩

end Sample

end Progress

end GnDrive.Rclone
