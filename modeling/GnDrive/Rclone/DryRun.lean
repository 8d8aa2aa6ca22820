/-
  GnDrive.Rclone.DryRun

  Dry runs.

  A sync is started for `sync.profile`, for a schedule, for an operation of a
  flow and for an edge of a board.  A dry run is asked for by the request, by
  the profile or the bag of options, or by the action `dry-run`;
  `dry_run_never_transfers` says that the arguments then contain `--dry-run`.

  A flow has no action `dry-run`: an action that is not one of a flow's is taken
  to be `push`, as in `flow_dry_run_pushes`.
-/

import GnDrive.Board.Layers
import GnDrive.Flows.Store
import GnDrive.Rclone.Options

namespace GnDrive.Rclone

open Flows (FlowOperation)
open Board (BoardNode BoardEdge)
open Text (trim)

/-- A path of rclone from a remote's name and a path; a local path without a
    remote. -/
def composePath (remote path : Text) : Text :=
  let path := trim path
  let remote := trim remote
  if remote = [] ∨ remote = "local".toList then
    if path = [] then "/".toList else path
  else if path = [] ∨ path = "/".toList then remote ++ [':']
  else remote ++ ':' :: path

def nodePath (n : BoardNode) : Text :=
  if n.remoteName ≠ [] then
    if n.path = [] ∨ n.path = "/".toList then n.remoteName ++ [':']
    else n.remoteName ++ ':' :: n.path
  else n.path

/-- What a sync is started for. -/
inductive SyncRequest (F : Type) where
  /-- `sync.profile`: its `action` and `dryRun`, the profile that it reads, and
      the one that `start_sync` reads again. -/
  | profile (action : Text) (dryRun : Bool) (read loaded : Profile F)
  | schedule (action : Text) (loaded : Profile F)
  | path (action busyKey src dst : Text) (opts : Option (Profile F))
  | operation (flowId : Text) (op : FlowOperation)
  | edge (e : BoardEdge) (src dst : BoardNode)

section

variable {F : Type} [F64 F]

/-- The arguments of a sync that `start_path_sync` starts. -/
def pathSyncArgs (configPath action busyKey src dst : Text) (opts : Option (Profile F)) :
    Option (List Text) :=
  if src = [] ∨ dst = [] then none
  else
    let profile := opts.getD {}
    syncArgs configPath action { profile with
      name := busyKey, fromPath := src, toPath := dst
      parallel := if profile.parallel ≤ 0 then 4 else profile.parallel }

/-- The action of a `sync.profile` request, unless it is refused. -/
def requestedAction (action : Text) (read : Profile F) : Option Text :=
  if action = [] then some (Flows.FlowAction.normalize read.direction)
  else if ["pull".toList, "push".toList, "bi".toList, "bi-resync".toList,
      "dry-run".toList].contains action then some action
  else none

/-- The arguments of the command that is run for a request. -/
def transferArgs (configPath : Text) : SyncRequest F → Option (List Text)
  | .profile action dryRun read loaded =>
      (requestedAction action read).bind fun action =>
        if dryRun then
          pathSyncArgs configPath action read.name read.fromPath read.toPath
            (some { read with dryRun := true })
        else syncArgs configPath action loaded
  | .schedule action loaded => syncArgs configPath action loaded
  | .path action busyKey src dst opts => pathSyncArgs configPath action busyKey src dst opts
  | .operation flowId op =>
      pathSyncArgs configPath op.resolvedAction (flowId ++ ':' :: op.id)
        (composePath op.sourceRemote op.sourcePath) (composePath op.targetRemote op.targetPath)
        (some (profileFromSyncConfig op.syncConfig : Profile F))
  | .edge e src dst =>
      buildArgs configPath
        { action := (RcloneAction.parse e.action).getD .push
          source := nodePath src, dest := nodePath dst
          profile := some ({ transfers := 4 } : ProfileFlags F) }

/-- The request, the profile that is synced or the action asks for a dry run. -/
def asksDryRun : SyncRequest F → Bool
  | .profile action dryRun _ loaded => dryRun || action = "dry-run".toList || loaded.dryRun
  | .schedule action loaded => action = "dry-run".toList || loaded.dryRun
  | .path action _ _ _ opts => action = "dry-run".toList || opts.any (·.dryRun)
  | .operation _ op => (boolV op.syncConfig (keys "dry_run" "dryRun")).getD false
  | .edge e _ _ => e.action = "dry-run".toList

end

section

variable {F : Type} [F64 F] {configPath action : Text} {p : Profile F} {args : List Text}

theorem dryRun_mem_flags (hdry : p.dryRun = true) :
    "--dry-run".toList ∈ profileToFlags (profileFlags p) := by
  rw [profileToFlags_segments, List.mem_flatMap]
  refine ⟨.dryRun, by decide, ?_⟩
  simp [Profile.segment, SyncOption.translation, Profile.option, Translation.segment, boolFlag, hdry]

theorem parse_dryRun : RcloneAction.parse "dry-run".toList = some .dryRun := rfl

theorem dryRun_mem_actionArgs (src dst : Text) :
    "--dry-run".toList ∈ actionArgs src dst .dryRun := by
  simp only [actionArgs, List.mem_cons, true_or, or_true]

/-- A sync of a profile is a dry run if the profile or the action says so. -/
theorem syncArgs_dryRun (hasked : action = "dry-run".toList ∨ p.dryRun = true)
    (hargs : syncArgs configPath action p = some args) : "--dry-run".toList ∈ args := by
  unfold syncArgs buildArgs at hargs
  split at hargs
  · cases hargs
  · obtain rfl := Option.some.inj hargs
    rcases hasked with rfl | hdry
    · refine List.mem_append_left _ (List.mem_append_left _ ?_)
      rw [runConfig, parse_dryRun]
      exact dryRun_mem_actionArgs _ _
    · exact List.mem_append_right _ (dryRun_mem_flags hdry)

theorem pathSyncArgs_dryRun {busyKey src dst : Text} {opts : Option (Profile F)}
    (hasked : action = "dry-run".toList ∨ opts.any (·.dryRun) = true)
    (hargs : pathSyncArgs configPath action busyKey src dst opts = some args) :
    "--dry-run".toList ∈ args := by
  unfold pathSyncArgs at hargs
  split at hargs
  · cases hargs
  · refine syncArgs_dryRun (hasked.imp id fun hdry => ?_) hargs
    cases opts with
    | none => cases hdry
    | some p => exact hdry

theorem edge_dryRun {e : BoardEdge} {src dst : BoardNode} (hasked : e.action = "dry-run".toList)
    (hargs : transferArgs configPath (.edge e src dst : SyncRequest F) = some args) :
    "--dry-run".toList ∈ args := by
  simp only [transferArgs, buildArgs] at hargs
  split at hargs
  · cases hargs
  · obtain rfl := Option.some.inj hargs
    refine List.mem_append_left _ (List.mem_append_left _ ?_)
    rw [hasked, parse_dryRun]
    exact dryRun_mem_actionArgs _ _

end

/-- Whatever a sync is started for: if the request, the profile or the action
    asks for a dry run, the arguments of the command contain `--dry-run`. -/
theorem dry_run_never_transfers {F : Type} [F64 F] (configPath : Text) (r : SyncRequest F)
    (hasked : asksDryRun r = true) {args : List Text} (hargs : transferArgs configPath r = some args) :
    "--dry-run".toList ∈ args := by
  cases r with
  | profile action dryRun read loaded =>
    obtain ⟨resolved, hresolved, hargs⟩ := Option.bind_eq_some_iff.mp hargs
    cases dryRun with
    | true => exact pathSyncArgs_dryRun (.inr rfl) hargs
    | false =>
      refine syncArgs_dryRun ?_ hargs
      simp only [asksDryRun, Bool.false_or, Bool.or_eq_true, decide_eq_true_eq] at hasked
      refine hasked.imp (fun haction => ?_) id
      -- a request with an action is not given another one
      subst haction
      exact (Option.some.inj hresolved).symm
  | schedule action loaded =>
    refine syncArgs_dryRun ?_ hargs
    simpa only [asksDryRun, Bool.or_eq_true, decide_eq_true_eq] using hasked
  | path action busyKey src dst opts =>
    refine pathSyncArgs_dryRun ?_ hargs
    simpa only [asksDryRun, Bool.or_eq_true, decide_eq_true_eq] using hasked
  | operation flowId op =>
    refine pathSyncArgs_dryRun (.inr ?_) hargs
    exact hasked
  | edge e src dst => exact edge_dryRun (of_decide_eq_true hasked) hargs

/-- A `sync.profile` request with `dryRun`. -/
def dryRunRequest : SyncRequest Nat :=
  .profile [] true { fromPath := "/s".toList, toPath := "r:d".toList } {}

theorem dry_run_never_transfers_profile :
    ∃ args, transferArgs [] dryRunRequest = some args ∧ "--dry-run".toList ∈ args := by
  have hstarted : (transferArgs [] dryRunRequest).isSome = true := by decide +kernel
  obtain ⟨args, hargs⟩ := Option.isSome_iff_exists.mp hstarted
  exact ⟨args, hargs, dry_run_never_transfers [] dryRunRequest rfl hargs⟩

/-- An operation whose action is `dry-run`. -/
def dryRunOperation : FlowOperation :=
  { id := ['o'], flowId := ['f'], sourceRemote := [], sourcePath := "/s".toList
    targetRemote := ['r'], targetPath := "/d".toList, action := "dry-run".toList
    syncConfig := [], isExpanded := false, sortOrder := 0 }

/-- It is run as a push. -/
theorem flow_dry_run_pushes :
    ∃ args, transferArgs [] (.operation ['f'] dryRunOperation : SyncRequest Nat) = some args ∧
      "--dry-run".toList ∉ args := by
  have hpushed : (transferArgs [] (.operation ['f'] dryRunOperation : SyncRequest Nat)).any
      (fun args => !args.contains "--dry-run".toList) = true := by
    decide +kernel
  obtain ⟨args, hargs, hnone⟩ := (Option.any_eq_true _ _).mp hpushed
  exact ⟨args, hargs, by simpa using hnone⟩

end GnDrive.Rclone
