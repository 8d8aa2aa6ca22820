/-
  GnDrive.Rclone.Preview

  A dry run as the preview of the real run.

  A profile is synced by the request `sync.profile` and by the command `sync` of
  the command line.  With the flag for a dry run the request goes through
  `start_path_sync` instead of `start_sync`, with checks and defaults of its
  own, and the command replaces the action by `dry-run`, which is always a
  one-way sync from source to destination.  `dry_run_previews_iff` says for
  which profiles and actions what is run is nevertheless the command of the
  real run with `--dry-run` added.
-/

import GnDrive.Rclone.DryRun

namespace GnDrive.Rclone

/-- The actions of a real run. -/
inductive SyncAction where
  | push
  | pull
  | bi
  | biResync
deriving DecidableEq

def SyncAction.text : SyncAction → Text
  | .push => "push".toList
  | .pull => "pull".toList
  | .bi => "bi".toList
  | .biResync => "bi-resync".toList

/-- Where a sync is asked for. -/
inductive FrontEnd where
  | rpc
  | cli
deriving DecidableEq

/-- The answer to a request: it is refused, or a sync is started with the
    arguments of its command, or with none, and then it fails. -/
inductive Answer where
  | refused
  | started (args : Option (List Text))
deriving DecidableEq

section

variable {F : Type} [F64 F]

/-- `start_sync`; without a source or a destination it is the task that fails. -/
def startSync (configPath action : Text) (p : Profile F) : Answer :=
  .started (syncArgs configPath action p)

def startPathSync (configPath action busyKey src dst : Text) (opts : Option (Profile F)) : Answer :=
  if src = [] ∨ dst = [] then .refused
  else .started (pathSyncArgs configPath action busyKey src dst opts)

/-- `sync.profile` for the stored profile `p`. -/
def syncProfile (configPath action : Text) (dryRun : Bool) (p : Profile F) : Answer :=
  match requestedAction action p with
  | none => .refused
  | some action =>
      if dryRun then
        startPathSync configPath action p.name p.fromPath p.toPath (some { p with dryRun := true })
      else startSync configPath action p

/-- The command `sync` of the command line. -/
def cliSync (configPath action : Text) (dryRun : Bool) (p : Profile F) : Answer :=
  let act := if dryRun then "dry-run".toList else action
  match RcloneAction.parse act with
  | none => .refused
  | some action =>
      match buildArgs configPath
        { action, source := p.fromPath, dest := p.toPath
          profile := some { profileFlags p with dryRun := p.dryRun } } with
      | none => .refused
      | some args => .started (some args)

def request (configPath : Text) (front : FrontEnd) (action : SyncAction) (dryRun : Bool)
    (p : Profile F) : Answer :=
  match front with
  | .rpc => syncProfile configPath action.text dryRun p
  | .cli => cliSync configPath action.text dryRun p

/-- The arguments with `--dry-run` added; they stay the same if they have it
    already. -/
def AddsDryRun (real dry : List Text) : Prop :=
  (∃ pre post, real = pre ++ post ∧ dry = pre ++ "--dry-run".toList :: post) ∨
    "--dry-run".toList ∈ real ∧ dry = real

/-- Both are refused, or both run a command and `dry` is a preview of `real`. -/
inductive Previews : Answer → Answer → Prop where
  | refused : Previews .refused .refused
  | started {real dry : List Text} :
      AddsDryRun real dry → Previews (.started (some real)) (.started (some dry))

/-- What the two ways do differently makes no difference. -/
def Previewed (front : FrontEnd) (action : SyncAction) (p : Profile F) : Prop :=
  match front, action with
  | .rpc, _ => p.fromPath ≠ [] ∧ p.toPath ≠ [] ∧ 0 < p.parallel
  | .cli, .push => True
  | .cli, .pull =>
      p.fromPath = [] ∨ p.toPath = [] ∨ p.fromPath = p.toPath ∨ p.fromPath = "--dry-run".toList
  | .cli, .bi | .cli, .biResync => p.fromPath = [] ∨ p.toPath = []

end

-- ============================================================================
-- Adding one argument
-- ============================================================================

section

variable {real dry : List Text}

theorem AddsDryRun.append_left (pre : List Text) (h : AddsDryRun real dry) :
    AddsDryRun (pre ++ real) (pre ++ dry) := by
  rcases h with ⟨a, b, rfl, rfl⟩ | ⟨hmem, rfl⟩
  · exact .inl ⟨pre ++ a, b, (List.append_assoc ..).symm, (List.append_assoc ..).symm⟩
  · exact .inr ⟨List.mem_append_right _ hmem, rfl⟩

theorem AddsDryRun.length_le (h : AddsDryRun real dry) : dry.length ≤ real.length + 1 := by
  rcases h with ⟨a, b, rfl, rfl⟩ | ⟨-, rfl⟩
  · simp only [List.length_append, List.length_cons]
    omega
  · omega

/-- The argument comes first, or both lists begin with the same one. -/
theorem AddsDryRun.head {x y : Text} (h : AddsDryRun (x :: real) (y :: dry)) :
    y = "--dry-run".toList ∧ dry = x :: real ∨ x = y := by
  rcases h with ⟨pre, post, hreal, hdry⟩ | ⟨-, heq⟩
  · cases pre with
    | nil =>
      obtain ⟨rfl, rfl⟩ := List.cons.inj hdry
      exact .inl ⟨rfl, hreal.symm⟩
    | cons z pre =>
      have hx := (List.cons.inj hreal).1
      have hy := (List.cons.inj hdry).1
      exact .inr (hx.trans hy.symm)
  · exact .inr (List.cons.inj heq).1.symm

/-- Behind a common argument. -/
theorem AddsDryRun.tail {x : Text} (h : AddsDryRun (x :: real) (x :: dry))
    (hx : x ≠ "--dry-run".toList) : AddsDryRun real dry := by
  rcases h with ⟨pre, post, hreal, hdry⟩ | ⟨hmem, heq⟩
  · cases pre with
    | nil => exact absurd (List.cons.inj hdry).1 hx
    | cons z pre =>
      exact .inl ⟨pre, post, (List.cons.inj hreal).2, (List.cons.inj hdry).2⟩
  · refine .inr ⟨?_, (List.cons.inj heq).2⟩
    exact (List.mem_cons.mp hmem).resolve_left fun h => hx h.symm

end

theorem not_previews_refused {args : Option (List Text)} :
    ¬ Previews (.started args) .refused := by
  rintro ⟨⟩

theorem requestedAction_text {F : Type} (a : SyncAction) (p : Profile F) :
    requestedAction a.text p = some a.text := by
  cases a <;> rfl

section

variable {F : Type} [F64 F] {configPath : Text} {p q : Profile F}

-- ============================================================================
-- Requests
-- ============================================================================

/-- The arguments of two profiles that differ in one option, before and after
    those of the option. -/
theorem segments_around {o : SyncOption} (ho : o ∈ translated)
    (hothers : ∀ o', o' ≠ o → p.option o' = q.option o') :
    ∃ before after,
      profileToFlags (profileFlags p) = before ++ (p.segment o ++ after) ∧
        profileToFlags (profileFlags q) = before ++ (q.segment o ++ after) := by
  obtain ⟨l, l', hsplit⟩ := List.append_of_mem ho
  have hnot : o ∉ l ∧ o ∉ l' := by
    have hnodup := translated_nodup
    rw [hsplit, List.nodup_append, List.nodup_cons] at hnodup
    exact ⟨fun hmem => hnodup.2.2 o hmem o List.mem_cons_self rfl, hnodup.2.1.1⟩
  have hagree : ∀ os : List SyncOption, o ∉ os → os.flatMap q.segment = os.flatMap p.segment := by
    intro os hos
    rw [List.flatMap_def, List.flatMap_def]
    refine congrArg List.flatten (List.map_congr_left fun o' ho' => ?_)
    rw [Profile.segment, Profile.segment, hothers o' fun heq => hos (heq ▸ ho')]
  refine ⟨l.flatMap p.segment, l'.flatMap p.segment, ?_, ?_⟩
  · rw [profileToFlags_segments, hsplit, List.flatMap_append, List.flatMap_cons]
  · rw [profileToFlags_segments, hsplit, List.flatMap_append, List.flatMap_cons,
      hagree l hnot.1, hagree l' hnot.2]

theorem segment_dryRun (p : Profile F) : p.segment .dryRun = boolFlag "--dry-run" p.dryRun := rfl

theorem segment_parallel (p : Profile F) : p.segment .parallel = intFlag "--transfers" p.parallel :=
  rfl

/-- A dry run that only sets the option adds `--dry-run`. -/
theorem addsDryRun_flags (p : Profile F) :
    AddsDryRun (profileToFlags (profileFlags p))
      (profileToFlags (profileFlags { p with dryRun := true })) := by
  obtain ⟨before, after, hreal, hdry⟩ :=
    segments_around (p := p) (q := { p with dryRun := true }) (o := .dryRun) (by decide)
      fun o ho => by cases o <;> first | rfl | exact absurd rfl ho
  rw [hreal, hdry, segment_dryRun, segment_dryRun]
  cases p.dryRun with
  | true => exact .inr ⟨by simp [boolFlag], rfl⟩
  | false => exact .inl ⟨before, after, rfl, rfl⟩

/-- A default for `parallel` adds two arguments. -/
theorem length_flags_parallel (p : Profile F) (hp : p.parallel ≤ 0) :
    (profileToFlags (profileFlags { p with parallel := 4 })).length =
      (profileToFlags (profileFlags p)).length + 2 := by
  obtain ⟨before, after, hreal, hdry⟩ :=
    segments_around (p := p) (q := { p with parallel := 4 }) (o := .parallel) (by decide)
      fun o ho => by cases o <;> first | rfl | exact absurd rfl ho
  have hnone : ¬ 0 < p.parallel := by omega
  rw [hreal, hdry, segment_parallel, segment_parallel]
  simp only [List.length_append, intFlag, if_neg hnone, List.length_nil]
  show before.length + (2 + after.length) = before.length + (0 + after.length) + 2
  omega

theorem length_flags_dryRun (p : Profile F) :
    (profileToFlags (profileFlags p)).length ≤
      (profileToFlags (profileFlags { p with dryRun := true })).length := by
  rcases addsDryRun_flags p with ⟨a, b, hreal, hdry⟩ | ⟨-, hdry⟩
  · rw [hreal, hdry]
    simp only [List.length_append, List.length_cons]
    omega
  · rw [hdry]

/-- The arguments of a command before its flags. -/
def commandArgs (configPath : Text) (action : RcloneAction) (src dst : Text) : List Text :=
  actionArgs src dst action ++ ["--config".toList, configPath, "--stats".toList, "1s".toList,
    "--use-json-log".toList, "-v".toList]

theorem syncArgs_eq {action : Text} (hsrc : p.fromPath ≠ []) (hdst : p.toPath ≠ []) :
    syncArgs configPath action p =
      some (commandArgs configPath ((RcloneAction.parse action).getD .push) p.fromPath p.toPath ++
        profileToFlags (profileFlags p)) := by
  simp only [syncArgs, buildArgs, runConfig, hsrc, hdst, or_self, if_false, commandArgs]
  rfl

/-- A path sync gives `parallel` its default. -/
theorem pathSyncArgs_eq {action busyKey src dst : Text} (hsrc : src ≠ []) (hdst : dst ≠ []) :
    pathSyncArgs configPath action busyKey src dst (some p) =
      some (commandArgs configPath ((RcloneAction.parse action).getD .push) src dst ++
        profileToFlags (profileFlags { p with
          parallel := if p.parallel ≤ 0 then 4 else p.parallel })) := by
  rw [pathSyncArgs, if_neg (not_or.mpr ⟨hsrc, hdst⟩)]
  exact syncArgs_eq (p := { p with
    name := busyKey, fromPath := src, toPath := dst
    parallel := if p.parallel ≤ 0 then 4 else p.parallel }) hsrc hdst

theorem pathSyncArgs_positive {action busyKey src dst : Text} (hsrc : src ≠ []) (hdst : dst ≠ [])
    (hpar : 0 < p.parallel) :
    pathSyncArgs configPath action busyKey src dst (some p) =
      some (commandArgs configPath ((RcloneAction.parse action).getD .push) src dst ++
        profileToFlags (profileFlags p)) := by
  have hnot : ¬ p.parallel ≤ 0 := by omega
  rw [pathSyncArgs_eq hsrc hdst, if_neg hnot]

theorem request_previews_iff (a : SyncAction) (p : Profile F) :
    Previews (syncProfile configPath a.text false p) (syncProfile configPath a.text true p) ↔
      p.fromPath ≠ [] ∧ p.toPath ≠ [] ∧ 0 < p.parallel := by
  simp only [syncProfile, requestedAction_text, if_true, Bool.false_eq_true, if_false, startSync,
    startPathSync]
  by_cases hends : p.fromPath = [] ∨ p.toPath = []
  · rw [if_pos hends]
    refine iff_of_false not_previews_refused ?_
    rintro ⟨hsrc, hdst, -⟩
    exact hends.elim hsrc hdst
  rw [if_neg hends]
  obtain ⟨hsrc, hdst⟩ := not_or.mp hends
  rw [syncArgs_eq hsrc hdst]
  by_cases hpar : p.parallel ≤ 0
  · -- the dry run gets a default that the real run does not have
    rw [pathSyncArgs_eq hsrc hdst]
    simp only [if_pos hpar]
    refine iff_of_false (fun h => ?_) (fun h => by omega)
    cases h with
    | started hadds =>
      have hlen := hadds.length_le
      have hpar' := length_flags_parallel { p with dryRun := true } hpar
      have hdry := length_flags_dryRun p
      simp only [List.length_append] at hlen hpar' hdry
      omega
  · have hpos : 0 < p.parallel := Int.lt_of_not_ge hpar
    rw [pathSyncArgs_positive (p := { p with dryRun := true }) hsrc hdst hpos]
    refine iff_of_true (.started ?_) ⟨hsrc, hdst, hpos⟩
    exact (addsDryRun_flags p).append_left _

-- ============================================================================
-- The command line
-- ============================================================================

theorem cliSync_eq (action : Text) (dryRun : Bool) {a : RcloneAction}
    (ha : RcloneAction.parse (if dryRun then "dry-run".toList else action) = some a) :
    cliSync configPath action dryRun p =
      if p.fromPath = [] ∨ p.toPath = [] then .refused
      else .started (some (commandArgs configPath a p.fromPath p.toPath ++
        profileToFlags (profileFlags p))) := by
  simp only [cliSync, ha, buildArgs]
  by_cases hends : p.fromPath = [] ∨ p.toPath = []
  · rw [if_pos hends, if_pos hends]
  · rw [if_neg hends, if_neg hends]
    rfl

/-- A one-way sync in the other direction. -/
theorem addsDryRun_pull {src dst : Text} {rest : List Text} :
    AddsDryRun ("sync".toList :: dst :: src :: rest)
        ("sync".toList :: src :: dst :: "--dry-run".toList :: rest) ↔
      src = dst ∨ src = "--dry-run".toList := by
  constructor
  · intro h
    rcases (h.tail (by decide)).head with ⟨hsrc, -⟩ | heq
    · exact .inr hsrc
    · exact .inl heq.symm
  · rintro (rfl | rfl)
    · exact .inl ⟨["sync".toList, src, src], rest, rfl, rfl⟩
    · exact .inl ⟨["sync".toList], dst :: "--dry-run".toList :: rest, rfl, rfl⟩

theorem not_addsDryRun_bisync {l l' : List Text} :
    ¬ AddsDryRun ("bisync".toList :: l) ("sync".toList :: l') := by
  intro h
  rcases h.head with ⟨hsync, -⟩ | hsync
  · exact absurd hsync (by decide)
  · exact absurd hsync (by decide)

theorem previews_refused_or {front : Prop} [Decidable front] {real dry : List Text} :
    Previews (if front then .refused else .started (some real))
        (if front then .refused else .started (some dry)) ↔ front ∨ AddsDryRun real dry := by
  by_cases hf : front
  · rw [if_pos hf, if_pos hf]
    exact iff_of_true .refused (.inl hf)
  · rw [if_neg hf, if_neg hf]
    constructor
    · intro h
      cases h with
      | started hadds => exact .inr hadds
    · exact fun h => .started (h.resolve_left hf)

theorem cli_previews_iff (a : SyncAction) (p : Profile F) :
    Previews (cliSync configPath a.text false p) (cliSync configPath a.text true p) ↔
      Previewed .cli a p := by
  have hparse : ∃ b, RcloneAction.parse a.text = some b := by cases a <;> exact ⟨_, rfl⟩
  obtain ⟨b, hb⟩ := hparse
  rw [cliSync_eq a.text false hb, cliSync_eq a.text true (a := .dryRun) rfl, previews_refused_or]
  cases a with
  | push =>
    obtain rfl := Option.some.inj hb
    refine iff_of_true (.inr (.inl ⟨["sync".toList, p.fromPath, p.toPath], _, rfl, rfl⟩)) trivial
  | pull =>
    obtain rfl := Option.some.inj hb
    rw [Previewed, ← or_assoc]
    exact or_congr_right addsDryRun_pull
  | bi | biResync =>
    obtain rfl := Option.some.inj hb
    exact or_iff_left not_addsDryRun_bisync

end

/-- Where a sync is asked for, the dry run is refused when the real run is and
    else runs its command with `--dry-run` added, exactly if what the two ways
    do differently makes no difference. -/
theorem dry_run_previews_iff {F : Type} [F64 F] (configPath : Text) (front : FrontEnd)
    (action : SyncAction) (p : Profile F) :
    Previews (request configPath front action false p) (request configPath front action true p) ↔
      Previewed front action p := by
  cases front with
  | rpc => exact request_previews_iff action p
  | cli => exact cli_previews_iff action p

/-- The dry run of a bisync on the command line is a one-way sync. -/
theorem bisync_not_previewed :
    ¬ ∀ (configPath : Text) (front : FrontEnd) (action : SyncAction) (p : Profile Nat),
      Previews (request configPath front action false p)
        (request configPath front action true p) := by
  intro h
  let p : Profile Nat := { fromPath := "/s".toList, toPath := "r:d".toList }
  have hbi : p.fromPath = [] ∨ p.toPath = [] := (cli_previews_iff .bi p).mp (h [] .cli .bi p)
  exact absurd hbi (by decide)

end GnDrive.Rclone
