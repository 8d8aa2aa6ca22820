/-
  GnDrive.Rclone.EdgeArgs

  An edge of a board and an operation of a flow.

  A connection between two locations can be an edge of a board or an operation
  of a flow.  The two engines compose the paths, resolve the action and choose
  the flags with code of their own (`node_path`, `run_edge`; `compose_path`,
  `resolved_action`, `profile_from_sync_config`), and the board does not read
  the bag of options of an edge.  `edge_agrees_iff` says for which connections
  rclone nevertheless gets the same arguments.
-/

import GnDrive.Rclone.Preview

namespace GnDrive.Rclone

open Flows (FlowOperation)
open Board (BoardNode BoardEdge)
open Text (trim isWhitespace)

/-- The operation is between the locations of the nodes and has the action of
    the edge. -/
structure SameConnection (e : BoardEdge) (src dst : BoardNode) (op : FlowOperation) : Prop where
  sourceRemote : op.sourceRemote = src.remoteName
  sourcePath : op.sourcePath = src.path
  targetRemote : op.targetRemote = dst.remoteName
  targetPath : op.targetPath = dst.path
  action : op.action = e.action

/-- Nothing to trim, not `local` by name, and not without any path. -/
def Plain (n : BoardNode) : Prop :=
  trim n.remoteName = n.remoteName ∧ n.remoteName ≠ "local".toList ∧ trim n.path = n.path ∧
    (n.remoteName = [] → n.path ≠ [])

instance : DecidablePred Plain := fun n => by
  unfold Plain
  infer_instance

local instance lawfulBEq_text : LawfulBEq Text := inferInstance

/-- The action of the edge, taken word for word, is that of the operation, which
    trims it, knows `bi` and `bi-resync` only and takes a blank one from the
    bag. -/
def SameAction (op : FlowOperation) : Prop :=
  if trim op.action = [] then op.resolvedAction = "push".toList
  else if op.action ∈ ["push".toList, "bi".toList, "bi-resync".toList] then True
  else RcloneAction.parse op.action = none ∧
    trim op.action ∉ ["bi".toList, "bi-resync".toList]

/-- A pull from a location to itself. -/
def PullsInPlace (op : FlowOperation) (src dst : BoardNode) : Prop :=
  op.action = "pull".toList ∧ nodePath src = nodePath dst

/-- Of the bag, rclone is told nothing but four transfers. -/
def DefaultBag (F : Type) [F64 F] (op : FlowOperation) : Prop :=
  ∀ o ∈ translated,
    ¬ Reaches o (profileFromSyncConfig op.syncConfig : Profile F) { parallel := 4 }

-- ============================================================================
-- Paths
-- ============================================================================

section

variable {n : BoardNode}

theorem composePath_visible (remote path : Text) :
    ∃ c ∈ composePath remote path, isWhitespace c = false := by
  unfold composePath
  simp only
  by_cases hremote : trim remote = [] ∨ trim remote = "local".toList
  · rw [if_pos hremote]
    by_cases hpath : trim path = []
    · rw [if_pos hpath]
      exact ⟨'/', by decide, by decide⟩
    · rw [if_neg hpath]
      by_contra hnone
      push Not at hnone
      have hblank : trim (trim path) = [] :=
        Text.trim_eq_nil_iff.mpr fun c hc => by simpa using hnone c hc
      rw [Text.trim_trim] at hblank
      exact hpath hblank
  · rw [if_neg hremote]
    refine ⟨':', ?_, by decide⟩
    split <;> simp

theorem composePath_ne_nil (remote path : Text) : composePath remote path ≠ [] := by
  obtain ⟨c, hc, -⟩ := composePath_visible remote path
  exact List.ne_nil_of_mem hc

theorem Plain.nodePath_eq (h : Plain n) : nodePath n = composePath n.remoteName n.path := by
  obtain ⟨hremote, hlocal, hpath, hempty⟩ := h
  unfold nodePath composePath
  simp only [hremote, hpath, hlocal, or_false]
  by_cases hr : n.remoteName = []
  · simp [hr, hempty hr]
  · simp [hr]

/-- Composing drops characters unless there is nothing to do. -/
theorem length_composePath_lt (hblank : n.remoteName = [] → trim n.path ≠ []) (h : ¬ Plain n) :
    (composePath n.remoteName n.path).length < (nodePath n).length := by
  have hremote := Text.length_trim_le n.remoteName
  have hpath := Text.length_trim_le n.path
  have hremote' : n.remoteName.length ≤ (trim n.remoteName).length →
      trim n.remoteName = n.remoteName := Text.trim_eq_self
  have hpath' : n.path.length ≤ (trim n.path).length → trim n.path = n.path := Text.trim_eq_self
  by_cases hr : n.remoteName = []
  · -- a local path
    have hlt : (trim n.path).length < n.path.length := by
      by_contra hge
      have hsame := hpath' (Nat.le_of_not_lt hge)
      refine h ⟨by rw [hr]; rfl, by rw [hr]; decide, hsame, fun _ => ?_⟩
      rw [← hsame]
      exact hblank hr
    simp only [nodePath, composePath, hr, hblank hr, if_false, ne_eq, not_true_eq_false]
    exact hlt
  · have hlen : 0 < n.remoteName.length := List.length_pos_iff.mpr hr
    simp only [nodePath, composePath, hr, ne_eq, not_false_eq_true, if_true]
    by_cases hlocal : trim n.remoteName = [] ∨ trim n.remoteName = "local".toList
    · -- the name is dropped
      rw [if_pos hlocal]
      by_cases hp : n.path = [] ∨ n.path = "/".toList
      · rw [if_pos hp, List.length_append]
        rcases hp with hp | hp <;> rw [hp] <;> exact Nat.lt_add_of_pos_left hlen
      · rw [if_neg hp, List.length_append, List.length_cons]
        have hpos : 0 < n.path.length := List.length_pos_iff.mpr fun hp' => hp (.inl hp')
        split
        · show 1 < _
          omega
        · omega
    · rw [if_neg hlocal]
      have hnot : trim n.remoteName = n.remoteName → trim n.path ≠ n.path := by
        intro hr' hp'
        refine h ⟨hr', fun hl => hlocal (.inr (hr'.trans hl)), hp', fun hnil => absurd hnil hr⟩
      by_cases hp : n.path = [] ∨ n.path = "/".toList
      · have hp' : trim n.path = n.path := by rcases hp with hp | hp <;> rw [hp] <;> rfl
        rw [if_pos hp, hp', if_pos hp, List.length_append, List.length_append]
        have hne : ¬ n.remoteName.length ≤ (trim n.remoteName).length :=
          fun hle => hnot (hremote' hle) hp'
        omega
      · rw [if_neg hp, List.length_append, List.length_cons]
        by_cases hp' : trim n.path = [] ∨ trim n.path = "/".toList
        · rw [if_pos hp', List.length_append]
          have hpos : 0 < n.path.length := List.length_pos_iff.mpr fun hp' => hp (.inl hp')
          show (trim n.remoteName).length + 1 < _
          omega
        · rw [if_neg hp', List.length_append, List.length_cons]
          have hlt : (trim n.remoteName).length < n.remoteName.length ∨
              (trim n.path).length < n.path.length := by
            by_contra hge
            push Not at hge
            exact hnot (hremote' hge.1) (hpath' hge.2)
          omega

/-- A path that rclone gets from an operation is not made by a blank node. -/
theorem not_blank {remote path : Text} (h : nodePath n = composePath remote path) :
    n.remoteName = [] → trim n.path ≠ [] := by
  intro hr hblank
  obtain ⟨c, hc, hvisible⟩ := composePath_visible remote path
  have hnode : nodePath n = n.path := by simp [nodePath, hr]
  rw [← h, hnode] at hc
  rw [Text.trim_eq_nil_iff.mp hblank c hc] at hvisible
  cases hvisible

theorem nodePath_eq_iff (n : BoardNode) :
    nodePath n = composePath n.remoteName n.path ↔ Plain n := by
  constructor
  · intro h
    by_contra hplain
    have hlt := length_composePath_lt (not_blank h) hplain
    rw [h] at hlt
    exact Nat.lt_irrefl _ hlt
  · exact Plain.nodePath_eq

theorem length_composePath_le (hblank : n.remoteName = [] → trim n.path ≠ []) :
    (composePath n.remoteName n.path).length ≤ (nodePath n).length := by
  by_cases h : Plain n
  · rw [h.nodePath_eq]
  · exact Nat.le_of_lt (length_composePath_lt hblank h)

/-- The paths of two nodes, composed, are each other's only if nothing is to be
    composed. -/
theorem crossed_paths {m : BoardNode} :
    nodePath m = composePath n.remoteName n.path ∧ nodePath n = composePath m.remoteName m.path ↔
      Plain n ∧ Plain m ∧ nodePath n = nodePath m := by
  constructor
  · rintro ⟨hm, hn⟩
    have hle := length_composePath_le (not_blank hn)
    have hle' := length_composePath_le (not_blank hm)
    have hplain : Plain n := by
      by_contra h
      have hlt := length_composePath_lt (not_blank hn) h
      rw [← hm] at hlt
      rw [← hn] at hle'
      omega
    have hplain' : Plain m := by
      by_contra h
      have hlt := length_composePath_lt (not_blank hm) h
      rw [← hn] at hlt
      rw [← hm] at hle
      omega
    exact ⟨hplain, hplain', hplain.nodePath_eq.trans hm.symm⟩
  · rintro ⟨hn, hm, heq⟩
    exact ⟨heq.symm.trans hn.nodePath_eq, heq.trans hm.nodePath_eq⟩

end

-- ============================================================================
-- Actions
-- ============================================================================

section

variable {op : FlowOperation} {a : Text}

/-- The actions that rclone is run with for an operation. -/
theorem parse_mem (h : a ∈ ["push".toList, "bi".toList, "bi-resync".toList]) :
    ∃ b, RcloneAction.parse a = some b ∧ b ∈ [.push, .bi, .biResync] ∧
      (b = .push ↔ a = "push".toList) := by
  simp only [List.mem_cons, List.not_mem_nil, or_false] at h
  rcases h with rfl | rfl | rfl
  · exact ⟨.push, rfl, by decide, by decide⟩
  · exact ⟨.bi, rfl, by decide, by decide⟩
  · exact ⟨.biResync, rfl, by decide, by decide⟩

/-- A word for an action has no blanks around it. -/
theorem trim_of_parse {b : RcloneAction} (h : RcloneAction.parse a = some b) :
    trim a = a ∧ a ≠ [] := by
  unfold RcloneAction.parse at h
  split_ifs at h <;> subst_vars <;> exact ⟨rfl, by decide⟩

/-- The other words are for actions that no flow has. -/
theorem parse_other {b : RcloneAction} (h : RcloneAction.parse a = some b)
    (ha : a ∉ ["push".toList, "bi".toList, "bi-resync".toList]) :
    b ∉ [.push, .bi, .biResync] := by
  unfold RcloneAction.parse at h
  split_ifs at h <;> subst_vars <;> cases h <;> first | decide | exact absurd (by decide) ha

theorem parse_eq_pull : (RcloneAction.parse a).getD .push = .pull ↔ a = "pull".toList := by
  constructor
  · intro h
    unfold RcloneAction.parse at h
    split_ifs at h <;> first | assumption | cases h
  · rintro rfl
    rfl

theorem sameAction_iff (op : FlowOperation) :
    (RcloneAction.parse op.action).getD .push = (RcloneAction.parse op.resolvedAction).getD .push ↔
      SameAction op := by
  obtain ⟨b, hb, hmem, hpush⟩ := parse_mem op.resolvedAction_mem
  rw [hb, Option.getD_some]
  unfold SameAction
  by_cases hblank : trim op.action = []
  · -- the edge pushes
    have hnone : RcloneAction.parse op.action = none := by
      by_contra hsome
      obtain ⟨c, hc⟩ := Option.ne_none_iff_exists'.mp hsome
      obtain ⟨htrim, hne⟩ := trim_of_parse hc
      exact hne (htrim.symm.trans hblank)
    rw [if_pos hblank, hnone, Option.getD_none, ← hpush]
    exact eq_comm
  · rw [if_neg hblank]
    have hresolved := FlowOperation.resolvedAction_of_ne hblank
    by_cases hword : op.action ∈ ["push".toList, "bi".toList, "bi-resync".toList]
    · rw [if_pos hword]
      obtain ⟨c, hc, -⟩ := parse_mem hword
      have htrim := (trim_of_parse hc).1
      have hsame : op.resolvedAction = op.action := by
        rw [hresolved, Flows.FlowAction.normalize_eq, htrim, if_pos hword]
      rw [hsame, hc] at hb
      rw [hc, Option.some.inj hb]
      exact iff_of_true rfl trivial
    · rw [if_neg hword]
      cases hparse : RcloneAction.parse op.action with
      | some c =>
        refine iff_of_false (fun heq => ?_) (fun h => by cases h.1)
        exact parse_other hparse hword (by rw [show c = b from heq]; exact hmem)
      | none =>
        have heq : (none : Option RcloneAction).getD .push = b ↔ op.resolvedAction = "push".toList := by
          rw [← hpush]
          exact eq_comm
        rw [heq, hresolved, Flows.FlowAction.normalize_eq]
        constructor
        · intro hnorm
          refine ⟨rfl, fun hbi => ?_⟩
          rw [if_pos (List.mem_cons_of_mem _ hbi)] at hnorm
          rw [hnorm] at hbi
          exact absurd hbi (by decide)
        · rintro ⟨-, hbi⟩
          split
          · rename_i hvalid
            exact (List.mem_cons.mp hvalid).resolve_right hbi
          · rfl

end

-- ============================================================================
-- Flags
-- ============================================================================

section

variable {F : Type} [F64 F] {configPath : Text} {p : Profile F}

/-- The flags of an edge are those of a profile with four transfers. -/
theorem edge_flags : ({ transfers := 4 } : ProfileFlags F) = profileFlags ({ parallel := 4 } : Profile F) := rfl

theorem segment_default {o : SyncOption} (ho : o ≠ .parallel) :
    ({ parallel := 4 } : Profile F).segment o = [] := by
  cases o with
  | parallel => exact absurd rfl ho
  | tpsLimit =>
    show floatFlag "--tpslimit" (F64.zero : F) = []
    simp [floatFlag, F64.zero_not_positive]
  | _ => rfl

theorem flatMap_translated {β : Type} (f : SyncOption → List β) :
    translated.flatMap f =
      f .bandwidth ++ (f .parallel ++ (translated.drop 2).flatMap f) := rfl

theorem rest_default : ∀ o ∈ .bandwidth :: translated.drop 2, o ≠ .parallel := by decide

theorem flags_eq_iff (hpos : 0 < p.parallel) :
    profileToFlags (profileFlags p) =
        profileToFlags (profileFlags ({ parallel := 4 } : Profile F)) ↔
      ∀ o ∈ translated, ¬ Reaches o p { parallel := 4 } := by
  have hsegment : ∀ o, p.segment o = ({ parallel := 4 } : Profile F).segment o ↔
      ¬ Reaches o p { parallel := 4 } := by
    intro o
    rw [Reaches, not_not]
    exact segment_inj (option_fits p o) (option_fits _ o)
  have hrest : ∀ o ∈ .bandwidth :: translated.drop 2,
      ({ parallel := 4 } : Profile F).segment o = [] :=
    fun o ho => segment_default (rest_default o ho)
  rw [profileToFlags_segments, profileToFlags_segments]
  constructor
  · intro h o ho
    rw [← hsegment]
    -- the two arguments for the transfers leave no room for others
    rw [flatMap_translated, flatMap_translated, hrest .bandwidth List.mem_cons_self,
      List.flatMap_eq_nil_iff.mpr fun o ho => hrest o (List.mem_cons_of_mem _ ho)] at h
    have hlen : (p.segment .parallel).length = 2 := by
      rw [segment_parallel, intFlag, if_pos hpos]
      rfl
    have hlen' : (({ parallel := 4 } : Profile F).segment .parallel).length = 2 := rfl
    have htotal := congrArg List.length h
    simp only [List.length_append, List.length_nil, hlen, hlen'] at htotal
    have hbandwidth : p.segment .bandwidth = [] := List.length_eq_zero_iff.mp (by omega)
    have hothers : (translated.drop 2).flatMap p.segment = [] :=
      List.length_eq_zero_iff.mp (by omega)
    rw [hbandwidth, hothers, List.nil_append, List.nil_append, List.append_nil,
      List.append_nil] at h
    have ho : o ∈ .bandwidth :: .parallel :: translated.drop 2 := ho
    rcases List.mem_cons.mp ho with rfl | ho
    · rw [hbandwidth, hrest .bandwidth List.mem_cons_self]
    · rcases List.mem_cons.mp ho with rfl | ho
      · exact h
      · rw [List.flatMap_eq_nil_iff.mp hothers o ho, hrest o (List.mem_cons_of_mem _ ho)]
  · intro h
    rw [List.flatMap_def, List.flatMap_def]
    exact congrArg List.flatten (List.map_congr_left fun o ho => (hsegment o).mpr (h o ho))

/-- Command lines of an edge and of an operation. -/
theorem commandArgs_eq_iff {a b : RcloneAction} {s d s' d' : Text} {f f' : List Text}
    (hb : b ∈ [.push, .bi, .biResync]) :
    commandArgs configPath a s d ++ f = commandArgs configPath b s' d' ++ f' ↔
      (a = b ∧ s = s' ∧ d = d' ∨ a = .pull ∧ b = .push ∧ d = s' ∧ s = d') ∧ f = f' := by
  simp only [List.mem_cons, List.not_mem_nil, or_false] at hb
  rcases hb with rfl | rfl | rfl <;> cases a <;> simp [commandArgs, actionArgs, and_assoc]

theorem edgeArgs_eq {e : BoardEdge} {src dst : BoardNode} (hsrc : nodePath src ≠ [])
    (hdst : nodePath dst ≠ []) :
    transferArgs configPath (.edge e src dst : SyncRequest F) =
      some (commandArgs configPath ((RcloneAction.parse e.action).getD .push) (nodePath src)
        (nodePath dst) ++ profileToFlags (profileFlags ({ parallel := 4 } : Profile F))) := by
  rw [transferArgs, buildArgs, if_neg (not_or.mpr ⟨hsrc, hdst⟩), edge_flags, commandArgs,
    Option.map_some, Option.getD_some]

theorem parallel_positive (c : Rpc.JsonDict) : 0 < (profileFromSyncConfig c : Profile F).parallel := by
  show 0 < ((intV c ["parallel".toList]).filter positiveInt).getD 4
  cases h : (intV c ["parallel".toList]).filter positiveInt with
  | none => decide
  | some n => exact filter_positiveInt h

theorem operationArgs_eq (flowId : Text) (op : FlowOperation) :
    transferArgs configPath (.operation flowId op : SyncRequest F) =
      some (commandArgs configPath ((RcloneAction.parse op.resolvedAction).getD .push)
        (composePath op.sourceRemote op.sourcePath) (composePath op.targetRemote op.targetPath) ++
        profileToFlags (profileFlags (profileFromSyncConfig op.syncConfig : Profile F))) := by
  have hsrc := composePath_ne_nil op.sourceRemote op.sourcePath
  have hdst := composePath_ne_nil op.targetRemote op.targetPath
  rw [transferArgs]
  exact pathSyncArgs_positive hsrc hdst (parallel_positive op.syncConfig)

end

/-- A board and a flow run the same command for a connection exactly if there is
    nothing to trim or to compose, the action is taken alike (or pulls a
    location into itself), and the bag of the operation says nothing. -/
theorem edge_agrees_iff {F : Type} [F64 F] (configPath flowId : Text) {e : BoardEdge}
    {src dst : BoardNode} {op : FlowOperation} (hsame : SameConnection e src dst op) :
    transferArgs configPath (.edge e src dst : SyncRequest F) =
        transferArgs configPath (.operation flowId op : SyncRequest F) ↔
      Plain src ∧ Plain dst ∧ (SameAction op ∨ PullsInPlace op src dst) ∧ DefaultBag F op := by
  obtain ⟨b, hb, hmem, hpush⟩ := parse_mem op.resolvedAction_mem
  have hsameAction := sameAction_iff op
  rw [hb, Option.getD_some] at hsameAction
  rw [operationArgs_eq, hsame.sourceRemote, hsame.sourcePath, hsame.targetRemote, hsame.targetPath,
    hb, Option.getD_some]
  by_cases hends : nodePath src = [] ∨ nodePath dst = []
  · have hnone : transferArgs configPath (.edge e src dst : SyncRequest F) = none := if_pos hends
    rw [hnone]
    refine iff_of_false (fun h => by cases h) ?_
    rintro ⟨hsrc, hdst, -⟩
    rcases hends with h | h
    · exact composePath_ne_nil _ _ (hsrc.nodePath_eq.symm.trans h)
    · exact composePath_ne_nil _ _ (hdst.nodePath_eq.symm.trans h)
  · obtain ⟨hsrc, hdst⟩ := not_or.mp hends
    rw [edgeArgs_eq hsrc hdst, Option.some.injEq, commandArgs_eq_iff hmem, eq_comm (a := profileToFlags _),
      flags_eq_iff (parallel_positive op.syncConfig), ← hsame.action, hsameAction, parse_eq_pull,
      nodePath_eq_iff, nodePath_eq_iff, crossed_paths]
    unfold PullsInPlace DefaultBag
    have hpull : op.action = "pull".toList → b = .push := by
      intro hpull
      rw [hpush, FlowOperation.resolvedAction_of_ne (by rw [hpull]; decide), hpull]
      rfl
    constructor
    · rintro ⟨⟨haction, hs, hd⟩ | ⟨haction, -, hs, hd, heq⟩, hbag⟩
      · exact ⟨hs, hd, .inl haction, hbag⟩
      · exact ⟨hs, hd, .inr ⟨haction, heq⟩, hbag⟩
    · rintro ⟨hs, hd, haction | ⟨haction, heq⟩, hbag⟩
      · exact ⟨.inl ⟨haction, hs, hd⟩, hbag⟩
      · exact ⟨.inr ⟨haction, hpull haction, hs, hd, heq⟩, hbag⟩

/-- A connection from a local folder to a remote. -/
def plainEdge : BoardEdge × BoardNode × BoardNode :=
  (⟨['e'], ['a'], ['b'], "push".toList⟩, ⟨['a'], [], "/s".toList⟩, ⟨['b'], ['r'], "/d".toList⟩)

def plainOperation (config : Rpc.JsonDict) : FlowOperation :=
  { id := ['o'], flowId := ['f'], sourceRemote := [], sourcePath := "/s".toList
    targetRemote := ['r'], targetPath := "/d".toList, action := "push".toList
    syncConfig := config, isExpanded := false, sortOrder := 0 }

theorem plain_same (config : Rpc.JsonDict) :
    SameConnection plainEdge.1 plainEdge.2.1 plainEdge.2.2 (plainOperation config) :=
  ⟨rfl, rfl, rfl, rfl, rfl⟩

theorem edge_agrees_plain :
    transferArgs [] (.edge plainEdge.1 plainEdge.2.1 plainEdge.2.2 : SyncRequest Nat) =
        transferArgs [] (.operation ['f'] (plainOperation []) : SyncRequest Nat) ∧
      transferArgs [] (.edge plainEdge.1 plainEdge.2.1 plainEdge.2.2 : SyncRequest Nat) ≠
        transferArgs [] (.operation ['f'] (plainOperation [("dry_run".toList, .bool true)]) :
          SyncRequest Nat) := by
  constructor
  · refine (edge_agrees_iff [] ['f'] (plain_same [])).mpr ⟨by decide, by decide, .inl ?_, ?_⟩
    · rw [SameAction, if_neg (by decide), if_pos (by decide)]
      trivial
    · intro o ho
      rw [Reaches, not_not]
      rfl
  · intro h
    have hbag := ((edge_agrees_iff [] ['f'] (plain_same _)).mp h).2.2.2
    refine hbag .dryRun (by decide) (fun heq => ?_)
    cases heq

/-- `dry_run` in the bag of a connection is not read for an edge, which transfers. -/
theorem edge_ignores_dry_run :
    ¬ ∀ (configPath flowId : Text) (e : BoardEdge) (src dst : BoardNode) (op : FlowOperation),
      SameConnection e src dst op →
        transferArgs configPath (.edge e src dst : SyncRequest Nat) =
          transferArgs configPath (.operation flowId op : SyncRequest Nat) := by
  intro h
  let op := plainOperation [("dry_run".toList, .bool true)]
  have hargs := h [] ['f'] _ _ _ _ (plain_same [("dry_run".toList, .bool true)])
  rw [edgeArgs_eq (by decide) (by decide), operationArgs_eq, Option.some.injEq] at hargs
  have hmem : RcloneAction.push ∈ [.push, .bi, .biResync] := List.mem_cons_self
  have hflags := ((commandArgs_eq_iff hmem).mp hargs).2
  have hbag := (flags_eq_iff (parallel_positive op.syncConfig)).mp hflags.symm .dryRun (by decide)
  exact hbag fun heq => by cases heq

end GnDrive.Rclone
