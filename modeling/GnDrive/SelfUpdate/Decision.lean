/-
  GnDrive.SelfUpdate.Decision

  When an update is offered, and when it is made.

  `update.check` and `self-update --check-only` compare the two texts, and so does the
  guard of `update`, for an installed version that is known.  `is_newer` decides none of
  the three: where the texts differ, the offered release takes the place of the installed
  one, older or not (`update_installs`).
-/

import GnDrive.Rpc.Outgoing
import GnDrive.SelfUpdate.Swap

namespace GnDrive.SelfUpdate

open Rpc (Json JsonDict RpcError)
open Rpc.Redact (stderrField)

-- ============================================================================
-- The callers
-- ============================================================================

/-- What a process knows: its version, `GITHUB_TOKEN`, the machine, and the base of the
    API where it is not the usual one. -/
structure Host where
  version : Text
  token : Option Text
  arch : Text
  apiBase : Option Text

def updateOptions (host : Host) (p : JsonDict) (apply : Bool) : Except RpcError UpdateOptions := do
  let base : UpdateOptions := { token := host.token, arch := host.arch }
  let repoOwner ← p.string "repoOwner".toList
  let repoName ← p.string "repo".toList
  let currentVersion ← p.string "currentVersion".toList
  let force ← if apply then (return (← p.bool "force".toList).getD false) else pure false
  return { base with
    repoOwner := repoOwner.getD base.repoOwner
    repoName := repoName.getD base.repoName
    currentVersion := currentVersion.getD host.version
    force
    apiBase := host.apiBase.getD base.apiBase }

/-- `from_update`. -/
def fromUpdate : SelfUpdateError → RpcError
  | .noRelease => .new "no_release" "no release found".toList
  | .alreadyUpToDate => .new "already_up_to_date" "already on the latest version".toList
  | .noMatchingAsset n =>
      .new "no_matching_asset" ("no release asset matches this platform: ".toList ++ n)
  | .missingChecksum n => .new "no_matching_asset" ("missing checksum asset ".toList ++ n)
  | .checksumMismatch =>
      .new "checksum_mismatch" "downloaded archive failed SHA256 verification".toList
  | .http status body =>
      .new "update_failed" ("update HTTP ".toList ++ Rclone.toText status ++ ": ".toList ++
        stderrField body)
  | .extractFailed m => .new "update_failed" ("update extract failed: ".toList ++ m)
  | .io m => .new "internal_error" m

structure UpdateCheck where
  current : Text
  updateAvailable : Bool
  latest : Text
  checkedAt : Text

/-- `update.check`, at the time `now`. -/
def updateCheck (fmt : Formats) (host : Host) (p : JsonDict) (now : Text) :
    ExceptT RpcError Io UpdateCheck := do
  let opts ← ExceptT.mk (pure (updateOptions host p false))
  let (current, latest) ← ExceptT.mk do return (← (check fmt opts).run).mapError fromUpdate
  return { current, updateAvailable := current ≠ latest, latest, checkedAt := now }

structure SelfUpdateArgs where
  repoOwner : Text
  repo : Text
  force : Bool
  checkOnly : Bool

def SelfUpdateArgs.options (a : SelfUpdateArgs) (host : Host) : UpdateOptions :=
  let base : UpdateOptions := { token := host.token, arch := host.arch }
  { base with
    repoOwner := if a.repoOwner ≠ [] then a.repoOwner else base.repoOwner
    repoName := if a.repo ≠ [] then a.repo else base.repoName
    currentVersion := host.version
    force := a.force }

def availableLine : Text := "↑ update available — run 'gn-drive self-update' to apply".toList

def latestLine : Text := "✓ already on latest version".toList

/-- `gn-drive self-update`. -/
def selfUpdate (fmt : Formats) (host : Host) (a : SelfUpdateArgs) : Action Unit := do
  let opts := a.options host
  if a.checkOnly then
    let (cur, latest) ← check fmt opts
    ExceptT.lift (log ("current=".toList ++ cur ++ " latest=".toList ++ latest))
    ExceptT.lift (log (if cur = latest then latestLine else availableLine))
  else
    ExceptT.lift (log ("gn-drive self-update (current=".toList ++ host.version ++ ")".toList))
    match ← ExceptT.lift (update fmt opts).run with
    | .ok res =>
        ExceptT.lift (log ("✓ updated ".toList ++ res.oldVersion ++ " → ".toList ++ res.newVersion))
        ExceptT.lift (log ("  binary: ".toList ++ res.binaryPath))
        if res.restartHint ≠ [] then
          ExceptT.lift (log ("  next:   ".toList ++ res.restartHint))
    | .error .alreadyUpToDate => ExceptT.lift (log latestLine)
    | .error e => throw e

-- ============================================================================
-- The decision
-- ============================================================================

/-- The latest release is the one with the tag. -/
def Offers (fmt : Formats) (env : Env) (opts : UpdateOptions) (w : World) (tag : Text) : Prop :=
  ∃ rel w', Prog.run (exec env) (fetchRelease fmt opts).run w = (.ok rel, w') ∧ rel.tagName = tag

/-- The update has gone through, or has touched a file. -/
def Replaces (w : World) (ran : Except SelfUpdateError UpdateResult × World) : Prop :=
  (∃ r, ran.1 = .ok r) ∨ ran.2.files ≠ w.files

/-- Where the release with the tag is the latest, it is reported as an update, and is
    installed without force, only if it is newer than the installed version. -/
structure OnlyNewer (fmt : Formats) (installed tag : Text) : Prop where
  reported : ∀ env w host p now opts, updateOptions host p false = .ok opts →
    opts.currentVersion = installed → Offers fmt env opts w tag →
    ∀ r w', Prog.run (exec env) (updateCheck fmt host p now).run w = (.ok r, w') →
      r.updateAvailable = true → isNewer (trimV tag) installed = true
  announced : ∀ env w host a, a.checkOnly = true → host.version = installed → w.printed = [] →
    Offers fmt env (a.options host) w tag →
    availableLine ∈ (Prog.run (exec env) (selfUpdate fmt host a).run w).2.printed →
      isNewer (trimV tag) installed = true
  replaced : ∀ env w opts, opts.force = false → opts.currentVersion = installed →
    Offers fmt env opts w tag → Replaces w (Prog.run (exec env) (update fmt opts).run w) →
      isNewer (trimV tag) installed = true

/-- A release with the tag that a machine can install: its archive and the checksum are
    there, and the checksum is that of the archive. -/
structure Installable (fmt : Formats) (tag : Text) where
  arch : Text
  release : GitHubRelease
  asset : GitHubAsset
  sumAsset : GitHubAsset
  body : Bytes
  archive : Bytes
  sums : Bytes
  binary : Bytes
  tagged : release.tagName = tag
  read : fmt.release body = some release
  picked : pickAssets release (trimV tag) arch = .ok (asset, sumAsset)
  verified : verifyDigest fmt archive (readChecksum fmt sums) = .ok ()

section

variable {fmt : Formats} {env : Env} {opts : UpdateOptions} {w w' : World} {installed tag : Text}

-- ============================================================================
-- Fetching the release
-- ============================================================================

theorem run_tryIo {α : Type} (p : Io (Except Text α)) :
    Prog.run (exec env) (tryIo p).run w =
      ((Prog.run (exec env) p w).1.mapError .io, (Prog.run (exec env) p w).2) := by
  show Prog.run (exec env) (p.bind fun r => .pure (r.mapError SelfUpdateError.io)) w = _
  rw [Prog.run_bind]
  rfl

theorem run_fetchRelease :
    Prog.run (exec env) (fetchRelease fmt opts).run w =
      (((env.respond w.tick (releaseUrl opts) (releaseHeaders opts)).mapError .io).bind
        (readRelease fmt), w.tock) := by
  have hget : Prog.run (exec env) (get (releaseUrl opts) (releaseHeaders opts) 60) w =
      (env.respond w.tick (releaseUrl opts) (releaseHeaders opts), w.tock) := rfl
  unfold fetchRelease
  cases hresp : env.respond w.tick (releaseUrl opts) (releaseHeaders opts) with
  | error e =>
    rw [Prog.run_except_error (by rw [run_tryIo, hget, hresp]; rfl)]
    rfl
  | ok resp =>
    rw [Prog.run_except_ok (by rw [run_tryIo, hget, hresp]; rfl)]
    rfl

theorem readRelease_tagged {resp : HttpResponse} {rel : GitHubRelease}
    (h : readRelease fmt resp = .ok rel) : rel.tagName ≠ [] := by
  unfold readRelease at h
  split at h
  · cases h
  split at h
  · cases h
  split at h
  · split at h
    · obtain rfl := Except.ok.inj h
      assumption
    · cases h
  · cases h

/-- A release that is offered has a tag. -/
theorem Offers.tagged (h : Offers fmt env opts w tag) : tag ≠ [] := by
  obtain ⟨rel, w', hrun, rfl⟩ := h
  rw [run_fetchRelease] at hrun
  obtain ⟨hread, -⟩ := Prod.mk.inj hrun
  cases hresp : (env.respond w.tick (releaseUrl opts) (releaseHeaders opts)).mapError
      SelfUpdateError.io with
  | error e =>
    rw [hresp] at hread
    cases hread
  | ok resp =>
    rw [hresp] at hread
    exact readRelease_tagged hread

/-- What is offered, and the world after it was fetched. -/
theorem Offers.run (h : Offers fmt env opts w tag) : ∃ rel, rel.tagName = tag ∧
    Prog.run (exec env) (fetchRelease fmt opts).run w = (.ok rel, w.tock) := by
  obtain ⟨rel, w', hrun, htag⟩ := h
  refine ⟨rel, htag, ?_⟩
  rw [hrun]
  rw [run_fetchRelease] at hrun
  rw [(Prod.mk.inj hrun).2]

theorem Offers.run_check (h : Offers fmt env opts w tag) :
    Prog.run (exec env) (check fmt opts).run w =
      (.ok (opts.currentVersion, trimV tag), w.tock) := by
  obtain ⟨rel, rfl, hrun⟩ := h.run
  unfold check
  rw [Prog.run_except_ok hrun]
  rfl

-- ============================================================================
-- The two texts
-- ============================================================================

theorem run_updateCheck {host : Host} {p : JsonDict} {now : Text}
    (hopts : updateOptions host p false = .ok opts) (h : Offers fmt env opts w tag) :
    Prog.run (exec env) (updateCheck fmt host p now).run w =
      (.ok { current := opts.currentVersion, updateAvailable := opts.currentVersion ≠ trimV tag
             latest := trimV tag, checkedAt := now }, w.tock) := by
  have hcheck : Prog.run (exec env) (ExceptT.mk do
      return (← (check fmt opts).run).mapError fromUpdate :
        ExceptT RpcError Io (Text × Text)).run w =
          (.ok (opts.currentVersion, trimV tag), w.tock) := by
    show Prog.run (exec env) ((check fmt opts).run.bind _) w = _
    rw [Prog.run_bind, h.run_check]
    rfl
  unfold updateCheck
  rw [Prog.run_except_ok (v := w) (a := opts) (by rw [hopts]; rfl), Prog.run_except_ok hcheck]
  rfl

theorem run_checkOnly {host : Host} {a : SelfUpdateArgs} (ha : a.checkOnly = true)
    (h : Offers fmt env (a.options host) w tag) :
    (Prog.run (exec env) (selfUpdate fmt host a).run w).2.printed =
      w.printed ++ ["current=".toList ++ host.version ++ " latest=".toList ++ trimV tag] ++
        [if host.version = trimV tag then latestLine else availableLine] := by
  unfold selfUpdate
  dsimp only
  rw [if_pos ha, Prog.run_except_ok h.run_check]
  rfl

/-- The guard of `update`. -/
theorem update_upToDate (hforce : opts.force = false) (hknown : opts.currentVersion ≠ [])
    (hsame : trimV tag = opts.currentVersion) (h : Offers fmt env opts w tag) :
    Prog.run (exec env) (update fmt opts).run w = (.error .alreadyUpToDate, w.tock) := by
  obtain ⟨rel, rfl, hrun⟩ := h.run
  unfold update
  rw [Prog.run_except_ok hrun]
  dsimp only
  rw [if_pos ⟨hforce, hknown, hsame⟩]
  rfl

-- ============================================================================
-- An update that goes through
-- ============================================================================

theorem pickAssets_tarGz {r : GitHubRelease} {version arch : Text} {bin sum : GitHubAsset}
    (h : pickAssets r version arch = .ok (bin, sum)) : ".tar.gz".toList <:+ bin.name := by
  unfold pickAssets at h
  dsimp only at h
  split at h
  · cases h
  rename_i found hfound
  split at h
  · cases h
  obtain ⟨rfl, -⟩ := Prod.mk.inj (Except.ok.inj h)
  obtain ⟨n, hn, hfind⟩ := List.exists_of_findSome?_eq_some hfound
  have hname : found.name = n := by simpa using List.find?_some hfind
  rw [hname]
  unfold candidateAssetNames at hn
  rcases List.mem_append.mp hn with hn | hn
  · rcases List.mem_cons.mp hn with rfl | hn
    · exact List.suffix_append _ _
    · rw [List.mem_singleton.mp hn]
      exact List.suffix_append _ _
  · split at hn
    · rw [List.mem_singleton.mp hn]
      exact ⟨"gn-drive-".toList ++ version ++ "-macos-x86_64".toList, by simp⟩
    · cases hn

theorem run_lift {ε α : Type} (p : Io α) :
    Prog.run (exec env) (ExceptT.lift p : ExceptT ε Io α).run w =
      (.ok (Prog.run (exec env) p w).1, (Prog.run (exec env) p w).2) := by
  show Prog.run (exec env) (p.bind fun a => .pure (Except.ok a)) w = _
  rw [Prog.run_bind]
  rfl

/-- Where no call fails, the new binary takes the place of the old one. -/
theorem atomicSwap_ok {newBin current : Text} (hfails : ∀ n c, env.fails n c = none)
    (hnew : w.files newBin ≠ none) (hcur : w.files current ≠ none)
    (hne : newBin ≠ staged current) :
    (Prog.run (exec env) (atomicSwap newBin current).run w).1 = .ok () := by
  have hcopies : Copies env newBin current w := by
    refine ⟨?_, hfails _ _⟩
    rw [cleared, removeFile_of_ne hne]
    exact hnew
  have hmoves : MovesOld env newBin current w := ⟨⟨hcopies, hfails _ _⟩, hcur, hfails _ _⟩
  exact hmoves.run_ok (hfails _ _)

def exePath : Text := "/usr/local/bin/gn-drive".toList

def stagePath : Text := "/tmp/gn-drive-update-1".toList

theorem exePath_ne {p : Text} (h : stagePath <+: p) : exePath ≠ p := by
  rintro rfl
  revert h
  decide

namespace Installable

variable (o : Installable fmt tag)

/-- A server with the release, and tools and files that do what they are asked. -/
def serving : Env where
  fails _ _ := none
  written _ := none
  respond n _ _ :=
    .ok { status := 200, body := if n = 0 then o.body else if n = 3 then o.archive else o.sums }
  stage _ _ := stagePath
  tool _ _ _ files :=
    (.ok (some 0), Function.update files (stagePath ++ "/gn-drive".toList)
      (some { data := o.binary, mode := 0o755 }))
  entries _ _ := []
  exe := exePath
  canonical _ _ := none

/-- A machine with a binary to replace. -/
def world : World where
  files p := if p = exePath then some { data := [], mode := 0o755 } else none
  printed := []
  tick := 0

def options (installed : Text) : UpdateOptions :=
  { token := none, arch := o.arch, currentVersion := installed }

theorem fetched (htag : tag ≠ []) :
    Prog.run (exec o.serving) (fetchRelease fmt (o.options installed)).run world =
      (.ok o.release, world.tock) := by
  rw [run_fetchRelease]
  have hread : readRelease fmt { status := 200, body := o.body } = .ok o.release := by
    unfold readRelease
    rw [if_neg (by simp), if_neg (by simp)]
    dsimp only
    rw [o.read]
    dsimp only
    rw [if_pos (by rw [o.tagged]; exact htag)]
  exact congrArg (·, world.tock) hread

theorem extracts (w : World) :
    ∃ w', Prog.run (exec o.serving)
      (extractBinary (stagePath ++ "/".toList ++ o.asset.name) stagePath).run w =
        (.ok (stagePath ++ "/gn-drive".toList), w') ∧
      w'.files = Function.update w.files (stagePath ++ "/gn-drive".toList)
        (some { data := o.binary, mode := 0o755 }) := by
  have htar : Text.endsWith ".tar.gz".toList (stagePath ++ "/".toList ++ o.asset.name) = true :=
    List.isSuffixOf_iff_suffix.mpr ((pickAssets_tarGz o.picked).trans (List.suffix_append _ _))
  unfold extractBinary
  rw [htar]
  refine ⟨_, rfl, rfl⟩

/-- The world when the stage is there. -/
theorem installs (installed v : Text) :
    ∃ r w', Prog.run (exec o.serving)
      (install fmt (o.options installed) v o.asset o.sumAsset stagePath).run world.tock.tock =
        (.ok r, w') ∧ r.newVersion = v := by
  unfold install
  dsimp only
  rw [Prog.run_except_ok (a := ()) (by rfl), Prog.run_except_ok (a := o.archive) (by rfl),
    Prog.run_except_ok (a := ()) (by rfl),
    Prog.run_except_ok (a := readChecksum fmt o.sums) (by rfl),
    Prog.run_except_ok (a := ()) (by rw [o.verified]; rfl)]
  generalize hw : (exec o.serving _ _).2 = w
  have hfails : ∀ n c, o.serving.fails n c = none := fun _ _ => rfl
  have hexe : w.files exePath = some { data := [], mode := 0o755 } := by
    rw [← hw]
    show Function.update world.files (stagePath ++ "/".toList ++ o.asset.name)
      (some { data := o.archive, mode := 0o644 }) exePath = _
    rw [List.append_assoc, Function.update_of_ne (exePath_ne (List.prefix_append _ _))]
    rfl
  obtain ⟨w', hextract, hfiles⟩ := o.extracts w
  rw [Prog.run_except_ok hextract]
  dsimp only [options]
  rw [Prog.run_except_ok (a := exePath) (by rfl), Prog.run_except_ok (a := none) (by rfl)]
  generalize hw₁ : (exec o.serving (.canonicalize exePath) (exec o.serving .currentExe w').2).2 = w₁
  have hfiles₁ : w₁.files = w'.files := by
    rw [← hw₁]
    rfl
  have hapart : exePath ≠ stagePath ++ "/gn-drive".toList := exePath_ne (List.prefix_append _ _)
  have hstaged : stagePath ++ "/gn-drive".toList ≠ staged exePath := by decide
  generalize stagePath ++ "/gn-drive".toList = binary at hfiles hapart hstaged ⊢
  have hnew : w₁.files binary = some { data := o.binary, mode := 0o755 } := by
    rw [hfiles₁, hfiles, Function.update_self]
  have hold : w₁.files exePath = some { data := [], mode := 0o755 } := by
    rw [hfiles₁, hfiles, Function.update_of_ne hapart, hexe]
  have hmode : Prog.run (exec o.serving) (setMode binary 0o755) w₁ = _ :=
    exec_setMode_ok o.serving hnew (hfails _ _)
  rw [Prog.run_except_ok (x := tryIo (setMode binary 0o755))
    (by rw [run_tryIo, hmode]; rfl)]
  dsimp only [Option.getD_none]
  generalize hw₂ : (w₁.setFile binary (some { data := o.binary, mode := 0o755 })).tock = w₂
  have hnew₂ : w₂.files binary = some { data := o.binary, mode := 0o755 } := by
    rw [← hw₂, World.files_tock, World.files_setFile_self]
  have hold₂ : w₂.files exePath = some { data := [], mode := 0o755 } := by
    rw [← hw₂, World.files_tock, World.files_setFile_of_ne _ _ hapart, hold]
  have hswap := atomicSwap_ok hfails (by rw [hnew₂]; simp) (by rw [hold₂]; simp) hstaged
  rw [Prog.run_except_ok (x := tryIo (atomicSwap binary exePath).run)
    (by rw [run_tryIo, hswap]; rfl)]
  exact ⟨_, _, rfl, rfl⟩

/-- The guard lets every offer through that differs from a version that is known. -/
theorem updates (installed : Text) (htag : tag ≠ []) (hguard : ¬ (installed ≠ [] ∧ trimV tag = installed)) :
    ∃ r w', Prog.run (exec o.serving) (update fmt (o.options installed)).run world = (.ok r, w') ∧
      r.newVersion = trimV tag := by
  have hfetch : Prog.run (exec o.serving) (fetchRelease fmt (o.options installed)).run world =
      (.ok o.release, world.tock) := o.fetched htag
  obtain ⟨r, w', hinstall, hr⟩ := o.installs installed (trimV tag)
  unfold update
  rw [Prog.run_except_ok hfetch]
  dsimp only
  rw [o.tagged, if_neg fun h => hguard ⟨h.2.1, h.2.2⟩]
  rw [Prog.run_except_ok
    (x := ExceptT.mk (pure (pickAssets o.release (trimV tag) (o.options installed).arch)))
    (congrArg (·, world.tock) o.picked)]
  rw [Prog.run_except_ok (a := stagePath) (v := world.tock.tock) (by rfl)]
  dsimp only
  rw [Prog.run_except_ok (by rw [run_lift, hinstall]), Prog.run_except_ok (by rw [run_lift])]
  exact ⟨r, _, rfl, hr⟩

end Installable

end

-- ============================================================================
-- The exact condition
-- ============================================================================

theorem availableLine_ne {line : Text} (h : line.head? ≠ some '↑') : availableLine ≠ line := by
  rintro rfl
  exact h rfl

/-- `is_newer` is a strict order; an update is made only to a newer version exactly where
    the offered version is newer, or is the text of the installed version, which is
    known. -/
theorem update_decision_iff (fmt : Formats) (installed tag : Text) (o : Installable fmt tag) :
    (IsStrictOrder Text (fun a b => isNewer a b = true) ∧
      ∀ a b, isNewer a b = true → isNewer b a = false) ∧
    (OnlyNewer fmt installed tag ↔
      tag = [] ∨ isNewer (trimV tag) installed = true ∨
        installed ≠ [] ∧ trimV tag = installed) := by
  refine ⟨⟨isNewer_strictOrder, fun _ _ => isNewer_asymm⟩, ?_, ?_⟩
  · intro h
    by_contra hnot
    simp only [not_or] at hnot
    obtain ⟨htag, hold, hguard⟩ := hnot
    obtain ⟨r, w', hrun, -⟩ := o.updates installed htag hguard
    have hoffer : Offers fmt o.serving (o.options installed) Installable.world tag :=
      ⟨o.release, Installable.world.tock, o.fetched htag, o.tagged⟩
    exact hold (h.replaced _ _ _ rfl rfl hoffer (.inl ⟨r, by rw [hrun]⟩))
  · rintro (rfl | hnewer | ⟨hknown, hsame⟩)
    · exact ⟨fun _ _ _ _ _ _ _ _ hoffer => absurd rfl hoffer.tagged,
        fun _ _ _ _ _ _ _ hoffer => absurd rfl hoffer.tagged,
        fun _ _ _ _ _ hoffer => absurd rfl hoffer.tagged⟩
    · exact ⟨fun _ _ _ _ _ _ _ _ _ _ _ _ _ => hnewer, fun _ _ _ _ _ _ _ _ _ => hnewer,
        fun _ _ _ _ _ _ _ => hnewer⟩
    · refine ⟨?_, ?_, ?_⟩
      · intro env w host p now opts hopts hcurrent hoffer r w' hrun havailable
        rw [run_updateCheck hopts hoffer] at hrun
        obtain ⟨hr, -⟩ := Prod.mk.inj hrun
        obtain rfl := Except.ok.inj hr
        simp [hcurrent, hsame] at havailable
      · intro env w host a ha hversion hprinted hoffer hline
        rw [run_checkOnly ha hoffer, hprinted, if_pos (hversion.trans hsame.symm)] at hline
        rcases List.mem_append.mp hline with hline | hline
        · exact absurd (List.mem_singleton.mp hline) (availableLine_ne (by simp))
        · exact absurd (List.mem_singleton.mp hline) (by decide)
      · intro env w opts hforce hcurrent hoffer hreplaces
        rw [update_upToDate hforce (by rwa [hcurrent]) (by rwa [hcurrent]) hoffer] at hreplaces
        rcases hreplaces with ⟨r, hr⟩ | hfiles
        · cases hr
        · exact absurd rfl hfiles

-- ============================================================================
-- An older release
-- ============================================================================

namespace Sample

def ascii (s : String) : Bytes := s.toList.map fun c => UInt8.ofNat c.toNat

def archiveName : Text := "gn-drive-darwin-arm64.tar.gz".toList

def sumName : Text := "gn-drive-darwin-arm64.tar.gz.sha256".toList

def release : GitHubRelease where
  tagName := "v1.0.0".toList
  assets := [
    { name := archiveName, browserDownloadUrl := "https://dl.test/gn-drive".toList },
    { name := sumName, browserDownloadUrl := "https://dl.test/gn-drive.sha256".toList }]

/-- The JSON text of the release. -/
def releaseBody : Bytes :=
  ascii ("\x7b\"tag_name\":\"v1.0.0\",\"assets\":[" ++
    "\x7b\"name\":\"gn-drive-darwin-arm64.tar.gz\"," ++
    "\"browser_download_url\":\"https://dl.test/gn-drive\"\x7d," ++
    "\x7b\"name\":\"gn-drive-darwin-arm64.tar.gz.sha256\"," ++
    "\"browser_download_url\":\"https://dl.test/gn-drive.sha256\"\x7d]\x7d")

/-- A `.tar.gz` with the file `gn-drive`, which holds the line `NEW`. -/
def archive : Bytes :=
  [31, 139, 8, 0, 0, 0, 0, 0, 2, 255, 75, 207, 211, 77, 41, 202, 44, 75, 101, 160, 33, 48, 0, 2,
    115, 83, 83, 48, 13, 4, 232, 52, 16, 152, 32, 177, 65, 226, 230, 38, 64, 74, 193, 128, 129, 14,
    160, 180, 184, 36, 177, 8, 104, 37, 195, 200, 4, 126, 174, 225, 92, 12, 163, 96, 20, 140, 130,
    81, 48, 10, 70, 28, 0, 0, 120, 14, 62, 197, 0, 8, 0, 0]

def archiveDigest : Bytes :=
  [197, 6, 182, 170, 149, 236, 25, 77, 207, 210, 156, 134, 169, 154, 97, 78, 207, 79, 203, 209,
    233, 138, 37, 204, 174, 238, 244, 159, 30, 80, 157, 21]

def sums : Bytes :=
  ascii ("c506b6aa95ec194dcfd29c86a99a614ecf4fcbd1e98a25ccaeeef49f1e509d15  " ++
    "gn-drive-darwin-arm64.tar.gz\n")

/-- The readers on the release, the checksum and the archive. -/
def formats : Formats where
  release b := if b = releaseBody then some release else none
  lossy b := b.map fun x => Char.ofNat x.toNat
  sha256 b := if b = archive then archiveDigest else []

theorem read : formats.release releaseBody = some release := by
  unfold formats
  dsimp only
  rw [if_pos rfl]

theorem verified : verifyDigest formats archive (readChecksum formats sums) = .ok () := by
  unfold verifyDigest
  rw [if_pos (by decide +kernel)]

def offer : Installable formats "v1.0.0".toList where
  arch := "arm64".toList
  release := release
  asset := { name := archiveName, browserDownloadUrl := "https://dl.test/gn-drive".toList }
  sumAsset := { name := sumName, browserDownloadUrl := "https://dl.test/gn-drive.sha256".toList }
  body := releaseBody
  archive := archive
  sums := sums
  binary := ascii "NEW\n"
  tagged := rfl
  read := read
  picked := rfl
  verified := verified

end Sample

/-- An update from 0.9.0 is made to a newer version only. -/
theorem update_decision_newer : OnlyNewer Sample.formats "0.9.0".toList "v1.0.0".toList :=
  (update_decision_iff Sample.formats "0.9.0".toList "v1.0.0".toList Sample.offer).2.mpr
    (.inr (.inl (by decide)))

/-- 1.0.0 takes the place of 1.1.0. -/
theorem older_release_installed :
    ¬ (∀ (fmt : Formats) (installed tag : Text), OnlyNewer fmt installed tag) ∧
      isNewer "1.0.0".toList "1.1.0".toList = false ∧
      ∃ env w w' opts r, opts.force = false ∧ opts.currentVersion = "1.1.0".toList ∧
        Prog.run (exec env) (update Sample.formats opts).run w = (.ok r, w') ∧
        r.newVersion = "1.0.0".toList := by
  have hold : isNewer "1.0.0".toList "1.1.0".toList = false := by decide
  obtain ⟨r, w', hrun, hr⟩ :=
    Sample.offer.updates "1.1.0".toList (by decide) (by decide)
  refine ⟨fun h => ?_, hold, _, _, w', _, r, rfl, rfl, hrun, hr⟩
  have hoffer : Offers Sample.formats Sample.offer.serving (Sample.offer.options "1.1.0".toList)
      Installable.world "v1.0.0".toList :=
    ⟨_, _, Sample.offer.fetched (by decide), rfl⟩
  have hnewer := (h Sample.formats "1.1.0".toList "v1.0.0".toList).replaced _ _ _ rfl rfl hoffer
    (.inl ⟨r, by rw [hrun]⟩)
  rw [show trimV "v1.0.0".toList = "1.0.0".toList from rfl, hold] at hnewer
  cases hnewer

end GnDrive.SelfUpdate
