/-
  GnDrive.Rclone.Options

  From a profile to the arguments of rclone.

  An option is translated three times: the bag of a flow operation becomes a
  profile (`profile_from_sync_config`), a profile a set of flags
  (`profile_flags`), and the flags a list of arguments (`profile_to_flags`).
  The arguments are the options' segments one after another, so an option
  changes them exactly when it changes its own segment: `option_reaches_args`
  says for two profiles that differ in one option when this is so.

  A 64-bit float is a value of a type with the few operations the options need,
  `F64`.
-/

import GnDrive.Rpc.Params
import Mathlib.Data.Nat.Digits.Defs

namespace GnDrive.Rclone

open Rpc (Json JsonDict Number)
open Text (trim toLowercase)

-- ============================================================================
-- Numbers as texts
-- ============================================================================

/-- 64-bit floats.  `debug` is the shortest text that is read back as the same
    value, so that different values have different texts. -/
class F64 (F : Type) where
  zero : F
  positive : F → Bool
  debug : F → Text
  parse : Text → Option F
  ofNumber : Number → F
  zero_not_positive : positive zero = false
  debug_injective : Function.Injective debug

/-- `i64::to_string`. -/
def toText (n : Int) : Text :=
  let digits := if n = 0 then ['0'] else ((Nat.digits 10 n.natAbs).map Nat.digitChar).reverse
  if n < 0 then '-' :: digits else digits

def digitValue (c : Char) : Nat := c.toNat - '0'.toNat

theorem digitValue_digitChar : ∀ d < 10, digitValue (Nat.digitChar d) = d := by decide

/-- The digits of a natural number's text. -/
theorem digits_toText (n : Nat) :
    Nat.ofDigits 10 ((toText n).reverse.map digitValue) = n := by
  have hneg : ¬ (n : Int) < 0 := by omega
  by_cases h0 : n = 0
  · subst h0
    decide
  · have hvalues : ((Nat.digits 10 n).map Nat.digitChar).map digitValue = Nat.digits 10 n := by
      rw [List.map_map]
      conv_rhs => rw [← List.map_id (Nat.digits 10 n)]
      refine List.map_congr_left fun d hd => ?_
      exact digitValue_digitChar d (Nat.digits_lt_base (by decide) hd)
    simp only [toText, Int.natCast_eq_zero, h0, if_false, hneg, Int.natAbs_natCast,
      List.reverse_reverse]
    rw [hvalues, Nat.ofDigits_digits]

theorem toText_inj {n m : Int} (hn : 0 ≤ n) (hm : 0 ≤ m) (h : toText n = toText m) : n = m := by
  obtain ⟨n, rfl⟩ := Int.eq_ofNat_of_zero_le hn
  obtain ⟨m, rfl⟩ := Int.eq_ofNat_of_zero_le hm
  have hvalue := digits_toText n
  rw [h, digits_toText m] at hvalue
  rw [hvalue]

-- ============================================================================
-- Profiles
-- ============================================================================

structure Profile (F : Type) where
  name : Text := []
  fromPath : Text := []
  toPath : Text := []
  /-- push | bi | bi-resync -/
  direction : Text := []
  includedPaths : List Text := []
  excludedPaths : List Text := []
  bandwidth : Int := 0
  parallel : Int := 0
  backupPath : Text := []
  cachePath : Text := []
  minSize : Text := []
  maxSize : Text := []
  filterFromFile : Text := []
  excludeIfPresent : Text := []
  useRegex : Bool := false
  maxAge : Text := []
  minAge : Text := []
  maxDepth : Option Int := none
  deleteExcluded : Bool := false
  maxDelete : Option Int := none
  immutable : Bool := false
  conflictResolution : Text := []
  dryRun : Bool := false
  maxTransfer : Text := []
  maxDeleteSize : Text := []
  suffix : Text := []
  suffixKeepExtension : Bool := false
  multiThreadStreams : Option Int := none
  bufferSize : Text := []
  retries : Option Int := none
  lowLevelRetries : Option Int := none
  maxDuration : Text := []
  checkFirst : Bool := false
  orderBy : Text := []
  retriesSleep : Text := []
  tpsLimit : Option F := none
  connTimeout : Text := []
  ioTimeout : Text := []
  sizeOnly : Bool := false
  updateMode : Bool := false
  ignoreExisting : Bool := false
  deleteTiming : Text := []
  resilient : Bool := false
  maxLock : Text := []
  checkAccess : Bool := false
  conflictLoser : Text := []
  conflictSuffix : Text := []
  fastList : Bool := false

structure ProfileFlags (F : Type) [F64 F] where
  bandwidth : Text := []
  transfers : Int := 0
  checkers : Int := 0
  tpsLimit : F := F64.zero
  minAge : Text := []
  maxAge : Text := []
  minSize : Text := []
  maxSize : Text := []
  excludeIfPresent : Text := []
  maxDelete : Int := 0
  dryRun : Bool := false
  noUnicodeNormalize : Bool := false
  includes : List Text := []
  excludes : List Text := []
  multiThreadStreams : Int := 0
  bufferSize : Text := []
  retries : Int := 0
  lowLevelRetries : Int := 0
  maxDuration : Text := []
  retriesSleep : Text := []
  connTimeout : Text := []
  ioTimeout : Text := []
  orderBy : Text := []
  checkFirst : Bool := false
  immutable : Bool := false
  maxTransfer : Text := []
  maxDeleteSize : Text := []
  suffix : Text := []
  suffixKeepExtension : Bool := false
  backupDir : Text := []
  sizeOnly : Bool := false
  updateMode : Bool := false
  ignoreExisting : Bool := false
  deleteExcluded : Bool := false
  maxDepth : Int := 0
  /-- before|during|after -/
  deleteTiming : Text := []
  conflictResolve : Text := []
  conflictLoser : Text := []
  conflictSuffix : Text := []
  resilient : Bool := false
  maxLock : Text := []
  checkAccess : Bool := false

-- ============================================================================
-- The options of a flow operation
-- ============================================================================

/-- Swift `.whitespaces` trimming: blanks, but not line ends. -/
def isBlank (c : Char) : Bool := c = '\t' || (Text.isWhitespace c && c ≠ '\n' && c ≠ '\r')

def trimWs (s : Text) : Text := (s.dropWhile isBlank).rdropWhile isBlank

def boolV (m : JsonDict) (keys : List Text) : Option Bool :=
  keys.findSome? fun k =>
    match m.get k with
    | some (.bool b) => some b
    | _ => none

/-- `f as i64` for the value of a float. -/
def truncate (q : Rat) : Int := Rpc.saturate (if 0 ≤ q then ⌊q⌋ else ⌈q⌉)

def intV (m : JsonDict) (keys : List Text) : Option Int :=
  keys.findSome? fun k =>
    match m.get k with
    | some (.number (.int n)) => some (Rpc.saturate n)
    | some (.number (.float q)) => some (truncate q)
    | some (.string s) => Rpc.parseI64 (trimWs s)
    | _ => none

def doubleV {F : Type} [F64 F] (m : JsonDict) (keys : List Text) : Option F :=
  keys.findSome? fun k =>
    match m.get k with
    | some (.number n) => some (F64.ofNumber n)
    | some (.string s) => F64.parse (trimWs s)
    | _ => none

def stringV (m : JsonDict) (keys : List Text) : Option Text :=
  keys.findSome? fun k =>
    match m.get k with
    | some (.string s) => if trimWs s ≠ [] then some (trimWs s) else none
    | _ => none

def stringsV (m : JsonDict) (keys : List Text) : Option (List Text) :=
  keys.findSome? fun k =>
    match m.get k with
    | some (.array a) =>
        some ((a.filterMap fun v =>
          match v with
          | .string s => some (trimWs s)
          | _ => none).filter (· ≠ []))
    | _ => none

/-- A key in snake case and in camel case. -/
def keys (snake camel : String) : List Text := [snake.toList, camel.toList]

def positiveInt (n : Int) : Bool := 0 < n

/-- The bag of a flow operation as the carrier of the flags. -/
def profileFromSyncConfig {F : Type} [F64 F] (m : JsonDict) : Profile F where
  dryRun := (boolV m (keys "dry_run" "dryRun")).getD false
  parallel := ((intV m ["parallel".toList]).filter positiveInt).getD 4
  bandwidth := ((intV m ["bandwidth".toList]).filter positiveInt).getD 0
  multiThreadStreams :=
    (intV m (keys "multi_thread_streams" "multiThreadStreams")).filter positiveInt
  bufferSize := (stringV m (keys "buffer_size" "bufferSize")).getD []
  retries := (intV m ["retries".toList]).filter positiveInt
  lowLevelRetries := (intV m (keys "low_level_retries" "lowLevelRetries")).filter positiveInt
  maxDuration := (stringV m (keys "max_duration" "maxDuration")).getD []
  checkFirst := (boolV m (keys "check_first" "checkFirst")).getD false
  orderBy := (stringV m (keys "order_by" "orderBy")).getD []
  retriesSleep := (stringV m (keys "retries_sleep" "retriesSleep")).getD []
  tpsLimit := (doubleV m (keys "tps_limit" "tpsLimit")).filter F64.positive
  connTimeout := (stringV m (keys "conn_timeout" "connTimeout")).getD []
  ioTimeout := (stringV m (keys "io_timeout" "ioTimeout")).getD []
  includedPaths := (stringsV m (keys "included_paths" "includedPaths")).getD []
  excludedPaths := (stringsV m (keys "excluded_paths" "excludedPaths")).getD []
  minSize := (stringV m (keys "min_size" "minSize")).getD []
  maxSize := (stringV m (keys "max_size" "maxSize")).getD []
  maxAge := (stringV m (keys "max_age" "maxAge")).getD []
  minAge := (stringV m (keys "min_age" "minAge")).getD []
  maxDepth := (intV m (keys "max_depth" "maxDepth")).filter positiveInt
  filterFromFile := (stringV m (keys "filter_from_file" "filterFromFile")).getD []
  excludeIfPresent := (stringV m (keys "exclude_if_present" "excludeIfPresent")).getD []
  useRegex := (boolV m (keys "use_regex" "useRegex")).getD false
  deleteExcluded := (boolV m (keys "delete_excluded" "deleteExcluded")).getD false
  maxDelete := (intV m (keys "max_delete" "maxDelete")).filter positiveInt
  immutable := (boolV m ["immutable".toList]).getD false
  maxTransfer := (stringV m (keys "max_transfer" "maxTransfer")).getD []
  maxDeleteSize := (stringV m (keys "max_delete_size" "maxDeleteSize")).getD []
  suffix := (stringV m ["suffix".toList]).getD []
  suffixKeepExtension := (boolV m (keys "suffix_keep_extension" "suffixKeepExtension")).getD false
  backupPath := (stringV m (keys "backup_path" "backupPath")).getD []
  sizeOnly := (boolV m (keys "size_only" "sizeOnly")).getD false
  updateMode := (boolV m (keys "update_mode" "updateMode")).getD false
  ignoreExisting := (boolV m (keys "ignore_existing" "ignoreExisting")).getD false
  deleteTiming := (stringV m (keys "delete_timing" "deleteTiming")).getD []
  conflictResolution := (stringV m (keys "conflict_resolution" "conflictResolution")).getD []
  resilient := (boolV m ["resilient".toList]).getD false
  maxLock := (stringV m (keys "max_lock" "maxLock")).getD []
  checkAccess := (boolV m (keys "check_access" "checkAccess")).getD false
  conflictLoser := (stringV m (keys "conflict_loser" "conflictLoser")).getD []
  conflictSuffix := (stringV m (keys "conflict_suffix" "conflictSuffix")).getD []

-- ============================================================================
-- Flags and arguments
-- ============================================================================

inductive RcloneAction where
  | pull
  | push
  | bi
  | biResync
  | copy
  | move
  | check
  | dryRun
deriving DecidableEq, Repr

def RcloneAction.parse (s : Text) : Option RcloneAction :=
  if s = "pull".toList then some .pull
  else if s = "push".toList then some .push
  else if s = "bi".toList then some .bi
  else if s = "bi-resync".toList then some .biResync
  else if s = "copy".toList then some .copy
  else if s = "move".toList then some .move
  else if s = "check".toList then some .check
  else if s = "dry-run".toList then some .dryRun
  else none

section

variable {F : Type} [F64 F]

/-- The value of a number that is set and positive, and `0` otherwise. -/
def positiveOr0 (n : Option Int) : Int := (n.filter positiveInt).getD 0

def profileFlags (p : Profile F) : ProfileFlags F where
  transfers := p.parallel
  dryRun := p.dryRun
  maxAge := p.maxAge
  minAge := p.minAge
  maxSize := p.maxSize
  minSize := p.minSize
  excludeIfPresent := p.excludeIfPresent
  includes := p.includedPaths
  excludes := p.excludedPaths
  bufferSize := p.bufferSize
  maxDuration := p.maxDuration
  retriesSleep := p.retriesSleep
  connTimeout := p.connTimeout
  ioTimeout := p.ioTimeout
  orderBy := p.orderBy
  checkFirst := p.checkFirst
  immutable := p.immutable
  maxTransfer := p.maxTransfer
  maxDeleteSize := p.maxDeleteSize
  suffix := p.suffix
  suffixKeepExtension := p.suffixKeepExtension
  backupDir := p.backupPath
  sizeOnly := p.sizeOnly
  updateMode := p.updateMode
  ignoreExisting := p.ignoreExisting
  deleteExcluded := p.deleteExcluded
  deleteTiming := p.deleteTiming
  conflictResolve := p.conflictResolution
  conflictLoser := p.conflictLoser
  conflictSuffix := p.conflictSuffix
  resilient := p.resilient
  maxLock := p.maxLock
  checkAccess := p.checkAccess
  bandwidth := if 0 < p.bandwidth then toText p.bandwidth ++ ['M'] else []
  tpsLimit := (p.tpsLimit.filter F64.positive).getD F64.zero
  multiThreadStreams := positiveOr0 p.multiThreadStreams
  retries := positiveOr0 p.retries
  lowLevelRetries := positiveOr0 p.lowLevelRetries
  maxDelete := positiveOr0 p.maxDelete
  maxDepth := positiveOr0 p.maxDepth

/-- A flag with a value. -/
def kv (flag : String) (val : Text) : List Text := [flag.toList, val]

def textFlag (flag : String) (s : Text) : List Text := if s ≠ [] then kv flag s else []

def intFlag (flag : String) (n : Int) : List Text := if 0 < n then kv flag (toText n) else []

def floatFlag (flag : String) (x : F) : List Text :=
  if F64.positive x then kv flag (F64.debug x) else []

def boolFlag (flag : String) (b : Bool) : List Text := if b then [flag.toList] else []

/-- The paths of a list that are given as flags. -/
def cleaned (paths : List Text) : List Text := (paths.map trim).filter (· ≠ [])

def pathFlags (flag : String) (paths : List Text) : List Text := (cleaned paths).flatMap (kv flag)

def timingFlag (timing : Text) : List Text :=
  let t := toLowercase (trim timing)
  if t = "before".toList then ["--delete-before".toList]
  else if t = "after".toList then ["--delete-after".toList]
  else if t = "during".toList then ["--delete-during".toList]
  else []

def profileToFlags (p : ProfileFlags F) : List Text :=
  [textFlag "--bwlimit" p.bandwidth, intFlag "--transfers" p.transfers,
    intFlag "--checkers" p.checkers, floatFlag "--tpslimit" p.tpsLimit,
    textFlag "--min-age" p.minAge, textFlag "--max-age" p.maxAge,
    textFlag "--min-size" p.minSize, textFlag "--max-size" p.maxSize,
    textFlag "--exclude-if-present" p.excludeIfPresent, intFlag "--max-delete" p.maxDelete,
    boolFlag "--dry-run" p.dryRun, boolFlag "--no-unicode-normalization" p.noUnicodeNormalize,
    pathFlags "--include" p.includes, pathFlags "--exclude" p.excludes,
    intFlag "--multi-thread-streams" p.multiThreadStreams, textFlag "--buffer-size" p.bufferSize,
    intFlag "--retries" p.retries, intFlag "--low-level-retries" p.lowLevelRetries,
    textFlag "--max-duration" p.maxDuration, textFlag "--retries-sleep" p.retriesSleep,
    textFlag "--contimeout" p.connTimeout, textFlag "--timeout" p.ioTimeout,
    textFlag "--order-by" p.orderBy, boolFlag "--check-first" p.checkFirst,
    boolFlag "--immutable" p.immutable, textFlag "--max-transfer" p.maxTransfer,
    textFlag "--max-delete-size" p.maxDeleteSize, textFlag "--suffix" p.suffix,
    boolFlag "--suffix-keep-extension" p.suffixKeepExtension, textFlag "--backup-dir" p.backupDir,
    boolFlag "--size-only" p.sizeOnly, boolFlag "--update" p.updateMode,
    boolFlag "--ignore-existing" p.ignoreExisting, boolFlag "--delete-excluded" p.deleteExcluded,
    intFlag "--max-depth" p.maxDepth, timingFlag p.deleteTiming,
    textFlag "--conflict-resolve" p.conflictResolve, textFlag "--conflict-loser" p.conflictLoser,
    textFlag "--conflict-suffix" p.conflictSuffix, boolFlag "--resilient" p.resilient,
    textFlag "--max-lock" p.maxLock, boolFlag "--check-access" p.checkAccess].flatten

/-- What a sync is run with, as far as the engines set it. -/
structure SyncConfig (F : Type) [F64 F] where
  action : RcloneAction
  source : Text
  dest : Text
  profile : Option (ProfileFlags F)

def actionArgs (src dst : Text) : RcloneAction → List Text
  | .pull => ["sync".toList, dst, src, "--update".toList]
  | .push => ["sync".toList, src, dst, "--update".toList]
  | .bi => ["bisync".toList, src, dst]
  | .biResync => ["bisync".toList, src, dst, "--resync".toList, "--force".toList]
  | .copy => ["copy".toList, src, dst]
  | .move => ["move".toList, src, dst]
  | .check => ["check".toList, src, dst]
  | .dryRun => ["sync".toList, src, dst, "--dry-run".toList, "--update".toList]

/-- The whole argument list; the engines leave the remotes and paths of a
    configuration empty, so that there is none without a source and a
    destination. -/
def buildArgs (configPath : Text) (cfg : SyncConfig F) : Option (List Text) :=
  if cfg.source = [] ∨ cfg.dest = [] then none
  else some (actionArgs cfg.source cfg.dest cfg.action ++
    ["--config".toList, configPath, "--stats".toList, "1s".toList, "--use-json-log".toList,
      "-v".toList] ++
    (cfg.profile.map profileToFlags).getD [])

/-- The configuration that `run_sync` makes of a profile. -/
def runConfig (action : Text) (p : Profile F) : SyncConfig F where
  action := (RcloneAction.parse action).getD .push
  source := p.fromPath
  dest := p.toPath
  profile := some (profileFlags p)

/-- The arguments of the command that `run_sync` runs. -/
def syncArgs (configPath action : Text) (p : Profile F) : Option (List Text) :=
  buildArgs configPath (runConfig action p)

end

-- ============================================================================
-- Options one by one
-- ============================================================================

inductive SyncOption where
  | includedPaths | excludedPaths | bandwidth | parallel | backupPath | cachePath | minSize
  | maxSize | filterFromFile | excludeIfPresent | useRegex | maxAge | minAge | maxDepth
  | deleteExcluded | maxDelete | immutable | conflictResolution | dryRun | maxTransfer
  | maxDeleteSize | suffix | suffixKeepExtension | multiThreadStreams | bufferSize | retries
  | lowLevelRetries | maxDuration | checkFirst | orderBy | retriesSleep | tpsLimit | connTimeout
  | ioTimeout | sizeOnly | updateMode | ignoreExisting | deleteTiming | resilient | maxLock
  | checkAccess | conflictLoser | conflictSuffix | fastList
deriving DecidableEq

/-- The value of an option. -/
inductive OptionValue (F : Type) where
  | flag (b : Bool)
  | text (s : Text)
  | texts (l : List Text)
  | int (n : Int)
  | optInt (n : Option Int)
  | optFloat (x : Option F)

section

variable {F : Type}

def Profile.option (p : Profile F) : SyncOption → OptionValue F
  | .includedPaths => .texts p.includedPaths
  | .excludedPaths => .texts p.excludedPaths
  | .bandwidth => .int p.bandwidth
  | .parallel => .int p.parallel
  | .backupPath => .text p.backupPath
  | .cachePath => .text p.cachePath
  | .minSize => .text p.minSize
  | .maxSize => .text p.maxSize
  | .filterFromFile => .text p.filterFromFile
  | .excludeIfPresent => .text p.excludeIfPresent
  | .useRegex => .flag p.useRegex
  | .maxAge => .text p.maxAge
  | .minAge => .text p.minAge
  | .maxDepth => .optInt p.maxDepth
  | .deleteExcluded => .flag p.deleteExcluded
  | .maxDelete => .optInt p.maxDelete
  | .immutable => .flag p.immutable
  | .conflictResolution => .text p.conflictResolution
  | .dryRun => .flag p.dryRun
  | .maxTransfer => .text p.maxTransfer
  | .maxDeleteSize => .text p.maxDeleteSize
  | .suffix => .text p.suffix
  | .suffixKeepExtension => .flag p.suffixKeepExtension
  | .multiThreadStreams => .optInt p.multiThreadStreams
  | .bufferSize => .text p.bufferSize
  | .retries => .optInt p.retries
  | .lowLevelRetries => .optInt p.lowLevelRetries
  | .maxDuration => .text p.maxDuration
  | .checkFirst => .flag p.checkFirst
  | .orderBy => .text p.orderBy
  | .retriesSleep => .text p.retriesSleep
  | .tpsLimit => .optFloat p.tpsLimit
  | .connTimeout => .text p.connTimeout
  | .ioTimeout => .text p.ioTimeout
  | .sizeOnly => .flag p.sizeOnly
  | .updateMode => .flag p.updateMode
  | .ignoreExisting => .flag p.ignoreExisting
  | .deleteTiming => .text p.deleteTiming
  | .resilient => .flag p.resilient
  | .maxLock => .text p.maxLock
  | .checkAccess => .flag p.checkAccess
  | .conflictLoser => .text p.conflictLoser
  | .conflictSuffix => .text p.conflictSuffix
  | .fastList => .flag p.fastList

/-- Two profiles that differ in one option; their names, paths and directions
    are not options. -/
structure DifferIn (o : SyncOption) (p q : Profile F) : Prop where
  differs : p.option o ≠ q.option o
  others : ∀ o', o' ≠ o → p.option o' = q.option o'

/-- How an option is turned into arguments. -/
inductive Translation where
  | none
  | flag (flag : String)
  | text (flag : String)
  | int (flag : String)
  | megabytes (flag : String)
  | optInt (flag : String)
  | optFloat (flag : String)
  | paths (flag : String)
  | timing

def SyncOption.translation : SyncOption → Translation
  | .parallel => .int "--transfers"
  | .backupPath => .text "--backup-dir"
  | .minSize => .text "--min-size"
  | .maxSize => .text "--max-size"
  | .excludeIfPresent => .text "--exclude-if-present"
  | .maxAge => .text "--max-age"
  | .minAge => .text "--min-age"
  | .maxDepth => .optInt "--max-depth"
  | .deleteExcluded => .flag "--delete-excluded"
  | .maxDelete => .optInt "--max-delete"
  | .immutable => .flag "--immutable"
  | .conflictResolution => .text "--conflict-resolve"
  | .dryRun => .flag "--dry-run"
  | .maxTransfer => .text "--max-transfer"
  | .maxDeleteSize => .text "--max-delete-size"
  | .suffix => .text "--suffix"
  | .suffixKeepExtension => .flag "--suffix-keep-extension"
  | .multiThreadStreams => .optInt "--multi-thread-streams"
  | .bufferSize => .text "--buffer-size"
  | .retries => .optInt "--retries"
  | .lowLevelRetries => .optInt "--low-level-retries"
  | .maxDuration => .text "--max-duration"
  | .checkFirst => .flag "--check-first"
  | .orderBy => .text "--order-by"
  | .retriesSleep => .text "--retries-sleep"
  | .connTimeout => .text "--contimeout"
  | .ioTimeout => .text "--timeout"
  | .sizeOnly => .flag "--size-only"
  | .updateMode => .flag "--update"
  | .ignoreExisting => .flag "--ignore-existing"
  | .resilient => .flag "--resilient"
  | .maxLock => .text "--max-lock"
  | .checkAccess => .flag "--check-access"
  | .conflictLoser => .text "--conflict-loser"
  | .conflictSuffix => .text "--conflict-suffix"
  | .bandwidth => .megabytes "--bwlimit"
  | .tpsLimit => .optFloat "--tpslimit"
  | .includedPaths => .paths "--include"
  | .excludedPaths => .paths "--exclude"
  | .deleteTiming => .timing
  | .cachePath | .filterFromFile | .useRegex | .fastList => .none

/-- The options that have a translation, in the order of their arguments. -/
def translated : List SyncOption :=
  [.bandwidth, .parallel, .tpsLimit, .minAge, .maxAge, .minSize, .maxSize, .excludeIfPresent,
    .maxDelete, .dryRun, .includedPaths, .excludedPaths, .multiThreadStreams, .bufferSize,
    .retries, .lowLevelRetries, .maxDuration, .retriesSleep, .connTimeout, .ioTimeout, .orderBy,
    .checkFirst, .immutable, .maxTransfer, .maxDeleteSize, .suffix, .suffixKeepExtension,
    .backupPath, .sizeOnly, .updateMode, .ignoreExisting, .deleteExcluded, .maxDepth,
    .deleteTiming, .conflictResolution, .conflictLoser, .conflictSuffix, .resilient, .maxLock,
    .checkAccess]

/-- The value is of the kind that is translated. -/
inductive Translation.Fits : Translation → OptionValue F → Prop where
  | none (v : OptionValue F) : Fits .none v
  | flag (f : String) (b : Bool) : Fits (.flag f) (.flag b)
  | text (f : String) (s : Text) : Fits (.text f) (.text s)
  | int (f : String) (n : Int) : Fits (.int f) (.int n)
  | megabytes (f : String) (n : Int) : Fits (.megabytes f) (.int n)
  | optInt (f : String) (n : Option Int) : Fits (.optInt f) (.optInt n)
  | optFloat (f : String) (x : Option F) : Fits (.optFloat f) (.optFloat x)
  | paths (f : String) (l : List Text) : Fits (.paths f) (.texts l)
  | timing (s : Text) : Fits .timing (.text s)

theorem option_fits (p : Profile F) (o : SyncOption) : o.translation.Fits (p.option o) := by
  cases o <;> constructor

variable [F64 F]

/-- The arguments that an option contributes. -/
def Translation.segment : Translation → OptionValue F → List Text
  | .flag f, .flag b => boolFlag f b
  | .text f, .text s => textFlag f s
  | .int f, .int n => intFlag f n
  | .megabytes f, .int n => textFlag f (if 0 < n then toText n ++ ['M'] else [])
  | .optInt f, .optInt n => intFlag f (positiveOr0 n)
  | .optFloat f, .optFloat x => floatFlag f ((x.filter F64.positive).getD F64.zero)
  | .paths f, .texts l => pathFlags f l
  | .timing, .text s => timingFlag s
  | _, _ => []

def Profile.segment (p : Profile F) (o : SyncOption) : List Text :=
  o.translation.segment (p.option o)

/-- No profile sets `checkers` or `no_unicode_normalize`. -/
theorem unset_flags (p : Profile F) :
    intFlag "--checkers" (profileFlags p).checkers = [] ∧
      boolFlag "--no-unicode-normalization" (profileFlags p).noUnicodeNormalize = [] := ⟨rfl, rfl⟩

/-- The arguments of a profile are the segments of its options. -/
theorem profileToFlags_segments (p : Profile F) :
    profileToFlags (profileFlags p) = translated.flatMap p.segment := by
  simp only [profileToFlags, List.flatten_cons, List.flatten_nil]
  rw [(unset_flags p).1, (unset_flags p).2, List.nil_append, List.nil_append]
  simp only [translated, List.flatMap_cons, List.flatMap_nil, Profile.segment,
    SyncOption.translation, Profile.option, Translation.segment]
  rfl

/-- The delete timings that rclone is told, in lower case. -/
def knownTiming (timing : Text) : Text :=
  let t := toLowercase (trim timing)
  if t = "before".toList ∨ t = "after".toList ∨ t = "during".toList then t else []

/-- What rclone can learn of the value of an option: nothing without a
    translation, and numbers count only when they are positive. -/
def Translation.effective : Translation → OptionValue F → OptionValue F
  | .none, _ => .flag false
  | .int _, .int n | .megabytes _, .int n => .int (max 0 n)
  | .optInt _, .optInt n => .int (positiveOr0 n)
  | .optFloat _, .optFloat x => .optFloat (x.filter F64.positive)
  | .paths _, .texts l => .texts (cleaned l)
  | .timing, .text s => .text (knownTiming s)
  | _, v => v

/-- The two profiles differ in what rclone can learn of the option. -/
def Reaches (o : SyncOption) (p q : Profile F) : Prop :=
  o.translation.effective (p.option o) ≠ o.translation.effective (q.option o)

-- ============================================================================
-- Segments tell effective values apart
-- ============================================================================

theorem boolFlag_inj {f : String} {a b : Bool} : boolFlag f a = boolFlag f b ↔ a = b := by
  cases a <;> cases b <;> simp [boolFlag]

theorem textFlag_inj {f : String} {s t : Text} : textFlag f s = textFlag f t ↔ s = t := by
  constructor
  · intro h
    by_cases hs : s = [] <;> by_cases ht : t = [] <;> simp_all [textFlag, kv]
  · rintro rfl
    rfl

theorem intFlag_inj {f : String} {n m : Int} :
    intFlag f n = intFlag f m ↔ max 0 n = max 0 m := by
  constructor
  · intro h
    by_cases hn : 0 < n <;> by_cases hm : 0 < m
    · have htext : toText n = toText m := by simpa [intFlag, kv, hn, hm] using h
      rw [toText_inj (by omega) (by omega) htext]
    · simp [intFlag, kv, hn, hm] at h
    · simp [intFlag, kv, hn, hm] at h
    · omega
  · intro h
    by_cases hn : 0 < n <;> by_cases hm : 0 < m
    · obtain rfl : n = m := by omega
      rfl
    · omega
    · omega
    · simp [intFlag, hn, hm]

theorem megabytes_inj {n m : Int} :
    (if 0 < n then toText n ++ ['M'] else []) = (if 0 < m then toText m ++ ['M'] else []) ↔
      max 0 n = max 0 m := by
  constructor
  · intro h
    by_cases hn : 0 < n <;> by_cases hm : 0 < m
    · have htext : toText n = toText m := by simpa [hn, hm] using h
      rw [toText_inj (by omega) (by omega) htext]
    · simp [hn, hm] at h
    · simp [hn, hm] at h
    · omega
  · intro h
    by_cases hn : 0 < n <;> by_cases hm : 0 < m
    · obtain rfl : n = m := by omega
      rfl
    · omega
    · omega
    · simp [hn, hm]

theorem positiveOr0_nonneg (n : Option Int) : 0 ≤ positiveOr0 n := by
  cases n with
  | none => exact le_refl 0
  | some n =>
    by_cases hn : 0 < n
    · simpa [positiveOr0, positiveInt, Option.filter, hn] using le_of_lt hn
    · simp [positiveOr0, positiveInt, Option.filter, hn]

theorem floatFlag_inj {f : String} {x y : Option F} :
    floatFlag f ((x.filter F64.positive).getD F64.zero) =
        floatFlag f ((y.filter F64.positive).getD F64.zero) ↔
      x.filter F64.positive = y.filter F64.positive := by
  constructor
  · intro h
    cases hx : x.filter F64.positive with
    | none =>
      cases hy : y.filter F64.positive with
      | none => rfl
      | some b =>
        have hb : F64.positive b = true := (Option.filter_eq_some_iff.mp hy).2
        simp [floatFlag, kv, hx, hy, hb, F64.zero_not_positive] at h
    | some a =>
      have ha : F64.positive a = true := (Option.filter_eq_some_iff.mp hx).2
      cases hy : y.filter F64.positive with
      | none => simp [floatFlag, kv, hx, hy, ha, F64.zero_not_positive] at h
      | some b =>
        have hb : F64.positive b = true := (Option.filter_eq_some_iff.mp hy).2
        have htext : F64.debug a = F64.debug b := by
          simpa [floatFlag, kv, hx, hy, ha, hb] using h
        rw [F64.debug_injective htext]
  · intro h
    rw [h]

theorem pathFlags_inj {f : String} {l l' : List Text} :
    pathFlags f l = pathFlags f l' ↔ cleaned l = cleaned l' := by
  have hinj : ∀ c c' : List Text, c.flatMap (kv f) = c'.flatMap (kv f) → c = c' := by
    intro c
    induction c with
    | nil =>
      intro c' h
      cases c' with
      | nil => rfl
      | cons s' c' => simp [kv] at h
    | cons s c ih =>
      intro c' h
      cases c' with
      | nil => simp [kv] at h
      | cons s' c' =>
        simp only [List.flatMap_cons, kv, List.cons_append, List.nil_append, List.cons.injEq,
          true_and] at h
        rw [h.1, ih c' h.2]
  exact ⟨hinj _ _, fun h => by rw [pathFlags, pathFlags, h]⟩

theorem timingFlag_eq (s : Text) :
    timingFlag s = if knownTiming s = [] then [] else ["--delete-".toList ++ knownTiming s] := by
  unfold timingFlag knownTiming
  simp only
  generalize toLowercase (trim s) = t
  by_cases hbefore : t = "before".toList
  · subst hbefore
    decide
  by_cases hafter : t = "after".toList
  · subst hafter
    decide
  by_cases hduring : t = "during".toList
  · subst hduring
    decide
  have hnone : ¬ (t = "before".toList ∨ t = "after".toList ∨ t = "during".toList) := by
    rintro (h | h | h)
    · exact hbefore h
    · exact hafter h
    · exact hduring h
  rw [if_neg hbefore, if_neg hafter, if_neg hduring, if_neg hnone, if_pos rfl]

theorem timingFlag_inj {s t : Text} :
    timingFlag s = timingFlag t ↔ knownTiming s = knownTiming t := by
  rw [timingFlag_eq, timingFlag_eq]
  constructor
  · intro h
    by_cases hs : knownTiming s = [] <;> by_cases ht : knownTiming t = []
    · rw [hs, ht]
    · simp [hs, ht] at h
    · simp [hs, ht] at h
    · simpa [hs, ht] using h
  · intro h
    rw [h]

/-- The segments of two values are the same exactly when rclone cannot tell the
    values apart. -/
theorem segment_inj {tr : Translation} {v w : OptionValue F} (hv : tr.Fits v) (hw : tr.Fits w) :
    tr.segment v = tr.segment w ↔ tr.effective v = tr.effective w := by
  cases hv with
  | none => simp [Translation.segment, Translation.effective]
  | flag f b =>
    cases hw
    simp [Translation.segment, Translation.effective, boolFlag_inj]
  | text f s =>
    cases hw
    simp [Translation.segment, Translation.effective, textFlag_inj]
  | int f n =>
    cases hw
    simp only [Translation.segment, Translation.effective, intFlag_inj, OptionValue.int.injEq]
  | megabytes f n =>
    cases hw
    simp only [Translation.segment, Translation.effective, textFlag_inj, megabytes_inj,
      OptionValue.int.injEq]
  | optInt f n =>
    cases hw with
    | optInt _ m =>
      simp only [Translation.segment, Translation.effective, intFlag_inj, OptionValue.int.injEq]
      rw [max_eq_right (positiveOr0_nonneg n), max_eq_right (positiveOr0_nonneg m)]
  | optFloat f x =>
    cases hw
    simp only [Translation.segment, Translation.effective, floatFlag_inj, OptionValue.optFloat.injEq]
  | paths f l =>
    cases hw
    simp only [Translation.segment, Translation.effective, pathFlags_inj, OptionValue.texts.injEq]
  | timing s =>
    cases hw
    simp only [Translation.segment, Translation.effective, timingFlag_inj, OptionValue.text.injEq]

-- ============================================================================
-- One option and the whole list of arguments
-- ============================================================================

/-- Two lists of segments that agree but for one. -/
theorem flatMap_differ {α β : Type} {l : List α} {f g : α → List β} {o : α} (hl : l.Nodup)
    (ho : o ∈ l) (hothers : ∀ x ∈ l, x ≠ o → f x = g x) :
    l.flatMap f = l.flatMap g ↔ f o = g o := by
  obtain ⟨before, after, rfl⟩ := List.append_of_mem ho
  have hnot : o ∉ before ∧ o ∉ after := by
    rw [List.nodup_append, List.nodup_cons] at hl
    exact ⟨fun hmem => hl.2.2 o hmem o List.mem_cons_self rfl, hl.2.1.1⟩
  have hagree : ∀ xs : List α, (∀ x ∈ xs, x ∈ before ++ o :: after ∧ x ≠ o) →
      xs.flatMap f = xs.flatMap g := by
    intro xs hxs
    rw [List.flatMap_def, List.flatMap_def,
      List.map_congr_left fun x hx => hothers x (hxs x hx).1 (hxs x hx).2]
  have hbefore : before.flatMap f = before.flatMap g := hagree before fun x hx =>
    ⟨List.mem_append_left _ hx, fun hxo => hnot.1 (hxo ▸ hx)⟩
  have hafter : after.flatMap f = after.flatMap g := hagree after fun x hx =>
    ⟨List.mem_append_right _ (List.mem_cons_of_mem _ hx), fun hxo => hnot.2 (hxo ▸ hx)⟩
  rw [List.flatMap_append, List.flatMap_append, List.flatMap_cons, List.flatMap_cons, hbefore,
    hafter, List.append_cancel_left_eq, List.append_cancel_right_eq]

theorem translated_nodup : translated.Nodup := by decide

theorem mem_translated {o : SyncOption} : o ∈ translated ↔ o.translation ≠ .none := by
  cases o <;> simp [translated, SyncOption.translation]

variable {p q : Profile F} {o : SyncOption}

theorem profileToFlags_inj (hdiff : DifferIn o p q) :
    profileToFlags (profileFlags p) = profileToFlags (profileFlags q) ↔ ¬ Reaches o p q := by
  have hsegment : ∀ x, x ≠ o → p.segment x = q.segment x := fun x hx => by
    rw [Profile.segment, Profile.segment, hdiff.others x hx]
  rw [profileToFlags_segments, profileToFlags_segments, Reaches, not_not]
  by_cases ho : o ∈ translated
  · rw [flatMap_differ translated_nodup ho fun x _ hx => hsegment x hx]
    exact segment_inj (option_fits p o) (option_fits q o)
  · have hnone : o.translation = .none := by
      by_contra hne
      exact ho (mem_translated.mpr hne)
    refine iff_of_true ?_ (by rw [hnone]; rfl)
    rw [List.flatMap_def, List.flatMap_def, List.map_congr_left fun x hx => hsegment x ?_]
    rintro rfl
    exact ho hx

theorem buildArgs_inj {configPath action src dst : Text} (hsrc : src ≠ []) (hdst : dst ≠ []) :
    syncArgs configPath action { p with fromPath := src, toPath := dst } =
        syncArgs configPath action { q with fromPath := src, toPath := dst } ↔
      profileToFlags (profileFlags p) = profileToFlags (profileFlags q) := by
  simp only [syncArgs, buildArgs, runConfig, hsrc, hdst, or_self, if_false, Option.map_some,
    Option.getD_some, Option.some.injEq, List.append_cancel_left_eq]
  rfl

end

/-- Two profiles that differ in one option are synced with different arguments,
    for some action and some paths, exactly when they differ in what rclone can
    learn of the option. -/
theorem option_reaches_args {F : Type} [F64 F] (configPath : Text) {o : SyncOption}
    {p q : Profile F} (hdiff : DifferIn o p q) :
    (∃ action src dst,
        syncArgs configPath action { p with fromPath := src, toPath := dst } ≠
          syncArgs configPath action { q with fromPath := src, toPath := dst }) ↔
      Reaches o p q := by
  constructor
  · rintro ⟨action, src, dst, hne⟩
    by_contra hreach
    by_cases hpaths : src = [] ∨ dst = []
    · simp [syncArgs, buildArgs, runConfig, hpaths] at hne
    · rw [not_or] at hpaths
      exact hne ((buildArgs_inj hpaths.1 hpaths.2).mpr ((profileToFlags_inj hdiff).mpr hreach))
  · intro hreach
    refine ⟨"push".toList, ['s'], ['d'], fun heq => ?_⟩
    exact (profileToFlags_inj hdiff).mp ((buildArgs_inj (by simp) (by simp)).mp heq) hreach

-- ============================================================================
-- Options of flow operations
-- ============================================================================

section

variable {F : Type} [F64 F] {o : SyncOption}

/-- A number that `profile_from_sync_config` passes on. -/
def OptionValue.Carried : OptionValue F → Prop
  | .int n => 0 ≤ n
  | .optInt n => ∀ k, n = some k → 0 < k
  | .optFloat x => ∀ y, x = some y → F64.positive y = true
  | _ => True

theorem filter_positiveInt {n : Option Int} {k : Int} (h : n.filter positiveInt = some k) : 0 < k :=
  of_decide_eq_true (Option.filter_eq_some_iff.mp h).2

theorem getD_positiveInt {n : Option Int} {k : Int} (hk : 0 ≤ k) :
    0 ≤ (n.filter positiveInt).getD k := by
  cases hn : n.filter positiveInt with
  | none => exact hk
  | some m => exact le_of_lt (filter_positiveInt hn)

theorem carried_option (c : JsonDict) (o : SyncOption) :
    ((profileFromSyncConfig c : Profile F).option o).Carried := by
  cases o with
  | bandwidth => exact getD_positiveInt (le_refl 0)
  | parallel => exact getD_positiveInt (by decide)
  | maxDepth | maxDelete | multiThreadStreams | retries | lowLevelRetries =>
    exact fun k hk => filter_positiveInt hk
  | tpsLimit => exact fun y hy => (Option.filter_eq_some_iff.mp hy).2
  | _ => trivial

theorem positiveOr0_inj {n m : Option Int} (hn : ∀ k, n = some k → 0 < k)
    (hm : ∀ k, m = some k → 0 < k) (h : positiveOr0 n = positiveOr0 m) : n = m := by
  have hvalue : ∀ n : Option Int, (∀ k, n = some k → 0 < k) → positiveOr0 n = n.getD 0 := by
    intro n hn
    cases n with
    | none => rfl
    | some k =>
      have hk : positiveInt k = true := decide_eq_true (hn k rfl)
      simp [positiveOr0, Option.filter, hk]
  rw [hvalue n hn, hvalue m hm] at h
  cases n with
  | none =>
    cases m with
    | none => rfl
    | some k =>
      have hk := hm k rfl
      simp only [Option.getD_none, Option.getD_some] at h
      omega
  | some k =>
    have hk := hn k rfl
    cases m with
    | none =>
      simp only [Option.getD_none, Option.getD_some] at h
      omega
    | some j => exact congrArg some h

/-- Numbers that are passed on, flags and texts are told apart. -/
theorem effective_inj {tr : Translation} {v w : OptionValue F} (hv : tr.Fits v) (hw : tr.Fits w)
    (hcv : v.Carried) (hcw : w.Carried) (hnone : tr ≠ .none) (hpaths : ∀ f, tr ≠ .paths f)
    (htiming : tr ≠ .timing) (h : tr.effective v = tr.effective w) : v = w := by
  cases hv with
  | none => exact absurd rfl hnone
  | flag f b | text f s =>
    cases hw
    exact h
  | int f n | megabytes f n =>
    cases hw
    have hmax := OptionValue.int.inj h
    rwa [max_eq_right hcv, max_eq_right hcw, ← OptionValue.int.injEq] at hmax
  | optInt f n =>
    cases hw
    rw [positiveOr0_inj hcv hcw (OptionValue.int.inj h)]
  | optFloat f x =>
    cases hw with
    | optFloat _ y =>
      have hkept : ∀ z : Option F, (∀ a, z = some a → F64.positive a = true) →
          z.filter F64.positive = z := by
        intro z hz
        cases z with
        | none => rfl
        | some a => simp [Option.filter, hz a rfl]
      have hfilter := OptionValue.optFloat.inj h
      rw [hkept x hcv, hkept y hcw] at hfilter
      rw [hfilter]
  | paths f l => exact absurd rfl (hpaths f)
  | timing s => exact absurd rfl htiming

/-- Every option of a flow operation that has a translation reaches the
    arguments, but for lists of paths and delete timings, of which some are
    equal to rclone. -/
theorem carried_option_reaches {c c' : JsonDict}
    (hdiff : DifferIn o (profileFromSyncConfig c : Profile F) (profileFromSyncConfig c'))
    (htranslated : o ∈ translated) (hpaths : o ≠ .includedPaths ∧ o ≠ .excludedPaths)
    (htiming : o ≠ .deleteTiming) :
    Reaches o (profileFromSyncConfig c : Profile F) (profileFromSyncConfig c') := by
  intro heq
  refine hdiff.differs (effective_inj (option_fits _ o) (option_fits _ o) (carried_option c o)
    (carried_option c' o) (mem_translated.mp htranslated) (fun f hf => ?_) (fun ht => ?_) heq)
  · cases o <;> simp_all [SyncOption.translation]
  · cases o <;> simp_all [SyncOption.translation]

end

theorem zero_not_whole : decide (0 < 0) = false := rfl

theorem toText_whole_injective : Function.Injective fun n : Nat => toText n ++ ".0".toList := by
  intro n m h
  have htext := List.append_cancel_right h
  exact Int.ofNat_inj.mp (toText_inj (by omega) (by omega) htext)

/-- Whole numbers as floats. -/
instance wholeFloats : F64 Nat where
  zero := 0
  positive n := 0 < n
  debug n := toText n ++ ".0".toList
  parse s := (Rpc.parseI64 s).map Int.toNat
  ofNumber
    | .int n => n.toNat
    | .float q => ⌊q⌋.toNat
  zero_not_positive := zero_not_whole
  debug_injective := toText_whole_injective

/-- What two bags of one option and of none are turned into. -/
theorem profileFromSyncConfig_one :
    (profileFromSyncConfig [] : Profile Nat) = { parallel := 4 } ∧
      (profileFromSyncConfig [("max_delete".toList, .number (.int 5))] : Profile Nat)
        = { parallel := 4, maxDelete := some 5 } ∧
      (profileFromSyncConfig [("use_regex".toList, .bool true)] : Profile Nat)
        = { parallel := 4, useRegex := true } := by
  unfold profileFromSyncConfig keys
  -- the characters of each key, which are slow to evaluate
  repeat rw [String.toList_ofList]
  exact ⟨rfl, rfl, rfl⟩

/-- An operation with the option `max_delete`, and one without. -/
theorem option_reaches_args_max_delete :
    ∃ action src dst,
      syncArgs [] action { (profileFromSyncConfig [("max_delete".toList, .number (.int 5))] :
          Profile Nat) with fromPath := src, toPath := dst } ≠
        syncArgs [] action { (profileFromSyncConfig [] : Profile Nat) with
          fromPath := src, toPath := dst } := by
  rw [profileFromSyncConfig_one.1, profileFromSyncConfig_one.2.1]
  refine (option_reaches_args (o := .maxDelete) [] ⟨?_, fun o ho => ?_⟩).mpr ?_
  · simp [Profile.option]
  · cases o <;> first | rfl | exact absurd rfl ho
  · intro heq
    exact absurd (OptionValue.int.inj heq) (by decide)

/-- The options `use_regex` of two operations are lost. -/
theorem use_regex_lost :
    ¬ ∀ (c c' : JsonDict) (o : SyncOption),
      DifferIn o (profileFromSyncConfig c : Profile Nat) (profileFromSyncConfig c') →
        ∃ action src dst,
          syncArgs [] action { (profileFromSyncConfig c : Profile Nat) with
              fromPath := src, toPath := dst } ≠
            syncArgs [] action { (profileFromSyncConfig c' : Profile Nat) with
              fromPath := src, toPath := dst } := by
  intro h
  have hdiff : DifferIn .useRegex ({ parallel := 4, useRegex := true } : Profile Nat)
      { parallel := 4 } :=
    ⟨by simp [Profile.option], fun o ho => by cases o <;> first | rfl | exact absurd rfl ho⟩
  rw [← profileFromSyncConfig_one.1, ← profileFromSyncConfig_one.2.2] at hdiff
  obtain ⟨action, src, dst, hne⟩ := h _ _ _ hdiff
  rw [profileFromSyncConfig_one.1, profileFromSyncConfig_one.2.2] at hne
  exact hne rfl

end GnDrive.Rclone
