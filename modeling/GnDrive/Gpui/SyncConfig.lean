/-
  GnDrive.Gpui.SyncConfig

  The options of a flow operation as the window edits them (`sync_config.rs` of
  the window): they are read from the stored object, edited under the names in
  snake case, and written under both names.

  The labels, hints and choices of the fields are left out.
-/

import GnDrive.Rclone.Options

namespace GnDrive.Gpui

open Rclone (F64 SyncOption OptionValue Profile)
open Rpc (Json JsonDict Number)
open Text (trim)

/-- `json!` of a float, and the floats that texts are read as.  What is neither
    infinite nor NaN is the value of a number. -/
class F64Json (F : Type) extends F64 F where
  toNumber : F → Option Number
  ofNumber_positive : ∀ x n, toNumber x = some n → positive (ofNumber n) = positive x
  ofNumber_toNumber : ∀ x n, toNumber x = some n → positive x = true → ofNumber n = x
  parse_nil : parse [] = none
  parse_plain : ∀ t x, parse t = some x → ∀ c ∈ t, Text.isWhitespace c = false

-- ============================================================================
-- Fields
-- ============================================================================

inductive FieldKind where
  | int
  | double
  | text
  | bool
  | list
  | select
deriving DecidableEq

structure FieldDef where
  key : Text
  camel : Text
  kind : FieldKind
deriving DecidableEq

def field (key camel : String) (kind : FieldKind) : FieldDef := ⟨key.toList, camel.toList, kind⟩

def FIELDS : List FieldDef :=
  [field "parallel" "parallel" .int,
    field "bandwidth" "bandwidth" .int,
    field "multi_thread_streams" "multiThreadStreams" .int,
    field "buffer_size" "bufferSize" .text,
    field "retries" "retries" .int,
    field "low_level_retries" "lowLevelRetries" .int,
    field "max_duration" "maxDuration" .text,
    field "check_first" "checkFirst" .bool,
    field "order_by" "orderBy" .text,
    field "retries_sleep" "retriesSleep" .text,
    field "tps_limit" "tpsLimit" .double,
    field "conn_timeout" "connTimeout" .text,
    field "io_timeout" "ioTimeout" .text,
    field "included_paths" "includedPaths" .list,
    field "excluded_paths" "excludedPaths" .list,
    field "min_size" "minSize" .text,
    field "max_size" "maxSize" .text,
    field "max_age" "maxAge" .text,
    field "min_age" "minAge" .text,
    field "max_depth" "maxDepth" .int,
    field "filter_from_file" "filterFromFile" .text,
    field "exclude_if_present" "excludeIfPresent" .text,
    field "use_regex" "useRegex" .bool,
    field "delete_excluded" "deleteExcluded" .bool,
    field "dry_run" "dryRun" .bool,
    field "max_delete" "maxDelete" .int,
    field "immutable" "immutable" .bool,
    field "max_transfer" "maxTransfer" .text,
    field "max_delete_size" "maxDeleteSize" .text,
    field "suffix" "suffix" .text,
    field "suffix_keep_extension" "suffixKeepExtension" .bool,
    field "backup_path" "backupPath" .text,
    field "size_only" "sizeOnly" .bool,
    field "update_mode" "updateMode" .bool,
    field "ignore_existing" "ignoreExisting" .bool,
    field "delete_timing" "deleteTiming" .select,
    field "conflict_resolution" "conflictResolution" .select,
    field "resilient" "resilient" .bool,
    field "max_lock" "maxLock" .text,
    field "check_access" "checkAccess" .bool,
    field "conflict_loser" "conflictLoser" .text,
    field "conflict_suffix" "conflictSuffix" .text]

def ACTION : Text := "action".toList

-- ============================================================================
-- Readers
-- ============================================================================

def normalizeAction (action : Text) : Text :=
  let t := trim action
  if t = "bi".toList then "bi".toList
  else if t = "bi-resync".toList then "bi-resync".toList
  else "push".toList

/-- The number of a value, with white space of any kind around a numeral. -/
def intValue (v : Json) : Option Int :=
  match v with
  | .number (.int n) => some (Rpc.saturate n)
  | .number (.float q) => some (Rclone.truncate q)
  | .string s => Rpc.parseI64 (trim s)
  | _ => none

def doubleValue {F : Type} [F64 F] (v : Json) : Option F :=
  match v with
  | .number n => some (F64.ofNumber n)
  | .string s => F64.parse (trim s)
  | _ => none

def stringValue (v : Json) : Option Text :=
  match v with
  | .string s => some s
  | _ => none

def boolValue (v : Json) : Option Bool :=
  match v with
  | .bool b => some b
  | _ => none

def strings (a : List Json) : List Text := a.filterMap stringValue

/-- A list without any text counts as none. -/
def listValue (v : Json) : Option (List Text) :=
  match v with
  | .array a => if strings a ≠ [] then some (strings a) else none
  | _ => none

/-- The value under the first of the names that has one. -/
def valueFrom {α : Type} (value : Json → Option α) (m : JsonDict) (snake camel : Text) : Option α :=
  [snake, camel].findSome? fun k => (m.get k).bind value

def emptyText (v : Json) : Bool := (stringValue v).any List.isEmpty

def jsonList (l : List Text) : Json := .array (l.map .string)

section

variable {F : Type} [F64Json F]

def jsonDouble (x : F) : Json :=
  match F64Json.toNumber x with
  | some n => .number n
  | none => .null

namespace FieldDef

variable (F) in
/-- What `SyncConfig::parse` reads. -/
def read (d : FieldDef) (m : JsonDict) : Option Json :=
  match d.kind with
  | .int => (valueFrom intValue m d.key d.camel).map fun n => .number (.int n)
  | .double => (valueFrom (doubleValue (F := F)) m d.key d.camel).map jsonDouble
  | .text | .select => (valueFrom stringValue m d.key d.camel).map .string
  | .bool => (valueFrom boolValue m d.key d.camel).map .bool
  | .list => (valueFrom listValue m d.key d.camel).map jsonList

variable (F) in
/-- A turn of the loop in `SyncConfig::parse`. -/
def normalize (m : JsonDict) (d : FieldDef) : JsonDict :=
  let rest := (m.remove d.key).remove d.camel
  match d.read F m with
  | some v => rest.insert d.key v
  | none => rest

def write (d : FieldDef) (out : JsonDict) (v : Json) : JsonDict :=
  if emptyText v then out.remove d.key else out.insert d.camel v

end FieldDef

-- ============================================================================
-- The editor
-- ============================================================================

structure SyncConfig where
  map : JsonDict

namespace SyncConfig

variable (F) in
def parse (raw : JsonDict) (fallbackAction : Text) : SyncConfig where
  map :=
    let action := normalizeAction (((raw.get ACTION).bind stringValue).getD fallbackAction)
    (FIELDS.foldl (FieldDef.normalize F) raw).insert ACTION (.string action)

def action (c : SyncConfig) : Text :=
  normalizeAction (((c.map.get ACTION).bind stringValue).getD "push".toList)

def setKnown (c : SyncConfig) (key : Text) (value : Option Json) : SyncConfig where
  map :=
    let map :=
      match FIELDS.find? (·.key = key) with
      | some d => (c.map.remove d.key).remove d.camel
      | none => c.map
    match value with
    | some v => map.insert key v
    | none => map

def setInt (c : SyncConfig) (key : Text) (value : Option Int) : SyncConfig :=
  c.setKnown key (value.map fun n => .number (.int n))

def setDouble (c : SyncConfig) (key : Text) (value : Option F) : SyncConfig :=
  c.setKnown key (value.map jsonDouble)

def setText (c : SyncConfig) (key value : Text) : SyncConfig :=
  c.setKnown key (if trim value = [] then none else some (.string (trim value)))

def setFlag (c : SyncConfig) (key : Text) (value : Bool) : SyncConfig :=
  c.setKnown key (some (.bool value))

def setList (c : SyncConfig) (key : Text) (value : List Text) : SyncConfig :=
  c.setKnown key (if value = [] then none else some (jsonList value))

/-- An entry is written under its other name as well; an empty text not at all. -/
def writeEntry (out : JsonDict) (kv : Text × Json) : JsonDict :=
  match FIELDS.find? (·.key = kv.1) with
  | some d => d.write out kv.2
  | none => out

def toJson (c : SyncConfig) : JsonDict :=
  (c.map.foldl writeEntry c.map).insert ACTION (.string c.action)

end SyncConfig

/-- One option set or cleared. -/
inductive Edit (F : Type) where
  | int (value : Option Int)
  | double (value : Option F)
  | text (value : Text)
  | flag (value : Bool)
  | list (value : List Text)

def SyncConfig.edit (c : SyncConfig) (key : Text) : Edit F → SyncConfig
  | .int value => c.setInt key value
  | .double value => c.setDouble key value
  | .text value => c.setText key value
  | .flag value => c.setFlag key value
  | .list value => c.setList key value

end

-- ============================================================================
-- The options of the fields
-- ============================================================================

/-- The option that each field of `FIELDS` is for. -/
def fieldOptions : List SyncOption :=
  [.parallel, .bandwidth, .multiThreadStreams, .bufferSize, .retries, .lowLevelRetries,
    .maxDuration, .checkFirst, .orderBy, .retriesSleep, .tpsLimit, .connTimeout, .ioTimeout,
    .includedPaths, .excludedPaths, .minSize, .maxSize, .maxAge, .minAge, .maxDepth,
    .filterFromFile, .excludeIfPresent, .useRegex, .deleteExcluded, .dryRun, .maxDelete,
    .immutable, .maxTransfer, .maxDeleteSize, .suffix, .suffixKeepExtension, .backupPath,
    .sizeOnly, .updateMode, .ignoreExisting, .deleteTiming, .conflictResolution, .resilient,
    .maxLock, .checkAccess, .conflictLoser, .conflictSuffix]

def optionFields : List (SyncOption × FieldDef) := fieldOptions.zip FIELDS

end GnDrive.Gpui
