/-
  GnDrive.Rpc.Profiles

  `profiles.save` and `profiles.get`.

  A request's object is laid over the JSON of the default profile: only the keys
  that are there are taken over.  `None` is left out of the JSON of a profile, so
  that the six optional numbers are never taken over; `profiles_round_trip` says
  that everything else is stored as the request has it, and that a profile is
  saved as it was got exactly when it has none of the six.

  A text that holds a JSON array of texts is a value of its own in a row.
-/

import GnDrive.Flows.Requests
import GnDrive.Rclone.Options
import Mathlib.Data.Nat.Log

namespace GnDrive.Rpc.Profiles

open Rclone (SyncOption OptionValue)
open Flows (StoreError storeError)

abbrev Profile := Rclone.Profile Rat

-- ============================================================================
-- The fields of a profile
-- ============================================================================

inductive Field where
  | name
  | fromPath
  | toPath
  | direction
  | option (o : SyncOption)
deriving DecidableEq

def optionKey : SyncOption → String
  | .includedPaths => "includedPaths"
  | .excludedPaths => "excludedPaths"
  | .bandwidth => "bandwidth"
  | .parallel => "parallel"
  | .backupPath => "backupPath"
  | .cachePath => "cachePath"
  | .minSize => "minSize"
  | .maxSize => "maxSize"
  | .filterFromFile => "filterFromFile"
  | .excludeIfPresent => "excludeIfPresent"
  | .useRegex => "useRegex"
  | .maxAge => "maxAge"
  | .minAge => "minAge"
  | .maxDepth => "maxDepth"
  | .deleteExcluded => "deleteExcluded"
  | .maxDelete => "maxDelete"
  | .immutable => "immutable"
  | .conflictResolution => "conflictResolution"
  | .dryRun => "dryRun"
  | .maxTransfer => "maxTransfer"
  | .maxDeleteSize => "maxDeleteSize"
  | .suffix => "suffix"
  | .suffixKeepExtension => "suffixKeepExtension"
  | .multiThreadStreams => "multiThreadStreams"
  | .bufferSize => "bufferSize"
  | .retries => "retries"
  | .lowLevelRetries => "lowLevelRetries"
  | .maxDuration => "maxDuration"
  | .checkFirst => "checkFirst"
  | .orderBy => "orderBy"
  | .retriesSleep => "retriesSleep"
  | .tpsLimit => "tpsLimit"
  | .connTimeout => "connTimeout"
  | .ioTimeout => "ioTimeout"
  | .sizeOnly => "sizeOnly"
  | .updateMode => "updateMode"
  | .ignoreExisting => "ignoreExisting"
  | .deleteTiming => "deleteTiming"
  | .resilient => "resilient"
  | .maxLock => "maxLock"
  | .checkAccess => "checkAccess"
  | .conflictLoser => "conflictLoser"
  | .conflictSuffix => "conflictSuffix"
  | .fastList => "fastList"

/-- The field's name in JSON. -/
def Field.key : Field → Text
  | .name => "name".toList
  | .fromPath => "from".toList
  | .toPath => "to".toList
  | .direction => "direction".toList
  | .option o => (optionKey o).toList

def options : List SyncOption :=
  [.includedPaths, .excludedPaths, .bandwidth, .parallel, .backupPath, .cachePath, .minSize,
    .maxSize, .filterFromFile, .excludeIfPresent, .useRegex, .maxAge, .minAge, .maxDepth,
    .deleteExcluded, .maxDelete, .immutable, .conflictResolution, .dryRun, .maxTransfer,
    .maxDeleteSize, .suffix, .suffixKeepExtension, .multiThreadStreams, .bufferSize, .retries,
    .lowLevelRetries, .maxDuration, .checkFirst, .orderBy, .retriesSleep, .tpsLimit, .connTimeout,
    .ioTimeout, .sizeOnly, .updateMode, .ignoreExisting, .deleteTiming, .resilient, .maxLock,
    .checkAccess, .conflictLoser, .conflictSuffix, .fastList]

def fields : List Field :=
  [.name, .fromPath, .toPath, .direction] ++ options.map .option

/-- The value of a field. -/
def field (p : Profile) : Field → OptionValue Rat
  | .name => .text p.name
  | .fromPath => .text p.fromPath
  | .toPath => .text p.toPath
  | .direction => .text p.direction
  | .option o => p.option o

-- ============================================================================
-- Profiles as JSON
-- ============================================================================

/-- `None` is skipped. -/
def encode : OptionValue Rat → Option Json
  | .flag b => some (.bool b)
  | .text s => some (.string s)
  | .texts l => some (.array (l.map .string))
  | .int n => some (.number (.int n))
  | .optInt n => n.map fun n => .number (.int n)
  | .optFloat x => x.map fun x => .number (.float x)

/-- `json::profile`. -/
def profileJson (p : Profile) : JsonDict :=
  fields.filterMap fun f => (encode (field p f)).map fun v => (f.key, v)

/-- `n as f64`: the nearest multiple of the last place, to even. -/
def asF64 (n : Int) : Rat :=
  let k := Nat.log 2 n.natAbs
  if k ≤ 52 then n
  else
    let ulp := 2 ^ (k - 52)
    let q := n.natAbs / ulp
    let r := n.natAbs % ulp
    let q := if ulp < 2 * r ∨ (2 * r = ulp ∧ q % 2 = 1) then q + 1 else q
    n.sign * (q * ulp : Nat)

def inRange (n : Int) : Bool := saturate n = n

/-! ### What serde takes for a value of each type, and what it makes of it -/

def asFlag : Json → Option Bool
  | .bool b => some b
  | _ => none

def asText : Json → Option Text
  | .string s => some s
  | _ => none

def asTexts : Json → Option (List Text)
  | .array l => l.mapM asText
  | _ => none

def asInt : Json → Option Int
  | .number (.int n) => if inRange n then some n else none
  | _ => none

def asOptInt : Json → Option (Option Int)
  | .null => some none
  | v => (asInt v).map some

def asOptFloat : Json → Option (Option Rat)
  | .null => some none
  | .number (.int n) => some (some (asF64 n))
  | .number (.float q) => some (some q)
  | _ => none

def decodeOption (v : Json) : SyncOption → Option (OptionValue Rat)
  | .useRegex | .deleteExcluded | .immutable | .dryRun | .suffixKeepExtension | .checkFirst
  | .sizeOnly | .updateMode | .ignoreExisting | .resilient | .checkAccess | .fastList =>
      (asFlag v).map .flag
  | .bandwidth | .parallel =>
      (asInt v).map .int
  | .includedPaths | .excludedPaths =>
      (asTexts v).map .texts
  | .maxDepth | .maxDelete | .multiThreadStreams | .retries | .lowLevelRetries =>
      (asOptInt v).map .optInt
  | .tpsLimit =>
      (asOptFloat v).map .optFloat
  | _ => (asText v).map .text

def decode (v : Json) : Field → Option (OptionValue Rat)
  | .option o => decodeOption v o
  | _ => (asText v).map .text

section

variable (m : JsonDict)

def readFlag (k : String) : Bool := ((m.get k.toList).bind asFlag).getD false

def readText (k : String) : Text := ((m.get k.toList).bind asText).getD []

def readTexts (k : String) : List Text := ((m.get k.toList).bind asTexts).getD []

def readInt (k : String) : Int := ((m.get k.toList).bind asInt).getD 0

def readOptInt (k : String) : Option Int := ((m.get k.toList).bind asOptInt).getD none

def readOptFloat (k : String) : Option Rat := ((m.get k.toList).bind asOptFloat).getD none

/-- The profile of an object; a field that is not there has its default. -/
def ofJson : Profile where
  name := readText m "name"
  fromPath := readText m "from"
  toPath := readText m "to"
  direction := readText m "direction"
  includedPaths := readTexts m "includedPaths"
  excludedPaths := readTexts m "excludedPaths"
  bandwidth := readInt m "bandwidth"
  parallel := readInt m "parallel"
  backupPath := readText m "backupPath"
  cachePath := readText m "cachePath"
  minSize := readText m "minSize"
  maxSize := readText m "maxSize"
  filterFromFile := readText m "filterFromFile"
  excludeIfPresent := readText m "excludeIfPresent"
  useRegex := readFlag m "useRegex"
  maxAge := readText m "maxAge"
  minAge := readText m "minAge"
  maxDepth := readOptInt m "maxDepth"
  deleteExcluded := readFlag m "deleteExcluded"
  maxDelete := readOptInt m "maxDelete"
  immutable := readFlag m "immutable"
  conflictResolution := readText m "conflictResolution"
  dryRun := readFlag m "dryRun"
  maxTransfer := readText m "maxTransfer"
  maxDeleteSize := readText m "maxDeleteSize"
  suffix := readText m "suffix"
  suffixKeepExtension := readFlag m "suffixKeepExtension"
  multiThreadStreams := readOptInt m "multiThreadStreams"
  bufferSize := readText m "bufferSize"
  retries := readOptInt m "retries"
  lowLevelRetries := readOptInt m "lowLevelRetries"
  maxDuration := readText m "maxDuration"
  checkFirst := readFlag m "checkFirst"
  orderBy := readText m "orderBy"
  retriesSleep := readText m "retriesSleep"
  tpsLimit := readOptFloat m "tpsLimit"
  connTimeout := readText m "connTimeout"
  ioTimeout := readText m "ioTimeout"
  sizeOnly := readFlag m "sizeOnly"
  updateMode := readFlag m "updateMode"
  ignoreExisting := readFlag m "ignoreExisting"
  deleteTiming := readText m "deleteTiming"
  resilient := readFlag m "resilient"
  maxLock := readText m "maxLock"
  checkAccess := readFlag m "checkAccess"
  conflictLoser := readText m "conflictLoser"
  conflictSuffix := readText m "conflictSuffix"
  fastList := readFlag m "fastList"

/-- Every field that is there has a value of its type. -/
def wellTyped : Bool := fields.all fun f => (m.get f.key).all fun v => (decode v f).isSome

end

/-- Known keys of `d` over the default profile. -/
def overlay (d : JsonDict) : JsonDict :=
  (profileJson {}).map fun kv => (kv.1, (d.get kv.1).getD kv.2)

/-- `err` is serde's message. -/
def parseProfile (err : Text) (d : JsonDict) : Except RpcError Profile :=
  let merged := overlay d
  if wellTyped merged then .ok (ofJson merged)
  else .error (.new "invalid_params" ("invalid profile: ".toList ++ err))

-- ============================================================================
-- The table of profiles
-- ============================================================================

inductive SqlValue where
  | null
  | int (n : Int)
  | real (x : Rat)
  | text (s : Text)
  /-- The text of a JSON array. -/
  | paths (l : List Text)
deriving DecidableEq

namespace SqlValue

def bool (b : Bool) : SqlValue := .int (if b then 1 else 0)

def optInt (n : Option Int) : SqlValue := n.elim .null .int

def optReal (x : Option Rat) : SqlValue := x.elim .null .real

def toText : SqlValue → Text
  | .text s => s
  | _ => []

def toInt : SqlValue → Int
  | .int n => n
  | _ => 0

def toBool (v : SqlValue) : Bool := v.toInt != 0

/-- `string_slice`. -/
def stringSlice : SqlValue → List Text
  | .paths l => l
  | _ => []

def toOptInt : SqlValue → Option Int
  | .null => none
  | v => some v.toInt

def toOptDouble : SqlValue → Option Rat
  | .real x => some x
  | _ => none

end SqlValue

/-- The columns in the order of `PROFILE_COLUMNS`. -/
def columns (p : Profile) : List SqlValue :=
  [.text p.name, .text p.fromPath, .text p.toPath, .text p.direction, .paths p.includedPaths,
    .paths p.excludedPaths, .int p.bandwidth, .int p.parallel, .text p.backupPath,
    .text p.cachePath, .text p.minSize, .text p.maxSize, .text p.filterFromFile,
    .text p.excludeIfPresent, .bool p.useRegex, .optInt p.maxDelete, .bool p.immutable,
    .text p.conflictResolution, .optInt p.multiThreadStreams, .text p.bufferSize, .bool p.fastList,
    .optInt p.retries, .optInt p.lowLevelRetries, .text p.maxDuration, .text p.maxAge,
    .text p.minAge, .optInt p.maxDepth, .bool p.deleteExcluded, .bool p.dryRun,
    .text p.maxTransfer, .text p.maxDeleteSize, .text p.suffix, .bool p.suffixKeepExtension,
    .bool p.checkFirst, .text p.orderBy, .text p.retriesSleep, .optReal p.tpsLimit,
    .text p.connTimeout, .text p.ioTimeout, .bool p.sizeOnly, .bool p.updateMode,
    .bool p.ignoreExisting, .text p.deleteTiming, .bool p.resilient, .text p.maxLock,
    .bool p.checkAccess, .text p.conflictLoser, .text p.conflictSuffix]

def scanProfile (r : List SqlValue) : Profile :=
  let c (i : Nat) : SqlValue := r.getD i .null
  {
    name := (c 0).toText
    fromPath := (c 1).toText
    toPath := (c 2).toText
    direction := (c 3).toText
    includedPaths := (c 4).stringSlice
    excludedPaths := (c 5).stringSlice
    bandwidth := (c 6).toInt
    parallel := (c 7).toInt
    backupPath := (c 8).toText
    cachePath := (c 9).toText
    minSize := (c 10).toText
    maxSize := (c 11).toText
    filterFromFile := (c 12).toText
    excludeIfPresent := (c 13).toText
    useRegex := (c 14).toBool
    maxDelete := (c 15).toOptInt
    immutable := (c 16).toBool
    conflictResolution := (c 17).toText
    multiThreadStreams := (c 18).toOptInt
    bufferSize := (c 19).toText
    fastList := (c 20).toBool
    retries := (c 21).toOptInt
    lowLevelRetries := (c 22).toOptInt
    maxDuration := (c 23).toText
    maxAge := (c 24).toText
    minAge := (c 25).toText
    maxDepth := (c 26).toOptInt
    deleteExcluded := (c 27).toBool
    dryRun := (c 28).toBool
    maxTransfer := (c 29).toText
    maxDeleteSize := (c 30).toText
    suffix := (c 31).toText
    suffixKeepExtension := (c 32).toBool
    checkFirst := (c 33).toBool
    orderBy := (c 34).toText
    retriesSleep := (c 35).toText
    tpsLimit := (c 36).toOptDouble
    connTimeout := (c 37).toText
    ioTimeout := (c 38).toText
    sizeOnly := (c 39).toBool
    updateMode := (c 40).toBool
    ignoreExisting := (c 41).toBool
    deleteTiming := (c 42).toText
    resilient := (c 43).toBool
    maxLock := (c 44).toText
    checkAccess := (c 45).toBool
    conflictLoser := (c 46).toText
    conflictSuffix := (c 47).toText }

/-- The rows of the table `profiles`. -/
abbrev Db := List (List SqlValue)

def rowName (r : List SqlValue) : Text := (r.getD 0 .null).toText

def getProfile (db : Db) (name : Text) : Option Profile :=
  (db.find? (rowName · = name)).map scanProfile

/-- Swift trims `.whitespaces` (not newlines). -/
def trimBlanks (s : Text) : Text :=
  let blank (c : Char) : Bool := c = ' ' || c = '\t'
  (s.dropWhile blank).rdropWhile blank

/-- The direction that is stored for `d`. -/
def storedDirection (d : Text) : Text := if trimBlanks d = [] then "push".toList else trimBlanks d

def saveProfile (p : Profile) (db : Db) : Except StoreError (Profile × Db) :=
  if p.name = [] then .error (.invalid "profile: name is required".toList)
  else
    let dir := storedDirection p.direction
    if !Flows.FlowAction.isValid dir then
      .error (.invalid ("profile: invalid direction ".toList ++ p.direction))
    else
      let p := { p with direction := dir }
      -- the name is the table's primary key
      .ok (p, if db.any (rowName · = p.name) then
          db.map fun r => if rowName r = p.name then columns p else r
        else db ++ [columns p])

def profilesGet (name : Text) (db : Db) : Except RpcError Profile :=
  match getProfile db name with
  | some p => .ok p
  | none => .error (.new "profile_not_found" ("profile ".toList ++ name ++ " not found".toList))

/-- The profile of the answer, and the table afterwards. -/
def profilesSave (err : Text) (d : JsonDict) (db : Db) : Except RpcError (Profile × Db) := do
  let profile ← parseProfile err d
  let (profile, db) ← (saveProfile profile db).mapError storeError
  return (← profilesGet profile.name db, db)

-- ============================================================================
-- What is kept
-- ============================================================================

/-- The fields that are left out of JSON when they are `None`. -/
def optionalNumbers : List SyncOption :=
  [.maxDepth, .maxDelete, .multiThreadStreams, .retries, .lowLevelRetries, .tpsLimit]

/-- The default of a field in the table. -/
def storedDefault : Field → OptionValue Rat
  | .direction => .text "push".toList
  | f => field {} f

/-- The stored profile has every well-typed value that the request names, and
    the defaults for the rest. -/
structure Honours (d : JsonDict) (q : Profile) : Prop where
  named : ∀ f v w, d.get f.key = some v → decode v f = some w → field q f = w
  unnamed : ∀ f, d.get f.key = none → field q f = storedDefault f

/-- The request names no optional number, except as `null`, and names the
    direction as it is stored. -/
structure Plain (d : JsonDict) : Prop where
  optional : ∀ o ∈ optionalNumbers, ∀ v w, d.get (Field.option o).key = some v →
    decode v (.option o) = some w → w = field {} (.option o)
  direction : ∀ s, d.get Field.direction.key = some (.string s) → storedDirection s = s

/-- What the table can hold: a name, a direction as `save_profile` stores it,
    and 64-bit integers. -/
structure Stored (p : Profile) : Prop where
  name : p.name ≠ []
  valid : Flows.FlowAction.isValid p.direction = true
  trimmed : storedDirection p.direction = p.direction
  bandwidth : inRange p.bandwidth = true
  parallel : inRange p.parallel = true

-- ============================================================================
-- Objects and fields
-- ============================================================================

section

variable {d m : JsonDict} {p q : Profile} {f : Field} {o : SyncOption}

theorem mem_fields (f : Field) : f ∈ fields := by
  cases f with
  | option o => cases o <;> decide
  | _ => decide

theorem key_injective : Function.Injective Field.key := by
  intro f g h
  have hnodup : (fields.map Field.key).Nodup := by decide +kernel
  exact List.inj_on_of_nodup_map hnodup (mem_fields f) (mem_fields g) h

/-- The value of a key of an object that is written field by field. -/
theorem get_filterMap {l : List Field} {e : Field → Option Json} (hf : f ∈ l) :
    JsonDict.get (l.filterMap fun f => (e f).map fun v => (f.key, v)) f.key = e f := by
  have hnone : ∀ l : List Field, f ∉ l →
      JsonDict.get (l.filterMap fun f => (e f).map fun v => (f.key, v)) f.key = none := by
    intro l hl
    have hfind : (l.filterMap fun f => (e f).map fun v => (f.key, v)).find? (·.1 = f.key) = none := by
      rw [List.find?_eq_none]
      intro kv hkv
      obtain ⟨g, hg, hgv⟩ := List.mem_filterMap.mp hkv
      obtain ⟨v, -, rfl⟩ := Option.map_eq_some_iff.mp hgv
      intro heq
      exact hl (key_injective (of_decide_eq_true heq) ▸ hg)
    rw [JsonDict.get, hfind]
    rfl
  induction l with
  | nil => cases hf
  | cons g l ih =>
    by_cases hgf : g = f
    · subst hgf
      cases he : e g with
      | some v => simp [JsonDict.get, he]
      | none =>
        rw [List.filterMap_cons_none (by rw [he]; rfl)]
        by_cases hmem : g ∈ l
        · rw [ih hmem, he]
        · exact hnone l hmem
    · have hmem : f ∈ l := by
        rcases List.mem_cons.mp hf with rfl | hmem
        · exact absurd rfl hgf
        · exact hmem
      cases he : e g with
      | none => rw [List.filterMap_cons_none (by rw [he]; rfl), ih hmem]
      | some v =>
        have hne : ¬ g.key = f.key := fun heq => hgf (key_injective heq)
        rw [List.filterMap_cons_some (by rw [he]; rfl), ← ih hmem]
        simp [JsonDict.get, hne]

theorem profileJson_get (p : Profile) (f : Field) :
    (profileJson p).get f.key = encode (field p f) := get_filterMap (mem_fields f)

theorem overlay_get (d : JsonDict) (f : Field) :
    (overlay d).get f.key = (encode (field {} f)).map fun v => (d.get f.key).getD v := by
  rw [← profileJson_get {} f]
  unfold overlay JsonDict.get
  rw [List.find?_map]
  cases hfind : (profileJson {}).find? (·.1 = f.key) with
  | none => simp [Function.comp_def, hfind]
  | some kv =>
    have hkey : kv.1 = f.key := by simpa using List.find?_some hfind
    simp [Function.comp_def, hfind, hkey]

/-- A typed reader as a decoder. -/
theorem read_eq {α : Type} (x : Option Json) (as : Json → Option α) (c : α → OptionValue Rat)
    (dflt : α) :
    c ((x.bind as).getD dflt) = (x.bind fun v => (as v).map c).getD (c dflt) := by
  cases x with
  | none => rfl
  | some v =>
    simp only [Option.bind_some]
    cases as v <;> rfl

theorem ofJson_field (m : JsonDict) (f : Field) :
    field (ofJson m) f = ((m.get f.key).bind fun v => decode v f).getD (field {} f) := by
  cases f with
  | option o => cases o <;> exact read_eq ..
  | _ => exact read_eq ..

theorem wellTyped_decode (hm : wellTyped m = true) {v : Json} (hv : m.get f.key = some v) :
    ∃ w, decode v f = some w := by
  have hf := List.all_eq_true.mp hm f (mem_fields f)
  rw [hv] at hf
  exact Option.isSome_iff_exists.mp hf

theorem asTexts_strings (l : List Text) : asTexts (.array (l.map .string)) = some l := by
  show (l.map Json.string).mapM asText = some l
  rw [List.mapM_map]
  induction l with
  | nil => rfl
  | cons s l ih =>
    rw [List.mapM_cons, ih]
    rfl

/-- Without optional numbers, every value is read back as it was written. -/
theorem decode_encode (hb : inRange p.bandwidth = true) (hp : inRange p.parallel = true)
    (hnone : ∀ o ∈ optionalNumbers, encode (p.option o) = none) {v : Json}
    (hv : encode (field p f) = some v) : decode v f = some (field p f) := by
  have htexts : ∀ l, (asTexts (.array (l.map .string))).map OptionValue.texts
      = some (OptionValue.texts (F := Rat) l) := fun l => by rw [asTexts_strings]; rfl
  have hint : ∀ n, inRange n = true → (asInt (.number (.int n))).map OptionValue.int
      = some (OptionValue.int (F := Rat) n) := fun n hn => by simp [asInt, hn]
  have hoptional : ∀ o ∈ optionalNumbers, f ≠ .option o := by
    rintro o ho rfl
    exact absurd ((hnone o ho).symm.trans hv) (by simp)
  cases f with
  | option o =>
    cases o with
    | includedPaths | excludedPaths =>
      cases hv
      exact htexts _
    | bandwidth =>
      cases hv
      exact hint _ hb
    | parallel =>
      cases hv
      exact hint _ hp
    | maxDepth | maxDelete | multiThreadStreams | retries | lowLevelRetries | tpsLimit =>
      exact absurd rfl (hoptional _ (by decide))
    | _ =>
      cases hv
      rfl
  | _ =>
    cases hv
    rfl

/-- Only an optional number is left out, and only the default one. -/
theorem encode_none (h : encode (field p f) = none) :
    (∃ o ∈ optionalNumbers, f = .option o) ∧ field p f = field {} f := by
  cases f with
  | option o =>
    cases o with
    | maxDepth | maxDelete | multiThreadStreams | retries | lowLevelRetries =>
      refine ⟨⟨_, by decide, rfl⟩, congrArg OptionValue.optInt (Option.map_eq_none_iff.mp h)⟩
    | tpsLimit =>
      refine ⟨⟨_, by decide, rfl⟩, congrArg OptionValue.optFloat (Option.map_eq_none_iff.mp h)⟩
    | _ => cases h
  | _ => cases h

theorem encode_default (ho : o ∈ optionalNumbers) : encode (field {} (.option o)) = none := by
  revert o
  decide

/-- A field that is not an optional number is taken from the request, and has
    its default where the request has nothing. -/
theorem parsed_field (hf : ∀ o ∈ optionalNumbers, f ≠ .option o) :
    (∀ v w, d.get f.key = some v → decode v f = some w → field (ofJson (overlay d)) f = w) ∧
      (d.get f.key = none → field (ofJson (overlay d)) f = field {} f) := by
  cases hdef : encode (field {} f) with
  | none =>
    obtain ⟨⟨o, ho, rfl⟩, -⟩ := encode_none hdef
    exact absurd rfl (hf o ho)
  | some v₀ =>
    have hread : field (ofJson (overlay d)) f =
        (decode ((d.get f.key).getD v₀) f).getD (field {} f) := by
      rw [ofJson_field, overlay_get, hdef]
      rfl
    refine ⟨fun v w hv hw => ?_, fun hnone => ?_⟩
    · rw [hread, hv, Option.getD_some, hw, Option.getD_some]
    · rw [hread, hnone, Option.getD_none,
        decode_encode rfl rfl (fun o ho => by revert o; decide) hdef]
      rfl

/-- An optional number is not taken over. -/
theorem parsed_optional (ho : o ∈ optionalNumbers) :
    field (ofJson (overlay d)) (.option o) = field {} (.option o) := by
  rw [ofJson_field, overlay_get, encode_default ho]
  rfl

-- ============================================================================
-- Rows
-- ============================================================================

theorem toBool_bool (b : Bool) : (SqlValue.bool b).toBool = b := by cases b <;> rfl

theorem toOptInt_optInt (n : Option Int) : (SqlValue.optInt n).toOptInt = n := by cases n <;> rfl

theorem toOptDouble_optReal (x : Option Rat) : (SqlValue.optReal x).toOptDouble = x := by
  cases x <;> rfl

/-- A profile is its fields. -/
theorem ext_field (h : ∀ f, field p f = field q f) : p = q := by
  have ho : ∀ o, p.option o = q.option o := fun o => h (.option o)
  have text : ∀ {s t}, OptionValue.text (F := Rat) s = .text t → s = t := OptionValue.text.inj
  have texts : ∀ {s t}, OptionValue.texts (F := Rat) s = .texts t → s = t := OptionValue.texts.inj
  have flag : ∀ {s t}, OptionValue.flag (F := Rat) s = .flag t → s = t := OptionValue.flag.inj
  have int : ∀ {s t}, OptionValue.int (F := Rat) s = .int t → s = t := OptionValue.int.inj
  have optInt : ∀ {s t}, OptionValue.optInt (F := Rat) s = .optInt t → s = t := OptionValue.optInt.inj
  have optFloat : ∀ {s t}, OptionValue.optFloat (F := Rat) s = .optFloat t → s = t :=
    OptionValue.optFloat.inj
  cases p
  cases q
  simp only [Rclone.Profile.mk.injEq]
  exact ⟨text (h .name), text (h .fromPath), text (h .toPath), text (h .direction),
    texts (ho .includedPaths), texts (ho .excludedPaths), int (ho .bandwidth), int (ho .parallel),
    text (ho .backupPath), text (ho .cachePath), text (ho .minSize), text (ho .maxSize),
    text (ho .filterFromFile), text (ho .excludeIfPresent), flag (ho .useRegex), text (ho .maxAge),
    text (ho .minAge), optInt (ho .maxDepth), flag (ho .deleteExcluded), optInt (ho .maxDelete),
    flag (ho .immutable), text (ho .conflictResolution), flag (ho .dryRun), text (ho .maxTransfer),
    text (ho .maxDeleteSize), text (ho .suffix), flag (ho .suffixKeepExtension),
    optInt (ho .multiThreadStreams), text (ho .bufferSize), optInt (ho .retries),
    optInt (ho .lowLevelRetries), text (ho .maxDuration), flag (ho .checkFirst),
    text (ho .orderBy), text (ho .retriesSleep), optFloat (ho .tpsLimit), text (ho .connTimeout),
    text (ho .ioTimeout), flag (ho .sizeOnly), flag (ho .updateMode), flag (ho .ignoreExisting),
    text (ho .deleteTiming), flag (ho .resilient), text (ho .maxLock), flag (ho .checkAccess),
    text (ho .conflictLoser), text (ho .conflictSuffix), flag (ho .fastList)⟩

/-- The columns are read in the order in which they are written. -/
theorem scan_columns (p : Profile) : scanProfile (columns p) = p := by
  refine ext_field fun f => ?_
  cases f with
  | option o =>
    cases o with
    | useRegex | deleteExcluded | immutable | dryRun | suffixKeepExtension | checkFirst | sizeOnly
    | updateMode | ignoreExisting | resilient | checkAccess | fastList =>
      exact congrArg OptionValue.flag (toBool_bool _)
    | maxDepth | maxDelete | multiThreadStreams | retries | lowLevelRetries =>
      exact congrArg OptionValue.optInt (toOptInt_optInt _)
    | tpsLimit => exact congrArg OptionValue.optFloat (toOptDouble_optReal _)
    | _ => rfl
  | _ => rfl

/-- A profile that has been saved is found under its name. -/
theorem get_upsert (p : Profile) (db : Db) :
    getProfile (if db.any (rowName · = p.name) then
        db.map fun r => if rowName r = p.name then columns p else r
      else db ++ [columns p]) p.name = some p := by
  have hname : rowName (columns p) = p.name := rfl
  unfold getProfile
  split
  · rename_i hany
    obtain ⟨r, hr, hrn⟩ := List.any_eq_true.mp hany
    rw [List.find?_map]
    have hcond : (fun r => decide (rowName r = p.name)) ∘
        (fun r => if rowName r = p.name then columns p else r) =
          fun r => decide (rowName r = p.name) := by
      funext r
      by_cases h : rowName r = p.name <;> simp [h, hname]
    rw [hcond]
    cases hfind : db.find? (fun r => decide (rowName r = p.name)) with
    | none => exact absurd hrn (List.find?_eq_none.mp hfind r hr)
    | some r' =>
      have hr' : rowName r' = p.name := by simpa using List.find?_some hfind
      simp [hr', scan_columns]
  · rename_i hany
    have hnone : db.find? (fun r => decide (rowName r = p.name)) = none := by
      rw [List.find?_eq_none]
      intro r hr hrn
      exact hany (List.any_eq_true.mpr ⟨r, hr, hrn⟩)
    rw [List.find?_append, hnone]
    simp [hname, scan_columns]

-- ============================================================================
-- Saving and getting
-- ============================================================================

theorem saveProfile_spec {p' : Profile} {db db' : Db} (h : saveProfile p db = .ok (p', db')) :
    p' = { p with direction := storedDirection p.direction } ∧ getProfile db' p'.name = some p' := by
  unfold saveProfile at h
  simp only at h
  split at h
  · cases h
  · split at h
    · cases h
    · obtain ⟨rfl, rfl⟩ := Prod.mk.inj (Except.ok.inj h)
      exact ⟨rfl, get_upsert _ db⟩

theorem saveProfile_stored (hp : Stored p) (db : Db) : ∃ db', saveProfile p db = .ok (p, db') := by
  have hsame : { p with direction := storedDirection p.direction } = p := by rw [hp.trimmed]
  unfold saveProfile
  simp only [hp.name, if_false, hp.trimmed, hp.valid, Bool.not_true, Bool.false_eq_true]
  exact ⟨_, rfl⟩

theorem profilesGet_of_getProfile {name : Text} {db : Db} (h : getProfile db name = some p) :
    profilesGet name db = .ok p := by
  unfold profilesGet
  rw [h]

/-- A request that succeeds stores the parsed profile with its direction as it
    is stored, and answers with it. -/
theorem profilesSave_spec {err : Text} {db db' : Db} (h : profilesSave err d db = .ok (q, db')) :
    q = { ofJson (overlay d) with direction := storedDirection (ofJson (overlay d)).direction } ∧
      profilesGet q.name db' = .ok q := by
  obtain ⟨p, hp, h⟩ := bind_eq_ok h
  obtain ⟨⟨p', db₁⟩, hsave, h⟩ := bind_eq_ok h
  obtain ⟨q', hget, h⟩ := bind_eq_ok h
  obtain ⟨rfl, rfl⟩ := Prod.mk.inj (Except.ok.inj h)
  have hparsed : p = ofJson (overlay d) := by
    unfold parseProfile at hp
    simp only at hp
    split at hp
    · exact (Except.ok.inj hp).symm
    · cases hp
  have hok : saveProfile p db = .ok (p', db₁) := by
    cases hs : saveProfile p db with
    | error e =>
      rw [hs] at hsave
      cases hsave
    | ok x =>
      rw [hs] at hsave
      exact congrArg Except.ok (Except.ok.inj hsave)
  obtain ⟨hp', hfound⟩ := saveProfile_spec hok
  have hget' := profilesGet_of_getProfile hfound
  obtain rfl := Except.ok.inj (hget.symm.trans hget')
  exact ⟨hparsed ▸ hp', hget'⟩

/-- The fields of a stored profile, but for its direction, are those parsed. -/
theorem withDirection_field {s : Text} (hf : f ≠ .direction) :
    field { p with direction := s } f = field p f := by
  cases f with
  | direction => exact absurd rfl hf
  | option o => cases o <;> rfl
  | _ => rfl

/-- What the request's direction is stored as. -/
theorem parsed_direction :
    (∀ s, d.get Field.direction.key = some (.string s) → (ofJson (overlay d)).direction = s) ∧
      (d.get Field.direction.key = none → (ofJson (overlay d)).direction = []) := by
  obtain ⟨hnamed, hunnamed⟩ := parsed_field (d := d) (f := .direction) (by simp)
  exact ⟨fun s hs => OptionValue.text.inj (hnamed _ _ hs rfl),
    fun hnone => OptionValue.text.inj (hunnamed hnone)⟩

theorem decode_direction {v : Json} {w : OptionValue Rat} (h : decode v .direction = some w) :
    ∃ s, v = .string s ∧ w = .text s := by
  cases v with
  | string s => exact ⟨s, rfl, (Option.some.inj h).symm⟩
  | _ => cases h

/-- A request is honoured exactly when it is plain. -/
theorem honours_iff {err : Text} {db db' : Db} (h : profilesSave err d db = .ok (q, db')) :
    Honours d q ↔ Plain d := by
  obtain ⟨rfl, -⟩ := profilesSave_spec h
  constructor
  · intro hh
    refine ⟨fun o ho v w hv hw => ?_, fun s hs => ?_⟩
    · have hnamed := hh.named (.option o) v w hv hw
      rw [withDirection_field (by simp), parsed_optional ho] at hnamed
      exact hnamed.symm
    · have hnamed := OptionValue.text.inj (hh.named .direction _ _ hs rfl)
      rwa [parsed_direction.1 s hs] at hnamed
  · intro hplain
    refine ⟨fun f v w hv hw => ?_, fun f hnone => ?_⟩
    · by_cases hdir : f = .direction
      · subst hdir
        obtain ⟨s, rfl, rfl⟩ := decode_direction hw
        show OptionValue.text (storedDirection (ofJson (overlay d)).direction) = .text s
        rw [parsed_direction.1 s hv, hplain.direction s hv]
      · rw [withDirection_field hdir]
        by_cases hopt : ∃ o ∈ optionalNumbers, f = .option o
        · obtain ⟨o, ho, rfl⟩ := hopt
          rw [parsed_optional ho, hplain.optional o ho v w hv hw]
        · exact (parsed_field fun o ho hf => hopt ⟨o, ho, hf⟩).1 v w hv hw
    · by_cases hdir : f = .direction
      · subst hdir
        show OptionValue.text (storedDirection (ofJson (overlay d)).direction) = _
        rw [parsed_direction.2 hnone]
        rfl
      · have hdefault : storedDefault f = field {} f := by
          cases f with
          | direction => exact absurd rfl hdir
          | _ => rfl
        rw [withDirection_field hdir, hdefault]
        by_cases hopt : ∃ o ∈ optionalNumbers, f = .option o
        · obtain ⟨o, ho, rfl⟩ := hopt
          exact parsed_optional ho
        · exact (parsed_field fun o ho hf => hopt ⟨o, ho, hf⟩).2 hnone

/-- A profile without optional numbers is parsed from its JSON. -/
theorem parse_profileJson (err : Text) (hp : Stored p)
    (hnone : ∀ o ∈ optionalNumbers, encode (p.option o) = none) :
    parseProfile err (profileJson p) = .ok p := by
  have hget : ∀ f, (overlay (profileJson p)).get f.key = encode (field p f) := by
    intro f
    rw [overlay_get, profileJson_get]
    cases hdef : encode (field {} f) with
    | none =>
      obtain ⟨⟨o, ho, rfl⟩, -⟩ := encode_none hdef
      exact (hnone o ho).symm
    | some v₀ =>
      cases hv : encode (field p f) with
      | some v => rfl
      | none =>
        rw [← (encode_none hv).2, hv] at hdef
        cases hdef
  have hdecode : ∀ f v, encode (field p f) = some v → decode v f = some (field p f) := fun f v =>
    decode_encode hp.bandwidth hp.parallel hnone
  have htyped : wellTyped (overlay (profileJson p)) = true := by
    refine List.all_eq_true.mpr fun f _ => ?_
    rw [hget]
    cases hv : encode (field p f) with
    | none => rfl
    | some v => rw [Option.all_some, hdecode f v hv, Option.isSome_some]
  have hsame : ofJson (overlay (profileJson p)) = p := by
    refine ext_field fun f => ?_
    rw [ofJson_field, hget]
    cases hv : encode (field p f) with
    | none => exact (encode_none hv).2.symm
    | some v => rw [Option.bind_some, hdecode f v hv, Option.getD_some]
  simp only [parseProfile, htyped, if_true, hsame]

end

/-- A stored profile that is got and saved as it was got is the same afterwards
    exactly when it has no optional number; and any request that succeeds is
    honoured, field by field, exactly when it names no optional number but as
    `null`, and the direction as it is stored. -/
theorem profiles_round_trip (err : Text) :
    (∀ p db, Stored p →
      ((∃ db', profilesSave err (profileJson p) db = .ok (p, db') ∧
          profilesGet p.name db' = .ok p) ↔
        ∀ o ∈ optionalNumbers, encode (p.option o) = none)) ∧
    ∀ d db q db', profilesSave err d db = .ok (q, db') → (Honours d q ↔ Plain d) := by
  refine ⟨fun p db hp => ⟨?_, fun hnone => ?_⟩, fun d db q db' h => honours_iff h⟩
  · rintro ⟨db', hsave, -⟩ o ho
    obtain ⟨hq, -⟩ := profilesSave_spec hsave
    have hoption : p.option o = ({} : Profile).option o := by
      have hfield : field p (.option o) = field _ (.option o) := congrArg (field · (.option o)) hq
      exact hfield.trans ((withDirection_field (by simp)).trans (parsed_optional ho))
    rw [hoption]
    exact encode_default ho
  · obtain ⟨db', hsave⟩ := saveProfile_stored hp db
    have hget := profilesGet_of_getProfile (saveProfile_spec hsave).2
    refine ⟨db', ?_, hget⟩
    unfold profilesSave
    rw [parse_profileJson err hp hnone]
    simp only [bind, Except.bind, hsave, Except.mapError, hget, pure, Except.pure]

/-- A profile with nothing but a name and a direction. -/
def namedProfile : Profile := { name := ['p'], direction := "bi".toList }

theorem profiles_round_trip_named :
    ∃ db', profilesSave [] (profileJson namedProfile) [] = .ok (namedProfile, db') ∧
      profilesGet ['p'] db' = .ok namedProfile ∧
      (Honours (profileJson namedProfile) namedProfile ↔ Plain (profileJson namedProfile)) := by
  have hstored : Stored namedProfile := ⟨by simp [namedProfile], by decide, by decide, rfl, rfl⟩
  obtain ⟨db', hsave, hget⟩ := ((profiles_round_trip []).1 namedProfile [] hstored).mpr (by decide)
  exact ⟨db', hsave, hget, (profiles_round_trip []).2 _ _ _ _ hsave⟩

/-- A profile with a limit of deletes. -/
def limitedProfile : Profile :=
  { name := ['p'], direction := "push".toList, maxDelete := some 5 }

/-- The limit is gone once the profile has been saved as it was got. -/
theorem max_delete_lost :
    ¬ ∀ p, Stored p → ∃ db', profilesSave [] (profileJson p) [] = .ok (p, db') ∧
      profilesGet p.name db' = .ok p := by
  intro h
  obtain ⟨db', hsave, -⟩ := h limitedProfile ⟨by simp [limitedProfile], by decide, by decide, rfl, rfl⟩
  have hq := congrArg Rclone.Profile.maxDelete (profilesSave_spec hsave).1
  have hlost : (ofJson (overlay (profileJson limitedProfile))).maxDelete = none := by
    decide +kernel
  exact absurd (hq.trans hlost) (by simp [limitedProfile])

end GnDrive.Rpc.Profiles
