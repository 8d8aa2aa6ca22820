/-
  GnDrive.Database.ProfileRows

  The table of profiles (`store.rs`).

  `save_profile` names 48 columns, binds 48 values by their places, and names the
  columns once more to update a row that is there; a profile is read from the
  same 48 columns by their places.  `profile_round_trip` says that every profile
  with a name and a valid direction comes back as it was saved, over whatever was
  there.  Only the direction is changed on the way: blanks around it go, other
  white space stays, for the dispatch to trim (`stored_direction`).

  A row gives each column its value.  SQLite stores a NaN as NULL.
-/

import GnDrive.Lib.JsonText
import GnDrive.Rpc.Profiles
import GnDrive.Rclone.EdgeArgs

namespace GnDrive.Database

open Flows (StoreError)
open Rclone (F64 Profile RcloneAction requestedAction)
open Rpc.Profiles (trimBlanks storedDirection)
open Text (trim)

/-- What `SqlValue` and SQLite need of `f64`: `truncate` and `ofInt` are the casts
    to and from `i64`. -/
class SqlReal (F : Type) extends F64 F where
  truncate : F → Int
  ofInt : Int → F
  isNaN : F → Bool

inductive SqlValue (F : Type) where
  | null
  | int (n : Int)
  | double (x : F)
  | text (s : Text)
  | blob (b : List UInt8)

/-- `serde_json` on lists of texts. -/
structure ListText where
  toString : List Text → Text
  fromStr : Text → Option (List Text)

/-- It reads a list as it has written it. -/
def ListText.Lossless (J : ListText) : Prop :=
  ∀ l, J.toString l ≠ [] ∧ J.fromStr (J.toString l) = some l

/-- The lists that it has written. -/
def serde : ListText := ⟨JsonText.listText, JsonText.readList⟩

namespace SqlValue

variable {F : Type} [SqlReal F]

/-- Lenient text view: numbers are stringified, null/blob → "". -/
def toText : SqlValue F → Text
  | .text s => s
  | .int n => Rclone.toText n
  | .double x => F64.debug x
  | _ => []

/-- Lenient integer view: doubles truncate, text parses (else 0). -/
def toInt : SqlValue F → Int
  | .int n => n
  | .double x => SqlReal.truncate x
  | .text s => (Rpc.parseI64 s).getD 0
  | _ => 0

def toDouble : SqlValue F → F
  | .double x => x
  | .int n => SqlReal.ofInt n
  | _ => F64.zero

def isNull : SqlValue F → Bool
  | .null => true
  | _ => false

def fromBool (b : Bool) : SqlValue F := .int (if b then 1 else 0)

/-- `Some(v)` → `Int(v)`, `None` → `Null`. -/
def fromOptInt (n : Option Int) : SqlValue F := n.elim .null .int

def fromOptDouble (x : Option F) : SqlValue F := x.elim .null .double

def toBool (v : SqlValue F) : Bool := v.toInt != 0

/-- `opt_int`. -/
def optInt (v : SqlValue F) : Option Int := if v.isNull then none else some v.toInt

/-- The cell of a bound value. -/
def cell : SqlValue F → SqlValue F
  | .double x => if SqlReal.isNaN x then .null else .double x
  | v => v

end SqlValue

/-- Decode a JSON string array; anything else → empty. -/
def stringSlice (J : ListText) (s : Text) : List Text :=
  if s = [] then [] else (J.fromStr s).getD []

/-- `PROFILE_COLUMNS` -/
def profileColumns : List String :=
  ["name", "from_path", "to_path", "direction", "included_paths", "excluded_paths", "bandwidth",
    "parallel", "backup_path", "cache_path", "min_size", "max_size", "filter_from_file",
    "exclude_if_present", "use_regex", "max_delete", "immutable", "conflict_resolution",
    "multi_thread_streams", "buffer_size", "fast_list", "retries", "low_level_retries",
    "max_duration", "max_age", "min_age", "max_depth", "delete_excluded", "dry_run",
    "max_transfer", "max_delete_size", "suffix", "suffix_keep_extension", "check_first",
    "order_by", "retries_sleep", "tps_limit", "conn_timeout", "io_timeout", "size_only",
    "update_mode", "ignore_existing", "delete_timing", "resilient", "max_lock", "check_access",
    "conflict_loser", "conflict_suffix"]

/-- The columns of `ON CONFLICT(name) DO UPDATE SET`. -/
def updatedColumns : List String :=
  ["from_path", "to_path", "direction", "included_paths", "excluded_paths", "bandwidth",
    "parallel", "backup_path", "cache_path", "min_size", "max_size", "filter_from_file",
    "exclude_if_present", "use_regex", "max_delete", "immutable", "conflict_resolution",
    "multi_thread_streams", "buffer_size", "fast_list", "retries", "low_level_retries",
    "max_duration", "max_age", "min_age", "max_depth", "delete_excluded", "dry_run",
    "max_transfer", "max_delete_size", "suffix", "suffix_keep_extension", "check_first",
    "order_by", "retries_sleep", "tps_limit", "conn_timeout", "io_timeout", "size_only",
    "update_mode", "ignore_existing", "delete_timing", "resilient", "max_lock", "check_access",
    "conflict_loser", "conflict_suffix"]

section

variable {F : Type} [SqlReal F] (J : ListText)

/-- The values that `save_profile` binds. -/
def profileArgs (p : Profile F) : List (SqlValue F) :=
  [.text p.name, .text p.fromPath, .text p.toPath, .text p.direction,
    .text (J.toString p.includedPaths), .text (J.toString p.excludedPaths), .int p.bandwidth,
    .int p.parallel, .text p.backupPath, .text p.cachePath, .text p.minSize, .text p.maxSize,
    .text p.filterFromFile, .text p.excludeIfPresent, .fromBool p.useRegex,
    .fromOptInt p.maxDelete, .fromBool p.immutable, .text p.conflictResolution,
    .fromOptInt p.multiThreadStreams, .text p.bufferSize, .fromBool p.fastList,
    .fromOptInt p.retries, .fromOptInt p.lowLevelRetries, .text p.maxDuration, .text p.maxAge,
    .text p.minAge, .fromOptInt p.maxDepth, .fromBool p.deleteExcluded, .fromBool p.dryRun,
    .text p.maxTransfer, .text p.maxDeleteSize, .text p.suffix, .fromBool p.suffixKeepExtension,
    .fromBool p.checkFirst, .text p.orderBy, .text p.retriesSleep, .fromOptDouble p.tpsLimit,
    .text p.connTimeout, .text p.ioTimeout, .fromBool p.sizeOnly, .fromBool p.updateMode,
    .fromBool p.ignoreExisting, .text p.deleteTiming, .fromBool p.resilient, .text p.maxLock,
    .fromBool p.checkAccess, .text p.conflictLoser, .text p.conflictSuffix]

def scanProfile (r : List (SqlValue F)) : Profile F :=
  let c (i : Nat) : SqlValue F := r.getD i .null
  {
    name := (c 0).toText
    fromPath := (c 1).toText
    toPath := (c 2).toText
    direction := (c 3).toText
    includedPaths := stringSlice J (c 4).toText
    excludedPaths := stringSlice J (c 5).toText
    bandwidth := (c 6).toInt
    parallel := (c 7).toInt
    backupPath := (c 8).toText
    cachePath := (c 9).toText
    minSize := (c 10).toText
    maxSize := (c 11).toText
    filterFromFile := (c 12).toText
    excludeIfPresent := (c 13).toText
    useRegex := (c 14).toBool
    maxDelete := (c 15).optInt
    immutable := (c 16).toBool
    conflictResolution := (c 17).toText
    multiThreadStreams := (c 18).optInt
    bufferSize := (c 19).toText
    fastList := (c 20).toBool
    retries := (c 21).optInt
    lowLevelRetries := (c 22).optInt
    maxDuration := (c 23).toText
    maxAge := (c 24).toText
    minAge := (c 25).toText
    maxDepth := (c 26).optInt
    deleteExcluded := (c 27).toBool
    dryRun := (c 28).toBool
    maxTransfer := (c 29).toText
    maxDeleteSize := (c 30).toText
    suffix := (c 31).toText
    suffixKeepExtension := (c 32).toBool
    checkFirst := (c 33).toBool
    orderBy := (c 34).toText
    retriesSleep := (c 35).toText
    tpsLimit := if (c 36).isNull then none else some (c 36).toDouble
    connTimeout := (c 37).toText
    ioTimeout := (c 38).toText
    sizeOnly := (c 39).toBool
    updateMode := (c 40).toBool
    ignoreExisting := (c 41).toBool
    deleteTiming := (c 42).toText
    resilient := (c 43).toBool
    maxLock := (c 44).toText
    checkAccess := (c 45).toBool
    conflictLoser := (c 46).toText
    conflictSuffix := (c 47).toText }

/-- A row of the table, column by column. -/
abbrev Row (F : Type) := String → SqlValue F

/-- The primary key is the text `n`. -/
def named (n : Text) (r : Row F) : Bool :=
  match r "name" with
  | .text s => s = n
  | _ => false

/-- `INSERT INTO profiles (…) VALUES (?, …)`; no column is left to its default. -/
def insertedRow (values : List (SqlValue F)) : Row F := fun c =>
  (((profileColumns.zip values).find? (·.1 = c)).map (·.2.cell)).getD .null

/-- `ON CONFLICT(name) DO UPDATE SET c=excluded.c, …` -/
def updatedRow (excluded old : Row F) : Row F := fun c =>
  if updatedColumns.contains c then excluded c else old c

def upsertRow (n : Text) (new : Row F) (rows : List (Row F)) : List (Row F) :=
  if rows.any (named n) then rows.map fun r => if named n r then updatedRow new r else r
  else rows ++ [new]

def getProfile (rows : List (Row F)) (name : Text) : Option (Profile F) :=
  (rows.find? (named name)).map fun r => scanProfile J (profileColumns.map r)

/-- The profile with the direction that is stored, and the table afterwards. -/
def saveProfile (p : Profile F) (rows : List (Row F)) :
    Except StoreError (Profile F × List (Row F)) :=
  if p.name = [] then .error (.invalid "profile: name is required".toList)
  else
    let dir := storedDirection p.direction
    if !Flows.FlowAction.isValid dir then
      .error (.invalid ("profile: invalid direction ".toList ++ p.direction))
    else
      let p := { p with direction := dir }
      .ok (p, upsertRow p.name (insertedRow (profileArgs J p)) rows)

end

namespace Sample

/-- Whole numbers, none of them NaN. -/
instance wholeReals : SqlReal Nat where
  truncate n := n
  ofInt n := n.toNat
  isNaN _ := false

/-- A profile with blanks around its direction. -/
def profile : Profile Nat where
  name := "docs".toList
  fromPath := "/docs".toList
  toPath := "drive:docs".toList
  direction := " bi\t".toList
  includedPaths := ["a \"b\"".toList, "c\\d".toList]
  maxDelete := some 0
  tpsLimit := some 3

/-- An earlier row of the same name. -/
def row : Row Nat := fun c => if c = "name" then .text "docs".toList else .int 7

end Sample

section

variable {F : Type} [SqlReal F] {J : ListText} {p p' q : Profile F} {rows rows' : List (Row F)}
  {r old new : Row F} {n : Text}

/-! ## Values -/

theorem serde_lossless : serde.Lossless := by
  intro l
  refine ⟨?_, JsonText.readList_listText l⟩
  cases l with
  | nil => exact List.cons_ne_nil _ _
  | cons s l => exact List.cons_ne_nil _ _

theorem stringSlice_toString (hJ : J.Lossless) (l : List Text) :
    stringSlice J (J.toString l) = l := by
  unfold stringSlice
  rw [if_neg (hJ l).1, (hJ l).2]
  rfl

theorem toBool_fromBool (b : Bool) : (SqlValue.fromBool b : SqlValue F).cell.toBool = b := by
  cases b with
  | false => rfl
  | true => rfl

theorem optInt_fromOptInt (n : Option Int) :
    (SqlValue.fromOptInt n : SqlValue F).cell.optInt = n := by
  cases n with
  | none => rfl
  | some n => rfl

theorem double_fromOptDouble {x : Option F} (h : ∀ y, x = some y → SqlReal.isNaN y = false) :
    (if (SqlValue.fromOptDouble x).cell.isNull then none
      else some (SqlValue.fromOptDouble x).cell.toDouble) = x := by
  cases x with
  | none => rfl
  | some y =>
    have hcell : (SqlValue.fromOptDouble (some y)).cell = .double y := by
      show (if SqlReal.isNaN y then _ else _) = _
      rw [h y rfl, if_neg Bool.false_ne_true]
    rw [hcell]
    rfl

/-- The columns are read in the order in which they are written. -/
theorem scan_cells (hJ : J.Lossless)
    (hnan : ∀ x, p.tpsLimit = some x → SqlReal.isNaN x = false) :
    scanProfile J ((profileArgs J p).map SqlValue.cell) = p := by
  cases p
  unfold scanProfile
  dsimp only
  congr 1
  · exact stringSlice_toString hJ _
  · exact stringSlice_toString hJ _
  case e_maxDepth | e_maxDelete | e_multiThreadStreams | e_retries | e_lowLevelRetries =>
    exact optInt_fromOptInt _
  case e_tpsLimit => exact double_fromOptDouble hnan
  -- what is left are the flags
  all_goals exact toBool_fromBool _

/-! ## Rows -/

theorem map_find_zip {names : List String} {values : List (SqlValue F)} (hnodup : names.Nodup)
    (hlen : names.length = values.length) :
    names.map (fun c => (((names.zip values).find? (·.1 = c)).map (·.2.cell)).getD .null) =
      values.map SqlValue.cell := by
  induction names generalizing values with
  | nil =>
    obtain rfl := List.length_eq_zero_iff.mp hlen.symm
    rfl
  | cons c names ih =>
    obtain ⟨v, values, rfl⟩ := List.exists_cons_of_length_pos (l := values) (by
      rw [← hlen]
      exact Nat.succ_pos _)
    obtain ⟨hc, hnodup⟩ := List.nodup_cons.mp hnodup
    rw [List.map_cons, List.map_cons, List.zip_cons_cons, ← ih hnodup (Nat.succ.inj hlen)]
    refine congrArg₂ List.cons ?_ (List.map_congr_left fun c' hc' => ?_)
    · rw [List.find?_cons_of_pos (by simp)]
      rfl
    · have hne : c ≠ c' := fun heq => hc (heq ▸ hc')
      rw [List.find?_cons_of_neg (by simpa using hne)]

theorem columns_nodup : profileColumns.Nodup := by decide +kernel

theorem columns_updated : ∀ c ∈ profileColumns, c = "name" ∨ updatedColumns.contains c = true := by
  decide +kernel

theorem select_inserted (p : Profile F) :
    profileColumns.map (insertedRow (profileArgs J p)) = (profileArgs J p).map SqlValue.cell :=
  map_find_zip columns_nodup rfl

omit [SqlReal F] in
/-- An update leaves nothing of the old row but the name. -/
theorem select_updated (h : new "name" = old "name") :
    profileColumns.map (updatedRow new old) = profileColumns.map new := by
  refine List.map_congr_left fun c hc => ?_
  unfold updatedRow
  split
  · rfl
  · rename_i hnot
    rcases columns_updated c hc with rfl | hupdated
    · exact h.symm
    · contradiction

omit [SqlReal F] in
theorem named_iff : named n r = true ↔ r "name" = .text n := by
  unfold named
  cases r "name" with
  | text s => simp [eq_comm]
  | _ => exact iff_of_false Bool.false_ne_true nofun

omit [SqlReal F] in
theorem named_updated (new r : Row F) : named n (updatedRow new r) = named n r := rfl

/-- The row of a saved profile, whatever was there under its name. -/
theorem getProfile_upsert (h : new "name" = .text n) :
    getProfile J (upsertRow n new rows) n = some (scanProfile J (profileColumns.map new)) := by
  have hnew : named n new = true := named_iff.mpr h
  unfold getProfile upsertRow
  split
  · rename_i hany
    have hcond : named n ∘ (fun r => if named n r then updatedRow new r else r) = named n := by
      funext r
      rw [Function.comp_apply]
      split
      · exact named_updated new r
      · rfl
    rw [List.find?_map, hcond]
    cases hfind : rows.find? (named n) with
    | none =>
      obtain ⟨r, hr, hname⟩ := List.any_eq_true.mp hany
      exact absurd hname (List.find?_eq_none.mp hfind r hr)
    | some old =>
      have hold : named n old = true := List.find?_some hfind
      rw [Option.map_some, Option.map_some, if_pos hold,
        select_updated (h.trans (named_iff.mp hold).symm)]
  · rename_i hany
    have hnone : rows.find? (named n) = none := by
      rw [List.find?_eq_none]
      intro r hr hname
      exact hany (List.any_eq_true.mpr ⟨r, hr, hname⟩)
    rw [List.find?_append, hnone, Option.none_or, List.find?_cons_of_pos hnew]
    rfl

/-! ## Saving and reading -/

theorem saveProfile_ok_iff :
    saveProfile J p rows = .ok (q, rows') ↔
      p.name ≠ [] ∧ Flows.FlowAction.isValid (storedDirection p.direction) = true ∧
        q = { p with direction := storedDirection p.direction } ∧
        rows' = upsertRow p.name (insertedRow (profileArgs J q)) rows := by
  unfold saveProfile
  by_cases hname : p.name = []
  · rw [if_pos hname]
    exact iff_of_false nofun fun ⟨hne, _⟩ => hne hname
  rw [if_neg hname]
  dsimp only
  cases hvalid : Flows.FlowAction.isValid (storedDirection p.direction) with
  | false => exact iff_of_false nofun fun ⟨_, h, _⟩ => nomatch h
  | true =>
    constructor
    · intro h
      obtain ⟨rfl, rfl⟩ := Prod.mk.inj (Except.ok.inj h)
      exact ⟨hname, rfl, rfl, rfl⟩
    · rintro ⟨-, -, rfl, rfl⟩
      rfl

/-- What is read is what the values of the saved profile say. -/
theorem getProfile_saved (h : saveProfile J p rows = .ok (q, rows')) :
    getProfile J rows' p.name = some (scanProfile J ((profileArgs J q).map SqlValue.cell)) := by
  obtain ⟨-, -, rfl, rfl⟩ := saveProfile_ok_iff.mp h
  have hname : insertedRow (profileArgs J { p with direction := storedDirection p.direction })
      "name" = .text p.name := rfl
  rw [getProfile_upsert hname, select_inserted]

/-! ## Directions -/

/-- Blanks are white space. -/
theorem trim_trimBlanks (s : Text) : trim (trimBlanks s) = trim s := by
  refine Text.trim_inner (fun c hc => ?_) s
  rcases (Bool.or_eq_true _ _).mp hc with hc | hc
  · rw [of_decide_eq_true hc]
    decide
  · rw [of_decide_eq_true hc]
    decide

theorem isValid_iff {s : Text} :
    Flows.FlowAction.isValid s = true ↔
      trim s ∈ ["push".toList, "bi".toList, "bi-resync".toList] := by
  unfold Flows.FlowAction.isValid
  exact decide_eq_true_iff

theorem storedDirection_of_valid {s : Text} (h : Flows.FlowAction.isValid s = true) :
    storedDirection s = trimBlanks s ∧ Flows.FlowAction.isValid (storedDirection s) = true := by
  have hne : trimBlanks s ≠ [] := by
    intro hnil
    have htrim := trim_trimBlanks s
    rw [hnil] at htrim
    have hmem := isValid_iff.mp h
    rw [← htrim] at hmem
    exact absurd hmem (by decide)
  have hsame : storedDirection s = trimBlanks s := if_neg hne
  refine ⟨hsame, ?_⟩
  rw [hsame, isValid_iff, trim_trimBlanks]
  exact isValid_iff.mp h

/-- A profile with a name, a valid direction and no NaN comes back as it was saved,
    over any earlier row; only blanks around the direction are gone. -/
theorem profile_round_trip (hJ : J.Lossless) (rows : List (Row F)) (hname : p.name ≠ [])
    (hvalid : Flows.FlowAction.isValid p.direction = true)
    (hnan : ∀ x, p.tpsLimit = some x → SqlReal.isNaN x = false) :
    ∃ rows', saveProfile J p rows = .ok ({ p with direction := trimBlanks p.direction }, rows') ∧
      getProfile J rows' p.name = some { p with direction := trimBlanks p.direction } := by
  obtain ⟨hstored, hvalid'⟩ := storedDirection_of_valid hvalid
  have hsave : saveProfile J p rows = .ok (_, _) :=
    saveProfile_ok_iff.mpr ⟨hname, hvalid', rfl, rfl⟩
  have hget := getProfile_saved hsave
  have hscan := scan_cells (p := { p with direction := trimBlanks p.direction }) hJ hnan
  rw [hstored] at hsave hget
  rw [hscan] at hget
  exact ⟨_, hsave, hget⟩

theorem profile_round_trip_blanks : ∃ rows',
    saveProfile serde Sample.profile [Sample.row] =
        .ok ({ Sample.profile with direction := "bi".toList }, rows') ∧
      getProfile serde rows' "docs".toList =
        some { Sample.profile with direction := "bi".toList } :=
  profile_round_trip serde_lossless [Sample.row] (p := Sample.profile) (by decide) (by decide)
    fun _ _ => rfl

/-- A line end at a direction stays. -/
theorem line_end_kept : ¬ ∀ (J : ListText) (p q : Profile Nat) (rows rows' : List (Row Nat)),
    J.Lossless → Flows.FlowAction.isValid p.direction = true →
      saveProfile J p rows = .ok (q, rows') →
        getProfile J rows' p.name =
          some { p with direction := Flows.FlowAction.normalize p.direction } := by
  intro h
  have hget := h serde { Sample.profile with direction := "bi\n".toList } _ [] _ serde_lossless
    (by decide) rfl
  have hdirection : some "bi\n".toList = some "bi".toList := congrArg (Option.map Profile.direction) hget
  exact absurd hdirection (by decide)

/-- The direction of a saved profile is a word of the dispatch, which trims, within
    white space; it is the word itself unless white space other than blanks is at
    its ends. -/
theorem stored_direction (h : saveProfile J p rows = .ok (p', rows')) :
    ∃ q, getProfile J rows' p.name = some q ∧
      ∃ d ∈ ["push".toList, "bi".toList, "bi-resync".toList], trim q.direction = d ∧
        requestedAction [] q = some d ∧ (RcloneAction.parse d).isSome = true ∧
        (q.direction = d ↔ trim (trimBlanks p.direction) = trimBlanks p.direction) := by
  obtain ⟨q, hq⟩ : ∃ q, scanProfile J ((profileArgs J p').map SqlValue.cell) = q := ⟨_, rfl⟩
  refine ⟨q, by rw [← hq]; exact getProfile_saved h, ?_⟩
  obtain ⟨-, hvalid, rfl, -⟩ := saveProfile_ok_iff.mp h
  have hdirection : q.direction = storedDirection p.direction := by
    rw [← hq]
    rfl
  have hmem := isValid_iff.mp hvalid
  rw [← hdirection] at hmem
  obtain ⟨b, hb, -, -⟩ := Rclone.parse_mem hmem
  refine ⟨trim q.direction, hmem, rfl, ?_, ?_, ?_⟩
  · unfold requestedAction
    rw [if_pos rfl, Flows.FlowAction.normalize_eq, if_pos hmem]
  · rw [hb]
    rfl
  · rw [hdirection]
    unfold storedDirection
    split
    · rename_i hnil
      rw [hnil]
      exact iff_of_true rfl rfl
    · exact eq_comm

theorem stored_direction_blanks : ∃ (rows' : List (Row Nat)) (q : Profile Nat),
    saveProfile serde Sample.profile [] =
        .ok ({ Sample.profile with direction := "bi".toList }, rows') ∧
      getProfile serde rows' "docs".toList = some q ∧ requestedAction [] q = some "bi".toList := by
  have hsave : saveProfile serde Sample.profile [] =
      .ok ({ Sample.profile with direction := "bi".toList },
        upsertRow "docs".toList (insertedRow (profileArgs serde
          { Sample.profile with direction := "bi".toList })) []) := rfl
  obtain ⟨q, hget, d, -, htrim, haction, -, -⟩ := stored_direction hsave
  have hq : some "bi".toList = some q.direction := congrArg (Option.map Profile.direction) hget
  refine ⟨_, q, hsave, hget, ?_⟩
  rw [haction, ← htrim, ← Option.some.inj hq]
  rfl

/-- A direction with a line end is saved, and is none of the words. -/
theorem line_end_stored : ¬ ∀ (J : ListText) (p p' : Profile Nat) (rows rows' : List (Row Nat)),
    saveProfile J p rows = .ok (p', rows') →
      ∃ q, getProfile J rows' p.name = some q ∧
        q.direction ∈ ["push".toList, "bi".toList, "bi-resync".toList] := by
  intro h
  obtain ⟨q, hget, hmem⟩ :=
    h serde { Sample.profile with direction := "bi\n".toList } _ [] _ rfl
  have hq : some "bi\n".toList = some q.direction := congrArg (Option.map Profile.direction) hget
  rw [← Option.some.inj hq] at hmem
  exact absurd hmem (by decide)

end

/-! ## Rows as lists of columns -/

section

variable [SqlReal Rat] {J : ListText} {p q : Profile Rat} {rows rows' : List (Row Rat)}
  {r : Row Rat} {n : Text}

/-- A row as `Rpc.Profiles` has it. -/
def columnsOf (J : ListText) (r : Row Rat) : List Rpc.Profiles.SqlValue :=
  Rpc.Profiles.columns (scanProfile J (profileColumns.map r))

theorem rowName_columnsOf (h : ∃ s, r "name" = .text s) :
    Rpc.Profiles.rowName (columnsOf J r) = n ↔ named n r = true := by
  obtain ⟨s, hs⟩ := h
  have hname : Rpc.Profiles.rowName (columnsOf J r) = (r "name").toText := rfl
  rw [hname, named_iff, hs]
  exact ⟨fun h => congrArg _ h, SqlValue.text.inj⟩

theorem upsertRow_columns (hJ : J.Lossless)
    (hnan : ∀ x, q.tpsLimit = some x → SqlReal.isNaN x = false)
    (hrows : ∀ r ∈ rows, ∃ s, r "name" = .text s) :
    (upsertRow q.name (insertedRow (profileArgs J q)) rows).map (columnsOf J) =
      if (rows.map (columnsOf J)).any (Rpc.Profiles.rowName · = q.name) then
        (rows.map (columnsOf J)).map fun r =>
          if Rpc.Profiles.rowName r = q.name then Rpc.Profiles.columns q else r
      else rows.map (columnsOf J) ++ [Rpc.Profiles.columns q] := by
  have hnew : columnsOf J (insertedRow (profileArgs J q)) = Rpc.Profiles.columns q := by
    unfold columnsOf
    rw [select_inserted, scan_cells hJ hnan]
  have hkey : insertedRow (profileArgs J q) "name" = .text q.name := rfl
  have hany : (rows.map (columnsOf J)).any (Rpc.Profiles.rowName · = q.name) =
      rows.any (named q.name) := by
    rw [List.any_map, Bool.eq_iff_iff, List.any_eq_true, List.any_eq_true]
    refine exists_congr fun r => and_congr_right fun hr => ?_
    exact decide_eq_true_iff.trans (rowName_columnsOf (hrows r hr))
  rw [hany]
  unfold upsertRow
  split
  · rw [List.map_map, List.map_map]
    refine List.map_congr_left fun r hr => ?_
    show columnsOf J (if named q.name r then _ else _) =
      if Rpc.Profiles.rowName (columnsOf J r) = q.name then _ else _
    by_cases hn : named q.name r = true
    · rw [if_pos hn, if_pos ((rowName_columnsOf (hrows r hr)).mpr hn), ← hnew]
      unfold columnsOf
      rw [select_updated (hkey.trans (named_iff.mp hn).symm)]
    · rw [if_neg hn, if_neg fun hname => hn ((rowName_columnsOf (hrows r hr)).mp hname)]
  · rw [List.map_append, List.map_singleton, hnew]

/-- Saving replaces the columns of the row as a whole. -/
theorem saveProfile_columns (hJ : J.Lossless)
    (hnan : ∀ x, p.tpsLimit = some x → SqlReal.isNaN x = false)
    (hrows : ∀ r ∈ rows, ∃ s, r "name" = .text s) (h : saveProfile J p rows = .ok (q, rows')) :
    Rpc.Profiles.saveProfile p (rows.map (columnsOf J)) = .ok (q, rows'.map (columnsOf J)) := by
  obtain ⟨hname, hvalid, rfl, rfl⟩ := saveProfile_ok_iff.mp h
  unfold Rpc.Profiles.saveProfile
  rw [if_neg hname]
  dsimp only
  rw [hvalid, if_neg (by decide)]
  have hcolumns := upsertRow_columns (q := { p with direction := storedDirection p.direction })
    hJ hnan hrows
  exact congrArg (fun table => Except.ok (_, table)) hcolumns.symm

end

end GnDrive.Database
