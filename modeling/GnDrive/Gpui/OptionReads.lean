/-
  GnDrive.Gpui.OptionReads

  The engine and the window read the same options from one object, or not.

  The keys of the fields are apart, so that each step of the window is looked at
  for the entries of one field only (`restrict`): of what is read from an object
  there is one value left, under both keys.  What is compared then is how the two
  choose between the values under the two keys.
-/

import GnDrive.Lib.Ints
import GnDrive.Gpui.SyncConfig
import Mathlib.Data.List.Nodup
import Mathlib.Data.List.Pairwise
import Mathlib.Tactic.ByContra

namespace GnDrive.Gpui

open Rclone (F64 SyncOption OptionValue Profile boolV doubleV intV positiveInt
  profileFromSyncConfig stringV stringsV trimWs)
open Rpc (Json JsonDict Number)
open Text (trim)

-- ============================================================================
-- Keys
-- ============================================================================

namespace FieldDef

def has (d : FieldDef) (k : Text) : Bool := k = d.key || k = d.camel

@[simp] theorem has_key (d : FieldDef) : d.has d.key = true := by simp [has]

@[simp] theorem has_camel (d : FieldDef) : d.has d.camel = true := by simp [has]

/-- The keys under which the engine looks. -/
def keys (d : FieldDef) : List Text := if d.key = d.camel then [d.key] else [d.key, d.camel]

theorem mem_keys {d : FieldDef} {k : Text} : k ∈ d.keys ↔ d.has k = true := by
  unfold keys has
  split
  · rename_i h
    simp [h]
  · simp

end FieldDef

/-- No two fields have a key in common, and none has that of the action. -/
theorem action_keys_nodup : (ACTION :: FIELDS.flatMap FieldDef.keys).Nodup := by
  unfold ACTION FIELDS field
  -- the characters of each key, which are slow to evaluate
  repeat rw [String.toList_ofList]
  decide +kernel

theorem keys_nodup : (FIELDS.flatMap FieldDef.keys).Nodup := (List.nodup_cons.mp action_keys_nodup).2

theorem fields_disjoint : FIELDS.Pairwise fun d e => d.keys.Disjoint e.keys :=
  (List.nodup_flatMap.mp keys_nodup).2

theorem fields_apart {d e : FieldDef} (hd : d ∈ FIELDS) (he : e ∈ FIELDS) {k : Text}
    (hk : d.has k = true) (hk' : e.has k = true) : d = e := by
  by_contra hne
  have : Std.Symm fun d e : FieldDef => d.keys.Disjoint e.keys :=
    ⟨fun _ _ h _ ha hb => h hb ha⟩
  have hdisjoint := List.Pairwise.forall fields_disjoint hd he hne
  exact hdisjoint (FieldDef.mem_keys.mpr hk) (FieldDef.mem_keys.mpr hk')

theorem fields_nodup : FIELDS.Nodup := by
  apply fields_disjoint.imp
  rintro d e h rfl
  exact h (FieldDef.mem_keys.mpr d.has_key) (FieldDef.mem_keys.mpr d.has_key)

theorem find_field (d : FieldDef) (hd : d ∈ FIELDS) : FIELDS.find? (·.key = d.key) = some d := by
  cases hfind : FIELDS.find? (·.key = d.key) with
  | none => exact absurd (decide_eq_true rfl) (List.find?_eq_none.mp hfind d hd)
  | some e =>
    have hkey : e.key = d.key := by simpa using List.find?_some hfind
    rw [fields_apart (List.mem_of_find?_eq_some hfind) hd e.has_key (by rw [hkey]; exact d.has_key)]

theorem has_action : ∀ d ∈ FIELDS, d.has ACTION = false := by
  intro d hd
  rw [Bool.eq_false_iff]
  intro hhas
  exact (List.nodup_cons.mp action_keys_nodup).1
    (List.mem_flatMap.mpr ⟨d, hd, FieldDef.mem_keys.mpr hhas⟩)

section

variable {F : Type} [F64Json F] {d e : FieldDef}

theorem not_has (hd : d ∈ FIELDS) (he : e ∈ FIELDS) (hne : d ≠ e) :
    d.has e.key = false ∧ d.has e.camel = false := by
  constructor
  · rw [Bool.eq_false_iff]
    exact fun h => hne (fields_apart hd he h e.has_key)
  · rw [Bool.eq_false_iff]
    exact fun h => hne (fields_apart hd he h e.has_camel)

theorem valueFrom_eq {α : Type} (value : Json → Option α) (m : JsonDict) (snake camel : Text) :
    valueFrom value m snake camel =
      ((m.get snake).bind value).or ((m.get camel).bind value) := by
  unfold valueFrom
  rw [List.findSome?_cons, List.findSome?_cons, List.findSome?_nil]
  cases (m.get snake).bind value with
  | some x => rfl
  | none => cases (m.get camel).bind value <;> rfl

-- ============================================================================
-- One field at a time
-- ============================================================================

theorem remove_both (m : JsonDict) (d : FieldDef) :
    ((m.restrict d.has).remove d.key).remove d.camel = [] := by
  unfold JsonDict.remove JsonDict.restrict
  rw [List.filter_filter, List.filter_filter, List.filter_eq_nil_iff]
  intro kv _
  by_cases hkey : kv.1 = d.key
  · simp [hkey]
  · by_cases hcamel : kv.1 = d.camel
    · simp [hcamel]
    · simp [FieldDef.has, hkey, hcamel]

/-- Both entries of another field are taken away. -/
theorem restrict_remove_other (hd : d ∈ FIELDS) (he : e ∈ FIELDS) (hne : d ≠ e) (m : JsonDict) :
    ((m.remove e.key).remove e.camel).restrict d.has = m.restrict d.has := by
  obtain ⟨hkey, hcamel⟩ := not_has hd he hne
  rw [JsonDict.restrict_remove, JsonDict.restrict_remove, JsonDict.remove_restrict_of_not m hkey,
    JsonDict.remove_restrict_of_not m hcamel]

theorem restrict_normalize_other (hd : d ∈ FIELDS) (he : e ∈ FIELDS) (hne : d ≠ e) (m : JsonDict) :
    (e.normalize F m).restrict d.has = m.restrict d.has := by
  unfold FieldDef.normalize
  have hrest := restrict_remove_other hd he hne m
  cases e.read F m with
  | none => exact hrest
  | some v => exact (JsonDict.restrict_insert_of_not _ v (not_has hd he hne).1).trans hrest

/-- What is left of a field is the value that was read, under its key. -/
theorem restrict_normalize (m : JsonDict) :
    (d.normalize F m).restrict d.has = (d.read F m).toList.map (d.key, ·) := by
  have hrest : ((m.remove d.key).remove d.camel).restrict d.has = [] := by
    rw [JsonDict.restrict_remove, JsonDict.restrict_remove, remove_both]
  unfold FieldDef.normalize
  cases d.read F m with
  | none => exact hrest
  | some v =>
    refine (JsonDict.restrict_insert _ v (FieldDef.has_key d)).trans ?_
    rw [hrest]
    rfl

/-- A reader looks at the two keys of its field. -/
theorem read_congr {m m' : JsonDict} (h : m.restrict d.has = m'.restrict d.has) :
    d.read F m = d.read F m' := by
  have hkey : m.get d.key = m'.get d.key := by
    rw [← JsonDict.get_restrict m (FieldDef.has_key d), h, JsonDict.get_restrict m' (FieldDef.has_key d)]
  have hcamel : m.get d.camel = m'.get d.camel := by
    rw [← JsonDict.get_restrict m (FieldDef.has_camel d), h,
      JsonDict.get_restrict m' (FieldDef.has_camel d)]
  simp only [FieldDef.read, valueFrom_eq, hkey, hcamel]

/-- After the loop over some fields, of which this is one. -/
theorem restrict_foldl_normalize (hd : d ∈ FIELDS) :
    ∀ (l : List FieldDef) (raw : JsonDict), (∀ e ∈ l, e ∈ FIELDS) → l.Nodup →
      (d ∉ l → (l.foldl (FieldDef.normalize F) raw).restrict d.has = raw.restrict d.has) ∧
        (d ∈ l → (l.foldl (FieldDef.normalize F) raw).restrict d.has =
          (d.read F raw).toList.map (d.key, ·)) := by
  intro l
  induction l with
  | nil => exact fun raw _ _ => ⟨fun _ => rfl, fun h => by cases h⟩
  | cons e l ih =>
    intro raw hl hnodup
    have he := hl e List.mem_cons_self
    obtain ⟨hel, hnodup⟩ := List.nodup_cons.mp hnodup
    obtain ⟨hout, hin⟩ := ih (e.normalize F raw) (fun e' h => hl e' (List.mem_cons_of_mem _ h)) hnodup
    constructor
    · intro hdl
      have hne : d ≠ e := fun heq => hdl (heq ▸ List.mem_cons_self)
      rw [List.foldl_cons, hout fun h => hdl (List.mem_cons_of_mem _ h),
        restrict_normalize_other hd he hne]
    · intro hdl
      rw [List.foldl_cons]
      by_cases heq : d = e
      · subst heq
        rw [hout hel, restrict_normalize]
      · have htail := (List.mem_cons.mp hdl).resolve_left heq
        rw [hin htail, read_congr (restrict_normalize_other hd he heq raw)]

theorem restrict_parse (hd : d ∈ FIELDS) (raw : JsonDict) (fallbackAction : Text) :
    (SyncConfig.parse F raw fallbackAction).map.restrict d.has =
      (d.read F raw).toList.map (d.key, ·) := by
  have hloop := (restrict_foldl_normalize (F := F) hd FIELDS raw (fun _ h => h) fields_nodup).2 hd
  simp only [SyncConfig.parse]
  rw [JsonDict.restrict_insert_of_not _ _ (has_action d hd), hloop]

/-- The entries of a field are written on their own. -/
def FieldDef.writes (d : FieldDef) (es out : JsonDict) : JsonDict :=
  es.foldl (fun out kv => if kv.1 = d.key then d.write out kv.2 else out) out

theorem restrict_write (v : Json) (out : JsonDict) :
    (d.write out v).restrict d.has = d.write (out.restrict d.has) v := by
  unfold FieldDef.write
  split
  · exact JsonDict.restrict_remove out d.key
  · exact JsonDict.restrict_insert out _ (FieldDef.has_camel d)

theorem restrict_write_other (hd : d ∈ FIELDS) (he : e ∈ FIELDS) (hne : d ≠ e) (v : Json)
    (out : JsonDict) : (e.write out v).restrict d.has = out.restrict d.has := by
  obtain ⟨hkey, hcamel⟩ := not_has hd he hne
  unfold FieldDef.write
  split
  · rw [JsonDict.restrict_remove, JsonDict.remove_restrict_of_not out hkey]
  · exact JsonDict.restrict_insert_of_not out _ hcamel

theorem restrict_writeEntry (hd : d ∈ FIELDS) (kv : Text × Json) (out : JsonDict) :
    (SyncConfig.writeEntry out kv).restrict d.has =
      if kv.1 = d.key then d.write (out.restrict d.has) kv.2 else out.restrict d.has := by
  unfold SyncConfig.writeEntry
  by_cases heq : kv.1 = d.key
  · rw [if_pos heq, heq, find_field d hd]
    exact restrict_write kv.2 out
  · rw [if_neg heq]
    cases hfind : FIELDS.find? (·.key = kv.1) with
    | none => rfl
    | some e =>
      have hkey : e.key = kv.1 := by simpa using List.find?_some hfind
      have hde : d ≠ e := fun h => heq (by rw [← hkey, h])
      exact restrict_write_other hd (List.mem_of_find?_eq_some hfind) hde kv.2 out

theorem restrict_foldl_write (hd : d ∈ FIELDS) (es : JsonDict) :
    ∀ out : JsonDict, (es.foldl SyncConfig.writeEntry out).restrict d.has =
      d.writes (es.restrict d.has) (out.restrict d.has) := by
  induction es with
  | nil => exact fun out => rfl
  | cons kv es ih =>
    intro out
    rw [List.foldl_cons, ih, restrict_writeEntry hd]
    by_cases hkv : d.has kv.1 = true
    · have hcons : JsonDict.restrict d.has (kv :: es) = kv :: JsonDict.restrict d.has es := by
        simp [JsonDict.restrict, hkv]
      rw [hcons]
      rfl
    · have hcons : JsonDict.restrict d.has (kv :: es) = JsonDict.restrict d.has es := by
        simp [JsonDict.restrict, hkv]
      have hne : kv.1 ≠ d.key := fun heq => hkv (heq ▸ FieldDef.has_key d)
      rw [hcons, if_neg hne]

theorem restrict_toJson (hd : d ∈ FIELDS) (c : SyncConfig) :
    c.toJson.restrict d.has = d.writes (c.map.restrict d.has) (c.map.restrict d.has) :=
  (JsonDict.restrict_insert_of_not _ _ (has_action d hd)).trans (restrict_foldl_write hd c.map c.map)

-- ============================================================================
-- What is left of a field
-- ============================================================================

variable (F) in
/-- The value that is written for a field; an empty text is not. -/
def FieldDef.written (d : FieldDef) (raw : JsonDict) : Option Json :=
  (d.read F raw).filter fun v => !emptyText v

theorem writes_one (d : FieldDef) (v : Json) (es out : JsonDict) :
    d.writes ((d.key, v) :: es) out = d.writes es (d.write out v) := by
  simp [FieldDef.writes]

/-- The value is there under both keys. -/
theorem get_toJson_parse (hd : d ∈ FIELDS) (raw : JsonDict) (fallbackAction : Text) {k : Text}
    (hk : d.has k = true) :
    (SyncConfig.parse F raw fallbackAction).toJson.get k = d.written F raw := by
  rw [← JsonDict.get_restrict _ hk, restrict_toJson hd, restrict_parse hd, FieldDef.written]
  cases hread : d.read F raw with
  | none => rfl
  | some v =>
    have hkey : k = d.key ∨ k = d.camel := by simpa [FieldDef.has] using hk
    simp only [Option.toList_some, List.map_cons, List.map_nil, writes_one]
    show JsonDict.get (d.write [(d.key, v)] v) k = _
    unfold FieldDef.write
    by_cases hempty : emptyText v = true
    · simp [hempty, JsonDict.remove, JsonDict.get, Option.filter_some]
    · by_cases hsame : d.key = d.camel
      · rcases hkey with rfl | rfl <;> simp [hempty, JsonDict.insert, JsonDict.get, hsame, Option.filter_some]
      · rcases hkey with rfl | rfl <;> simp [hempty, JsonDict.insert, JsonDict.get, hsame, Option.filter_some]

-- ============================================================================
-- What the engine reads
-- ============================================================================

/-- The engine's numerals have blanks around them only. -/
def engineInt (v : Json) : Option Int :=
  match v with
  | .number (.int n) => some (Rpc.saturate n)
  | .number (.float q) => some (Rclone.truncate q)
  | .string s => Rpc.parseI64 (trimWs s)
  | _ => none

def engineDouble (v : Json) : Option F :=
  match v with
  | .number n => some (F64.ofNumber n)
  | .string s => F64.parse (trimWs s)
  | _ => none

def engineString (v : Json) : Option Text :=
  match v with
  | .string s => if trimWs s ≠ [] then some (trimWs s) else none
  | _ => none

def engineStrings (v : Json) : Option (List Text) :=
  match v with
  | .array a => some (((strings a).map trimWs).filter (· ≠ []))
  | _ => none

/-- A reader goes over the keys of a field and takes the first that has a value. -/
theorem findSome_keys {α : Type} (d : FieldDef) {m : JsonDict} {value : Json → Option α}
    {entry : Text → Option α} (h : ∀ k, entry k = (m.get k).bind value) :
    d.keys.findSome? entry = valueFrom value m d.key d.camel := by
  obtain rfl : entry = fun k => (m.get k).bind value := funext h
  unfold FieldDef.keys
  by_cases hsame : d.key = d.camel
  · rw [if_pos hsame, valueFrom_eq, ← hsame, Option.or_self, List.findSome?_cons]
    cases (m.get d.key).bind value <;> rfl
  · rw [if_neg hsame]
    rfl

theorem intV_keys (d : FieldDef) (m : JsonDict) :
    intV m d.keys = valueFrom engineInt m d.key d.camel := by
  apply findSome_keys
  intro k
  rcases m.get k with _ | _ | _ | (_ | _) | _ | _ | _ <;> rfl

theorem doubleV_keys (d : FieldDef) (m : JsonDict) :
    (doubleV m d.keys : Option F) = valueFrom engineDouble m d.key d.camel := by
  apply findSome_keys
  intro k
  rcases m.get k with _ | _ | _ | (_ | _) | _ | _ | _ <;> rfl

theorem stringV_keys (d : FieldDef) (m : JsonDict) :
    stringV m d.keys = valueFrom engineString m d.key d.camel := by
  apply findSome_keys
  intro k
  rcases m.get k with _ | _ | _ | (_ | _) | _ | _ | _ <;> rfl

theorem boolV_keys (d : FieldDef) (m : JsonDict) :
    boolV m d.keys = valueFrom boolValue m d.key d.camel := by
  apply findSome_keys
  intro k
  rcases m.get k with _ | _ | _ | (_ | _) | _ | _ | _ <;> rfl

theorem strings_trimmed (a : List Json) :
    (a.filterMap fun v => match v with
      | .string s => some (trimWs s)
      | _ => none) = (strings a).map trimWs := by
  unfold strings
  rw [List.map_filterMap]
  congr 1
  funext v
  cases v <;> rfl

theorem stringsV_keys (d : FieldDef) (m : JsonDict) :
    stringsV m d.keys = valueFrom engineStrings m d.key d.camel := by
  apply findSome_keys
  intro k
  cases m.get k with
  | none => rfl
  | some v =>
    cases v with
    | array a => exact congrArg (fun l => some (l.filter (· ≠ []))) (strings_trimmed a)
    | _ => rfl

-- ============================================================================
-- Options of the profile
-- ============================================================================

def intOption (o : SyncOption) (n : Option Int) : OptionValue F :=
  match o with
  | .parallel => .int ((n.filter positiveInt).getD 4)
  | .bandwidth => .int ((n.filter positiveInt).getD 0)
  | _ => .optInt (n.filter positiveInt)

/-- The value of an option, from the object. -/
def FieldDef.reading (d : FieldDef) (o : SyncOption) (m : JsonDict) : OptionValue F :=
  match d.kind with
  | .int => intOption o (intV m d.keys)
  | .double => .optFloat ((doubleV m d.keys).filter F64.positive)
  | .text | .select => .text ((stringV m d.keys).getD [])
  | .bool => .flag ((boolV m d.keys).getD false)
  | .list => .texts ((stringsV m d.keys).getD [])

theorem option_reading (m : JsonDict) :
    ∀ p ∈ optionFields, (profileFromSyncConfig m : Profile F).option p.1 = p.2.reading p.1 m := by
  unfold optionFields fieldOptions FIELDS field profileFromSyncConfig Rclone.keys
  repeat rw [String.toList_ofList]
  repeat' refine List.forall_mem_cons.mpr ⟨rfl, ?_⟩
  exact List.forall_mem_nil _

theorem zip_snd_inj {α β : Type} {l₁ : List α} {l₂ : List β} (hnodup : l₂.Nodup) {a a' : α} {b : β}
    (h : (a, b) ∈ l₁.zip l₂) (h' : (a', b) ∈ l₁.zip l₂) : a = a' := by
  obtain ⟨i, hi⟩ := List.getElem?_of_mem h
  obtain ⟨j, hj⟩ := List.getElem?_of_mem h'
  obtain ⟨ha, hb⟩ := List.getElem?_zip_eq_some.mp hi
  obtain ⟨ha', hb'⟩ := List.getElem?_zip_eq_some.mp hj
  have hij : i = j := by
    have hlt := (List.getElem?_eq_some_iff.mp hb).1
    exact (List.getElem?_inj hlt hnodup).mp (hb.trans hb'.symm)
  rw [hij, ha'] at ha
  exact (Option.some.inj ha).symm

theorem mem_fieldOptions (o : SyncOption) :
    o = .cachePath ∨ o = .fastList ∨ ∃ d, (o, d) ∈ optionFields := by
  have hmap : optionFields.map Prod.fst = fieldOptions := List.map_fst_zip (by decide)
  by_cases h : o ∈ fieldOptions
  · rw [← hmap] at h
    obtain ⟨p, hp, rfl⟩ := List.mem_map.mp h
    exact .inr (.inr ⟨p.2, hp⟩)
  · cases o with
    | cachePath => exact .inl rfl
    | fastList => exact .inr (.inl rfl)
    | _ => exact absurd (by decide) h

theorem field_of_mem {p : SyncOption × FieldDef} (h : p ∈ optionFields) : p.2 ∈ FIELDS :=
  (List.of_mem_zip h).2

omit [F64Json F] in
/-- A profile is its options, apart from its name, its paths and its direction. -/
theorem profile_ext {p q : Profile F} (hname : p.name = q.name) (hfrom : p.fromPath = q.fromPath)
    (hto : p.toPath = q.toPath) (hdirection : p.direction = q.direction)
    (h : ∀ o, p.option o = q.option o) : p = q := by
  cases p
  cases q
  simp only at hname hfrom hto hdirection
  subst hname hfrom hto hdirection
  simp only [Profile.mk.injEq, true_and]
  exact ⟨OptionValue.texts.inj (h .includedPaths), OptionValue.texts.inj (h .excludedPaths),
    OptionValue.int.inj (h .bandwidth), OptionValue.int.inj (h .parallel),
    OptionValue.text.inj (h .backupPath), OptionValue.text.inj (h .cachePath),
    OptionValue.text.inj (h .minSize), OptionValue.text.inj (h .maxSize),
    OptionValue.text.inj (h .filterFromFile), OptionValue.text.inj (h .excludeIfPresent),
    OptionValue.flag.inj (h .useRegex), OptionValue.text.inj (h .maxAge),
    OptionValue.text.inj (h .minAge), OptionValue.optInt.inj (h .maxDepth),
    OptionValue.flag.inj (h .deleteExcluded), OptionValue.optInt.inj (h .maxDelete),
    OptionValue.flag.inj (h .immutable), OptionValue.text.inj (h .conflictResolution),
    OptionValue.flag.inj (h .dryRun), OptionValue.text.inj (h .maxTransfer),
    OptionValue.text.inj (h .maxDeleteSize), OptionValue.text.inj (h .suffix),
    OptionValue.flag.inj (h .suffixKeepExtension), OptionValue.optInt.inj (h .multiThreadStreams),
    OptionValue.text.inj (h .bufferSize), OptionValue.optInt.inj (h .retries),
    OptionValue.optInt.inj (h .lowLevelRetries), OptionValue.text.inj (h .maxDuration),
    OptionValue.flag.inj (h .checkFirst), OptionValue.text.inj (h .orderBy),
    OptionValue.text.inj (h .retriesSleep), OptionValue.optFloat.inj (h .tpsLimit),
    OptionValue.text.inj (h .connTimeout), OptionValue.text.inj (h .ioTimeout),
    OptionValue.flag.inj (h .sizeOnly), OptionValue.flag.inj (h .updateMode),
    OptionValue.flag.inj (h .ignoreExisting), OptionValue.text.inj (h .deleteTiming),
    OptionValue.flag.inj (h .resilient), OptionValue.text.inj (h .maxLock),
    OptionValue.flag.inj (h .checkAccess), OptionValue.text.inj (h .conflictLoser),
    OptionValue.text.inj (h .conflictSuffix), OptionValue.flag.inj (h .fastList)⟩

theorem profile_eq_iff (m m' : JsonDict) :
    (profileFromSyncConfig m : Profile F) = profileFromSyncConfig m' ↔
      ∀ p ∈ optionFields, (p.2.reading p.1 m : OptionValue F) = p.2.reading p.1 m' := by
  constructor
  · intro h p hp
    rw [← option_reading m p hp, ← option_reading m' p hp, h]
  · intro h
    refine profile_ext rfl rfl rfl rfl fun o => ?_
    rcases mem_fieldOptions o with rfl | rfl | ⟨d, hd⟩
    · rfl
    · rfl
    · rw [option_reading m _ hd, option_reading m' _ hd, h _ hd]

-- ============================================================================
-- One option edited
-- ============================================================================

theorem edit_eq_setKnown (c : SyncConfig) (key : Text) (e : Edit F) :
    ∃ value, c.edit key e = c.setKnown key value := by
  cases e with
  | int value => exact ⟨value.map fun n => .number (.int n), rfl⟩
  | double value => exact ⟨value.map jsonDouble, rfl⟩
  | text value => exact ⟨if trim value = [] then none else some (.string (trim value)), rfl⟩
  | flag value => exact ⟨some (.bool value), rfl⟩
  | list value => exact ⟨if value = [] then none else some (jsonList value), rfl⟩

theorem restrict_setKnown_other (hd : d ∈ FIELDS) (he : e ∈ FIELDS) (hne : d ≠ e) (c : SyncConfig)
    (value : Option Json) :
    (c.setKnown e.key value).map.restrict d.has = c.map.restrict d.has := by
  have hrest := restrict_remove_other hd he hne c.map
  unfold SyncConfig.setKnown
  rw [find_field e he]
  cases value with
  | none => exact hrest
  | some v => exact (JsonDict.restrict_insert_of_not _ v (not_has hd he hne).1).trans hrest

/-- A reading looks at the two keys of its field. -/
theorem reading_congr {m m' : JsonDict} (o : SyncOption) (h : m.restrict d.has = m'.restrict d.has) :
    (d.reading o m : OptionValue F) = d.reading o m' := by
  have hkey : m.get d.key = m'.get d.key := by
    rw [← JsonDict.get_restrict m d.has_key, h, JsonDict.get_restrict m' d.has_key]
  have hcamel : m.get d.camel = m'.get d.camel := by
    rw [← JsonDict.get_restrict m d.has_camel, h, JsonDict.get_restrict m' d.has_camel]
  simp only [FieldDef.reading, intV_keys, doubleV_keys, stringV_keys, boolV_keys, stringsV_keys,
    valueFrom_eq, hkey, hcamel]

theorem option_edit {p : SyncOption × FieldDef} (hp : p ∈ optionFields) (c : SyncConfig) (e : Edit F)
    {o : SyncOption} (ho : o ≠ p.1) :
    (profileFromSyncConfig (c.edit p.2.key e).toJson : Profile F).option o =
      (profileFromSyncConfig c.toJson : Profile F).option o := by
  rcases mem_fieldOptions o with rfl | rfl | ⟨d, hd⟩
  · rfl
  · rfl
  · have hne : d ≠ p.2 := by
      rintro rfl
      exact ho (zip_snd_inj fields_nodup hd hp)
    obtain ⟨value, hvalue⟩ := edit_eq_setKnown c p.2.key e
    rw [option_reading _ _ hd, option_reading _ _ hd, hvalue]
    refine reading_congr o ?_
    rw [restrict_toJson (field_of_mem hd), restrict_toJson (field_of_mem hd),
      restrict_setKnown_other (field_of_mem hd) (field_of_mem hp) hne]

-- ============================================================================
-- Numerals
-- ============================================================================

theorem isWhitespace_of_isBlank {c : Char} (h : Rclone.isBlank c = true) :
    Text.isWhitespace c = true := by
  unfold Rclone.isBlank at h
  by_cases htab : c = '\t'
  · subst htab
    decide
  · simp only [htab, decide_false, Bool.false_or, Bool.and_eq_true] at h
    exact h.1.1

theorem dropWhile_plain {p : Char → Bool} {pre t post : Text} (hpre : ∀ c ∈ pre, p c = true)
    (hne : t ≠ []) (ht : ∀ c ∈ t, p c = false) :
    (pre ++ (t ++ post)).dropWhile p = t ++ post := by
  rw [List.dropWhile_append_of_pos hpre]
  obtain ⟨c, t, rfl⟩ := List.exists_cons_of_ne_nil hne
  exact List.dropWhile_cons_of_neg (by simp [ht c List.mem_cons_self])

/-- Blanks are all that is around a text without white space. -/
theorem trim_of_plain {s : Text} (hne : trimWs s ≠ [])
    (hplain : ∀ c ∈ trimWs s, Text.isWhitespace c = false) : trim s = trimWs s := by
  have hsplit : s = s.takeWhile Rclone.isBlank ++ (trimWs s ++
      (s.dropWhile Rclone.isBlank).rtakeWhile Rclone.isBlank) := by
    rw [trimWs, List.rdropWhile_append_rtakeWhile, List.takeWhile_append_dropWhile]
  have hpre : ∀ c ∈ s.takeWhile Rclone.isBlank, Text.isWhitespace c = true :=
    fun c hc => isWhitespace_of_isBlank (List.mem_takeWhile_imp hc)
  have hpost : ∀ c ∈ (s.dropWhile Rclone.isBlank).rtakeWhile Rclone.isBlank,
      Text.isWhitespace c = true :=
    fun c hc => isWhitespace_of_isBlank (List.mem_rtakeWhile_imp hc)
  unfold trim
  conv_lhs => rw [hsplit, dropWhile_plain hpre hne hplain]
  unfold List.rdropWhile
  rw [List.reverse_append]
  have hback := @dropWhile_plain Text.isWhitespace _ _ []
    (fun c hc => hpost c (List.mem_reverse.mp hc)) (List.reverse_ne_nil_iff.mpr hne)
    (fun c hc => hplain c (List.mem_reverse.mp hc))
  rw [List.append_nil] at hback
  rw [hback, List.reverse_reverse]

theorem saturate_saturate (n : Int) : Rpc.saturate (Rpc.saturate n) = Rpc.saturate n := by
  unfold Rpc.saturate
  omega

theorem parseI64_spec {t : Text} {n : Int} (h : Rpc.parseI64 t = some n) :
    t ≠ [] ∧ (∀ c ∈ t, Text.isWhitespace c = false) ∧ Rpc.saturate n = n := by
  unfold Rpc.parseI64 at h
  split at h
  rename_i sign digits heq
  by_cases hdigits : digits ≠ [] ∧ digits.all Char.isDigit = true
  · simp only [hdigits, ne_eq, not_false_eq_true, and_self, if_true] at h
    have hsat : Rpc.saturate n = n := by
      by_contra hne
      split at h
      · rename_i hsat
        obtain rfl := Option.some.inj h
        exact hne hsat
      · cases h
    have hplain := digits_plain hdigits.2
    split at heq
    · obtain rfl := (Prod.mk.inj heq).2
      refine ⟨List.cons_ne_nil _ _, fun c hc => ?_, hsat⟩
      rcases List.mem_cons.mp hc with rfl | hc
      · decide
      · exact hplain c hc
    · obtain rfl := (Prod.mk.inj heq).2
      refine ⟨List.cons_ne_nil _ _, fun c hc => ?_, hsat⟩
      rcases List.mem_cons.mp hc with rfl | hc
      · decide
      · exact hplain c hc
    · obtain rfl := (Prod.mk.inj heq).2
      exact ⟨hdigits.1, hplain, hsat⟩
  · simp only [hdigits, if_false] at h
    cases h
theorem intValue_of_engineInt {v : Json} {n : Int} (h : engineInt v = some n) :
    intValue v = some n := by
  unfold engineInt at h
  split at h
  · exact h
  · exact h
  · rename_i s
    obtain ⟨hne, hplain, -⟩ := parseI64_spec h
    show Rpc.parseI64 (trim s) = some n
    rw [trim_of_plain hne hplain, h]
  · cases h

theorem doubleValue_of_engineDouble {v : Json} {x : F} (h : engineDouble v = some x) :
    doubleValue v = some x := by
  unfold engineDouble at h
  split at h
  · exact h
  · rename_i s
    have hne : trimWs s ≠ [] := by
      intro hnil
      rw [hnil, F64Json.parse_nil] at h
      cases h
    show F64.parse (trim s) = some x
    rw [trim_of_plain hne (F64Json.parse_plain _ _ h), h]
  · cases h

theorem saturate_intValue {v : Json} {n : Int} (h : intValue v = some n) : Rpc.saturate n = n := by
  unfold intValue at h
  split at h
  · obtain rfl := Option.some.inj h
    exact saturate_saturate _
  · obtain rfl := Option.some.inj h
    exact saturate_saturate _
  · exact (parseI64_spec h).2.2
  · cases h

-- ============================================================================
-- Two ways to choose
-- ============================================================================

/-- `D` is the window's way and `E` the engine's, which has no other values, for the
    first key and for the second. -/
theorem choice_agrees_iff {α β : Type} (L R : Option α → β) {sD sE cD cE : Option α}
    (hs : ∀ x, sE = some x → sD = some x) (hc : ∀ x, cE = some x → cD = some x)
    (hnone : L none = R none) :
    L (sD.or cD) = R (sE.or cE) ↔
      (∀ x, sE = some x → L (some x) = R (some x)) ∧
        (∀ x, sD = some x → sE = none → L (some x) = R cE) ∧
        (sD = none → (∀ x, cE = some x → L (some x) = R (some x)) ∧
          ∀ x, cD = some x → cE = none → L (some x) = R none) := by
  cases sE with
  | some x => simp [hs x rfl]
  | none =>
    cases sD with
    | some x => simp
    | none =>
      cases cE with
      | some x => simp [hc x rfl]
      | none =>
        cases cD with
        | some x => simp
        | none => simp [hnone]

variable (F) in
/-- A numeral with a line break at its edge, which only the window reads, comes to
    the number that the engine finds instead. -/
def IntAlike (o : SyncOption) (s c : Option Json) : Prop :=
  (∀ n, s.bind intValue = some n → s.bind engineInt = none →
      (intOption o (some n) : OptionValue F) = intOption o (c.bind engineInt)) ∧
    (s.bind intValue = none → ∀ n, c.bind intValue = some n → c.bind engineInt = none →
      (intOption o (some n) : OptionValue F) = intOption o none)

/-- A positive float that JSON has a number for. -/
def kept (x : F) : Option F :=
  if (F64Json.toNumber x).isSome then (some x).filter F64.positive else none

variable (F) in
/-- And what is read is not infinite. -/
def DoubleAlike (s c : Option Json) : Prop :=
  (∀ x : F, s.bind engineDouble = some x → kept x = (some x).filter F64.positive) ∧
    (∀ x : F, s.bind doubleValue = some x → s.bind (engineDouble (F := F)) = none →
      kept x = (c.bind engineDouble).filter F64.positive) ∧
    (s.bind (doubleValue (F := F)) = none →
      (∀ x : F, c.bind engineDouble = some x → kept x = (some x).filter F64.positive) ∧
        ∀ x : F, c.bind doubleValue = some x → c.bind (engineDouble (F := F)) = none →
          kept x = none)

/-- No blank text under the first key hides one that is not blank. -/
def TextAlike (s c : Option Json) : Prop :=
  ∀ t, s.bind stringValue = some t → trimWs t = [] → c.bind engineString = none

/-- No list without a text under the first key hides one with a text that is not
    blank. -/
def ListAlike (s c : Option Json) : Prop :=
  ∀ a, s = some (.array a) → strings a = [] → (c.bind engineStrings).getD [] = []

variable (F) in
/-- The window and the engine come to the same value of the option. -/
def FieldDef.Alike (d : FieldDef) (o : SyncOption) (m : JsonDict) : Prop :=
  match d.kind with
  | .int => IntAlike F o (m.get d.key) (m.get d.camel)
  | .double => DoubleAlike F (m.get d.key) (m.get d.camel)
  | .text | .select => TextAlike (m.get d.key) (m.get d.camel)
  | .bool => True
  | .list => ListAlike (m.get d.key) (m.get d.camel)

theorem bind_of_bind {α : Type} {f g : Json → Option α} (h : ∀ v x, f v = some x → g v = some x)
    (v : Option Json) (x : α) (hx : v.bind f = some x) : v.bind g = some x := by
  obtain ⟨w, hw, hx⟩ := Option.bind_eq_some_iff.mp hx
  exact Option.bind_eq_some_iff.mpr ⟨w, hw, h w x hx⟩

omit [F64Json F] in
theorem int_alike (o : SyncOption) (s c : Option Json) :
    (intOption o ((((s.bind intValue).or (c.bind intValue)).map fun n => Json.number (.int n)).bind
        engineInt) : OptionValue F) =
      intOption o ((s.bind engineInt).or (c.bind engineInt)) ↔ IntAlike F o s c := by
  have hwritten : (((s.bind intValue).or (c.bind intValue)).map fun n => Json.number (.int n)).bind
      engineInt = (s.bind intValue).or (c.bind intValue) := by
    cases h : (s.bind intValue).or (c.bind intValue) with
    | none => rfl
    | some n =>
      have hsat : Rpc.saturate n = n := by
        rcases Option.or_eq_some_iff.mp h with h | ⟨-, h⟩
        · obtain ⟨v, -, hv⟩ := Option.bind_eq_some_iff.mp h
          exact saturate_intValue hv
        · obtain ⟨v, -, hv⟩ := Option.bind_eq_some_iff.mp h
          exact saturate_intValue hv
      simp [engineInt, hsat]
  rw [hwritten, choice_agrees_iff (intOption (F := F) o) (intOption o)
    (bind_of_bind (fun _ _ => intValue_of_engineInt) s)
    (bind_of_bind (fun _ _ => intValue_of_engineInt) c) rfl]
  simp only [IntAlike, implies_true, true_and]

theorem double_alike (s c : Option Json) :
    ((((s.bind doubleValue).or (c.bind doubleValue)).map (jsonDouble (F := F))).bind
        engineDouble).filter (F64.positive (F := F)) =
      ((s.bind engineDouble).or (c.bind engineDouble)).filter F64.positive ↔ DoubleAlike F s c := by
  have hwritten : ∀ v : Option F, ((v.map jsonDouble).bind engineDouble).filter (F64.positive (F := F)) =
      v.bind kept := by
    intro v
    cases v with
    | none => rfl
    | some x =>
      cases hx : F64Json.toNumber x with
      | none => simp [jsonDouble, engineDouble, kept, hx]
      | some n =>
        have hpositive := F64Json.ofNumber_positive x n hx
        by_cases hp : F64.positive x = true
        · have heq := F64Json.ofNumber_toNumber x n hx hp
          simp [jsonDouble, engineDouble, kept, hx, heq]
        · simp [jsonDouble, engineDouble, kept, hx, Option.filter_some, hpositive, hp]
  rw [hwritten, choice_agrees_iff (fun v => v.bind kept) (fun v => v.filter F64.positive)
    (bind_of_bind (fun _ _ => doubleValue_of_engineDouble) s)
    (bind_of_bind (fun _ _ => doubleValue_of_engineDouble) c) rfl]
  rfl

def nonblank (t : Text) : Option Text := if trimWs t ≠ [] then some (trimWs t) else none

theorem engineString_bind (v : Option Json) :
    v.bind engineString = (v.bind stringValue).bind nonblank := by
  rcases v with _ | v
  · rfl
  · cases v <;> rfl

theorem nonblank_ne_nil {v : Option Text} {t : Text} (h : v.bind nonblank = some t) : t ≠ [] := by
  obtain ⟨u, -, hu⟩ := Option.bind_eq_some_iff.mp h
  unfold nonblank at hu
  split at hu
  · rename_i hne
    rwa [← Option.some.inj hu]
  · cases hu

theorem written_text (v : Option Text) :
    ((v.map Json.string).filter fun v => !emptyText v).bind engineString = v.bind nonblank := by
  rcases v with _ | (_ | ⟨c, t⟩)
  · rfl
  · rfl
  · rfl

theorem text_alike (s c : Option Json) :
    (((((s.bind stringValue).or (c.bind stringValue)).map Json.string).filter
        fun v => !emptyText v).bind engineString).getD [] =
      ((s.bind engineString).or (c.bind engineString)).getD [] ↔ TextAlike s c := by
  rw [written_text, TextAlike, engineString_bind, engineString_bind]
  cases s.bind stringValue with
  | none => simp
  | some t =>
    by_cases hblank : trimWs t = []
    · have hnone : nonblank t = none := by simp [nonblank, hblank]
      simp only [Option.some_or, Option.bind_some, hnone, Option.none_or, Option.getD_none,
        Option.some.injEq, forall_eq', hblank, forall_const]
      cases hc : (c.bind stringValue).bind nonblank with
      | none => simp
      | some u => simpa using (nonblank_ne_nil hc).symm
    · simp [nonblank, hblank]

def tidy (l : List Text) : List Text := (l.map trimWs).filter (· ≠ [])

theorem strings_jsonList (l : List Text) : strings (l.map Json.string) = l := by
  unfold strings
  rw [List.filterMap_map]
  exact List.filterMap_some

theorem written_list (v : Option (List Text)) :
    (v.map jsonList).bind engineStrings = v.map tidy := by
  cases v with
  | none => rfl
  | some l => simp only [Option.map_some, Option.bind_some, engineStrings, jsonList,
      strings_jsonList, tidy]

/-- A list without a text comes to nothing anyway. -/
theorem engineStrings_bind (v : Option Json) :
    ((v.bind listValue).map tidy).getD [] = (v.bind engineStrings).getD [] := by
  rcases v with _ | v
  · rfl
  · cases v with
    | array a =>
      by_cases h : strings a = []
      · simp [listValue, engineStrings, h]
      · simp [listValue, engineStrings, h, tidy]
    | _ => rfl

theorem list_alike (s c : Option Json) :
    ((((s.bind listValue).or (c.bind listValue)).map jsonList).bind engineStrings).getD [] =
      ((s.bind engineStrings).or (c.bind engineStrings)).getD [] ↔ ListAlike s c := by
  rw [written_list, ListAlike]
  have hc := engineStrings_bind c
  generalize c.bind listValue = window at hc ⊢
  generalize c.bind engineStrings = engine at hc ⊢
  rcases s with _ | v
  · simp [hc]
  · cases v with
    | array a =>
      by_cases h : strings a = []
      · simp [listValue, engineStrings, h, hc]
      · simp [listValue, engineStrings, h, tidy]
    | _ => simp [listValue, engineStrings, hc]

-- ============================================================================
-- The window and the engine
-- ============================================================================

theorem filter_written {α : Type} {f : α → Json} (h : ∀ x, emptyText (f x) = false) (v : Option α) :
    (v.map f).filter (fun v => !emptyText v) = v.map f := by
  cases v with
  | none => rfl
  | some x => simp [Option.filter_some, h x]

theorem emptyText_jsonDouble (x : F) : emptyText (jsonDouble x) = false := by
  unfold jsonDouble
  cases F64Json.toNumber x <;> rfl

theorem bool_alike (v : Option Bool) : (v.map Json.bool).bind boolValue = v := by
  cases v <;> rfl

theorem reading_alike (hd : d ∈ FIELDS) (o : SyncOption) (raw : JsonDict) (fallbackAction : Text) :
    (d.reading o (SyncConfig.parse F raw fallbackAction).toJson : OptionValue F) = d.reading o raw ↔
      d.Alike F o raw := by
  have hkey := get_toJson_parse (F := F) hd raw fallbackAction d.has_key
  have hcamel := get_toJson_parse (F := F) hd raw fallbackAction d.has_camel
  simp only [FieldDef.reading, FieldDef.Alike, intV_keys, doubleV_keys, stringV_keys, boolV_keys,
    stringsV_keys, valueFrom_eq, hkey, hcamel, Option.or_self, FieldDef.written, FieldDef.read]
  cases d.kind with
  | int =>
    simp only []
    rw [filter_written fun _ => rfl]
    exact int_alike o _ _
  | double =>
    simp only [OptionValue.optFloat.injEq]
    rw [filter_written emptyText_jsonDouble]
    exact double_alike _ _
  | text =>
    simp only [OptionValue.text.injEq]
    exact text_alike _ _
  | select =>
    simp only [OptionValue.text.injEq]
    exact text_alike _ _
  | bool =>
    simp only []
    rw [filter_written fun _ => rfl, bool_alike]
    exact iff_of_true rfl trivial
  | list =>
    simp only [OptionValue.texts.injEq]
    rw [filter_written fun _ => rfl]
    exact list_alike _ _

variable (F) in
/-- The window writes an object that the engine reads as it read the stored one
    exactly when the two come to the same value of each option; and an edit changes
    no option but its own. -/
theorem editor_reads_alike :
    (∀ (raw : JsonDict) (fallbackAction : Text),
      (profileFromSyncConfig (SyncConfig.parse F raw fallbackAction).toJson : Profile F) =
          profileFromSyncConfig raw ↔
        ∀ p ∈ optionFields, p.2.Alike F p.1 raw) ∧
      ∀ (c : SyncConfig) (p : SyncOption × FieldDef) (e : Edit F) (o : SyncOption),
        p ∈ optionFields → o ≠ p.1 →
          (profileFromSyncConfig (c.edit p.2.key e).toJson : Profile F).option o =
            (profileFromSyncConfig c.toJson : Profile F).option o := by
  refine ⟨fun raw fallbackAction => ?_, fun c p e o hp ho => option_edit hp c e ho⟩
  rw [profile_eq_iff]
  exact forall₂_congr fun p hp => reading_alike (field_of_mem hp) p.1 raw fallbackAction

end

-- ============================================================================
-- On objects
-- ============================================================================

theorem whole_positive (x : Nat) (n : Number) (h : some (Number.int x) = some n) :
    F64.positive (F64.ofNumber n : Nat) = F64.positive x := by
  obtain rfl := Option.some.inj h
  rfl

theorem whole_ofNumber (x : Nat) (n : Number) (h : some (Number.int x) = some n) :
    (F64.ofNumber n : Nat) = x := by
  obtain rfl := Option.some.inj h
  rfl

theorem whole_parse (t : Text) (x : Nat) (h : (F64.parse t : Option Nat) = some x) :
    ∀ c ∈ t, Text.isWhitespace c = false := by
  obtain ⟨n, hn, -⟩ := Option.map_eq_some_iff.mp h
  exact (parseI64_spec hn).2.1

instance wholeJson : F64Json Nat where
  toF64 := Rclone.wholeFloats
  toNumber x := some (.int x)
  ofNumber_positive := whole_positive
  ofNumber_toNumber x n h _ := whole_ofNumber x n h
  parse_nil := rfl
  parse_plain := whole_parse

/-- The number of transfers is set, and the age that files may have stays. -/
theorem editor_reads_alike_age :
    (profileFromSyncConfig ((SyncConfig.parse Nat [("maxAge".toList, .string "24h".toList)] []).edit
        "parallel".toList (.int (some 8) : Edit Nat)).toJson : Profile Nat).option .maxAge =
      (profileFromSyncConfig (SyncConfig.parse Nat [("maxAge".toList, .string "24h".toList)]
        []).toJson : Profile Nat).option .maxAge :=
  (editor_reads_alike Nat).2 _ (.parallel, field "parallel" "parallel" .int) (.int (some 8)) .maxAge
    (List.mem_cons_self ..) (by decide)

/-- A blank text and an empty list that hide a value, and a numeral that ends in a
    line break. -/
theorem editor_reads_otherwise :
    let window (raw : JsonDict) : Profile Nat :=
      profileFromSyncConfig (SyncConfig.parse Nat raw []).toJson
    let engine (raw : JsonDict) : Profile Nat := profileFromSyncConfig raw
    let age : JsonDict := [("max_age".toList, .string []), ("maxAge".toList, .string "24h".toList)]
    let paths : JsonDict := [("excluded_paths".toList, .array []),
      ("excludedPaths".toList, .array [.string "tmp".toList])]
    let limit : JsonDict := [("bandwidth".toList, .string "5\n".toList)]
    (window age).maxAge ≠ (engine age).maxAge ∧
      (window paths).excludedPaths ≠ (engine paths).excludedPaths ∧
      (window limit).bandwidth ≠ (engine limit).bandwidth := by
  decide +kernel

end GnDrive.Gpui
