/-
  GnDrive.Rpc.Params

  Request parameters (`rpc/params.rs`), the JSON values they are read from and
  the errors they are rejected with.
-/

import GnDrive.Lib.Text
import Mathlib.Data.Rat.Floor

namespace GnDrive.Rpc

open Text (trim toLowercase)

/-! ## JSON -/

/-- `serde_json::Number`. -/
inductive Number where
  | int (n : Int)
  | float (q : Rat)
deriving DecidableEq, Repr

inductive Json where
  | null
  | bool (b : Bool)
  | number (n : Number)
  | string (s : Text)
  | array (l : List Json)
  | object (m : List (Text × Json))

/-- `serde_json::Map`, which keeps the order of insertion. -/
abbrev JsonDict := List (Text × Json)

namespace JsonDict

def get (m : JsonDict) (k : Text) : Option Json := (m.find? (·.1 = k)).map (·.2)

/-- The value of a key that is there is replaced in place. -/
def insert (m : JsonDict) (k : Text) (v : Json) : JsonDict :=
  if m.any (·.1 = k) then m.map fun kv => if kv.1 = k then (k, v) else kv
  else m ++ [(k, v)]

def remove (m : JsonDict) (k : Text) : JsonDict := m.filter (·.1 ≠ k)

/-- The entries with some of the keys. -/
def restrict (P : Text → Bool) (m : JsonDict) : JsonDict := m.filter fun kv => P kv.1

section

variable {P : Text → Bool} {k : Text}

theorem get_restrict (m : JsonDict) (hk : P k = true) : (restrict P m).get k = m.get k := by
  unfold get restrict
  rw [List.find?_filter]
  congr 2
  funext kv
  by_cases h : kv.1 = k
  · simp [h, hk]
  · simp [h]

theorem restrict_remove (m : JsonDict) (k : Text) :
    restrict P (m.remove k) = remove (restrict P m) k := by
  unfold restrict remove
  rw [List.filter_filter, List.filter_filter]
  congr 1
  funext kv
  exact Bool.and_comm _ _

theorem remove_restrict_of_not (m : JsonDict) (hk : P k = false) :
    remove (restrict P m) k = restrict P m := by
  unfold remove restrict
  rw [List.filter_eq_self]
  intro kv hkv
  have hP := (List.mem_filter.mp hkv).2
  refine decide_eq_true fun heq => ?_
  rw [heq, hk] at hP
  cases hP

theorem restrict_replace (P : Text → Bool) (m : JsonDict) (k : Text) (v : Json) :
    restrict P (m.map fun kv => if kv.1 = k then (k, v) else kv) =
      (restrict P m).map fun kv => if kv.1 = k then (k, v) else kv := by
  unfold restrict
  rw [List.filter_map]
  congr 2
  funext kv
  by_cases h : kv.1 = k
  · simp [h]
  · simp [h]

theorem restrict_insert_of_not (m : JsonDict) (v : Json) (hk : P k = false) :
    restrict P (m.insert k v) = restrict P m := by
  unfold insert
  split
  · rw [restrict_replace]
    have hid : ∀ kv ∈ restrict P m, (if kv.1 = k then (k, v) else kv) = id kv := by
      intro kv hkv
      have hP : P kv.1 = true := (List.mem_filter.mp hkv).2
      rw [if_neg (fun heq => by rw [heq, hk] at hP; cases hP), id]
    rw [List.map_congr_left hid, List.map_id]
  · simp [restrict, hk]

theorem restrict_insert (m : JsonDict) (v : Json) (hk : P k = true) :
    restrict P (m.insert k v) = insert (restrict P m) k v := by
  have hany : (restrict P m).any (·.1 = k) = m.any (·.1 = k) := by
    rw [restrict, List.any_filter]
    congr 1
    funext kv
    by_cases h : kv.1 = k
    · simp [h, hk]
    · simp [h]
  unfold insert
  rw [hany]
  split
  · exact restrict_replace P m k v
  · simp [restrict, hk]

theorem get_insert_of_ne (m : JsonDict) {j k : Text} (v : Json) (h : j ≠ k) :
    (m.insert k v).get j = m.get j := by
  have hj : decide (j ≠ k) = true := by simpa using h
  have hk : decide (k ≠ k) = false := by simp
  rw [← get_restrict (P := fun x => decide (x ≠ k)) (m.insert k v) hj,
    restrict_insert_of_not m v hk, get_restrict m hj]

theorem get_insert_self (m : JsonDict) (k : Text) (v : Json) : (m.insert k v).get k = some v := by
  unfold get insert
  by_cases h : m.any (·.1 = k) = true
  · obtain ⟨kv, hkv, hkey⟩ := List.any_eq_true.mp h
    have hkeys : ((fun x : Text × Json => decide (x.1 = k)) ∘ fun kv : Text × Json =>
        if kv.1 = k then (k, v) else kv) = fun kv => decide (kv.1 = k) := by
      funext x
      by_cases hx : x.1 = k
      · simp [hx]
      · simp [hx]
    rw [if_pos h, List.find?_map, hkeys]
    cases hfind : m.find? fun kv => decide (kv.1 = k) with
    | none => exact absurd hkey (List.find?_eq_none.mp hfind kv hkv)
    | some x =>
      have hx : x.1 = k := by simpa using List.find?_some hfind
      simp [hx]
  · have hnone : m.find? (fun kv => decide (kv.1 = k)) = none :=
      List.find?_eq_none.mpr fun kv hkv hkey => h (List.any_eq_true.mpr ⟨kv, hkv, hkey⟩)
    rw [if_neg h, List.find?_append, hnone]
    simp

theorem insert_insert (m : JsonDict) (k : Text) (v : Json) :
    (m.insert k v).insert k v = m.insert k v := by
  have hany : (m.insert k v).any (·.1 = k) = true := by
    unfold insert
    by_cases h : m.any (·.1 = k) = true
    · rw [if_pos h, List.any_map]
      obtain ⟨kv, hkv, hkey⟩ := List.any_eq_true.mp h
      refine List.any_eq_true.mpr ⟨kv, hkv, ?_⟩
      simp [of_decide_eq_true hkey]
    · rw [if_neg h]
      simp
  conv_lhs => rw [insert, if_pos hany]
  unfold insert
  by_cases h : m.any (·.1 = k) = true
  · rw [if_pos h, List.map_map]
    apply List.map_congr_left
    intro kv _
    by_cases hkey : kv.1 = k
    · simp [hkey]
    · simp [hkey]
  · rw [if_neg h, List.map_append]
    have hself : ∀ kv ∈ m, (if kv.1 = k then (k, v) else kv) = id kv := by
      intro kv hkv
      have hne : kv.1 ≠ k := fun heq => h (List.any_eq_true.mpr ⟨kv, hkv, decide_eq_true heq⟩)
      rw [if_neg hne, id]
    rw [List.map_congr_left hself, List.map_id]
    simp

end

end JsonDict

/-- `n as i64`. -/
def saturate (n : Int) : Int := max (-(2 ^ 63)) (min n (2 ^ 63 - 1))

/-- `str::parse::<i64>`. -/
def parseI64 (s : Text) : Option Int :=
  let (sign, digits) : Int × Text := match s with
    | '-' :: rest => (-1, rest)
    | '+' :: rest => (1, rest)
    | _ => (1, s)
  if digits ≠ [] ∧ digits.all Char.isDigit then
    let n : Int := sign * digits.foldl (fun n c => n * 10 + (c.toNat - '0'.toNat)) 0
    if saturate n = n then some n else none
  else none

def intValue : Json → Option Int
  | .number (.int n) => some (saturate n)
  | .number (.float q) => some (saturate (if 0 ≤ q then ⌊q⌋ else ⌈q⌉))
  | .string s => parseI64 (trim s)
  | _ => none

def boolValue : Json → Option Bool
  | .bool b => some b
  | .number (.int n) => some (n ≠ 0)
  | .number (.float q) => some (q ≠ 0)
  | .string s =>
      let lower := toLowercase s
      if lower = "true".toList ∨ lower = "1".toList ∨ lower = "yes".toList then some true
      else if lower = "false".toList ∨ lower = "0".toList ∨ lower = "no".toList then some false
      else none
  | _ => none

-- ============================================================================
-- Errors
-- ============================================================================

/-- `field` is the member `field` of the error's data. -/
structure RpcError where
  code : String
  message : Text
  field : Option Text
deriving DecidableEq, Repr

namespace RpcError

def new (code : String) (message : Text) : RpcError := ⟨code, message, none⟩

def invalidParams (field : Text) (message : Option Text) : RpcError :=
  ⟨"invalid_params", message.getD ("invalid params: ".toList ++ field), some field⟩

end RpcError

-- ============================================================================
-- Accessors
-- ============================================================================

namespace JsonDict

/-- The accepted spellings of a key. -/
def aliases (key : Text) : List Text :=
  let spelled (suffix other : Text) : List Text :=
    if suffix.isSuffixOf key then [key.take (key.length - suffix.length) ++ other] else []
  key :: (spelled "ID".toList "Id".toList ++ spelled "JSON".toList "Json".toList ++
    spelled "IDs".toList "Ids".toList)

/-- The value of a key, under any of its spellings, unless it is `null`. -/
def any? (p : JsonDict) (key : Text) : Option Json :=
  (aliases key).findSome? fun k =>
    match p.get k with
    | some .null => none
    | v => v

def string (p : JsonDict) (key : Text) : Except RpcError (Option Text) :=
  match p.any? key with
  | none => .ok none
  | some (.string s) => .ok (some s)
  | some _ => .error (.invalidParams key none)

def requireString (p : JsonDict) (key : Text) : Except RpcError Text := do
  let missing := RpcError.invalidParams key (some ("missing required field: ".toList ++ key))
  match ← p.string key with
  | some s => if s.all (fun c => c = ' ' || c = '\t') then .error missing else .ok s
  | none => .error missing

def int (p : JsonDict) (key : Text) : Except RpcError (Option Int) :=
  match p.any? key with
  | none => .ok none
  | some v =>
      match intValue v with
      | some n => .ok (some n)
      | none => .error (.invalidParams key none)

def bool (p : JsonDict) (key : Text) : Except RpcError (Option Bool) :=
  match p.any? key with
  | none => .ok none
  | some v =>
      match boolValue v with
      | some b => .ok (some b)
      | none => .error (.invalidParams key none)

def dict (p : JsonDict) (key : Text) : Except RpcError (Option JsonDict) :=
  match p.any? key with
  | none => .ok none
  | some (.object m) => .ok (some m)
  | some _ => .error (.invalidParams key none)

def array (p : JsonDict) (key : Text) : Except RpcError (Option (List Json)) :=
  match p.any? key with
  | none => .ok none
  | some (.array l) => .ok (some l)
  | some _ => .error (.invalidParams key none)

def stringArray (p : JsonDict) (key : Text) : Except RpcError (Option (List Text)) := do
  match ← p.array key with
  | none => return none
  | some l =>
      let out ← l.mapM fun
        | .string s => .ok s
        | _ => .error (RpcError.invalidParams key none)
      return some out

/-- Two objects agree on every spelling of a key. -/
def SameAt (key : Text) (p p' : JsonDict) : Prop := ∀ k ∈ aliases key, p.get k = p'.get k

section

variable {p p' : JsonDict} {key : Text}

theorem sameAt_of_get (hkey : aliases key = [key]) (h : p.get key = p'.get key) :
    SameAt key p p' := by
  intro k hk
  rw [hkey] at hk
  rw [List.mem_singleton.mp hk]
  exact h

theorem sameAt_insert (p : JsonDict) {k : Text} (v : Json) (hk : k ∉ aliases key) :
    SameAt key (p.insert k v) p := by
  intro j hj
  apply get_insert_of_ne
  rintro rfl
  exact hk hj

theorem SameAt.any? (h : SameAt key p p') : p.any? key = p'.any? key := by
  unfold SameAt at h
  unfold JsonDict.any?
  generalize aliases key = names at h ⊢
  induction names with
  | nil => rfl
  | cons k rest ih =>
    rw [List.findSome?_cons, List.findSome?_cons, h k List.mem_cons_self,
      ih fun j hj => h j (List.mem_cons_of_mem k hj)]

theorem SameAt.string (h : SameAt key p p') : p.string key = p'.string key := by
  unfold JsonDict.string
  rw [h.any?]

theorem SameAt.requireString (h : SameAt key p p') :
    p.requireString key = p'.requireString key := by
  unfold JsonDict.requireString
  rw [h.string]

theorem SameAt.bool (h : SameAt key p p') : p.bool key = p'.bool key := by
  unfold JsonDict.bool
  rw [h.any?]

theorem SameAt.dict (h : SameAt key p p') : p.dict key = p'.dict key := by
  unfold JsonDict.dict
  rw [h.any?]

theorem SameAt.array (h : SameAt key p p') : p.array key = p'.array key := by
  unfold JsonDict.array
  rw [h.any?]

end

end JsonDict

/-- A computation that succeeds has succeeded so far. -/
theorem bind_eq_ok {ε α β : Type} {x : Except ε α} {f : α → Except ε β} {b : β}
    (h : (x >>= f) = .ok b) : ∃ a, x = .ok a ∧ f a = .ok b := by
  cases x with
  | error e => cases h
  | ok a => exact ⟨a, rfl, h⟩

end GnDrive.Rpc
