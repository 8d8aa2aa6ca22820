/-
  GnDrive.Argon2id

  Argon2id password hashing (`argon2id.rs`): the encoded hash string
  `$argon2id$v=19$m=65536,t=3,p=4$<salt>$<hash>`, its verifier, and the file
  key derived from the password and the salt kept in that string.

  `StoredKey h k` relates an encoded hash to the one key that every accepted
  password derives: `verify_encoded` and `extractSalt_encoded` read a string
  made by `encodeHash` back, so an accepted password is one whose Argon2
  output, hence whose derived key, is the stored hash.
-/

import GnDrive.Crates
import Mathlib.Data.List.DropRight

namespace GnDrive.Argon2id

/-- KiB. -/
def MEMORY : Nat := 64 * 1024
def ITERATIONS : Nat := 3
def PARALLELISM : Nat := 4
def KEY_LENGTH : Nat := 32
def SALT_LENGTH : Nat := 32

inductive Argon2Error where
  | hashFailed
  | invalidFormat
deriving DecidableEq, Repr

variable (A : Argon2)

/-- `password.as_bytes()`. -/
def asBytes (password : String) : Bytes := password.toUTF8.toList

def hashRaw (password salt : Bytes) (len : Nat) : Except Argon2Error Bytes :=
  match A.hash ⟨MEMORY, ITERATIONS, PARALLELISM⟩ password salt len with
  | some out => .ok out
  | none => .error .hashFailed

/-- The raw 32-byte key used to encrypt the config files. -/
def deriveKey (password : String) (salt : Bytes) : Except Argon2Error Bytes :=
  hashRaw A (asBytes password) salt KEY_LENGTH

/-- The text `create_hash` formats from a salt and the hash under it. -/
def encodeHash (salt out : Bytes) : String :=
  String.ofList ("$argon2id$v=19$m=65536,t=3,p=4$".toList ++ Base64.encode salt
    ++ '$' :: Base64.encode out)

/-- `create_hash`, with the random salt as an argument. -/
def createHash (password : String) (salt : Bytes) : Except Argon2Error String := do
  let out ← hashRaw A (asBytes password) salt KEY_LENGTH
  return encodeHash salt out

/-- Base64 with padding tolerated. -/
def b64Raw (s : List Char) : Option Bytes := Base64.decode (s.rdropWhile (· == '='))

def constantTimeEq (a b : Bytes) : Bool :=
  if a.length ≠ b.length then false
  else (a.zip b).foldl (fun d xy => d ||| (xy.1 ^^^ xy.2)) 0 == 0

/-- A `u32` in decimal; a leading `+` is accepted. -/
def parseU32 (s : List Char) : Option Nat :=
  let digits := match s with
    | '+' :: rest => rest
    | _ => s
  if digits ≠ [] ∧ digits.all Char.isDigit then
    let n := digits.foldl (fun n c => n * 10 + (c.toNat - '0'.toNat)) 0
    if n < 2 ^ 32 then some n else none
  else none

theorem parseU32_lt {s : List Char} {n : Nat} (h : parseU32 s = some n) : n < 2 ^ 32 := by
  have hdigits : ∀ m : Nat, (if m < 2 ^ 32 then some m else none) = some n → n < 2 ^ 32 := by
    intro m hm
    split at hm
    · rename_i hlt
      rw [← Option.some.inj hm]
      exact hlt
    · cases hm
  unfold parseU32 at h
  dsimp only at h
  split at h
  · split at h
    · exact hdigits _ h
    · cases h
  · split at h
    · exact hdigits _ h
    · cases h

/-- The fields `m`, `t` and `p` read so far. -/
abbrev ParamFields := Option Nat × Option Nat × Option Nat

/-- One `key=value` item of the parameter list. -/
def parseParam (fields : ParamFields) (kv : List Char) : Option ParamFields :=
  match kv.span (· ≠ '=') with
  | (k, _ :: v) => do
      let v ← parseU32 v
      if k = ['m'] then some (some v, fields.2.1, fields.2.2)
      else if k = ['t'] then some (fields.1, some v, fields.2.2)
      else if k = ['p'] then some (fields.1, fields.2.1, some v)
      else none
  | (_, []) => none

/-- Parse `m=..,t=..,p=..`. -/
def parseParams (s : List Char) : Option Argon2Params :=
  match (s.splitOn ',').foldlM parseParam (none, none, none) with
  | some (some m, some t, some p) => some ⟨m, t, p⟩
  | _ => none

/-- `encoded.split('$')`. -/
def parts (encoded : String) : List (List Char) := encoded.toList.splitOn '$'

/-- `encoded.starts_with("$argon2id$")`. -/
def isCurrentFormat (encoded : String) : Bool := "$argon2id$".toList.isPrefixOf encoded.toList

/-- Verify a password against an encoded hash, in the 6-part format or in the
    legacy 5-part one with its fixed parameters. -/
def verify (password encoded : String) : Bool :=
  if isCurrentFormat encoded then
    match parts encoded with
    | [_, _, version, params, salt, stored] =>
        if version ≠ "v=19".toList then false
        else
          match parseParams params, b64Raw salt, b64Raw stored with
          | some ps, some salt, some stored =>
              match A.hash ps (asBytes password) salt stored.length with
              | some out => constantTimeEq stored out
              | none => false
          | _, _, _ => false
    | _ => false
  else
    match parts encoded with
    | [_, _, _, salt, stored] =>
        match b64Raw salt, b64Raw stored with
        | some salt, some stored =>
            match hashRaw A (asBytes password) salt stored.length with
            | .ok out => constantTimeEq stored out
            | .error _ => false
        | _, _ => false
    | _ => false

/-- Extract the salt from an encoded hash (either format). -/
def extractSalt (encoded : String) : Except Argon2Error Bytes :=
  if isCurrentFormat encoded then
    match parts encoded with
    | [_, _, _, _, salt, _] => (b64Raw salt).elim (.error .invalidFormat) .ok
    | _ => .error .invalidFormat
  else
    match parts encoded with
    | [_, _, _, salt, _] => (b64Raw salt).elim (.error .invalidFormat) .ok
    | _ => .error .invalidFormat

/-! ## Reading back what `create_hash` wrote -/

theorem or_xor_foldl_eq_zero (l : List (UInt8 × UInt8)) (d : UInt8) :
    l.foldl (fun d xy => d ||| (xy.1 ^^^ xy.2)) d = 0 ↔ d = 0 ∧ ∀ xy ∈ l, xy.1 = xy.2 := by
  induction l generalizing d with
  | nil => simp
  | cons xy l ih =>
    rw [List.foldl_cons, ih, List.forall_mem_cons, UInt8.or_eq_zero_iff, UInt8.xor_eq_zero_iff,
      and_assoc]

theorem constantTimeEq_iff {a b : Bytes} : constantTimeEq a b = true ↔ a = b := by
  unfold constantTimeEq
  by_cases hlen : a.length = b.length
  · rw [if_neg (not_not_intro hlen), beq_iff_eq, or_xor_foldl_eq_zero]
    constructor
    · rintro ⟨-, h⟩
      refine List.ext_getElem hlen fun i ha hb => ?_
      exact h (a[i], b[i]) (List.mem_iff_getElem.mpr ⟨i, by rw [List.length_zip]; omega, by simp⟩)
    · rintro rfl
      refine ⟨rfl, fun xy h => ?_⟩
      obtain ⟨i, hi, rfl⟩ := List.mem_iff_getElem.mp h
      simp
  · simp only [if_pos hlen, Bool.false_eq_true, false_iff]
    rintro rfl
    exact hlen rfl

theorem b64Raw_encode (bs : Bytes) : b64Raw (Base64.encode bs) = some bs := by
  have hpad : (Base64.encode bs).rdropWhile (· == '=') = Base64.encode bs := by
    rw [List.rdropWhile_eq_self_iff]
    intro hne h
    have hmem := List.getLast_mem hne
    rw [beq_iff_eq.mp h] at hmem
    exact Base64.not_mem_encode (by decide +kernel) bs hmem
  rw [b64Raw, hpad, Base64.decode_encode]

/-- The fields of the text, separated by `$`; the first one is empty. -/
def hashFields (salt out : Bytes) : List (List Char) :=
  [[], "argon2id".toList, "v=19".toList, "m=65536,t=3,p=4".toList,
    Base64.encode salt, Base64.encode out]

theorem hashPrefix_split :
    "$argon2id$v=19$m=65536,t=3,p=4$".toList
      = '$' :: ("argon2id".toList ++ '$' :: ("v=19".toList ++ '$' ::
          ("m=65536,t=3,p=4".toList ++ ['$']))) := by decide +kernel

theorem encodeHash_toList (salt out : Bytes) :
    (encodeHash salt out).toList = ['$'].intercalate (hashFields salt out) := by
  unfold encodeHash hashFields
  rw [String.toList_ofList]
  conv_lhs => rw [hashPrefix_split]
  simp only [List.intercalate_cons_cons, List.intercalate_singleton, List.append_assoc,
    List.cons_append, List.nil_append]

theorem parts_encodeHash (salt out : Bytes) :
    parts (encodeHash salt out) = hashFields salt out := by
  have hsep : ∀ bs, '$' ∉ Base64.encode bs := Base64.not_mem_encode (by decide +kernel)
  rw [parts, encodeHash_toList]
  refine List.splitOn_intercalate _ ?_ (by simp [hashFields])
  simp only [hashFields, List.forall_mem_cons, List.not_mem_nil, false_imp_iff, implies_true,
    and_true]
  exact ⟨not_false, by decide +kernel, by decide +kernel, by decide +kernel, hsep salt, hsep out⟩

theorem isCurrentFormat_encodeHash (salt out : Bytes) :
    isCurrentFormat (encodeHash salt out) = true := by
  unfold isCurrentFormat encodeHash
  rw [String.toList_ofList, List.isPrefixOf_iff_prefix, List.append_assoc]
  simp

theorem parseParams_default :
    parseParams "m=65536,t=3,p=4".toList = some ⟨MEMORY, ITERATIONS, PARALLELISM⟩ := by
  decide +kernel

theorem extractSalt_encodeHash (salt out : Bytes) :
    extractSalt (encodeHash salt out) = .ok salt := by
  rw [extractSalt, if_pos (isCurrentFormat_encodeHash salt out), parts_encodeHash]
  simp only [hashFields, b64Raw_encode, Option.elim_some]

variable {A}

/-- A password is accepted by an encoded hash exactly when its Argon2 output
    is the hash in it. -/
theorem verify_encodeHash {password : String} {salt out : Bytes} :
    verify A password (encodeHash salt out) = true
      ↔ hashRaw A (asBytes password) salt out.length = .ok out := by
  rw [verify, if_pos (isCurrentFormat_encodeHash salt out), parts_encodeHash]
  simp only [hashFields, ne_eq, not_true_eq_false, if_false, parseParams_default, b64Raw_encode,
    hashRaw]
  cases A.hash ⟨MEMORY, ITERATIONS, PARALLELISM⟩ (asBytes password) salt out.length with
  | none => simp
  | some got =>
    simp only [constantTimeEq_iff, Except.ok.injEq]
    exact eq_comm

theorem deriveKey_length {password : String} {salt key : Bytes}
    (h : deriveKey A password salt = .ok key) : key.length = KEY_LENGTH := by
  unfold deriveKey hashRaw at h
  split at h
  · cases h
    exact A.hash_length ‹_›
  · cases h

theorem createHash_eq {password : String} {salt : Bytes} :
    createHash A password salt = (deriveKey A password salt).map (encodeHash salt) := by
  unfold createHash deriveKey
  cases hashRaw A (asBytes password) salt KEY_LENGTH <;> rfl

-- ============================================================================
-- The key behind a stored hash
-- ============================================================================

/-- `h` was made by `create_hash` from some password and salt, and `key` is
    the key that password derives. -/
def StoredKey (A : Argon2) (h : String) (salt key : Bytes) : Prop :=
  h = encodeHash salt key ∧ ∃ password, deriveKey A password salt = .ok key

theorem StoredKey.extractSalt_eq {h : String} {salt key : Bytes} (hs : StoredKey A h salt key) :
    extractSalt h = .ok salt := by
  rw [hs.1, extractSalt_encodeHash]

theorem StoredKey.key_length {h : String} {salt key : Bytes} (hs : StoredKey A h salt key) :
    key.length = KEY_LENGTH := deriveKey_length hs.2.choose_spec

/-- Every accepted password derives the key. -/
theorem StoredKey.verify_iff {h : String} {salt key : Bytes} (hs : StoredKey A h salt key)
    {password : String} :
    verify A password h = true ↔ deriveKey A password salt = .ok key := by
  rw [hs.1, verify_encodeHash, hs.key_length]
  rfl

theorem StoredKey.key_unique {h : String} {salt salt' key key' : Bytes}
    (hs : StoredKey A h salt key) (hs' : StoredKey A h salt' key') : salt = salt' ∧ key = key' := by
  have hsalt : salt = salt' := Except.ok.inj (hs.extractSalt_eq.symm.trans hs'.extractSalt_eq)
  obtain ⟨password, hp⟩ := hs.2
  have hp' := hs'.verify_iff.mp (hs.verify_iff.mpr hp)
  rw [← hsalt, hp] at hp'
  exact ⟨hsalt, Except.ok.inj hp'⟩

theorem createHash_storedKey {password : String} {salt : Bytes} {h : String}
    (hh : createHash A password salt = .ok h) :
    ∃ key, deriveKey A password salt = .ok key ∧ StoredKey A h salt key := by
  rw [createHash_eq] at hh
  cases hd : deriveKey A password salt with
  | error e => rw [hd] at hh; cases hh
  | ok key =>
    rw [hd] at hh
    cases hh
    exact ⟨key, rfl, rfl, password, hd⟩

end GnDrive.Argon2id
