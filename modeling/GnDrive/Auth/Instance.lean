/-
  GnDrive.Auth.Instance

  Concrete crates that meet every documented fact the model assumes of the
  real ones, so that these facts can be met together.  Results about the
  service are instantiated with `Sample.crates` and `Sample.env`.
-/

import GnDrive.Auth.Data
import Mathlib.Logic.Encodable.Basic
import Mathlib.Logic.Equiv.List

namespace GnDrive.Auth.Sample

/-- The tag depends on the key only. -/
def tag (key : Bytes) : Bytes := (key ++ List.replicate 16 0).take 16

theorem tag_length (key : Bytes) : (tag key).length = 16 := by
  simp [tag]

def aead : Aead where
  encrypt key _ plain := plain ++ tag key
  decrypt key _ ct :=
    if ct.drop (ct.length - 16) = tag key then some (ct.take (ct.length - 16)) else none
  decrypt_encrypt key nonce plain := by simp [tag_length]
  encrypt_length key nonce plain := by simp [tag_length]

theorem rejects_of_tag_ne {key key' : Bytes} (h : tag key' ≠ tag key) :
    aead.Rejects key key' := by
  intro nonce plain
  simp [aead, tag_length, h]

/-- The hash is a prefix of the padded password followed by the salt. -/
def argon2 : Argon2 where
  hash _ pw salt n := some ((pw ++ salt ++ List.replicate n 0).take n)
  hash_length h := by
    obtain rfl := Option.some.inj h
    simp only [List.length_take, List.length_append, List.length_replicate]
    omega

/-- Whole seconds in unary, with a sign. -/
def formatSeconds (secs : Int) : List Char :=
  (if secs < 0 then '-' else '+') :: List.replicate secs.natAbs '1'

def parseSeconds : List Char → Option Int
  | '+' :: digits => some digits.length
  | '-' :: digits => some (-digits.length)
  | _ => none

theorem parseSeconds_formatSeconds (secs : Int) :
    parseSeconds (formatSeconds secs) = some secs := by
  unfold formatSeconds
  split_ifs with hneg
  · simp only [parseSeconds, List.length_replicate, Option.some.injEq]
    omega
  · simp only [parseSeconds, List.length_replicate, Option.some.injEq]
    omega

def rfc3339 : Rfc3339 where
  format t := String.ofList (formatSeconds (t / 10 ^ 9))
  parse s := (parseSeconds s.toList).map (· * 10 ^ 9)
  format_ne_empty t h := by
    have h' := congrArg String.toList h
    simp [formatSeconds] at h'
  parse_format t := by
    rw [String.toList_ofList, parseSeconds_formatSeconds, Option.map_some, Option.some.injEq]
    have hdiv : t / 10 ^ 9 * 10 ^ 9 + t % 10 ^ 9 = t := Int.ediv_mul_add_emod t (10 ^ 9)
    exact (Int.sub_eq_iff_eq_add.mpr hdiv.symm).symm

abbrev Fields := (Bool × Bool × Bool × Bool) × Bool × Int × List Nat × List Nat

def toFields (d : AuthData) : Fields :=
  ((d.appSettings.debugMode, d.appSettings.minimizeToTray, d.appSettings.notificationsEnabled,
      d.appSettings.startAtLogin),
    d.enabled, d.failedAttempts, d.lockoutUntil.toList.map Char.toNat,
    d.passwordHash.toList.map Char.toNat)

def ofFields : Fields → AuthData
  | ((b₁, b₂, b₃, b₄), enabled, failed, lockout, hash) =>
      ⟨⟨b₁, b₂, b₃, b₄⟩, enabled, failed, String.ofList (lockout.map Char.ofNat),
        String.ofList (hash.map Char.ofNat)⟩

theorem ofFields_toFields (d : AuthData) : ofFields (toFields d) = d := by
  have hchars : ∀ s : String, String.ofList ((s.toList.map Char.toNat).map Char.ofNat) = s := by
    intro s
    have hid : Char.ofNat ∘ Char.toNat = id := funext fun c => Char.ofNat_toNat c
    rw [List.map_map, hid, List.map_id, String.ofList_toList]
  simp only [toFields, ofFields, hchars]

/-- A file whose length encodes the fields. -/
def json : SerdeJson AuthData where
  toVecPretty d := List.replicate (Encodable.encode (toFields d)) 0
  fromSlice bytes := (Encodable.decode bytes.length : Option Fields).map ofFields
  fromSlice_toVecPretty d := by
    simp [Encodable.encodek, ofFields_toFields]

def crates : Crates := ⟨argon2, aead, json, rfc3339⟩

/-- Each character is a flag and three bytes; a zero ends the text. -/
def putChars : List Char → Bytes → Bytes
  | [], rest => 0 :: rest
  | c :: cs, rest =>
      1 :: .ofNat (c.toNat / 65536) :: .ofNat (c.toNat / 256) :: .ofNat c.toNat :: putChars cs rest

def takeChars : Bytes → Option (List Char × Bytes)
  | flag :: b₂ :: b₁ :: b₀ :: rest =>
      if flag = 0 then some ([], b₂ :: b₁ :: b₀ :: rest)
      else (takeChars rest).map fun (cs, rest) =>
        (Char.ofNat (b₂.toNat * 65536 + b₁.toNat * 256 + b₀.toNat) :: cs, rest)
  | flag :: rest => if flag = 0 then some ([], rest) else none
  | [] => none

theorem takeChars_putChars (cs : List Char) (rest : Bytes) :
    takeChars (putChars cs rest) = some (cs, rest) := by
  induction cs with
  | nil =>
    match rest with
    | [] | [_] | [_, _] | _ :: _ :: _ :: _ => rfl
  | cons c cs ih =>
    have hc : c.toNat < 1114112 := by
      have hv := c.valid
      unfold UInt32.isValidChar Nat.isValidChar at hv
      show c.val.toNat < _
      omega
    have hsum : (UInt8.ofNat (c.toNat / 65536)).toNat * 65536
        + (UInt8.ofNat (c.toNat / 256)).toNat * 256 + (UInt8.ofNat c.toNat).toNat = c.toNat := by
      simp only [UInt8.toNat_ofNat']
      omega
    show (if (1 : UInt8) = 0 then _ else _) = _
    rw [if_neg (by decide), ih, Option.map_some, hsum, Char.ofNat_toNat]

def flag (b : Bool) : UInt8 := if b then 1 else 0

theorem flag_eq_one (b : Bool) : (flag b == 1) = b := by cases b <;> rfl

/-- A file of flags and texts: unlike `json`, short enough to be written out. -/
def plainJson : SerdeJson AuthData where
  toVecPretty d :=
    flag d.appSettings.debugMode :: flag d.appSettings.minimizeToTray ::
      flag d.appSettings.notificationsEnabled :: flag d.appSettings.startAtLogin ::
      flag d.enabled :: putChars (formatSeconds d.failedAttempts)
        (putChars d.lockoutUntil.toList (putChars d.passwordHash.toList []))
  fromSlice
    | b₁ :: b₂ :: b₃ :: b₄ :: b₅ :: rest => do
        let (failed, rest) ← takeChars rest
        let (lockout, rest) ← takeChars rest
        let (hash, _) ← takeChars rest
        let failed ← parseSeconds failed
        return ⟨⟨b₁ == 1, b₂ == 1, b₃ == 1, b₄ == 1⟩, b₅ == 1, failed, String.ofList lockout,
          String.ofList hash⟩
    | _ => none
  fromSlice_toVecPretty d := by
    simp [takeChars_putChars, parseSeconds_formatSeconds, flag_eq_one]

/-- `crates` with files that can be read back by evaluation. -/
def plainCrates : Crates := ⟨argon2, aead, plainJson, rfc3339⟩

/-- Nothing fails, the clock stands, and the random source yields `b`. -/
def env (b : UInt8) : Env where
  fails _ _ := false
  rand _ _ := b
  suffix _ := 0
  now _ := 0

theorem env_noFaults (b : UInt8) : (env b).NoFaults := fun _ _ _ => rfl

/-- The 32-byte key of `password` under a salt of bytes `b`. -/
def keyOf (password : String) (b : UInt8) : Bytes :=
  (Argon2id.asBytes password ++ List.replicate 32 b ++ List.replicate 32 0).take 32

theorem deriveKey_eq (password : String) (b : UInt8) :
    Argon2id.deriveKey argon2 password (List.replicate 32 b) = .ok (keyOf password b) := rfl

def hashOf (password : String) (b : UInt8) : String :=
  Argon2id.encodeHash (List.replicate 32 b) (keyOf password b)

theorem storedKey (password : String) (b : UInt8) :
    Argon2id.StoredKey argon2 (hashOf password b) (List.replicate 32 b) (keyOf password b) :=
  ⟨rfl, password, deriveKey_eq password b⟩

theorem verify_hashOf (given password : String) (b : UInt8) :
    Argon2id.verify argon2 given (hashOf password b) = decide (keyOf given b = keyOf password b) := by
  rw [Bool.eq_iff_iff, (storedKey password b).verify_iff, deriveKey_eq, Except.ok.injEq,
    decide_eq_true_iff]

/-- `auth.json` of a service set up with `password`. -/
def authData (password : String) (b : UInt8) : AuthData :=
  ⟨.default, true, 0, "", hashOf password b⟩

/-- A config directory with the plain files `c` and an `auth.json`. -/
def world (c : ConfigFile → Option Bytes) (auth : Option AuthData) : World where
  disk
    | .file (.plain f) => (c f).map (File.mk 0)
    | .file .authJson => auth.map fun d => ⟨0, json.toVecPretty d⟩
    | _ => none
  keychain := none
  placed := []
  tick := 0

@[simp] theorem world_plain (c : ConfigFile → Option Bytes) (auth : Option AuthData)
    (f : ConfigFile) : (world c auth).view.files (.plain f) = c f := by
  simp [World.view, world, Function.comp_def]

@[simp] theorem world_enc (c : ConfigFile → Option Bytes) (auth : Option AuthData)
    (f : ConfigFile) : (world c auth).view.files (.enc f) = none := by
  simp [World.view, world]

@[simp] theorem world_authJson (c : ConfigFile → Option Bytes) (auth : Option AuthData) :
    (world c auth).view.files .authJson = auth.map json.toVecPretty := by
  simp [World.view, world, Function.comp_def]

@[simp] theorem readAs_world (c : ConfigFile → Option Bytes) (d : AuthData) :
    readAs crates ((world c (some d)).view.files .authJson) = d := by
  rw [world_authJson]
  exact readAs_toVecPretty crates d

@[simp] theorem world_keychain (c : ConfigFile → Option Bytes) (auth : Option AuthData) :
    (world c auth).view.keychain = none := rfl

end GnDrive.Auth.Sample
