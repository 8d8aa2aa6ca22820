/-
  GnDrive.Crates

  What the core takes from crates whose code is not part of the repository:
  `argon2`, `aes_gcm`, `serde_json` and `chrono`.  Each is a structure that
  holds the functions the core calls together with the documented facts it
  relies on; the model is generic over them.
-/

import GnDrive.Lib.Base64
import Mathlib.Algebra.Ring.Int.Defs
import Mathlib.Algebra.Ring.Nat

namespace GnDrive

/-- File contents, keys, nonces and salts. -/
abbrev Bytes := List UInt8

/-- A point in time, in nanoseconds since the epoch. -/
abbrev Time := Int

-- ============================================================================
-- argon2
-- ============================================================================

/-- The cost parameters `m`, `t` and `p` of Argon2. -/
structure Argon2Params where
  m : Nat
  t : Nat
  p : Nat
deriving DecidableEq, Repr

/-- The `argon2` crate: `Params::new` followed by `hash_password_into`, for
    Argon2id version 0x13.  `none` when either of them reports an error. -/
structure Argon2 where
  hash : Argon2Params → Bytes → Bytes → Nat → Option Bytes
  /-- The output fills the buffer it was asked for. -/
  hash_length : ∀ {ps pw salt n out}, hash ps pw salt n = some out → out.length = n

-- ============================================================================
-- aes_gcm
-- ============================================================================

/-- AES-256-GCM under a 32-byte key and a 12-byte nonce.  The ciphertext ends
    in the 16-byte tag. -/
structure Aead where
  encrypt : Bytes → Bytes → Bytes → Bytes
  decrypt : Bytes → Bytes → Bytes → Option Bytes
  decrypt_encrypt : ∀ key nonce plain, decrypt key nonce (encrypt key nonce plain) = some plain
  encrypt_length : ∀ key nonce plain, (encrypt key nonce plain).length = plain.length + 16

/-- What authentication gives for two keys: nothing encrypted under `key'`
    decrypts under `key`. -/
def Aead.Rejects (a : Aead) (key key' : Bytes) : Prop :=
  ∀ nonce plain, a.decrypt key nonce (a.encrypt key' nonce plain) = none

-- ============================================================================
-- serde_json and chrono
-- ============================================================================

/-- `serde_json::to_vec_pretty` and `serde_json::from_slice` at a type with
    derived instances. -/
structure SerdeJson (α : Type) where
  toVecPretty : α → Bytes
  fromSlice : Bytes → Option α
  fromSlice_toVecPretty : ∀ a, fromSlice (toVecPretty a) = some a

/-- RFC 3339 text with second precision, as `chrono` writes and reads it. -/
structure Rfc3339 where
  format : Time → String
  parse : String → Option Time
  format_ne_empty : ∀ t, format t ≠ ""
  parse_format : ∀ t, parse (format t) = some (t - t % 10 ^ 9)

end GnDrive
