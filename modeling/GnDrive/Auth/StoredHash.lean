/-
  GnDrive.Auth.StoredHash

  What the hash string in `auth.json` gives away.

  `create_hash` and `derive_key` run Argon2 on the same password and salt with
  the same parameters and output length, so the last field of the string is
  the file key itself: `keyInHash` reads it back without the password, for
  every Argon2 (`keySecret_never`).  On the disk of a locked service that is
  enough to decrypt every config file (`opens_of_authJson`).
-/

import GnDrive.Auth.KeyAgreement

namespace GnDrive.Auth

open Argon2id
open Crypto (Sealed opens)

/-- The bytes in the last field of an encoded hash. -/
def keyInHash (encoded : String) : Option Bytes :=
  match parts encoded with
  | [_, _, _, _, _, stored] => b64Raw stored
  | _ => none

theorem keyInHash_encodeHash (salt out : Bytes) :
    keyInHash (encodeHash salt out) = some out := by
  have hparts := parts_encodeHash salt out
  unfold hashFields at hparts
  unfold keyInHash
  rw [hparts]
  exact b64Raw_encode out

/-- The key behind a stored hash is the hash. -/
theorem keyInHash_storedKey {A : Argon2} {hash : String} {salt key : Bytes}
    (h : StoredKey A hash salt key) : keyInHash hash = some key := by
  rw [h.1]
  exact keyInHash_encodeHash salt key

/-- No function of the encoded hash alone returns the file key for every
    password and salt. -/
def KeySecret (A : Argon2) : Prop :=
  ¬ ∃ recover : String → Option Bytes, ∀ password salt encoded key,
    createHash A password salt = .ok encoded → deriveKey A password salt = .ok key →
      recover encoded = some key

/-- Whatever Argon2 computes, the encoded hash determines the file key. -/
theorem keySecret_never (A : Argon2) : ¬ KeySecret A := by
  intro hsecret
  refine hsecret ⟨keyInHash, fun password salt encoded key hhash hkey => ?_⟩
  obtain ⟨key', hkey', hstored⟩ := createHash_storedKey hhash
  have heq : key = key' := Except.ok.inj (hkey.symm.trans hkey')
  rw [heq]
  exact keyInHash_storedKey hstored

/-- A password, its salt, and the key read off the hash made from them. -/
theorem keySecret_sample :
    createHash Sample.argon2 "secret" (List.replicate 32 1) = .ok (Sample.hashOf "secret" 1) ∧
      deriveKey Sample.argon2 "secret" (List.replicate 32 1) = .ok (Sample.keyOf "secret" 1) ∧
      keyInHash (Sample.hashOf "secret" 1) = some (Sample.keyOf "secret" 1) ∧
      ¬ ∀ A, KeySecret A := by
  have hrecover : ∀ password salt encoded key,
      createHash Sample.argon2 password salt = .ok encoded →
      deriveKey Sample.argon2 password salt = .ok key → keyInHash encoded = some key := by
    intro password salt encoded key hhash hkey
    obtain ⟨key', hkey', hstored⟩ := createHash_storedKey hhash
    rw [Except.ok.inj (hkey.symm.trans hkey')]
    exact keyInHash_storedKey hstored
  refine ⟨rfl, rfl, keyInHash_encodeHash _ _, fun h => ?_⟩
  exact h Sample.argon2 ⟨keyInHash, hrecover⟩

/-- In every run that keeps key, hash and files together, `auth.json` alone
    opens every encrypted file that is not empty. -/
theorem opens_of_authJson {X : Crates} {keyStore : Bool} {m : Running}
    (h : (keySystem X keyStore).ReachableIf (fun m call => call.Ok X m) m)
    (hen : (readAs X (m.world.view.files .authJson)).enabled = true) :
    ∃ key, keyInHash (readAs X (m.world.view.files .authJson)).passwordHash = some key ∧
      ∀ f blob, m.world.view.files (.enc f) = some blob →
        ∃ plain, Sealed X.aead key plain blob ∧ (plain ≠ [] → opens X.aead key blob = some plain) := by
  have hinv : KeyInv X keyStore m.state m.world.view := by
    refine System.ReachableIf.invariant (P := fun m : Running =>
      KeyInv X keyStore m.state m.world.view) (fun _ hi => fresh_keyInv hi) ?_ h
    intro m call m' hm hok hs
    exact Option.some.inj hs ▸ hm.step hok
  obtain ⟨key, ⟨⟨salt, hstored⟩, hencs⟩, -⟩ := hinv.persisted hen
  refine ⟨key, keyInHash_storedKey hstored, fun f blob hb => ?_⟩
  obtain ⟨plain, hsealed⟩ := hencs f blob hb
  exact ⟨plain, hsealed, hsealed.opens_eq hstored.key_length⟩

end GnDrive.Auth
