/-
  GnDrive.Auth.HashFormat

  The two layouts of a password hash.

  `readHash` is what the verifier reads of a hash string; `extract_salt` reads the same salt
  of every string that the verifier can accept.  The verifier takes the cost parameters of
  the current layout from the string, where the key is always derived with the fixed ones,
  so they go together only where the string has those.
-/

import GnDrive.Argon2id

namespace GnDrive.Argon2id

/-- The parameters of `create_hash` and `derive_key`. -/
def FIXED : Argon2Params := ⟨MEMORY, ITERATIONS, PARALLELISM⟩

/-- The salt, the parameters and the hash that the verifier reads. -/
def readHash (encoded : String) : Option (Bytes × Argon2Params × Bytes) :=
  if isCurrentFormat encoded then
    match parts encoded with
    | [_, _, version, params, salt, stored] =>
        if version ≠ "v=19".toList then none
        else do
          let ps ← parseParams params
          let salt ← b64Raw salt
          let stored ← b64Raw stored
          return (salt, ps, stored)
    | _ => none
  else
    match parts encoded with
    | [_, _, _, salt, stored] => do
        let salt ← b64Raw salt
        let stored ← b64Raw stored
        return (salt, FIXED, stored)
    | _ => none

/-- The password has the hash, under what was read beside it. -/
def accepts (A : Argon2) (password : Bytes) (read : Bytes × Argon2Params × Bytes) : Bool :=
  (A.hash read.2.1 password read.1 read.2.2.length).any (constantTimeEq read.2.2)

section

variable {A : Argon2} {password encoded : String} {salt stored : Bytes} {ps : Argon2Params}

theorem verify_eq :
    verify A password encoded = (readHash encoded).any (accepts A (asBytes password)) := by
  unfold verify readHash
  generalize parts encoded = fields
  cases isCurrentFormat encoded with
  | true =>
    rw [if_pos rfl, if_pos rfl]
    rcases fields with _ | ⟨-, _ | ⟨-, _ | ⟨version, _ | ⟨params, _ | ⟨salt, _ | ⟨stored,
      _ | ⟨-, more⟩⟩⟩⟩⟩⟩⟩
    · rfl
    · rfl
    · rfl
    · rfl
    · rfl
    · rfl
    · dsimp only
      by_cases hversion : version ≠ "v=19".toList
      · rw [if_pos hversion, if_pos hversion]
        rfl
      rw [if_neg hversion, if_neg hversion]
      cases parseParams params with
      | none => rfl
      | some ps =>
        cases b64Raw salt with
        | none => rfl
        | some salt =>
          cases b64Raw stored with
          | none => rfl
          | some stored =>
            show _ = (A.hash ps (asBytes password) salt stored.length).any _
            dsimp only
            cases A.hash ps (asBytes password) salt stored.length <;> rfl
    · rfl
  | false =>
    rw [if_neg Bool.false_ne_true, if_neg Bool.false_ne_true]
    rcases fields with _ | ⟨-, _ | ⟨-, _ | ⟨-, _ | ⟨salt, _ | ⟨stored, _ | ⟨-, more⟩⟩⟩⟩⟩⟩
    · rfl
    · rfl
    · rfl
    · rfl
    · rfl
    · dsimp only
      cases b64Raw salt with
      | none => rfl
      | some salt =>
        cases b64Raw stored with
        | none => rfl
        | some stored =>
          show _ = (A.hash FIXED (asBytes password) salt stored.length).any _
          dsimp only
          unfold hashRaw FIXED
          cases A.hash ⟨MEMORY, ITERATIONS, PARALLELISM⟩ (asBytes password) salt stored.length <;> rfl
    · rfl

theorem accepts_iff : accepts A password.toUTF8.toList (salt, ps, stored) = true ↔
    A.hash ps (asBytes password) salt stored.length = some stored := by
  unfold accepts asBytes
  dsimp only
  cases A.hash ps password.toUTF8.toList salt stored.length with
  | none => simp
  | some out =>
    rw [Option.any_some, constantTimeEq_iff, Option.some.injEq]
    exact eq_comm

theorem verify_of_read (h : readHash encoded = some (salt, ps, stored)) :
    verify A password encoded = true ↔
      A.hash ps (asBytes password) salt stored.length = some stored := by
  rw [verify_eq, h]
  exact accepts_iff

/-- What the verifier cannot read it does not accept. -/
theorem read_of_verify (h : verify A password encoded = true) : (readHash encoded).isSome := by
  rw [verify_eq] at h
  cases hread : readHash encoded with
  | none =>
    rw [hread] at h
    cases h
  | some read => rfl

/-- Both readers take the salt from the same place. -/
theorem extractSalt_of_read (h : readHash encoded = some (salt, ps, stored)) :
    extractSalt encoded = .ok salt ∧ (isCurrentFormat encoded = false → ps = FIXED) := by
  unfold readHash at h
  unfold extractSalt
  generalize parts encoded = fields at h ⊢
  cases hcurrent : isCurrentFormat encoded with
  | true =>
    rw [hcurrent, if_pos rfl] at h
    rw [if_pos rfl]
    refine ⟨?_, fun h => nomatch h⟩
    rcases fields with _ | ⟨_, _ | ⟨_, _ | ⟨version, _ | ⟨params, _ | ⟨saltField, _ | ⟨storedField,
      _ | ⟨_, more⟩⟩⟩⟩⟩⟩⟩
    · cases h
    · cases h
    · cases h
    · cases h
    · cases h
    · cases h
    · dsimp only at h ⊢
      split at h
      · cases h
      · obtain ⟨ps', -, hps⟩ := Option.bind_eq_some_iff.mp h
        obtain ⟨salt', hsalt, hrest⟩ := Option.bind_eq_some_iff.mp hps
        obtain ⟨stored', -, hread⟩ := Option.bind_eq_some_iff.mp hrest
        obtain ⟨rfl, -⟩ := Prod.mk.inj (Option.some.inj hread)
        rw [hsalt]
        rfl
    · cases h
  | false =>
    rw [hcurrent, if_neg Bool.false_ne_true] at h
    rw [if_neg Bool.false_ne_true]
    rcases fields with _ | ⟨_, _ | ⟨_, _ | ⟨_, _ | ⟨saltField, _ | ⟨storedField, _ | ⟨_, more⟩⟩⟩⟩⟩⟩
    · cases h
    · cases h
    · cases h
    · cases h
    · cases h
    · dsimp only at h ⊢
      obtain ⟨salt', hsalt, hrest⟩ := Option.bind_eq_some_iff.mp h
      obtain ⟨stored', -, hread⟩ := Option.bind_eq_some_iff.mp hrest
      obtain ⟨rfl, hpair⟩ := Prod.mk.inj (Option.some.inj hread)
      obtain ⟨rfl, -⟩ := Prod.mk.inj hpair
      refine ⟨?_, fun _ => rfl⟩
      rw [hsalt]
      rfl
    · cases h

theorem readHash_encodeHash (salt out : Bytes) :
    readHash (encodeHash salt out) = some (salt, FIXED, out) := by
  rw [readHash, if_pos (isCurrentFormat_encodeHash salt out), parts_encodeHash]
  dsimp only [hashFields]
  rw [if_neg (not_not_intro rfl), parseParams_default, b64Raw_encode, b64Raw_encode]
  rfl

/-- With the fixed parameters, and a hash of the length of a key, the hash is the key. -/
theorem verify_iff_derives (h : readHash encoded = some (salt, FIXED, stored))
    (hlen : stored.length = KEY_LENGTH) :
    verify A password encoded = true ↔ deriveKey A password salt = .ok stored := by
  rw [verify_of_read h, hlen]
  unfold deriveKey hashRaw FIXED
  cases A.hash ⟨MEMORY, ITERATIONS, PARALLELISM⟩ (asBytes password) salt KEY_LENGTH <;> simp

end

/-- What `create_hash` makes is accepted for its password, and its salt is read back; of
    every string in either layout the two readers take the same salt; and where the
    parameters read are the fixed ones, as they are in the older layout and in all that
    `create_hash` makes, every password that verifies derives the hash as its key. -/
theorem hash_format (A : Argon2) :
    (∀ password salt encoded, createHash A password salt = .ok encoded →
      verify A password encoded = true ∧ extractSalt encoded = .ok salt ∧
        ∃ key, readHash encoded = some (salt, FIXED, key) ∧ key.length = KEY_LENGTH) ∧
    (∀ password encoded, verify A password encoded = true ↔
      ∃ salt ps stored, readHash encoded = some (salt, ps, stored) ∧
        A.hash ps (asBytes password) salt stored.length = some stored) ∧
    (∀ encoded salt ps stored, readHash encoded = some (salt, ps, stored) →
      extractSalt encoded = .ok salt ∧ (isCurrentFormat encoded = false → ps = FIXED)) ∧
    ∀ password encoded salt stored, readHash encoded = some (salt, FIXED, stored) →
      stored.length = KEY_LENGTH →
        (verify A password encoded = true ↔ deriveKey A password salt = .ok stored) := by
  refine ⟨fun password salt encoded h => ?_, fun password encoded => ?_,
    fun encoded salt ps stored h => extractSalt_of_read h,
    fun password encoded salt stored h hlen => verify_iff_derives h hlen⟩
  · obtain ⟨key, hkey, hstored⟩ := createHash_storedKey h
    refine ⟨hstored.verify_iff.mpr hkey, hstored.extractSalt_eq, key, ?_, hstored.key_length⟩
    rw [hstored.1, readHash_encodeHash]
  · constructor
    · intro h
      obtain ⟨⟨salt, ps, stored⟩, hread⟩ := Option.isSome_iff_exists.mp (read_of_verify h)
      exact ⟨salt, ps, stored, hread, (verify_of_read hread).mp h⟩
    · rintro ⟨salt, ps, stored, hread, hhash⟩
      exact (verify_of_read hread).mpr hhash

/-- A hash with other parameters: the verifier uses them, and the key is derived without. -/
theorem parameters_differ :
    readHash "$argon2id$v=19$m=8,t=1,p=1$c2FsdHNhbHQ$aGFzaA" =
      some ([115, 97, 108, 116, 115, 97, 108, 116], ⟨8, 1, 1⟩, [104, 97, 115, 104]) ∧
    ¬ ∀ encoded salt ps stored, readHash encoded = some (salt, ps, stored) →
      extractSalt encoded = .ok salt ∧ ps = FIXED := by
  have hread : readHash "$argon2id$v=19$m=8,t=1,p=1$c2FsdHNhbHQ$aGFzaA" =
      some ([115, 97, 108, 116, 115, 97, 108, 116], ⟨8, 1, 1⟩, [104, 97, 115, 104]) := by
    decide +kernel
  exact ⟨hread, fun h => absurd (h _ _ _ _ hread).2 (by decide)⟩

end GnDrive.Argon2id
