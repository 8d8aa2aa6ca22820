/-
  GnDrive.Crypto

  AES-256-GCM file encryption (`crypto.rs`).  Wire format of an encrypted
  file: `[12-byte nonce][ciphertext || 16-byte tag]`.

  `Sealed a key plain blob` says that `blob` is `plain` encrypted under
  `key`, and `opens a key blob` is what decrypting it gives: the content, but
  nothing when the content is empty.  `spec_writeAtomic0600`, `spec_encryptFile` and `spec_decryptFile`
  describe the three operations over views, with every point at which the
  process can die and every call that can fail.
-/

import GnDrive.Disk

namespace GnDrive.Crypto

def NONCE_LEN : Nat := 12
def TAG_LEN : Nat := 16

inductive CryptoError where
  | decryptionFailed
  | io (e : IoError)
deriving DecidableEq, Repr

/-- Commands with an error converted by `From`. -/
def tryIo {ε α : Type} (f : IoError → ε) (p : Io (Except IoError α)) : ExceptT ε Io α :=
  ExceptT.mk do return (← p).mapError f

/-- Fill the temp file and rename it. -/
def writeTmp (tmp dst : Path) (data : Bytes) : ExceptT IoError Io Unit := do
  ExceptT.mk (createNew tmp)
  ExceptT.mk (writeAll tmp data)
  ExceptT.mk (syncAll tmp)
  ExceptT.mk (setMode0600 tmp)
  ExceptT.mk (rename tmp dst)

/-- Atomically write `data` to `dst` (temp file in same dir + rename), mode 0600. -/
def writeAtomic0600 (dst : Name) (data : Bytes) : Io (Except IoError Unit) := do
  let suffix ← randU64
  let res ← (writeTmp (.tmp dst suffix) (.file dst) data).run
  match res with
  | .ok () => return res
  | .error _ =>
      removeFile (.tmp dst suffix)
      return res

variable (a : Aead)

/-- `Aes256Gcm::new_from_slice`. -/
def cipher (key : Bytes) : Except CryptoError Unit :=
  if key.length = 32 then .ok () else .error .decryptionFailed

/-- Encrypt file at `src` into `dst`. -/
def encryptFile (src dst : Name) (key : Bytes) : ExceptT CryptoError Io Unit := do
  let plain ← tryIo .io (readFile (.file src))
  ExceptT.mk (pure (cipher key))
  let nonce ← ExceptT.lift (randFill NONCE_LEN)
  tryIo .io (writeAtomic0600 dst (nonce ++ a.encrypt key nonce plain))

/-- Decrypt `.enc` file at `src` into `dst`. -/
def decryptFile (src dst : Name) (key : Bytes) : ExceptT CryptoError Io Unit := do
  let blob ← tryIo .io (readFile (.file src))
  if blob.length ≤ NONCE_LEN + TAG_LEN then
    throw .decryptionFailed
  else
    ExceptT.mk (pure (cipher key))
    match a.decrypt key (blob.take NONCE_LEN) (blob.drop NONCE_LEN) with
    | none => throw .decryptionFailed
    | some plain => tryIo .io (writeAtomic0600 dst plain)

/-! ## Encrypted files -/

/-- `blob` is `plain` encrypted under `key`. -/
def Sealed (key plain blob : Bytes) : Prop :=
  ∃ nonce : Bytes, nonce.length = NONCE_LEN ∧ blob = nonce ++ a.encrypt key nonce plain

variable {a}

theorem sealed_take {nonce ct : Bytes} (h : nonce.length = NONCE_LEN) :
    (nonce ++ ct).take NONCE_LEN = nonce := by rw [← h, List.take_left]

theorem sealed_drop {nonce ct : Bytes} (h : nonce.length = NONCE_LEN) :
    (nonce ++ ct).drop NONCE_LEN = ct := by rw [← h, List.drop_left]

/-- The length check of `decryptFile` lets an encrypted file through exactly
    when its content is not empty. -/
theorem Sealed.length_le_iff {key plain blob : Bytes} (h : Sealed a key plain blob) :
    blob.length ≤ NONCE_LEN + TAG_LEN ↔ plain = [] := by
  obtain ⟨nonce, hn, rfl⟩ := h
  rw [List.length_append, hn, a.encrypt_length, ← List.length_eq_zero_iff]
  unfold TAG_LEN
  omega

theorem Sealed.decrypt_eq {key plain blob : Bytes} (h : Sealed a key plain blob) :
    a.decrypt key (blob.take NONCE_LEN) (blob.drop NONCE_LEN) = some plain := by
  obtain ⟨nonce, hn, rfl⟩ := h
  rw [sealed_take hn, sealed_drop hn, a.decrypt_encrypt]

/-- An encrypted file determines its content. -/
theorem Sealed.content_unique {key plain plain' blob : Bytes} (h : Sealed a key plain blob)
    (h' : Sealed a key plain' blob) : plain = plain' :=
  Option.some.inj (h.decrypt_eq.symm.trans h'.decrypt_eq)

variable (a) in
/-- What `decryptFile` makes of the bytes of an encrypted file. -/
def opens (key blob : Bytes) : Option Bytes :=
  if blob.length ≤ NONCE_LEN + TAG_LEN then none
  else if key.length = 32 then a.decrypt key (blob.take NONCE_LEN) (blob.drop NONCE_LEN)
  else none

theorem Sealed.opens_eq {key plain blob : Bytes} (h : Sealed a key plain blob)
    (hkey : key.length = 32) (hne : plain ≠ []) : opens a key blob = some plain := by
  unfold opens
  rw [if_neg (mt h.length_le_iff.mp hne), if_pos hkey, h.decrypt_eq]

/-- An empty file is encrypted, and never decrypted again. -/
theorem Sealed.opens_nil {key key' blob : Bytes} (h : Sealed a key [] blob) :
    opens a key' blob = none := if_pos (h.length_le_iff.mpr rfl)

theorem Sealed.opens_some {key plain plain' blob : Bytes} (h : Sealed a key plain blob)
    (ho : opens a key blob = some plain') : plain' = plain := by
  unfold opens at ho
  split at ho
  · cases ho
  · split at ho
    · exact Option.some.inj (ho.symm.trans h.decrypt_eq)
    · cases ho

theorem Sealed.opens_rejected {key key' plain blob : Bytes} (h : Sealed a key' plain blob)
    (hr : a.Rejects key key') : opens a key blob = none := by
  obtain ⟨nonce, hn, rfl⟩ := h
  unfold opens
  rw [sealed_take hn, sealed_drop hn, hr, ite_self, ite_self]

/-! ## Specifications -/

/-- The commands that fill and rename a temp file for `dst`. -/
def WritesTo (dst : Name) (c : Cmd) : Prop :=
  ∃ s, c = .createNew (.tmp dst s) ∨ (∃ data, c = .writeAll (.tmp dst s) data)
    ∨ c = .syncAll (.tmp dst s) ∨ c = .setMode0600 (.tmp dst s)
    ∨ c = .rename (.tmp dst s) (.file dst)

section

variable {env : Env} {I : View → Prop} {v : View}

/-- The temp file `p` holds `data`, and the view is `v`. -/
def HasTmp (p : Path) (data : Bytes) (v : View) (w : World) : Prop :=
  w.view = v ∧ ∃ i, w.disk p = some ⟨i, data⟩

section Tmp

variable {n : Name} {s : UInt64} {data : Bytes} {w : World} {Q : Except IoError Unit → World → Prop}

theorem wp_createNew (hI : I v) (hw : w.view = v)
    (hok : ∀ w', HasTmp (.tmp n s) [] v w' → Q (.ok ()) w')
    (hfail : ∀ k, env.fails k (.createNew (.tmp n s)) = true → ∀ w', w'.view = v →
      Q (.error .other) w') :
    Prog.wp (exec env) (fun w => I w.view) Q (createNew (.tmp n s)) w := by
  subst hw
  cases hf : env.fails w.tick (.createNew (.tmp n s)) with
  | true =>
    refine wp_command hI ?_ ?_
    · simpa [exec, hf] using hI
    · simpa [exec, hf] using hfail _ hf w.tock rfl
  | false =>
    refine wp_command hI ?_ ?_
    · simpa [exec, hf] using hI
    · simp only [exec, hf, Bool.false_eq_true, if_false]
      exact hok _ ⟨by simp, w.tick, by simp [World.tock, World.setFile]⟩

theorem wp_writeAll {old : Bytes} (hI : I v) (hw : HasTmp (.tmp n s) old v w)
    (hok : ∀ w', HasTmp (.tmp n s) data v w' → Q (.ok ()) w')
    (hfail : ∀ k, env.fails k (.writeAll (.tmp n s) data) = true → ∀ w', w'.view = v →
      Q (.error .other) w') :
    Prog.wp (exec env) (fun w => I w.view) Q (writeAll (.tmp n s) data) w := by
  obtain ⟨rfl, i, hd⟩ := hw
  cases hf : env.fails w.tick (.writeAll (.tmp n s) data) with
  | true =>
    refine wp_command hI ?_ ?_
    · simpa [exec, hf] using hI
    · simpa [exec, hf] using hfail _ hf w.tock rfl
  | false =>
    refine wp_command hI ?_ ?_
    · simpa [exec, hf, hd] using hI
    · simp only [exec, hf, hd, Bool.false_eq_true, if_false]
      exact hok _ ⟨by simp, i, by simp [World.tock, World.setFile]⟩

theorem wp_syncAll (hI : I v) (hw : HasTmp (.tmp n s) data v w)
    (hok : ∀ w', HasTmp (.tmp n s) data v w' → Q (.ok ()) w')
    (hfail : ∀ k, env.fails k (.syncAll (.tmp n s)) = true → ∀ w', w'.view = v →
      Q (.error .other) w') :
    Prog.wp (exec env) (fun w => I w.view) Q (syncAll (.tmp n s)) w := by
  obtain ⟨rfl, hd⟩ := hw
  cases hf : env.fails w.tick (.syncAll (.tmp n s)) with
  | true =>
    refine wp_command hI ?_ ?_
    · simpa [exec, hf] using hI
    · simpa [exec, hf] using hfail _ hf w.tock rfl
  | false =>
    refine wp_command hI ?_ ?_
    · simpa [exec, hf] using hI
    · simpa [exec, hf] using hok w.tock ⟨rfl, hd⟩

theorem wp_setMode0600 (hI : I v) (hw : HasTmp (.tmp n s) data v w)
    (hok : ∀ w', HasTmp (.tmp n s) data v w' → Q (.ok ()) w')
    (hfail : ∀ k, env.fails k (.setMode0600 (.tmp n s)) = true → ∀ w', w'.view = v →
      Q (.error .other) w') :
    Prog.wp (exec env) (fun w => I w.view) Q (setMode0600 (.tmp n s)) w := by
  obtain ⟨rfl, hd⟩ := hw
  cases hf : env.fails w.tick (.setMode0600 (.tmp n s)) with
  | true =>
    refine wp_command hI ?_ ?_
    · simpa [exec, hf] using hI
    · simpa [exec, hf] using hfail _ hf w.tock rfl
  | false =>
    refine wp_command hI ?_ ?_
    · simpa [exec, hf] using hI
    · simpa [exec, hf] using hok w.tock ⟨rfl, hd⟩

theorem wp_rename (hI : I v) (hI' : I (v.put n data)) (hw : HasTmp (.tmp n s) data v w)
    (hok : ∀ w', w'.view = v.put n data → Q (.ok ()) w')
    (hfail : ∀ k, env.fails k (.rename (.tmp n s) (.file n)) = true → ∀ w', w'.view = v →
      Q (.error .other) w') :
    Prog.wp (exec env) (fun w => I w.view) Q (rename (.tmp n s) (.file n)) w := by
  obtain ⟨rfl, i, hd⟩ := hw
  cases hf : env.fails w.tick (.rename (.tmp n s) (.file n)) with
  | true =>
    refine wp_command hI ?_ ?_
    · simpa [exec, hf] using hI
    · simpa [exec, hf] using hfail _ hf w.tock rfl
  | false =>
    have hview := view_rename_tmp w n n s ⟨i, data⟩
    refine wp_command hI ?_ ?_
    · simpa only [exec, hf, hd, Bool.false_eq_true, if_false, view_tock, hview] using hI'
    · simp only [exec, hf, hd, Bool.false_eq_true, if_false]
      exact hok _ hview

end Tmp

/-- The rename is the last step of `writeTmp`, which fails only when one of
    its commands does. -/
theorem wp_writeTmp {dst : Name} {data : Bytes} {s : UInt64} {w : World}
    {Q : Except IoError Unit → World → Prop} (hI : I v) (hI' : I (v.put dst data))
    (hw : w.view = v) (hok : ∀ w', w'.view = v.put dst data → Q (.ok ()) w')
    (hfail : ∀ k c, env.fails k c = true → WritesTo dst c → ∀ w', w'.view = v →
      Q (.error .other) w') :
    Prog.wp (exec env) (fun w => I w.view) Q (writeTmp (.tmp dst s) (.file dst) data).run w := by
  refine Prog.wp_except_bind (wp_createNew hI hw ?_ fun k hk => hfail k _ hk ⟨s, .inl rfl⟩)
  intro w₁ h₁
  refine Prog.wp_except_bind (wp_writeAll hI h₁ ?_ fun k hk =>
    hfail k _ hk ⟨s, .inr (.inl ⟨data, rfl⟩)⟩)
  intro w₂ h₂
  refine Prog.wp_except_bind (wp_syncAll hI h₂ ?_ fun k hk =>
    hfail k _ hk ⟨s, .inr (.inr (.inl rfl))⟩)
  intro w₃ h₃
  refine Prog.wp_except_bind (wp_setMode0600 hI h₃ ?_ fun k hk =>
    hfail k _ hk ⟨s, .inr (.inr (.inr (.inl rfl)))⟩)
  intro w₄ h₄
  exact wp_rename hI hI' h₄ hok fun k hk => hfail k _ hk ⟨s, .inr (.inr (.inr (.inr rfl)))⟩

/-- A write leaves the view alone until the rename, which is its last step;
    it fails only when one of its commands does. -/
theorem spec_writeAtomic0600 {dst : Name} {data : Bytes} {Q : Except IoError Unit → View → Prop}
    (hI : I v) (hI' : I (v.put dst data)) (hok : Q (.ok ()) (v.put dst data))
    (hfail : ∀ k c, env.fails k c = true → WritesTo dst c → ∀ e, Q (.error e) v) :
    Spec env I (writeAtomic0600 dst data) Q v := by
  refine spec_bind (spec_randU64 hI fun s => ?_)
  rintro w rfl
  refine Prog.wp_bind (wp_writeTmp hI hI' rfl ?_ ?_)
  · intro w' hw'
    exact spec_pure hI' hok w' hw'
  · intro k c hk hc w' hw'
    refine spec_bind (v := w.view) ?_ w' hw'
    exact spec_removeFile_of_ne (p := .tmp dst s) nofun hI
      (spec_pure hI (hfail k c hk hc .other))

theorem spec_tryIo {ε α : Type} {f : IoError → ε} {p : Io (Except IoError α)}
    {Q : Except ε α → View → Prop} (hp : Spec env I p (fun r v => Q (r.mapError f) v) v) :
    Spec env I (tryIo f p).run Q v := by
  refine spec_bind (spec_mono (fun _ h => h) ?_ hp)
  intro r v' hI hr
  exact spec_pure hI hr

variable {a : Aead}

/-- Encrypting `src` puts a file sealed under the key in place at `dst`, or
    leaves everything as it was. -/
theorem spec_encryptFile {src dst : Name} {key : Bytes} {Q : Except CryptoError Unit → View → Prop}
    (hI : I v) (hkey : key.length = 32)
    (hI' : ∀ plain blob, v.files src = some plain → Sealed a key plain blob → I (v.put dst blob))
    (hok : ∀ plain blob, v.files src = some plain → Sealed a key plain blob →
      Q (.ok ()) (v.put dst blob))
    (hnone : v.files src = none → Q (.error (.io .notFound)) v)
    (hfail : ∀ k c, env.fails k c = true → c = .read (.file src) ∨ WritesTo dst c →
      ∀ e, Q (.error (.io e)) v) :
    Spec env I (encryptFile a src dst key).run Q v := by
  refine spec_except_bind (spec_tryIo (spec_readFile hI ?_ hnone
    fun k hk => hfail k _ hk (.inl rfl) _))
  intro plain hplain
  refine spec_except_bind (spec_pure hI ?_)
  simp only [cipher, hkey, if_true]
  refine spec_except_bind (spec_bind (spec_randFill hI ?_))
  intro k
  have hsealed : Sealed a key plain
      (env.bytes k NONCE_LEN ++ a.encrypt key (env.bytes k NONCE_LEN) plain) :=
    ⟨_, env.bytes_length .., rfl⟩
  refine spec_pure hI (spec_tryIo (spec_writeAtomic0600 hI (hI' _ _ hplain hsealed)
    (hok _ _ hplain hsealed) ?_))
  exact fun k c hk hc e => hfail k c hk (.inr hc) e

/-- Decrypting puts the content in place at `dst`, or leaves everything as it
    was. -/
theorem spec_decryptFile {src dst : Name} {key blob : Bytes}
    {Q : Except CryptoError Unit → View → Prop} (hI : I v) (hsrc : v.files src = some blob)
    (hI' : ∀ plain, opens a key blob = some plain → I (v.put dst plain))
    (hok : ∀ plain, opens a key blob = some plain → Q (.ok ()) (v.put dst plain))
    (hrefuse : opens a key blob = none → Q (.error .decryptionFailed) v)
    (hfail : ∀ k c, env.fails k c = true → c = .read (.file src) ∨ WritesTo dst c →
      ∀ e, Q (.error (.io e)) v) :
    Spec env I (decryptFile a src dst key).run Q v := by
  refine spec_except_bind (spec_tryIo (spec_readFile hI ?_ (fun h => ?_)
    fun k hk => hfail k _ hk (.inl rfl) _))
  · intro blob' hblob'
    obtain rfl : blob = blob' := Option.some.inj (hsrc.symm.trans hblob')
    show Spec env I _ _ v
    by_cases hlen : blob.length ≤ NONCE_LEN + TAG_LEN
    · rw [if_pos hlen]
      exact spec_pure hI (hrefuse (if_pos hlen))
    · rw [if_neg hlen]
      refine spec_except_bind (spec_pure hI ?_)
      by_cases hkey : key.length = 32
      · have hopens : opens a key blob
            = a.decrypt key (blob.take NONCE_LEN) (blob.drop NONCE_LEN) := by
          rw [opens, if_neg hlen, if_pos hkey]
        simp only [cipher, hkey, if_true]
        cases hdec : a.decrypt key (blob.take NONCE_LEN) (blob.drop NONCE_LEN) with
        | none => exact spec_pure hI (hrefuse (hopens.trans hdec))
        | some plain =>
          exact spec_tryIo (spec_writeAtomic0600 hI (hI' _ (hopens.trans hdec))
            (hok _ (hopens.trans hdec)) fun k c hk hc e => hfail k c hk (.inr hc) e)
      · simp only [cipher, hkey, if_false]
        exact hrefuse (by rw [opens, if_neg hlen, if_neg hkey])
  · rw [hsrc] at h; cases h

end

end GnDrive.Crypto
