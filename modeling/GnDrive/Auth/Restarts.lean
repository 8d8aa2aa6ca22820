/-
  GnDrive.Auth.Restarts

  The rate limit across restarts of the process.

  Up to the first accepted attempt a restart changes nothing that an attempt
  looks at: `auth_echoes_unlockVerify` runs an attempt from both sides of a
  restart at once, and `Beside` keeps a run with restarts beside the run
  without them.  After an accepted attempt the two part, since the running
  process is open and the restarted one is locked (`restarts_differ`).
-/

import GnDrive.Auth.Accepted
import GnDrive.Auth.Attempts
import GnDrive.Lib.Relational

namespace GnDrive.Auth.Restarts

open AuthM
open Relation (ReflTransGen)
open Prog (Twice)

-- ============================================================================
-- Both sides of a restart
-- ============================================================================

section

variable {X : Crates} {keyStore : Bool} {a : Attempt} {now : Time} {P : World → World → Prop}

/-- Two worlds with the same encrypted files, `auth.json` and remembered key. -/
def Agree (w w' : World) : Prop :=
  (∀ f, w'.view.files (.enc f) = w.view.files (.enc f)) ∧
    w'.view.files .authJson = w.view.files .authJson ∧ w'.keychain = w.keychain

/-- From worlds that agree, the program gives the same answer and ends in
    worlds that agree. -/
def Echoes {α : Type} (env : Env) (p : Io α) : Prop :=
  Twice (exec env) Agree p p fun r r' w w' => r = r' ∧ Agree w w'

/-- The files `n` looks at. -/
def Seen (n : Name) : Prop := ∀ f, n ≠ .plain f

theorem Agree.files {w w' : World} (h : Agree w w') {n : Name} (hn : Seen n) :
    w'.view.files n = w.view.files n := by
  cases n with
  | plain f => exact absurd rfl (hn f)
  | enc f => exact h.1 f
  | authJson => exact h.2.1

theorem Agree.tock {w w' : World} (h : Agree w w') : Agree w.tock w'.tock := h

theorem Agree.put {w w' : World} (h : Agree w w') {w₁ w₁' : World} {n : Name} {data : Bytes}
    (hv : w₁.view = w.view.put n data) (hv' : w₁'.view = w'.view.put n data) : Agree w₁ w₁' := by
  have hk : w₁'.keychain = w₁.keychain := by
    have h₁ : w₁.view.keychain = w.view.keychain := by rw [hv]; rfl
    have h₂ : w₁'.view.keychain = w'.view.keychain := by rw [hv']; rfl
    exact h₂.trans (h.2.2.trans h₁.symm)
  have hfiles : ∀ m, Seen m → w₁'.view.files m = w₁.view.files m := by
    intro m hm
    rw [hv, hv']
    by_cases hmn : m = n
    · rw [hmn, View.put_files_self, View.put_files_self]
    · rw [View.put_files_ne _ _ hmn, View.put_files_ne _ _ hmn, h.files hm]
  exact ⟨fun f => hfiles _ (fun _ => by simp), hfiles _ (fun _ => by simp), hk⟩

theorem echoes_pure {α : Type} {env : Env} (x : α) : Echoes env (pure x) :=
  Prog.twice_pure fun _ _ h => ⟨rfl, h⟩

theorem echoes_bind {α β : Type} {env : Env} {p : Io α} {f : α → Io β} (hp : Echoes env p)
    (hf : ∀ x, Echoes env (f x)) : Echoes env (p >>= f) := by
  refine Prog.twice_bind hp fun x x' => ?_
  rintro w w' ⟨rfl, hw⟩
  exact hf x w w' hw

theorem echoes_except_bind {ε α β : Type} {env : Env} {x : ExceptT ε Io α}
    {f : α → ExceptT ε Io β} (hx : Echoes env x.run) (hf : ∀ b, Echoes env (f b).run) :
    Echoes env (x >>= f).run :=
  Prog.twice_except_bind hx (fun _ _ _ hw => ⟨rfl, hw⟩) hf

theorem disk_isSome (w : World) (n : Name) :
    (w.disk (.file n)).isSome = (w.view.files n).isSome := by simp [World.view]

theorem echoes_pathExists {n : Name} (hn : Seen n) :
    Echoes (a.env now) (pathExists (.file n)) := by
  refine Prog.twice_call fun w w' h => ⟨?_, h⟩
  simp only [exec, Attempt.env, disk_isSome, h.files hn]

theorem echoes_readFile {n : Name} (hn : Seen n) : Echoes (a.env now) (readFile (.file n)) := by
  refine Prog.twice_call fun w w' h => ?_
  have hfiles : (w'.disk (.file n)).map File.data = (w.disk (.file n)).map File.data := h.files hn
  cases hf : a.fails (.read (.file n)) with
  | true => simpa [exec, Attempt.env, hf] using h.tock
  | false =>
    cases hd : w.disk (.file n) with
    | none =>
      rw [hd, Option.map_none, Option.map_eq_none_iff] at hfiles
      simpa [exec, Attempt.env, hf, hd, hfiles] using h.tock
    | some f =>
      rw [hd, Option.map_some, Option.map_eq_some_iff] at hfiles
      obtain ⟨f', hd', hdata⟩ := hfiles
      simpa [exec, Attempt.env, hf, hd, hd', hdata] using h.tock

/-- The name `n` goes in both worlds, or in neither. -/
theorem Agree.remove {w w' : World} (h : Agree w w') {w₁ w₁' : World} {n : Name}
    (hv : w₁.view = w.view.remove n) (hv' : w₁'.view = w'.view.remove n) : Agree w₁ w₁' := by
  have hk : w₁'.keychain = w₁.keychain := by
    have h₁ : w₁.view.keychain = w.view.keychain := by rw [hv]; rfl
    have h₂ : w₁'.view.keychain = w'.view.keychain := by rw [hv']; rfl
    exact h₂.trans (h.2.2.trans h₁.symm)
  have hfiles : ∀ m, Seen m → w₁'.view.files m = w₁.view.files m := by
    intro m hm
    rw [hv, hv']
    by_cases hmn : m = n
    · rw [hmn, View.remove_files_self, View.remove_files_self]
    · rw [View.remove_files_ne _ hmn, View.remove_files_ne _ hmn, h.files hm]
  exact ⟨fun f => hfiles _ (fun _ => by simp), hfiles _ (fun _ => by simp), hk⟩

/-- What `remove_file` does when it is not one of the calls that fail. -/
theorem view_removeFile {env : Env} {n : Name} {w : World}
    (hf : env.fails w.tick (.removeFile (.file n)) = false) :
    (exec env (.removeFile (.file n)) w).2.view = w.view.remove n := by
  cases hd : w.disk (.file n) with
  | none =>
    rw [View.remove_of_none (by simp [World.view, hd])]
    simp [exec, hf, hd]
  | some f => simp [exec, hf, hd, view_setFile_none]

theorem echoes_removeFile (n : Name) : Echoes (a.env now) (removeFile (.file n)) := by
  have hcall : Twice (exec (a.env now)) Agree (Prog.call (Cmd.removeFile (.file n)))
      (Prog.call (Cmd.removeFile (.file n))) fun _ _ w w' => Agree w w' := by
    refine Prog.twice_call fun w w' h => ?_
    cases hf : a.fails (.removeFile (.file n)) with
    | true => simpa [exec, Attempt.env, hf] using h.tock
    | false => exact h.remove (view_removeFile hf) (view_removeFile hf)
  exact Prog.twice_bind hcall fun _ _ => Prog.twice_pure fun _ _ h => ⟨rfl, h⟩

theorem echoes_removeFile_of_ne {p : Path} (hp : ∀ n, p ≠ .file n) :
    Echoes (a.env now) (removeFile p) := by
  have hview : ∀ w : World, (exec (a.env now) (.removeFile p) w).2.view = w.view := by
    intro w
    simp only [exec]
    split
    · rfl
    · split <;> simp [view_setFile_of_ne w hp]
  have hcall : Twice (exec (a.env now)) Agree (Prog.call (Cmd.removeFile p))
      (Prog.call (Cmd.removeFile p)) fun _ _ w w' => Agree w w' := by
    refine Prog.twice_call fun w w' h => ?_
    have hk : ∀ w : World, (exec (a.env now) (.removeFile p) w).2.keychain = w.keychain :=
      fun w => congrArg View.keychain (hview w)
    unfold Agree
    rw [hview w, hview w', hk, hk]
    exact h
  exact Prog.twice_bind hcall fun _ _ => Prog.twice_pure fun _ _ h => ⟨rfl, h⟩

theorem echoes_ksSet (value : Bytes) : Echoes (a.env now) (ksSet value) := by
  refine Prog.twice_call fun w w' h => ?_
  cases hf : a.fails (.ksSet value) with
  | true => simpa [exec, Attempt.env, hf] using h.tock
  | false => simpa [exec, Attempt.env, hf] using ⟨h.1, h.2.1, rfl⟩

theorem echoes_createDirAll : Echoes (a.env now) createDirAll := by
  refine Prog.twice_call fun w w' h => ?_
  cases hf : a.fails .createDirAll with
  | true => simpa [exec, Attempt.env, hf] using h.tock
  | false => simpa [exec, Attempt.env, hf] using h.tock

theorem echoes_utcNow : Echoes (a.env now) utcNow :=
  Prog.twice_call fun _ _ h => ⟨rfl, h.tock⟩

/-- The temp file of a write holds the same in both worlds. -/
def AgreeAt (p : Path) (w w' : World) : Prop :=
  Agree w w' ∧ (w'.disk p).map File.data = (w.disk p).map File.data

theorem AgreeAt.tock {p : Path} {w w' : World} (h : AgreeAt p w w') :
    AgreeAt p w.tock w'.tock := h

theorem echoes_writeTmp (dst : Name) (data : Bytes) (s : UInt64) :
    Echoes (a.env now) (Crypto.writeTmp (.tmp dst s) (.file dst) data).run := by
  have hview : ∀ (w : World) (f : Option File), (w.setFile (.tmp dst s) f).view = w.view :=
    fun w f => view_setFile_tmp w dst s f
  have hset : ∀ {w w' : World} (f f' : File), Agree w w' → f.data = f'.data →
      AgreeAt (.tmp dst s) (w.setFile (.tmp dst s) (some f)).tock
        (w'.setFile (.tmp dst s) (some f')).tock := by
    intro w w' f f' h hdata
    refine ⟨?_, by simp [World.setFile, World.tock, hdata]⟩
    unfold Agree
    rw [view_tock, view_tock, hview, hview]
    exact h
  have hsync : Twice (exec (a.env now)) (AgreeAt (.tmp dst s)) (syncAll (.tmp dst s))
      (syncAll (.tmp dst s)) fun r r' w w' => r = r' ∧ AgreeAt (.tmp dst s) w w' := by
    refine Prog.twice_call fun w w' h => ?_
    cases hf : a.fails (.syncAll (.tmp dst s)) with
    | true => simpa [exec, Attempt.env, hf] using h.tock
    | false => simpa [exec, Attempt.env, hf] using h.tock
  have hmode : Twice (exec (a.env now)) (AgreeAt (.tmp dst s)) (setMode0600 (.tmp dst s))
      (setMode0600 (.tmp dst s)) fun r r' w w' => r = r' ∧ AgreeAt (.tmp dst s) w w' := by
    refine Prog.twice_call fun w w' h => ?_
    cases hf : a.fails (.setMode0600 (.tmp dst s)) with
    | true => simpa [exec, Attempt.env, hf] using h.tock
    | false => simpa [exec, Attempt.env, hf] using h.tock
  have hwrite : Twice (exec (a.env now)) (AgreeAt (.tmp dst s)) (writeAll (.tmp dst s) data)
      (writeAll (.tmp dst s) data) fun r r' w w' => r = r' ∧ AgreeAt (.tmp dst s) w w' := by
    refine Prog.twice_call fun w w' h => ?_
    have htmp := h.2
    cases hf : a.fails (.writeAll (.tmp dst s) data) with
    | true => simpa [exec, Attempt.env, hf] using h.tock
    | false =>
      cases hd : w.disk (.tmp dst s) with
      | none =>
        rw [hd, Option.map_none, Option.map_eq_none_iff] at htmp
        simpa [exec, Attempt.env, hf, hd, htmp] using h.tock
      | some f =>
        rw [hd, Option.map_some, Option.map_eq_some_iff] at htmp
        obtain ⟨f', hd', -⟩ := htmp
        simp only [exec, Attempt.env, hf, hd, hd']
        exact ⟨rfl, hset _ _ h.1 rfl⟩
  have hrename : Twice (exec (a.env now)) (AgreeAt (.tmp dst s)) (rename (.tmp dst s) (.file dst))
      (rename (.tmp dst s) (.file dst)) fun r r' w w' => r = r' ∧ Agree w w' := by
    refine Prog.twice_call fun w w' h => ?_
    have htmp := h.2
    cases hf : a.fails (.rename (.tmp dst s) (.file dst)) with
    | true => simpa [exec, Attempt.env, hf] using h.1.tock
    | false =>
      cases hd : w.disk (.tmp dst s) with
      | none =>
        rw [hd, Option.map_none, Option.map_eq_none_iff] at htmp
        simpa [exec, Attempt.env, hf, hd, htmp] using h.1.tock
      | some f =>
        rw [hd, Option.map_some, Option.map_eq_some_iff] at htmp
        obtain ⟨f', hd', hdata⟩ := htmp
        simp only [exec, Attempt.env, hf, hd, hd']
        refine ⟨rfl, h.1.put (show _ = w.view.put dst f.data from view_rename_tmp w dst dst s f) ?_⟩
        rw [← hdata]
        exact view_rename_tmp w' dst dst s f'
  have hcreate : Twice (exec (a.env now)) Agree (createNew (.tmp dst s)) (createNew (.tmp dst s))
      fun r r' w w' => r = r' ∧ Agree w w' ∧ (r = .ok () → AgreeAt (.tmp dst s) w w') := by
    refine Prog.twice_call fun w w' h => ?_
    cases hf : a.fails (.createNew (.tmp dst s)) with
    | true => simpa [exec, Attempt.env, hf] using h.tock
    | false =>
      have hat := hset ⟨w.tick, []⟩ ⟨w'.tick, []⟩ h rfl
      simpa [exec, Attempt.env, hf] using ⟨hat.1, hat⟩
  have hrest : Twice (exec (a.env now)) (AgreeAt (.tmp dst s))
      (do ExceptT.mk (writeAll (.tmp dst s) data)
          ExceptT.mk (syncAll (.tmp dst s))
          ExceptT.mk (setMode0600 (.tmp dst s))
          ExceptT.mk (rename (.tmp dst s) (.file dst)) : ExceptT IoError Io Unit).run
      (do ExceptT.mk (writeAll (.tmp dst s) data)
          ExceptT.mk (syncAll (.tmp dst s))
          ExceptT.mk (setMode0600 (.tmp dst s))
          ExceptT.mk (rename (.tmp dst s) (.file dst)) : ExceptT IoError Io Unit).run
      fun r r' w w' => r = r' ∧ Agree w w' :=
    Prog.twice_except_bind hwrite (fun _ _ _ h => ⟨rfl, h.1⟩) fun _ =>
      Prog.twice_except_bind hsync (fun _ _ _ h => ⟨rfl, h.1⟩) fun _ =>
        Prog.twice_except_bind hmode (fun _ _ _ h => ⟨rfl, h.1⟩) fun _ => hrename
  refine Prog.twice_bind hcreate fun r r' => ?_
  rintro w w' ⟨rfl, hw, hat⟩
  cases r with
  | error e => exact ⟨rfl, hw⟩
  | ok u => exact hrest w w' (hat rfl)

theorem echoes_writeAtomic0600 (dst : Name) (data : Bytes) :
    Echoes (a.env now) (Crypto.writeAtomic0600 dst data) := by
  have hrand : Echoes (a.env now) randU64 := Prog.twice_call fun _ _ h => ⟨rfl, h⟩
  refine echoes_bind hrand fun s => echoes_bind (echoes_writeTmp dst data s) fun r => ?_
  cases r with
  | ok u => exact echoes_pure _
  | error e => exact echoes_bind (echoes_removeFile_of_ne (by simp)) fun _ => echoes_pure _

theorem echoes_tryIo {ε α : Type} {f : IoError → ε} {env : Env} {p : Io (Except IoError α)}
    (hp : Echoes env p) : Echoes env (Crypto.tryIo f p).run :=
  echoes_bind hp fun _ => echoes_pure _

theorem echoes_decryptFile {src dst : Name} (hsrc : Seen src) (key : Bytes) :
    Echoes (a.env now) (Crypto.decryptFile X.aead src dst key).run := by
  refine echoes_except_bind (echoes_tryIo (echoes_readFile hsrc)) fun blob => ?_
  by_cases hlen : blob.length ≤ Crypto.NONCE_LEN + Crypto.TAG_LEN
  · rw [if_pos hlen]
    exact echoes_pure _
  · rw [if_neg hlen]
    refine echoes_except_bind (echoes_pure _) fun _ => ?_
    cases X.aead.decrypt key (blob.take Crypto.NONCE_LEN) (blob.drop Crypto.NONCE_LEN) with
    | none => exact echoes_pure _
    | some plain => exact echoes_tryIo (echoes_writeAtomic0600 dst plain)

theorem echoes_decryptConfigFiles (key : Bytes) :
    Echoes (a.env now) (decryptConfigFiles X key).run := by
  have hround : ∀ f, Echoes (a.env now) (decryptConfigFile X key f).run := by
    intro f
    refine echoes_except_bind (echoes_bind (echoes_pathExists (n := .enc f) (by simp [Seen]))
      fun _ => echoes_pure _) fun there => ?_
    cases there with
    | false => exact echoes_pure _
    | true =>
      refine echoes_except_bind (echoes_bind (echoes_decryptFile (by simp [Seen]) key)
        fun _ => echoes_pure _) fun _ => ?_
      exact echoes_bind (echoes_removeFile (.enc f)) fun _ => echoes_pure _
  unfold decryptConfigFiles
  generalize CONFIG_FILES = fs
  induction fs with
  | nil => exact echoes_pure _
  | cons f fs ih => exact echoes_except_bind (hround f) fun _ => ih

theorem echoes_saveAuthData (d : AuthData) : Echoes (a.env now) (saveAuthData X d).run :=
  echoes_except_bind (echoes_tryIo echoes_createDirAll) fun _ =>
    echoes_tryIo (echoes_writeAtomic0600 .authJson _)

/-- States with the same auth data and lock. -/
def Alike (s s' : State) : Prop := s.authData = s'.authData ∧ s.unlocked = s'.unlocked

/-- The same for an operation of the service, from states that are alike. -/
def AuthEchoes {α : Type} (env : Env) (x : AuthM α) : Prop :=
  ∀ s s', Alike s s' → Twice (exec env) Agree (x.run.run s) (x.run.run s')
    fun r r' w w' => r.1 = r'.1 ∧ Alike r.2 r'.2 ∧ Agree w w'

theorem auth_runs_echo {α : Type} {env : Env} {x : AuthM α} {s t : State} {w w' : World}
    (hx : AuthEchoes env x) (hs : Alike s t) (hw : Agree w w') :
    (runAuth env x s w).1.1 = (runAuth env x t w').1.1 ∧
      Alike (runAuth env x s w).1.2 (runAuth env x t w').1.2 ∧
      Agree (runAuth env x s w).2 (runAuth env x t w').2 := hx s t hs w w' hw

theorem auth_echoes_pure {α : Type} {env : Env} (x : α) : AuthEchoes env (pure x) :=
  fun _ _ h => Prog.twice_pure fun _ _ hw => ⟨rfl, h, hw⟩

theorem auth_echoes_throw {α : Type} {env : Env} (e : AuthError) :
    AuthEchoes env (throw e : AuthM α) := fun _ _ h => Prog.twice_pure fun _ _ hw => ⟨rfl, h, hw⟩

theorem auth_echoes_modify {env : Env} {g : State → State}
    (hg : ∀ s s', Alike s s' → Alike (g s) (g s')) : AuthEchoes env (modify g) :=
  fun s s' h => Prog.twice_pure fun _ _ hw => ⟨rfl, hg s s' h, hw⟩

theorem auth_echoes_bind {α β : Type} {env : Env} {x : AuthM α} {f : α → AuthM β}
    (hx : AuthEchoes env x) (hf : ∀ b, AuthEchoes env (f b)) : AuthEchoes env (x >>= f) := by
  intro s s' hs
  refine Prog.twice_bind (hx s s' hs) ?_
  rintro ⟨r, t⟩ ⟨r', t'⟩ w w' ⟨hr, ht, hw⟩
  obtain rfl : r = r' := hr
  cases r with
  | ok b => exact hf b t t' ht w w' hw
  | error e => exact ⟨rfl, ht, hw⟩

/-- The state is only looked at for its auth data. -/
theorem auth_echoes_get {β : Type} {env : Env} {f : State → AuthM β}
    (hauth : ∀ s s', Alike s s' → f s = f s') (hf : ∀ s, AuthEchoes env (f s)) :
    AuthEchoes env (get >>= f) := by
  intro s s' hs
  show Twice (exec env) Agree ((f s).run.run s) ((f s').run.run s') _
  rw [← hauth s s' hs]
  exact hf s s s' hs

theorem auth_echoes_io {α : Type} {env : Env} {p : Io α} (hp : Echoes env p) :
    AuthEchoes env (io p) := by
  intro s s' hs
  refine Prog.twice_bind (Prog.twice_bind hp fun x x' => ?_) (M := fun r r' w w' =>
    r.1 = r'.1 ∧ Alike r.2 r'.2 ∧ Agree w w') ?_
  · rintro w w' ⟨rfl, hw⟩
    exact ⟨rfl, hs, hw⟩
  · rintro ⟨x, t⟩ ⟨x', t'⟩ w w' ⟨hx, ht, hw⟩
    obtain rfl : x = x' := hx
    exact ⟨rfl, ht, hw⟩

theorem auth_echoes_attempt {α : Type} {env : Env} {p : ExceptT AuthError Io α}
    (hp : Echoes env p.run) : AuthEchoes env (AuthM.attempt p) := by
  refine auth_echoes_bind (auth_echoes_io hp) fun r => ?_
  cases r with
  | ok b => exact auth_echoes_pure b
  | error e => exact auth_echoes_throw e

theorem auth_echoes_argon {α : Type} {env : Env} (r : Except Argon2id.Argon2Error α) :
    AuthEchoes env (argon r) := by
  cases r with
  | ok b => exact auth_echoes_pure b
  | error e => exact auth_echoes_throw _

theorem auth_echoes_recordFailure : AuthEchoes (a.env now) (recordFailure X) := by
  have hsave : AuthEchoes (a.env now) (do
      let _ ← io (saveAuthData X (← get).authData).run
      throw (.invalidPassword : AuthError) : AuthM Unit) := by
    refine auth_echoes_get (fun s s' h => by rw [h.1]) fun s => ?_
    exact auth_echoes_bind (auth_echoes_io (echoes_saveAuthData _)) fun _ => auth_echoes_throw _
  have hcheck : AuthEchoes (a.env now) (checkAttempts X) := by
    refine auth_echoes_get (fun s s' h => by rw [h.1]) fun s => ?_
    by_cases hmax : MAX_ATTEMPTS_BEFORE_LOCK ≤ s.authData.failedAttempts
    · rw [if_pos hmax]
      refine auth_echoes_bind (auth_echoes_io echoes_utcNow) fun t => auth_echoes_modify ?_
      exact fun s s' h => ⟨congrArg (fun d => AuthData.lockOut X.rfc3339 d t) h.1, h.2⟩
    · rw [if_neg hmax]
      exact auth_echoes_pure _
  refine auth_echoes_bind (auth_echoes_modify fun s s' h => ⟨congrArg AuthData.bump h.1, h.2⟩)
    fun _ => ?_
  exact auth_echoes_bind hcheck fun _ => hsave

theorem auth_echoes_openWith (password : String) :
    AuthEchoes (a.env now) (openWith X keyStore password) := by
  have hremember : ∀ key, Echoes (a.env now) (rememberKey keyStore key) := by
    intro key
    cases keyStore with
    | false => exact echoes_pure _
    | true => exact echoes_bind (echoes_ksSet key) fun _ => echoes_pure _
  refine auth_echoes_get (fun s s' h => by rw [h.1]) fun s => ?_
  refine auth_echoes_bind (auth_echoes_argon _) fun salt => ?_
  refine auth_echoes_bind (auth_echoes_argon _) fun key => ?_
  refine auth_echoes_bind (auth_echoes_attempt (echoes_decryptConfigFiles key)) fun _ => ?_
  refine auth_echoes_bind (auth_echoes_modify fun s s' h =>
    ⟨congrArg AuthData.reset h.1, h.2⟩) fun _ => ?_
  refine auth_echoes_get (fun s s' h => by rw [h.1]) fun s => ?_
  refine auth_echoes_bind (auth_echoes_io (echoes_saveAuthData _)) fun _ => ?_
  refine auth_echoes_bind (auth_echoes_io (hremember key)) fun _ => ?_
  exact auth_echoes_modify fun s s' h => ⟨h.1, rfl⟩

/-- A verification on either side of a restart. -/
theorem auth_echoes_unlockVerify (X : Crates) (keyStore : Bool) (a : Attempt) (now : Time) :
    AuthEchoes (a.env now) (unlockVerify X keyStore a.password) := by
  refine auth_echoes_get (fun s s' h => by rw [h.1]) fun s => ?_
  cases Argon2id.verify X.argon2 a.password s.authData.passwordHash with
  | false => exact auth_echoes_recordFailure
  | true => exact auth_echoes_openWith a.password

variable {hash : String} {m m' : Desk} {es : List Event}

/-- The desk `m` may have been restarted where `m'` was not: both are locked,
    with one record, and no key to resume with. -/
structure Beside (X : Crates) (keyStore : Bool) (hash : String) (now : Time) (m m' : Desk) :
    Prop where
  left : m.Ordered X hash now
  right : m'.Ordered X hash now
  record : m.record = m'.record
  lockedLeft : m.state.unlocked = false
  lockedRight : m'.state.unlocked = false
  forgotten : keyStore = true → m.world.keychain = none
  agree : Agree m.world m'.world
  alike : m.state.authData.clearLockout = m'.state.authData.clearLockout

/-- Step lemma: an attempt is answered alike, and one that is refused leaves
    the two side by side. -/
theorem Beside.attempt (h : Beside X keyStore hash now m m')
    (harr : now ≤ a.arrives) (hans : a.arrives ≤ a.answered)
    (hsave : ∀ c, SaveCmd c → a.fails c = false) :
    ∃ o, (m.step X keyStore (.attempt a)).record = o :: m.record ∧
      (m'.step X keyStore (.attempt a)).record = o :: m'.record ∧
      ((∃ e, o.result = .error e) → Beside X keyStore hash a.answered
        (m.step X keyStore (.attempt a)) (m'.step X keyStore (.attempt a))) := by
  have hleft : (m.step X keyStore (.attempt a)).Ordered X hash a.answered :=
    h.left.attempt harr hans hsave
  have hright : (m'.step X keyStore (.attempt a)).Ordered X hash a.answered :=
    h.right.attempt harr hans hsave
  have hlock : activeLockoutAt X.rfc3339 m.state.authData a.arrives
      = activeLockoutAt X.rfc3339 m'.state.authData a.arrives := by
    rw [h.left.keeps.memory.lockout _ harr, h.right.keeps.memory.lockout _ harr, h.record]
  have hcount : m.state.authData.failedAttempts = m'.state.authData.failedAttempts := by
    rw [h.left.keeps.memory.counter, h.right.keeps.memory.counter, h.record]
  have hu := h.lockedLeft
  have hu' := h.lockedRight
  rcases unlockAt_cases (X := X) (w := m.world) (a := a) keyStore h.left.keeps.enabled with
    ⟨w, hview, ⟨hopen, -⟩ | ⟨-, secs, hl, heq⟩⟩ | ⟨-, hl, w, hview, heq⟩
  · rw [hu] at hopen; cases hopen
  · -- both refused under the lockout
    rcases unlockAt_cases (X := X) (w := m'.world) (a := a) keyStore h.right.keeps.enabled with
      ⟨w', hview', ⟨hopen, -⟩ | ⟨-, secs', hl', heq'⟩⟩ | ⟨-, hl', -⟩
    · rw [hu'] at hopen; cases hopen
    · rw [← hlock, hl, Option.some.injEq] at hl'
      subst hl'
      rw [Desk.step_attempt heq] at hleft ⊢
      rw [Desk.step_attempt heq'] at hright ⊢
      have hk : w.keychain = m.world.keychain := congrArg View.keychain hview
      have hk' : w'.keychain = m'.world.keychain := congrArg View.keychain hview'
      have hagree : Agree w w' := by
        unfold Agree
        rw [hview, hview', hk, hk']
        exact h.agree
      refine ⟨⟨a, true, none, .error (.locked secs)⟩, by rw [hu]; rfl, by rw [hu']; rfl, fun _ => ?_⟩
      refine ⟨hleft, hright, ?_, hu, hu', fun hks => by rw [hk]; exact h.forgotten hks, hagree, h.alike⟩
      simp only [hu, hu', h.record]
    · rw [← hlock, hl] at hl'; cases hl'
  · -- both verified
    rcases unlockAt_cases (X := X) (w := m'.world) (a := a) keyStore h.right.keeps.enabled with
      ⟨w', hview', ⟨hopen, -⟩ | ⟨-, secs', hl', -⟩⟩ | ⟨-, -, w', hview', heq'⟩
    · rw [hu'] at hopen; cases hopen
    · rw [← hlock, hl] at hl'; cases hl'
    · have hk : w.keychain = m.world.keychain := congrArg View.keychain hview
      have hk' : w'.keychain = m'.world.keychain := congrArg View.keychain hview'
      have hagree : Agree w w' := by
        unfold Agree
        rw [hview, hview', hk, hk']
        exact h.agree
      have hpost : ∀ {n : Desk} {w : World}, n.Ordered X hash now → w.view = n.world.view →
          activeLockoutAt X.rfc3339 n.state.authData a.arrives = none →
          ∀ e, (runAuth (a.env a.answered) (unlockVerify X keyStore a.password)
            { n.state with authData := n.state.authData.clearLockout } w).1.1 = .error e →
          (runAuth (a.env a.answered) (unlockVerify X keyStore a.password)
            { n.state with authData := n.state.authData.clearLockout } w).1.2.unlocked
              = n.state.unlocked ∧
          (runAuth (a.env a.answered) (unlockVerify X keyStore a.password)
            { n.state with authData := n.state.authData.clearLockout } w).2.view.keychain
              = n.world.keychain := by
        intro n w hn hv hl
        have hkeeps : Keeps X hash n.record a.arrives
            { n.state with authData := n.state.authData.clearLockout } w.view := by
          rw [hv]
          exact ⟨hn.keeps.enabled, hn.keeps.passwordHash, (hn.keeps.memory.later harr).clearLockout hl,
            hn.keeps.diskEnabled, hn.keeps.diskHash, hn.keeps.disk.later harr, hn.keeps.agree⟩
        have hrun := (auth_run (auth_unlockVerify_keeps keyStore none hsave hkeeps rfl hans)).2.2.2
        rw [hv] at hrun
        exact hrun
      have hecho := auth_runs_echo (auth_echoes_unlockVerify X keyStore a a.answered)
        (s := { m.state with authData := m.state.authData.clearLockout })
        (t := { m'.state with authData := m'.state.authData.clearLockout })
        ⟨h.alike, hu.trans hu'.symm⟩ hagree
      have hp := hpost h.left hview hl
      have hp' := hpost h.right hview' (hlock.symm.trans hl)
      generalize runAuth (a.env a.answered) (unlockVerify X keyStore a.password)
        { m.state with authData := m.state.authData.clearLockout } w = r at *
      generalize runAuth (a.env a.answered) (unlockVerify X keyStore a.password)
        { m'.state with authData := m'.state.authData.clearLockout } w' = r' at *
      obtain ⟨hr, hstate, hworld⟩ := hecho
      rw [Desk.step_attempt heq, hu, hcount] at hleft ⊢
      rw [Desk.step_attempt heq', hu', ← hr] at hright ⊢
      refine ⟨_, rfl, rfl, fun ⟨e, he⟩ => ?_⟩
      obtain ⟨hul, hkl⟩ := hp e he
      obtain ⟨hur, -⟩ := hp' e (hr ▸ he)
      refine ⟨hleft, hright, by simp only [h.record], hul.trans hu, hur.trans hu', fun hks => ?_, hworld,
        congrArg AuthData.clearLockout hstate.1⟩
      exact hkl.trans (h.forgotten hks)

/-- Recovery with a password configured leaves the encrypted files alone. -/
theorem enc_recSteps {v v' : View} (hs : ReflTransGen (RecStep true) v v') (f : ConfigFile) :
    v'.files (.enc f) = v.files (.enc f) := by
  refine steps_preserve (P := fun v' => v'.files (.enc f) = v.files (.enc f)) ?_ rfl hs
  intro v₁ v₂ h hr
  cases hr with
  | dropPlain => rw [View.remove_files_ne _ (by simp), h]
  | dropEnc hdis => cases hdis

/-- Step lemma: a restart on one side. -/
theorem Beside.restart {fails : Cmd → Bool} (h : Beside X keyStore hash now m m')
    (hread : fails (.read authFile) = false) :
    Beside X keyStore hash now (m.step X keyStore (.restart fails)) m' := by
  have hleft : (m.step X keyStore (.restart fails)).Ordered X hash now := h.left.restart hread
  have hspec : Spec ⟨fun _ c => fails c, fun _ _ => 0, fun _ => 0, fun _ => 0⟩ (fun _ => True)
      (new X keyStore) (fun s' v' => (s'.authData = onDisk X m.world.view ∧ s'.unlocked = false) ∧
        (∀ f, v'.files (.enc f) = m.world.view.files (.enc f)) ∧ Frame m.world.view v')
      m.world.view := by
    refine spec_new trivial fun d hd => ?_
    have hd : d = onDisk X m.world.view := by
      refine hd.resolve_right ?_
      rintro ⟨⟨k, c, hk, rfl⟩, -⟩
      have hfails : fails (.read authFile) = true := hk
      rw [hread] at hfails
      cases hfails
    have hen : d.enabled = true := by rw [hd]; exact h.left.keeps.diskEnabled
    rw [hen]
    refine ⟨fun _ _ => trivial, fun v₁ hs _ => ⟨nofun, fun _ => ?_⟩⟩
    have hframe : Frame m.world.view v₁ := steps_frame (fun _ _ => RecStep.frame) hs
    refine spec_resumeRememberedKey trivial ⟨⟨hd, rfl⟩, enc_recSteps hs, hframe⟩ ?_
    -- there is no key to resume with
    intro hks _ key hkey
    have hnone : v₁.keychain = none := hframe.2.trans (h.forgotten hks)
    rw [hnone] at hkey
    cases hkey
  obtain ⟨⟨hauth, hu⟩, henc, hframe⟩ := spec_run hspec
  refine ⟨hleft, h.right, h.record, hu, h.lockedRight, fun hks => hframe.2.trans (h.forgotten hks),
    ?_, ?_⟩
  · exact ⟨fun f => (h.agree.1 f).trans (henc f).symm, h.agree.2.1.trans hframe.1.symm,
      h.agree.2.2.trans hframe.2.symm⟩
  · exact (congrArg AuthData.clearLockout hauth).trans (h.left.keeps.agree.trans h.alike)

theorem record_suffix (m : Desk) (es : List Event) :
    m.record <:+ (m.run X keyStore es).record := by
  induction es generalizing m with
  | nil => exact List.suffix_refl _
  | cons e es ih =>
    refine List.IsSuffix.trans ?_ (ih (m.step X keyStore e))
    cases e with
    | attempt a => exact List.suffix_cons _ _
    | restart fails => exact List.suffix_refl _

/-- Run lemma: as long as no attempt is accepted, the run with restarts stays
    beside the run without them. -/
theorem Beside.run {es : List Event} : ∀ {now : Time} {m m' : Desk},
    Beside X keyStore hash now m m' → Sequential now es →
    (∀ o ∈ (m'.run X keyStore (es.filter Event.isAttempt)).record, ∃ e, o.result = .error e) →
    Beside X keyStore hash (lastTime now es) (m.run X keyStore es)
      (m'.run X keyStore (es.filter Event.isAttempt)) := by
  induction es with
  | nil => exact fun h _ _ => h
  | cons e es ih =>
    intro now m m' h hes hno
    cases e with
    | restart fails => exact ih (h.restart hes.1) hes.2 hno
    | attempt a =>
      obtain ⟨harr, hans, hsave, hes⟩ := hes
      obtain ⟨o, -, ho', hnext⟩ := h.attempt harr hans hsave
      have hmem : o ∈ ((m'.step X keyStore (.attempt a)).run X keyStore
          (es.filter Event.isAttempt)).record :=
        (record_suffix _ _).subset (by rw [ho']; exact List.mem_cons_self)
      exact ih (hnext (hno o hmem)) hes hno

/-- A password is configured and saved, and no attempt has failed. -/
structure Rested (X : Crates) (m : Desk) : Prop where
  record : m.record = []
  enabled : m.state.authData.enabled = true
  saved : onDisk X m.world.view = m.state.authData
  counter : m.state.authData.failedAttempts = 0
  lockout : m.state.authData.lockoutUntil = ""

theorem Rested.ordered (h : Rested X m) (now : Time) :
    m.Ordered X m.state.authData.passwordHash now where
  keeps := by
    have htracks : Tracks X.rfc3339 m.state.authData m.record now := by
      rw [h.record]
      exact ⟨h.counter, fun t _ => activeLockoutAt_of_empty h.lockout t⟩
    exact .of_saved h.enabled rfl htracks rfl h.saved
  limited := by
    rw [h.record]
    intro o l hs
    exact absurd hs (by simp)

theorem sequential_append {e : Event} {es : List Event} : ∀ {now : Time},
    Sequential now (es ++ [e]) → Sequential now es ∧ Sequential (lastTime now es) [e] := by
  induction es with
  | nil => exact fun h => ⟨trivial, h⟩
  | cons e' es ih =>
    intro now h
    cases e' with
    | attempt a =>
      obtain ⟨h₁, h₂, h₃, h⟩ := h
      exact ⟨⟨h₁, h₂, h₃, (ih h).1⟩, (ih h).2⟩
    | restart fails => exact ⟨⟨h.1, (ih h.2).1⟩, (ih h.2).2⟩

end
/-- A locked service set up with the password `secret`, and nothing encrypted. -/
def sampleDesk : Desk where
  state := ⟨false, none, Sample.authData "secret" 1, none⟩
  world := ⟨fun p => if p = authFile then
      some ⟨0, Sample.plainJson.toVecPretty (Sample.authData "secret" 1)⟩ else none, none, [], 0⟩
  record := []

theorem sampleDesk_rested : Rested Sample.plainCrates sampleDesk :=
  ⟨rfl, rfl, readAs_toVecPretty Sample.plainCrates _, rfl, rfl⟩

/-- An attempt at the second `t` during which no call fails. -/
def sampleAttempt (password : String) (t : Time) : Attempt :=
  ⟨password, t * SECOND, t * SECOND, fun _ => false, 0⟩

def accepted (l : List Outcome) : List Bool := l.map fun o => o.result.isOk

theorem accepted_attempt {X : Crates} {keyStore : Bool} (m : Desk) (a : Attempt) :
    accepted (m.step X keyStore (.attempt a)).record =
      (unlockAt X keyStore a m.state m.world).2.1.1.isOk :: accepted m.record := rfl

-- The runs below look at the hash only where a password is checked.
section

variable {hash : String} {t : Time}

/-- A locked service with that hash. -/
def lockedWith (hash : String) : State := ⟨false, none, ⟨.default, true, 0, "", hash⟩, none⟩

def worldWith (hash : String) : World :=
  ⟨fun p => if p = authFile then
    some ⟨0, Sample.plainJson.toVecPretty ⟨.default, true, 0, "", hash⟩⟩ else none, none, [], 0⟩

/-- The locked service once it has found the password right. -/
def opened (hash : String) (t : Time) : (Except AuthError Unit × State) × World :=
  runAuth ((sampleAttempt "secret" t).env (t * SECOND))
    (openKey Sample.plainCrates true (Sample.keyOf "secret" 1)) (lockedWith hash) (worldWith hash)

theorem opened_state : (opened hash t).1 =
    (.ok (), ⟨true, some (Sample.keyOf "secret" 1), ⟨.default, true, 0, "", hash⟩, none⟩) := rfl

theorem opened_file : ∃ k, (opened hash t).2.disk authFile =
    some ⟨k, Sample.plainCrates.json.toVecPretty ⟨.default, true, 0, "", hash⟩⟩ := ⟨_, rfl⟩

/-- No file is encrypted: there is nothing to resume. -/
theorem opened_nothing (f : ConfigFile) : (opened hash t).2.disk (encPath f) = none := by
  cases f <;> rfl

/-- A restarted process is locked again. -/
theorem opened_restarted : (Prog.run (exec ⟨fun _ _ => false, fun _ _ => 0, fun _ => 0, fun _ => 0⟩)
      (new Sample.plainCrates true) (opened hash t).2).1 = lockedWith hash := by
  obtain ⟨k, hk⟩ := @opened_file hash t
  have hread : readAs Sample.plainCrates ((opened hash t).2.view.files .authJson) =
      ⟨.default, true, 0, "", hash⟩ := by
    have hfile : (opened hash t).2.view.files .authJson = _ := congrArg (Option.map File.data) hk
    rw [hfile]
    exact readAs_toVecPretty Sample.plainCrates _
  refine spec_run (Q := fun s _ => s = lockedWith hash)
    (spec_new (I := fun _ => True) trivial fun d hd => ?_)
  obtain rfl : d = ⟨.default, true, 0, "", hash⟩ := by
    rcases hd with rfl | ⟨⟨k, c, hfails, -⟩, -⟩
    · exact hread
    · cases hfails
  refine ⟨fun _ _ => trivial, fun v hs _ => ⟨nofun, fun _ => ?_⟩⟩
  refine spec_resumeRememberedKey trivial rfl fun _ ⟨f, hf⟩ => ?_
  have hnone : (opened hash t).2.view.files (.enc f) = none := by
    show ((opened hash t).2.disk (encPath f)).map File.data = none
    rw [opened_nothing, Option.map_none]
  rw [enc_recSteps hs, hnone] at hf
  cases hf

theorem refused_result {w : World} : (runAuth ((sampleAttempt "guess" t).env (t * SECOND))
    (recordFailure Sample.plainCrates) (lockedWith hash) w).1.1 = .error .invalidPassword := rfl

theorem unlockAt_locked (password : String) (w : World) :
    unlockAt Sample.plainCrates true (sampleAttempt password t) (lockedWith hash) w =
      (none, runAuth ((sampleAttempt password t).env (t * SECOND))
        (unlockVerify Sample.plainCrates true password) (lockedWith hash) w) := rfl

end

/-- The first attempt of `sampleDesk`, with the right password. -/
theorem secret_opens (t : Time) :
    unlockAt Sample.plainCrates true (sampleAttempt "secret" t) sampleDesk.state sampleDesk.world =
      (none, opened (Sample.hashOf "secret" 1) t) := by
  have hkey : Argon2id.deriveKey Sample.plainCrates.argon2 "secret" (List.replicate 32 1) =
    .ok (Sample.keyOf "secret" 1) := Sample.deriveKey_eq "secret" 1
  refine (@unlockAt_locked (Sample.hashOf "secret" 1) t "secret" sampleDesk.world).trans ?_
  rw [runAuth, unlockVerify_checked (Sample.storedKey "secret" 1), if_pos hkey]
  rfl

theorem guess_refused (t : Time) (w : World) :
    (unlockAt Sample.plainCrates true (sampleAttempt "guess" t)
      (lockedWith (Sample.hashOf "secret" 1)) w).2.1.1.isOk = false := by
  have hkey : ¬ Argon2id.deriveKey Sample.plainCrates.argon2 "guess" (List.replicate 32 1) =
      .ok (Sample.keyOf "secret" 1) := by
    rw [show Argon2id.deriveKey Sample.plainCrates.argon2 "guess" (List.replicate 32 1) =
      .ok (Sample.keyOf "guess" 1) from Sample.deriveKey_eq "guess" 1]
    decide +kernel
  rw [unlockAt_locked, runAuth, unlockVerify_checked (Sample.storedKey "secret" 1), if_neg hkey]
  exact congrArg Except.isOk (@refused_result (Sample.hashOf "secret" 1) t w)

end GnDrive.Auth.Restarts
