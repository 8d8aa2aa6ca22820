/-
  GnDrive.Rpc.Remotes

  `remotes.add`, `remotes.oauth.complete` and `remotes.delete`
  (`rpc/handlers_remotes.rs`) on rclone's config, any number of them at a time.

  A creation looks whether the name is there, creates the remote, verifies it
  and, if something fails, deletes the name again; each of these is a run of
  rclone, which takes effect at one moment; a `config delete` that fails has
  deleted nothing.  Nothing keeps other requests off the name in between.

  What is written for a remote stands for the request that wrote it.  `version`
  counts the changes of a name, and `seen` is what it was when a request last
  looked at it or changed it: both are there to say when a creation was disturbed.
-/

import GnDrive.Lib.System
import GnDrive.Rpc.OAuth
import GnDrive.Rpc.Params
import GnDrive.Rpc.Redaction

namespace GnDrive.Rpc.Remotes

open Redact (sanitize stderrField)
open Text (contains toLowercase)

-- ============================================================================
-- Answers of rclone
-- ============================================================================

inductive RcloneError where
  | binaryNotFound (path : Text)
  | runFailed (command stderr : Text)
  | cancelled

namespace RcloneError

def display : RcloneError → Text
  | binaryNotFound path => "rclone: binary not found: ".toList ++ path
  | runFailed command stderr => "rclone ".toList ++ command ++ ": ".toList ++ stderr
  | cancelled => "rclone: cancelled".toList

/-- `run_failed_stderr` -/
def stderr : RcloneError → Text
  | runFailed _ stderr => stderr
  | e => e.display

/-- `from_rclone` -/
def toRpc : RcloneError → RpcError
  | binaryNotFound path => .new "rclone_missing" ("rclone binary not found: ".toList ++ path)
  | runFailed command stderr =>
      .new "rclone_failed" ("rclone ".toList ++ sanitize command ++ ": ".toList ++ stderrField stderr)
  | cancelled => .new "task_cancelled" "rclone was cancelled".toList

end RcloneError

/-- The member `Option` of a question: absent or null, an object with its name, or
    something else. -/
inductive QuestionOption where
  | absent
  | object (name : Text)
  | other
deriving DecidableEq, Repr

/-- What rclone wants to know before it can create the remote. -/
structure Question where
  state : Text
  option : QuestionOption

/-- `question` is what `question` finds in `stdout`. -/
structure ProcessOutput where
  question : Option Question
  stdout : Text
  stderr : Text
  exitCode : Int

-- ============================================================================
-- Requests
-- ============================================================================

/-- `config` has the text of each value. -/
inductive Request where
  | add (name : Text)
  | complete (sessionId name : Text) (config : List (Text × Text))
  | delete (name : Text)

namespace Request

def name : Request → Text
  | add name | complete _ name _ | delete name => name

def creates : Request → Bool
  | add _ | complete _ _ _ => true
  | delete _ => false

end Request

/-- Where a request is. -/
inductive Pc where
  /-- The name was looked up. -/
  | listed
  /-- The authorization is there. -/
  | authorized (token : Text)
  | asking (token : Text) (steps : Nat) (state answer : Text)
  | verifying
  /-- About to delete the name and report the error. -/
  | rollingBack (e : RpcError)
  | done (result : Except RpcError Unit)

def remoteExists (name : Text) : RpcError :=
  .new "remote_exists" ("remote ".toList ++ name ++ " already exists".toList)

def remoteNotFound (name : Text) : RpcError :=
  .new "remote_not_found" ("remote ".toList ++ name ++ " not found".toList)

/-- `remotes_add` after `config create`. -/
def addCreated (name : Text) (out : ProcessOutput) : Pc :=
  let exit : Pc :=
    if out.exitCode ≠ 0 then
      .rollingBack (.new "rclone_failed" ("rclone config create failed: ".toList ++
        stderrField (if out.stderr = [] then out.stdout else out.stderr)))
    else .verifying
  match out.question with
  | some q =>
      if q.option = .absent then exit
      else if contains "oauth".toList (toLowercase q.state) then
        .rollingBack (.new "oauth_required"
          ("remote ".toList ++ name ++ " requires OAuth authorization".toList))
      else
        .rollingBack ⟨"invalid_params",
          "remote ".toList ++ name ++ " requires additional options".toList, some "config".toList⟩
  | none => exit

/-- The answer of `oauth_create_loop` to an option. -/
def answer (config : List (Text × Text)) (token state option : Text) : Option Text :=
  if option = "config_token".toList ∨
      (contains "oauth-authorize".toList (toLowercase state) ∧ contains "token".toList option) then
    some token
  else if option = "config_shared_client_id".toList then some "true".toList
  else if option = "config_is_local".toList then some "false".toList
  else config.lookup option

/-- `oauth_create_loop` at the top of its loop. -/
def completeCreated (config : List (Text × Text)) (token : Text) (steps : Nat)
    (out : ProcessOutput) : Pc :=
  let failed (message : Text) : Pc := .rollingBack (.new "oauth_failed" message)
  match out.question with
  | none =>
      if out.exitCode ≠ 0 then
        failed ("remote creation failed: ".toList ++ stderrField out.stderr)
      else .verifying
  | some q =>
      match q.option with
      | .object option =>
          if 8 < steps + 1 then failed "too many configuration steps".toList
          else
            match answer config token q.state option with
            | some a => .asking token (steps + 1) q.state a
            | none => failed ("unexpected configuration question: ".toList ++ option)
      | _ =>
          if q.state = [] ∧ out.exitCode = 0 then .verifying
          else failed ("remote creation stopped at state ".toList ++ q.state)

/-- A session as `oauth_complete` finds it. -/
structure Snapshot where
  status : OAuth.Status
  error : Text
  token : Text

/-- `oauth_complete` after it has waited for the session. -/
def sessionPc (sessionId : Text) (snap : Snapshot) : Pc :=
  let failed (code : String) (message : Text) : Pc := .done (.error (.new code message))
  match snap.status with
  | .cancelled =>
      failed "oauth_cancelled" ("OAuth session ".toList ++ sessionId ++ " was cancelled".toList)
  | .failed =>
      failed "oauth_failed"
        (if snap.error = [] then "OAuth authorization failed".toList else snap.error)
  | .authorized =>
      if snap.token = [] then
        failed "oauth_failed" ("OAuth session ".toList ++ sessionId ++ " has no token".toList)
      else .authorized snap.token
  | .waiting => failed "oauth_cancelled" "OAuth authorization has not completed yet".toList

/-- A creation whose verification has failed. -/
def unverified (req : Request) (e : RcloneError) : RpcError :=
  .new (match req with
      | .complete _ _ _ => "test_failed"
      | _ => "auth_failed")
    ("remote ".toList ++ req.name ++ " could not be verified: ".toList ++ stderrField e.stderr)

-- ============================================================================
-- The config and the requests on it
-- ============================================================================

/-- `config` has for each remote the request that wrote it, if it was one.
    `touched` lists who has overwritten or deleted the remote of whom, and `met r q`
    says that `r` was on its way when `q` came. -/
structure RemoteConfig where
  config : Text → Option (Option Nat)
  version : Text → Nat
  request : Nat → Option (Request × Pc)
  seen : Nat → Nat
  touched : List (Nat × Nat)
  met : Nat → Nat → Bool

/-- In `create` and `proceed`, `wrote` says that the run has written the remote, and in
    `rollback`, `deleted` that it has deleted it. -/
inductive Act where
  | check (r : Nat) (req : Request) (session : Bool) (listed : Except RcloneError Unit)
  | session (r : Nat) (snap : Snapshot)
  | create (r : Nat) (res : Except RcloneError ProcessOutput) (wrote : Bool)
  | proceed (r : Nat) (res : Except RcloneError ProcessOutput) (wrote : Bool)
  | verify (r : Nat) (res : Except RcloneError Unit)
  | rollback (r : Nat) (deleted : Bool)
  | delete (r : Nat) (res : Except RcloneError Unit)

namespace RemoteConfig

def initial (config : Text → Option (Option Nat)) : RemoteConfig where
  config := config
  version := fun _ => 0
  request := fun _ => none
  seen := fun _ => 0
  touched := []
  met := fun _ _ => false

def setPc (s : RemoteConfig) (r : Nat) (req : Request) (pc : Pc) : RemoteConfig :=
  { s with request := Function.update s.request r (some (req, pc)) }

/-- The remotes of other requests that a change of the name takes away. -/
def taken (s : RemoteConfig) (r : Nat) (name : Text) : List (Nat × Nat) :=
  match s.config name with
  | some (some q) => [(r, q)]
  | _ => []

def change (s : RemoteConfig) (r : Nat) (name : Text) (remote : Option (Option Nat)) : RemoteConfig :=
  { s with
    config := Function.update s.config name remote
    version := Function.update s.version name (s.version name + 1)
    seen := Function.update s.seen r (s.version name + 1)
    touched := s.taken r name ++ s.touched }

def write (s : RemoteConfig) (r : Nat) (name : Text) (wrote : Bool) : RemoteConfig :=
  if wrote then s.change r name (some (some r)) else s

/-- To delete a remote that is not there changes nothing. -/
def erase (s : RemoteConfig) (r : Nat) (name : Text) (deleted : Bool) : RemoteConfig :=
  if deleted && (s.config name).isSome then s.change r name none else s

/-- A creation of the name that is not done. -/
def onItsWay (s : RemoteConfig) (name : Text) (r : Nat) : Bool :=
  match s.request r with
  | some (_, .done _) => false
  | some (req, _) => req.creates && req.name = name
  | none => false

/-- A creation wants the name to be free. -/
def freePc (s : RemoteConfig) (name : Text) : Except RcloneError Unit → Pc
  | .error e => .done (.error e.toRpc)
  | .ok () => if (s.config name).isSome then .done (.error (remoteExists name)) else .listed

/-- What a request makes of the list of remotes. -/
def checkPc (s : RemoteConfig) (req : Request) (session : Bool)
    (listed : Except RcloneError Unit) : Pc :=
  match req with
  | .add name => s.freePc name listed
  | .complete sessionId name _ =>
      if session then s.freePc name listed
      else
        .done (.error (.new "oauth_session_not_found"
          ("OAuth session ".toList ++ sessionId ++ " not found".toList)))
  | .delete name =>
      match listed with
      | .error e => .done (.error e.toRpc)
      | .ok () => if (s.config name).isSome then .listed else .done (.error (remoteNotFound name))

/-- A run of `config create` that ends well has written the remote. -/
def ends (res : Except RcloneError ProcessOutput) (wrote : Bool) : Bool :=
  match res with
  | .ok out => out.exitCode ≠ 0 || wrote
  | .error _ => true

/-- Where `remotes_add` goes on after its run of `config create`. -/
def addPc (name : Text) : Except RcloneError ProcessOutput → Pc
  | .ok out => addCreated name out
  | .error e => .done (.error e.toRpc)

/-- Where `oauth_create_loop` goes on after its first run of `config create`. -/
def completePc (config : List (Text × Text)) (token : Text) :
    Except RcloneError ProcessOutput → Pc
  | .ok out => completeCreated config token 0 out
  | .error e => .rollingBack (.new "oauth_failed" (sanitize e.display))

/-- And after a further one. -/
def proceedPc (config : List (Text × Text)) (token : Text) (steps : Nat) :
    Except RcloneError ProcessOutput → Pc
  | .ok out =>
      if out.exitCode ≠ 0 then
        .rollingBack (.new "oauth_failed"
          ("remote creation failed: ".toList ++ stderrField out.stderr))
      else completeCreated config token steps out
  | .error e => .rollingBack (.new "oauth_failed" (sanitize e.display))

def step (s : RemoteConfig) : Act → Option RemoteConfig
  | .check r req session listed =>
      match s.request r with
      | none =>
          some { s.setPc r req (s.checkPc req session listed) with
            seen := Function.update s.seen r (s.version req.name)
            met := fun a b => s.met a b || (b = r && req.creates && s.onItsWay req.name a) }
      | some _ => none
  | .session r snap =>
      match s.request r with
      | some (.complete sessionId name config, .listed) =>
          some (s.setPc r (.complete sessionId name config) (sessionPc sessionId snap))
      | _ => none
  | .create r res wrote =>
      if ends res wrote then
        match s.request r with
        | some (.add name, .listed) =>
            some ((s.write r name wrote).setPc r (.add name) (addPc name res))
        | some (.complete sessionId name config, .authorized token) =>
            some ((s.write r name wrote).setPc r (.complete sessionId name config)
              (completePc config token res))
        | _ => none
      else none
  | .proceed r res wrote =>
      if ends res wrote then
        match s.request r with
        | some (.complete sessionId name config, .asking token steps _ _) =>
            some ((s.write r name wrote).setPc r (.complete sessionId name config)
              (proceedPc config token steps res))
        | _ => none
      else none
  | .verify r res =>
      match s.request r with
      | some (req, .verifying) =>
          match res with
          | .ok () =>
              -- a remote that is not there is not verified
              if (s.config req.name).isSome then some (s.setPc r req (.done (.ok ()))) else none
          | .error e => some (s.setPc r req (.rollingBack (unverified req e)))
      | _ => none
  | .rollback r deleted =>
      match s.request r with
      | some (req, .rollingBack e) =>
          some ((s.erase r req.name deleted).setPc r req (.done (.error e)))
      | _ => none
  | .delete r res =>
      match s.request r with
      | some (.delete name, .listed) =>
          match res with
          | .ok () => some ((s.erase r name true).setPc r (.delete name) (.done (.ok ())))
          | .error e => some (s.setPc r (.delete name) (.done (.error e.toRpc)))
      | _ => none

end RemoteConfig

def remotes : System RemoteConfig Act where
  init s := ∃ config, (∀ name r, config name ≠ some (some r)) ∧ s = .initial config
  step := RemoteConfig.step

-- ============================================================================
-- What a step does
-- ============================================================================

/-- A request goes on from `pc` to `pc'`; `t` is the config after that. -/
inductive Move (s : RemoteConfig) (r : Nat) : Act → Request → Pc → Pc → RemoteConfig → Prop where
  | session {sessionId name : Text} {config : List (Text × Text)} {snap : Snapshot} :
      Move s r (.session r snap) (.complete sessionId name config) .listed
        (sessionPc sessionId snap) s
  | add {name : Text} {res : Except RcloneError ProcessOutput} {wrote : Bool} :
      RemoteConfig.ends res wrote = true →
      Move s r (.create r res wrote) (.add name) .listed (RemoteConfig.addPc name res)
        (s.write r name wrote)
  | complete {sessionId name token : Text} {config : List (Text × Text)}
      {res : Except RcloneError ProcessOutput} {wrote : Bool} :
      RemoteConfig.ends res wrote = true →
      Move s r (.create r res wrote) (.complete sessionId name config) (.authorized token)
        (RemoteConfig.completePc config token res) (s.write r name wrote)
  | proceed {sessionId name token state a : Text} {config : List (Text × Text)} {steps : Nat}
      {res : Except RcloneError ProcessOutput} {wrote : Bool} :
      RemoteConfig.ends res wrote = true →
      Move s r (.proceed r res wrote) (.complete sessionId name config)
        (.asking token steps state a) (RemoteConfig.proceedPc config token steps res)
        (s.write r name wrote)
  | verified {req : Request} : Move s r (.verify r (.ok ())) req .verifying (.done (.ok ())) s
  | unverified {req : Request} {e : RcloneError} :
      Move s r (.verify r (.error e)) req .verifying (.rollingBack (unverified req e)) s
  | rollback {req : Request} {e : RpcError} {deleted : Bool} :
      Move s r (.rollback r deleted) req (.rollingBack e) (.done (.error e))
        (s.erase r req.name deleted)
  | deleted {name : Text} :
      Move s r (.delete r (.ok ())) (.delete name) .listed (.done (.ok ())) (s.erase r name true)
  | undeleted {name : Text} {e : RcloneError} :
      Move s r (.delete r (.error e)) (.delete name) .listed (.done (.error e.toRpc)) s

section

variable {s s' t : RemoteConfig} {a : Act} {r q : Nat} {req : Request} {pc pc' : Pc}
  {name : Text}

/-- A step is the first one of a request, or one with which it goes on. -/
theorem step_cases (hs : s.step a = some s') :
    (∃ r req session listed, a = .check r req session listed ∧ s.request r = none ∧
      s' = { s.setPc r req (s.checkPc req session listed) with
        seen := Function.update s.seen r (s.version req.name)
        met := fun a b => s.met a b || (b = r && req.creates && s.onItsWay req.name a) }) ∨
    ∃ r req pc pc' t, s.request r = some (req, pc) ∧ Move s r a req pc pc' t ∧
      s' = t.setPc r req pc' := by
  cases a with
  | check r req session listed =>
    simp only [RemoteConfig.step] at hs
    split at hs
    · rename_i hnone
      exact .inl ⟨r, req, session, listed, rfl, hnone, (Option.some.inj hs).symm⟩
    · cases hs
  | session r snap =>
    simp only [RemoteConfig.step] at hs
    split at hs
    · rename_i hr
      exact .inr ⟨r, _, _, _, s, hr, .session, (Option.some.inj hs).symm⟩
    · cases hs
  | create r res wrote =>
    simp only [RemoteConfig.step] at hs
    split at hs
    · rename_i hends
      split at hs
      · rename_i hr
        exact .inr ⟨r, _, _, _, _, hr, .add hends, (Option.some.inj hs).symm⟩
      · rename_i hr
        exact .inr ⟨r, _, _, _, _, hr, .complete hends, (Option.some.inj hs).symm⟩
      · cases hs
    · cases hs
  | proceed r res wrote =>
    simp only [RemoteConfig.step] at hs
    split at hs
    · rename_i hends
      split at hs
      · rename_i hr
        exact .inr ⟨r, _, _, _, _, hr, .proceed hends, (Option.some.inj hs).symm⟩
      · cases hs
    · cases hs
  | verify r res =>
    simp only [RemoteConfig.step] at hs
    split at hs
    · rename_i hr
      split at hs
      · split at hs
        · exact .inr ⟨r, _, _, _, _, hr, .verified, (Option.some.inj hs).symm⟩
        · cases hs
      · exact .inr ⟨r, _, _, _, _, hr, .unverified, (Option.some.inj hs).symm⟩
    · cases hs
  | rollback r deleted =>
    simp only [RemoteConfig.step] at hs
    split at hs
    · rename_i hr
      exact .inr ⟨r, _, _, _, _, hr, .rollback, (Option.some.inj hs).symm⟩
    · cases hs
  | delete r res =>
    simp only [RemoteConfig.step] at hs
    split at hs
    · rename_i hr
      split at hs
      · exact .inr ⟨r, _, _, _, _, hr, .deleted, (Option.some.inj hs).symm⟩
      · exact .inr ⟨r, _, _, _, _, hr, .undeleted, (Option.some.inj hs).symm⟩
    · cases hs

/-- The config stays as it is, or the request changes its name. -/
theorem Move.config (h : Move s r a req pc pc' t) :
    t = s ∨ ∃ remote, t = s.change r req.name remote := by
  have hwrite : ∀ name wrote, s.write r name wrote = s ∨
      s.write r name wrote = s.change r name (some (some r)) := by
    intro name wrote
    cases wrote with
    | false => exact .inl rfl
    | true => exact .inr rfl
  have herase : ∀ name deleted, s.erase r name deleted = s ∨
      s.erase r name deleted = s.change r name none := by
    intro name deleted
    unfold RemoteConfig.erase
    split
    · exact .inr rfl
    · exact .inl rfl
  cases h with
  | session | verified | unverified | undeleted => exact .inl rfl
  | add | complete | proceed => exact (hwrite _ _).imp id fun h => ⟨_, h⟩
  | rollback => exact (herase _ _).imp id fun h => ⟨_, h⟩
  | deleted => exact (herase _ _).imp id fun h => ⟨_, h⟩

/-- A request that is done does not go on. -/
theorem Move.not_done {res : Except RpcError Unit} (h : Move s r a req (.done res) pc' t) :
    False := by
  cases h

-- ============================================================================
-- Undisturbed creations
-- ============================================================================

/-- What a creation writes or verifies nobody has changed since it last looked at it
    or changed it, and what it deletes it has written. -/
def undisturbed (s : RemoteConfig) : Act → Bool
  | .create r _ wrote | .proceed r _ wrote =>
      match s.request r with
      | some (req, _) => !wrote || s.version req.name == s.seen r
      | none => true
  | .verify r (.ok ()) =>
      match s.request r with
      | some (req, _) => s.version req.name == s.seen r
      | none => true
  | .rollback r deleted =>
      match s.request r with
      | some (req, _) =>
          !deleted || s.config req.name == none || s.config req.name == some (some r)
      | none => true
  | _ => true

/-- It has failed or is about to. -/
def Pc.failing : Pc → Bool
  | .rollingBack _ | .done (.error _) => true
  | _ => false

/-- It has not come to the verification. -/
def Pc.early : Pc → Bool
  | .listed | .authorized _ | .asking _ _ _ _ => true
  | _ => false

theorem Pc.not_failing_of_early {pc : Pc} (h : pc.early = true) : pc.failing = false := by
  cases pc with
  | listed | authorized | asking => rfl
  | _ => cases h

theorem Pc.not_done_of_early {pc : Pc} (h : pc.early = true) (res : Except RpcError Unit) :
    pc ≠ .done res := by
  rintro rfl
  cases h

/-- The creation has failed or will: somebody else has changed the name. -/
def Dead (s : RemoteConfig) (r : Nat) : Prop :=
  ∃ req pc, s.request r = some (req, pc) ∧ req.creates = true ∧
    (pc.failing = true ∨ (∀ res, pc ≠ .done res) ∧ s.seen r < s.version req.name)

/-- The creation has written nothing yet, and neither has anybody else. -/
def Fresh (s : RemoteConfig) (r : Nat) (name : Text) : Prop :=
  ∃ req pc, s.request r = some (req, pc) ∧ req.creates = true ∧ req.name = name ∧
    pc.early = true ∧ s.seen r = s.version name ∧ s.config name = none

structure Undisturbed (s : RemoteConfig) : Prop where
  seen : ∀ r req pc, s.request r = some (req, pc) → s.seen r ≤ s.version req.name
  own : ∀ r req pc, s.request r = some (req, pc) → req.creates = true →
    s.seen r = s.version req.name → (∀ res, pc ≠ .done res) → pc.failing = false →
    s.config req.name = some (some r) ∨ pc.early = true ∧ s.config req.name = none
  touched : ∀ r q, (r, q) ∈ s.touched → r ≠ q → ∃ req, s.request r = some (req, .done (.ok ()))
  met : ∀ r q, s.met r q = true →
    r ≠ q ∧ (Dead s r ∨ Dead s q ∨ ∃ name, Fresh s r name ∧ Fresh s q name)

-- ============================================================================
-- Where a run of rclone that has written nothing leads
-- ============================================================================

theorem addCreated_failing {out : ProcessOutput} (h : out.exitCode ≠ 0) (name : Text) :
    (addCreated name out).failing = true := by
  unfold addCreated
  simp only [h, ne_eq, not_false_eq_true, if_true]
  split
  · split
    · rfl
    · split <;> rfl
  · rfl

theorem completeCreated_unverified {out : ProcessOutput} (h : out.exitCode ≠ 0)
    (config : List (Text × Text)) (token : Text) (steps : Nat) :
    (completeCreated config token steps out).failing = true ∨
      (completeCreated config token steps out).early = true := by
  unfold completeCreated
  simp only [h, ne_eq, not_false_eq_true, if_true, and_false, if_false]
  split
  · exact .inl rfl
  · split
    · split
      · exact .inl rfl
      · split
        · exact .inr rfl
        · exact .inl rfl
    · exact .inl rfl

theorem exitCode_of_unwritten {out : ProcessOutput}
    (h : RemoteConfig.ends (.ok out) false = true) : out.exitCode ≠ 0 := by
  simpa [RemoteConfig.ends] using h

theorem sessionPc_cases (sessionId : Text) (snap : Snapshot) :
    (sessionPc sessionId snap).failing = true ∨ (sessionPc sessionId snap).early = true := by
  unfold sessionPc
  cases snap.status with
  | authorized =>
    simp only
    split
    · exact .inl rfl
    · exact .inr rfl
  | _ => exact .inl rfl

/-- What the step of an undisturbed request does. -/
inductive Outcome (s : RemoteConfig) (r : Nat) (req : Request) (pc pc' : Pc) : RemoteConfig → Prop where
  | stays : pc'.failing = true ∨ pc.failing = false ∧ pc'.early = true → Outcome s r req pc pc' s
  | wrote : req.creates = true → pc.early = true → s.version req.name = s.seen r →
      Outcome s r req pc pc' (s.change r req.name (some (some r)))
  | verified : pc = .verifying → pc' = .done (.ok ()) → s.version req.name = s.seen r →
      Outcome s r req pc pc' s
  | rolledBack : pc.failing = true → pc'.failing = true →
      s.config req.name = none ∨ s.config req.name = some (some r) →
      Outcome s r req pc pc' (s.change r req.name none)
  | deleted {t : RemoteConfig} : req.creates = false → pc' = .done (.ok ()) →
      t = s ∨ t = s.change r req.name none → Outcome s r req pc pc' t

/-- A run of `config create` that writes nothing does not lead to the verification. -/
theorem Outcome.created {wrote : Bool}
    (hreq : req.creates = true) (hpc : pc.early = true)
    (hunwritten : wrote = false → pc'.failing = true ∨ pc'.early = true)
    (hok : (!wrote || s.version req.name == s.seen r) = true) :
    Outcome s r req pc pc' (s.write r req.name wrote) := by
  cases wrote with
  | false =>
    exact .stays ((hunwritten rfl).imp id fun h => ⟨Pc.not_failing_of_early hpc, h⟩)
  | true => exact .wrote hreq hpc (by simpa using hok)

theorem Move.outcome (h : Move s r a req pc pc' t) (hr : s.request r = some (req, pc))
    (hok : undisturbed s a = true) : Outcome s r req pc pc' t := by
  cases h with
  | session => exact .stays ((sessionPc_cases _ _).imp id fun h => ⟨rfl, h⟩)
  | @add name res wrote hends =>
    refine .created rfl rfl ?_ (by simpa [undisturbed, hr] using hok)
    rintro rfl
    left
    cases res with
    | error e => rfl
    | ok out => exact addCreated_failing (exitCode_of_unwritten hends) _
  | @complete sessionId name token config res wrote hends =>
    refine .created rfl rfl ?_ (by simpa [undisturbed, hr] using hok)
    rintro rfl
    cases res with
    | error e => exact .inl rfl
    | ok out => exact completeCreated_unverified (exitCode_of_unwritten hends) _ _ 0
  | @proceed sessionId name token state a config steps res wrote hends =>
    refine .created rfl rfl ?_ (by simpa [undisturbed, hr] using hok)
    rintro rfl
    left
    cases res with
    | error e => rfl
    | ok out => simp [RemoteConfig.proceedPc, exitCode_of_unwritten hends, Pc.failing]
  | verified => exact .verified rfl rfl (by simpa [undisturbed, hr] using hok)
  | unverified => exact .stays (.inl rfl)
  | @rollback req e deleted =>
    simp only [undisturbed, hr, Bool.or_eq_true, Bool.not_eq_true', beq_iff_eq] at hok
    unfold RemoteConfig.erase
    split
    · rename_i hdeleted
      rw [Bool.and_eq_true] at hdeleted
      refine .rolledBack rfl rfl ?_
      rcases hok with (hno | hnone) | hown
      · rw [hdeleted.1] at hno
        cases hno
      · exact .inl hnone
      · exact .inr hown
    · exact .stays (.inl rfl)
  | deleted =>
    refine .deleted rfl rfl ?_
    unfold RemoteConfig.erase
    split
    · exact .inr rfl
    · exact .inl rfl
  | undeleted => exact .stays (.inl rfl)

-- ============================================================================
-- Steps keep the invariant
-- ============================================================================

/-- Nobody lowers a version, and only the name of the request gets a new one. -/
theorem Outcome.config (h : Outcome s r req pc pc' t) :
    t = s ∨ ∃ remote, t = s.change r req.name remote := by
  cases h with
  | stays | verified => exact .inl rfl
  | wrote | rolledBack => exact .inr ⟨_, rfl⟩
  | deleted _ _ ht => exact ht.imp id fun h => ⟨_, h⟩

theorem Outcome.version (h : Outcome s r req pc pc' t) (name : Text) :
    t.version name = s.version name ∧ t.config name = s.config name ∨
      name = req.name ∧ t.version name = s.version name + 1 := by
  rcases h.config with rfl | ⟨remote, rfl⟩
  · exact .inl ⟨rfl, rfl⟩
  · by_cases hn : name = req.name
    · subst hn
      exact .inr ⟨rfl, by simp [RemoteConfig.change]⟩
    · exact .inl (by simp [RemoteConfig.change, hn])

theorem Outcome.other (h : Outcome s r req pc pc' t) (hq : q ≠ r) :
    (t.setPc r req pc').request q = s.request q ∧ (t.setPc r req pc').seen q = s.seen q := by
  rcases h.config with rfl | ⟨remote, rfl⟩
  · simp [RemoteConfig.setPc, hq]
  · simp [RemoteConfig.setPc, RemoteConfig.change, hq]

/-- Who is dead stays so. -/
theorem Outcome.dead (h : Outcome s r req pc pc' t) (hr : s.request r = some (req, pc))
    (hd : Dead s q) : Dead (t.setPc r req pc') q := by
  obtain ⟨req₁, pc₁, hq, hcreates, hwhy⟩ := hd
  by_cases hqr : q = r
  · subst hqr
    obtain ⟨rfl, rfl⟩ := Prod.mk.inj (Option.some.inj (hr.symm.trans hq))
    have hself : (t.setPc q req pc').request q = some (req, pc') := by simp [RemoteConfig.setPc]
    refine ⟨req, pc', hself, hcreates, ?_⟩
    cases h with
    | stays hpc =>
      rcases hpc with hfailing | ⟨hopen, hearly⟩
      · exact .inl hfailing
      · rcases hwhy with hfailing | ⟨-, hlt⟩
        · rw [hopen] at hfailing
          cases hfailing
        · exact .inr ⟨Pc.not_done_of_early hearly, hlt⟩
    | wrote _ hearly hsame =>
      rcases hwhy with hfailing | ⟨-, hlt⟩
      · rw [Pc.not_failing_of_early hearly] at hfailing
        cases hfailing
      · omega
    | verified hpc _ hsame =>
      rcases hwhy with hfailing | ⟨-, hlt⟩
      · rw [hpc] at hfailing
        cases hfailing
      · omega
    | rolledBack _ hfailing => exact .inl hfailing
    | deleted hkind =>
      rw [hkind] at hcreates
      cases hcreates
  · obtain ⟨hrequest, hseen⟩ := h.other hqr
    refine ⟨req₁, pc₁, hrequest.trans hq, hcreates, ?_⟩
    rcases hwhy with hfailing | ⟨hopen, hlt⟩
    · exact .inl hfailing
    · refine .inr ⟨hopen, ?_⟩
      rw [hseen]
      show s.seen q < t.version req₁.name
      rcases h.version req₁.name with ⟨hsame, -⟩ | ⟨-, hnext⟩
      · omega
      · omega

/-- Who has changed nothing stays so, or fails, or is left behind by a change. -/
theorem Outcome.fresh (h : Outcome s r req pc pc' t) (hr : s.request r = some (req, pc))
    (hf : Fresh s q name) :
    Dead (t.setPc r req pc') q ∨
      (t.version name = s.version name ∧ Fresh (t.setPc r req pc') q name) ∨
      q = r ∧ name = req.name ∧ t.version name = s.version name + 1 := by
  obtain ⟨req₁, pc₁, hq, hcreates, rfl, hearly, hseen, hnone⟩ := hf
  by_cases hqr : q = r
  · subst hqr
    obtain ⟨rfl, rfl⟩ := Prod.mk.inj (Option.some.inj (hr.symm.trans hq))
    have hself : (t.setPc q req pc').request q = some (req, pc') := by simp [RemoteConfig.setPc]
    cases h with
    | stays hpc =>
      rcases hpc with hfailing | ⟨-, hearly'⟩
      · exact .inl ⟨req, pc', hself, hcreates, .inl hfailing⟩
      · exact .inr (.inl ⟨rfl, req, pc', hself, hcreates, rfl, hearly', hseen, hnone⟩)
    | wrote => exact .inr (.inr ⟨rfl, rfl, by simp [RemoteConfig.change]⟩)
    | verified hpc =>
      rw [hpc] at hearly
      cases hearly
    | rolledBack hfailing =>
      rw [Pc.not_failing_of_early hearly] at hfailing
      cases hfailing
    | deleted hkind =>
      rw [hkind] at hcreates
      cases hcreates
  · obtain ⟨hrequest, hsame⟩ := h.other hqr
    rcases h.version req₁.name with ⟨hversion, hconfig⟩ | ⟨-, hnext⟩
    · refine .inr (.inl ⟨hversion, req₁, pc₁, hrequest.trans hq, hcreates, rfl, hearly, ?_, ?_⟩)
      · rw [hsame, hseen]
        exact hversion.symm
      · exact hconfig.trans hnone
    · refine .inl ⟨req₁, pc₁, hrequest.trans hq, hcreates, .inr ⟨Pc.not_done_of_early hearly, ?_⟩⟩
      rw [hsame, hseen]
      show s.version req₁.name < t.version req₁.name
      omega

/-- Of two creations that have changed nothing, at most one comes to do so. -/
theorem Outcome.met (h : Outcome s r req pc pc' t) (hr : s.request r = some (req, pc))
    {r₁ q₁ : Nat} (hne : r₁ ≠ q₁) (hf : Fresh s r₁ name) (hg : Fresh s q₁ name) :
    Dead (t.setPc r req pc') r₁ ∨ Dead (t.setPc r req pc') q₁ ∨
      ∃ name, Fresh (t.setPc r req pc') r₁ name ∧ Fresh (t.setPc r req pc') q₁ name := by
  rcases h.fresh hr hf with hdead | ⟨hsame, hf'⟩ | ⟨rfl, hname, hnext⟩
  · exact .inl hdead
  · rcases h.fresh hr hg with hdead | ⟨-, hg'⟩ | ⟨rfl, -, hnext⟩
    · exact .inr (.inl hdead)
    · exact .inr (.inr ⟨name, hf', hg'⟩)
    · omega
  · rcases h.fresh hr hg with hdead | ⟨hsame, -⟩ | ⟨rfl, -, -⟩
    · exact .inr (.inl hdead)
    · omega
    · exact absurd rfl hne

theorem Undisturbed.progress (h : Undisturbed s) (hr : s.request r = some (req, pc))
    (hnot : ∀ res, pc ≠ .done res) (ho : Outcome s r req pc pc' t)
    (hmet : t.met = s.met) : Undisturbed (t.setPc r req pc') := by
  have hself : (t.setPc r req pc').request r = some (req, pc') := by simp [RemoteConfig.setPc]
  have hseenSelf : t.seen r = s.seen r ∧ t = s ∨ t.seen r = t.version req.name := by
    rcases ho.config with rfl | ⟨remote, rfl⟩
    · exact .inl ⟨rfl, rfl⟩
    · exact .inr (by simp [RemoteConfig.change])
  refine ⟨?_, ?_, ?_, ?_⟩
  · intro q req₁ pc₁ hq
    by_cases hqr : q = r
    · subst hqr
      obtain ⟨rfl, rfl⟩ := Prod.mk.inj (Option.some.inj (hself.symm.trans hq))
      show t.seen q ≤ t.version req.name
      rcases hseenSelf with ⟨-, rfl⟩ | hsame
      · exact h.seen q req pc hr
      · omega
    · obtain ⟨hrequest, hsame⟩ := ho.other hqr
      have hle := h.seen q req₁ pc₁ (hrequest.symm.trans hq)
      rw [hsame]
      show s.seen q ≤ t.version req₁.name
      rcases ho.version req₁.name with ⟨hversion, -⟩ | ⟨-, hnext⟩ <;> omega
  · intro q req₁ pc₁ hq hcreates hseen hopen hnotFailing
    by_cases hqr : q = r
    · subst hqr
      obtain ⟨rfl, rfl⟩ := Prod.mk.inj (Option.some.inj (hself.symm.trans hq))
      cases ho with
      | stays hpc =>
        rcases hpc with hfailing | ⟨hnf, hearly⟩
        · rw [hnotFailing] at hfailing
          cases hfailing
        · rcases h.own q req pc hr hcreates hseen hnot hnf with hown | ⟨-, hnone⟩
          · exact .inl hown
          · exact .inr ⟨hearly, hnone⟩
      | wrote => exact .inl (by simp [RemoteConfig.setPc, RemoteConfig.change])
      | verified _ hdone => exact absurd hdone (hopen _)
      | rolledBack _ hfailing =>
        rw [hnotFailing] at hfailing
        cases hfailing
      | deleted hkind =>
        rw [hkind] at hcreates
        cases hcreates
    · obtain ⟨hrequest, hsame⟩ := ho.other hqr
      have hq' := hrequest.symm.trans hq
      have hle := h.seen q req₁ pc₁ hq'
      have hseen' : s.seen q = t.version req₁.name := hsame.symm.trans hseen
      rcases ho.version req₁.name with ⟨hversion, hconfig⟩ | ⟨-, hnext⟩
      · have hown := h.own q req₁ pc₁ hq' hcreates (hseen'.trans hversion) hopen hnotFailing
        rw [← hconfig] at hown
        exact hown
      · omega
  · intro b q hbq hne
    -- the remote of another request is only taken by a delete
    have hcases : (b, q) ∈ s.touched ∨ b = r ∧ pc' = .done (.ok ()) := by
      have hown : ∀ remote, s.config req.name = none ∨ s.config req.name = some (some r) →
          (b, q) ∈ (s.change r req.name remote).touched → (b, q) ∈ s.touched := by
        intro remote hconfig hmem
        simp only [RemoteConfig.change, RemoteConfig.taken] at hmem
        rcases hconfig with hnone | hmine
        · simpa [hnone] using hmem
        · simp only [hmine, List.cons_append, List.nil_append, List.mem_cons] at hmem
          rcases hmem with heq | hmem
          · obtain ⟨rfl, rfl⟩ := Prod.mk.inj heq
            exact absurd rfl hne
          · exact hmem
      cases ho with
      | stays | verified => exact .inl hbq
      | wrote hcreates hearly hsame =>
        left
        refine hown (some (some r)) ?_ hbq
        rcases h.own r req pc hr hcreates hsame.symm hnot (Pc.not_failing_of_early hearly) with
          hmine | ⟨-, hnone⟩
        · exact .inr hmine
        · exact .inl hnone
      | rolledBack _ _ hconfig => exact .inl (hown none hconfig hbq)
      | deleted _ hdone ht =>
        rcases ht with rfl | rfl
        · exact .inl hbq
        · have hmem : (b, q) ∈ s.taken r req.name ++ s.touched := hbq
          rcases List.mem_append.mp hmem with htaken | hold
          · right
            unfold RemoteConfig.taken at htaken
            split at htaken
            · exact ⟨(Prod.mk.inj (List.mem_singleton.mp htaken)).1, hdone⟩
            · cases htaken
          · exact .inl hold
    rcases hcases with hold | ⟨rfl, hdone⟩
    · obtain ⟨req₁, hb⟩ := h.touched b q hold hne
      have hbr : b ≠ r := by
        rintro rfl
        exact hnot _ (Prod.mk.inj (Option.some.inj (hr.symm.trans hb))).2
      exact ⟨req₁, (ho.other hbr).1.trans hb⟩
    · exact ⟨req, by rw [hself, hdone]⟩
  · intro b q hbq
    have hbq' : s.met b q = true := by
      rw [← hmet]
      exact hbq
    obtain ⟨hne, hwhy⟩ := h.met b q hbq'
    refine ⟨hne, ?_⟩
    rcases hwhy with hdead | hdead | ⟨name, hf, hg⟩
    · exact .inl (ho.dead hr hdead)
    · exact .inr (.inl (ho.dead hr hdead))
    · exact ho.met hr hne hf hg

theorem checkPc_creates (hcreates : req.creates = true) (session : Bool)
    (listed : Except RcloneError Unit) :
    (s.checkPc req session listed).failing = true ∨
      s.checkPc req session listed = .listed ∧ s.config req.name = none := by
  have hfree : ∀ name, (s.freePc name listed).failing = true ∨
      s.freePc name listed = .listed ∧ s.config name = none := by
    intro name
    unfold RemoteConfig.freePc
    split
    · exact .inl rfl
    · split
      · exact .inl rfl
      · rename_i hnone
        exact .inr ⟨rfl, by simpa using hnone⟩
  cases req with
  | add name => exact hfree name
  | complete sessionId name config =>
    simp only [RemoteConfig.checkPc]
    split
    · exact hfree name
    · exact .inl rfl
  | delete name => cases hcreates

/-- Those on their way when a request comes. -/
theorem onItsWay_iff : s.onItsWay name q = true ↔
    ∃ req pc, s.request q = some (req, pc) ∧ req.creates = true ∧ req.name = name ∧
      ∀ res, pc ≠ .done res := by
  unfold RemoteConfig.onItsWay
  split
  · rename_i req res hq
    simp only [hq, Bool.false_eq_true, false_iff]
    rintro ⟨req', pc', hq', -, -, hopen⟩
    exact hopen res (Prod.mk.inj (Option.some.inj hq')).2.symm
  · rename_i req pc hopen hq
    constructor
    · intro h
      rw [Bool.and_eq_true, decide_eq_true_eq] at h
      exact ⟨req, pc, hq, h.1, h.2, fun res hpc => hopen res (by rw [hpc])⟩
    · rintro ⟨req', pc', hq', hcreates, hname, -⟩
      obtain ⟨rfl, rfl⟩ := Prod.mk.inj (Option.some.inj (hq.symm.trans hq'))
      simp [hcreates, hname]
  · rename_i hq
    simp [hq]

theorem Undisturbed.arrive (h : Undisturbed s) (hr : s.request r = none) (session : Bool)
    (listed : Except RcloneError Unit)
    (hs' : s' = { s.setPc r req (s.checkPc req session listed) with
      seen := Function.update s.seen r (s.version req.name)
      met := fun a b => s.met a b || (b = r && req.creates && s.onItsWay req.name a) }) :
    Undisturbed s' := by
  have hconfig : s'.config = s.config ∧ s'.version = s.version ∧ s'.touched = s.touched := by
    rw [hs']
    exact ⟨rfl, rfl, rfl⟩
  have hself : s'.request r = some (req, s.checkPc req session listed) ∧
      s'.seen r = s.version req.name := by
    rw [hs']
    simp [RemoteConfig.setPc]
  have hother : ∀ q, q ≠ r → s'.request q = s.request q ∧ s'.seen q = s.seen q := by
    intro q hq
    rw [hs']
    simp [RemoteConfig.setPc, hq]
  have hold : ∀ q req pc, s.request q = some (req, pc) → q ≠ r := by
    rintro q req pc hq rfl
    rw [hr] at hq
    cases hq
  have hdead : ∀ q, Dead s q → Dead s' q := by
    rintro q ⟨req₁, pc₁, hq, hcreates, hwhy⟩
    obtain ⟨hrequest, hseen⟩ := hother q (hold q _ _ hq)
    refine ⟨req₁, pc₁, hrequest.trans hq, hcreates, ?_⟩
    rw [hseen, hconfig.2.1]
    exact hwhy
  have hfresh : ∀ q name, Fresh s q name → Fresh s' q name := by
    rintro q name ⟨req₁, pc₁, hq, hcreates, hname, hearly, hseen, hnone⟩
    obtain ⟨hrequest, hsame⟩ := hother q (hold q _ _ hq)
    refine ⟨req₁, pc₁, hrequest.trans hq, hcreates, hname, hearly, ?_, ?_⟩
    · rw [hsame, hconfig.2.1]
      exact hseen
    · rw [hconfig.1]
      exact hnone
  refine ⟨?_, ?_, ?_, ?_⟩
  · intro q req₁ pc₁ hq
    rw [hconfig.2.1]
    by_cases hqr : q = r
    · subst hqr
      obtain ⟨rfl, rfl⟩ := Prod.mk.inj (Option.some.inj (hself.1.symm.trans hq))
      rw [hself.2]
    · rw [(hother q hqr).2]
      exact h.seen q req₁ pc₁ ((hother q hqr).1.symm.trans hq)
  · intro q req₁ pc₁ hq hcreates hseen hopen hnot
    rw [hconfig.1]
    by_cases hqr : q = r
    · subst hqr
      obtain ⟨rfl, rfl⟩ := Prod.mk.inj (Option.some.inj (hself.1.symm.trans hq))
      rcases checkPc_creates hcreates session listed with hfailing | ⟨hlisted, hnone⟩
      · rw [hnot] at hfailing
        cases hfailing
      · exact .inr ⟨by rw [hlisted]; rfl, hnone⟩
    · rw [(hother q hqr).2, hconfig.2.1] at hseen
      exact h.own q req₁ pc₁ ((hother q hqr).1.symm.trans hq) hcreates hseen hopen hnot
  · intro b q hbq hne
    rw [hconfig.2.2] at hbq
    obtain ⟨req₁, hb⟩ := h.touched b q hbq hne
    exact ⟨req₁, (hother b (hold b _ _ hb)).1.trans hb⟩
  · intro b q hbq
    have hcases : s.met b q = true ∨ q = r ∧ req.creates = true ∧ s.onItsWay req.name b = true := by
      rw [hs'] at hbq
      simpa [and_assoc] using hbq
    rcases hcases with hmet | ⟨rfl, hcreates, hway⟩
    · obtain ⟨hne, hwhy⟩ := h.met b q hmet
      refine ⟨hne, ?_⟩
      rcases hwhy with hd | hd | ⟨name, hf, hg⟩
      · exact .inl (hdead b hd)
      · exact .inr (.inl (hdead q hd))
      · exact .inr (.inr ⟨name, hfresh b name hf, hfresh q name hg⟩)
    · obtain ⟨req₁, pc₁, hb, hcreates₁, hname, hopen⟩ := onItsWay_iff.mp hway
      refine ⟨hold b _ _ hb, ?_⟩
      rcases checkPc_creates hcreates session listed with hfailing | ⟨hlisted, hnone⟩
      · exact .inr (.inl ⟨req, _, hself.1, hcreates, .inl hfailing⟩)
      · -- the name is free, so the one on its way has not written it
        have hgoes : (pc₁.failing = true ∨ s.seen b < s.version req₁.name) ∨
            Fresh s b req.name := by
          cases hfail : pc₁.failing with
          | true => exact .inl (.inl rfl)
          | false =>
            rcases Nat.lt_or_eq_of_le (h.seen b req₁ pc₁ hb) with hlt | heq
            · exact .inl (.inr hlt)
            · right
              rcases h.own b req₁ pc₁ hb hcreates₁ heq hopen hfail with hown | ⟨hearly, hnone₁⟩
              · rw [hname, hnone] at hown
                cases hown
              · exact ⟨req₁, pc₁, hb, hcreates₁, hname, hearly, hname ▸ heq, hnone⟩
        rcases hgoes with hgone | hf
        · refine .inl (hdead b ⟨req₁, pc₁, hb, hcreates₁, ?_⟩)
          exact hgone.imp id fun hlt => ⟨hopen, hlt⟩
        · refine .inr (.inr ⟨req.name, hfresh b _ hf, req, _, hself.1, hcreates, rfl, ?_, ?_, ?_⟩)
          · rw [hlisted]
            rfl
          · rw [hself.2, hconfig.2.1]
          · rw [hconfig.1]
            exact hnone

theorem Undisturbed.step (h : Undisturbed s) (hok : undisturbed s a = true)
    (hs : s.step a = some s') : Undisturbed s' := by
  rcases step_cases hs with ⟨r, req, session, listed, -, hr, hs'⟩ | ⟨r, req, pc, pc', t, hr, hm, rfl⟩
  · exact h.arrive hr session listed hs'
  · refine h.progress hr ?_ (hm.outcome hr hok) ?_
    · rintro res rfl
      exact hm.not_done
    · rcases hm.config with rfl | ⟨remote, rfl⟩
      · rfl
      · rfl

-- ============================================================================
-- Requests do not spoil each other's remotes
-- ============================================================================

/-- A request that has failed has not overwritten or deleted a remote that another
    request created and reported; and of two creations of a name, one of which came
    while the other was on its way, at most one has reported success. -/
structure Isolated (s : RemoteConfig) : Prop where
  untouched : ∀ r q req e, (r, q) ∈ s.touched → r ≠ q → s.request r = some (req, .done (.error e)) →
    ∀ req', s.request q ≠ some (req', .done (.ok ()))
  single : ∀ r q, s.met r q = true → ∀ req req',
    ¬ (s.request r = some (req, .done (.ok ())) ∧ s.request q = some (req', .done (.ok ())))

theorem undisturbed_inv (h : remotes.ReachableIf (fun s a => undisturbed s a = true) s) :
    Undisturbed s := by
  refine h.invariant ?_ fun _ _ _ hi hok hs => hi.step hok hs
  rintro _ ⟨config, -, rfl⟩
  refine ⟨?_, ?_, ?_, ?_⟩
  · intro r req pc hr
    cases hr
  · intro r req pc hr
    cases hr
  · intro r q hrq
    cases hrq
  · intro r q hrq
    cases hrq

theorem not_dead_of_ok (h : s.request r = some (req, .done (.ok ()))) : ¬ Dead s r := by
  rintro ⟨req', pc', hr, -, hwhy⟩
  obtain ⟨rfl, rfl⟩ := Prod.mk.inj (Option.some.inj (h.symm.trans hr))
  rcases hwhy with hfailing | ⟨hopen, -⟩
  · cases hfailing
  · exact hopen _ rfl

theorem requests_isolated (h : remotes.ReachableIf (fun s a => undisturbed s a = true) s) :
    Isolated s := by
  have hi := undisturbed_inv h
  refine ⟨?_, ?_⟩
  · intro r q req e hrq hne hr req' _
    obtain ⟨req₁, hr₁⟩ := hi.touched r q hrq hne
    rw [hr] at hr₁
    cases hr₁
  · rintro r q hmet req req' ⟨hr, hq⟩
    obtain ⟨-, hwhy⟩ := hi.met r q hmet
    rcases hwhy with hdead | hdead | ⟨name, hf, -⟩
    · exact not_dead_of_ok hr hdead
    · exact not_dead_of_ok hq hdead
    · obtain ⟨req₁, pc₁, hr₁, -, -, hearly, -⟩ := hf
      rw [hr] at hr₁
      cases hr₁
      cases hearly

end

-- ============================================================================
-- Two requests to add one remote
-- ============================================================================

def created : Except RcloneError ProcessOutput := .ok ⟨none, [], [], 0⟩

/-- The second one comes when the first has created the remote. -/
def oneAfterAnother : List Act :=
  let add : Request := .add "drive".toList
  [.check 0 add false (.ok ()), .create 0 created true, .check 1 add false (.ok ()),
    .verify 0 (.ok ())]

/-- Both find the name free and create the remote; the first is verified, the second
    is not and deletes it. -/
def oneInAnother : List Act :=
  let add : Request := .add "drive".toList
  [.check 0 add false (.ok ()), .check 1 add false (.ok ()), .create 0 created true,
    .create 1 created true, .verify 0 (.ok ()),
    .verify 1 (.error (.runFailed "lsd".toList "401".toList)), .rollback 1 true]

def isOk (s : RemoteConfig) (r : Nat) : Bool :=
  match s.request r with
  | some (_, .done (.ok ())) => true
  | _ => false

def isError (s : RemoteConfig) (r : Nat) : Bool :=
  match s.request r with
  | some (_, .done (.error _)) => true
  | _ => false

theorem none_there : remotes.init (.initial fun _ => none) :=
  ⟨fun _ => none, fun _ _ => by simp, rfl⟩

theorem requests_isolated_one_after_another :
    ∃ s, (isOk s 0 = true ∧ isError s 1 = true ∧ s.met 0 1 = true) ∧ Isolated s := by
  have hrun : (remotes.runIf undisturbed (.initial fun _ => none) oneAfterAnother).any (fun s =>
      decide (isOk s 0 = true ∧ isError s 1 = true ∧ s.met 0 1 = true)) = true := by
    decide +kernel
  obtain ⟨s, hs, hend⟩ := (Option.any_eq_true _ _).mp hrun
  exact ⟨s, of_decide_eq_true hend,
    requests_isolated (System.runIf_reachableIf (.init none_there) hs)⟩

/-- The second request fails, and deletes what the first has created and reported. -/
theorem reported_remote_deleted : ¬ ∀ s, remotes.Reachable s → Isolated s := by
  intro hall
  have hrun : (remotes.runFrom (.initial fun _ => none) oneInAnother).any (fun s =>
      decide ((1, 0) ∈ s.touched) && isOk s 0 && isError s 1) = true := by
    decide +kernel
  obtain ⟨s, hs, hend⟩ := (Option.any_eq_true _ _).mp hrun
  simp only [Bool.and_eq_true, decide_eq_true_eq] at hend
  obtain ⟨⟨htouched, hok⟩, herror⟩ := hend
  have hisolated := hall s (System.runFrom_reachable (.init none_there) hs)
  unfold isOk at hok
  unfold isError at herror
  split at hok
  · rename_i req hr₀
    split at herror
    · rename_i req' e hr₁
      exact hisolated.untouched 1 0 req' e htouched (by decide) hr₁ req hr₀
    · cases herror
  · cases hok

end GnDrive.Rpc.Remotes
