/-
  GnDrive.Rpc.OAuth

  The `rclone authorize` sessions (`rpc/oauth.rs`): `start`, `cancel`,
  `forget`, the expiry timer and the exit of the child, each on a thread of
  its own, with a lock section as one step.

  A `Slot` is a session with the threads that work on it.  A step touches one
  slot and the registry, so what a session goes through can be read off its
  slot.  The texts of the child are kept whole; the child's command line and
  the creation of the remote after a completed session are not modelled.
-/

import GnDrive.Lib.System
import GnDrive.Lib.Text
import Mathlib.Logic.Function.Basic

namespace GnDrive.OAuth

open Text (trim findSplit find contains startsWith endsWith isWhitespace)

/-! ## Parsing the child's output -/

/-- rclone consent link (`…/auth?state=`), not the quoted redirect-root notice. -/
def isConsentUrl (url : Text) : Bool :=
  contains "/auth?".toList url || endsWith "/auth".toList url

/-- The loop of `extract_url` on the text from `from` on. -/
def extractUrl.go : Nat → Text → Option Text → Option Text
  | 0, _, first => first
  | fuel + 1, rest, first =>
      let pos := match find "http://".toList rest, find "https://".toList rest with
        | some a, some b => some (min a b)
        | some a, none => some a
        | none, some b => some b
        | none, none => none
      match pos with
      | none => first
      | some pos =>
          let start := rest.drop pos
          let scheme := if startsWith "https://".toList start then 8 else 7
          let tail := (start.drop scheme).takeWhile
            fun c => !(isWhitespace c || c = '"' || c = Char.ofNat 39)
          let url := (start.take (scheme + tail.length)).rdropWhile
            fun c => c ∈ [')', '.', ',', ';', '"', Char.ofNat 39]
          let next := start.drop (scheme + tail.length)
          if tail ≠ [] ∧ url ≠ [] then
            if isConsentUrl url then some url
            else go fuel next (first.or (some url))
          else go fuel next first

/-- First `https?://[^\s"']+` match with trailing `).,;"'` stripped; the
    consent link wins. -/
def extractUrl (text : Text) : Option Text := extractUrl.go text.length text none

def extractToken (text : Text) : Text :=
  let START := "Paste the following into your remote machine --->".toList
  let END := "<---End paste".toList
  match findSplit START text with
  | none => []
  | some (_, rest) =>
      match findSplit END (rest.drop START.length) with
      | none => []
      | some (body, _) => trim body

/-! ## Sessions -/

inductive StreamKind where
  | stdout
  | stderr
deriving DecidableEq, Repr

inductive Status where
  | waiting
  | authorized
  | failed
  | cancelled
deriving DecidableEq, Repr

/-- The child process as the session's spawner sees it; `signalled` when it
    was told to terminate while it ran. -/
inductive Child where
  | unspawned
  | running (signalled : Bool)
  | exited (code : Int)
  | failed
deriving DecidableEq, Repr

/-- A `remotes:oauth` update. -/
structure Update where
  status : Status
  error : Text
  authUrl : Option Text
deriving DecidableEq, Repr

structure Session where
  token : Text
  authUrl : Option Text
  status : Status
  errorMessage : Text
  stdoutBuffer : Text
  stderrBuffer : Text
  finished : Bool
  /-- The handle in `session.child`. -/
  handle : Bool
  child : Child
  /-- What was pushed about the session, newest first. -/
  updates : List Update
  /-- `oauth.complete` was handed the token. -/
  exposed : Bool
deriving DecidableEq, Repr

def Session.new : Session where
  token := []
  authUrl := none
  status := .waiting
  errorMessage := []
  stdoutBuffer := []
  stderrBuffer := []
  finished := false
  handle := false
  child := .unspawned
  updates := []
  exposed := false

structure Registry where
  sessions : Nat → Bool
  activeId : Option Nat
  counter : Nat

/-- What an RPC call answers. -/
inductive Answer where
  | session
  | error (code : String) (message : Text)
  | cancelled
  | token (token : Text)
deriving DecidableEq, Repr

/-- The code after a call of `finish`. -/
inductive Next where
  | startFailed
  | cancelled
  | expired
  | exited
deriving DecidableEq, Repr

/-- Where a thread is between two lock sections. -/
inductive Phase where
  -- `start`
  | spawn
  | store
  | storeCheck
  | storeTake
  | schedule
  | waitUrl
  | readState
  | answer (url : Option Text) (status : Status) (err : Text) (finished : Bool)
  -- `finish`, called by the code that goes on with `next`
  | finish (status : Status) (error : Text) (next : Next)
  | finishPush (status : Status) (error : Text) (next : Next)
  | finishUnregister (next : Next)
  -- `cancel`
  | cancelLookup
  | cancelCheck
  | cancelMark
  | cancelChild
  | cancelKill
  -- `forget`, before the answer
  | forgetEntry (answer : Answer)
  | forgetToken (answer : Answer)
  -- `schedule_expiry`
  | expiryWait
  | expiryCheck
  | expiryChild
  | expiryKill
  -- `process_exited`
  | exitWait
  | exitRead (code : Int)
  | exitAuthorize (token : Text)
  | exitPush
  | exitSnapshot (code : Int) (msg : Text)
  | exitTake
  | exitUnregister
  -- `remotes.oauth.complete`
  | completeWait
  | completeSnapshot
  | returned (answer : Option Answer)
deriving DecidableEq, Repr

/-- An RPC call, the thread waiting for the child, or the expiry timer. -/
inductive Thread where
  | call (i : Nat)
  | waiter
  | timer
deriving DecidableEq, Repr

/-- A session and the threads that work on it. -/
structure Slot where
  session : Session
  pc : Thread → Option Phase

namespace Slot

def fresh : Slot := ⟨Session.new, fun _ => none⟩

def goto (w : Slot) (t : Thread) (p : Phase) : Slot :=
  { w with pc := Function.update w.pc t (some p) }

def set (w : Slot) (x : Session) : Slot := { w with session := x }

end Slot

namespace Registry

/-- `if active_id == session.id { active_id = None }`. -/
def unregister (reg : Registry) (n : Nat) : Registry :=
  { reg with activeId := if reg.activeId = some n then none else reg.activeId }

end Registry

-- ============================================================================
-- The lock sections
-- ============================================================================

section

variable (stderrField sanitize : Text → Text)

/-- `consume`. -/
def consume (x : Session) (kind : StreamKind) (text : Text) : Session :=
  match kind with
  | .stderr =>
      let x := { x with stderrBuffer := x.stderrBuffer ++ text }
      match extractUrl x.stderrBuffer with
      | none => x
      | some url =>
          let upgrade := match x.authUrl with
            | none => true
            | some cur => !isConsentUrl cur && isConsentUrl url
          if upgrade then { x with authUrl := some url } else x
  | .stdout => { x with stdoutBuffer := x.stdoutBuffer ++ text }

def sessionId (n : Nat) : Text := 'O' :: (toString n).toList

/-- Where a thread goes after `finish`. -/
def Next.phase : Next → Phase
  | .startFailed =>
      .returned (some (.error "oauth_failed" "could not start rclone authorize".toList))
  | .cancelled => .forgetEntry .cancelled
  | .expired => .expiryChild
  | .exited => .exitTake

/-- The SIGTERM of `terminate`, which the exit flag guards. -/
def Session.kill (x : Session) : Session :=
  match x.child with
  | .running _ => { x with child := .running true }
  | _ => x

/-- What `process_exited` does after it has read the session. -/
def afterExit (x : Session) (code : Int) : Phase :=
  if x.finished then .exitTake
  else
    let token := extractToken x.stdoutBuffer
    let token := if token = [] then extractToken x.stderrBuffer else token
    if code = 0 ∧ token ≠ [] then .exitAuthorize token
    else .exitSnapshot code
      (stderrField (if x.stderrBuffer = [] then x.stdoutBuffer else x.stderrBuffer))

/-- One lock section of the thread `t`, which is at `p` in the slot `w` of
    session `n`. -/
def advance (reg : Registry) (n : Nat) (t : Thread) (w : Slot) (p : Phase) :
    Option (Registry × Slot) :=
  let x := w.session
  match p with
  | .spawn | .returned _ => none
  | .store => some (reg, (w.set { x with handle := true }).goto t .storeCheck)
  | .storeCheck =>
      -- The child may have exited before the handle was stored.
      some (reg, w.goto t (if x.finished then .storeTake else .schedule))
  | .storeTake => some (reg, (w.set { x with handle := false }).goto t .schedule)
  | .schedule => some (reg, (w.goto .timer .expiryWait).goto t .waitUrl)
  | .waitUrl => some (reg, w.goto t .readState)
  | .readState =>
      some (reg, w.goto t (.answer x.authUrl x.status x.errorMessage x.finished))
  | .answer url status err finished =>
      match url.filter (· ≠ []) with
      | some url =>
          some (reg, (w.set { x with updates := ⟨.waiting, [], some url⟩ :: x.updates }).goto t
            (.returned (some .session)))
      | none =>
          some (reg, w.goto t
            (if finished ∨ status ≠ .waiting then
              .forgetEntry (.error "oauth_failed"
                (if err = [] then "rclone authorize did not produce a URL".toList
                  else sanitize err))
            else .returned (some .session)))
  | .finish status error next =>
      if x.finished then some (reg, w.goto t next.phase)
      else
        some (reg, (w.set { x with
          finished := true
          status := status
          errorMessage := error
          token := if status ≠ .authorized then [] else x.token }).goto t
            (.finishPush status error next))
  | .finishPush status error next =>
      some (reg, (w.set { x with updates := ⟨status, error, none⟩ :: x.updates }).goto t
        (.finishUnregister next))
  | .finishUnregister next => some (reg.unregister n, w.goto t next.phase)
  | .cancelLookup =>
      some (reg, w.goto t
        (if reg.sessions n then .cancelCheck else .forgetEntry .cancelled))
  | .cancelCheck =>
      some (reg, w.goto t (if x.finished then .forgetEntry .cancelled else .cancelMark))
  | .cancelMark =>
      some (reg, (w.set { x with status := .cancelled, token := [] }).goto t .cancelChild)
  | .cancelChild =>
      some (reg, w.goto t (if x.handle then .cancelKill else .finish .cancelled [] .cancelled))
  | .cancelKill => some (reg, (w.set x.kill).goto t (.finish .cancelled [] .cancelled))
  | .forgetEntry a =>
      let removed := reg.sessions n
      some ({ reg with sessions := Function.update reg.sessions n false }.unregister n,
        w.goto t (if removed then .forgetToken a else .returned (some a)))
  | .forgetToken a => some (reg, (w.set { x with token := [] }).goto t (.returned (some a)))
  -- The wait ends when the session is finished or the deadline has passed.
  | .expiryWait => some (reg, w.goto t .expiryCheck)
  | .expiryCheck =>
      some (reg, w.goto t
        (if x.status ≠ .waiting then .returned none
        else .finish .cancelled "OAuth session expired".toList .expired))
  | .expiryChild => some (reg, w.goto t (if x.handle then .expiryKill else .returned none))
  | .expiryKill => some (reg, (w.set x.kill).goto t (.returned none))
  | .exitWait =>
      match x.child with
      | .exited code => some (reg, w.goto t (.exitRead code))
      | _ => none
  | .exitRead code => some (reg, w.goto t (afterExit stderrField x code))
  | .exitAuthorize token =>
      some (reg, (w.set { x with token, status := .authorized, finished := true }).goto t
        .exitPush)
  | .exitPush =>
      some (reg, (w.set { x with updates := ⟨.authorized, [], none⟩ :: x.updates }).goto t
        .exitTake)
  | .exitSnapshot code msg =>
      let wasCancelled := x.status = .cancelled
      some (reg, w.goto t
        (.finish (if wasCancelled then .cancelled else .failed)
          (if wasCancelled then []
          else if msg = [] then "rclone authorize exited ".toList ++ (toString code).toList
          else msg) .exited))
  | .exitTake => some (reg, (w.set { x with handle := false }).goto t .exitUnregister)
  | .exitUnregister => some (reg.unregister n, w.goto t (.returned none))
  | .completeWait => some (reg, w.goto t .completeSnapshot)
  | .completeSnapshot =>
      match x.status with
      | .cancelled =>
          some (reg, w.goto t (.returned (some (.error "oauth_cancelled"
            ("OAuth session ".toList ++ sessionId n ++ " was cancelled".toList)))))
      | .failed =>
          some (reg, w.goto t (.returned (some (.error "oauth_failed"
            (if x.errorMessage = [] then "OAuth authorization failed".toList
              else x.errorMessage)))))
      | .waiting =>
          some (reg, w.goto t (.returned (some (.error "oauth_cancelled"
            "OAuth authorization has not completed yet".toList))))
      | .authorized =>
          if x.token = [] then
            some (reg, w.goto t (.returned (some (.error "oauth_failed"
              ("OAuth session ".toList ++ sessionId n ++ " has no token".toList)))))
          else
            some (reg, (w.set { x with exposed := true }).goto t (.forgetEntry (.token x.token)))

/-! ## The manager -/

structure State where
  reg : Registry
  slot : Nat → Slot

/-- `OAuthManager::new`. -/
def State.initial : State := ⟨⟨fun _ => false, none, 0⟩, fun _ => Slot.fresh⟩

/-- An RPC call begins, a child is spawned or not, writes or exits, or a
    thread takes its next lock section. -/
inductive Act where
  | start (i : Nat)
  | cancel (n i : Nat)
  | complete (n i : Nat)
  | spawned (n i : Nat)
  | spawnFailed (n i : Nat) (e : Text)
  | chunk (n : Nat) (kind : StreamKind) (text : Text)
  | childExit (n : Nat) (code : Int)
  | step (n : Nat) (t : Thread)

/-- A call on the session `n`, which the handler has found. -/
def State.call (s : State) (n i : Nat) (p : Phase) : Option State :=
  if s.reg.sessions n ∧ (s.slot n).pc (.call i) = none then
    some { s with slot := Function.update s.slot n ((s.slot n).goto (.call i) p) }
  else none

/-- Whether `start` answers `oauth_session_active`. -/
def State.busy (s : State) : Bool :=
  match s.reg.activeId with
  | some a => s.reg.sessions a && !(s.slot a).session.finished
  | none => false

def oauthStep (s : State) : Act → Option State
  | .start i =>
      if s.busy then some s
      else
        let n := s.reg.counter + 1
        some {
          reg := {
            sessions := Function.update s.reg.sessions n true
            activeId := some n
            counter := n }
          slot := Function.update s.slot n (Slot.fresh.goto (.call i) .spawn) }
  | .cancel n i => s.call n i .cancelLookup
  | .complete n i => s.call n i .completeWait
  | .spawned n i =>
      let w := s.slot n
      if w.pc (.call i) = some .spawn then
        let w := w.set { w.session with child := .running false }
        some { s with slot := Function.update s.slot n
                        ((w.goto .waiter .exitWait).goto (.call i) .store) }
      else none
  | .spawnFailed n i e =>
      let w := s.slot n
      if w.pc (.call i) = some .spawn then
        let w := w.set { w.session with child := .failed }
        some { s with slot := Function.update s.slot n
                        (w.goto (.call i) (.finish .failed
                          ("could not start rclone authorize: ".toList ++ e) .startFailed)) }
      else none
  | .chunk n kind text =>
      let w := s.slot n
      -- The exit is reported after every chunk.
      if w.pc .waiter = some .exitWait then
        some { s with slot := Function.update s.slot n (w.set (consume w.session kind text)) }
      else none
  | .childExit n code =>
      let w := s.slot n
      match w.session.child with
      | .running _ =>
          some { s with slot := Function.update s.slot n
                          (w.set { w.session with child := .exited code }) }
      | _ => none
  | .step n t =>
      let w := s.slot n
      (w.pc t).bind fun p =>
        (advance stderrField sanitize s.reg n t w p).map fun (reg, w) =>
          { reg, slot := Function.update s.slot n w }

def oauthSystem : System State Act where
  init s := s = State.initial
  step := oauthStep stderrField sanitize

end

end GnDrive.OAuth
