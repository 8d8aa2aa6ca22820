/-
  GnDrive.Auth.Logic

  Rules for the operations of the auth service.  `ASpec` is `Spec` for a
  program that carries the service's state: the crash condition `I` speaks of
  the disk alone, since a killed process takes its state with it.

  The second half walks once through each operation on the config files and
  states what one file goes through, so that no later proof opens their
  bodies.
-/

import GnDrive.Auth.Service

namespace GnDrive.Auth

open AuthM
open Crypto (Sealed WritesTo)

/-- From state `s` and any world with view `v`: `I` at every point, `Q` at the
    end. -/
def ASpec {α : Type} (env : Env) (I : View → Prop) (x : AuthM α)
    (Q : Except AuthError α → State → View → Prop) (s : State) (v : View) : Prop :=
  Spec env I (x.run.run s) (fun r v => Q r.1 r.2 v) v

/-- Run an operation: its result, the state it leaves, and the world. -/
def runAuth {α : Type} (env : Env) (x : AuthM α) (s : State) (w : World) :
    (Except AuthError α × State) × World := Prog.run (exec env) (x.run.run s) w

section Rules

variable {env : Env} {I J : View → Prop} {α β : Type} {s : State} {v : View}

theorem auth_pure {a : α} {Q : Except AuthError α → State → View → Prop} (hI : I v)
    (hQ : Q (.ok a) s v) : ASpec env I (pure a) Q s v := spec_pure hI hQ

theorem auth_throw {e : AuthError} {Q : Except AuthError α → State → View → Prop} (hI : I v)
    (hQ : Q (.error e) s v) : ASpec env I (throw e) Q s v := spec_pure hI hQ

theorem auth_mono {x : AuthM α} {Q Q' : Except AuthError α → State → View → Prop}
    (hI : ∀ v, I v → J v) (hQ : ∀ r s v, I v → Q r s v → Q' r s v) (hx : ASpec env I x Q s v) :
    ASpec env J x Q' s v := spec_mono hI (fun r v => hQ r.1 r.2 v) hx

/-- Two facts about one operation. -/
theorem auth_and {x : AuthM α} {Q Q' : Except AuthError α → State → View → Prop}
    (h : ASpec env I x Q s v) (h' : ASpec env (fun _ => True) x Q' s v) :
    ASpec env I x (fun r s v => Q r s v ∧ Q' r s v) s v := spec_and h h'

theorem auth_bind {x : AuthM α} {f : α → AuthM β} {Q : Except AuthError β → State → View → Prop}
    (hx : ASpec env I x (fun r s v => match r with
      | .ok a => ASpec env I (f a) Q s v
      | .error e => Q (.error e) s v) s v) :
    ASpec env I (x >>= f) Q s v := by
  refine spec_bind (spec_mono (fun _ h => h) ?_ hx)
  rintro ⟨r, s'⟩ v' hI hr
  cases r with
  | ok a => exact hr
  | error e => exact spec_pure hI hr

theorem auth_get {Q : Except AuthError State → State → View → Prop} (hI : I v)
    (hQ : Q (.ok s) s v) : ASpec env I get Q s v := spec_pure hI hQ

theorem auth_set {s' : State} {Q : Except AuthError PUnit → State → View → Prop} (hI : I v)
    (hQ : Q (.ok ⟨⟩) s' v) : ASpec env I (set s') Q s v := spec_pure hI hQ

theorem auth_modify {f : State → State} {Q : Except AuthError PUnit → State → View → Prop}
    (hI : I v) (hQ : Q (.ok ⟨⟩) (f s) v) : ASpec env I (modify f) Q s v := spec_pure hI hQ

theorem auth_io {p : Io α} {Q : Except AuthError α → State → View → Prop}
    (hp : Spec env I p (fun a v => Q (.ok a) s v) v) : ASpec env I (io p) Q s v := by
  refine spec_bind (spec_bind (spec_mono (fun _ h => h) ?_ hp))
  intro a v' hI hQ
  exact spec_pure hI (spec_pure hI hQ)

theorem auth_attempt {p : ExceptT AuthError Io α} {Q : Except AuthError α → State → View → Prop}
    (hp : Spec env I p.run (fun r v => Q r s v) v) : ASpec env I (attempt p) Q s v := by
  refine auth_bind (auth_io (spec_mono (fun _ h => h) ?_ hp))
  intro r v' hI hQ
  cases r with
  | ok a => exact auth_pure hI hQ
  | error e => exact auth_throw hI hQ

theorem auth_argon {r : Except Argon2id.Argon2Error α}
    {Q : Except AuthError α → State → View → Prop} (hI : I v)
    (hok : ∀ a, r = .ok a → Q (.ok a) s v) (herr : ∀ e, r = .error e → Q (.error (.argon2 e)) s v) :
    ASpec env I (argon r) Q s v := by
  cases r with
  | ok a => exact auth_pure hI (hok a rfl)
  | error e => exact auth_throw hI (herr e rfl)

theorem auth_reject {c : Bool} {e : AuthError} {Q : Except AuthError Unit → State → View → Prop}
    (hI : I v) (hok : c = false → Q (.ok ()) s v) (herr : c = true → Q (.error e) s v) :
    ASpec env I (reject c e) Q s v := by
  cases c with
  | false => exact auth_pure hI (hok rfl)
  | true => exact auth_throw hI (herr rfl)

/-- What a specification says of a run to the end. -/
theorem auth_run {x : AuthM α} {Q : Except AuthError α → State → View → Prop} {w : World}
    (hx : ASpec env I x Q s w.view) :
    Q (runAuth env x s w).1.1 (runAuth env x s w).1.2 (runAuth env x s w).2.view := spec_run hx

end Rules
end GnDrive.Auth
