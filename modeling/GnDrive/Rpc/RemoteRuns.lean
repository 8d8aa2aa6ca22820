/-
  GnDrive.Rpc.RemoteRuns

  How long a request on rclone's config takes (`remotes_add`, `oauth_complete` with
  `oauth_create_loop`, and `remotes_delete`).

  Each request has a budget of steps that its own steps use up and that the steps
  of the others leave alone; rclone cannot keep it going with further questions.
  A request that is not done can go on whatever the others have done to its name.
-/

import GnDrive.Lib.Budget
import GnDrive.Rpc.Remotes

namespace GnDrive.Rpc.Remotes

def Act.actor : Act → Nat
  | .check r _ _ _ | .session r _ | .create r _ _ | .proceed r _ _ | .verify r _
  | .rollback r _ | .delete r _ => r

/-- The steps after the first one: a deletion runs rclone once, `remotes_add` creates,
    verifies and rolls back, and `oauth_complete` waits for its session first and
    answers up to eight questions. -/
def Request.turns : Request → Nat
  | .delete _ => 1
  | .add _ => 3
  | .complete _ _ _ => 12

/-- The steps that a request has left. -/
def Pc.left (req : Request) : Pc → Nat
  | .listed => req.turns
  | .authorized _ => 11
  | .asking _ steps _ _ => 3 + (8 - steps)
  | .verifying => 2
  | .rollingBack _ => 1
  | .done _ => 0

/-- A request that has not come yet may be any. -/
def RemoteConfig.left (s : RemoteConfig) (r : Nat) : Nat :=
  match s.request r with
  | some (req, pc) => pc.left req
  | none => 13

/-- Only `oauth_complete` waits for a session and answers questions, and a deletion
    neither verifies nor rolls back. -/
def Pc.Fits (req : Request) : Pc → Prop
  | .authorized _ | .asking _ _ _ _ =>
      ∃ sessionId name config, req = .complete sessionId name config
  | .verifying | .rollingBack _ => req.creates = true
  | .listed | .done _ => True

section

variable {s s' t : RemoteConfig} {a : Act} {r q : Nat} {req : Request} {pc pc' : Pc}

-- ============================================================================
-- One step
-- ============================================================================

theorem sessionPc_left (sessionId : Text) (snap : Snapshot) :
    (sessionPc sessionId snap).left req ≤ 11 := by
  unfold sessionPc
  cases snap.status with
  | authorized =>
    simp only
    split
    · exact Nat.zero_le _
    · exact Nat.le_refl _
  | _ => exact Nat.zero_le _

theorem addCreated_left (name : Text) (out : ProcessOutput) :
    (addCreated name out).left req ≤ 2 := by
  have hexit : (if out.exitCode ≠ 0 then
      Pc.rollingBack (.new "rclone_failed" ("rclone config create failed: ".toList ++
        Redact.stderrField (if out.stderr = [] then out.stdout else out.stderr)))
      else .verifying).left req ≤ 2 := by
    split
    · exact Nat.le_succ 1
    · exact Nat.le_refl 2
  unfold addCreated
  simp only
  split
  · split
    · exact hexit
    · split <;> exact Nat.le_succ 1
  · exact hexit

/-- One question is answered, or none. -/
theorem completeCreated_left (config : List (Text × Text)) (token : Text) (steps : Nat)
    (out : ProcessOutput) : (completeCreated config token steps out).left req ≤ 2 ∨
      steps < 8 ∧ (completeCreated config token steps out).left req ≤ 3 + (8 - (steps + 1)) := by
  unfold completeCreated
  simp only
  split
  · split
    · exact .inl (Nat.le_succ 1)
    · exact .inl (Nat.le_refl 2)
  · split
    · split
      · exact .inl (Nat.le_succ 1)
      · split
        · exact .inr ⟨by omega, Nat.le_refl _⟩
        · exact .inl (Nat.le_succ 1)
    · split
      · exact .inl (Nat.le_refl 2)
      · exact .inl (Nat.le_succ 1)

theorem Move.actor (h : Move s r a req pc pc' t) : a.actor = r := by
  cases h <;> rfl

/-- A request uses up its budget. -/
theorem Move.left (h : Move s r a req pc pc' t) : pc'.left req < pc.left req := by
  cases h with
  | @session sessionId name config snap =>
    exact Nat.lt_succ_of_le (sessionPc_left sessionId snap)
  | @add name res wrote _ =>
    cases res with
    | error e => exact Nat.succ_pos 2
    | ok out => exact Nat.lt_succ_of_le (addCreated_left name out)
  | @complete sessionId name token config res wrote _ =>
    cases res with
    | error e =>
      show 1 < 11
      omega
    | ok out =>
      show (completeCreated config token 0 out).left _ < 11
      rcases completeCreated_left config token 0 out with h | ⟨-, h⟩
      · exact Nat.lt_of_le_of_lt h (by omega)
      · exact Nat.lt_of_le_of_lt h (by omega)
  | @proceed sessionId name token state a config steps res wrote _ =>
    cases res with
    | error e =>
      show 1 < 3 + (8 - steps)
      omega
    | ok out =>
      show (RemoteConfig.proceedPc config token steps (.ok out)).left _ < 3 + (8 - steps)
      unfold RemoteConfig.proceedPc
      simp only
      split
      · show 1 < 3 + (8 - steps)
        omega
      · rcases completeCreated_left config token steps out with h | ⟨hlt, h⟩
        · exact Nat.lt_of_le_of_lt h (by omega)
        · exact Nat.lt_of_le_of_lt h (by omega)
  | verified => exact Nat.succ_pos 1
  | unverified => exact Nat.lt_succ_self 1
  | rollback => exact Nat.succ_pos 0
  | deleted => exact Nat.succ_pos 0
  | undeleted => exact Nat.succ_pos 0

/-- The requests after a step of `r`. -/
theorem Move.request (h : Move s r a req pc pc' t) (q : Nat) :
    (t.setPc r req pc').request q = if q = r then some (req, pc') else s.request q := by
  have ht : t.request = s.request := by
    rcases h.config with rfl | ⟨remote, rfl⟩ <;> rfl
  show Function.update t.request r (some (req, pc')) q = _
  rw [Function.update_apply, ht]

theorem checkPc_left (session : Bool) (listed : Except RcloneError Unit) :
    (s.checkPc req session listed).left req ≤ req.turns := by
  unfold RemoteConfig.checkPc RemoteConfig.freePc
  split
  · split
    · exact Nat.zero_le _
    · split
      · exact Nat.zero_le _
      · exact Nat.le_refl _
  · split
    · split
      · exact Nat.zero_le _
      · split
        · exact Nat.zero_le _
        · exact Nat.le_refl _
    · exact Nat.zero_le _
  · split
    · exact Nat.zero_le _
    · split
      · exact Nat.le_refl _
      · exact Nat.zero_le _

theorem turns_le (req : Request) : req.turns ≤ 12 := by
  cases req with
  | add => exact Nat.le_add_left 3 9
  | complete => exact Nat.le_refl 12
  | delete => exact Nat.le_add_left 1 11

/-- The budget of a request is its own. -/
theorem left_step (hs : s.step a = some s') (r : Nat) :
    (a.actor = r → s'.left r < s.left r) ∧ (a.actor ≠ r → s'.left r = s.left r) := by
  rcases step_cases hs with
    ⟨q, req, session, listed, rfl, hnone, rfl⟩ | ⟨q, req, pc, pc', t, hq, h, rfl⟩
  · refine ⟨?_, fun hne => ?_⟩
    · rintro rfl
      have hle : (s.checkPc req session listed).left req ≤ req.turns :=
        checkPc_left session listed
      have := turns_le req
      simp only [RemoteConfig.left, RemoteConfig.setPc, Act.actor, Function.update_self, hnone]
      omega
    · have hne : r ≠ q := fun heq => hne heq.symm
      simp [RemoteConfig.left, RemoteConfig.setPc, hne]
  · rw [h.actor]
    unfold RemoteConfig.left
    rw [h.request]
    refine ⟨?_, fun hne => ?_⟩
    · rintro rfl
      rw [if_pos rfl, hq]
      exact h.left
    · rw [if_neg fun heq => hne heq.symm]

-- ============================================================================
-- Going on
-- ============================================================================

def Fitting (s : RemoteConfig) : Prop :=
  ∀ r req pc, s.request r = some (req, pc) → pc.Fits req

theorem completeCreated_fits {sessionId name : Text} {config : List (Text × Text)}
    (token : Text) (steps : Nat) (out : ProcessOutput) :
    (completeCreated config token steps out).Fits (.complete sessionId name config) := by
  unfold completeCreated
  simp only
  split
  · split <;> exact rfl
  · split
    · split
      · exact rfl
      · split
        · exact ⟨_, _, _, rfl⟩
        · exact rfl
    · split <;> exact rfl

theorem addCreated_fits (name : Text) (out : ProcessOutput) :
    (addCreated name out).Fits (.add name) := by
  unfold addCreated
  simp only
  split
  · split
    · split <;> exact rfl
    · split <;> exact rfl
  · split <;> exact rfl

theorem checkPc_fits (session : Bool) (listed : Except RcloneError Unit) :
    (s.checkPc req session listed).Fits req := by
  unfold RemoteConfig.checkPc RemoteConfig.freePc
  split
  · split
    · trivial
    · split <;> trivial
  · split
    · split
      · trivial
      · split <;> trivial
    · trivial
  · split
    · trivial
    · split <;> trivial

theorem Move.fits (h : Move s r a req pc pc' t) (hpc : pc.Fits req) : pc'.Fits req := by
  cases h with
  | @session sessionId name config snap =>
    unfold sessionPc
    cases snap.status with
    | authorized =>
      simp only
      split
      · trivial
      · exact ⟨_, _, _, rfl⟩
    | _ => trivial
  | @add name res wrote _ =>
    cases res with
    | error e => trivial
    | ok out => exact addCreated_fits name out
  | @complete sessionId name token config res wrote _ =>
    cases res with
    | error e => exact rfl
    | ok out => exact completeCreated_fits token 0 out
  | @proceed sessionId name token state a config steps res wrote _ =>
    cases res with
    | error e => exact rfl
    | ok out =>
      unfold RemoteConfig.proceedPc
      simp only
      split
      · exact rfl
      · exact completeCreated_fits token steps out
  | unverified => exact hpc
  | verified | rollback | deleted | undeleted => trivial

theorem fitting_step (h : Fitting s) (hs : s.step a = some s') : Fitting s' := by
  rcases step_cases hs with
    ⟨q, req, session, listed, rfl, hnone, rfl⟩ | ⟨q, req, pc, pc', t, hq, hmove, rfl⟩
  · intro r req' pc hr
    simp only [RemoteConfig.setPc, Function.update_apply] at hr
    split at hr
    · obtain ⟨rfl, rfl⟩ := Prod.mk.inj (Option.some.inj hr)
      exact checkPc_fits session listed
    · exact h r req' pc hr
  · intro r req' pc'' hr
    rw [hmove.request] at hr
    split at hr
    · obtain ⟨rfl, rfl⟩ := Prod.mk.inj (Option.some.inj hr)
      exact hmove.fits (h q req pc hq)
    · exact h r req' pc'' hr

/-- Whatever the session or rclone answers, the request takes it. -/
def GoesOn (s : RemoteConfig) (r : Nat) (req : Request) : Pc → Prop
  | .listed =>
      match req with
      | .add _ => ∀ res, ∃ wrote, (s.step (.create r res wrote)).isSome = true
      | .complete _ _ _ => ∀ snap, (s.step (.session r snap)).isSome = true
      | .delete _ => ∀ res, (s.step (.delete r res)).isSome = true
  | .authorized _ => ∀ res, ∃ wrote, (s.step (.create r res wrote)).isSome = true
  | .asking _ _ _ _ => ∀ res, ∃ wrote, (s.step (.proceed r res wrote)).isSome = true
  | .verifying =>
      (∀ e, (s.step (.verify r (.error e))).isSome = true) ∧
        ((s.config req.name).isSome = true → (s.step (.verify r (.ok ()))).isSome = true)
  | .rollingBack _ => ∀ deleted, (s.step (.rollback r deleted)).isSome = true
  | .done _ => True

/-- A run that ends well may have written the remote. -/
theorem ends_true (res : Except RcloneError ProcessOutput) : RemoteConfig.ends res true = true := by
  unfold RemoteConfig.ends
  split
  · exact Bool.or_true _
  · rfl

theorem Fitting.goesOn (h : Fitting s) (hr : s.request r = some (req, pc)) : GoesOn s r req pc := by
  have hfits := h r req pc hr
  cases pc with
  | listed =>
    cases req with
    | add name => exact fun res => ⟨true, by simp [RemoteConfig.step, hr, ends_true]⟩
    | complete sessionId name config => exact fun snap => by simp [RemoteConfig.step, hr]
    | delete name => exact fun res => by cases res <;> simp [RemoteConfig.step, hr]
  | authorized token =>
    obtain ⟨sessionId, name, config, rfl⟩ := hfits
    exact fun res => ⟨true, by simp [RemoteConfig.step, hr, ends_true]⟩
  | asking token steps state answer =>
    obtain ⟨sessionId, name, config, rfl⟩ := hfits
    exact fun res => ⟨true, by simp [RemoteConfig.step, hr, ends_true]⟩
  | verifying =>
    refine ⟨fun e => by simp [RemoteConfig.step, hr], fun hthere => ?_⟩
    simp [RemoteConfig.step, hr, hthere]
  | rollingBack e => exact fun deleted => by simp [RemoteConfig.step, hr]
  | done res => trivial

/-- A request keeps its parameters, and a result is final. -/
theorem request_kept (hs : s.step a = some s') (hr : s.request r = some (req, pc)) :
    ∃ pc', s'.request r = some (req, pc') ∧ ∀ res, pc = .done res → pc' = .done res := by
  rcases step_cases hs with
    ⟨q, req', session, listed, rfl, hnone, rfl⟩ | ⟨q, req', pc', pc'', t, hq, hmove, rfl⟩
  · have hne : r ≠ q := by
      rintro rfl
      rw [hr] at hnone
      cases hnone
    exact ⟨pc, by simp [RemoteConfig.setPc, hne, hr], fun _ => id⟩
  · rw [hmove.request]
    split
    · rename_i heq
      subst heq
      obtain ⟨rfl, rfl⟩ := Prod.mk.inj (Option.some.inj (hr.symm.trans hq))
      refine ⟨pc'', rfl, fun res hres => ?_⟩
      subst hres
      exact hmove.not_done.elim
    · exact ⟨pc, hr, fun _ => id⟩

/-- What a whole run makes of a request. -/
theorem run_kept {as : List Act} (hrun : remotes.runFrom s as = some s')
    (hr : s.request r = some (req, pc)) :
    ∃ pc', s'.request r = some (req, pc') ∧ ∀ res, pc = .done res → pc' = .done res := by
  refine System.runFrom_keeps
    (P := fun s => ∃ pc', s.request r = some (req, pc') ∧ ∀ res, pc = .done res → pc' = .done res)
    (fun s a s' hkept hs => ?_) ⟨pc, hr, fun _ => id⟩ hrun
  obtain ⟨pc₁, hr₁, hdone₁⟩ := hkept
  obtain ⟨pc₂, hr₂, hdone₂⟩ := request_kept hs hr₁
  exact ⟨pc₂, hr₂, fun res h => hdone₂ res (hdone₁ res h)⟩

/-- In every run of any requests, each takes its bounded number of steps: at most thirteen,
    and as many as its kind has from its first one on, of which no answer of rclone and no
    other request makes more.  In every state of the run it can take its next answer, until
    it is done; and then it stays done, with the same result. -/
theorem requests_end {as : List Act} (hinit : remotes.init s)
    (hrun : remotes.runFrom s as = some s') (r : Nat) :
    as.countP (·.actor == r) ≤ 13 ∧
      ∀ req pc, s'.request r = some (req, pc) →
        GoesOn s' r req pc ∧
        ∀ more t, remotes.runFrom s' more = some t →
          ∃ pc', t.request r = some (req, pc') ∧
            more.countP (·.actor == r) + pc'.left req ≤ pc.left req ∧
            ∀ res, pc = .done res → pc' = .done res := by
  have hbudget : ∀ {s s' : RemoteConfig} {as : List Act}, remotes.runFrom s as = some s' →
      as.countP (·.actor == r) + s'.left r ≤ s.left r := by
    intro s s' as hrun
    refine System.runFrom_budget (·.actor == r) (·.left r) (fun s a s' hs hr => ?_)
      (fun s a s' hs hr => ?_) hrun
    · exact (left_step hs r).1 (beq_iff_eq.mp hr)
    · exact Nat.le_of_eq ((left_step hs r).2 (beq_eq_false_iff_ne.mp hr))
  obtain ⟨config, -, rfl⟩ := hinit
  refine ⟨?_, fun req pc hr => ⟨?_, fun more t hmore => ?_⟩⟩
  · exact Nat.le_trans (Nat.le_add_right _ _) (hbudget hrun)
  · have hfitting : Fitting s' := System.runFrom_keeps (P := Fitting)
      (fun _ _ _ => fitting_step) (fun r req pc hr => by cases hr) hrun
    exact hfitting.goesOn hr
  · obtain ⟨pc', hr', hdone⟩ := run_kept hmore hr
    refine ⟨pc', hr', ?_, hdone⟩
    have := hbudget hmore
    simpa [RemoteConfig.left, hr, hr'] using this

/-- Two creations of one name, of which the second fails and rolls back. -/
theorem requests_end_one_in_another :
    ∃ s, remotes.runFrom (.initial fun _ => none) oneInAnother = some s ∧ isError s 1 = true ∧
      oneInAnother.countP (·.actor == 1) ≤ 13 := by
  have hrun : (remotes.runFrom (.initial fun _ => none) oneInAnother).any (isError · 1) = true := by
    decide +kernel
  obtain ⟨s, hs, hend⟩ := (Option.any_eq_true _ _).mp hrun
  exact ⟨s, hs, hend, (requests_end none_there hs 1).1⟩

end

end GnDrive.Rpc.Remotes
