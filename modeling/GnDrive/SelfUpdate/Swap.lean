/-
  GnDrive.SelfUpdate.Swap

  What `atomic_swap` leaves at the target and next to it: after every number of commands
  (`NeverTorn`), and where it returns an error (`CleanOnError`).

  The old binary is moved away before the new one is moved in, so every swap that comes
  as far as the first rename leaves a moment without a binary (`swap_safe_iff`).
-/

import GnDrive.SelfUpdate.Release

namespace GnDrive.SelfUpdate

def bak (current : Text) : Text := current ++ ".bak".toList

/-- The copy of the new binary next to the target. -/
def staged (current : Text) : Text := current ++ ".new".toList

theorem staged_ne {current : Text} : staged current ≠ current := by simp [staged]

theorem bak_ne {current : Text} : bak current ≠ current := by simp [bak]

theorem staged_ne_bak {current : Text} : staged current ≠ bak current := by
  simp [staged, bak]

-- ============================================================================
-- One command
-- ============================================================================

section

variable {env : Env} {w : World} {p q r : Text} {f : File}

@[simp] theorem tick_removeFile : (exec env (.removeFile p) w).2.tick = w.tick + 1 := by
  unfold exec
  dsimp only
  split <;> rfl

theorem removeFile_of_ne (h : q ≠ p) :
    (exec env (.removeFile p) w).2.files q = w.files q := by
  unfold exec
  dsimp only
  split
  · rfl
  · rfl
  · exact World.files_setFile_of_ne _ _ h

/-- Removing what is missing changes nothing. -/
theorem removeFile_self :
    (exec env (.removeFile p) w).2.files p =
      if env.fails w.tick (.removeFile p) = none then none else w.files p := by
  unfold exec
  dsimp only
  cases hfails : env.fails w.tick (.removeFile p) with
  | some e => rfl
  | none =>
    cases hp : w.files p with
    | none => exact hp
    | some f => exact World.files_setFile_self ..

theorem exec_copy_ok (hp : w.files p = some f) (h : env.fails w.tick (.copy p q) = none) :
    exec env (.copy p q) w = (.ok (), (w.setFile q (some f)).tock) := by
  unfold exec put
  dsimp only
  rw [hp, h]

/-- A copy that fails leaves what it has written so far, if it has opened the file. -/
theorem exec_copy_error (env : Env) (h : w.files p = none ∨ env.fails w.tick (.copy p q) ≠ none) :
    ∃ e w', exec env (.copy p q) w = (.error e, w') ∧
      (∀ r ≠ q, w'.files r = w.files r) ∧
      (w'.files q = none ↔ w.files q = none ∧
        (w.files p = none ∨ env.written w.tick = none)) := by
  unfold exec put
  dsimp only
  cases hp : w.files p with
  | none => exact ⟨_, _, rfl, fun _ _ => rfl, by simp⟩
  | some f =>
    obtain ⟨e, he⟩ := Option.ne_none_iff_exists'.mp (h.resolve_left (by simp [hp]))
    dsimp only
    rw [he]
    cases hn : env.written w.tick with
    | none => exact ⟨_, _, rfl, fun _ _ => rfl, by simp⟩
    | some n => exact ⟨_, _, rfl, fun r hr => World.files_setFile_of_ne _ _ hr, by simp⟩

theorem exec_setMode_ok (env : Env) {mode : Nat} (hp : w.files p = some f)
    (h : env.fails w.tick (.setMode p mode) = none) :
    exec env (.setMode p mode) w = (.ok (), (w.setFile p (some { f with mode })).tock) := by
  unfold exec
  dsimp only
  rw [hp, h]

theorem exec_setMode_error (env : Env) {mode : Nat} (h : env.fails w.tick (.setMode p mode) ≠ none) :
    ∃ e, exec env (.setMode p mode) w = (.error e, w.tock) := by
  obtain ⟨e, he⟩ := Option.ne_none_iff_exists'.mp h
  unfold exec
  dsimp only
  rw [he]
  exact ⟨e, rfl⟩

theorem exec_rename_ok (env : Env) (hp : w.files p = some f) (h : env.fails w.tick (.rename p q) = none) :
    exec env (.rename p q) w = (.ok (), ((w.setFile p none).setFile q (some f)).tock) := by
  unfold exec
  dsimp only
  rw [hp, h]

theorem exec_rename_error (env : Env) (h : w.files p = none ∨ env.fails w.tick (.rename p q) ≠ none) :
    ∃ e, exec env (.rename p q) w = (.error e, w.tock) := by
  unfold exec
  dsimp only
  cases hfails : env.fails w.tick (.rename p q) with
  | some e => exact ⟨e, rfl⟩
  | none =>
    rw [h.resolve_right (· hfails)]
    exact ⟨noSuchFile, rfl⟩

end

-- ============================================================================
-- The swap
-- ============================================================================

section

variable (env : Env) (newBin current : Text) (w : World)

/-- The target holds the whole old binary or the whole new one. -/
def Whole (v : World) : Prop :=
  v.files current = w.files current ∨
    ∃ f, w.files newBin = some f ∧ v.files current = some { f with mode := 0o755 }

/-- The swap can be killed after any command, and any command can fail. -/
def NeverTorn : Prop :=
  ∀ n, Whole newBin current w (Prog.crashAt (exec env) n (atomicSwap newBin current).run w)

/-- An error means that nothing has happened. -/
def CleanOnError : Prop :=
  ∀ e v, Prog.run (exec env) (atomicSwap newBin current).run w = (.error e, v) →
    v.files current = w.files current ∧ v.files (staged current) = none

/-- After the file an earlier update has staged is removed. -/
def cleared : World := (exec env (.removeFile (staged current)) w).2

/-- The new binary is copied next to the target. -/
def Copies : Prop :=
  (cleared env current w).files newBin ≠ none ∧
    env.fails (w.tick + 1) (.copy newBin (staged current)) = none

/-- It is there with its mode. -/
def Stages : Prop :=
  Copies env newBin current w ∧
    env.fails (w.tick + 2) (.setMode (staged current) 0o755) = none

/-- The old binary is moved out of the way. -/
def MovesOld : Prop :=
  Stages env newBin current w ∧ w.files current ≠ none ∧
    env.fails (w.tick + 4) (.rename current (bak current)) = none

/-- What has to go well for an error to leave nothing behind. -/
structure CleansUp : Prop where
  /-- Nothing is left of an earlier update, and the copy has not begun. -/
  copy : ¬ Copies env newBin current w →
    (cleared env current w).files (staged current) = none ∧
      ((cleared env current w).files newBin = none ∨ env.written (w.tick + 1) = none)
  mode : Copies env newBin current w → Stages env newBin current w
  backup : Stages env newBin current w → ¬ MovesOld env newBin current w →
    env.fails (w.tick + 5) (.removeFile (staged current)) = none
  /-- The rollback. -/
  rollback : MovesOld env newBin current w →
    env.fails (w.tick + 5) (.rename (staged current) current) ≠ none →
      env.fails (w.tick + 6) (.rename (bak current) current) = none ∧
        env.fails (w.tick + 7) (.removeFile (staged current)) = none

end

/-- The way back of a file that was moved away. -/
theorem rename_back (env : Env) {v : World} {p q r : Text} {f g : File} (hp : v.files p = none)
    (hq : v.files q = some g) (hr : v.files r = some f) (hrp : r ≠ p) (hrq : r ≠ q) :
    (exec env (.rename q p) v).2.tick = v.tick + 1 ∧
      (exec env (.rename q p) v).2.files r = some f ∧
      ((exec env (.rename q p) v).2.files p = some g ↔ env.fails v.tick (.rename q p) = none) := by
  by_cases hfails : env.fails v.tick (.rename q p) = none
  · rw [exec_rename_ok env hq hfails]
    refine ⟨rfl, ?_, ?_⟩
    · rw [World.files_tock, World.files_setFile_of_ne _ _ hrp, World.files_setFile_of_ne _ _ hrq,
        hr]
    · rw [World.files_tock, World.files_setFile_self]
      exact iff_of_true rfl hfails
  · obtain ⟨e, he⟩ := exec_rename_error env (q := p) (w := v) (p := q) (Or.inr hfails)
    rw [he]
    refine ⟨rfl, hr, ?_⟩
    rw [World.files_tock, hp]
    exact iff_of_false (by simp) hfails

section

variable {env : Env} {newBin current : Text} {w v : World} {f g : File} {clean : Prop}

/-- The swap from its first rename on. -/
def moveIn (current : Text) : Io (Except Text Unit) :=
  .cmd (.rename current (bak current)) fun
    | .error e => .cmd (.removeFile (staged current)) fun _ => .pure (.error e)
    | .ok () => .cmd (.rename (staged current) current) fun
      | .error e => .cmd (.rename (bak current) current) fun _ =>
          .cmd (.removeFile (staged current)) fun _ => .pure (.error e)
      | .ok () => .pure (.ok ())

theorem atomicSwap_run :
    (atomicSwap newBin current).run =
      .cmd (.removeFile (staged current)) fun _ => .cmd (.copy newBin (staged current)) fun
        | .error e => .pure (.error e)
        | .ok () => .cmd (.setMode (staged current) 0o755) fun
          | .error e => .pure (.error e)
          | .ok () => .cmd (.removeFile (bak current)) fun _ => moveIn current := by
  unfold atomicSwap moveIn bak staged
  refine congrArg (Prog.cmd _) (funext fun _ => congrArg (Prog.cmd _) (funext fun r => ?_))
  cases r with
  | error e => rfl
  | ok u =>
    refine congrArg (Prog.cmd _) (funext fun r => ?_)
    cases r with
    | error e => rfl
    | ok u =>
      refine congrArg (Prog.cmd _) (funext fun _ => congrArg (Prog.cmd _) (funext fun r => ?_))
      cases r with
      | error e => rfl
      | ok u =>
        refine congrArg (Prog.cmd _) (funext fun r => ?_)
        cases r <;> rfl

-- ============================================================================
-- The ways a swap ends
-- ============================================================================

def KeepsOld (current : Text) (w v : World) : Prop := v.files current = w.files current

/-- Nothing has happened. -/
def Clean (current : Text) (w v : World) : Prop :=
  KeepsOld current w v ∧ v.files (staged current) = none

/-- The end with an error that leaves nothing behind where `clean` holds. -/
def Ends (current : Text) (w : World) (clean : Prop) (r : Except Text Unit) (v : World) : Prop :=
  (∃ e, r = .error e) ∧ (Clean current w v ↔ clean)

theorem cleanOnError_iff :
    CleanOnError env newBin current w ↔
      ∀ e, (Prog.run (exec env) (atomicSwap newBin current).run w).1 = .error e →
        Clean current w (Prog.run (exec env) (atomicSwap newBin current).run w).2 := by
  constructor
  · intro h e he
    exact h e _ (Prod.ext he rfl)
  · intro h e v hrun
    have hclean := h e (by rw [hrun])
    rw [hrun] at hclean
    exact hclean

/-- A swap that ends with an error before anything is moved. -/
theorem safe_of_ends
    (h : Prog.wp (exec env) (KeepsOld current w) (Ends current w clean)
      (atomicSwap newBin current).run w) :
    NeverTorn env newBin current w ∧ (CleanOnError env newBin current w ↔ clean) := by
  obtain ⟨hkeeps, ⟨e, he⟩, hclean⟩ := Prog.wp_iff.mp h
  refine ⟨fun n => Or.inl (hkeeps n), ?_⟩
  rw [cleanOnError_iff, ← hclean]
  constructor
  · intro h
    exact h e he
  · intro h _ _
    exact h

theorem exec_cleared : exec env (.removeFile (staged current)) w =
    ((exec env (.removeFile (staged current)) w).1, cleared env current w) := rfl

theorem cleared_current : (cleared env current w).files current = w.files current :=
  removeFile_of_ne staged_ne.symm

theorem cleared_newBin (h : (cleared env current w).files newBin = some f) :
    w.files newBin = some f := by
  by_cases hne : newBin = staged current
  · subst hne
    unfold cleared at h
    rw [removeFile_self] at h
    split at h
    · cases h
    · exact h
  · rwa [cleared, removeFile_of_ne hne] at h

@[simp] theorem cleared_tick : (cleared env current w).tick = w.tick + 1 := tick_removeFile

theorem ends_of_not_copies (h : ¬ Copies env newBin current w) :
    Prog.wp (exec env) (KeepsOld current w)
      (Ends current w ((cleared env current w).files (staged current) = none ∧
        ((cleared env current w).files newBin = none ∨ env.written (w.tick + 1) = none)))
      (atomicSwap newBin current).run w := by
  rw [atomicSwap_run]
  obtain ⟨e, v, hexec, hkeeps, hstaged⟩ := exec_copy_error env
    (w := cleared env current w) (p := newBin) (q := staged current)
    (by rw [cleared_tick]; unfold Copies at h; tauto)
  have hcur : KeepsOld current w v := by
    rw [KeepsOld, hkeeps _ staged_ne.symm, cleared_current]
  rw [Prog.wp_cmd exec_cleared, Prog.wp_cmd hexec]
  refine ⟨rfl, cleared_current, hcur, ⟨e, rfl⟩, ?_⟩
  rw [Clean, hstaged, cleared_tick]
  exact and_iff_right hcur

/-- After the copy. -/
theorem Copies.exec (h : Copies env newBin current w) : ∃ f v,
    w.files newBin = some f ∧
      SelfUpdate.exec env (.copy newBin (staged current)) (cleared env current w) = (.ok (), v) ∧
      v.tick = w.tick + 2 ∧ KeepsOld current w v ∧ v.files (staged current) = some f := by
  obtain ⟨f, hf⟩ := Option.ne_none_iff_exists'.mp h.1
  refine ⟨f, _, cleared_newBin hf, exec_copy_ok hf (by rw [cleared_tick]; exact h.2), ?_, ?_, ?_⟩
  · show (cleared env current w).tick + 1 = w.tick + 2
    rw [cleared_tick]
  · rw [KeepsOld, World.files_tock, World.files_setFile_of_ne _ _ staged_ne.symm, cleared_current]
  · rw [World.files_tock, World.files_setFile_self]

theorem ends_of_not_stages (hcopy : Copies env newBin current w)
    (h : ¬ Stages env newBin current w) :
    Prog.wp (exec env) (KeepsOld current w) (Ends current w False)
      (atomicSwap newBin current).run w := by
  rw [atomicSwap_run]
  obtain ⟨f, v, -, hexec, htick, hcur, hstaged⟩ := hcopy.exec
  obtain ⟨e, hmode⟩ := exec_setMode_error env (w := v) (p := staged current)
    (by rw [htick]; exact fun hm => h ⟨hcopy, hm⟩ : env.fails v.tick (.setMode _ 0o755) ≠ none)
  rw [Prog.wp_cmd exec_cleared, Prog.wp_cmd hexec, Prog.wp_cmd hmode]
  refine ⟨rfl, cleared_current, hcur, hcur, ⟨e, rfl⟩, ?_⟩
  rw [Clean, World.files_tock, hstaged]
  simp

/-- The new binary is staged; what is left is to move it in. -/
theorem Stages.reach (h : Stages env newBin current w) : ∃ f v,
    w.files newBin = some f ∧ v.tick = w.tick + 4 ∧ KeepsOld current w v ∧
      v.files (staged current) = some { f with mode := 0o755 } ∧
      ∀ {I : World → Prop} {Q}, (∀ v, KeepsOld current w v → I v) →
        (Prog.wp (exec env) I Q (atomicSwap newBin current).run w ↔
          Prog.wp (exec env) I Q (moveIn current) v) := by
  obtain ⟨f, v, hnew, hexec, htick, hcur, hstaged⟩ := h.1.exec
  have hmode := exec_setMode_ok env hstaged (by rw [htick]; exact h.2)
  generalize hu : (v.setFile (staged current) (some { f with mode := 0o755 })).tock = u at hmode
  have hucur : KeepsOld current w u := by
    rw [KeepsOld, ← hu, World.files_tock, World.files_setFile_of_ne _ _ staged_ne.symm, hcur]
  have hustaged : u.files (staged current) = some { f with mode := 0o755 } := by
    rw [← hu, World.files_tock, World.files_setFile_self]
  have hutick : u.tick = w.tick + 3 := by
    rw [← hu]
    show v.tick + 1 = w.tick + 3
    rw [htick]
  refine ⟨f, (exec env (.removeFile (bak current)) u).2, hnew, ?_, ?_, ?_, ?_⟩
  · rw [tick_removeFile, hutick]
  · rw [KeepsOld, removeFile_of_ne bak_ne.symm, hucur]
  · rw [removeFile_of_ne staged_ne_bak, hustaged]
  · intro I Q hI
    rw [atomicSwap_run, Prog.wp_cmd exec_cleared, Prog.wp_cmd hexec, Prog.wp_cmd hmode,
      Prog.wp_cmd (Prod.eta _).symm]
    constructor
    · rintro ⟨-, -, -, -, hk⟩
      exact hk
    · intro hk
      exact ⟨hI _ rfl, hI _ cleared_current, hI _ hcur, hI _ hucur, hk⟩

theorem ends_of_not_moves (hstages : Stages env newBin current w)
    (h : ¬ MovesOld env newBin current w) :
    Prog.wp (exec env) (KeepsOld current w)
      (Ends current w (env.fails (w.tick + 5) (.removeFile (staged current)) = none))
      (atomicSwap newBin current).run w := by
  obtain ⟨f, v, -, htick, hcur, hstaged, hreach⟩ := hstages.reach
  rw [hreach fun _ h => h]
  obtain ⟨e, hmove⟩ := exec_rename_error env (w := v) (p := current) (q := bak current) (by
    rw [htick, hcur]
    unfold MovesOld at h
    tauto)
  unfold moveIn
  rw [Prog.wp_cmd hmove, Prog.wp_cmd (Prod.eta _).symm]
  have hkept : KeepsOld current w (exec env (.removeFile (staged current)) v.tock).2 := by
    rw [KeepsOld, removeFile_of_ne staged_ne.symm, World.files_tock, hcur]
  refine ⟨hcur, hcur, hkept, ⟨e, rfl⟩, ?_⟩
  have htick' : v.tock.tick = w.tick + 5 := by
    show v.tick + 1 = w.tick + 5
    rw [htick]
  rw [Clean, removeFile_self, World.files_tock, hstaged, htick']
  constructor
  · rintro ⟨-, hremoved⟩
    by_contra hfails
    rw [if_neg hfails] at hremoved
    cases hremoved
  · intro hfails
    exact ⟨hkept, if_pos hfails⟩

/-- Between the two renames there is no binary. -/
theorem MovesOld.moved (h : MovesOld env newBin current w) : ∃ f g v,
    w.files current = some g ∧ v.tick = w.tick + 5 ∧ v.files current = none ∧
      v.files (staged current) = some f ∧ v.files (bak current) = some g ∧
      ∀ {I : World → Prop} {Q}, (∀ v, KeepsOld current w v → I v) →
        (Prog.wp (exec env) I Q (atomicSwap newBin current).run w ↔
          Prog.wp (exec env) I Q (.cmd (.rename (staged current) current) fun
            | .error e => .cmd (.rename (bak current) current) fun _ =>
                .cmd (.removeFile (staged current)) fun _ => .pure (.error e)
            | .ok () => .pure (.ok ())) v) := by
  obtain ⟨f, v, -, htick, hcur, hstaged, hreach⟩ := h.1.reach
  obtain ⟨g, hg⟩ := Option.ne_none_iff_exists'.mp h.2.1
  have hmove := exec_rename_ok env (hcur.trans hg) (by rw [htick]; exact h.2.2)
  generalize hu : ((v.setFile current none).setFile (bak current) (some g)).tock = u at hmove
  refine ⟨{ f with mode := 0o755 }, g, u, hg, ?_, ?_, ?_, ?_, ?_⟩
  · rw [← hu]
    show v.tick + 1 = w.tick + 5
    rw [htick]
  · rw [← hu, World.files_tock, World.files_setFile_of_ne _ _ bak_ne.symm,
      World.files_setFile_self]
  · rw [← hu, World.files_tock, World.files_setFile_of_ne _ _ staged_ne_bak,
      World.files_setFile_of_ne _ _ staged_ne, hstaged]
  · rw [← hu, World.files_tock, World.files_setFile_self]
  · intro I Q hI
    rw [hreach hI, moveIn, Prog.wp_cmd hmove]
    exact and_iff_right (hI _ hcur)

/-- With both renames the swap goes through. -/
theorem MovesOld.run_ok (h : MovesOld env newBin current w)
    (hfails : env.fails (w.tick + 5) (.rename (staged current) current) = none) :
    (Prog.run (exec env) (atomicSwap newBin current).run w).1 = .ok () := by
  obtain ⟨f, g, v, -, htick, -, hstaged, -, hmoved⟩ := h.moved
  have hwp : Prog.wp (exec env) (fun _ => True) (fun r _ => r = .ok ())
      (atomicSwap newBin current).run w := by
    rw [hmoved fun _ _ => trivial, Prog.wp_cmd (exec_rename_ok env hstaged
      (by rw [htick]; exact hfails))]
    exact ⟨trivial, trivial, rfl⟩
  exact (Prog.wp_iff.mp hwp).2

theorem not_neverTorn (h : MovesOld env newBin current w) : ¬ NeverTorn env newBin current w := by
  intro hnever
  obtain ⟨f, g, v, hg, -, hnone, -, -, hmoved⟩ := h.moved
  have hwp : Prog.wp (exec env) (Whole newBin current w) (fun _ _ => True)
      (atomicSwap newBin current).run w := Prog.wp_iff.mpr ⟨hnever, trivial⟩
  obtain hold | ⟨f, -, hf⟩ := Prog.wp_inv ((hmoved fun _ hv => Or.inl hv).mp hwp)
  · rw [KeepsOld, hnone, hg] at hold
    cases hold
  · rw [hnone] at hf
    cases hf

/-- An error of the second rename is put right by the rollback and the removal. -/
theorem cleanOnError_of_moves (h : MovesOld env newBin current w) :
    CleanOnError env newBin current w ↔
      (env.fails (w.tick + 5) (.rename (staged current) current) ≠ none →
        env.fails (w.tick + 6) (.rename (bak current) current) = none ∧
          env.fails (w.tick + 7) (.removeFile (staged current)) = none) := by
  obtain ⟨f, g, v, hg, htick, hnone, hstaged, hbak, hmoved⟩ := h.moved
  have hclean : CleanOnError env newBin current w ↔
      Prog.wp (exec env) (fun _ => True) (fun r v => ∀ e, r = .error e → Clean current w v)
        (atomicSwap newBin current).run w := by
    rw [cleanOnError_iff, Prog.wp_iff]
    simp only [implies_true, true_and]
  rw [hclean, hmoved fun _ _ => trivial]
  by_cases hfails : env.fails (w.tick + 5) (.rename (staged current) current) = none
  · rw [Prog.wp_cmd (exec_rename_ok env hstaged (by rw [htick]; exact hfails))]
    constructor
    · intro _ hne
      exact absurd hfails hne
    · intro _
      exact ⟨trivial, trivial, fun e he => nomatch he⟩
  obtain ⟨e, hexec⟩ := exec_rename_error env (w := v) (p := staged current)
    (q := current) (Or.inr (by rw [htick]; exact hfails))
  have htick' : v.tock.tick = w.tick + 6 := by
    show v.tick + 1 = w.tick + 6
    rw [htick]
  obtain ⟨hutick, hustaged, hrolls⟩ := rename_back env (v := v.tock) (p := current)
    hnone hbak hstaged staged_ne staged_ne_bak
  rw [Prog.wp_cmd hexec, Prog.wp_cmd (Prod.eta _).symm, Prog.wp_cmd (Prod.eta _).symm]
  generalize (exec env (.rename (bak current) current) v.tock).2 = u at hutick hustaged hrolls
  have hkept : KeepsOld current w (exec env (.removeFile (staged current)) u).2 ↔
      env.fails (w.tick + 6) (.rename (bak current) current) = none := by
    rw [KeepsOld, removeFile_of_ne staged_ne.symm, hg, hrolls, htick']
  have hgone : (exec env (.removeFile (staged current)) u).2.files (staged current) = none ↔
      env.fails (w.tick + 7) (.removeFile (staged current)) = none := by
    rw [removeFile_self, hustaged, hutick, htick']
    split
    · simpa
    · simpa
  constructor
  · rintro ⟨-, -, -, -, hend⟩ -
    obtain ⟨hk, hn⟩ := hend e rfl
    exact ⟨hkept.mp hk, hgone.mp hn⟩
  · intro hback
    obtain ⟨hr, hm⟩ := hback hfails
    exact ⟨trivial, trivial, trivial, trivial, fun _ _ => ⟨hkept.mpr hr, hgone.mpr hm⟩⟩

/-- The target always holds a whole binary where the old one is never moved away, and an
    error leaves nothing behind where the cleanup goes through. -/
theorem swap_safe_iff (env : Env) (newBin current : Text) (w : World) :
    (NeverTorn env newBin current w ↔ ¬ MovesOld env newBin current w) ∧
      (CleanOnError env newBin current w ↔ CleansUp env newBin current w) := by
  by_cases hcopy : Copies env newBin current w
  swap
  · obtain ⟨hnever, hclean⟩ := safe_of_ends (ends_of_not_copies hcopy)
    refine ⟨iff_of_true hnever fun h => hcopy h.1.1, hclean.trans ⟨fun h => ?_, fun h => ?_⟩⟩
    · exact ⟨fun _ => h, fun h => absurd h hcopy, fun h => absurd h.1 hcopy,
        fun h => absurd h.1.1 hcopy⟩
    · exact h.copy hcopy
  by_cases hstages : Stages env newBin current w
  swap
  · obtain ⟨hnever, hclean⟩ := safe_of_ends (ends_of_not_stages hcopy hstages)
    exact ⟨iff_of_true hnever fun h => hstages h.1,
      hclean.trans (iff_of_false id fun h => hstages (h.mode hcopy))⟩
  by_cases hmoves : MovesOld env newBin current w
  swap
  · obtain ⟨hnever, hclean⟩ := safe_of_ends (ends_of_not_moves hstages hmoves)
    refine ⟨iff_of_true hnever hmoves, hclean.trans ⟨fun h => ?_, fun h => ?_⟩⟩
    · exact ⟨fun h => absurd hcopy h, fun _ => hstages, fun _ _ => h, fun h => absurd h hmoves⟩
    · exact h.backup hstages hmoves
  refine ⟨iff_of_false (not_neverTorn hmoves) (not_not_intro hmoves),
    (cleanOnError_of_moves hmoves).trans ⟨fun h => ?_, fun h => ?_⟩⟩
  · exact ⟨fun h => absurd hcopy h, fun _ => hstages, fun _ h => absurd hmoves h, fun _ => h⟩
  · exact h.rollback hmoves

end

-- ============================================================================
-- A swap killed between its renames
-- ============================================================================

namespace Sample

def target : Text := "/opt/gn-drive".toList

def download : Text := "/tmp/gn-drive".toList

/-- No call fails. -/
def calm : Env where
  fails _ _ := none
  written _ := none
  respond _ _ _ := .error []
  stage _ _ := []
  tool _ _ _ files := (.ok (some 0), files)
  entries _ _ := []
  exe := target
  canonical _ _ := none

def installed : World where
  files p :=
    if p = target then some { data := [1], mode := 0o755 }
    else if p = download then some { data := [2], mode := 0o755 }
    else none
  printed := []
  tick := 0

end Sample

theorem swap_leaves_none :
    (Prog.crashAt (exec Sample.calm) 5 (atomicSwap Sample.download Sample.target).run
      Sample.installed).files Sample.target = none ∧
    ¬ NeverTorn Sample.calm Sample.download Sample.target Sample.installed := by
  have hnone : (Prog.crashAt (exec Sample.calm) 5 (atomicSwap Sample.download Sample.target).run
      Sample.installed).files Sample.target = none := by decide +kernel
  refine ⟨hnone, fun h => ?_⟩
  obtain hold | ⟨f, -, hf⟩ := h 5
  · rw [hnone] at hold
    revert hold
    decide
  · rw [hnone] at hf
    cases hf

end GnDrive.SelfUpdate
