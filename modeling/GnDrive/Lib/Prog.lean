/-
  GnDrive.Lib.Prog

  Programs that act on a world one command at a time, with a logic for what
  they leave behind when they are killed between two commands.

  A `Prog C R α` issues commands of type `C`; command `c` is answered by a
  value of type `R c`.  A handler `(c : C) → W → R c × W` gives the commands
  their meaning over a world `W`:

    * `Prog.run` executes a program to its end,
    * `Prog.crashAt n` is the world found when it is killed after `n` commands,
    * `Prog.wp I Q` is the weakest condition under which every world on the
      way, the first and the last included, satisfies `I` and the result
      satisfies `Q` (`wp_iff`).

  The rules `wp_bind`, `wp_pure`, `wp_mono` and `wp_except_bind` are all a
  development needs to walk through a program written in `do` notation, also
  when its steps can fail (`ExceptT`).
-/

namespace GnDrive

/-- A program issuing commands `c : C`, each answered by an `R c`. -/
inductive Prog (C : Type) (R : C → Type) (α : Type) : Type where
  | pure (a : α)
  | cmd (c : C) (k : R c → Prog C R α)

namespace Prog

variable {C : Type} {R : C → Type} {W α β : Type}

/-- Sequencing: graft `f` onto every leaf. -/
def bind : Prog C R α → (α → Prog C R β) → Prog C R β
  | .pure a, f => f a
  | .cmd c k, f => .cmd c fun r => (k r).bind f

instance : Monad (Prog C R) where
  pure := .pure
  bind := .bind

/-- The program that issues one command and returns its answer. -/
def call (c : C) : Prog C R (R c) := .cmd c .pure

theorem pure_eq (a : α) : (Pure.pure a : Prog C R α) = .pure a := rfl

theorem bind_eq (p : Prog C R α) (f : α → Prog C R β) : (p >>= f) = p.bind f := rfl

@[simp] theorem pure_bind (a : α) (f : α → Prog C R β) : (Prog.pure a).bind f = f a := rfl

@[simp] theorem cmd_bind (c : C) (k : R c → Prog C R α) (f : α → Prog C R β) :
    (Prog.cmd c k).bind f = .cmd c fun r => (k r).bind f := rfl

theorem bind_pure (p : Prog C R α) : p.bind .pure = p := by
  induction p with
  | pure a => rfl
  | cmd c k ih => exact congrArg (Prog.cmd c) (funext ih)

theorem bind_assoc {γ : Type} (p : Prog C R α) (f : α → Prog C R β) (g : β → Prog C R γ) :
    (p.bind f).bind g = p.bind fun a => (f a).bind g := by
  induction p with
  | pure a => rfl
  | cmd c k ih => exact congrArg (Prog.cmd c) (funext ih)

instance : LawfulMonad (Prog C R) :=
  LawfulMonad.mk' _ (fun p => bind_pure p) (fun _ _ => rfl) (fun p f g => bind_assoc p f g)

-- ============================================================================
-- Execution
-- ============================================================================

variable (h : (c : C) → W → R c × W)

/-- Execute a program to its end. -/
def run : Prog C R α → W → α × W
  | .pure a, w => (a, w)
  | .cmd c k, w => run (k (h c w).1) (h c w).2

/-- The world found when the program is killed after at most `n` commands. -/
def crashAt : Nat → Prog C R α → W → W
  | 0, _, w => w
  | _ + 1, .pure _, w => w
  | n + 1, .cmd c k, w => crashAt n (k (h c w).1) (h c w).2

@[simp] theorem run_pure (a : α) (w : W) : run h (.pure a : Prog C R α) w = (a, w) := rfl

@[simp] theorem run_bind (p : Prog C R α) (f : α → Prog C R β) (w : W) :
    run h (p.bind f) w = run h (f (run h p w).1) (run h p w).2 := by
  induction p generalizing w with
  | pure a => rfl
  | cmd c k ih => exact ih _ _

section

variable {h} {ε : Type} {x : ExceptT ε (Prog C R) α} {f : α → ExceptT ε (Prog C R) β} {w v : W}

/-- Sequencing of programs that can fail, where the first goes through. -/
theorem run_except_ok {a : α} (hx : run h x.run w = (.ok a, v)) :
    run h (x >>= f).run w = run h (f a).run v := by
  show run h (x.run.bind (ExceptT.bindCont f)) w = _
  rw [run_bind, hx]
  rfl

/-- Sequencing of programs that can fail, where the first does. -/
theorem run_except_error {e : ε} (hx : run h x.run w = (.error e, v)) :
    run h (x >>= f).run w = (.error e, v) := by
  show run h (x.run.bind (ExceptT.bindCont f)) w = _
  rw [run_bind, hx]
  rfl

end

@[simp] theorem crashAt_zero (p : Prog C R α) (w : W) : crashAt h 0 p w = w := by
  cases p <;> rfl

-- ============================================================================
-- Weakest preconditions with a crash condition
-- ============================================================================

/-- Every world on the way satisfies `I`, and the program ends in `Q`. -/
def wp (I : W → Prop) (Q : α → W → Prop) : Prog C R α → W → Prop
  | .pure a, w => I w ∧ Q a w
  | .cmd c k, w => I w ∧ wp I Q (k (h c w).1) (h c w).2

variable {h} {I J : W → Prop} {Q Q' : α → W → Prop}

/-- The crash condition holds before the first command. -/
theorem wp_inv {p : Prog C R α} {w : W} (hp : wp h I Q p w) : I w := by
  cases p with
  | pure a => exact hp.1
  | cmd c k => exact hp.1

theorem wp_pure {a : α} {w : W} (hI : I w) (hQ : Q a w) :
    wp h I Q (Pure.pure a : Prog C R α) w := ⟨hI, hQ⟩

/-- The first command, once its answer is known. -/
theorem wp_cmd {c : C} {k : R c → Prog C R α} {w v : W} {r : R c} (hc : h c w = (r, v)) :
    wp h I Q (.cmd c k) w ↔ I w ∧ wp h I Q (k r) v := by
  show I w ∧ wp h I Q (k (h c w).1) (h c w).2 ↔ _
  rw [hc]

theorem wp_call {c : C} {Q : R c → W → Prop} {w : W} (hI : I w)
    (hI' : I (h c w).2) (hQ : Q (h c w).1 (h c w).2) :
    wp h I Q (call c : Prog C R (R c)) w := ⟨hI, hI', hQ⟩

/-- Sequencing: the first part has to establish what the second needs. -/
theorem wp_bind {p : Prog C R α} {f : α → Prog C R β} {Q : β → W → Prop} {w : W}
    (hp : wp h I (fun a => wp h I Q (f a)) p w) : wp h I Q (p >>= f) w := by
  induction p generalizing w with
  | pure a => exact hp.2
  | cmd c k ih => exact ⟨hp.1, ih _ hp.2⟩

theorem wp_mono {p : Prog C R α} {w : W} (hI : ∀ w, I w → J w)
    (hQ : ∀ a w, I w → Q a w → Q' a w) (hp : wp h I Q p w) : wp h J Q' p w := by
  induction p generalizing w with
  | pure a => exact ⟨hI w hp.1, hQ a w hp.1 hp.2⟩
  | cmd c k ih => exact ⟨hI w hp.1, ih _ hp.2⟩

/-- Sequencing of programs that can fail: the continuation runs on success
    only, an error is handed through. -/
theorem wp_except_bind {ε : Type} {x : ExceptT ε (Prog C R) α}
    {f : α → ExceptT ε (Prog C R) β} {Q : Except ε β → W → Prop} {w : W}
    (hx : wp h I (fun r w => match r with
      | .ok a => wp h I Q (f a).run w
      | .error e => Q (.error e) w) x.run w) :
    wp h I Q (x >>= f).run w := by
  refine wp_bind (wp_mono (fun _ hi => hi) ?_ hx)
  intro r w' hi hr
  cases r with
  | ok a => exact hr
  | error e => exact ⟨hi, hr⟩

/-- `wp` says exactly that the crash condition holds after every number of
    commands and that the result is as wanted. -/
theorem wp_iff {p : Prog C R α} {w : W} :
    wp h I Q p w ↔ (∀ n, I (crashAt h n p w)) ∧ Q (run h p w).1 (run h p w).2 := by
  induction p generalizing w with
  | pure a =>
    constructor
    · rintro ⟨hI, hQ⟩
      refine ⟨fun n => ?_, hQ⟩
      cases n <;> exact hI
    · rintro ⟨hI, hQ⟩
      exact ⟨hI 0, hQ⟩
  | cmd c k ih =>
    constructor
    · rintro ⟨hI, hk⟩
      obtain ⟨hn, hQ⟩ := (ih _).mp hk
      refine ⟨fun n => ?_, hQ⟩
      cases n with
      | zero => exact hI
      | succ n => exact hn n
    · rintro ⟨hI, hQ⟩
      exact ⟨hI 0, (ih _).mpr ⟨fun n => hI (n + 1), hQ⟩⟩

theorem wp_crash {p : Prog C R α} {w : W} (hp : wp h I Q p w) (n : Nat) :
    I (crashAt h n p w) := (wp_iff.mp hp).1 n

theorem wp_run {p : Prog C R α} {w : W} (hp : wp h I Q p w) :
    Q (run h p w).1 (run h p w).2 := (wp_iff.mp hp).2

end Prog
end GnDrive
