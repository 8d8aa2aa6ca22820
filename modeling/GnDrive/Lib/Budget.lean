/-
  GnDrive.Lib.Budget

  A budget that some of the steps of a system use up: the others leave it alone or
  lower it, and a run takes no more of those steps than the budget has.
-/

import GnDrive.Lib.System

namespace GnDrive.System

variable {S A : Type} {sys : System S A}

/-- What a run has used up and what is left. -/
theorem runFrom_budget (turn : A → Bool) (budget : S → Nat)
    (hturn : ∀ s a s', sys.step s a = some s' → turn a = true → budget s' < budget s)
    (hother : ∀ s a s', sys.step s a = some s' → turn a = false → budget s' ≤ budget s)
    {s s' : S} {as : List A} (h : sys.runFrom s as = some s') :
    as.countP turn + budget s' ≤ budget s := by
  induction as generalizing s with
  | nil =>
    rw [← Option.some.inj h]
    simp
  | cons a as ih =>
    obtain ⟨s₁, h₁, h₂⟩ := Option.bind_eq_some_iff.mp h
    have hrest := ih h₂
    rw [List.countP_cons]
    cases ht : turn a with
    | true =>
      have := hturn s a s₁ h₁ ht
      simp only [if_true]
      omega
    | false =>
      have := hother s a s₁ h₁ ht
      simp only [Bool.false_eq_true, if_false]
      omega

/-- What a step of the run keeps, the run keeps. -/
theorem runFrom_keeps {P : S → Prop} (hstep : ∀ s a s', P s → sys.step s a = some s' → P s')
    {s s' : S} {as : List A} (hs : P s) (h : sys.runFrom s as = some s') : P s' := by
  induction as generalizing s with
  | nil => exact Option.some.inj h ▸ hs
  | cons a as ih =>
    obtain ⟨s₁, h₁, h₂⟩ := Option.bind_eq_some_iff.mp h
    exact ih (hstep s a s₁ hs h₁) h₂

end GnDrive.System
