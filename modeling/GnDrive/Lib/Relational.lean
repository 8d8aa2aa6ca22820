/-
  GnDrive.Lib.Relational

  Two runs of programs side by side.

  `Prog.Twice h P p p' Q` says that from any two worlds related by `P` the
  programs `p` and `p'` end in answers and worlds related by `Q`.  The rules
  follow the programs in lock step, so they serve for two runs of one program
  from worlds that differ in what the program does not look at.
-/

import GnDrive.Lib.Prog

namespace GnDrive.Prog

variable {C : Type} {R : C → Type} {W α α' β β' : Type}

/-- From worlds related by `P`, `p` and `p'` end as `Q` says. -/
def Twice (h : (c : C) → W → R c × W) (P : W → W → Prop) (p : Prog C R α) (p' : Prog C R α')
    (Q : α → α' → W → W → Prop) : Prop :=
  ∀ w w', P w w' → Q (run h p w).1 (run h p' w').1 (run h p w).2 (run h p' w').2

section Rules

variable {h : (c : C) → W → R c × W} {P P₁ : W → W → Prop}

theorem twice_pure {a : α} {a' : α'} {Q : α → α' → W → W → Prop}
    (hQ : ∀ w w', P w w' → Q a a' w w') :
    Twice h P (Pure.pure a) (Pure.pure a') Q := fun w w' hP => hQ w w' hP

theorem twice_bind {p : Prog C R α} {p' : Prog C R α'} {f : α → Prog C R β}
    {f' : α' → Prog C R β'} {Q : β → β' → W → W → Prop} {M : α → α' → W → W → Prop}
    (hp : Twice h P p p' M) (hf : ∀ a a', Twice h (M a a') (f a) (f' a') Q) :
    Twice h P (p >>= f) (p' >>= f') Q := by
  intro w w' hP
  have hM := hp w w' hP
  rw [bind_eq, bind_eq, run_bind, run_bind]
  exact hf _ _ _ _ hM

theorem twice_call {c : C} {Q : R c → R c → W → W → Prop}
    (hQ : ∀ w w', P w w' → Q (h c w).1 (h c w').1 (h c w).2 (h c w').2) :
    Twice h P (call c) (call c) Q := fun w w' hP => hQ w w' hP

theorem twice_mono {p : Prog C R α} {p' : Prog C R α'} {Q Q' : α → α' → W → W → Prop}
    (hP : ∀ w w', P₁ w w' → P w w') (hQ : ∀ a a' w w', Q a a' w w' → Q' a a' w w')
    (hp : Twice h P p p' Q) : Twice h P₁ p p' Q' :=
  fun w w' hw => hQ _ _ _ _ (hp w w' (hP w w' hw))

/-- Programs that can fail, in lock step: both succeed or both fail alike. -/
theorem twice_except_bind {ε : Type} {x x' : ExceptT ε (Prog C R) α}
    {f f' : α → ExceptT ε (Prog C R) β}
    {Q : Except ε β → Except ε β → W → W → Prop} {P₂ : W → W → Prop}
    (hx : Twice h P x.run x'.run fun r r' w w' => r = r' ∧ P₂ w w')
    (herr : ∀ e w w', P₂ w w' → Q (.error e) (.error e) w w')
    (hf : ∀ a, Twice h P₂ (f a).run (f' a).run Q) :
    Twice h P (x >>= f).run (x' >>= f').run Q := by
  refine twice_bind hx fun r r' => ?_
  rintro w w' ⟨rfl, hw⟩
  cases r with
  | ok a => exact hf a w w' hw
  | error e => exact herr e w w' hw

end Rules
end GnDrive.Prog
