/-
  GnDrive.Lib.System

  Guarded transition systems and what holds of all their runs.

  `step s a` is `some s'` when the step `a` can be taken in `s` and leads to
  `s'`.  Whatever the environment chooses (an interleaving, an answer, a
  crash point) is part of `a`, so a run is a list of steps.

  `ReachableIf ok` are the states reached by runs whose every step meets the
  condition `ok` on the state before it; `Reachable` are those of all runs.
  The induction rules `ReachableIf.invariant` and `Reachable.invariant` turn a
  step lemma into a statement about all runs.  An `Execution` is an endless
  run, and `Execution.eventually` its progress rule.
-/

namespace GnDrive

/-- A guarded transition system. -/
structure System (S A : Type) where
  init : S → Prop
  step : S → A → Option S

namespace System

variable {S A : Type} {sys : System S A} {ok : S → A → Prop}

/-- The states reached by runs all of whose steps meet `ok`. -/
inductive ReachableIf (sys : System S A) (ok : S → A → Prop) : S → Prop where
  | init {s : S} : sys.init s → ReachableIf sys ok s
  | step {s s' : S} {a : A} :
      ReachableIf sys ok s → ok s a → sys.step s a = some s' → ReachableIf sys ok s'

/-- The states reached by any run. -/
def Reachable (sys : System S A) : S → Prop := sys.ReachableIf fun _ _ => True

/-- A predicate that holds initially and that every step meeting the condition
    preserves holds in every state the conditioned runs reach. -/
theorem ReachableIf.invariant {P : S → Prop} (hinit : ∀ s, sys.init s → P s)
    (hstep : ∀ s a s', P s → ok s a → sys.step s a = some s' → P s')
    {s : S} (h : sys.ReachableIf ok s) : P s := by
  induction h with
  | init hi => exact hinit _ hi
  | step _ hok hs ih => exact hstep _ _ _ ih hok hs

/-- The same for all runs. -/
theorem Reachable.invariant {P : S → Prop} (hinit : ∀ s, sys.init s → P s)
    (hstep : ∀ s a s', P s → sys.step s a = some s' → P s')
    {s : S} (h : sys.Reachable s) : P s :=
  ReachableIf.invariant hinit (fun s a s' hp _ hs => hstep s a s' hp hs) h

/-- A weaker condition admits more runs. -/
theorem ReachableIf.mono {ok' : S → A → Prop} (hok : ∀ s a, ok s a → ok' s a)
    {s : S} (h : sys.ReachableIf ok s) : sys.ReachableIf ok' s := by
  induction h with
  | init hi => exact .init hi
  | step _ ho hs ih => exact .step ih (hok _ _ ho) hs

theorem ReachableIf.reachable {s : S} (h : sys.ReachableIf ok s) : sys.Reachable s :=
  h.mono fun _ _ _ => trivial

theorem Reachable.step {s s' : S} {a : A} (h : sys.Reachable s) (hs : sys.step s a = some s') :
    sys.Reachable s' := ReachableIf.step h trivial hs

/-- Simulation.  If `f` takes initial states to initial states, and every step
    meeting `ok` to a step meeting `ok'` or to no change, it takes what the
    conditioned runs reach to what the conditioned runs of the other system
    reach. -/
theorem ReachableIf.simulation {S' A' : Type} {sys' : System S' A'} {ok' : S' → A' → Prop}
    {f : S → S'} (hinit : ∀ s, sys.init s → sys'.init (f s))
    (hstep : ∀ s a s', ok s a → sys.step s a = some s' →
      f s' = f s ∨ ∃ a', ok' (f s) a' ∧ sys'.step (f s) a' = some (f s'))
    {s : S} (h : sys.ReachableIf ok s) : sys'.ReachableIf ok' (f s) := by
  induction h with
  | init hi => exact .init (hinit _ hi)
  | step _ hok hs ih =>
    rcases hstep _ _ _ hok hs with heq | ⟨a', hok', hs'⟩
    · rw [heq]
      exact ih
    · exact .step ih hok' hs'

-- ============================================================================
-- Replaying a list of steps
-- ============================================================================

/-- Take the steps of a list one after another. -/
def runFrom (sys : System S A) (s : S) : List A → Option S
  | [] => some s
  | a :: as => (sys.step s a).bind fun s' => sys.runFrom s' as

@[simp] theorem runFrom_nil (s : S) : sys.runFrom s [] = some s := rfl

@[simp] theorem runFrom_cons (s : S) (a : A) (as : List A) :
    sys.runFrom s (a :: as) = (sys.step s a).bind fun s' => sys.runFrom s' as := rfl

theorem runFrom_append (s : S) (as bs : List A) :
    sys.runFrom s (as ++ bs) = (sys.runFrom s as).bind fun s' => sys.runFrom s' bs := by
  induction as generalizing s with
  | nil => rfl
  | cons a as ih =>
    simp only [List.cons_append, runFrom_cons, ih, Option.bind_assoc]

/-- A replay that goes through ends in a reachable state. -/
theorem runFrom_reachable {s s' : S} {as : List A} (hs : sys.Reachable s)
    (h : sys.runFrom s as = some s') : sys.Reachable s' := by
  induction as generalizing s with
  | nil => exact Option.some.inj h ▸ hs
  | cons a as ih =>
    obtain ⟨s₁, h₁, h₂⟩ := Option.bind_eq_some_iff.mp h
    exact ih (hs.step h₁) h₂

/-- What no step of a replay changes. -/
theorem runFrom_frame {V : Type} {v : S → V} {s s' : S} {as : List A}
    (hframe : ∀ a ∈ as, ∀ t t', sys.step t a = some t' → v t' = v t)
    (h : sys.runFrom s as = some s') : v s' = v s := by
  induction as generalizing s with
  | nil => rw [← Option.some.inj h]
  | cons a as ih =>
    obtain ⟨s₁, h₁, h₂⟩ := Option.bind_eq_some_iff.mp h
    rw [ih (fun b hb => hframe b (List.mem_cons_of_mem _ hb)) h₂]
    exact hframe a List.mem_cons_self s s₁ h₁

/-- Replay, stopping at a step that does not meet the check. -/
def runIf (sys : System S A) (check : S → A → Bool) (s : S) : List A → Option S
  | [] => some s
  | a :: as => if check s a then (sys.step s a).bind fun s' => sys.runIf check s' as else none

theorem runIf_reachableIf {check : S → A → Bool} {s s' : S} {as : List A}
    (hs : sys.ReachableIf (fun s a => check s a = true) s) (h : sys.runIf check s as = some s') :
    sys.ReachableIf (fun s a => check s a = true) s' := by
  induction as generalizing s with
  | nil => exact Option.some.inj h ▸ hs
  | cons a as ih =>
    simp only [runIf] at h
    split at h
    · rename_i hc
      obtain ⟨s₁, h₁, h₂⟩ := Option.bind_eq_some_iff.mp h
      exact ih (.step hs hc h₁) h₂
    · cases h

theorem runFrom_of_runIf {check : S → A → Bool} {s s' : S} {as : List A}
    (h : sys.runIf check s as = some s') : sys.runFrom s as = some s' := by
  induction as generalizing s with
  | nil => exact h
  | cons a as ih =>
    simp only [runIf] at h
    split at h
    · obtain ⟨s₁, h₁, h₂⟩ := Option.bind_eq_some_iff.mp h
      exact Option.bind_eq_some_iff.mpr ⟨s₁, h₁, ih h₂⟩
    · cases h

/-- Every step of a replay meets `ok`. -/
def Meets (sys : System S A) (ok : S → A → Prop) (s : S) : List A → Prop
  | [] => True
  | a :: as => ok s a ∧ ∀ s', sys.step s a = some s' → sys.Meets ok s' as

theorem Meets.cons {s s' : S} {a : A} {as : List A} (h : ok s a) (hs : sys.step s a = some s')
    (hm : sys.Meets ok s' as) : sys.Meets ok s (a :: as) :=
  ⟨h, fun _ hs' => Option.some.inj (hs.symm.trans hs') ▸ hm⟩

theorem Meets.of_append {s : S} {as bs : List A} (h : sys.Meets ok s (as ++ bs)) :
    sys.Meets ok s as := by
  induction as generalizing s with
  | nil => trivial
  | cons a as ih => exact ⟨h.1, fun s' hs => ih (h.2 s' hs)⟩

/-- A replay whose steps meet `ok` ends in a state such runs reach. -/
theorem runFrom_reachableIf {s s' : S} {as : List A} (hs : sys.ReachableIf ok s)
    (hm : sys.Meets ok s as) (h : sys.runFrom s as = some s') : sys.ReachableIf ok s' := by
  induction as generalizing s with
  | nil => exact Option.some.inj h ▸ hs
  | cons a as ih =>
    obtain ⟨s₁, h₁, h₂⟩ := Option.bind_eq_some_iff.mp h
    exact ih (.step hs hm.1 h₁) (hm.2 s₁ h₁) h₂

/-- If a step keeps `P` exactly when it meets `ok`, and nothing restores `P`,
    then a replay keeps `P` exactly when all of its steps meet `ok`. -/
theorem runFrom_iff_meets {I P : S → Prop}
    (hI : ∀ s a s', I s → sys.step s a = some s' → I s')
    (hstep : ∀ s a s', I s → sys.step s a = some s' → (P s' ↔ P s ∧ ok s a))
    {s s' : S} {as : List A} (hs : I s) (h : sys.runFrom s as = some s') :
    P s' ↔ P s ∧ sys.Meets ok s as := by
  induction as generalizing s with
  | nil =>
    obtain rfl := Option.some.inj h
    simp [Meets]
  | cons a as ih =>
    obtain ⟨s₁, h₁, h₂⟩ := Option.bind_eq_some_iff.mp h
    rw [ih (hI s a s₁ hs h₁) h₂, hstep s a s₁ hs h₁]
    constructor
    · rintro ⟨⟨hp, ho⟩, hm⟩
      refine ⟨hp, ho, fun s₂ h₂ => ?_⟩
      rwa [Option.some.inj (h₂.symm.trans h₁)]
    · rintro ⟨hp, ho, hm⟩
      exact ⟨⟨hp, ho⟩, hm s₁ h₁⟩

/-- `P` holds before and after every step of a replay. -/
def Always (sys : System S A) (P : S → Prop) (s : S) : List A → Prop
  | [] => P s
  | a :: as => P s ∧ ∀ s', sys.step s a = some s' → sys.Always P s' as

/-- If a step from `P` keeps it exactly when the step meets `ok`, then `P` holds all along a
    replay exactly when all of its steps meet `ok`. -/
theorem always_iff_meets {I P : S → Prop}
    (hI : ∀ s a s', I s → sys.step s a = some s' → I s')
    (hstep : ∀ s a s', I s → P s → sys.step s a = some s' → (P s' ↔ ok s a))
    (hstop : ∀ s a, sys.step s a ≠ none)
    {s : S} (hs : I s) (hP : P s) (as : List A) : sys.Always P s as ↔ sys.Meets ok s as := by
  induction as generalizing s with
  | nil => exact iff_of_true hP trivial
  | cons a as ih =>
    obtain ⟨s₁, h₁⟩ := Option.ne_none_iff_exists'.mp (hstop s a)
    have hkeep := hstep s a s₁ hs hP h₁
    constructor
    · rintro ⟨-, hall⟩
      have hrest := hall s₁ h₁
      have hP₁ : P s₁ := by
        cases as with
        | nil => exact hrest
        | cons b as => exact hrest.1
      exact .cons (hkeep.mp hP₁) h₁ ((ih (hI s a s₁ hs h₁) hP₁).mp hrest)
    · rintro ⟨hok, hm⟩
      refine ⟨hP, fun s₂ h₂ => ?_⟩
      obtain rfl := Option.some.inj (h₁.symm.trans h₂)
      exact (ih (hI s a s₁ hs h₁) (hkeep.mpr hok)).mpr (hm s₁ h₁)

theorem Always.last {P : S → Prop} {s s' : S} {as : List A} (h : sys.Always P s as)
    (hrun : sys.runFrom s as = some s') : P s' := by
  induction as generalizing s with
  | nil => exact Option.some.inj hrun ▸ h
  | cons a as ih =>
    obtain ⟨s₁, h₁, h₂⟩ := Option.bind_eq_some_iff.mp hrun
    exact ih (h.2 s₁ h₁) h₂

/-- What every step keeps holds all along. -/
theorem always_of_step {P : S → Prop} (hstep : ∀ s a s', P s → sys.step s a = some s' → P s')
    {s : S} (hs : P s) (as : List A) : sys.Always P s as := by
  induction as generalizing s with
  | nil => exact hs
  | cons a as ih => exact ⟨hs, fun s' h => ih (hstep s a s' hs h)⟩

/-- Every step meets what follows from an invariant. -/
theorem meets_of_step {I : S → Prop} (hI : ∀ s a s', I s → sys.step s a = some s' → I s')
    (hok : ∀ s a, I s → ok s a) {s : S} (hs : I s) (as : List A) : sys.Meets ok s as := by
  induction as generalizing s with
  | nil => trivial
  | cons a as ih => exact ⟨hok s a hs, fun s' h => ih (hI s a s' hs h)⟩

/-- What all runs from `s` keep may be used to compare two conditions on their steps. -/
theorem meets_congr {I : S → Prop} {ok' : S → A → Prop}
    (hI : ∀ s a s', I s → sys.step s a = some s' → I s')
    (hok : ∀ s a, I s → (ok s a ↔ ok' s a)) {s : S} (hs : I s) (as : List A) :
    sys.Meets ok s as ↔ sys.Meets ok' s as := by
  induction as generalizing s with
  | nil => exact Iff.rfl
  | cons a as ih =>
    exact and_congr (hok s a hs) (forall_congr' fun s' => forall_congr' fun h =>
      ih (hI s a s' hs h))

-- ============================================================================
-- Endless runs
-- ============================================================================

/-- An endless run whose steps meet `ok`. -/
structure Execution (sys : System S A) (ok : S → A → Prop) where
  state : Nat → S
  act : Nat → A
  init : sys.init (state 0)
  meets : ∀ n, ok (state n) (act n)
  next : ∀ n, sys.step (state n) (act n) = some (state (n + 1))

namespace Execution

variable (x : sys.Execution ok)

theorem reachable (n : Nat) : sys.ReachableIf ok (x.state n) := by
  induction n with
  | zero => exact .init x.init
  | succ n ih => exact .step ih (x.meets n) (x.next n)

/-- Turns of the kind `turn` come again and again. -/
def Fair (turn : A → Prop) : Prop := ∀ n, ∃ m, n ≤ m ∧ turn (x.act m)

/-- What only turns can end lasts until the next one. -/
theorem turn_comes {turn : A → Prop} {P : S → Prop} (hfair : x.Fair turn)
    (hkeep : ∀ s a s', sys.ReachableIf ok s → P s → ¬ turn a → ok s a → sys.step s a = some s' →
      P s')
    {n : Nat} (hP : P (x.state n)) : ∃ m, n ≤ m ∧ turn (x.act m) ∧ P (x.state m) := by
  obtain ⟨m, hnm, hm⟩ := hfair n
  obtain ⟨d, rfl⟩ := Nat.exists_eq_add_of_le hnm
  clear hnm
  induction d generalizing n with
  | zero => exact ⟨n, Nat.le_refl n, hm, hP⟩
  | succ d ih =>
    by_cases hturn : turn (x.act n)
    · exact ⟨n, Nat.le_refl n, hturn, hP⟩
    · have hnext := hkeep _ _ _ (x.reachable n) hP hturn (x.meets n) (x.next n)
      obtain ⟨k, hk, hturn', hP'⟩ := ih hnext (by rwa [Nat.succ_add_eq_add_succ])
      exact ⟨k, by omega, hturn', hP'⟩

/-- Progress rule.  As long as the goal is not reached, no step brings the
    measure up and every turn brings it down; then the goal is reached. -/
theorem eventually {turn : A → Prop} {P G : S → Prop} (measure : S → Nat)
    (hfair : x.Fair turn)
    (hkeep : ∀ s a s', sys.ReachableIf ok s → P s → ok s a → sys.step s a = some s' →
      G s' ∨ P s' ∧ measure s' ≤ measure s)
    (hturn : ∀ s a s', sys.ReachableIf ok s → P s → turn a → sys.step s a = some s' →
      G s' ∨ measure s' < measure s)
    {n : Nat} (hP : P (x.state n)) : ∃ m, n ≤ m ∧ G (x.state m) := by
  -- by strong induction on the measure, which the next turn brings down
  generalize hk : measure (x.state n) = k
  induction k using Nat.strongRecOn generalizing n with
  | ind k ih =>
    obtain ⟨m, hnm, hm⟩ := hfair n
    -- up to that turn the measure has not grown
    have hbefore : ∀ d, (∃ j, n ≤ j ∧ G (x.state j)) ∨
        P (x.state (n + d)) ∧ measure (x.state (n + d)) ≤ k := by
      intro d
      induction d with
      | zero => exact .inr ⟨hP, Nat.le_of_eq hk⟩
      | succ d ihd =>
        rcases ihd with hgoal | ⟨hPd, hle⟩
        · exact .inl hgoal
        · rcases hkeep _ _ _ (x.reachable _) hPd (x.meets _) (x.next _) with hgoal | ⟨hP', hle'⟩
          · exact .inl ⟨n + d + 1, by omega, hgoal⟩
          · exact .inr ⟨hP', Nat.le_trans hle' hle⟩
    obtain ⟨d, rfl⟩ := Nat.exists_eq_add_of_le hnm
    rcases hbefore d with hgoal | ⟨hPd, hle⟩
    · exact hgoal
    · rcases hturn _ _ _ (x.reachable _) hPd hm (x.next _) with hgoal | hlt
      · exact ⟨n + d + 1, by omega, hgoal⟩
      · rcases hkeep _ _ _ (x.reachable _) hPd (x.meets _) (x.next _) with hgoal | ⟨hP', -⟩
        · exact ⟨n + d + 1, by omega, hgoal⟩
        · obtain ⟨j, hj, hgoal⟩ := ih _ (Nat.lt_of_lt_of_le hlt hle) hP' rfl
          exact ⟨j, by omega, hgoal⟩

end Execution

theorem meets_of_runIf {check : S → A → Bool} (hok : ∀ s a, check s a = true → ok s a)
    {s s' : S} {as : List A} (h : sys.runIf check s as = some s') : sys.Meets ok s as := by
  induction as generalizing s with
  | nil => trivial
  | cons a as ih =>
    simp only [runIf] at h
    split at h
    · rename_i hc
      obtain ⟨s₁, h₁, h₂⟩ := Option.bind_eq_some_iff.mp h
      refine ⟨hok s a hc, fun s₂ h₂' => ?_⟩
      obtain rfl := Option.some.inj (h₁.symm.trans h₂')
      exact ih h₂
    · cases h

/-- A replay whose steps meet `ok`, followed by `idle` for ever. -/
theorem exists_execution {idle : A} (hidle : ∀ s, ok s idle ∧ (sys.step s idle).isSome)
    {s s' : S} {as : List A} (hinit : sys.init s) (hm : sys.Meets ok s as)
    (h : sys.runFrom s as = some s') :
    ∃ x : sys.Execution ok, x.state as.length = s' ∧ ∀ n, as.length ≤ n → x.act n = idle := by
  -- the states and actions from `s` on, without the condition on the first state
  have hpath : ∃ (σ : Nat → S) (α : Nat → A), σ 0 = s ∧ σ as.length = s' ∧
      (∀ n, as.length ≤ n → α n = idle) ∧
      ∀ n, ok (σ n) (α n) ∧ sys.step (σ n) (α n) = some (σ (n + 1)) := by
    clear hinit
    induction as generalizing s with
    | nil =>
      obtain rfl := Option.some.inj h
      let σ : Nat → S := fun n => Nat.rec s (fun _ t => (sys.step t idle).getD t) n
      refine ⟨σ, fun _ => idle, rfl, rfl, fun _ _ => rfl, fun n => ⟨(hidle _).1, ?_⟩⟩
      obtain ⟨t, ht⟩ := Option.isSome_iff_exists.mp (hidle (σ n)).2
      show sys.step (σ n) idle = some ((sys.step (σ n) idle).getD (σ n))
      rw [ht]
      rfl
    | cons a as ih =>
      obtain ⟨s₁, h₁, h₂⟩ := Option.bind_eq_some_iff.mp h
      obtain ⟨σ, α, h0, hlast, hact, hnext⟩ := ih (hm.2 s₁ h₁) h₂
      refine ⟨fun n => Nat.casesOn n s σ, fun n => Nat.casesOn n a α, rfl, hlast, ?_, ?_⟩
      · intro n hn
        cases n with
        | zero => simp at hn
        | succ n => exact hact n (by simpa using hn)
      · intro n
        cases n with
        | zero =>
          refine ⟨hm.1, ?_⟩
          show sys.step s a = some (σ 0)
          rw [h₁, h0]
        | succ n => exact hnext n
  obtain ⟨σ, α, h0, hlast, hact, hnext⟩ := hpath
  exact ⟨⟨σ, α, h0 ▸ hinit, fun n => (hnext n).1, fun n => (hnext n).2⟩, hlast, hact⟩

end System
end GnDrive
