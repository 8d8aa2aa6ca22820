/-
  GnDrive.Lib.Scan

  Scanners that go through a text once and replace what a matcher finds.

  A matcher looks at the front of a text.  A match keeps a part of it, drops a
  part behind that, for which a mask is written, and goes on after it; without a
  match one element is copied.  `Walk` is the judgement that the scanner gets
  over a part of the text: from `t ++ rest` it comes to `rest`, and writes `out`.

  `Conceals` is a condition under which a list of scanners, one after another,
  gives the same for two texts that differ in one place: one of the scanners
  drops that place whole, and those before it do not match across its borders.
-/

import Mathlib.Data.List.Basic

namespace GnDrive.Scan

variable {α : Type}

/-- A match is what is kept of the front of the text, and the text after it. -/
structure Matcher (α : Type) where
  find : List α → Option (List α × List α)
  shorter : ∀ t kept rest, find t = some (kept, rest) → rest.length < t.length

namespace Matcher

variable (m : Matcher α) (mask : List α)

/-- The loop of `replaceAll`, with a bound on the steps left. -/
def replaceFrom : Nat → List α → List α
  | 0, t => t
  | _ + 1, [] => []
  | n + 1, c :: t =>
      match m.find (c :: t) with
      | some (kept, rest) => kept ++ mask ++ replaceFrom n rest
      | none => c :: replaceFrom n t

def replaceAll (t : List α) : List α := m.replaceFrom mask t.length t

theorem find_nil : m.find [] = none := by
  cases h : m.find [] with
  | none => rfl
  | some r => exact absurd (m.shorter [] r.1 r.2 h) (Nat.not_lt_zero _)

/-- More steps than elements change nothing. -/
theorem replaceFrom_eq {n : Nat} {t : List α} (h : t.length ≤ n) :
    m.replaceFrom mask n t = m.replaceAll mask t := by
  unfold replaceAll
  -- by strong induction on the length, for any two bounds
  have hboth : ∀ k l t, t.length ≤ k → t.length ≤ l →
      m.replaceFrom mask k t = m.replaceFrom mask l t := by
    intro k
    induction k with
    | zero =>
      intro l t hk _
      obtain rfl := List.eq_nil_of_length_eq_zero (Nat.le_zero.mp hk)
      cases l <;> rfl
    | succ k ih =>
      intro l t hk hl
      cases t with
      | nil => cases l <;> rfl
      | cons c t =>
        cases l with
        | zero => simp at hl
        | succ l =>
          simp only [List.length_cons] at hk hl
          simp only [replaceFrom]
          cases hm : m.find (c :: t) with
          | none => rw [ih l t (by omega) (by omega)]
          | some r =>
            have hlt := m.shorter _ r.1 r.2 hm
            simp only [List.length_cons] at hlt
            simp only
            rw [ih l r.2 (by omega) (by omega)]
  exact hboth n t.length t h (Nat.le_refl _)

@[simp] theorem replaceAll_nil : m.replaceAll mask [] = [] := rfl

theorem replaceAll_copy {c : α} {t : List α} (h : m.find (c :: t) = none) :
    m.replaceAll mask (c :: t) = c :: m.replaceAll mask t := by
  show m.replaceFrom mask (t.length + 1) (c :: t) = _
  simp only [replaceFrom, h]
  rfl

theorem replaceAll_match {t kept rest : List α} (h : m.find t = some (kept, rest)) :
    m.replaceAll mask t = kept ++ mask ++ m.replaceAll mask rest := by
  cases t with
  | nil =>
    rw [find_nil] at h
    cases h
  | cons c t =>
    have hlt := m.shorter _ _ _ h
    simp only [List.length_cons] at hlt
    show m.replaceFrom mask (t.length + 1) (c :: t) = _
    simp only [replaceFrom, h]
    rw [m.replaceFrom_eq mask (by omega)]

end Matcher

-- ============================================================================
-- Getting over a part of a text
-- ============================================================================

/-- From `t ++ rest` the scanner comes to `rest`, and writes `out`. -/
inductive Walk (m : Matcher α) (mask rest : List α) : List α → List α → Prop where
  | done : Walk m mask rest [] []
  | copy {c : α} {t out : List α} : m.find (c :: (t ++ rest)) = none →
      Walk m mask rest t out → Walk m mask rest (c :: t) (c :: out)
  | drop {t t' kept out : List α} : m.find (t ++ rest) = some (kept, t' ++ rest) →
      Walk m mask rest t' out → Walk m mask rest t (kept ++ mask ++ out)

section

variable {m : Matcher α} {mask rest t out : List α}

theorem replaceAll_append (h : Walk m mask rest t out) :
    m.replaceAll mask (t ++ rest) = out ++ m.replaceAll mask rest := by
  induction h with
  | done => rfl
  | copy hnone _ ih =>
    rw [List.cons_append, m.replaceAll_copy mask hnone, ih]
    rfl
  | drop hmatch _ ih =>
    rw [m.replaceAll_match mask hmatch, ih, List.append_assoc, List.append_assoc,
      List.append_assoc]

end

-- ============================================================================
-- A place that is dropped whole
-- ============================================================================

section

variable {ms : List (Matcher α)} {m : Matcher α} {mask before after v₁ v₂ : List α}

/-- The scanner comes to a match that begins before the place, keeps nothing of
    it, and ends behind it, for either of two texts there. -/
def Drops (m : Matcher α) (mask before v₁ v₂ after : List α) : Prop :=
  ∃ x y kept out after', before = x ++ y ∧
    ∀ v, v = v₁ ∨ v = v₂ →
      Walk m mask (y ++ v ++ after) x out ∧ m.find (y ++ v ++ after) = some (kept, after')

/-- The scanner comes to the place and to its end; what it writes for the place
    is `v'`. -/
def Passes (m : Matcher α) (mask before v after before' v' : List α) : Prop :=
  Walk m mask (v ++ after) before before' ∧ Walk m mask after v v'

theorem Drops.eq (h : Drops m mask before v₁ v₂ after) :
    m.replaceAll mask (before ++ v₁ ++ after) = m.replaceAll mask (before ++ v₂ ++ after) := by
  obtain ⟨x, y, kept, out, after', rfl, hv⟩ := h
  have hout : ∀ v, v = v₁ ∨ v = v₂ → m.replaceAll mask (x ++ y ++ v ++ after) =
      out ++ (kept ++ mask ++ m.replaceAll mask after') := by
    intro v hor
    obtain ⟨hscan, hmatch⟩ := hv v hor
    rw [show x ++ y ++ v ++ after = x ++ (y ++ v ++ after) by simp, replaceAll_append hscan,
      m.replaceAll_match mask hmatch]
  rw [hout v₁ (.inl rfl), hout v₂ (.inr rfl)]

theorem Passes.eq {v before' v' : List α} (h : Passes m mask before v after before' v') :
    m.replaceAll mask (before ++ v ++ after) = before' ++ v' ++ m.replaceAll mask after := by
  rw [List.append_assoc, replaceAll_append h.1, replaceAll_append h.2, List.append_assoc]

/-- One scanner after another. -/
def replaceAlls (mask : List α) (ms : List (Matcher α)) (t : List α) : List α :=
  ms.foldl (fun t m => m.replaceAll mask t) t

/-- A scanner drops the two texts, or it passes them, what it writes before them
    is the same, and the next ones conceal what it writes for them. -/
def Conceals (mask : List α) : List (Matcher α) → List α → List α → List α → List α → Prop
  | [], _, v₁, v₂, _ => v₁ = v₂
  | m :: ms, before, v₁, v₂, after =>
      Drops m mask before v₁ v₂ after ∨
        ∃ before' v₁' v₂', Passes m mask before v₁ after before' v₁' ∧
          Passes m mask before v₂ after before' v₂' ∧
          Conceals mask ms before' v₁' v₂' (m.replaceAll mask after)

/-- What is concealed does not show in what comes out. -/
theorem replaceAlls_eq (h : Conceals mask ms before v₁ v₂ after) :
    replaceAlls mask ms (before ++ v₁ ++ after) =
      replaceAlls mask ms (before ++ v₂ ++ after) := by
  induction ms generalizing before v₁ v₂ after with
  | nil =>
    obtain rfl : v₁ = v₂ := h
    rfl
  | cons m ms ih =>
    show replaceAlls mask ms (m.replaceAll mask _) = replaceAlls mask ms (m.replaceAll mask _)
    rcases h with hdrops | ⟨before', v₁', v₂', hp₁, hp₂, hrest⟩
    · rw [hdrops.eq]
    · rw [hp₁.eq, hp₂.eq]
      exact ih hrest

/-- No match of a scanner begins or ends inside the place, unless an earlier one
    has dropped it. -/
def Unsplit (mask : List α) : List (Matcher α) → List α → List α → List α → List α → Prop
  | [], _, _, _, _ => True
  | m :: ms, before, v₁, v₂, after =>
      Drops m mask before v₁ v₂ after ∨
        ∃ before' v₁' v₂', Passes m mask before v₁ after before' v₁' ∧
          Passes m mask before v₂ after before' v₂' ∧
          Unsplit mask ms before' v₁' v₂' (m.replaceAll mask after)

/-- Then it is concealed exactly when it does not show. -/
theorem replaceAlls_eq_iff (h : Unsplit mask ms before v₁ v₂ after) :
    replaceAlls mask ms (before ++ v₁ ++ after) = replaceAlls mask ms (before ++ v₂ ++ after) ↔
      Conceals mask ms before v₁ v₂ after := by
  refine ⟨fun heq => ?_, replaceAlls_eq⟩
  induction ms generalizing before v₁ v₂ after with
  | nil =>
    show v₁ = v₂
    have heq' : before ++ v₁ ++ after = before ++ v₂ ++ after := heq
    exact List.append_cancel_left (List.append_cancel_right heq')
  | cons m ms ih =>
    rcases h with hdrops | ⟨before', v₁', v₂', hp₁, hp₂, hrest⟩
    · exact .inl hdrops
    · have heq' : replaceAlls mask ms (m.replaceAll mask (before ++ v₁ ++ after)) =
          replaceAlls mask ms (m.replaceAll mask (before ++ v₂ ++ after)) := heq
      rw [hp₁.eq, hp₂.eq] at heq'
      exact .inr ⟨before', v₁', v₂', hp₁, hp₂, ih hrest heq'⟩

end

end GnDrive.Scan
