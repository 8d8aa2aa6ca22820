/-
  GnDrive.Lib.Cut

  A list cut at the first or at the last element of a kind.

  `cutFirst_eq_some` and `cutLast_eq_some` say which cut is meant: on the one side of it
  there is no other element of the kind.
-/

import Mathlib.Data.List.Basic

namespace GnDrive

variable {α : Type} {p : α → Bool} {l a b : List α} {c : α}

/-- What is before the first element of the kind, that element, and what is after it. -/
def cutFirst (p : α → Bool) : List α → Option (List α × α × List α)
  | [] => none
  | c :: l => if p c then some ([], c, l) else (cutFirst p l).map fun (a, d, b) => (c :: a, d, b)

/-- The same for the last. -/
def cutLast (p : α → Bool) : List α → Option (List α × α × List α)
  | [] => none
  | c :: l =>
      match cutLast p l with
      | some (a, d, b) => some (c :: a, d, b)
      | none => if p c then some ([], c, l) else none

theorem cutFirst_eq_none : cutFirst p l = none ↔ ∀ x ∈ l, p x = false := by
  induction l with
  | nil => exact iff_of_true rfl (List.forall_mem_nil _)
  | cons d l ih =>
    rw [cutFirst, List.forall_mem_cons]
    cases hp : p d with
    | true => exact iff_of_false (by simp) (fun h => nomatch h.1)
    | false =>
      rw [if_neg Bool.false_ne_true, Option.map_eq_none_iff, ih]
      exact (and_iff_right rfl).symm

theorem cutFirst_eq_some :
    cutFirst p l = some (a, c, b) ↔ l = a ++ c :: b ∧ p c = true ∧ ∀ x ∈ a, p x = false := by
  induction l generalizing a with
  | nil => exact iff_of_false (by simp [cutFirst]) (by simp)
  | cons d l ih =>
    rw [cutFirst]
    cases hp : p d with
    | true =>
      rw [if_pos rfl]
      constructor
      · intro h
        obtain ⟨rfl, rfl, rfl⟩ : [] = a ∧ d = c ∧ l = b := by simpa using h
        exact ⟨rfl, hp, List.forall_mem_nil _⟩
      · rintro ⟨h, hc, ha⟩
        cases a with
        | nil =>
          obtain ⟨rfl, rfl⟩ := List.cons.inj h
          rfl
        | cons e a =>
          obtain ⟨rfl, -⟩ := List.cons.inj h
          rw [ha d List.mem_cons_self] at hp
          cases hp
    | false =>
      rw [if_neg Bool.false_ne_true, Option.map_eq_some_iff]
      constructor
      · rintro ⟨⟨a', c', b'⟩, hcut, h⟩
        obtain ⟨rfl, rfl, rfl⟩ : d :: a' = a ∧ c' = c ∧ b' = b := by simpa using h
        obtain ⟨rfl, hc, ha⟩ := ih.mp hcut
        exact ⟨rfl, hc, List.forall_mem_cons.mpr ⟨hp, ha⟩⟩
      · rintro ⟨h, hc, ha⟩
        cases a with
        | nil =>
          obtain ⟨rfl, -⟩ := List.cons.inj h
          rw [hc] at hp
          cases hp
        | cons e a =>
          obtain ⟨rfl, rfl⟩ := List.cons.inj h
          exact ⟨_, ih.mpr ⟨rfl, hc, (List.forall_mem_cons.mp ha).2⟩, rfl⟩

theorem cutLast_eq_none : cutLast p l = none ↔ ∀ x ∈ l, p x = false := by
  induction l with
  | nil => exact iff_of_true rfl (List.forall_mem_nil _)
  | cons d l ih =>
    rw [cutLast, List.forall_mem_cons]
    cases hcut : cutLast p l with
    | some cut =>
      rw [hcut] at ih
      exact iff_of_false (by simp) (fun h => nomatch ih.mpr h.2)
    | none =>
      rw [hcut] at ih
      cases hp : p d with
      | true => exact iff_of_false (by simp) (fun h => nomatch h.1)
      | false => exact iff_of_true rfl ⟨rfl, ih.mp rfl⟩

theorem cutLast_eq_some :
    cutLast p l = some (a, c, b) ↔ l = a ++ c :: b ∧ p c = true ∧ ∀ x ∈ b, p x = false := by
  induction l generalizing a with
  | nil => exact iff_of_false (by simp [cutLast]) (by simp)
  | cons d l ih =>
    rw [cutLast]
    cases hcut : cutLast p l with
    | some cut =>
      obtain ⟨a', c', b'⟩ := cut
      constructor
      · intro h
        obtain ⟨rfl, rfl, rfl⟩ : d :: a' = a ∧ c' = c ∧ b' = b := by simpa using h
        obtain ⟨hl, hc, hb⟩ := ih.mp hcut
        exact ⟨congrArg (d :: ·) hl, hc, hb⟩
      · rintro ⟨h, hc, hb⟩
        cases a with
        | nil =>
          obtain ⟨rfl, rfl⟩ := List.cons.inj h
          rw [cutLast_eq_none.mpr hb] at hcut
          cases hcut
        | cons e a =>
          obtain ⟨rfl, hl⟩ := List.cons.inj h
          obtain ⟨rfl, rfl, rfl⟩ : a' = a ∧ c' = c ∧ b' = b := by
            simpa using hcut.symm.trans (ih.mpr ⟨hl, hc, hb⟩)
          rfl
    | none =>
      have hnone := cutLast_eq_none.mp hcut
      constructor
      · intro h
        cases hp : p d with
        | true =>
          rw [hp] at h
          obtain ⟨rfl, rfl, rfl⟩ : [] = a ∧ d = c ∧ l = b := by simpa using h
          exact ⟨rfl, hp, hnone⟩
        | false =>
          rw [hp] at h
          cases h
      · rintro ⟨h, hc, -⟩
        cases a with
        | nil =>
          obtain ⟨rfl, rfl⟩ := List.cons.inj h
          exact if_pos hc
        | cons e a =>
          obtain ⟨rfl, rfl⟩ := List.cons.inj h
          rw [hnone c (List.mem_append_right _ List.mem_cons_self)] at hc
          cases hc

end GnDrive
