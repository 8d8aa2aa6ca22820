/-
  GnDrive.SelfUpdate.Version

  Versions (`self_update.rs`) and the comparison `is_newer`.

  A version stands for the sequence of its numbers, with zeros after the last one.
  The loop of `is_newer` decides at the first number that differs, which is the
  lexicographic order of the sequences (`isNewer_iff`).
-/

import GnDrive.Lib.Text
import Mathlib

namespace GnDrive.SelfUpdate

open Text (trim)

def trimV (tag : Text) : Text :=
  match tag with
  | 'v' :: rest => rest
  | _ => tag

/-- `str::parse::<u64>`. -/
def parseU64 (s : Text) : Option Nat :=
  let digits := match s with
    | '+' :: rest => rest
    | _ => s
  if digits ≠ [] ∧ digits.all Char.isDigit then
    let n := digits.foldl (fun n c => n * 10 + (c.toNat - '0'.toNat)) 0
    if n < 2 ^ 64 then some n else none
  else none

def parts (v : Text) : List Nat :=
  let core := (trimV (trim v)).takeWhile fun c => c ≠ '-' && c ≠ '+'
  (core.splitOn '.').map fun p => (parseU64 p).getD 0

/-- Numeric dotted-version comparison; the tail from `-` or `+` on is ignored. -/
def isNewer (latest current : Text) : Bool :=
  let a := parts latest
  let b := parts current
  ((List.range (max a.length b.length)).findSome? fun i =>
    let x := a.getD i 0
    let y := b.getD i 0
    if x ≠ y then some (decide (x > y)) else none).getD false

-- ============================================================================
-- The order
-- ============================================================================

/-- The numbers of a version, zeros after the last one. -/
def number (v : Text) (i : Nat) : Nat := (parts v).getD i 0

/-- The place of a version in the lexicographic order. -/
def rank (v : Text) : Lex (Nat → Nat) := toLex (number v)

/-- A loop that returns at the first index with a result. -/
theorem findSome?_range_eq_some {α : Type} {f : Nat → Option α} {n : Nat} {a : α} :
    (List.range n).findSome? f = some a ↔ ∃ i < n, f i = some a ∧ ∀ j < i, f j = none := by
  induction n generalizing a with
  | zero => simp
  | succ n ih =>
    rw [List.range_succ, List.findSome?_append]
    cases hrest : (List.range n).findSome? f with
    | none =>
      have hnone : ∀ j < n, f j = none := fun j hj =>
        List.findSome?_eq_none_iff.mp hrest j (List.mem_range.mpr hj)
      constructor
      · intro h
        exact ⟨n, by omega, by simpa using h, hnone⟩
      · rintro ⟨i, hi, hfi, -⟩
        obtain rfl : i = n := by
          by_contra hne
          rw [hnone i (by omega)] at hfi
          cases hfi
        simpa using hfi
    | some r =>
      obtain ⟨i, hi, hfi, hbefore⟩ := ih.mp hrest
      constructor
      · intro h
        obtain rfl : r = a := by simpa using h
        exact ⟨i, by omega, hfi, hbefore⟩
      · rintro ⟨k, -, hfk, hbeforeK⟩
        -- both are the first index with a result
        obtain rfl : i = k := by
          rcases lt_trichotomy i k with hlt | heq | hlt
          · rw [hbeforeK i hlt] at hfi
            cases hfi
          · exact heq
          · rw [hbefore k hlt] at hfk
            cases hfk
        rw [hfi] at hfk
        simpa using hfk

/-- The later version is the one with the greater number where the two first differ. -/
theorem isNewer_iff_exists {a b : Text} :
    isNewer a b = true ↔ ∃ i, (∀ j < i, number b j = number a j) ∧ number b i < number a i := by
  have hloop : isNewer a b = true ↔
      (List.range (max (parts a).length (parts b).length)).findSome? (fun i =>
        if number a i ≠ number b i then some (decide (number a i > number b i)) else none) =
          some true := by
    have hget : ∀ o : Option Bool, o.getD false = true ↔ o = some true := by
      intro o
      cases o <;> simp
    exact hget _
  rw [hloop, findSome?_range_eq_some]
  constructor
  · rintro ⟨i, -, hi, hbefore⟩
    refine ⟨i, fun j hj => ?_, ?_⟩
    · by_contra hne
      have hnone := hbefore j hj
      rw [if_pos (Ne.symm hne)] at hnone
      cases hnone
    · split at hi
      · simpa using hi
      · cases hi
  · rintro ⟨i, hbefore, hlt⟩
    have hin : i < max (parts a).length (parts b).length := by
      by_contra hge
      have ha : number a i = 0 := List.getD_eq_default _ _ (by omega)
      omega
    refine ⟨i, hin, ?_, fun j hj => ?_⟩
    · rw [if_pos (by omega), decide_eq_true hlt]
    · rw [if_neg (by simp [hbefore j hj])]

theorem isNewer_iff {a b : Text} : isNewer a b = true ↔ rank b < rank a := isNewer_iff_exists

/-- `is_newer` is a strict order. -/
theorem isNewer_strictOrder : IsStrictOrder Text fun a b => isNewer a b = true where
  irrefl v h := lt_irrefl (rank v) (isNewer_iff.mp h)
  trans _ _ _ hab hbc := isNewer_iff.mpr ((isNewer_iff.mp hbc).trans (isNewer_iff.mp hab))

/-- No two versions are each newer than the other. -/
theorem isNewer_asymm {a b : Text} (h : isNewer a b = true) : isNewer b a = false := by
  rw [Bool.eq_false_iff]
  intro hba
  exact lt_asymm (isNewer_iff.mp h) (isNewer_iff.mp hba)

example : isNewer "1.10.0".toList "v1.9.2".toList = true := by decide

end GnDrive.SelfUpdate
