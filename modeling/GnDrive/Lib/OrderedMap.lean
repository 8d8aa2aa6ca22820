/-
  GnDrive.Lib.OrderedMap

  Maps whose keys are also kept in a list, in the order in which they came.

  `Represents` is what the two owe each other, and `count` the number of values of a kind;
  for each way to change the map there is a lemma for either.
-/

import Mathlib.Data.List.Nodup
import Mathlib.Data.List.Perm.Lattice
import Mathlib.Logic.Function.Basic

namespace GnDrive.OrderedMap

variable {κ ν : Type} [DecidableEq κ] {find : κ → Option ν} {order : List κ} {k : κ} {v old : ν}

omit [DecidableEq κ] in
/-- The list has no duplicates and holds exactly the keys of the map. -/
structure Represents (find : κ → Option ν) (order : List κ) : Prop where
  nodup : order.Nodup
  mem : ∀ k, k ∈ order ↔ (find k).isSome = true

/-- How many keys have a value of the kind. -/
def count (p : ν → Bool) (find : κ → Option ν) (order : List κ) : Nat :=
  order.countP fun k => (find k).any p

namespace Represents

omit [DecidableEq κ] in
theorem empty : Represents (fun _ : κ => (none : Option ν)) [] :=
  ⟨List.nodup_nil, fun _ => iff_of_false List.not_mem_nil Bool.false_ne_true⟩

omit [DecidableEq κ] in
theorem not_mem (h : Represents find order) (hk : find k = none) : k ∉ order := by
  intro hmem
  have hsome := (h.mem k).mp hmem
  rw [hk] at hsome
  cases hsome

/-- Another value for a key. -/
theorem set (h : Represents find order) (hk : find k = some old) (v : ν) :
    Represents (Function.update find k (some v)) order := by
  refine ⟨h.nodup, fun k' => ?_⟩
  rw [h.mem k']
  by_cases heq : k' = k
  · rw [heq, hk, Function.update_self]
    rfl
  · rw [Function.update_of_ne heq]

/-- A new key goes to the end. -/
theorem push (h : Represents find order) (hk : find k = none) (v : ν) :
    Represents (Function.update find k (some v)) (order ++ [k]) := by
  constructor
  · rw [← List.concat_eq_append]
    exact h.nodup.concat (h.not_mem hk)
  · intro k'
    rw [List.mem_append, List.mem_singleton, h.mem k']
    by_cases heq : k' = k
    · rw [heq, Function.update_self]
      exact iff_of_true (.inr rfl) rfl
    · rw [Function.update_of_ne heq]
      exact or_iff_left heq

/-- A key goes out of both. -/
theorem remove [BEq κ] [LawfulBEq κ] (h : Represents find order) (k : κ) :
    Represents (Function.update find k none) (order.erase k) := by
  refine ⟨h.nodup.erase k, fun k' => ?_⟩
  rw [h.nodup.mem_erase_iff, h.mem k']
  by_cases heq : k' = k
  · rw [heq, Function.update_self]
    exact iff_of_false (fun hne => hne.1 rfl) Bool.false_ne_true
  · rw [Function.update_of_ne heq]
    exact and_iff_right heq

end Represents

-- ============================================================================
-- Counting
-- ============================================================================

variable {p : ν → Bool}

omit [DecidableEq κ] in
theorem count_le (p : ν → Bool) (find : κ → Option ν) (order : List κ) :
    count p find order ≤ order.length := List.countP_le_length

theorem count_update_of_not_mem (hk : k ∉ order) (o : Option ν) :
    count p (Function.update find k o) order = count p find order := by
  refine List.countP_congr fun k' hk' => ?_
  have hne : k' ≠ k := fun heq => hk (heq ▸ hk')
  rw [Function.update_of_ne hne]

theorem count_push (hk : k ∉ order) (v : ν) :
    count p (Function.update find k (some v)) (order ++ [k]) =
      count p find order + if p v then 1 else 0 := by
  have happend : count p (Function.update find k (some v)) (order ++ [k]) =
      count p (Function.update find k (some v)) order +
        count p (Function.update find k (some v)) [k] := List.countP_append
  rw [happend, count_update_of_not_mem hk]
  unfold count
  rw [List.countP_singleton, Function.update_self, Option.any_some]

omit [DecidableEq κ] in
/-- The key in front, and the others. -/
theorem count_erase [BEq κ] [LawfulBEq κ] (h : Represents find order) (hk : find k = some old) (find' : κ → Option ν) :
    count p find' order =
      count p find' (order.erase k) + if (find' k).any p then 1 else 0 := by
  have hmem : k ∈ order := (h.mem k).mpr (by rw [hk]; rfl)
  unfold count
  rw [(List.perm_cons_erase hmem).countP_eq, List.countP_cons]

omit [DecidableEq κ] in
theorem not_mem_erase [BEq κ] [LawfulBEq κ] (h : Represents find order) (k : κ) : k ∉ order.erase k := fun hmem =>
  ((h.nodup.mem_erase_iff).mp hmem).1 rfl

theorem count_remove [BEq κ] [LawfulBEq κ] (h : Represents find order) (hk : find k = some old) :
    count p (Function.update find k none) (order.erase k) + (if p old then 1 else 0) =
      count p find order := by
  rw [count_erase h hk find, count_update_of_not_mem (not_mem_erase h k), hk, Option.any_some]

theorem count_set (h : Represents find order) (hk : find k = some old) (v : ν) :
    count p (Function.update find k (some v)) order + (if p old then 1 else 0) =
      count p find order + if p v then 1 else 0 := by
  rw [count_erase h hk find, count_erase h hk (Function.update find k (some v)),
    count_update_of_not_mem (not_mem_erase h k), hk, Function.update_self, Option.any_some,
    Option.any_some]
  omega

end GnDrive.OrderedMap
