/-
  GnDrive.Lib.Sorted

  Lists sorted by a total order on keys that no two elements share.

  There is one sorted list of given elements.  So a list keeps its order under
  sorting where it is sorted already, and a part of it exactly where that part
  is (`filter_insertionSort_iff`).
-/

import Mathlib.Data.List.Sort
import Mathlib.Data.List.Nodup

namespace GnDrive.Sorted

section

variable {α κ : Type*} {l l₁ l₂ : List α} {key : α → κ}

/-- Elements of a list without double keys are told apart by their keys. -/
theorem eq_of_map_key (hkeys : (l.map key).Nodup) (h₁ : l₁ ⊆ l) (h₂ : l₂ ⊆ l)
    (h : l₁.map key = l₂.map key) : l₁ = l₂ := by
  have hlen : l₁.length = l₂.length := by
    rw [← List.length_map key, h, List.length_map]
  refine List.ext_getElem hlen fun i hi hi' => ?_
  apply List.inj_on_of_nodup_map hkeys (h₁ (List.getElem_mem hi)) (h₂ (List.getElem_mem hi'))
  have hget : (l₁.map key)[i]? = (l₂.map key)[i]? := by rw [h]
  rw [List.getElem?_map, List.getElem?_map, List.getElem?_eq_getElem hi,
    List.getElem?_eq_getElem hi'] at hget
  exact Option.some.inj hget

variable {r : α → α → Prop} [DecidableRel r] [Std.Total r] [IsTrans α r]

/-- A part of a list keeps its order under sorting exactly when it is sorted. -/
theorem filter_insertionSort_iff (p : α → Bool)
    (hanti : ∀ a ∈ l, ∀ b ∈ l, r a b → r b a → a = b) :
    (l.insertionSort r).filter p = l.filter p ↔ (l.filter p).Pairwise r := by
  have hsorted : ((l.insertionSort r).filter p).Pairwise r :=
    (List.pairwise_insertionSort r l).sublist List.filter_sublist
  have hperm : ((l.insertionSort r).filter p).Perm (l.filter p) :=
    (List.perm_insertionSort r l).filter p
  constructor
  · intro h
    rwa [h] at hsorted
  · intro h
    refine hperm.eq_of_pairwise (fun a b ha hb hab hba => ?_) hsorted h
    have ha' : a ∈ l := (List.mem_insertionSort r).mp (List.mem_of_mem_filter ha)
    exact hanti a ha' b (List.mem_of_mem_filter hb) hab hba

/-- The same of the keys. -/
theorem map_filter_insertionSort_iff (p : κ → Bool) (hkeys : (l.map key).Nodup)
    (hanti : ∀ a ∈ l, ∀ b ∈ l, r a b → r b a → key a = key b) :
    ((l.insertionSort r).map key).filter p = (l.map key).filter p ↔
      l.Pairwise fun a b => p (key a) → p (key b) → r a b := by
  have hanti' : ∀ a ∈ l, ∀ b ∈ l, r a b → r b a → a = b := fun a ha b hb hab hba =>
    List.inj_on_of_nodup_map hkeys ha hb (hanti a ha b hb hab hba)
  have hpart := filter_insertionSort_iff (p ∘ key) hanti'
  rw [List.pairwise_filter] at hpart
  rw [List.filter_map, List.filter_map]
  refine Iff.trans ⟨fun h => ?_, congrArg (List.map key)⟩ hpart
  refine eq_of_map_key hkeys (fun a ha => ?_) (fun a ha => List.mem_of_mem_filter ha) h
  exact (List.mem_insertionSort r).mp (List.mem_of_mem_filter ha)

end

end GnDrive.Sorted
