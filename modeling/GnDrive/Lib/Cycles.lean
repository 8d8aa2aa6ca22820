/-
  GnDrive.Lib.Cycles

  Cycles of a relation on a finite set.
-/

import Mathlib.Data.Fintype.Order
import Mathlib.Data.Set.Finite.Basic
import Mathlib.Logic.Relation

namespace GnDrive

open Relation

section

variable {α : Type} {r : α → α → Prop} {a b : α} {P : Set α}

/-- `b` can be reached from a cycle. -/
def FromCycle (r : α → α → Prop) (b : α) : Prop := ∃ a, TransGen r a a ∧ ReflTransGen r a b

/-- What can be reached from a cycle has a predecessor that can. -/
theorem FromCycle.pred (h : FromCycle r b) : ∃ c, r c b ∧ FromCycle r c := by
  obtain ⟨a, hcycle, hreach⟩ := h
  obtain ⟨c, hac, hcb⟩ := TransGen.tail'_iff.mp (hcycle.trans_left hreach)
  exact ⟨c, hcb, a, hcycle, hac⟩

theorem fromCycle_of_cycle (h : TransGen r a a) : FromCycle r a := ⟨a, h, .refl⟩

/-- In a finite set without a first element everything can be reached from a
    cycle. -/
theorem fromCycle_of_no_first (hfin : P.Finite) (hpred : ∀ b ∈ P, ∃ a ∈ P, r a b) (hb : b ∈ P) :
    FromCycle r b := by
  by_contra hnone
  -- paths are a strict order on the elements that reach `b`
  let S : Type := {a // a ∈ P ∧ ReflTransGen r a b}
  let before : S → S → Prop := fun x y => TransGen r x.1 y.1
  have hfinite : Finite S := (hfin.subset fun a ha => ha.1 : {a | a ∈ P ∧ ReflTransGen r a b}.Finite)
  have htrans : IsTrans S before := ⟨fun _ _ _ => TransGen.trans⟩
  have hirrefl : Std.Irrefl before := ⟨fun x hx => hnone ⟨x.1, hx, x.2.2⟩⟩
  obtain ⟨m, -, hmin⟩ := (Finite.wellFounded_of_trans_of_irrefl before).has_min Set.univ
    ⟨⟨b, hb, .refl⟩, trivial⟩
  obtain ⟨a, ha, ham⟩ := hpred m.1 m.2.1
  exact hmin ⟨a, ha, m.2.2.head ham⟩ trivial (.single ham)

end

end GnDrive
