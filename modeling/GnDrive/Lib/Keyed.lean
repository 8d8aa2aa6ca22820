/-
  GnDrive.Lib.Keyed

  Maps that are filled from a list: a later element takes the place of an earlier
  one with the same key.  `lastBy` is the lookup, `distinct` the keys in the order
  in which they first came, and `values` the elements that are left.
-/

import Mathlib.Data.List.Nodup

namespace GnDrive.Keyed

variable {α κ : Type} [DecidableEq κ] {f : α → κ} {l : List α} {k : κ} {a : α}

-- ============================================================================
-- Lookup
-- ============================================================================

def lastBy (f : α → κ) (l : List α) (k : κ) : Option α := l.reverse.find? (f · = k)

theorem lastBy_spec (h : lastBy f l k = some a) : a ∈ l ∧ f a = k :=
  ⟨List.mem_reverse.mp (List.mem_of_find?_eq_some h), by simpa using List.find?_some h⟩

theorem lastBy_eq_none_iff : lastBy f l k = none ↔ ∀ a ∈ l, f a ≠ k := by
  simp [lastBy, List.find?_eq_none]

theorem lastBy_of_mem (h : a ∈ l) : ∃ b, lastBy f l (f a) = some b := by
  rw [← Option.ne_none_iff_exists', ne_eq, lastBy_eq_none_iff]
  exact fun hne => hne a h rfl

theorem lastBy_append (l l' : List α) (k : κ) :
    lastBy f (l ++ l') k = (lastBy f l' k).or (lastBy f l k) := by
  unfold lastBy
  rw [List.reverse_append, List.find?_append]

theorem lastBy_map {β : Type} (g : β → α) (l : List β) (k : κ) :
    lastBy f (l.map g) k = (lastBy (f ∘ g) l k).map g := by
  unfold lastBy
  rw [← List.map_reverse, List.find?_map]
  rfl

/-- Where no key comes twice, each element is found under its own. -/
theorem lastBy_of_nodup (hnodup : (l.map f).Nodup) (h : a ∈ l) : lastBy f l (f a) = some a := by
  obtain ⟨b, hb⟩ := lastBy_of_mem (f := f) h
  obtain ⟨hmem, heq⟩ := lastBy_spec hb
  rw [hb, List.inj_on_of_nodup_map hnodup hmem h heq]

theorem lastBy_perm {l' : List α} (hnodup : (l.map f).Nodup) (hperm : l.Perm l') (k : κ) :
    lastBy f l' k = lastBy f l k := by
  cases h : lastBy f l k with
  | some a =>
    obtain ⟨hmem, rfl⟩ := lastBy_spec h
    exact lastBy_of_nodup ((hperm.map f).nodup_iff.mp hnodup) (hperm.mem_iff.mp hmem)
  | none =>
    rw [lastBy_eq_none_iff] at h ⊢
    exact fun a ha => h a (hperm.mem_iff.mpr ha)

-- ============================================================================
-- Keys
-- ============================================================================

def push (acc : List κ) (k : κ) : List κ := if acc.contains k then acc else acc ++ [k]

def distinct (l : List κ) : List κ := l.foldl push []

theorem mem_push {acc : List κ} {k k' : κ} : k' ∈ push acc k ↔ k' ∈ acc ∨ k' = k := by
  unfold push
  by_cases h : k ∈ acc
  · simp only [List.contains_iff_mem, h, if_true]
    exact ⟨.inl, fun h' => h'.elim id fun heq => heq ▸ h⟩
  · simp [h]

theorem push_nodup {acc : List κ} (h : acc.Nodup) (k : κ) : (push acc k).Nodup := by
  unfold push
  by_cases hk : k ∈ acc
  · simpa [hk] using h
  · have hsingle : [k].Nodup := List.nodup_singleton k
    simpa [hk] using List.Nodup.append h hsingle (by simpa using hk)

theorem foldl_push (l acc : List κ) (h : acc.Nodup) :
    (l.foldl push acc).Nodup ∧ ∀ k, k ∈ l.foldl push acc ↔ k ∈ acc ∨ k ∈ l := by
  induction l generalizing acc with
  | nil => exact ⟨h, fun k => by simp⟩
  | cons k l ih =>
    obtain ⟨hnodup, hmem⟩ := ih (push acc k) (push_nodup h k)
    refine ⟨hnodup, fun k' => ?_⟩
    rw [List.foldl_cons, hmem, mem_push, List.mem_cons, or_assoc]

theorem distinct_nodup (l : List κ) : (distinct l).Nodup := (foldl_push l [] List.nodup_nil).1

@[simp] theorem mem_distinct {l : List κ} {k : κ} : k ∈ distinct l ↔ k ∈ l := by
  rw [distinct, (foldl_push l [] List.nodup_nil).2]
  simp

theorem distinct_concat (l : List κ) (k : κ) : distinct (l ++ [k]) = push (distinct l) k := by
  unfold distinct
  rw [List.foldl_append]
  rfl

theorem foldl_push_of_nodup (l acc : List κ) (h : (acc ++ l).Nodup) :
    l.foldl push acc = acc ++ l := by
  induction l generalizing acc with
  | nil => simp
  | cons k l ih =>
    have hk : k ∉ acc := fun hk =>
      (List.nodup_append.mp h).2.2 k hk k List.mem_cons_self rfl
    have hpush : push acc k = acc ++ [k] := by simp [push, hk]
    rw [List.foldl_cons, hpush, ih _ (by simpa using h)]
    simp

theorem distinct_of_nodup {l : List κ} (h : l.Nodup) : distinct l = l :=
  foldl_push_of_nodup l [] (by simpa using h)

-- ============================================================================
-- Values
-- ============================================================================

/-- The elements found under some of the keys. -/
def under (f : α → κ) (l : List α) (ks : List κ) : List α := ks.filterMap (lastBy f l)

theorem map_under (ks : List κ) (h : ∀ k ∈ ks, k ∈ l.map f) : (under f l ks).map f = ks := by
  induction ks with
  | nil => rfl
  | cons k ks ih =>
    obtain ⟨a, ha, rfl⟩ := List.mem_map.mp (h k List.mem_cons_self)
    obtain ⟨b, hb⟩ := lastBy_of_mem (f := f) ha
    have htail := ih fun k hk => h k (List.mem_cons_of_mem _ hk)
    unfold under at htail ⊢
    rw [List.filterMap_cons_some hb, List.map_cons, htail, (lastBy_spec hb).2]

theorem under_map {β : Type} (g : β → α) (l : List β) (ks : List κ) :
    under f (l.map g) ks = (under (f ∘ g) l ks).map g := by
  unfold under
  rw [List.map_filterMap]
  exact List.filterMap_congr fun k _ => lastBy_map g l k

theorem under_map_self (h : (l.map f).Nodup) : under f l (l.map f) = l := by
  have hfound : ∀ a ∈ l, lastBy f l (f a) = some a := fun a ha => lastBy_of_nodup h ha
  unfold under
  rw [List.filterMap_map]
  calc l.filterMap (lastBy f l ∘ f) = l.filterMap some := List.filterMap_congr hfound
    _ = l := List.filterMap_some

theorem mem_under {ks : List κ} : a ∈ under f l ks ↔ f a ∈ ks ∧ lastBy f l (f a) = some a := by
  unfold under
  rw [List.mem_filterMap]
  constructor
  · rintro ⟨k, hk, ha⟩
    obtain rfl := (lastBy_spec ha).2
    exact ⟨hk, ha⟩
  · rintro ⟨hk, ha⟩
    exact ⟨f a, hk, ha⟩

/-- Elements found under different keys are found under them again. -/
theorem lastBy_of_found {l' : List α} (hnodup : (l'.map f).Nodup)
    (hfound : ∀ a ∈ l', lastBy f l (f a) = some a) (hall : ∀ a ∈ l, f a ∈ l'.map f) (k : κ) :
    lastBy f l' k = lastBy f l k := by
  cases h : lastBy f l k with
  | some a =>
    obtain ⟨hmem, rfl⟩ := lastBy_spec h
    obtain ⟨b, hb, hkey⟩ := List.mem_map.mp (hall a hmem)
    have hfb := hfound b hb
    rw [hkey, h] at hfb
    obtain rfl := Option.some.inj hfb
    exact lastBy_of_nodup hnodup hb
  | none =>
    rw [lastBy_eq_none_iff] at h ⊢
    intro a ha heq
    exact h a (lastBy_spec (hfound a ha)).1 heq

-- ============================================================================
-- Change in place
-- ============================================================================

/-- The first element under the key is changed by `g`; where there is none,
    what `g` makes of `new` goes to the end. -/
def upsert (f : α → κ) (k : κ) (new : α) (g : α → α) : List α → List α
  | [] => [g new]
  | a :: l => if f a = k then g a :: l else a :: upsert f k new g l

theorem find?_upsert {new : α} {g : α → α} (hnew : f new = k) (hg : ∀ a, f (g a) = f a)
    (l : List α) (k' : κ) :
    (upsert f k new g l).find? (f · = k') =
      if k' = k then some (g ((l.find? (f · = k)).getD new)) else l.find? (f · = k') := by
  induction l with
  | nil =>
    by_cases hk : k' = k
    · simp [upsert, hg, hnew, hk]
    · simp [upsert, hg, hnew, hk, Ne.symm hk]
  | cons a l ih =>
    unfold upsert
    by_cases ha : f a = k
    · by_cases hk : k' = k
      · simp [ha, hg, hk]
      · simp [ha, hg, hk, Ne.symm hk]
    · rw [if_neg ha, List.find?_cons]
      by_cases hk : k' = k
      · subst hk
        simpa [ha] using ih
      · rw [if_neg hk, List.find?_cons]
        rw [if_neg hk] at ih
        split
        · rfl
        · exact ih

end GnDrive.Keyed
