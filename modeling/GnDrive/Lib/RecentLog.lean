/-
  GnDrive.Lib.RecentLog

  Logs of bounded length that leave out an entry that repeats the last one.

  `push` appends to such a log.  Pushing the entries of a list one after another comes to
  the end of that list without its repetitions (`foldl_push_eq`): what is trimmed away
  never bears on what comes after.
-/

import Mathlib.Data.List.Destutter
import Mathlib.Data.List.DropRight

namespace GnDrive.RecentLog

variable {α : Type} {R : α → α → Prop} [DecidableRel R] {a e : α} {l log : List α} {n : Nat}

-- ============================================================================
-- Repetitions
-- ============================================================================

/-- The entry is no repetition of the last one. -/
def IsNew (R : α → α → Prop) (log : List α) (e : α) : Prop := ∀ a ∈ log.getLast?, R a e

instance (log : List α) (e : α) : Decidable (IsNew R log e) :=
  inferInstanceAs (Decidable (∀ a ∈ log.getLast?, R a e))

omit [DecidableRel R] in
theorem isNew_congr {log' : List α} (h : log'.getLast? = log.getLast?) :
    IsNew R log' e ↔ IsNew R log e := by
  unfold IsNew
  rw [h]

omit [DecidableRel R] in
theorem isNew_cons (h : l ≠ []) : IsNew R (a :: l) e ↔ IsNew R l e := by
  obtain ⟨b, l, rfl⟩ := List.exists_cons_of_ne_nil h
  exact isNew_congr (List.getLast?_cons_cons ..)

theorem destutter'_concat (a : α) (l : List α) (e : α) :
    (l ++ [e]).destutter' R a =
      if IsNew R (l.destutter' R a) e then l.destutter' R a ++ [e] else l.destutter' R a := by
  induction l generalizing a with
  | nil =>
    rw [List.nil_append, List.destutter'_singleton, List.destutter'_nil]
    have hnew : IsNew R [a] e ↔ R a e := by simp [IsNew]
    by_cases h : R a e
    · rw [if_pos h, if_pos (hnew.mpr h)]
      rfl
    · rw [if_neg h, if_neg (hnew.not.mpr h)]
  | cons b l ih =>
    rw [List.cons_append]
    by_cases h : R a b
    · rw [List.destutter'_cons_pos _ h, List.destutter'_cons_pos _ h, ih b]
      have hcons := isNew_cons (R := R) (a := a) (e := e) (List.destutter'_ne_nil (R := R) l (a := b))
      by_cases hnew : IsNew R (l.destutter' R b) e
      · rw [if_pos hnew, if_pos (hcons.mpr hnew), List.cons_append]
      · rw [if_neg hnew, if_neg (hcons.not.mpr hnew)]
    · rw [List.destutter'_cons_neg _ h, List.destutter'_cons_neg _ h, ih a]

theorem destutter_concat (l : List α) (e : α) :
    (l ++ [e]).destutter R =
      if IsNew R (l.destutter R) e then l.destutter R ++ [e] else l.destutter R := by
  cases l with
  | nil =>
    have hnew : IsNew R [] e := fun _ h => nomatch h
    exact (if_pos hnew).symm
  | cons a l => exact destutter'_concat a l e

-- ============================================================================
-- The end of a list
-- ============================================================================

theorem length_rtake (l : List α) (n : Nat) : (l.rtake n).length = min n l.length := by
  unfold List.rtake
  rw [List.length_drop]
  omega

theorem getLast?_rtake (hn : 0 < n) (l : List α) : (l.rtake n).getLast? = l.getLast? := by
  unfold List.rtake
  rw [List.getLast?_drop]
  split
  · have hnil : l = [] := List.length_eq_zero_iff.mp (by omega)
    rw [hnil]
    rfl
  · rfl

theorem rtake_rtake_succ (l : List α) (n : Nat) : (l.rtake (n + 1)).rtake n = l.rtake n := by
  unfold List.rtake
  rw [List.drop_drop, List.length_drop]
  congr 1
  omega

/-- What is trimmed away before an entry is appended would be after. -/
theorem rtake_concat_rtake (hn : 0 < n) (l : List α) (e : α) :
    (l.rtake n ++ [e]).rtake n = (l ++ [e]).rtake n := by
  obtain ⟨n, rfl⟩ : ∃ m, n = m + 1 := ⟨n - 1, by omega⟩
  rw [List.rtake_concat_succ, List.rtake_concat_succ, rtake_rtake_succ]

-- ============================================================================
-- Pushing
-- ============================================================================

/-- Append, leaving out a repetition, and the oldest entries beyond `n`. -/
def push (R : α → α → Prop) [DecidableRel R] (n : Nat) (log : List α) (e : α) : List α :=
  if IsNew R log e then (log ++ [e]).rtake n else log

theorem push_eq (hn : 0 < n) (l : List α) (e : α) :
    push R n ((l.destutter R).rtake n) e = ((l ++ [e]).destutter R).rtake n := by
  have hlast := isNew_congr (R := R) (e := e) (getLast?_rtake hn (l.destutter R))
  unfold push
  rw [destutter_concat]
  by_cases hnew : IsNew R (l.destutter R) e
  · rw [if_pos hnew, if_pos (hlast.mpr hnew), rtake_concat_rtake hn]
  · rw [if_neg hnew, if_neg (hlast.not.mpr hnew)]

/-- The log is the end of all that was pushed, without the repetitions. -/
theorem foldl_push_eq (hn : 0 < n) (l : List α) :
    l.foldl (push R n) [] = (l.destutter R).rtake n := by
  induction l using List.reverseRecOn with
  | nil => simp
  | append_singleton l e ih => rw [List.foldl_append, List.foldl_cons, List.foldl_nil, ih, push_eq hn]

end GnDrive.RecentLog
