/-
  GnDrive.Lib.Tables

  Tables that one pass over a list fills.

  The entry of a key depends on the elements that touch the key, and on nothing else
  (`view_foldl`).  So a single pass that keeps an entry for every key does what a pass of its
  own for each key would do.
-/

import GnDrive.Lib.Keyed
import Mathlib.Data.List.Induction
import Mathlib.Logic.Function.Basic

namespace GnDrive.Tables

open Function (update)

section

variable {S E K A : Type*} {step : S → E → S} {view : S → K → A} {touches : E → K → Bool}
  {f : A → E → A}

/-- What a pass leaves at a key, where a step changes it only by the elements that touch it. -/
theorem view_foldl
    (hstep : ∀ s e k, view (step s e) k = if touches e k then f (view s k) e else view s k)
    (es : List E) (s : S) (k : K) :
    view (es.foldl step s) k = (es.filter (touches · k)).foldl f (view s k) := by
  induction es generalizing s with
  | nil => rfl
  | cons e es ih =>
    rw [List.foldl_cons, ih, hstep, List.filter_cons]
    by_cases h : touches e k = true
    · rw [if_pos h, if_pos h, List.foldl_cons]
    · rw [if_neg h, if_neg h]

end

section

variable {E K V : Type} [DecidableEq K]

/-- Each element is written under its key. -/
def collect (key : E → K) (value : E → V) (es : List E) : K → Option V :=
  es.foldl (fun m e => update m (key e) (some (value e))) fun _ => none

theorem collect_eq_lastBy (key : E → K) (value : E → V) (es : List E) (k : K) :
    collect key value es k = (Keyed.lastBy key es k).map value := by
  induction es using List.reverseRecOn with
  | nil => rfl
  | append_singleton es e ih =>
    unfold collect at ih ⊢
    rw [List.foldl_append, Keyed.lastBy_append]
    by_cases h : key e = k
    · subst h
      simp [Keyed.lastBy]
    · have hne : k ≠ key e := fun heq => h heq.symm
      simp [Keyed.lastBy, h, hne] at ih ⊢
      exact ih

/-- Where no key comes twice, the table is the search through the list. -/
theorem collect_eq_find? {key : E → K} (value : E → V) {es : List E}
    (hnodup : (es.map key).Nodup) (k : K) :
    collect key value es k = (es.find? (key · = k)).map value := by
  rw [collect_eq_lastBy, ← Keyed.lastBy_perm hnodup es.reverse_perm.symm]
  unfold Keyed.lastBy
  rw [List.reverse_reverse]

/-- `entry(k).or_insert(v)`. -/
def orInsert (m : K → Option V) (k : K) (v : V) : K → Option V := update m k ((m k).or (some v))

theorem orInsert_apply (m : K → Option V) (k k' : K) (v : V) :
    orInsert m k v k' = if k' = k then (m k').or (some v) else m k' := by
  unfold orInsert
  by_cases h : k' = k
  · subst h
    simp
  · simp [h]

/-- What was there first stays. -/
theorem foldl_or (g : E → Option V) (es : List E) (a : Option V) :
    es.foldl (fun a e => a.or (g e)) a = a.or (es.findSome? g) := by
  induction es generalizing a with
  | nil => simp
  | cons e es ih =>
    rw [List.foldl_cons, ih, List.findSome?_cons, Option.or_assoc]
    cases g e <;> rfl

end

end GnDrive.Tables
