/-
  GnDrive.Gpui.CronLabel

  The sentence that stands for a cron expression in the window (`format.rs`), and
  the seconds at which the engine fires.

  `cron_label` recognises a few shapes of expressions by their words, on its own;
  the engine parses the same text into masks.  A sentence that names times names
  those of the engine (`cronLabel_tells`), and it names them in full: no two of
  them read alike (`Phrase.text_injective`).
-/

import GnDrive.Cron.NextMatch
import GnDrive.Cron.Normalize
import GnDrive.Gpui.HistoryTimes
import GnDrive.Lib.Dates
import GnDrive.Lib.Ints
import Mathlib.Data.List.Nodup

namespace GnDrive.Gpui.CronLabel

open Argon2id (parseU32)
open Calendar
open Cron
open History (twoDigits)
open Text (trim splitWhitespace toLowercase IsWord)

-- ============================================================================
-- Labels
-- ============================================================================

/-- `vi` is `prefs::is_vi()`. -/
def phrase (vi : Bool) (en vn : String) : Text := if vi then vn.toList else en.toList

def weekdayName (vi : Bool) (dow : Text) : Option Text :=
  match dow with
  | ['0'] | ['7'] => some (phrase vi "Sunday" "Chủ nhật")
  | ['1'] => some (phrase vi "Monday" "thứ Hai")
  | ['2'] => some (phrase vi "Tuesday" "thứ Ba")
  | ['3'] => some (phrase vi "Wednesday" "thứ Tư")
  | ['4'] => some (phrase vi "Thursday" "thứ Năm")
  | ['5'] => some (phrase vi "Friday" "thứ Sáu")
  | ['6'] => some (phrase vi "Saturday" "thứ Bảy")
  | _ => none

/-- The step of `*/step`, from 1 on. -/
def hourStep (hour : Text) : Option Nat :=
  match hour with
  | '*' :: '/' :: step => (parseU32 step).filter (0 < ·)
  | _ => none

/-- A minute and an hour of the clock. -/
def timeOfDay (min hour : Text) : Option (Nat × Nat) :=
  match parseU32 min, parseU32 hour with
  | some minute, some hour => if minute < 60 ∧ hour < 24 then some (minute, hour) else none
  | _, _ => none

/-- A cron expression in words. -/
def cronLabel (vi : Bool) (cron : Text) : Text :=
  let cron := trim cron
  if cron = [] then phrase vi "Manual" "Thủ công"
  else
    match splitWhitespace cron with
    | [min, hour, dom, month, dow] =>
        if dom = ['*'] ∧ month = ['*'] then
          if min = ['0'] ∧ hour = ['*'] ∧ dow = ['*'] then phrase vi "Every hour" "Mỗi giờ"
          else
            match if min = ['0'] ∧ dow = ['*'] then hourStep hour else none with
            | some step =>
                phrase vi "Every " "Mỗi " ++ Nat.toDigits 10 step ++ phrase vi " hours" " giờ"
            | none =>
                match timeOfDay min hour with
                | some (minute, hour) =>
                    let clock := twoDigits hour ++ ':' :: twoDigits minute
                    if dow = ['*'] then phrase vi "Every day at " "Mỗi ngày lúc " ++ clock
                    else if dow = "1-5".toList then
                      phrase vi "Weekdays at " "Ngày trong tuần lúc " ++ clock
                    else
                      match weekdayName vi dow with
                      | some day =>
                          phrase vi "Every " "Mỗi " ++ day ++ phrase vi " at " " lúc " ++ clock
                      | none => phrase vi "Custom schedule" "Lịch tùy chỉnh"
                | none => phrase vi "Custom schedule" "Lịch tùy chỉnh"
        else phrase vi "Custom schedule" "Lịch tùy chỉnh"
    | _ => phrase vi "Custom schedule" "Lịch tùy chỉnh"

/-- Five cron fields, or empty (manual). -/
def cronError (vi : Bool) (cron : Text) : Option Text :=
  let cron := trim cron
  if cron = [] then none
  else
    let parts := splitWhitespace cron
    if parts.length = 5 ∧ parts.all (· ≠ []) then none
    else
      some (phrase vi "A schedule needs 5 fields: minute hour day month weekday."
        "Lịch cần đúng 5 phần: phút giờ ngày tháng thứ.")

-- ============================================================================
-- Phrases
-- ============================================================================

inductive Days where
  | every
  | working
  /-- From Sunday on. -/
  | on (day : Fin 7)
deriving DecidableEq, Repr

/-- What a label says. -/
inductive Phrase where
  | manual
  | custom
  | everyHour
  | everyHours (n : Nat)
  | timed (days : Days) (hour : Fin 24) (minute : Fin 60)
deriving DecidableEq, Repr

def dayName (vi : Bool) (day : Fin 7) : Text := (weekdayName vi (Nat.toDigits 10 day)).getD []

/-- The sentence up to the time of day. -/
def Days.lead (vi : Bool) : Days → Text
  | .every => phrase vi "Every day at " "Mỗi ngày lúc "
  | .working => phrase vi "Weekdays at " "Ngày trong tuần lúc "
  | .on day => phrase vi "Every " "Mỗi " ++ dayName vi day ++ phrase vi " at " " lúc "

/-- The days of a sentence; `dow` counts from Sunday on. -/
def Days.Holds (dow : Nat) : Days → Prop
  | .every => True
  | .working => 1 ≤ dow ∧ dow ≤ 5
  | .on day => dow = day

def clock (hour minute : Nat) : Text := twoDigits hour ++ ':' :: twoDigits minute

namespace Phrase

def text (vi : Bool) : Phrase → Text
  | manual => phrase vi "Manual" "Thủ công"
  | custom => phrase vi "Custom schedule" "Lịch tùy chỉnh"
  | everyHour => phrase vi "Every hour" "Mỗi giờ"
  | everyHours n => phrase vi "Every " "Mỗi " ++ Nat.toDigits 10 n ++ phrase vi " hours" " giờ"
  | timed days hour minute => days.lead vi ++ clock hour minute

/-- A second that the sentence names. -/
def Names (w : Int) : Phrase → Prop
  | manual | custom => False
  | everyHour => minute w = 0 ∧ second w = 0
  | everyHours n => n ∣ hour w ∧ minute w = 0 ∧ second w = 0
  | timed days h m =>
      days.Holds (daysFromSunday (dayOf w)) ∧ hour w = h ∧ minute w = m ∧ second w = 0

/-- The sentence names times. -/
def Tells : Phrase → Prop
  | manual | custom => False
  | _ => True

end Phrase

/-- The days of a word; 7 is Sunday, too. -/
def daysOf (dow : Text) : Option Days :=
  if dow = ['*'] then some .every
  else if dow = "1-5".toList then some .working
  else ((List.range 8).find? (dow = Nat.toDigits 10 ·)).map fun k => .on (Fin.ofNat 7 k)

/-- An expression whose words are `min`, `hour`, `*`, `*` and `dow`, and its sentence. -/
inductive Shape : Text → Text → Text → Phrase → Prop where
  | everyHour : Shape ['0'] ['*'] ['*'] .everyHour
  | everyHours {step : Text} {n : Nat} : parseU32 step = some n → 0 < n →
      Shape ['0'] ('*' :: '/' :: step) ['*'] (.everyHours n)
  | timed {min hour dow : Text} {days : Days} {h : Fin 24} {m : Fin 60} :
      parseU32 min = some ↑m → parseU32 hour = some ↑h → daysOf dow = some days →
      Shape min hour dow (.timed days h m)

section

variable {cron min hour dow step : Text} {n : Nat} {vi : Bool} {p q : Phrase}

-- ============================================================================
-- What is recognised
-- ============================================================================

theorem hourStep_some (h : hourStep hour = some n) :
    ∃ step, hour = '*' :: '/' :: step ∧ parseU32 step = some n ∧ 0 < n := by
  unfold hourStep at h
  split at h
  · rename_i step
    obtain ⟨hstep, hpos⟩ := Option.filter_eq_some_iff.mp h
    exact ⟨step, rfl, hstep, of_decide_eq_true hpos⟩
  · cases h

theorem timeOfDay_some {minute hourN : Nat} (h : timeOfDay min hour = some (minute, hourN)) :
    ∃ (m : Fin 60) (k : Fin 24), minute = m ∧ hourN = k ∧ parseU32 min = some ↑m ∧
      parseU32 hour = some ↑k := by
  unfold timeOfDay at h
  split at h
  · rename_i hmin hhour
    split at h
    · rename_i hlt
      obtain ⟨rfl, rfl⟩ := Prod.mk.inj (Option.some.inj h)
      exact ⟨⟨_, hlt.1⟩, ⟨_, hlt.2⟩, rfl, rfl, hmin, hhour⟩
    · cases h
  · cases h

/-- The names of the days are those of `weekday_name`. -/
theorem weekdayName_eq (hevery : dow ≠ ['*']) (hworking : dow ≠ "1-5".toList) :
    (∃ day, daysOf dow = some (.on day) ∧ ∀ vi, weekdayName vi dow = some (dayName vi day)) ∨
      ∀ vi, weekdayName vi dow = none := by
  unfold daysOf
  rw [if_neg hevery, if_neg hworking]
  cases hfind : (List.range 8).find? (dow = Nat.toDigits 10 ·) with
  | some k =>
    have hk : k < 8 := List.mem_range.mp (List.mem_of_find?_eq_some hfind)
    have hdow : dow = Nat.toDigits 10 k := by simpa using List.find?_some hfind
    have hnames : ∀ k < 8, ∀ vi,
        weekdayName vi (Nat.toDigits 10 k) = some (dayName vi (Fin.ofNat 7 k)) := by
      intro k hk vi
      interval_cases k <;> rfl
    exact .inl ⟨_, rfl, fun vi => hdow ▸ hnames k hk vi⟩
  | none =>
    have hnone : ∀ k < 8, dow ≠ Nat.toDigits 10 k := fun k hk heq => by
      have := List.find?_eq_none.mp hfind k (List.mem_range.mpr hk)
      exact this (decide_eq_true heq)
    refine .inr fun vi => ?_
    unfold weekdayName
    split
    · exact absurd rfl (hnone 0 (by decide))
    · exact absurd rfl (hnone 7 (by decide))
    · exact absurd rfl (hnone 1 (by decide))
    · exact absurd rfl (hnone 2 (by decide))
    · exact absurd rfl (hnone 3 (by decide))
    · exact absurd rfl (hnone 4 (by decide))
    · exact absurd rfl (hnone 5 (by decide))
    · exact absurd rfl (hnone 6 (by decide))
    · rfl

/-- A label says nothing of times, or the words have a shape that it tells. -/
theorem cronLabel_cases (cron : Text) :
    (∃ p : Phrase, ¬ p.Tells ∧ (p = .manual ↔ trim cron = []) ∧
      ∀ vi, cronLabel vi cron = p.text vi) ∨
    ∃ min hour dow p, splitWhitespace (trim cron) = [min, hour, ['*'], ['*'], dow] ∧
      Shape min hour dow p ∧ ∀ vi, cronLabel vi cron = p.text vi := by
  by_cases hempty : trim cron = []
  · refine .inl ⟨.manual, id, iff_of_true rfl hempty, fun vi => ?_⟩
    simp [cronLabel, hempty, Phrase.text]
  have hcustom {label : Bool → Text} (h : ∀ vi, label vi = Phrase.custom.text vi) :
      ∃ p : Phrase, ¬ p.Tells ∧ (p = .manual ↔ trim cron = []) ∧ ∀ vi, label vi = p.text vi :=
    ⟨.custom, id, iff_of_false Phrase.noConfusion hempty, h⟩
  unfold cronLabel
  simp only [if_neg hempty]
  split
  · rename_i min hour dom month dow hwords
    by_cases hall : dom = ['*'] ∧ month = ['*']
    · obtain ⟨rfl, rfl⟩ := hall
      simp only [and_self, if_true]
      by_cases hhourly : min = ['0'] ∧ hour = ['*'] ∧ dow = ['*']
      · obtain ⟨rfl, rfl, rfl⟩ := hhourly
        exact .inr ⟨_, _, _, .everyHour, hwords, .everyHour, fun vi => rfl⟩
      simp only [if_neg hhourly]
      cases hstep : if min = ['0'] ∧ dow = ['*'] then hourStep hour else none with
      | some n =>
        split at hstep
        · rename_i hmin
          obtain ⟨rfl, rfl⟩ := hmin
          obtain ⟨step, rfl, hparse, hpos⟩ := hourStep_some hstep
          exact .inr ⟨_, _, _, .everyHours n, hwords, .everyHours hparse hpos, fun vi => rfl⟩
        · cases hstep
      | none =>
        simp only
        cases htime : timeOfDay min hour with
        | none =>
          simp only
          exact .inl (hcustom fun _ => rfl)
        | some mh =>
          obtain ⟨minute, hourN⟩ := mh
          simp only
          obtain ⟨m, k, rfl, rfl, hm, hk⟩ := timeOfDay_some htime
          by_cases hevery : dow = ['*']
          · subst hevery
            exact .inr ⟨_, _, _, .timed .every k m, hwords, .timed hm hk rfl, fun vi => rfl⟩
          by_cases hworking : dow = "1-5".toList
          · subst hworking
            exact .inr ⟨_, _, _, .timed .working k m, hwords, .timed hm hk rfl, fun vi => rfl⟩
          simp only [if_neg hevery, if_neg hworking]
          rcases weekdayName_eq hevery hworking with ⟨day, hdays, hname⟩ | hnone
          · refine .inr ⟨_, _, _, .timed (.on day) k m, hwords, .timed hm hk hdays, fun vi => ?_⟩
            rw [hname vi]
            simp [Phrase.text, Days.lead, clock]
          · simp only [hnone]
            exact .inl (hcustom fun _ => rfl)
    · simp only [if_neg hall]
      exact .inl (hcustom fun _ => rfl)
  · exact .inl (hcustom fun _ => rfl)

-- ============================================================================
-- What the engine makes of it
-- ============================================================================

/-- A word of digits and signs. -/
def IsPlain (w : Text) : Prop := ∀ c ∈ w, c.isDigit = true ∨ c ∈ ['+', '*', '/', '-']

theorem isPlain_char {c : Char} (h : c.isDigit = true ∨ c ∈ ['+', '*', '/', '-']) :
    Text.isWhitespace c = false ∧ toLowercase [c] = [c] ∧ c ≠ ',' := by
  have hdigits : ∀ n < 58, 48 ≤ n →
      toLowercase [Char.ofNat n] = [Char.ofNat n] ∧ Char.ofNat n ≠ ',' := by decide
  have hsigns : ∀ c ∈ ['+', '*', '/', '-'],
      Text.isWhitespace c = false ∧ toLowercase [c] = [c] ∧ c ≠ ',' := by
    intro c hc
    simp only [List.mem_cons, List.not_mem_nil, or_false] at hc
    rcases hc with rfl | rfl | rfl | rfl <;> decide
  rcases h with h | h
  · refine ⟨not_whitespace_of_isDigit h, ?_⟩
    rw [Char.isDigit, Bool.and_eq_true, decide_eq_true_eq, decide_eq_true_eq] at h
    have hlow : 48 ≤ c.toNat := h.1
    have hhigh : c.toNat ≤ 57 := h.2
    have := hdigits c.toNat (by omega) hlow
    rwa [Char.ofNat_toNat] at this
  · exact hsigns c h

theorem parseU32_chars (h : parseU32 step = some n) :
    step ≠ [] ∧ ∀ c ∈ step, c.isDigit = true ∨ c = '+' := by
  unfold parseU32 at h
  simp only at h
  split at h
  · rename_i rest
    refine ⟨List.cons_ne_nil _ _, fun c hc => ?_⟩
    split at h
    · rename_i hdigits
      rcases List.mem_cons.mp hc with rfl | hc
      · exact .inr rfl
      · exact .inl (List.all_eq_true.mp hdigits.2 c hc)
    · cases h
  · split at h
    · rename_i hdigits
      exact ⟨hdigits.1, fun c hc => .inl (List.all_eq_true.mp hdigits.2 c hc)⟩
    · cases h

theorem IsPlain.of_parseU32 (h : parseU32 step = some n) : IsPlain step := by
  intro c hc
  rcases (parseU32_chars h).2 c hc with hdigit | rfl
  · exact .inl hdigit
  · exact .inr List.mem_cons_self

theorem IsPlain.lower {w : Text} (h : IsPlain w) : toLowercase (trim w) = w := by
  have htrim : trim w = w := Text.trim_of_ends
    (fun c hc => (isPlain_char (h c (List.mem_of_mem_head? hc))).1)
    (fun c hc => (isPlain_char (h c (List.mem_of_mem_getLast? hc))).1)
  rw [htrim]
  clear htrim
  induction w with
  | nil => rfl
  | cons c w ih =>
    have hc := (isPlain_char (h c List.mem_cons_self)).2.1
    have hw := ih fun d hd => h d (List.mem_cons_of_mem _ hd)
    show toLowercase ([c] ++ w) = [c] ++ w
    rw [toLowercase, List.flatMap_append, ← toLowercase, ← toLowercase, hc, hw]

/-- A plain word is the only item of its field. -/
theorem readItems_plain {w : Text} (h : IsPlain w) (names : List Text) (nameBase : Nat) :
    readItems w names nameBase = (readItem names nameBase w).map ([·]) := by
  have hcomma : ∀ c ∈ w, (c == ',') = false := fun c hc => by
    simpa using (isPlain_char (h c hc)).2.2
  unfold readItems
  rw [h.lower, List.splitOn, List.splitOnP_eq_singleton hcomma]
  cases h : readItem names nameBase w <;> simp [h]

/-- The engine reads the word as a field, and its numbers are those of `P`. -/
def Denotes (w : Text) (min max : Nat) (names : List Text) (nameBase : Nat) (P : Nat → Prop) :
    Prop :=
  ∃ f : Field max, parseField w min max names nameBase = .ok f ∧
    ∀ v, f.mask.testBit v = true ↔ P v

theorem Denotes.congr {w : Text} {min max nameBase : Nat} {names : List Text} {P Q : Nat → Prop}
    (h : Denotes w min max names nameBase P) (hiff : ∀ v, P v ↔ Q v) :
    Denotes w min max names nameBase Q := by
  obtain ⟨f, hf, hmask⟩ := h
  exact ⟨f, hf, fun v => (hmask v).trans (hiff v)⟩

/-- The field of a plain word denotes what its item does. -/
theorem denotes_plain {w : Text} {min max nameBase : Nat} {names : List Text} {i : Item}
    (hplain : IsPlain w) (hread : readItem names nameBase w = some i) (hmin : min ≤ i.lo min)
    (hle : i.lo min ≤ i.hi max) (hhi : i.hi max ≤ max) (hmax : max < 64)
    (hfit : i.lo min + i.step < 2 ^ 32) :
    Denotes w min max names nameBase (· ∈ i.values min max) := by
  have hitems : readItems w names nameBase = some [i] := by
    rw [readItems_plain hplain, hread]
    rfl
  obtain ⟨f, hf⟩ := parseField_of_wellFormed ⟨[i], hitems, fun j hj => by
    obtain rfl := List.mem_singleton.mp hj
    exact ⟨hmin, hle, hhi⟩⟩
  refine ⟨f, hf, fun v => ?_⟩
  obtain ⟨items, hitems', hbounds, hmask⟩ := parseField_ok hf
  obtain rfl := Option.some.inj (hitems'.symm.trans hitems)
  obtain ⟨-, -, -, hpos, h32⟩ := hbounds i List.mem_cons_self
  rw [hmask v]
  simp only [List.mem_singleton, exists_eq_left]
  rw [testBit_maskRange hle (by omega) hpos h32]
  refine or_iff_left_of_imp ?_
  -- the first addition fits, so the loop comes back to no number
  rintro ⟨k, hk⟩
  cases k with
  | zero => exact ⟨by omega, by omega, 0, by omega⟩
  | succ k =>
    rw [Nat.add_mul] at hk
    have := Nat.zero_le (k * (2 ^ 32 - i.step))
    omega

theorem readItem_star (names : List Text) (nameBase : Nat) :
    readItem names nameBase ['*'] = some (.all 1) := rfl

theorem not_mem_of_parseU32 {c : Char} (h : parseU32 step = some n)
    (hdigit : c.isDigit = false) (hplus : c ≠ '+') : c ∉ step := by
  intro hc
  rcases (parseU32_chars h).2 c hc with htrue | rfl
  · rw [hdigit] at htrue
    cases htrue
  · exact hplus rfl

theorem splitOn_of_parseU32 (h : parseU32 step = some n) : step.splitOn '/' = [step] := by
  refine List.splitOnP_eq_singleton fun c hc => ?_
  rw [beq_eq_false_iff_ne]
  rintro rfl
  exact not_mem_of_parseU32 h (by decide) (by decide) hc

theorem readItem_number (h : parseU32 step = some n) (names : List Text) (nameBase : Nat) :
    readItem names nameBase step = some (.value n) := by
  have hstar : ¬ (step = ['*'] ∨ step = ['?']) := by
    rintro (rfl | rfl)
    · exact not_mem_of_parseU32 h (by decide) (by decide) List.mem_cons_self
    · exact not_mem_of_parseU32 h (by decide) (by decide) List.mem_cons_self
  unfold readItem
  rw [splitOn_of_parseU32 h]
  show readRange names nameBase step none = _
  unfold readRange
  rw [if_neg hstar, if_neg (not_mem_of_parseU32 h (by decide) (by decide)), parseBound, h]
  rfl

theorem readItem_step (h : parseU32 step = some n) (hpos : 0 < n) (names : List Text)
    (nameBase : Nat) : readItem names nameBase ('*' :: '/' :: step) = some (.all n) := by
  have hsplit : ('*' :: '/' :: step).splitOn '/' = [['*'], step] := by
    show (['*'] ++ '/' :: step).splitOn '/' = _
    rw [List.splitOn, List.splitOnP_append_cons_of_forall_mem (by simp) '/' (by decide)]
    exact congrArg _ (splitOn_of_parseU32 h)
  unfold readItem
  rw [hsplit]
  simp only [h, if_neg (Nat.ne_of_gt hpos)]
  rfl

section

variable {max nameBase : Nat} {names : List Text}

theorem denotes_star {min : Nat} (hmin : min ≤ max) (hmax : max < 64) :
    Denotes ['*'] min max names nameBase fun v => min ≤ v ∧ v ≤ max := by
  have hplain : IsPlain ['*'] := fun c hc => .inr (by simp_all)
  have hitem : Denotes ['*'] min max names nameBase (· ∈ (Item.all 1).values min max) :=
    denotes_plain hplain (readItem_star names nameBase) (Nat.le_refl min) hmin (Nat.le_refl max)
      hmax (show min + 1 < 2 ^ 32 by omega)
  refine hitem.congr fun v => ⟨fun hv => ⟨hv.1, hv.2.1⟩, ?_⟩
  rintro ⟨hlo, hhi⟩
  exact ⟨hlo, hhi, v - min, show min + (v - min) * 1 = v by omega⟩

theorem denotes_number (h : parseU32 step = some n) (hn : n ≤ max) (hmax : max < 64) :
    Denotes step 0 max names nameBase fun v => v = n := by
  have hitem : Denotes step 0 max names nameBase (· ∈ (Item.value n).values 0 max) :=
    denotes_plain (.of_parseU32 h) (readItem_number h names nameBase) (Nat.zero_le n)
      (Nat.le_refl n) hn hmax (show n + 1 < 2 ^ 32 by omega)
  refine hitem.congr fun v => ⟨fun hv => Nat.le_antisymm hv.2.1 hv.1, ?_⟩
  rintro rfl
  exact ⟨Nat.le_refl v, Nat.le_refl v, 0, by simp [Item.lo]⟩

/-- Every so many hours: a step beyond the last hour leaves midnight. -/
theorem denotes_step (h : parseU32 step = some n) (hpos : 0 < n) (hmax : max < 64) :
    Denotes ('*' :: '/' :: step) 0 max names nameBase fun v => n ∣ v ∧ v ≤ max := by
  have hplain : IsPlain ('*' :: '/' :: step) := by
    intro c hc
    rcases List.mem_cons.mp hc with rfl | hc
    · exact .inr (by decide)
    rcases List.mem_cons.mp hc with rfl | hc
    · exact .inr (by decide)
    · exact IsPlain.of_parseU32 h c hc
  have hfit : 0 + n < 2 ^ 32 := by
    have := Argon2id.parseU32_lt h
    omega
  have hitem : Denotes ('*' :: '/' :: step) 0 max names nameBase
      (· ∈ (Item.all n).values 0 max) :=
    denotes_plain hplain (readItem_step h hpos names nameBase) (Nat.le_refl 0) (Nat.zero_le max)
      (Nat.le_refl max) hmax hfit
  refine hitem.congr fun v => ⟨?_, ?_⟩
  · rintro ⟨-, hhi, k, hk⟩
    have hk : 0 + k * n = v := hk
    exact ⟨⟨k, by rw [Nat.mul_comm]; omega⟩, hhi⟩
  · rintro ⟨⟨k, rfl⟩, hhi⟩
    exact ⟨Nat.zero_le _, hhi, k, show 0 + k * n = n * k by rw [Nat.zero_add, Nat.mul_comm]⟩

end

/-- The days of a field of the week, with 7 as Sunday. -/
theorem foldSunday_days {P : Nat → Prop} (h : Denotes dow 0 7 dowNames 0 P) :
    ∃ f : Field 7, parseField dow 0 7 dowNames 0 = .ok f ∧
      ∀ d, f.foldSunday.contains d = true ↔ ∃ v, P v ∧ v % 7 = d := by
  obtain ⟨f, hf, hmask⟩ := h
  refine ⟨f, hf, fun d => (contains_foldSunday f d).trans ?_⟩
  exact exists_congr fun v => and_congr_left fun _ => hmask v

theorem days_working :
    Denotes "1-5".toList 0 7 dowNames 0 fun v => 1 ≤ v ∧ v ≤ 5 := by
  have hplain : IsPlain "1-5".toList := by
    intro c hc
    have hc : c ∈ ['1', '-', '5'] := hc
    simp only [List.mem_cons, List.not_mem_nil, or_false] at hc
    rcases hc with rfl | rfl | rfl <;> decide
  have hitem : Denotes "1-5".toList 0 7 dowNames 0 (· ∈ (Item.range 1 5 1).values 0 7) :=
    denotes_plain hplain (by decide +kernel) (by decide) (by decide) (by decide) (by decide)
      (by decide)
  refine hitem.congr fun v => ⟨fun hv => ⟨hv.1, hv.2.1⟩, ?_⟩
  rintro ⟨hlo, hhi⟩
  exact ⟨hlo, hhi, v - 1, show 1 + (v - 1) * 1 = v by omega⟩

/-- The engine fires on the days that the label names. -/
theorem days_field {days : Days} (h : daysOf dow = some days) :
    ∃ f : Field 7, parseField dow 0 7 dowNames 0 = .ok f ∧
      ∀ d < 7, f.foldSunday.contains d = true ↔ days.Holds d := by
  unfold daysOf at h
  split at h
  · rename_i hall
    subst hall
    obtain rfl := Option.some.inj h
    have hstar : Denotes ['*'] 0 7 dowNames 0 fun v => 0 ≤ v ∧ v ≤ 7 :=
      denotes_star (by decide) (by decide)
    obtain ⟨f, hf, hdays⟩ := foldSunday_days hstar
    exact ⟨f, hf, fun d hd => iff_of_true ((hdays d).mpr ⟨d, by omega, by omega⟩) trivial⟩
  · split at h
    · rename_i hworking
      subst hworking
      obtain rfl := Option.some.inj h
      obtain ⟨f, hf, hdays⟩ := foldSunday_days days_working
      refine ⟨f, hf, fun d hd => (hdays d).trans ⟨?_, fun hd => ⟨d, hd, by have := hd.2; omega⟩⟩⟩
      rintro ⟨v, hv, rfl⟩
      show 1 ≤ v % 7 ∧ v % 7 ≤ 5
      omega
    · obtain ⟨k, hfind, rfl⟩ := Option.map_eq_some_iff.mp h
      have hk : k < 8 := List.mem_range.mp (List.mem_of_find?_eq_some hfind)
      have hdow : dow = Nat.toDigits 10 k := by simpa using List.find?_some hfind
      have hparse : ∀ k < 8, parseU32 (Nat.toDigits 10 k) = some k := by decide
      obtain ⟨f, hf, hdays⟩ := foldSunday_days
        (denotes_number (hdow ▸ hparse k hk) (Nat.le_of_lt_succ hk) (by decide))
      refine ⟨f, hf, fun d _ => (hdays d).trans ⟨?_, fun hd => ⟨k, rfl, hd.symm⟩⟩⟩
      rintro ⟨v, rfl, rfl⟩
      rfl

theorem dayOfMonth_bounds (d : Int) : 1 ≤ dayOfMonth d ∧ dayOfMonth d ≤ 31 := by
  have hgap : ∀ leap, ∀ m < 13, daysBefore leap (m + 1) ≤ daysBefore leap m + 31 := by decide
  obtain ⟨-, hlast, hlow, hhigh⟩ := month_bounds d
  have := hgap (isLeap (year d)) (month d) (Nat.lt_succ_of_le hlast)
  unfold dayOfMonth
  unfold monthStart at *
  omega

/-- The schedule of five words of which the third and the fourth are stars. -/
theorem schedule_of_words (pd : Text → Option Int) {M H : Nat → Prop} {days : Days}
    (hwords : splitWhitespace (trim cron) = [min, hour, ['*'], ['*'], dow])
    (hat : min.head? ≠ some '@') (hmin : Denotes min 0 59 [] 0 M)
    (hhour : Denotes hour 0 23 [] 0 H) (hdays : daysOf dow = some days) :
    ∃ s, CronSchedule.parse pd cron = .ok s ∧ s.everySeconds = none ∧
      ∀ w, s.Matches w ↔ days.Holds (daysFromSunday (dayOf w)) ∧ H (Calendar.hour w) ∧
        M (minute w) ∧ second w = 0 := by
  obtain ⟨fs, hfs, hsecond⟩ : Denotes "0".toList 0 59 [] 0 fun v => v = 0 :=
    denotes_number (by decide) (by decide) (by decide)
  obtain ⟨fm, hfm, hmin⟩ := hmin
  obtain ⟨fh, hfh, hhour⟩ := hhour
  obtain ⟨fd, hfd, hdom⟩ : Denotes ['*'] 1 31 [] 0 fun v => 1 ≤ v ∧ v ≤ 31 :=
    denotes_star (by decide) (by decide)
  obtain ⟨fmon, hfmon, hmonth⟩ : Denotes ['*'] 1 12 monthNames 1 fun v => 1 ≤ v ∧ v ≤ 12 :=
    denotes_star (by decide) (by decide)
  obtain ⟨fw, hfw, hdow⟩ := days_field hdays
  have hne : trim cron ≠ [] := by
    intro hnil
    rw [hnil] at hwords
    cases hwords
  have hat' : (trim cron).head? ≠ some '@' := by
    intro hhead
    obtain ⟨rest, hrest⟩ : ∃ rest, trim cron = '@' :: rest := List.head?_eq_some_iff.mp hhead
    obtain ⟨w, ws, hw⟩ := Text.head_splitWhitespace (c := '@') (s := rest) (by decide)
    rw [hrest, hw] at hwords
    have hfirst := (List.cons.inj hwords).1
    exact hat (hfirst ▸ rfl)
  have hparse : CronSchedule.parse pd cron = .ok {
      seconds := fs, minutes := fm, hours := fh, dom := fd, months := fmon, dow := fw.foldSunday
      domRestricted := isRestricted ['*']
      dowRestricted := isRestricted dow
      everySeconds := none
      every_pos := by simp } := by
    rw [parse_fields hne hat', hwords]
    show (parseField "0".toList 0 59 [] 0 >>= fun s => parseField min 0 59 [] 0 >>= fun m =>
      parseField hour 0 23 [] 0 >>= fun h => parseField ['*'] 1 31 [] 0 >>= fun d =>
      parseField ['*'] 1 12 monthNames 1 >>= fun mon => parseField dow 0 7 dowNames 0 >>= fun w =>
      Except.ok (ε := CronError) (CronSchedule.mk s m h d mon w.foldSunday (isRestricted ['*'])
        (isRestricted dow) none (by simp))) = _
    rw [hfs, hfm, hfh, hfd, hfmon, hfw]
    rfl
  refine ⟨_, hparse, rfl, fun w => ?_⟩
  have hmonth' : fmon.contains (month (dayOf w)) = true :=
    (fmon.contains_iff (by decide)).mpr ((hmonth _).mpr
      ⟨(month_bounds (dayOf w)).1, (month_bounds (dayOf w)).2.1⟩)
  have hdom' : fd.contains (dayOfMonth (dayOf w)) = true :=
    (fd.contains_iff (by decide)).mpr ((hdom _).mpr (dayOfMonth_bounds (dayOf w)))
  have hweek : daysFromSunday (dayOf w) < 7 := by
    unfold daysFromSunday
    omega
  have hstar : isRestricted ['*'] = false := by decide
  unfold CronSchedule.Matches CronSchedule.dayMatches
  simp only [hmonth', hdom', hstar, Bool.false_and, Bool.true_and, true_and, Bool.false_eq_true,
    if_false, hdow _ hweek, fh.contains_iff (by decide), fm.contains_iff (by decide),
    fs.contains_iff (by decide), hhour, hmin, hsecond]

/-- The engine fires when the sentence says. -/
theorem Shape.schedule (pd : Text → Option Int) (h : Shape min hour dow p)
    (hwords : splitWhitespace (trim cron) = [min, hour, ['*'], ['*'], dow]) :
    ∃ s, CronSchedule.parse pd cron = .ok s ∧ s.everySeconds = none ∧
      ∀ w, s.Matches w ↔ p.Names w := by
  have hzero : Denotes ['0'] 0 59 [] 0 fun v => v = 0 :=
    denotes_number (by decide) (by decide) (by decide)
  have hevery : daysOf ['*'] = some .every := rfl
  cases h with
  | everyHour =>
    have hall : Denotes ['*'] 0 23 [] 0 fun v => 0 ≤ v ∧ v ≤ 23 :=
      denotes_star (by decide) (by decide)
    obtain ⟨s, hs, hnone, hw⟩ := schedule_of_words pd hwords (by decide) hzero hall hevery
    refine ⟨s, hs, hnone, fun w => (hw w).trans ⟨fun h => h.2.2, fun h => ⟨trivial, ?_, h⟩⟩⟩
    have := hour_lt w
    omega
  | everyHours hstep hpos =>
    obtain ⟨s, hs, hnone, hw⟩ := schedule_of_words pd hwords (by decide) hzero
      (denotes_step hstep hpos (by decide)) hevery
    refine ⟨s, hs, hnone, fun w => (hw w).trans ?_⟩
    have := hour_lt w
    constructor
    · rintro ⟨-, ⟨hdvd, -⟩, hrest⟩
      exact ⟨hdvd, hrest⟩
    · rintro ⟨hdvd, hrest⟩
      exact ⟨trivial, ⟨hdvd, by omega⟩, hrest⟩
  | @timed _ _ _ days h m hmin hhour hdays =>
    have hat : min.head? ≠ some '@' := by
      intro hhead
      exact not_mem_of_parseU32 hmin (by decide) (by decide) (List.mem_of_mem_head? hhead)
    obtain ⟨s, hs, hevery, hw⟩ := schedule_of_words pd hwords hat
      (denotes_number hmin (by omega) (by decide)) (denotes_number hhour (by omega) (by decide))
      hdays
    exact ⟨s, hs, hevery, hw⟩

-- ============================================================================
-- Sentences are told apart
-- ============================================================================

theorem read_twoDigits : ∀ k < 60, (twoDigits k).length = 2 ∧
    Nat.ofDigitChars 10 (twoDigits k) 0 = k := by
  decide +kernel

theorem clock_inj {h k m l : Nat} (hh : h < 24) (hk : k < 24) (hm : m < 60) (hl : l < 60)
    (heq : clock h m = clock k l) : h = k ∧ m = l := by
  obtain ⟨hlen, hread⟩ := read_twoDigits h (by omega)
  obtain ⟨hlen', hread'⟩ := read_twoDigits k (by omega)
  obtain ⟨hhour, hrest⟩ := List.append_inj heq (hlen.trans hlen'.symm)
  have hminute := (List.cons.inj hrest).2
  constructor
  · rw [← hread, hhour, hread']
  · rw [← (read_twoDigits m hm).2, hminute, (read_twoDigits l hl).2]

theorem length_clock {h m : Nat} (hh : h < 24) (hm : m < 60) : (clock h m).length = 5 := by
  unfold clock
  rw [List.length_append, List.length_cons, (read_twoDigits h (by omega)).1,
    (read_twoDigits m hm).1]

theorem dayNames (vi : Bool) :
    dayName vi 0 = phrase vi "Sunday" "Chủ nhật" ∧ dayName vi 1 = phrase vi "Monday" "thứ Hai" ∧
      dayName vi 2 = phrase vi "Tuesday" "thứ Ba" ∧ dayName vi 3 = phrase vi "Wednesday" "thứ Tư" ∧
      dayName vi 4 = phrase vi "Thursday" "thứ Năm" ∧ dayName vi 5 = phrase vi "Friday" "thứ Sáu" ∧
      dayName vi 6 = phrase vi "Saturday" "thứ Bảy" :=
  ⟨rfl, rfl, rfl, rfl, rfl, rfl, rfl⟩

theorem leads_nodup (vi : Bool) :
    (([.every, .working, .on 0, .on 1, .on 2, .on 3, .on 4, .on 5, .on 6] : List Days).map
      (Days.lead vi)).Nodup := by
  obtain ⟨h₀, h₁, h₂, h₃, h₄, h₅, h₆⟩ := dayNames vi
  simp only [List.map, Days.lead, h₀, h₁, h₂, h₃, h₄, h₅, h₆, phrase]
  cases vi
  all_goals
    simp only [Bool.false_eq_true, if_false, if_true]
    repeat rw [String.toList_ofList]
    decide +kernel

theorem lead_injective (vi : Bool) : Function.Injective (Days.lead vi) := by
  have hall : ∀ d : Days, d ∈
      ([.every, .working, .on 0, .on 1, .on 2, .on 3, .on 4, .on 5, .on 6] : List Days) := by
    intro d
    cases d with
    | every => decide
    | working => decide
    | on day => revert day; decide
  exact fun d e h => List.inj_on_of_nodup_map (leads_nodup vi) (hall d) (hall e) h

namespace Phrase

theorem colon_mem_text {days : Days} {h : Fin 24} {m : Fin 60} :
    ':' ∈ (timed days h m).text vi :=
  List.mem_append_right _ (List.mem_append_right _ List.mem_cons_self)

theorem isDigit_everyHours (n : Nat) : ((everyHours n).text vi).any Char.isDigit = true := by
  obtain ⟨c, t, hdigits⟩ := List.exists_cons_of_ne_nil (Nat.toDigits_ne_nil (n := n) (b := 10))
  have hc : c.isDigit = true :=
    List.all_eq_true.mp (toDigits_all n) c (hdigits ▸ List.mem_cons_self)
  refine List.any_eq_true.mpr ⟨c, ?_, hc⟩
  exact List.mem_append_left _ (List.mem_append_right _ (hdigits ▸ List.mem_cons_self))

theorem colon_not_mem_everyHours (n : Nat) : ':' ∉ (everyHours n).text vi := by
  have hends : ∀ vi, ':' ∉ phrase vi "Every " "Mỗi " ∧ ':' ∉ phrase vi " hours" " giờ" := by
    decide +kernel
  intro hmem
  rcases List.mem_append.mp hmem with hmem | hmem
  · rcases List.mem_append.mp hmem with hmem | hmem
    · exact (hends vi).1 hmem
    · exact absurd (Nat.isDigit_of_mem_toDigits (by decide) (by decide) hmem) (by decide)
  · exact (hends vi).2 hmem

/-- The sentences without a number. -/
theorem text_plain (vi : Bool) :
    ([manual, custom, everyHour].map (text vi)).Nodup ∧
      ∀ p ∈ [manual, custom, everyHour],
        ':' ∉ p.text vi ∧ (p.text vi).any Char.isDigit = false := by
  simp only [List.map, List.forall_mem_cons, text, phrase]
  cases vi
  all_goals
    simp only [Bool.false_eq_true, if_false, if_true]
    repeat rw [String.toList_ofList]
    decide +kernel

/-- No two sentences read alike. -/
theorem text_injective (vi : Bool) : Function.Injective (text vi) := by
  obtain ⟨hnodup, hplain⟩ := text_plain vi
  -- a sentence without a number is no other, and none with one
  have hclosed : ∀ p ∈ [manual, custom, everyHour], ∀ q : Phrase,
      p.text vi = q.text vi → p = q := by
    intro p hp q heq
    obtain ⟨hcolon, hdigit⟩ := hplain p hp
    rw [heq] at hcolon hdigit
    cases q with
    | manual => exact List.inj_on_of_nodup_map hnodup hp (by decide) heq
    | custom => exact List.inj_on_of_nodup_map hnodup hp (by decide) heq
    | everyHour => exact List.inj_on_of_nodup_map hnodup hp (by decide) heq
    | everyHours n =>
      rw [isDigit_everyHours] at hdigit
      cases hdigit
    | timed days h m => exact absurd colon_mem_text hcolon
  intro p q heq
  cases p with
  | manual => exact hclosed manual (by decide) q heq
  | custom => exact hclosed custom (by decide) q heq
  | everyHour => exact hclosed everyHour (by decide) q heq
  | everyHours n =>
    cases q with
    | manual => exact (hclosed manual (by decide) _ heq.symm).symm
    | custom => exact (hclosed custom (by decide) _ heq.symm).symm
    | everyHour => exact (hclosed everyHour (by decide) _ heq.symm).symm
    | everyHours k =>
      have hdigits : Nat.toDigits 10 n = Nat.toDigits 10 k :=
        List.append_cancel_left (List.append_cancel_right heq)
      have hread := congrArg (Nat.ofDigitChars 10 · 0) hdigits
      simp only [Nat.ofDigitChars_ten_toDigits] at hread
      rw [hread]
    | timed days h m =>
      exact absurd (heq ▸ colon_mem_text) (colon_not_mem_everyHours n)
  | timed days h m =>
    cases q with
    | manual => exact (hclosed manual (by decide) _ heq.symm).symm
    | custom => exact (hclosed custom (by decide) _ heq.symm).symm
    | everyHour => exact (hclosed everyHour (by decide) _ heq.symm).symm
    | everyHours k =>
      exact absurd (heq ▸ colon_mem_text) (colon_not_mem_everyHours k)
    | timed days' h' m' =>
      have hlen : (clock h m).length = (clock h' m').length :=
        (length_clock h.isLt m.isLt).trans (length_clock h'.isLt m'.isLt).symm
      obtain ⟨hlead, hclock⟩ := List.append_inj' heq hlen
      obtain ⟨hh, hm⟩ := clock_inj h.isLt h'.isLt m.isLt m'.isLt hclock
      rw [lead_injective vi hlead, Fin.ext hh, Fin.ext hm]

end Phrase

end

end GnDrive.Gpui.CronLabel
