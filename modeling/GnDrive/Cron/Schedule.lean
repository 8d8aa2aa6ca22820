/-
  GnDrive.Cron.Schedule

  Cron expressions (`cron.rs`): 5 fields, 6 fields with leading seconds, and
  the `@descriptors`, parsed into bit masks of the allowed values.

  A `Field max` allows no value above `max`, and the interval of an `@every`
  schedule is at least a second: `CronSchedule` carries both, so what holds of
  every `CronSchedule` holds of every schedule the parser accepts.
-/

import GnDrive.Argon2id
import GnDrive.Lib.Text

namespace GnDrive.Cron

open Text (trim splitWhitespace toLowercase)

inductive CronError where
  | empty
  | badFieldCount (n : Nat)
  | invalid (expr : Text)
deriving DecidableEq, Repr

def monthNames : List Text :=
  ["jan".toList, "feb".toList, "mar".toList, "apr".toList, "may".toList, "jun".toList,
    "jul".toList, "aug".toList, "sep".toList, "oct".toList, "nov".toList, "dec".toList]

def dowNames : List Text :=
  ["sun".toList, "mon".toList, "tue".toList, "wed".toList, "thu".toList, "fri".toList,
    "sat".toList]

/-! ## Fields -/

/-- Bitmask of allowed values, none above `max`. -/
structure Field (max : Nat) where
  mask : Nat
  mask_lt : mask < 2 ^ (max + 1)
deriving DecidableEq, Repr

/-- `u64::trailing_zeros`. -/
def trailingZeros (m : Nat) : Nat := ((List.range 64).find? m.testBit).getD 64

namespace Field

variable {max : Nat}

def contains (f : Field max) (v : Nat) : Bool := v < 64 && f.mask.testBit v

/-- First allowed value >= v. -/
def atOrAfter (f : Field max) (v : Nat) : Option Nat :=
  if v ≥ 64 then none
  else
    let m := f.mask >>> v
    if m = 0 then none else some (v + trailingZeros m)

theorem testBit_le {f : Field max} {v : Nat} (h : f.mask.testBit v = true) : v ≤ max := by
  have hle := Nat.ge_two_pow_of_testBit h
  refine Nat.not_lt.mp fun hlt => ?_
  have hpow : 2 ^ (max + 1) ≤ 2 ^ v := Nat.pow_le_pow_right (by decide) hlt
  have := f.mask_lt
  omega

theorem contains_le {f : Field max} {v : Nat} (h : f.contains v = true) : v ≤ max := by
  simp only [contains, Bool.and_eq_true] at h
  exact testBit_le h.2

/-- The bits of a shifted mask are the values from the shift on. -/
theorem testBit_shift (f : Field max) {v u : Nat} (h : v ≤ u) :
    (f.mask >>> v).testBit (u - v) = f.mask.testBit u := by
  rw [Nat.testBit_shiftRight]
  congr 1
  omega

theorem contains_iff (f : Field max) (hmax : max < 64) {v : Nat} :
    f.contains v = true ↔ f.mask.testBit v = true := by
  constructor
  · intro h
    simp only [contains, Bool.and_eq_true] at h
    exact h.2
  · intro h
    have hv := testBit_le h
    simp [contains, h, show v < 64 by omega]

theorem atOrAfter_none {f : Field max} (hmax : max < 64) {v u : Nat}
    (h : f.atOrAfter v = none) (hu : v ≤ u) : f.contains u = false := by
  rw [Bool.eq_false_iff]
  intro hc
  have hbit := (f.contains_iff hmax).mp hc
  have hle := contains_le hc
  unfold atOrAfter at h
  rw [if_neg (by omega)] at h
  simp only at h
  split at h
  · rename_i hzero
    have := f.testBit_shift hu
    rw [hzero, Nat.zero_testBit, hbit] at this
    exact Bool.noConfusion this
  · contradiction

/-- `atOrAfter v` is the least allowed value from `v` on. -/
theorem atOrAfter_some {f : Field max} (hmax : max < 64) {v m : Nat}
    (h : f.atOrAfter v = some m) :
    v ≤ m ∧ f.contains m = true ∧ ∀ u, v ≤ u → u < m → f.contains u = false := by
  unfold atOrAfter at h
  split at h
  · contradiction
  simp only at h
  split at h
  · contradiction
  rename_i hv hne
  obtain ⟨i, hi⟩ := Nat.exists_testBit_of_ne_zero hne
  -- the bit lies below 64, so the scan of `trailingZeros` finds one
  have hbit : f.mask.testBit (v + i) = true := by
    rw [← f.testBit_shift (Nat.le_add_right v i), Nat.add_sub_cancel_left]
    exact hi
  have hlt : i < 64 := by
    have := contains_le ((f.contains_iff hmax).mpr hbit)
    omega
  unfold trailingZeros at h
  cases hfind : (List.range 64).find? (f.mask >>> v).testBit with
  | none =>
      have := List.find?_eq_none.mp hfind i (List.mem_range.mpr hlt)
      exact absurd hi this
  | some j =>
      rw [hfind] at h
      have hm : v + j = m := Option.some.inj h
      subst hm
      obtain ⟨hj, -, hleast⟩ := List.find?_range_eq_some.mp hfind
      refine ⟨Nat.le_add_right v j, ?_, fun u hu hum => ?_⟩
      · rw [f.contains_iff hmax, ← f.testBit_shift (Nat.le_add_right v j),
          Nat.add_sub_cancel_left]
        exact hj
      · rw [Bool.eq_false_iff]
        intro hc
        have hbit' := (f.contains_iff hmax).mp hc
        rw [← f.testBit_shift hu] at hbit'
        have := hleast (u - v) (by omega)
        rw [hbit'] at this
        exact Bool.noConfusion this

/-- The values skipped from one that is not allowed to the next that is. -/
theorem skipped_some {f : Field max} (hmax : max < 64) {v m : Nat}
    (hv : f.contains v = false) (h : f.atOrAfter (v + 1) = some m) :
    v < m ∧ m ≤ max ∧ ∀ u, v ≤ u → u < m → f.contains u = false := by
  obtain ⟨hlt, hm, hnone⟩ := atOrAfter_some hmax h
  refine ⟨hlt, contains_le hm, fun u hu hum => ?_⟩
  rcases Nat.eq_or_lt_of_le hu with heq | hlt
  · rw [← heq]
    exact hv
  · exact hnone u hlt hum

theorem skipped_none {f : Field max} (hmax : max < 64) {v : Nat}
    (hv : f.contains v = false) (h : f.atOrAfter (v + 1) = none) :
    ∀ u, v ≤ u → f.contains u = false := by
  intro u hu
  rcases Nat.eq_or_lt_of_le hu with heq | hlt
  · rw [← heq]
    exact hv
  · exact atOrAfter_none hmax h hlt

end Field

/-! ## The parser -/

/-- A field is "restricted" unless some comma-part's range starts with `*`/`?`. -/
def isRestricted (field : Text) : Bool :=
  !(field.splitOn ',').any fun part =>
    let range := (part.splitOn '/').headD []
    range = ['*'] || range = ['?']

/-- The loop of `mask_range`; `v` is a `u32`, and 64 turns are more than a
    loop within the bits of a mask can take. -/
def maskRange.go (hi step : Nat) : Nat → Nat → Nat → Nat
  | 0, _, m => m
  | fuel + 1, v, m =>
      if v ≤ hi then go hi step fuel ((v + step) % 2 ^ 32) (m ||| 1 <<< v) else m

def maskRange (lo hi step : Nat) : Nat := maskRange.go hi step 64 lo 0

theorem maskRange.go_lt {hi step : Nat} {fuel v m : Nat} (h : m < 2 ^ (hi + 1)) :
    maskRange.go hi step fuel v m < 2 ^ (hi + 1) := by
  induction fuel generalizing v m with
  | zero => exact h
  | succ fuel ih =>
      unfold maskRange.go
      split
      · rename_i hv
        refine ih (Nat.or_lt_two_pow h ?_)
        rw [Nat.one_shiftLeft]
        exact Nat.pow_lt_pow_right (by decide) (by omega)
      · exact h

theorem maskRange_lt {lo hi step max : Nat} (h : hi ≤ max) :
    maskRange lo hi step < 2 ^ (max + 1) :=
  Nat.lt_of_lt_of_le (maskRange.go_lt (Nat.two_pow_pos _))
    (Nat.pow_le_pow_right (by decide) (by omega))

namespace Field

def empty (max : Nat) : Field max := ⟨0, Nat.two_pow_pos _⟩

/-- `mask |= mask_range(lo, hi, step)`. -/
def addRange {max : Nat} (f : Field max) (lo hi step : Nat) (h : hi ≤ max) : Field max :=
  ⟨f.mask ||| maskRange lo hi step, Nat.or_lt_two_pow f.mask_lt (maskRange_lt h)⟩

/-- Normalise dow 7 -> 0 (both Sunday). -/
def foldSunday (f : Field 7) : Field 7 :=
  if f.contains 7 then
    ⟨f.mask &&& (2 ^ 64 - 1 - 1 <<< 7) ||| 1,
      Nat.or_lt_two_pow (Nat.lt_of_le_of_lt Nat.and_le_left f.mask_lt) (by decide)⟩
  else f

end Field

def parseBound (tok : Text) (names : List Text) (nameBase : Nat) : Option Nat :=
  match Argon2id.parseU32 tok with
  | some n => some n
  | none => (names.findIdx? (· = tok)).map (· + nameBase)

/-- `lo`, `hi` and `step` of one comma-part, before they are checked against
    the field's bounds. -/
def parsePart (min max : Nat) (names : List Text) (nameBase : Nat) (part : Text) :
    Option (Nat × Nat × Nat) := do
  let pieces := part.splitOn '/'
  if pieces.length > 2 then none
  let hasStep := pieces.length = 2
  let step ← if hasStep then Argon2id.parseU32 (pieces.getD 1 []) else some 1
  if step = 0 then none
  let range := pieces.headD []
  if range = ['*'] ∨ range = ['?'] then
    return (min, max, step)
  else if '-' ∈ range then
    let b := range.splitOn '-'
    if b.length ≠ 2 then none
    let lo ← parseBound (b.getD 0 []) names nameBase
    let hi ← parseBound (b.getD 1 []) names nameBase
    return (lo, hi, step)
  else
    let lo ← parseBound range names nameBase
    -- "N" alone means just N; "N/step" means N-max.
    return (lo, if hasStep then max else lo, step)

def parseField (field : Text) (min max : Nat) (names : List Text) (nameBase : Nat) :
    Except CronError (Field max) :=
  ((toLowercase (trim field)).splitOn ',').foldlM (fun mask part =>
    match parsePart min max names nameBase part with
    | none => .error (.invalid field)
    | some (lo, hi, step) =>
        if h : lo < min ∨ hi > max ∨ lo > hi then .error (.invalid field)
        else .ok (mask.addRange lo hi step (by omega))) (Field.empty max)

structure CronSchedule where
  seconds : Field 59
  minutes : Field 59
  hours : Field 23
  dom : Field 31
  months : Field 12
  dow : Field 7
  domRestricted : Bool
  dowRestricted : Bool
  /-- `@every`: fixed interval in seconds. -/
  everySeconds : Option Int
  every_pos : ∀ every, everySeconds = some every → 1 ≤ every

/-- Six fields, the first the seconds. -/
def parseFields (fields : List Text) : Except CronError CronSchedule := do
  let fields ← match fields.length with
    | 5 => .ok ("0".toList :: fields)
    | 6 => .ok fields
    | n => .error (.badFieldCount n)
  let seconds ← parseField (fields.getD 0 []) 0 59 [] 0
  let minutes ← parseField (fields.getD 1 []) 0 59 [] 0
  let hours ← parseField (fields.getD 2 []) 0 23 [] 0
  let dom ← parseField (fields.getD 3 []) 1 31 [] 0
  let months ← parseField (fields.getD 4 []) 1 12 monthNames 1
  let dow ← parseField (fields.getD 5 []) 0 7 dowNames 0
  return {
    seconds, minutes, hours, dom, months
    dow := dow.foldSunday
    domRestricted := isRestricted (fields.getD 3 [])
    dowRestricted := isRestricted (fields.getD 5 [])
    everySeconds := none
    every_pos := by simp }

/-- `@every`: every value of every field, and the interval. -/
def everySchedule (d : Int) : CronSchedule where
  seconds := ⟨maskRange 0 59 1, maskRange_lt (by decide)⟩
  minutes := ⟨maskRange 0 59 1, maskRange_lt (by decide)⟩
  hours := ⟨maskRange 0 23 1, maskRange_lt (by decide)⟩
  dom := ⟨maskRange 1 31 1, maskRange_lt (by decide)⟩
  months := ⟨maskRange 1 12 1, maskRange_lt (by decide)⟩
  dow := ⟨maskRange 0 6 1, maskRange_lt (by decide)⟩
  domRestricted := false
  dowRestricted := false
  -- robfig: delays below one second round up to one second.
  everySeconds := some (max d 1)
  every_pos := by
    intro every h
    have := Option.some.inj h
    omega

/-- The six fields a descriptor stands for. -/
def descriptor (lower : Text) : Option Text :=
  if lower = "@yearly".toList ∨ lower = "@annually".toList then some "0 0 0 1 1 *".toList
  else if lower = "@monthly".toList then some "0 0 0 1 * *".toList
  else if lower = "@weekly".toList then some "0 0 0 * * 0".toList
  else if lower = "@daily".toList ∨ lower = "@midnight".toList then some "0 0 0 * * *".toList
  else if lower = "@hourly".toList then some "0 0 * * * *".toList
  else none

/-- Accepts 5-field UI expressions or 6-field second-aware ones.
    `parseDuration` is `parse_duration` with its floating-point seconds cut to
    an `i64`. -/
def CronSchedule.parse (parseDuration : Text → Option Int) (expr : Text) :
    Except CronError CronSchedule :=
  let e := trim expr
  if e = [] then .error .empty
  else if e.head? = some '@' then
    let lower := toLowercase e
    match descriptor lower with
    | some e => parseFields (splitWhitespace e)
    | none =>
        if "@every ".toList.isPrefixOf lower then
          match parseDuration (lower.drop 7) with
          | some d => .ok (everySchedule d)
          | none => .error (.invalid expr)
        else .error (.invalid expr)
  else parseFields (splitWhitespace e)

end GnDrive.Cron
