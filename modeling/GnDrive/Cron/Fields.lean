/-
  GnDrive.Cron.Fields

  What the field of a cron expression denotes, and what `parse_field` makes of it.

  An item of the list is read as it is written (`Item`).  It denotes the numbers
  `lo + k * step` up to `hi`.  `mask_range` adds the step in `u32`: an item whose
  first addition does not fit comes back below `lo` and counts downwards
  (`testBit_maskRange`).

  The days of the week are parsed over 0..7, and 7 is folded into Sunday
  afterwards, so that an item `n/s` can reach Sunday over Saturday
  (`weekdays_iff`).
-/

import GnDrive.Cron.Schedule

namespace GnDrive.Cron

open Text (trim toLowercase)

/-! ## Items -/

/-- A comma-part as it is written. -/
inductive Item where
  /-- `*` or `?` -/
  | all (step : Nat)
  | range (lo hi step : Nat)
  | value (n : Nat)
  /-- `n/step` -/
  | start (n step : Nat)
deriving DecidableEq, Repr

namespace Item

def lo (min : Nat) : Item → Nat
  | .all _ => min
  | .range lo _ _ => lo
  | .value n | .start n _ => n

def hi (max : Nat) : Item → Nat
  | .all _ | .start _ _ => max
  | .range _ hi _ => hi
  | .value n => n

def step : Item → Nat
  | .all s | .range _ _ s | .start _ s => s
  | .value _ => 1

end Item

/-- The part before the step. -/
def readRange (names : List Text) (nameBase : Nat) (range : Text) (step : Option Nat) :
    Option Item :=
  if range = ['*'] ∨ range = ['?'] then some (.all (step.getD 1))
  else if '-' ∈ range then
    let b := range.splitOn '-'
    if b.length = 2 then do
      let lo ← parseBound (b.getD 0 []) names nameBase
      let hi ← parseBound (b.getD 1 []) names nameBase
      return .range lo hi (step.getD 1)
    else none
  else (parseBound range names nameBase).map fun n => step.elim (.value n) (.start n)

def readItem (names : List Text) (nameBase : Nat) (part : Text) : Option Item :=
  match part.splitOn '/' with
  | [range] => readRange names nameBase range none
  | [range, step] =>
      match Argon2id.parseU32 step with
      | some s => if s = 0 then none else readRange names nameBase range (some s)
      | none => none
  | _ => none

/-- The items of a field. -/
def readItems (field : Text) (names : List Text) (nameBase : Nat) : Option (List Item) :=
  ((toLowercase (trim field)).splitOn ',').mapM (readItem names nameBase)

/-- The numbers from `lo` on in steps, up to `hi`. -/
def progression (lo hi step : Nat) : Set Nat :=
  {v | lo ≤ v ∧ v ≤ hi ∧ ∃ k, lo + k * step = v}

/-- What an item denotes in a field from `min` to `max`. -/
def Item.values (min max : Nat) (i : Item) : Set Nat := progression (i.lo min) (i.hi max) i.step

def denoted (min max : Nat) (items : List Item) : Set Nat :=
  {v | ∃ i ∈ items, v ∈ i.values min max}

/-- The loop of `mask_range` with arithmetic that panics instead of wrapping.
    The 65th turn is above the bits of a mask. -/
def maskRange.checked (hi step : Nat) : Nat → Nat → Nat → Option Nat
  | 0, _, m => some m
  | fuel + 1, v, m =>
      if v ≤ hi then
        if v < 64 ∧ v + step < 2 ^ 32 then checked hi step fuel (v + step) (m ||| 1 <<< v)
        else none
      else some m

/-- `mask_range` goes through without wrapping and without a panic. -/
def Item.Safe (min max : Nat) (i : Item) : Prop :=
  (maskRange.checked (i.hi max) i.step 65 (i.lo min) 0).isSome = true

section

variable {lo hi step fuel v u m d : Nat}

/-! ## The loop -/

/-- As long as the numbers fit, the loop goes up in steps. -/
theorem testBit_go_up (hstep : 0 < step) (hfuel : ∀ k, v + k * step ≤ hi → k < fuel)
    (hfit : ∀ k, v + k * step ≤ hi → v + k * step + step < 2 ^ 32) :
    (maskRange.go hi step fuel v m).testBit u = true ↔
      m.testBit u = true ∨ u ∈ progression v hi step := by
  induction fuel generalizing v m with
  | zero =>
    have hnone : u ∉ progression v hi step := by
      rintro ⟨hv, hu, -⟩
      exact absurd (hfuel 0 (by omega)) (by omega)
    simp [maskRange.go, hnone]
  | succ fuel ih =>
    unfold maskRange.go
    split
    · rename_i hv
      have hnext := hfit 0 (by omega)
      rw [Nat.zero_mul, Nat.add_zero] at hnext
      have hfuel' : ∀ k, v + step + k * step ≤ hi → k < fuel := by
        intro k hk
        have := hfuel (k + 1)
        rw [Nat.add_mul] at this
        omega
      have hfit' : ∀ k, v + step + k * step ≤ hi → v + step + k * step + step < 2 ^ 32 := by
        intro k hk
        have := hfit (k + 1)
        rw [Nat.add_mul] at this
        omega
      rw [Nat.mod_eq_of_lt hnext, ih hfuel' hfit', Nat.testBit_or, Nat.one_shiftLeft,
        Nat.testBit_two_pow, Bool.or_eq_true, decide_eq_true_eq, or_assoc]
      refine or_congr_right ⟨?_, ?_⟩
      · rintro (rfl | ⟨hle, hu, k, hk⟩)
        · exact ⟨Nat.le_refl v, hv, 0, by omega⟩
        · refine ⟨by omega, hu, k + 1, ?_⟩
          rw [Nat.add_mul]
          omega
      · rintro ⟨-, hu, k, hk⟩
        cases k with
        | zero => exact .inl (by omega)
        | succ k =>
          rw [Nat.add_mul] at hk
          exact .inr ⟨by omega, hu, k, by omega⟩
    · have hnone : u ∉ progression v hi step := by
        rintro ⟨hv, hu, -⟩
        omega
      simp [hnone]

/-- A step just below 2^32 takes the loop down by what is missing. -/
theorem testBit_go_down (hd : 0 < d) (hd64 : d < 64) (hv : v ≤ hi) (hhi : hi < 64)
    (hfuel : v < fuel) :
    (maskRange.go hi (2 ^ 32 - d) fuel v m).testBit u = true ↔
      m.testBit u = true ∨ ∃ k, u + k * d = v := by
  induction fuel generalizing v m with
  | zero => omega
  | succ fuel ih =>
    unfold maskRange.go
    rw [if_pos hv]
    have hbit : (m ||| 1 <<< v).testBit u = true ↔ m.testBit u = true ∨ u = v := by
      rw [Nat.testBit_or, Nat.one_shiftLeft, Nat.testBit_two_pow, Bool.or_eq_true,
        decide_eq_true_eq, eq_comm (a := v)]
    by_cases hdown : d ≤ v
    · have hmod : (v + (2 ^ 32 - d)) % 2 ^ 32 = v - d := by omega
      rw [hmod, ih (by omega) (by omega), hbit, or_assoc]
      refine or_congr_right ⟨?_, ?_⟩
      · rintro (rfl | ⟨k, hk⟩)
        · exact ⟨0, by omega⟩
        · refine ⟨k + 1, ?_⟩
          rw [Nat.add_mul]
          omega
      · rintro ⟨k, hk⟩
        cases k with
        | zero => exact .inl (by omega)
        | succ k =>
          rw [Nat.add_mul] at hk
          exact .inr ⟨k, by omega⟩
    · -- the next number is above `hi`, and the loop ends
      have hmod : (v + (2 ^ 32 - d)) % 2 ^ 32 = v + (2 ^ 32 - d) := Nat.mod_eq_of_lt (by omega)
      have hstop : ∀ n w, hi < w → maskRange.go hi (2 ^ 32 - d) n w (m ||| 1 <<< v) =
          m ||| 1 <<< v := by
        intro n w hw
        cases n with
        | zero => rfl
        | succ n =>
          unfold maskRange.go
          rw [if_neg (by omega)]
      rw [hmod, hstop fuel _ (by omega), hbit]
      refine or_congr_right ⟨?_, ?_⟩
      · rintro rfl
        exact ⟨0, by omega⟩
      · rintro ⟨k, hk⟩
        cases k with
        | zero => omega
        | succ k =>
          rw [Nat.add_mul] at hk
          omega

/-- Below 64 the first addition is the only one that may not fit. -/
theorem fits (hsmall : ∀ k, lo + k * step ≤ hi → lo + k * step < 64)
    (hfirst : lo + step < 2 ^ 32) (k : Nat) (hk : lo + k * step ≤ hi) :
    lo + k * step + step < 2 ^ 32 := by
  have := hsmall k hk
  cases k with
  | zero => omega
  | succ k =>
    rw [Nat.add_mul] at this ⊢
    omega

theorem turns (hstep : 0 < step) (hsmall : ∀ k, lo + k * step ≤ hi → lo + k * step < 64)
    (k : Nat) (hk : lo + k * step ≤ hi) : k < 64 := by
  have := hsmall k hk
  have := Nat.le_mul_of_pos_right k hstep
  omega

/-- The bits of a mask: the numbers of the progression, and those that the loop
    comes back to when `lo + step` does not fit. -/
theorem testBit_maskRange (hle : lo ≤ hi) (hhi : hi < 64) (hstep : 0 < step)
    (h32 : step < 2 ^ 32) :
    (maskRange lo hi step).testBit v = true ↔
      v ∈ progression lo hi step ∨ ∃ k, v + k * (2 ^ 32 - step) = lo := by
  unfold maskRange
  by_cases hfirst : lo + step < 2 ^ 32
  · have hsmall : ∀ k, lo + k * step ≤ hi → lo + k * step < 64 := fun _ hk => by omega
    rw [testBit_go_up hstep (turns hstep hsmall) (fits hsmall hfirst)]
    simp only [Nat.zero_testBit, Bool.false_eq_true, false_or]
    refine ⟨.inl, ?_⟩
    rintro (h | ⟨k, hk⟩)
    · exact h
    · cases k with
      | zero => exact ⟨by omega, by omega, 0, by omega⟩
      | succ k =>
        rw [Nat.add_mul] at hk
        have := Nat.zero_le (k * (2 ^ 32 - step))
        omega
  · have hdown : (maskRange.go hi (2 ^ 32 - (2 ^ 32 - step)) 64 lo 0).testBit v = true ↔
        Nat.testBit 0 v = true ∨ ∃ k, v + k * (2 ^ 32 - step) = lo :=
      testBit_go_down (by omega) (by omega) hle hhi (by omega)
    rw [show 2 ^ 32 - (2 ^ 32 - step) = step by omega] at hdown
    rw [hdown]
    simp only [Nat.zero_testBit, Bool.false_eq_true, false_or]
    refine ⟨.inr, ?_⟩
    rintro (⟨-, hv, k, hk⟩ | h)
    · cases k with
      | zero => exact ⟨0, by omega⟩
      | succ k =>
        rw [Nat.add_mul] at hk
        have := Nat.zero_le (k * step)
        omega
    · exact h

theorem checked_isSome (hsmall : ∀ k, v + k * step ≤ hi → v + k * step < 64)
    (hfit : ∀ k, v + k * step ≤ hi → v + k * step + step < 2 ^ 32) :
    (maskRange.checked hi step fuel v m).isSome = true := by
  induction fuel generalizing v m with
  | zero => rfl
  | succ fuel ih =>
    unfold maskRange.checked
    split
    · have hv := hsmall 0 (by omega)
      have hnext := hfit 0 (by omega)
      rw [if_pos ⟨by omega, by omega⟩]
      refine ih (fun k hk => ?_) fun k hk => ?_
      · have := hsmall (k + 1)
        rw [Nat.add_mul] at this
        omega
      · have := hfit (k + 1)
        rw [Nat.add_mul] at this
        omega
    · rfl

/-- A loop without a panic has visited small numbers only. -/
theorem checked_lt (h : (maskRange.checked hi step fuel v m).isSome = true) (k : Nat)
    (hk : k < fuel) (hle : v + k * step ≤ hi) :
    v + k * step < 64 ∧ v + k * step + step < 2 ^ 32 := by
  induction fuel generalizing v m k with
  | zero => omega
  | succ fuel ih =>
    unfold maskRange.checked at h
    have hv : v ≤ hi := by
      have := Nat.zero_le (k * step)
      omega
    rw [if_pos hv] at h
    split at h
    · rename_i hfirst
      cases k with
      | zero => omega
      | succ k =>
        rw [Nat.add_mul] at hle ⊢
        have := ih h k (by omega) (by omega)
        omega
    · cases h

/-- A loop that does not panic within 65 turns is over. -/
theorem small_of_checked (hstep : 0 < step)
    (h : (maskRange.checked hi step 65 lo m).isSome = true) (k : Nat)
    (hk : lo + k * step ≤ hi) : lo + k * step < 64 := by
  by_cases hlt : k < 65
  · exact (checked_lt h k hlt hk).1
  · have hmul : 64 * step ≤ k * step := Nat.mul_le_mul_right step (by omega)
    have := (checked_lt h 64 (by omega) (by omega)).1
    omega

end

/-! ## From the text to the items -/

section

variable {names : List Text} {nameBase min max : Nat} {part field : Text} {i : Item}

theorem readRange_step {range : Text} {step : Option Nat}
    (h : readRange names nameBase range step = some i) : i.step = step.getD 1 := by
  unfold readRange at h
  split at h
  · rw [← Option.some.inj h, Item.step]
  split at h
  · dsimp only at h
    split at h
    · obtain ⟨lo, -, h⟩ := Option.bind_eq_some_iff.mp h
      obtain ⟨hi, -, h⟩ := Option.bind_eq_some_iff.mp h
      rw [← Option.some.inj h, Item.step]
    · cases h
  · obtain ⟨n, -, rfl⟩ := Option.map_eq_some_iff.mp h
    cases step <;> rfl

theorem readItem_step (h : readItem names nameBase part = some i) :
    0 < i.step ∧ i.step < 2 ^ 32 := by
  unfold readItem at h
  split at h
  · rw [readRange_step h]
    decide
  · split at h
    · rename_i s hs
      split at h
      · cases h
      · rename_i hpos
        rw [readRange_step h]
        exact ⟨Nat.pos_of_ne_zero hpos, Argon2id.parseU32_lt hs⟩
    · cases h
  · cases h

/-- `parsePart` gives the bounds of the item. -/
theorem parsePart_eq (min max : Nat) (names : List Text) (nameBase : Nat) (part : Text) :
    parsePart min max names nameBase part =
      (readItem names nameBase part).map fun i => (i.lo min, i.hi max, i.step) := by
  unfold parsePart readItem
  have hne : part.splitOn '/' ≠ [] := List.splitOn_ne_nil _ _
  match part.splitOn '/', hne with
  | [range], _ =>
    unfold readRange
    by_cases hall : range = ['*'] ∨ range = ['?']
    · simp [hall, Item.lo, Item.hi, Item.step]
    by_cases hdash : '-' ∈ range
    · by_cases hb : (range.splitOn '-').length = 2 <;>
        simp [hall, hdash, hb, Function.comp_def, Item.lo, Item.hi, Item.step]
    · cases hn : parseBound range names nameBase <;>
        simp [hall, hdash, hn, Item.lo, Item.hi, Item.step]
  | [range, step], _ =>
    unfold readRange
    cases hstep : Argon2id.parseU32 step with
    | none => simp [hstep]
    | some s =>
      by_cases hs : s = 0
      · simp [hstep, hs]
      by_cases hall : range = ['*'] ∨ range = ['?']
      · simp [hstep, hs, hall, Item.lo, Item.hi, Item.step]
      by_cases hdash : '-' ∈ range
      · by_cases hb : (range.splitOn '-').length = 2 <;>
          simp [hstep, hs, hall, hdash, hb, Function.comp_def, Item.lo, Item.hi, Item.step]
      · cases hn : parseBound range names nameBase <;>
          simp [hstep, hs, hall, hdash, hn, Item.lo, Item.hi, Item.step]
  | _ :: _ :: _ :: _, _ => simp

theorem hi_le_max {lo hi : Nat} (h : ¬ (lo < min ∨ hi > max ∨ lo > hi)) : hi ≤ max := by
  omega

/-- Over the parts that are left, with the mask so far. -/
theorem foldlM_parts {parts : List Text} {f₀ f : Field max}
    (h : parts.foldlM (fun mask part =>
      match parsePart min max names nameBase part with
      | none => .error (.invalid field)
      | some (lo, hi, step) =>
          if h : lo < min ∨ hi > max ∨ lo > hi then .error (.invalid field)
          else .ok (mask.addRange lo hi step (hi_le_max h))) f₀ = Except.ok (ε := CronError) f) :
    ∃ items, parts.mapM (readItem names nameBase) = some items ∧
      (∀ i ∈ items, min ≤ i.lo min ∧ i.lo min ≤ i.hi max ∧ i.hi max ≤ max ∧ 0 < i.step ∧
        i.step < 2 ^ 32) ∧
      ∀ v, f.mask.testBit v = true ↔ f₀.mask.testBit v = true ∨
        ∃ i ∈ items, (maskRange (i.lo min) (i.hi max) i.step).testBit v = true := by
  induction parts generalizing f₀ with
  | nil =>
    obtain rfl := Except.ok.inj h
    exact ⟨[], rfl, by simp, by simp⟩
  | cons part parts ih =>
    rw [List.foldlM_cons, parsePart_eq] at h
    cases hitem : readItem names nameBase part with
    | none =>
      rw [hitem] at h
      cases h
    | some i =>
      rw [hitem] at h
      simp only [Option.map_some] at h
      split at h
      · cases h
      · rename_i hbounds
        obtain ⟨items, hitems, hall, hmask⟩ := ih h
        obtain ⟨hpos, h32⟩ := readItem_step hitem
        refine ⟨i :: items, by simp [List.mapM_cons, hitem, hitems], ?_, fun v => ?_⟩
        · intro j hj
          rcases List.mem_cons.mp hj with rfl | hj
          · exact ⟨by omega, by omega, by omega, hpos, h32⟩
          · exact hall j hj
        · rw [hmask v, Field.addRange, Nat.testBit_or, Bool.or_eq_true, or_assoc]
          simp

/-- The items of an accepted field are within its bounds, and its mask has the
    bits of their ranges. -/
theorem parseField_ok {f : Field max} (h : parseField field min max names nameBase = .ok f) :
    ∃ items, readItems field names nameBase = some items ∧
      (∀ i ∈ items, min ≤ i.lo min ∧ i.lo min ≤ i.hi max ∧ i.hi max ≤ max ∧ 0 < i.step ∧
        i.step < 2 ^ 32) ∧
      ∀ v, f.mask.testBit v = true ↔
        ∃ i ∈ items, (maskRange (i.lo min) (i.hi max) i.step).testBit v = true := by
  unfold parseField at h
  unfold readItems
  generalize (toLowercase (trim field)).splitOn ',' = parts at h ⊢
  obtain ⟨items, hitems, hbounds, hmask⟩ := foldlM_parts h
  refine ⟨items, hitems, hbounds, fun v => ?_⟩
  rw [hmask v]
  simp [Field.empty]

/-- An accepted field has the mask that it denotes, by arithmetic that neither
    wraps nor panics, exactly when the first addition of each item fits and no
    item goes beyond the bits of a mask. -/
theorem field_denotes_iff {f : Field max} (h : parseField field min max names nameBase = .ok f) :
    ∃ items, readItems field names nameBase = some items ∧
      (((∀ v, f.contains v = true ↔ v ∈ denoted min max items) ∧ ∀ i ∈ items, i.Safe min max) ↔
        ∀ i ∈ items, i.lo min + i.step < 2 ^ 32 ∧ ∀ v ∈ i.values min max, v < 64) := by
  obtain ⟨items, hitems, hbounds, hmask⟩ := parseField_ok h
  refine ⟨items, hitems, ?_, fun hsmall => ⟨fun v => ?_, fun i hi => ?_⟩⟩
  · rintro ⟨-, hsafe⟩ i hi
    obtain ⟨-, hle, -, hpos, -⟩ := hbounds i hi
    refine ⟨?_, ?_⟩
    · have := (checked_lt (hsafe i hi) 0 (by omega) (by omega)).2
      omega
    · rintro v ⟨-, hv, k, rfl⟩
      exact small_of_checked hpos (hsafe i hi) k hv
  · -- the mask of one item
    have hitem : ∀ i ∈ items, (maskRange (i.lo min) (i.hi max) i.step).testBit v = true ↔
        v ∈ i.values min max := by
      intro i hi
      obtain ⟨-, hle, -, hpos, -⟩ := hbounds i hi
      obtain ⟨hfirst, hlt⟩ := hsmall i hi
      have hlt' : ∀ k, i.lo min + k * i.step ≤ i.hi max → i.lo min + k * i.step < 64 :=
        fun k hk => hlt _ ⟨Nat.le_add_right _ _, hk, k, rfl⟩
      unfold maskRange
      rw [testBit_go_up hpos (turns hpos hlt') (fits hlt' hfirst)]
      simp [Item.values]
    have hbits : f.mask.testBit v = true ↔ v ∈ denoted min max items := by
      rw [hmask v]
      exact exists_congr fun i => and_congr_right fun hi => hitem i hi
    rw [← hbits, Field.contains, Bool.and_eq_true, decide_eq_true_eq]
    refine ⟨And.right, fun hbit => ⟨?_, hbit⟩⟩
    obtain ⟨i, hi, hv⟩ := hbits.mp hbit
    exact (hsmall i hi).2 v hv
  · obtain ⟨-, hle, -, hpos, -⟩ := hbounds i hi
    obtain ⟨hfirst, hlt⟩ := hsmall i hi
    have hlt' : ∀ k, i.lo min + k * i.step ≤ i.hi max → i.lo min + k * i.step < 64 :=
      fun k hk => hlt _ ⟨Nat.le_add_right _ _, hk, k, rfl⟩
    exact checked_isSome hlt' (fits hlt' hfirst)

/-- The minutes `*/20,50-59/4`. -/
theorem field_denotes_minutes : ∃ f : Field 59,
    parseField "*/20,50-59/4".toList 0 59 [] 0 = .ok f ∧
      ∀ v, f.contains v = true ↔ v ∈ denoted 0 59 [.all 20, .range 50 59 4] := by
  obtain ⟨f, hf⟩ : ∃ f : Field 59, parseField "*/20,50-59/4".toList 0 59 [] 0 = .ok f := ⟨_, rfl⟩
  obtain ⟨items, hitems, hiff⟩ := field_denotes_iff hf
  have hread : readItems "*/20,50-59/4".toList [] 0 = some [.all 20, .range 50 59 4] := by
    decide +kernel
  obtain rfl := Option.some.inj (hitems.symm.trans hread)
  refine ⟨f, hf, (hiff.mpr fun i hi => ?_).1⟩
  rcases List.mem_cons.mp hi with rfl | hi
  · exact ⟨by decide, fun v ⟨_, hv, _⟩ => Nat.lt_of_le_of_lt hv (by decide)⟩
  · obtain rfl := List.mem_singleton.mp hi
    exact ⟨by decide, fun v ⟨_, hv, _⟩ => Nat.lt_of_le_of_lt hv (by decide)⟩

/-- `5/4294967295` is every minute up to 5. -/
theorem step_wraps : ¬ ∀ (field : Text) (f : Field 59), parseField field 0 59 [] 0 = .ok f →
    ∀ items, readItems field [] 0 = some items →
      ∀ v, f.contains v = true ↔ v ∈ denoted 0 59 items := by
  intro h
  obtain ⟨f, hf, hzero⟩ : ∃ f : Field 59,
      parseField "5/4294967295".toList 0 59 [] 0 = .ok f ∧ f.contains 0 = true := ⟨_, rfl, rfl⟩
  have hread : readItems "5/4294967295".toList [] 0 = some [.start 5 4294967295] := by
    decide +kernel
  obtain ⟨i, hi, hmem⟩ := (h _ f hf _ hread 0).mp hzero
  obtain rfl := List.mem_singleton.mp hi
  exact absurd hmem.1 (by decide)

end

/-! ## Days of the week -/

/-- What an item of the days of the week denotes: the numbers 0 to 6, and 7 where
    it is written. -/
def Item.days : Item → Set Nat
  | .all s => progression 0 6 s
  | .range lo hi s => progression lo hi s
  | .value n => {n}
  | .start n s => {v | v = n ∨ v ∈ progression n 6 s}

/-- The weekdays from Sunday on; 7 is Sunday, too. -/
def weekdays (items : List Item) : Set Nat := {d | ∃ i ∈ items, ∃ v ∈ i.days, v % 7 = d}

/-- The days that an item adds to those it denotes: Sunday for `n/s` that comes to
    7 after `n`, and the days that the loop of `mask_range` comes back to. -/
def Item.Spills (i : Item) (d : Nat) : Prop :=
  (∃ n s, i = .start n s ∧ n < 7 ∧ s ∣ 7 - n ∧ d = 0) ∨
    ∃ v k, v + k * (2 ^ 32 - i.step) = i.lo 0 ∧ v % 7 = d

/-- The bits that the alias leaves alone. -/
theorem testBit_clear (m : Nat) {d : Nat} (hd : d < 7) :
    (m &&& (2 ^ 64 - 1 - 1 <<< 7) ||| 1).testBit d = (m.testBit d || decide (d = 0)) := by
  have hkeep : ∀ d < 7, (2 ^ 64 - 1 - 1 <<< 7).testBit d = true := by decide
  have hone : ∀ d < 7, Nat.testBit 1 d = decide (d = 0) := by decide
  rw [Nat.testBit_or, Nat.testBit_and, hkeep d hd, Bool.and_true, hone d hd]

/-- The selected days are the numbers of the mask, 7 as 0. -/
theorem contains_foldSunday (f : Field 7) (d : Nat) :
    f.foldSunday.contains d = true ↔ ∃ v, f.mask.testBit v = true ∧ v % 7 = d := by
  have hmod : ∀ v, f.mask.testBit v = true → v < 7 ∨ v = 7 := fun v hv => by
    have := Field.testBit_le hv
    omega
  by_cases hseven : f.mask.testBit 7 = true
  · have hcontains : f.contains 7 = true := (f.contains_iff (by decide)).mpr hseven
    unfold Field.foldSunday
    rw [if_pos hcontains, Field.contains_iff _ (by decide)]
    show (f.mask &&& (2 ^ 64 - 1 - 1 <<< 7) ||| 1).testBit d = true ↔ _
    by_cases hd : d < 7
    · rw [testBit_clear _ hd, Bool.or_eq_true, decide_eq_true_eq]
      constructor
      · rintro (hbit | rfl)
        · exact ⟨d, hbit, Nat.mod_eq_of_lt hd⟩
        · exact ⟨7, hseven, rfl⟩
      · rintro ⟨v, hbit, rfl⟩
        rcases hmod v hbit with hlt | rfl
        · rw [Nat.mod_eq_of_lt hlt]
          exact .inl hbit
        · exact .inr rfl
    · refine iff_of_false (fun hbit => ?_) ?_
      · rw [Nat.testBit_or, Nat.testBit_and, Bool.or_eq_true, Bool.and_eq_true] at hbit
        rcases hbit with ⟨hbit, hkeep⟩ | hone
        · obtain rfl : d = 7 := (hmod d hbit).resolve_left hd
          exact absurd hkeep (by decide)
        · have := Nat.testBit_one_eq_true_iff_self_eq_zero.mp hone
          omega
      · rintro ⟨v, -, rfl⟩
        exact hd (Nat.mod_lt v (by decide))
  · have hcontains : ¬ f.contains 7 = true := fun h => hseven ((f.contains_iff (by decide)).mp h)
    unfold Field.foldSunday
    rw [if_neg hcontains, f.contains_iff (by decide)]
    constructor
    · intro hbit
      rcases hmod d hbit with hlt | rfl
      · exact ⟨d, hbit, Nat.mod_eq_of_lt hlt⟩
      · exact absurd hbit hseven
    · rintro ⟨v, hbit, rfl⟩
      rcases hmod v hbit with hlt | rfl
      · rw [Nat.mod_eq_of_lt hlt]
        exact hbit
      · exact absurd hbit hseven

theorem progression_mono {lo hi hi' step : Nat} (h : hi ≤ hi') :
    progression lo hi step ⊆ progression lo hi' step :=
  fun _ ⟨hlo, hhi, hk⟩ => ⟨hlo, Nat.le_trans hhi h, hk⟩

theorem days_subset_values {i : Item} (hle : i.lo 0 ≤ i.hi 7) : i.days ⊆ i.values 0 7 := by
  intro v hv
  cases i with
  | all s => exact progression_mono (show 6 ≤ 7 by decide) hv
  | range lo hi s => exact hv
  | value n =>
    obtain rfl : v = n := hv
    exact ⟨Nat.le_refl v, Nat.le_refl v, 0, rfl⟩
  | start n s =>
    rcases hv with rfl | hv
    · exact ⟨Nat.le_refl v, hle, 0, by simp [Item.lo]⟩
    · exact progression_mono (show 6 ≤ 7 by decide) hv

/-- A number of an item is one of its days, or Sunday that is reached over
    Saturday. -/
theorem values_cases {i : Item} {v : Nat} (hv : v ∈ i.values 0 7) :
    (∃ u ∈ i.days, u % 7 = v % 7) ∨ i.Spills (v % 7) := by
  cases i with
  | all s =>
    obtain ⟨-, hhi, k, hk⟩ := hv
    have hhi : v ≤ 7 := hhi
    rcases Nat.lt_or_eq_of_le hhi with hlt | rfl
    · exact .inl ⟨v, ⟨Nat.zero_le v, by omega, k, hk⟩, rfl⟩
    · exact .inl ⟨0, ⟨Nat.le_refl 0, by decide, 0, by omega⟩, rfl⟩
  | range lo hi s => exact .inl ⟨v, hv, rfl⟩
  | value n =>
    obtain ⟨hlo, hhi, -⟩ := hv
    exact .inl ⟨v, Nat.le_antisymm hhi hlo, rfl⟩
  | start n s =>
    obtain ⟨hlo, hhi, k, hk⟩ := hv
    have hlo : n ≤ v := hlo
    have hhi : v ≤ 7 := hhi
    have hk : n + k * s = v := hk
    rcases Nat.lt_or_eq_of_le hhi with hlt | rfl
    · exact .inl ⟨v, .inr ⟨hlo, by omega, k, hk⟩, rfl⟩
    rcases Nat.lt_or_eq_of_le hlo with hlt | rfl
    · exact .inr (.inl ⟨n, s, rfl, hlt, ⟨k, by rw [Nat.mul_comm]; omega⟩, rfl⟩)
    · exact .inl ⟨7, .inl rfl, rfl⟩

section

variable {field : Text}

/-- The selected days are those the field denotes exactly when each day that an
    item adds is denoted anyway. -/
theorem weekdays_iff {f : Field 7} (h : parseField field 0 7 dowNames 0 = .ok f) :
    ∃ items, readItems field dowNames 0 = some items ∧
      ((∀ d, f.foldSunday.contains d = true ↔ d ∈ weekdays items) ↔
        ∀ i ∈ items, ∀ d, i.Spills d → d ∈ weekdays items) := by
  obtain ⟨items, hitems, hbounds, hmask⟩ := parseField_ok h
  refine ⟨items, hitems, ?_⟩
  have hbits : ∀ i ∈ items, ∀ v, (maskRange (i.lo 0) (i.hi 7) i.step).testBit v = true ↔
      v ∈ i.values 0 7 ∨ ∃ k, v + k * (2 ^ 32 - i.step) = i.lo 0 := by
    intro i hi v
    obtain ⟨-, hle, hhi, hpos, h32⟩ := hbounds i hi
    exact testBit_maskRange hle (by omega) hpos h32
  constructor
  · intro hall i hi d hspill
    rw [← hall d, contains_foldSunday]
    rcases hspill with ⟨n, s, rfl, hn, ⟨k, hk⟩, rfl⟩ | ⟨v, k, hk, rfl⟩
    · refine ⟨7, (hmask 7).mpr ⟨_, hi, (hbits _ hi 7).mpr (.inl ⟨?_, Nat.le_refl 7, k, ?_⟩)⟩, rfl⟩
      · show n ≤ 7
        omega
      · show n + k * s = 7
        rw [Nat.mul_comm]
        omega
    · exact ⟨v, (hmask v).mpr ⟨i, hi, (hbits i hi v).mpr (.inr ⟨k, hk⟩)⟩, rfl⟩
  · intro hspills d
    rw [contains_foldSunday]
    constructor
    · rintro ⟨v, hbit, rfl⟩
      obtain ⟨i, hi, hbit⟩ := (hmask v).mp hbit
      rcases (hbits i hi v).mp hbit with hv | ⟨k, hk⟩
      · rcases values_cases hv with hday | hspill
        · exact ⟨i, hi, hday⟩
        · exact hspills i hi _ hspill
      · exact hspills i hi _ (.inr ⟨v, k, hk, rfl⟩)
    · rintro ⟨i, hi, v, hv, rfl⟩
      have hle := (hbounds i hi).2.1
      exact ⟨v, (hmask v).mpr ⟨i, hi, (hbits i hi v).mpr (.inl (days_subset_values hle hv))⟩, rfl⟩

end

/-- Working days and Sunday as 7. -/
theorem weekdays_working : ∃ f : Field 7, parseField "mon-fri,7".toList 0 7 dowNames 0 = .ok f ∧
    ∀ d, f.foldSunday.contains d = true ↔ d ∈ weekdays [.range 1 5 1, .value 7] := by
  obtain ⟨f, hf⟩ : ∃ f : Field 7, parseField "mon-fri,7".toList 0 7 dowNames 0 = .ok f := ⟨_, rfl⟩
  obtain ⟨items, hitems, hiff⟩ := weekdays_iff hf
  have hread : readItems "mon-fri,7".toList dowNames 0 = some [.range 1 5 1, .value 7] := by
    decide +kernel
  obtain rfl := Option.some.inj (hitems.symm.trans hread)
  refine ⟨f, hf, hiff.mpr fun i hi d hspill => ?_⟩
  -- no item is open-ended, and no step comes near 2^32
  rcases List.mem_cons.mp hi with rfl | hi
  · rcases hspill with ⟨n, s, heq, -⟩ | ⟨v, k, hk, rfl⟩
    · cases heq
    · have hk : v + k * (2 ^ 32 - 1) = 1 := hk
      obtain rfl : v = 1 := by omega
      exact ⟨_, List.mem_cons_self, 1, ⟨Nat.le_refl 1, by decide, 0, rfl⟩, rfl⟩
  · obtain rfl := List.mem_singleton.mp hi
    rcases hspill with ⟨n, s, heq, -⟩ | ⟨v, k, hk, rfl⟩
    · cases heq
    · have hk : v + k * (2 ^ 32 - 1) = 7 := hk
      obtain rfl : v = 7 := by omega
      exact ⟨_, List.mem_cons_of_mem _ List.mem_cons_self, 7, rfl, rfl⟩

/-- `fri/2` is Friday and Sunday. -/
theorem friday_spills : ¬ ∀ (field : Text) (f : Field 7),
    parseField field 0 7 dowNames 0 = .ok f → ∀ items, readItems field dowNames 0 = some items →
      ∀ d, f.foldSunday.contains d = true ↔ d ∈ weekdays items := by
  intro h
  obtain ⟨f, hf, hsunday⟩ : ∃ f : Field 7, parseField "fri/2".toList 0 7 dowNames 0 = .ok f ∧
      f.foldSunday.contains 0 = true := ⟨_, rfl, rfl⟩
  have hread : readItems "fri/2".toList dowNames 0 = some [.start 5 2] := by decide +kernel
  obtain ⟨i, hi, v, hv, hmod⟩ := (h _ f hf _ hread 0).mp hsunday
  obtain rfl := List.mem_singleton.mp hi
  rcases hv with rfl | ⟨hlo, hhi, -⟩
  · cases hmod
  · omega

end GnDrive.Cron
