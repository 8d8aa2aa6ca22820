/-
  GnDrive.Lib.Ints

  Signed machine integers and their decimal texts.
-/

import GnDrive.Lib.Text
import Mathlib

namespace GnDrive

def IsI32 (n : Int) : Prop := -2 ^ 31 ≤ n ∧ n < 2 ^ 31

def IsI64 (n : Int) : Prop := -2 ^ 63 ≤ n ∧ n < 2 ^ 63

instance (n : Int) : Decidable (IsI32 n) := inferInstanceAs (Decidable (_ ∧ _))

instance (n : Int) : Decidable (IsI64 n) := inferInstanceAs (Decidable (_ ∧ _))

/-- The sign and the digits of a numeral; a `+` is accepted. -/
def signDigits : Text → Int × Text
  | '-' :: rest => (-1, rest)
  | '+' :: rest => (1, rest)
  | s => (1, s)

/-- `str::parse` into a signed type, of which `fits` are the values. -/
def parseInt (fits : Int → Prop) [DecidablePred fits] (s : Text) : Option Int :=
  let (sign, digits) := signDigits s
  if digits ≠ [] ∧ digits.all Char.isDigit then
    let n := sign * Nat.ofDigitChars 10 digits 0
    if fits n then some n else none
  else none

/-- `{}` of an integer. -/
def intDigits (n : Int) : Text :=
  (if n < 0 then ['-'] else []) ++ Nat.toDigits 10 n.natAbs

section

variable {fits : Int → Prop} [DecidablePred fits] {s : Text} {n : Int}

theorem parseInt_fits (h : parseInt fits s = some n) : fits n := by
  unfold parseInt at h
  dsimp only at h
  split at h
  · split at h
    · rename_i hfits
      exact Option.some.inj h ▸ hfits
    · cases h
  · cases h

theorem not_whitespace_of_isDigit {c : Char} (h : c.isDigit = true) :
    Text.isWhitespace c = false := by
  simp only [Char.isDigit, Bool.and_eq_true, decide_eq_true_eq] at h
  have hlow : 48 ≤ c.toNat := UInt32.le_iff_toNat_le.mp h.1
  have hhigh : c.toNat ≤ 57 := UInt32.le_iff_toNat_le.mp h.2
  simp only [Text.isWhitespace, Bool.or_eq_false_iff, Bool.and_eq_false_iff, decide_eq_false_iff_not]
  omega

theorem digits_plain {digits : Text} (h : digits.all Char.isDigit = true) :
    ∀ c ∈ digits, Text.isWhitespace c = false :=
  fun c hc => not_whitespace_of_isDigit (List.all_eq_true.mp h c hc)

theorem toDigits_all (n : Nat) : (Nat.toDigits 10 n).all Char.isDigit = true :=
  List.all_eq_true.mpr fun _ hc => Nat.isDigit_of_mem_toDigits (by decide) (by decide) hc

theorem signDigits_intDigits (n : Int) :
    signDigits (intDigits n) = (if n < 0 then -1 else 1, Nat.toDigits 10 n.natAbs) := by
  unfold intDigits
  by_cases hneg : n < 0
  · rw [if_pos hneg, if_pos hneg]
    rfl
  · rw [if_neg hneg, if_neg hneg, List.nil_append]
    -- a digit is no sign
    have hall := toDigits_all n.natAbs
    cases hdigits : Nat.toDigits 10 n.natAbs with
    | nil => rfl
    | cons c digits =>
      rw [hdigits, List.all_cons, Bool.and_eq_true] at hall
      unfold signDigits
      split
      · rename_i h
        obtain ⟨rfl, -⟩ := List.cons.inj h
        exact absurd hall.1 (by decide)
      · rename_i h
        obtain ⟨rfl, -⟩ := List.cons.inj h
        exact absurd hall.1 (by decide)
      · rfl

/-- A written number is read back. -/
theorem parseInt_intDigits (h : fits n) : parseInt fits (intDigits n) = some n := by
  have hvalue : (if n < 0 then -1 else 1) * ((n.natAbs : Nat) : Int) = n := by
    split <;> omega
  unfold parseInt
  rw [signDigits_intDigits]
  dsimp only
  rw [if_pos ⟨Nat.toDigits_ne_nil, toDigits_all _⟩, Nat.ofDigitChars_ten_toDigits, hvalue]
  exact if_pos h

theorem trim_intDigits (n : Int) : Text.trim (intDigits n) = intDigits n := by
  have hplain : ∀ c ∈ intDigits n, Text.isWhitespace c = false := by
    intro c hc
    rcases List.mem_append.mp hc with hc | hc
    · split at hc
      · obtain rfl := List.mem_singleton.mp hc
        rfl
      · cases hc
    · exact digits_plain (toDigits_all _) c hc
  exact Text.trim_of_ends (fun c hc => hplain c (List.mem_of_mem_head? hc))
    (fun c hc => hplain c (List.mem_of_mem_getLast? hc))

end

end GnDrive
