/-
  GnDrive.Lib.Utf8

  Decoding UTF-8 piece by piece.

  The decoder takes one byte at a time; between two bytes it may be inside a character that
  has begun (`Begun`).  What is no UTF-8 is replaced: each longest beginning of a character
  that is not continued, and each byte that begins none, by U+FFFD.

  `flush_total` says what it costs to end a piece inside a character: nothing, unless the
  next byte would have continued it; then the text gets longer.
-/

import Mathlib.Data.UInt

namespace GnDrive.Utf8

def REPLACEMENT : Char := Char.ofNat 0xFFFD

/-- A character that has begun: its bytes so far, the bits in them, how many bytes are to
    come after the next one, and the range of the next one. -/
structure Begun where
  seen : List UInt8
  value : Nat
  left : Nat
  lo : UInt8
  hi : UInt8
  /-- Only continuation bytes are in the range. -/
  lo_le : 0x80 ≤ lo
  le_hi : hi ≤ 0xBF

namespace Begun

/-- The byte continues the character. -/
def Takes (p : Begun) (b : UInt8) : Prop := p.lo ≤ b ∧ b ≤ p.hi

instance (p : Begun) (b : UInt8) : Decidable (p.Takes b) :=
  inferInstanceAs (Decidable (p.lo ≤ b ∧ b ≤ p.hi))

def ofLead (b : UInt8) (bits left : Nat) : Begun :=
  { seen := [b], value := bits, left, lo := 0x80, hi := 0xBF, lo_le := by decide, le_hi := by decide }

end Begun

/-- What some bytes are decoded to. -/
structure Decoded where
  text : List Char
  state : Option Begun
  /-- There was nothing to replace. -/
  clean : Bool

/-- The first byte of a character. -/
def accept₀ (b : UInt8) : Decoded :=
  let n := b.toNat
  if b < 0x80 then ⟨[Char.ofNat n], none, true⟩
  else if b < 0xC2 then ⟨[REPLACEMENT], none, false⟩
  else if b < 0xE0 then ⟨[], some (.ofLead b (n - 0xC0) 0), true⟩
  else if b = 0xE0 then
    ⟨[], some { Begun.ofLead b 0 1 with lo := 0xA0, lo_le := by decide }, true⟩
  else if b = 0xED then
    ⟨[], some { Begun.ofLead b 0xD 1 with hi := 0x9F, le_hi := by decide }, true⟩
  else if b < 0xF0 then ⟨[], some (.ofLead b (n - 0xE0) 1), true⟩
  else if b = 0xF0 then
    ⟨[], some { Begun.ofLead b 0 2 with lo := 0x90, lo_le := by decide }, true⟩
  else if b < 0xF4 then ⟨[], some (.ofLead b (n - 0xF0) 2), true⟩
  else if b = 0xF4 then
    ⟨[], some { Begun.ofLead b 4 2 with hi := 0x8F, le_hi := by decide }, true⟩
  else ⟨[REPLACEMENT], none, false⟩

/-- A byte that continues a character. -/
def Begun.take (p : Begun) (b : UInt8) : Decoded :=
  let value := p.value * 64 + (b.toNat - 0x80)
  match p.left with
  | 0 => ⟨[Char.ofNat value], none, true⟩
  | left + 1 =>
      ⟨[], some { Begun.ofLead b value left with seen := p.seen ++ [b] }, true⟩

/-- One byte. -/
def accept : Option Begun → UInt8 → Decoded
  | none, b => accept₀ b
  | some p, b =>
      if p.Takes b then p.take b
      else { accept₀ b with text := REPLACEMENT :: (accept₀ b).text, clean := false }

def Decoded.andThen (d e : Decoded) : Decoded := ⟨d.text ++ e.text, e.state, d.clean && e.clean⟩

def decodeFrom (s : Option Begun) : List UInt8 → Decoded
  | [] => ⟨[], s, true⟩
  | b :: bytes => (accept s b).andThen (decodeFrom (accept s b).state bytes)

/-- A character that is not continued at the end. -/
def flush : Option Begun → List Char
  | none => []
  | some _ => [REPLACEMENT]

def totalFrom (s : Option Begun) (bytes : List UInt8) : List Char :=
  (decodeFrom s bytes).text ++ flush (decodeFrom s bytes).state

/-- `String::from_utf8_lossy`. -/
def fromUtf8Lossy (bytes : List UInt8) : List Char := totalFrom none bytes

/-- The bytes of the character that has begun. -/
def carried : Option Begun → List UInt8
  | none => []
  | some p => p.seen

inductive Validity where
  | valid
  /-- The end may become valid: `error_len` is none. -/
  | incomplete (validUpTo : Nat)
  | invalid

/-- `str::from_utf8`. -/
def fromUtf8 (bytes : List UInt8) : Validity :=
  let d := decodeFrom none bytes
  if d.clean then
    match d.state with
    | none => .valid
    | some p => .incomplete (bytes.length - p.seen.length)
  else .invalid

variable {s : Option Begun} {p : Begun} {b : UInt8} {bytes rest : List UInt8}

-- ============================================================================
-- Pieces
-- ============================================================================

theorem Decoded.andThen_assoc (d e f : Decoded) :
    (d.andThen e).andThen f = d.andThen (e.andThen f) := by
  unfold Decoded.andThen
  rw [List.append_assoc, Bool.and_assoc]

theorem decodeFrom_cons (s : Option Begun) (b : UInt8) (bytes : List UInt8) :
    decodeFrom s (b :: bytes) = (accept s b).andThen (decodeFrom (accept s b).state bytes) := rfl

theorem decodeFrom_append (s : Option Begun) (bytes rest : List UInt8) :
    decodeFrom s (bytes ++ rest) =
      (decodeFrom s bytes).andThen (decodeFrom (decodeFrom s bytes).state rest) := by
  induction bytes generalizing s with
  | nil => rfl
  | cons b bytes ih =>
    rw [List.cons_append, decodeFrom_cons, decodeFrom_cons, ih, Decoded.andThen_assoc]
    rfl

theorem totalFrom_append (s : Option Begun) (bytes rest : List UInt8) :
    totalFrom s (bytes ++ rest) =
      (decodeFrom s bytes).text ++ totalFrom (decodeFrom s bytes).state rest := by
  unfold totalFrom
  rw [decodeFrom_append]
  exact List.append_assoc ..

theorem totalFrom_nil (s : Option Begun) : totalFrom s [] = flush s := rfl

theorem totalFrom_cons (s : Option Begun) (b : UInt8) (bytes : List UInt8) :
    totalFrom s (b :: bytes) = (accept s b).text ++ totalFrom (accept s b).state bytes := by
  unfold totalFrom
  rw [decodeFrom_cons]
  exact List.append_assoc ..

-- ============================================================================
-- The bytes of a character that has begun
-- ============================================================================

/-- The state stands for the bytes that it carries. -/
def Stands (s : Option Begun) : Prop := decodeFrom none (carried s) = ⟨[], s, true⟩

theorem stands_none : Stands none := rfl

/-- A clean byte ends a character, or is one more of a character that has begun. -/
theorem accept_clean (h : (accept s b).clean = true) :
    (accept s b).state = none ∨
      (accept s b).text = [] ∧ carried (accept s b).state = carried s ++ [b] := by
  cases s with
  | none =>
    show (accept₀ b).state = none ∨ (accept₀ b).text = [] ∧ carried (accept₀ b).state = [b]
    unfold accept₀
    dsimp only
    split_ifs
    · exact .inl rfl
    · exact .inl rfl
    · exact .inr ⟨rfl, rfl⟩
    · exact .inr ⟨rfl, rfl⟩
    · exact .inr ⟨rfl, rfl⟩
    · exact .inr ⟨rfl, rfl⟩
    · exact .inr ⟨rfl, rfl⟩
    · exact .inr ⟨rfl, rfl⟩
    · exact .inr ⟨rfl, rfl⟩
    · exact .inl rfl
  | some p =>
    unfold accept at h ⊢
    dsimp only at h ⊢
    by_cases htakes : p.Takes b
    · rw [if_pos htakes]
      unfold Begun.take
      cases p.left with
      | zero => exact .inl rfl
      | succ left => exact .inr ⟨rfl, rfl⟩
    · rw [if_neg htakes] at h
      cases h

theorem decodeFrom_carried (hs : Stands s) (bytes : List UInt8) :
    decodeFrom none (carried s ++ bytes) = decodeFrom s bytes := by
  rw [decodeFrom_append, hs]
  rfl

theorem decodeFrom_byte (s : Option Begun) (b : UInt8) : decodeFrom s [b] = accept s b := by
  rw [decodeFrom_cons]
  unfold Decoded.andThen decodeFrom
  rw [List.append_nil, Bool.and_true]

/-- Clean bytes: those of the characters that are whole, and those carried. -/
theorem split_of_clean (hs : Stands s) (h : (decodeFrom s bytes).clean = true) :
    Stands (decodeFrom s bytes).state ∧
      ∃ whole, carried s ++ bytes = whole ++ carried (decodeFrom s bytes).state ∧
        decodeFrom none whole = ⟨(decodeFrom s bytes).text, none, true⟩ := by
  induction bytes generalizing s with
  | nil => exact ⟨hs, [], List.append_nil _, rfl⟩
  | cons b bytes ih =>
    rw [decodeFrom_cons] at h ⊢
    obtain ⟨hb, hrest⟩ := (Bool.and_eq_true _ _).mp h
    have hbyte : decodeFrom none (carried s ++ [b]) = accept s b := by
      rw [decodeFrom_carried hs, decodeFrom_byte]
    -- the bytes up to this one
    have hwhole : Stands (accept s b).state ∧
        ∃ whole, carried s ++ [b] = whole ++ carried (accept s b).state ∧
          decodeFrom none whole = ⟨(accept s b).text, none, true⟩ := by
      rcases accept_clean hb with hnone | ⟨htext, hcarried⟩
      · rw [hnone]
        refine ⟨stands_none, carried s ++ [b], (List.append_nil _).symm, ?_⟩
        rw [hbyte, ← hnone, ← hb]
      · refine ⟨?_, [], hcarried.symm, by rw [htext]; rfl⟩
        unfold Stands
        rw [hcarried, hbyte, ← htext, ← hb]
    obtain ⟨hstands, whole, hsplit, hdecode⟩ := hwhole
    obtain ⟨hstands', whole', hsplit', hdecode'⟩ := ih hstands hrest
    refine ⟨hstands', whole ++ whole', ?_, ?_⟩
    · calc carried s ++ b :: bytes = (carried s ++ [b]) ++ bytes := by simp
        _ = whole ++ (carried (accept s b).state ++ bytes) := by rw [hsplit, List.append_assoc]
        _ = whole ++ whole' ++ carried (decodeFrom (accept s b).state bytes).state := by
            rw [hsplit', List.append_assoc]
    · rw [decodeFrom_append, hdecode, hdecode']
      rfl

-- ============================================================================
-- Ending a piece inside a character
-- ============================================================================

theorem Begun.Takes.accept₀ (h : p.Takes b) : Utf8.accept₀ b = ⟨[REPLACEMENT], none, false⟩ := by
  have hlo : ¬ b < 0x80 := UInt8.not_lt.mpr (UInt8.le_trans p.lo_le h.1)
  have hhi : b < 0xC2 := UInt8.lt_of_le_of_lt (UInt8.le_trans h.2 p.le_hi) (by decide)
  unfold Utf8.accept₀
  dsimp only
  rw [if_neg hlo, if_pos hhi]

theorem accept_of_not_takes (h : ¬ p.Takes b) :
    accept (some p) b =
      { accept₀ b with text := REPLACEMENT :: (accept₀ b).text, clean := false } := by
  show (if p.Takes b then _ else _) = _
  rw [if_neg h]

/-- A byte that does not continue the character finds it ended. -/
theorem totalFrom_of_not_takes (h : ¬ p.Takes b) (bytes : List UInt8) :
    totalFrom (some p) (b :: bytes) = REPLACEMENT :: totalFrom none (b :: bytes) := by
  rw [totalFrom_cons, totalFrom_cons, accept_of_not_takes h]
  rfl

/-- From the start it stands for itself. -/
theorem totalFrom_of_takes (h : p.Takes b) (bytes : List UInt8) :
    totalFrom none (b :: bytes) = REPLACEMENT :: totalFrom none bytes := by
  rw [totalFrom_cons]
  show (accept₀ b).text ++ totalFrom (accept₀ b).state bytes = _
  rw [h.accept₀]
  rfl

/-- What takes a byte says one character, or none yet. -/
theorem take_cases (p : Begun) (b : UInt8) :
    (∃ c, (p.take b).text = [c] ∧ (p.take b).state = none) ∨ (p.take b).text = [] := by
  unfold Begun.take
  cases p.left with
  | zero => exact .inl ⟨_, rfl, rfl⟩
  | succ left => exact .inr rfl

theorem length_of_takes (h : p.Takes b)
    (hle : ∀ s, (totalFrom s bytes).length ≤ (totalFrom none bytes).length + 1) :
    (totalFrom (some p) (b :: bytes)).length ≤ (totalFrom none bytes).length + 1 := by
  have haccept : accept (some p) b = p.take b := if_pos h
  rw [totalFrom_cons, haccept]
  rcases take_cases p b with ⟨c, htext, hstate⟩ | htext
  · rw [htext, hstate, List.length_append, List.length_singleton]
    omega
  · rw [htext, List.nil_append]
    exact hle _

/-- The text from inside a character is longer by one at most. -/
theorem length_totalFrom_le (s : Option Begun) (bytes : List UInt8) :
    (totalFrom s bytes).length ≤ (totalFrom none bytes).length + 1 := by
  induction bytes generalizing s with
  | nil =>
    cases s with
    | none => exact Nat.zero_le _
    | some p => exact Nat.le_refl _
  | cons b bytes ih =>
    cases s with
    | none => exact Nat.le_succ _
    | some p =>
      by_cases h : p.Takes b
      · have hlen := length_of_takes h ih
        rw [totalFrom_of_takes h, List.length_cons]
        omega
      · rw [totalFrom_of_not_takes h, List.length_cons]

/-- A piece that ends inside a character: the text is the same if the next byte does not
    continue the character, and longer if it does. -/
theorem flush_total (p : Begun) (bytes : List UInt8) :
    (∀ b ∈ bytes.head?, ¬ p.Takes b) ∧
        flush (some p) ++ totalFrom none bytes = totalFrom (some p) bytes ∨
      (∃ b ∈ bytes.head?, p.Takes b) ∧
        (totalFrom (some p) bytes).length < (flush (some p) ++ totalFrom none bytes).length := by
  cases bytes with
  | nil => exact .inl ⟨(fun b h => nomatch h), rfl⟩
  | cons b bytes =>
    by_cases h : p.Takes b
    · refine .inr ⟨⟨b, rfl, h⟩, ?_⟩
      have hlen := length_of_takes h fun s => length_totalFrom_le s bytes
      rw [totalFrom_of_takes h, List.length_append, List.length_cons]
      show _ < 1 + _
      omega
    · refine .inl ⟨fun b' hb' => ?_, (totalFrom_of_not_takes h bytes).symm⟩
      obtain rfl := Option.some.inj hb'
      exact h

end GnDrive.Utf8
