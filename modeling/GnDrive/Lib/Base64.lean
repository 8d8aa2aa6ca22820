/-
  GnDrive.Lib.Base64

  Base64 (RFC 4648, standard alphabet) without padding, over bytes and
  characters: groups of three bytes become four characters, a last group of
  one or two bytes becomes two or three.  Decoding is canonical: the bits a
  short last group leaves over have to be zero, and no text has a length of
  `4 * n + 1`.

  `decode_encode` is the round trip; `not_mem_encode` tells that encoded text
  stays inside the alphabet, which is what a format with separators needs.
-/

namespace GnDrive.Base64

/-- The sixty-four symbols, in the order of their values. -/
def alphabet : List Char :=
  "ABCDEFGHIJKLMNOPQRSTUVWXYZabcdefghijklmnopqrstuvwxyz0123456789+/".toList

/-- The symbol of a six-bit value. -/
def symbol (v : Nat) : Char := alphabet.getD v 'A'

/-- The six-bit value of a symbol. -/
def sextet (c : Char) : Option Nat := alphabet.idxOf? c

def encode : List UInt8 → List Char
  | [] => []
  | [a] => [symbol (a.toNat / 4), symbol (a.toNat % 4 * 16)]
  | [a, b] =>
      [symbol (a.toNat / 4), symbol (a.toNat % 4 * 16 + b.toNat / 16),
        symbol (b.toNat % 16 * 4)]
  | a :: b :: c :: rest =>
      symbol (a.toNat / 4) :: symbol (a.toNat % 4 * 16 + b.toNat / 16)
        :: symbol (b.toNat % 16 * 4 + c.toNat / 64) :: symbol (c.toNat % 64) :: encode rest

def decode : List Char → Option (List UInt8)
  | [] => some []
  | [_] => none
  | [p, q] => do
      let x ← sextet p
      let y ← sextet q
      if y % 16 = 0 then some [UInt8.ofNat (x * 4 + y / 16)] else none
  | [p, q, r] => do
      let x ← sextet p
      let y ← sextet q
      let z ← sextet r
      if z % 4 = 0 then
        some [UInt8.ofNat (x * 4 + y / 16), UInt8.ofNat (y % 16 * 16 + z / 4)]
      else none
  | p :: q :: r :: s :: rest => do
      let x ← sextet p
      let y ← sextet q
      let z ← sextet r
      let t ← sextet s
      let tail ← decode rest
      some (UInt8.ofNat (x * 4 + y / 16) :: UInt8.ofNat (y % 16 * 16 + z / 4)
        :: UInt8.ofNat (z % 4 * 64 + t) :: tail)

/-! ## Round trip -/

theorem sextet_symbol_fin : ∀ v : Fin 64, sextet (symbol v.val) = some v.val := by
  decide +kernel

theorem sextet_symbol {v : Nat} (hv : v < 64) : sextet (symbol v) = some v :=
  sextet_symbol_fin ⟨v, hv⟩

/-- A byte is recovered from any number that spells its value. -/
theorem ofNat_eq_of_toNat {a : UInt8} {n : Nat} (h : n = a.toNat) : UInt8.ofNat n = a := by
  subst h
  exact UInt8.ofNat_toNat

theorem decode_encode (bs : List UInt8) : decode (encode bs) = some bs := by
  induction bs using encode.induct with
  | case1 => rfl
  | case2 a =>
    have ha := a.toNat_lt
    simp only [encode, decode]
    rw [sextet_symbol (by omega), sextet_symbol (by omega)]
    simp only [Option.bind_eq_bind, Option.bind_some]
    rw [if_pos (by omega), ofNat_eq_of_toNat (a := a) (by omega)]
  | case3 a b =>
    have ha := a.toNat_lt
    have hb := b.toNat_lt
    simp only [encode, decode]
    rw [sextet_symbol (by omega), sextet_symbol (by omega), sextet_symbol (by omega)]
    simp only [Option.bind_eq_bind, Option.bind_some]
    rw [if_pos (by omega), ofNat_eq_of_toNat (a := a) (by omega),
      ofNat_eq_of_toNat (a := b) (by omega)]
  | case4 a b c rest ih =>
    have ha := a.toNat_lt
    have hb := b.toNat_lt
    have hc := c.toNat_lt
    simp only [encode, decode]
    rw [sextet_symbol (by omega), sextet_symbol (by omega), sextet_symbol (by omega),
      sextet_symbol (by omega), ih]
    simp only [Option.bind_eq_bind, Option.bind_some]
    rw [ofNat_eq_of_toNat (a := a) (by omega), ofNat_eq_of_toNat (a := b) (by omega),
      ofNat_eq_of_toNat (a := c) (by omega)]

/-! ## The alphabet -/

theorem symbol_mem_fin : ∀ v : Fin 64, symbol v.val ∈ alphabet := by decide +kernel

theorem symbol_mem {v : Nat} (hv : v < 64) : symbol v ∈ alphabet := symbol_mem_fin ⟨v, hv⟩

/-- Encoded text is spelled with the alphabet only. -/
theorem encode_subset (bs : List UInt8) : ∀ c ∈ encode bs, c ∈ alphabet := by
  induction bs using encode.induct with
  | case1 => simp [encode]
  | case2 a =>
    have ha := a.toNat_lt
    simp only [encode, List.forall_mem_cons]
    exact ⟨symbol_mem (by omega), symbol_mem (by omega), by simp⟩
  | case3 a b =>
    have ha := a.toNat_lt
    have hb := b.toNat_lt
    simp only [encode, List.forall_mem_cons]
    exact ⟨symbol_mem (by omega), symbol_mem (by omega), symbol_mem (by omega), by simp⟩
  | case4 a b c rest ih =>
    have ha := a.toNat_lt
    have hb := b.toNat_lt
    have hc := c.toNat_lt
    simp only [encode, List.forall_mem_cons]
    exact ⟨symbol_mem (by omega), symbol_mem (by omega), symbol_mem (by omega),
      symbol_mem (by omega), ih⟩

theorem not_mem_encode {c : Char} (hc : c ∉ alphabet) (bs : List UInt8) : c ∉ encode bs :=
  fun h => hc (encode_subset bs c h)

end GnDrive.Base64
