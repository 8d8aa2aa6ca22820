/-
  GnDrive.Lib.JsonText

  Strings, lists of strings and whole numbers as `serde_json` writes them, and
  reading them back: what was written is read as it was, and a string or a number
  whatever comes after it.
-/

import GnDrive.Lib.Text

namespace GnDrive.JsonText

-- ============================================================================
-- Literals
-- ============================================================================

def expect : Text → Text → Option Text
  | [], t => some t
  | _ :: _, [] => none
  | c :: lit, c' :: t => if c = c' then expect lit t else none

theorem expect_append (lit t : Text) : expect lit (lit ++ t) = some t := by
  induction lit with
  | nil => rfl
  | cons c lit ih => rw [List.cons_append, expect, if_pos rfl, ih]

-- ============================================================================
-- Strings
-- ============================================================================

/-- The control characters that have a letter. -/
def letters : List (Char × Char) :=
  [(Char.ofNat 8, 'b'), ('\t', 't'), ('\n', 'n'), (Char.ofNat 12, 'f'), ('\r', 'r')]

def escape (c : Char) : Text :=
  if c = '"' ∨ c = '\\' then ['\\', c]
  else if c.toNat < 32 then
    match letters.lookup c with
    | some l => ['\\', l]
    | none => ['\\', 'u', '0', '0', Nat.digitChar (c.toNat / 16), Nat.digitChar (c.toNat % 16)]
  else [c]

def quoted (s : Text) : Text := '"' :: s.flatMap escape ++ ['"']

def hexValue (c : Char) : Nat := if c.isDigit then c.toNat - 48 else c.toNat - 87

/-- The character of a letter behind `\`. -/
def unletter (l : Char) : Char := ((letters.find? (·.2 = l)).map (·.1)).getD l

/-- Behind the opening quote. -/
def readString : Text → Option (Text × Text)
  | [] => none
  | c :: t =>
      if c = '"' then some ([], t)
      else if c = '\\' then
        match t with
        | [] => none
        | l :: t =>
            if l = 'u' then
              match t with
              | _ :: _ :: h :: h' :: t =>
                  (readString t).map fun (s, t) =>
                    (Char.ofNat (16 * hexValue h + hexValue h') :: s, t)
              | _ => none
            else (readString t).map fun (s, t) => (unletter l :: s, t)
      else (readString t).map fun (s, t) => (c :: s, t)

def readQuoted (t : Text) : Option (Text × Text) := (expect ['"'] t).bind readString

theorem readString_end (t : Text) : readString ('"' :: t) = some ([], t) := by
  rw [readString.eq_def]
  simp

theorem readString_letter {l : Char} (h : l ≠ 'u') (t : Text) :
    readString ('\\' :: l :: t) = (readString t).map fun (s, t) => (unletter l :: s, t) := by
  conv_lhs => rw [readString.eq_def]
  simp [h]

theorem readString_hex (h h' : Char) (t : Text) :
    readString ('\\' :: 'u' :: '0' :: '0' :: h :: h' :: t) =
      (readString t).map fun (s, t) => (Char.ofNat (16 * hexValue h + hexValue h') :: s, t) := by
  conv_lhs => rw [readString.eq_def]
  simp

theorem unletter_letters : ∀ n < 32, (letters.lookup (Char.ofNat n)).all fun l =>
    l ≠ 'u' && unletter l = Char.ofNat n := by
  decide

theorem hexValue_digitChar : ∀ n < 32,
    16 * hexValue (Nat.digitChar (n / 16)) + hexValue (Nat.digitChar (n % 16)) = n := by
  decide

theorem readString_control {c : Char} (hquote : ¬ (c = '"' ∨ c = '\\')) (h : c.toNat < 32)
    (t : Text) :
    readString (escape c ++ t) = (readString t).map fun (s, t) => (c :: s, t) := by
  have hletter := unletter_letters c.toNat h
  rw [Char.ofNat_toNat] at hletter
  unfold escape
  rw [if_neg hquote, if_pos h]
  cases hl : letters.lookup c with
  | some l =>
    rw [hl, Option.all_some, Bool.and_eq_true, decide_eq_true_eq, decide_eq_true_eq] at hletter
    show readString ('\\' :: l :: t) = _
    rw [readString_letter hletter.1, hletter.2]
  | none =>
    show readString ('\\' :: 'u' :: '0' :: '0' :: _ :: _ :: t) = _
    rw [readString_hex, hexValue_digitChar c.toNat h, Char.ofNat_toNat]

theorem readString_escape (c : Char) (t : Text) :
    readString (escape c ++ t) = (readString t).map fun (s, t) => (c :: s, t) := by
  by_cases hquote : c = '"'
  · rw [hquote]
    exact readString_letter (by decide) t
  by_cases hslash : c = '\\'
  · rw [hslash]
    exact readString_letter (by decide) t
  by_cases hcontrol : c.toNat < 32
  · exact readString_control (by simp [hquote, hslash]) hcontrol t
  · have hescape : escape c = [c] := by
      unfold escape
      rw [if_neg (by simp [hquote, hslash]), if_neg hcontrol]
    rw [hescape, List.singleton_append, readString.eq_def]
    simp only [if_neg hquote, if_neg hslash]

theorem readQuoted_quoted (s t : Text) : readQuoted (quoted s ++ t) = some (s, t) := by
  have hstring : readString (s.flatMap escape ++ '"' :: t) = some (s, t) := by
    induction s with
    | nil => exact readString_end t
    | cons c s ih => rw [List.flatMap_cons, List.append_assoc, readString_escape, ih, Option.map_some]
  show readString (s.flatMap escape ++ ['"'] ++ t) = _
  rw [List.append_assoc]
  exact hstring

-- ============================================================================
-- Lists of strings
-- ============================================================================

/-- The elements behind the first one, and the end of the list. -/
def moreText (l : List Text) : Text := l.flatMap (fun s => ',' :: quoted s) ++ [']']

def listText : List Text → Text
  | [] => ['[', ']']
  | s :: l => '[' :: quoted s ++ moreText l

/-- Behind an element; every further one takes at least a character. -/
def readMore : Nat → Text → Option (List Text)
  | _, [']'] => some []
  | fuel + 1, ',' :: t =>
      (readQuoted t).bind fun (s, t) => (readMore fuel t).map fun l => s :: l
  | _, _ => none

def readList (t : Text) : Option (List Text) :=
  (expect ['['] t).bind fun t =>
    if t = [']'] then some []
    else (readQuoted t).bind fun (s, t) => (readMore t.length t).map fun l => s :: l

theorem readMore_moreText (l : List Text) {fuel : Nat} (h : l.length < fuel) :
    readMore fuel (moreText l) = some l := by
  induction l generalizing fuel with
  | nil => cases fuel <;> rfl
  | cons s l ih =>
    cases fuel with
    | zero => exact absurd h (Nat.not_lt_zero _)
    | succ fuel =>
      have hmore : moreText (s :: l) = ',' :: (quoted s ++ moreText l) := by
        unfold moreText
        rw [List.flatMap_cons, List.cons_append, List.cons_append, List.append_assoc]
      have hl : l.length < fuel := by
        rw [List.length_cons] at h
        omega
      rw [hmore, readMore, readQuoted_quoted, Option.bind_some]
      show (readMore fuel (moreText l)).map _ = _
      rw [ih hl, Option.map_some]

theorem length_moreText (l : List Text) : l.length < (moreText l).length := by
  induction l with
  | nil => decide
  | cons s l ih =>
    unfold moreText at ih ⊢
    rw [List.flatMap_cons]
    simp only [List.length_append, List.length_cons] at ih ⊢
    omega

theorem readList_listText (l : List Text) : readList (listText l) = some l := by
  cases l with
  | nil => rfl
  | cons s l =>
    have hlist : listText (s :: l) = ['['] ++ (quoted s ++ moreText l) := rfl
    have hquote : quoted s ++ moreText l ≠ [']'] := by
      intro h
      injection h with h
      exact absurd h (by decide)
    rw [readList, hlist, expect_append, Option.bind_some, if_neg hquote, readQuoted_quoted,
      Option.bind_some]
    show (readMore (moreText l).length (moreText l)).map _ = _
    rw [readMore_moreText l (length_moreText l), Option.map_some]

-- ============================================================================
-- Whole numbers
-- ============================================================================

/-- A float without a fraction. -/
def wholeText (n : Nat) : Text := Nat.toDigits 10 n ++ ['.', '0']

def readWhole (t : Text) : Option (Nat × Text) :=
  (expect ['.', '0'] (t.dropWhile Char.isDigit)).map fun rest =>
    (Nat.ofDigitChars 10 (t.takeWhile Char.isDigit) 0, rest)

theorem readWhole_wholeText (n : Nat) (t : Text) : readWhole (wholeText n ++ t) = some (n, t) := by
  have hdigits : ∀ c ∈ Nat.toDigits 10 n, Char.isDigit c = true :=
    fun c hc => Nat.isDigit_of_mem_toDigits (by omega) (by omega) hc
  unfold readWhole wholeText
  rw [List.append_assoc, List.dropWhile_append_of_pos hdigits, List.takeWhile_append_of_pos hdigits]
  show some (Nat.ofDigitChars 10 (Nat.toDigits 10 n ++ []) 0, t) = _
  rw [List.append_nil, Nat.ofDigitChars_ten_toDigits]

end GnDrive.JsonText
