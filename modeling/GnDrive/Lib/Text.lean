/-
  GnDrive.Lib.Text

  Texts as lists of characters, with the string operations of the standard
  library that the program uses.
-/

import Mathlib.Data.List.DropRight

namespace GnDrive

abbrev Text := List Char

namespace Text

/-- `char::is_whitespace`. -/
def isWhitespace (c : Char) : Bool :=
  let n := c.toNat
  (9 ≤ n && n ≤ 13) || n = 32 || n = 0x85 || n = 0xa0 || n = 0x1680
    || (0x2000 ≤ n && n ≤ 0x200a) || n = 0x2028 || n = 0x2029 || n = 0x202f
    || n = 0x205f || n = 0x3000

def trim (s : Text) : Text := (s.dropWhile isWhitespace).rdropWhile isWhitespace

def splitWhitespace (s : Text) : List Text :=
  (s.splitOnP isWhitespace).filter (· ≠ [])

/-- `str::to_lowercase`, as far as a comparison with ASCII words can tell: the
    Kelvin sign and the dotted capital I are the letters outside ASCII whose
    lower case has an ASCII letter in it. -/
def toLowercase (s : Text) : Text :=
  s.flatMap fun c =>
    if c.toNat = 0x212a then ['k']
    else if c.toNat = 0x130 then ['i', Char.ofNat 0x307]
    else [c.toLower]

/-- The text before the first place where `pat` begins, and the text from
    there on. -/
def findSplit (pat : Text) : Text → Option (Text × Text)
  | [] => if pat = [] then some ([], []) else none
  | c :: s =>
      if pat.isPrefixOf (c :: s) then some ([], c :: s)
      else (findSplit pat s).map fun (before, rest) => (c :: before, rest)

/-- `str::find`. -/
def find (pat s : Text) : Option Nat := (findSplit pat s).map (·.1.length)

def contains (pat s : Text) : Bool := (findSplit pat s).isSome

/-- `str::starts_with`. -/
def startsWith (pat s : Text) : Bool := pat.isPrefixOf s

/-- `str::ends_with`. -/
def endsWith (pat s : Text) : Bool := pat.isSuffixOf s

/-! ## Trimming -/

theorem trim_isInfix (s : Text) : trim s <:+: s :=
  (List.rdropWhile_prefix isWhitespace _).isInfix.trans (List.dropWhile_suffix isWhitespace).isInfix

theorem length_trim_le (s : Text) : (trim s).length ≤ s.length := (trim_isInfix s).length_le

/-- What does not get shorter has nothing to trim. -/
theorem trim_eq_self {s : Text} (h : s.length ≤ (trim s).length) : trim s = s :=
  (trim_isInfix s).sublist.eq_of_length (Nat.le_antisymm (length_trim_le s) h)

theorem dropWhile_trim (s : Text) : (trim s).dropWhile isWhitespace = trim s := by
  cases htrim : trim s with
  | nil => rfl
  | cons c t =>
    obtain ⟨r, hr⟩ : trim s <+: s.dropWhile isWhitespace :=
      List.rdropWhile_prefix isWhitespace _
    rw [htrim] at hr
    -- the first character has been left there
    have hhead : isWhitespace c = false := by
      have hnot := List.head?_dropWhile_not isWhitespace s
      rw [← hr] at hnot
      simpa using hnot
    simp [hhead]

theorem trim_trim (s : Text) : trim (trim s) = trim s := by
  show ((trim s).dropWhile isWhitespace).rdropWhile isWhitespace = trim s
  rw [dropWhile_trim]
  exact List.rdropWhile_idempotent ..

theorem trim_eq_nil_iff {s : Text} : trim s = [] ↔ ∀ c ∈ s, isWhitespace c = true := by
  constructor
  · intro h
    have hdrop : s.dropWhile isWhitespace = [] := by
      rw [trim, List.rdropWhile_eq_nil_iff] at h
      by_contra hne
      have hhead := List.head_dropWhile_not isWhitespace hne
      rw [h _ (List.head_mem hne)] at hhead
      cases hhead
    exact List.dropWhile_eq_nil_iff.mp hdrop
  · intro h
    rw [trim, List.dropWhile_eq_nil_iff.mpr h]
    rfl

theorem trim_append_left {a s : Text} (h : ∀ c ∈ a, isWhitespace c = true) :
    trim (a ++ s) = trim s := by
  unfold trim
  rw [List.dropWhile_append_of_pos h]

theorem trim_append_right {s b : Text} (h : ∀ c ∈ b, isWhitespace c = true) :
    trim (s ++ b) = trim s := by
  have hreverse : ∀ t : Text, (t ++ b).rdropWhile isWhitespace = t.rdropWhile isWhitespace := by
    intro t
    unfold List.rdropWhile
    rw [List.reverse_append,
      List.dropWhile_append_of_pos fun c hc => h c (List.mem_reverse.mp hc)]
  unfold trim
  rw [List.dropWhile_append]
  split
  · rename_i hempty
    rw [List.dropWhile_eq_nil_iff.mpr h, List.isEmpty_iff.mp hempty]
  · exact hreverse _

/-- Trimming some of the white space first makes no difference. -/
theorem trim_inner {p : Char → Bool} (hp : ∀ c, p c = true → isWhitespace c = true) (s : Text) :
    trim ((s.dropWhile p).rdropWhile p) = trim s := by
  calc trim ((s.dropWhile p).rdropWhile p)
      = trim ((s.dropWhile p).rdropWhile p ++ (s.dropWhile p).rtakeWhile p) :=
        (trim_append_right fun c hc => hp c (List.mem_rtakeWhile_imp hc)).symm
    _ = trim (s.dropWhile p) := by rw [List.rdropWhile_append_rtakeWhile]
    _ = trim (s.takeWhile p ++ s.dropWhile p) :=
        (trim_append_left fun c hc => hp c (List.mem_takeWhile_imp hc)).symm
    _ = trim s := by rw [List.takeWhile_append_dropWhile]

/-! ## Words -/

/-- A text that `split_whitespace` leaves in one piece. -/
def IsWord (w : Text) : Prop := w ≠ [] ∧ ∀ c ∈ w, isWhitespace c = false

theorem not_whitespace_of_mem_splitOnP {s w : Text} (h : w ∈ s.splitOnP isWhitespace) :
    ∀ c ∈ w, isWhitespace c = false := by
  induction s generalizing w with
  | nil =>
    rw [List.splitOnP_nil, List.mem_singleton] at h
    simp [h]
  | cons x s ih =>
    rw [List.splitOnP_cons_eq_if_modifyHead] at h
    split at h
    · rcases List.mem_cons.mp h with rfl | h
      · simp
      · exact ih h
    · rename_i hx
      obtain ⟨r, rs, hr⟩ := List.exists_cons_of_ne_nil (List.splitOnP_ne_nil isWhitespace s)
      rw [hr] at ih h
      rcases List.mem_cons.mp h with rfl | h
      · intro c hc
        rcases List.mem_cons.mp hc with rfl | hc
        · exact Bool.eq_false_iff.mpr hx
        · exact ih List.mem_cons_self c hc
      · exact ih (List.mem_cons_of_mem _ h)

theorem isWord_of_mem {s w : Text} (h : w ∈ splitWhitespace s) : IsWord w := by
  obtain ⟨hw, hne⟩ := List.mem_filter.mp h
  exact ⟨of_decide_eq_true hne, not_whitespace_of_mem_splitOnP hw⟩

/-- The words of words joined by blanks. -/
theorem splitWhitespace_intercalate {ws : List Text} (h : ∀ w ∈ ws, IsWord w) :
    splitWhitespace ([' '].intercalate ws) = ws := by
  induction ws with
  | nil => rfl
  | cons w ws ih =>
    have hw := h w List.mem_cons_self
    have ih := ih fun v hv => h v (List.mem_cons_of_mem _ hv)
    cases ws with
    | nil =>
      unfold splitWhitespace
      rw [List.intercalate_singleton, List.splitOnP_eq_singleton hw.2,
        List.filter_cons_of_pos (by simpa using hw.1), List.filter_nil]
    | cons v ws =>
      unfold splitWhitespace at ih ⊢
      rw [List.intercalate_cons_cons, List.append_assoc, List.singleton_append,
        List.splitOnP_append_cons_of_forall_mem hw.2 ' ' (by decide),
        List.filter_cons_of_pos (by simpa using hw.1), ih]

theorem head?_intercalate {w : Text} {ws : List Text} (h : IsWord w) :
    ([' '].intercalate (w :: ws)).head? = w.head? := by
  obtain ⟨c, w, rfl⟩ := List.exists_cons_of_ne_nil h.1
  cases ws with
  | nil => rw [List.intercalate_singleton]
  | cons v ws => rw [List.intercalate_cons_cons]; rfl

theorem trim_of_ends {s : Text} (hfirst : ∀ c ∈ s.head?, isWhitespace c = false)
    (hlast : ∀ c ∈ s.getLast?, isWhitespace c = false) : trim s = s := by
  have hdrop : s.dropWhile isWhitespace = s := by
    cases s with
    | nil => rfl
    | cons c s => 
      have := hfirst c rfl
      exact List.dropWhile_cons_of_neg (by simp [this])
  unfold trim
  rw [hdrop, List.rdropWhile_eq_self_iff]
  intro hne
  have := hlast _ (List.getLast?_eq_some_getLast hne)
  simp [this]

theorem trim_intercalate {ws : List Text} (h : ∀ w ∈ ws, IsWord w) :
    trim ([' '].intercalate ws) = [' '].intercalate ws := by
  cases ws with
  | nil => rfl
  | cons w ws =>
    refine trim_of_ends ?_ ?_
    · rw [head?_intercalate (h w List.mem_cons_self)]
      exact fun c hc => (h w List.mem_cons_self).2 c (List.mem_of_head? hc)
    · induction ws generalizing w with
      | nil =>
        rw [List.intercalate_singleton]
        exact fun c hc => (h w List.mem_cons_self).2 c (List.mem_of_getLast? hc)
      | cons v ws ih =>
        have hrest : ∀ u ∈ v :: ws, IsWord u := fun u hu => h u (List.mem_cons_of_mem _ hu)
        have hne : [' '].intercalate (v :: ws) ≠ [] := by
          intro hnil
          have hhead : ([' '].intercalate (v :: ws)).head? = v.head? :=
            head?_intercalate (hrest v List.mem_cons_self)
          rw [hnil] at hhead
          exact (hrest v List.mem_cons_self).1 (List.head?_eq_none_iff.mp hhead.symm)
        rw [List.intercalate_cons_cons, List.getLast?_append_of_ne_nil _ hne]
        exact ih v hrest

/-- The first word begins where the text does, when that is no whitespace. -/
theorem head_splitWhitespace {c : Char} {s : Text} (hc : isWhitespace c = false) :
    ∃ w ws, splitWhitespace (c :: s) = (c :: w) :: ws := by
  obtain ⟨r, rs, hr⟩ := List.exists_cons_of_ne_nil (List.splitOnP_ne_nil isWhitespace s)
  refine ⟨r, rs.filter (· ≠ []), ?_⟩
  unfold splitWhitespace
  rw [List.splitOnP_cons_eq_if_modifyHead, if_neg (by simp [hc]), hr, List.modifyHead_cons,
    List.filter_cons_of_pos (by simp)]

theorem head?_trim {s : Text} {c : Char} (h : (trim s).head? = some c) :
    isWhitespace c = false := by
  have hnot := List.head?_dropWhile_not isWhitespace (trim s)
  rw [dropWhile_trim, h] at hnot
  simpa using hnot

end Text

end GnDrive
