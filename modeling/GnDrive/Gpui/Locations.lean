/-
  GnDrive.Gpui.Locations

  The location of a node as one text (`split_location` and `location_text` of the window).

  A field of the inspector shows a location in the form `remote:path` and is read back by its
  first colon.  A colon that belongs to the path, or to the remote, is taken for that one;
  `locationKept_iff` says for which locations nothing is changed by it.
-/

import GnDrive.Gpui.GraphRoundTrip
import GnDrive.Lib.Cut
import GnDrive.Rclone.DryRun

namespace GnDrive.Gpui

open Rclone (composePath)
open Text (trim isWhitespace)

def isColon (c : Char) : Bool := c = ':'

def LOCAL : Text := "local".toList

def splitLocation (path : Text) : Text × Text :=
  match cutFirst isColon (trim path) with
  | some (remote, _, rest) =>
      if '/' ∈ remote then ([], trim path) else (remote, if rest = [] then ['/'] else rest)
  | none => ([], trim path)

def locationText (remote path : Text) : Text :=
  if remote = [] ∨ remote = LOCAL then path else remote ++ ':' :: normalizePath path

/-- The location of rclone that a field is read as. -/
def fieldLocation (text : Text) : Text :=
  composePath (splitLocation text).1 (splitLocation text).2

/-- The text stands for itself: it has no colon but behind a slash, or its first colon ends the
    name of a remote and nothing is to be trimmed or left out at it. -/
def ReadsBack (t : Text) : Prop :=
  match cutFirst isColon t with
  | none => True
  | some (a, _, rest) =>
      '/' ∈ a ∨ (trim a = a ∧ a ≠ [] ∧ a ≠ LOCAL ∧ trim rest = rest ∧ rest ≠ ['/'])

/-- The location comes back from its text: a local path that stands for itself; a remote whose
    name has no colon and no slash; or another remote with a path below the root, where the
    two together stand for themselves and the remote ends in no white space, unless behind its
    first colon. -/
def LocationKept (remote path : Text) : Prop :=
  if remote = [] ∨ remote = LOCAL then ReadsBack (trim path)
  else (':' ∉ remote ∧ '/' ∉ remote) ∨
    (normalizePath path ≠ ['/'] ∧ ReadsBack (trim remote ++ ':' :: normalizePath path) ∧
      (remote.dropWhile isWhitespace = trim remote ∨
        ∃ a, trim remote = a ++ [':'] ∧ ':' ∉ a ∧ '/' ∉ a))

-- ============================================================================
-- Composed locations
-- ============================================================================

theorem composePath_local {remote : Text} (path : Text)
    (h : trim remote = [] ∨ trim remote = LOCAL) :
    composePath remote path = normalizePath path :=
  if_pos h

/-- What stands behind the colon. -/
def belowRoot (path : Text) : Text := if trim path = ['/'] then [] else trim path

theorem composePath_remote {remote : Text} (path : Text)
    (h : ¬(trim remote = [] ∨ trim remote = LOCAL)) :
    composePath remote path = trim remote ++ ':' :: belowRoot path := by
  have hif : composePath remote path =
      if trim path = [] ∨ trim path = "/".toList then trim remote ++ [':']
      else trim remote ++ ':' :: trim path := if_neg h
  rw [hif]
  unfold belowRoot
  by_cases hroot : trim path = ['/']
  · rw [if_pos (.inr hroot), if_pos hroot]
  · rw [if_neg hroot]
    by_cases hp : trim path = []
    · rw [if_pos (.inl hp), hp]
    · rw [if_neg fun h => h.elim hp hroot]

theorem length_belowRoot_le (path : Text) : (belowRoot path).length ≤ path.length := by
  unfold belowRoot
  split_ifs
  · exact Nat.zero_le _
  · exact Text.length_trim_le path

theorem belowRoot_eq_self_iff {path : Text} :
    belowRoot path = path ↔ trim path = path ∧ path ≠ ['/'] := by
  unfold belowRoot
  by_cases hroot : trim path = ['/']
  · rw [if_pos hroot, hroot]
    refine iff_of_false (fun h => ?_) fun ⟨h, hne⟩ => hne h.symm
    rw [← h] at hroot
    cases hroot
  · rw [if_neg hroot]
    exact ⟨fun h => ⟨h, fun heq => hroot (h.trans heq)⟩, And.left⟩

theorem composePath_normalizePath (remote path : Text) :
    composePath remote (normalizePath path) = composePath remote path := by
  by_cases h : trim remote = [] ∨ trim remote = LOCAL
  · rw [composePath_local _ h, composePath_local _ h, normalizePath_normalizePath]
  · rw [composePath_remote _ h, composePath_remote _ h]
    unfold belowRoot normalizePath
    by_cases hp : trim path = []
    · have hroot : trim ['/'] = ['/'] := by decide
      rw [if_pos hp, hp, hroot]
      rfl
    · rw [if_neg hp, Text.trim_trim]

theorem composePath_congr {remote remote' : Text} (path : Text) (h : trim remote = trim remote') :
    composePath remote path = composePath remote' path := by
  unfold composePath
  rw [h]

theorem normalizePath_ne_nil (path : Text) : normalizePath path ≠ [] := by
  unfold normalizePath
  split_ifs with h
  · exact List.cons_ne_nil _ _
  · exact h

theorem trim_normalizePath (path : Text) : trim (normalizePath path) = normalizePath path := by
  unfold normalizePath
  split_ifs
  · decide
  · exact Text.trim_trim path

theorem normalizePath_of_trimmed {p : Text} (h : trim p = p) (hne : p ≠ []) :
    normalizePath p = p := by
  unfold normalizePath
  rw [h, if_neg hne]

-- ============================================================================
-- A text that stands for itself
-- ============================================================================

theorem cut_colon {a : Text} (b : Text) (ha : ':' ∉ a) :
    cutFirst isColon (a ++ ':' :: b) = some (a, ':', b) :=
  cutFirst_eq_some.mpr ⟨rfl, rfl, fun _ hc => decide_eq_false fun h => ha (h ▸ hc)⟩

theorem cut_none {t : Text} (h : ':' ∉ t) : cutFirst isColon t = none :=
  cutFirst_eq_none.mpr fun _ hc => decide_eq_false fun heq => h (heq ▸ hc)

/-- How a field is read that shows no colon. -/
theorem fieldLocation_plain {t : Text} (h : ':' ∉ trim t) :
    fieldLocation t = normalizePath t := by
  unfold fieldLocation splitLocation
  rw [cut_none h]
  show composePath [] (trim t) = _
  rw [composePath_local _ (.inl rfl)]
  unfold normalizePath
  rw [Text.trim_trim]

/-- How one is read with a slash before its first colon. -/
theorem fieldLocation_slash {t a b : Text} (h : trim t = a ++ ':' :: b) (ha : ':' ∉ a)
    (hslash : '/' ∈ a) : fieldLocation t = trim t := by
  unfold fieldLocation splitLocation
  rw [h, cut_colon b ha]
  show composePath (if '/' ∈ a then _ else _ : Text × Text).1
    (if '/' ∈ a then _ else _ : Text × Text).2 = _
  rw [if_pos hslash, ← h, composePath_local _ (.inl rfl)]
  refine normalizePath_of_trimmed (Text.trim_trim t) ?_
  rw [h]
  simp

/-- How one is read that names a remote. -/
theorem fieldLocation_remote {t a b : Text} (h : trim t = a ++ ':' :: b) (ha : ':' ∉ a)
    (hslash : '/' ∉ a) : fieldLocation t = composePath a b := by
  unfold fieldLocation splitLocation
  rw [h, cut_colon b ha]
  show composePath (if '/' ∈ a then _ else _ : Text × Text).1
    (if '/' ∈ a then _ else _ : Text × Text).2 = _
  rw [if_neg hslash]
  dsimp only
  by_cases hb : b = []
  · rw [if_pos hb, hb]
    exact composePath_normalizePath a []
  · rw [if_neg hb]

theorem readsBack_plain {t : Text} (h : ':' ∉ t) : ReadsBack t := by
  unfold ReadsBack
  rw [cut_none h]
  trivial

theorem readsBack_cut {a : Text} (b : Text) (ha : ':' ∉ a) :
    ReadsBack (a ++ ':' :: b) ↔
      '/' ∈ a ∨ (trim a = a ∧ a ≠ [] ∧ a ≠ LOCAL ∧ trim b = b ∧ b ≠ ['/']) := by
  unfold ReadsBack
  rw [cut_colon b ha]

theorem length_normalizePath_le {p : Text} (h : p ≠ []) :
    (normalizePath p).length ≤ p.length := by
  unfold normalizePath
  split_ifs
  · exact List.length_pos_iff.mpr h
  · exact Text.length_trim_le p

/-- A remote and a path composed to what stood there, if nothing was dropped. -/
theorem composePath_eq_iff (a b : Text) :
    composePath a b = a ++ ':' :: b ↔
      trim a = a ∧ a ≠ [] ∧ a ≠ LOCAL ∧ trim b = b ∧ b ≠ ['/'] := by
  have hb := Text.length_trim_le b
  have ha := Text.length_trim_le a
  by_cases h : trim a = [] ∨ trim a = LOCAL
  · rw [composePath_local b h]
    constructor
    · intro heq
      have hlen := congrArg List.length heq
      rw [List.length_append, List.length_cons] at hlen
      by_cases hnil : b = []
      · subst hnil
        cases a with
        | nil => cases heq
        | cons c a =>
          have hone : (normalizePath []).length = 1 := rfl
          simp only [hone, List.length_cons, List.length_nil] at hlen
          omega
      · have hle := length_normalizePath_le hnil
        omega
    · rintro ⟨htrim, hne, hlocal, -⟩
      rw [htrim] at h
      exact (h.elim hne hlocal).elim
  · rw [composePath_remote b h]
    constructor
    · intro heq
      have hlen := congrArg List.length heq
      have hle := length_belowRoot_le b
      rw [List.length_append, List.length_append, List.length_cons, List.length_cons] at hlen
      have htrim : trim a = a := Text.trim_eq_self (by omega)
      rw [htrim, List.append_cancel_left_eq, List.cons_inj_right, belowRoot_eq_self_iff] at heq
      rw [htrim] at h
      exact ⟨htrim, fun hne => h (.inl hne), fun hne => h (.inr hne), heq⟩
    · rintro ⟨htrim, -, -, hbelow⟩
      rw [htrim, belowRoot_eq_self_iff.mpr hbelow]

/-- A text is read as itself exactly when it stands for itself. -/
theorem fieldLocation_eq_iff {t : Text} (htrim : trim t = t) (hne : t ≠ []) :
    fieldLocation t = t ↔ ReadsBack t := by
  by_cases hcolon : ':' ∈ t
  · obtain ⟨a, b, rfl, ha⟩ := List.eq_append_cons_of_mem hcolon
    rw [readsBack_cut b ha]
    by_cases hslash : '/' ∈ a
    · rw [fieldLocation_slash htrim ha hslash, htrim]
      exact iff_of_true rfl (.inl hslash)
    · rw [fieldLocation_remote htrim ha hslash, composePath_eq_iff, or_iff_right hslash]
  · have hread : fieldLocation t = normalizePath t := fieldLocation_plain (by rwa [htrim])
    rw [hread, normalizePath_of_trimmed htrim hne]
    exact iff_of_true rfl (readsBack_plain hcolon)

-- ============================================================================
-- White space at the ends
-- ============================================================================

theorem last_of_trimmed {n : Text} (htrim : trim n = n) (hne : n ≠ []) :
    isWhitespace (n.getLast hne) = false := by
  have hself : n.rdropWhile isWhitespace = n := by
    have hdrop := Text.dropWhile_trim n
    rw [htrim] at hdrop
    rw [trim, hdrop] at htrim
    exact htrim
  exact Bool.eq_false_iff.mpr (List.rdropWhile_eq_self_iff.mp hself hne)

theorem head_of_trimmed {n : Text} (htrim : trim n = n) : n.dropWhile isWhitespace = n := by
  rw [← htrim]
  exact Text.dropWhile_trim n

/-- What is left of a text that ends in a path. -/
theorem trim_append_colon (r : Text) {n : Text} (htrim : trim n = n) (hne : n ≠ []) :
    trim (r ++ ':' :: n) = r.dropWhile isWhitespace ++ ':' :: n := by
  have hdrop : (r ++ ':' :: n).dropWhile isWhitespace =
      r.dropWhile isWhitespace ++ ':' :: n := by
    rw [List.dropWhile_append]
    split_ifs with h
    · rw [List.isEmpty_iff.mp h]
      rfl
    · rfl
  unfold trim
  rw [hdrop, List.rdropWhile_eq_self_iff]
  intro hl
  have hlast : (r.dropWhile isWhitespace ++ ':' :: n).getLast hl = n.getLast hne := by
    rw [List.getLast_append_of_ne_nil _ (List.cons_ne_nil _ _), List.getLast_cons hne]
  rw [hlast, last_of_trimmed htrim hne]
  exact Bool.false_ne_true

/-- White space that was left at the end comes from the end. -/
theorem exists_end (r : Text) :
    ∃ w, r.dropWhile isWhitespace = trim r ++ w ∧ ∀ c ∈ w, isWhitespace c = true :=
  ⟨_, (List.rdropWhile_append_rtakeWhile (p := isWhitespace)).symm,
    fun _ hc => List.mem_rtakeWhile_imp hc⟩

theorem mem_trim_iff {c : Char} (hc : isWhitespace c = false) (r : Text) :
    c ∈ trim r ↔ c ∈ r := by
  refine ⟨trim_takes, fun h => ?_⟩
  obtain ⟨w, hw, hblank⟩ := exists_end r
  rw [← List.takeWhile_append_dropWhile (p := isWhitespace) (l := r), hw] at h
  rcases List.mem_append.mp h with h | h
  · rw [List.mem_takeWhile_imp h] at hc
    cases hc
  · rcases List.mem_append.mp h with h | h
    · exact h
    · rw [hblank c h] at hc
      cases hc

theorem trim_dropWhile (r : Text) : trim (r.dropWhile isWhitespace) = trim r := by
  unfold trim
  rw [List.dropWhile_idempotent]

-- ============================================================================
-- Locations with a remote
-- ============================================================================

/-- A text that is cut in two ways at its first colon is cut in one way. -/
theorem cut_unique {a a' b b' : Text} (h : a ++ ':' :: b = a' ++ ':' :: b') (ha : ':' ∉ a)
    (ha' : ':' ∉ a') : a = a' ∧ b = b' := by
  have hcut := cut_colon b ha
  rw [h, cut_colon b' ha'] at hcut
  obtain ⟨rfl, -, rfl⟩ : a' = a ∧ ':' = ':' ∧ b' = b := by simpa using hcut
  exact ⟨rfl, rfl⟩

theorem belowRoot_eq (path : Text) :
    belowRoot path = if normalizePath path = ['/'] then [] else normalizePath path := by
  unfold belowRoot normalizePath
  by_cases hp : trim path = []
  · rw [if_pos hp, if_pos rfl, hp]
    rfl
  · rw [if_neg hp]

/-- The path keeps its place at the end. -/
theorem exists_composePath_append (a b : Text) {n : Text} (htrim : trim n = n) (hne : n ≠ []) :
    ∃ x, composePath a (b ++ ':' :: n) = x ++ b.dropWhile isWhitespace ++ ':' :: n := by
  have hb := trim_append_colon b htrim hne
  have hbelow : belowRoot (b ++ ':' :: n) = b.dropWhile isWhitespace ++ ':' :: n := by
    unfold belowRoot
    rw [hb, if_neg]
    intro h
    have hcolon : ':' ∈ b.dropWhile isWhitespace ++ ':' :: n := by simp
    rw [h] at hcolon
    exact absurd hcolon (by decide)
  by_cases h : trim a = [] ∨ trim a = LOCAL
  · refine ⟨[], ?_⟩
    rw [composePath_local _ h, normalizePath, hb, if_neg (by simp)]
    rfl
  · refine ⟨trim a ++ [':'], ?_⟩
    rw [composePath_remote _ h, hbelow]
    simp

/-- The last character of a text that does not end in white space. -/
theorem getLast?_trim_ne {r v : Text} {c : Char} (hc : isWhitespace c = true) :
    trim r ≠ v ++ [c] := by
  intro h
  have hne : trim r ≠ [] := by simp [h]
  have hlast := last_of_trimmed (Text.trim_trim r) hne
  have hget : (trim r).getLast hne = c := by simp [h]
  rw [hget, hc] at hlast
  cases hlast

section

variable {remote n : Text}

/-- A remote that needs no trimming at its end. -/
theorem fieldLocation_unpadded (htrim : trim n = n) (hne : n ≠ [])
    (hend : remote.dropWhile isWhitespace = trim remote) :
    fieldLocation (remote ++ ':' :: n) = trim remote ++ ':' :: n ↔
      ReadsBack (trim remote ++ ':' :: n) := by
  have ht := trim_append_colon remote htrim hne
  rw [hend] at ht
  have hself : trim (trim remote ++ ':' :: n) = trim remote ++ ':' :: n := by
    rw [← ht, Text.trim_trim]
  have hread : fieldLocation (remote ++ ':' :: n) = fieldLocation (trim remote ++ ':' :: n) := by
    unfold fieldLocation splitLocation
    rw [ht, hself]
  rw [hread]
  exact fieldLocation_eq_iff hself (by simp)

/-- A remote with white space at its end, whose name a colon ends before. -/
theorem fieldLocation_padded {a b : Text} (htrim : trim n = n) (hne : n ≠ [])
    (hR : remote.dropWhile isWhitespace = a ++ ':' :: b) (ha : ':' ∉ a) (hslash : '/' ∉ a)
    (hend : remote.dropWhile isWhitespace ≠ trim remote) :
    fieldLocation (remote ++ ':' :: n) = trim remote ++ ':' :: n ↔
      ReadsBack (trim remote ++ ':' :: n) ∧
        ∃ a, trim remote = a ++ [':'] ∧ ':' ∉ a ∧ '/' ∉ a := by
  obtain ⟨w, hw, hblank⟩ := exists_end remote
  have ht := trim_append_colon remote htrim hne
  rw [hR, List.append_assoc, List.cons_append] at ht
  rw [fieldLocation_remote ht ha hslash]
  by_cases hb : ∀ c ∈ b, isWhitespace c = true
  · -- nothing but white space between the two colons
    have hremote : trim remote = a ++ [':'] := by
      have hsplit : a ++ ':' :: b = a ++ [':'] ++ b := by simp
      rw [← trim_dropWhile, hR, hsplit, Text.trim_append_right hb]
      refine Text.trim_of_ends (fun c hc => ?_) (fun c hc => ?_)
      · have hhead := List.head?_dropWhile_not isWhitespace remote
        rw [hR] at hhead
        cases a with
        | nil =>
          obtain rfl : ':' = c := by simpa using hc
          rfl
        | cons d a =>
          obtain rfl : d = c := by simpa using hc
          simpa using hhead
      · obtain rfl : ':' = c := by simpa using hc
        rfl
    have hcompose : composePath a (b ++ ':' :: n) = composePath a (':' :: n) := by
      unfold composePath
      rw [Text.trim_append_left hb]
    have happend : a ++ [':'] ++ ':' :: n = a ++ ':' :: ':' :: n := by simp
    rw [hremote, hcompose, happend, composePath_eq_iff, readsBack_cut _ ha, or_iff_right hslash]
    exact ⟨fun h => ⟨h, a, rfl, ha, hslash⟩, And.left⟩
  · refine iff_of_false (fun h => ?_) ?_
    · -- the last character stays where it is, and it is white space
      obtain ⟨x, hx⟩ := exists_composePath_append a b htrim hne
      rw [hx, List.append_cancel_right_eq] at h
      have hback : b.dropWhile isWhitespace ≠ [] := fun hnil =>
        hb (List.dropWhile_eq_nil_iff.mp hnil)
      have hw' : w ≠ [] := fun hnil => hend (by rw [hw, hnil, List.append_nil])
      obtain ⟨y, d, hy⟩ := List.eq_nil_or_concat _ |>.resolve_left hback
      obtain ⟨v, c, hv⟩ := List.eq_nil_or_concat _ |>.resolve_left hw'
      have hlast : a ++ ':' :: b.takeWhile isWhitespace ++ y ++ [d] = trim remote ++ v ++ [c] := by
        rw [List.append_assoc, List.append_assoc _ v, ← List.concat_eq_append, ← hy, ← List.concat_eq_append,
          ← hv, ← hw, hR, List.append_assoc, List.cons_append, List.takeWhile_append_dropWhile]
      obtain ⟨-, hdc⟩ := List.append_inj' hlast rfl
      obtain rfl : d = c := by simpa using hdc
      rw [hy, List.concat_eq_append, ← List.append_assoc] at h
      exact getLast?_trim_ne (hblank d (by simp [hv])) h.symm
    · rintro ⟨-, a', hremote, ha', -⟩
      rw [hw, hremote, List.append_assoc, List.singleton_append] at hR
      obtain ⟨-, rfl⟩ := cut_unique hR ha' ha
      exact hb hblank

/-- A remote whose name has no colon and no slash. -/
theorem fieldLocation_named (htrim : trim n = n) (hne : n ≠ []) (hcolon : ':' ∉ remote)
    (hslash : '/' ∉ remote) : fieldLocation (remote ++ ':' :: n) = composePath remote n := by
  have hsub := (List.dropWhile_suffix isWhitespace (l := remote)).subset
  rw [fieldLocation_remote (trim_append_colon remote htrim hne) (fun h => hcolon (hsub h))
    (fun h => hslash (hsub h))]
  exact composePath_congr n (trim_dropWhile remote)

/-- A slash before the first colon, but white space behind the remote, which is kept. -/
theorem fieldLocation_padded_slash {a b : Text} (htrim : trim n = n) (hne : n ≠ [])
    (hR : remote.dropWhile isWhitespace ++ ':' :: n = a ++ ':' :: b) (ha : ':' ∉ a)
    (hslash : '/' ∈ a) (hend : remote.dropWhile isWhitespace ≠ trim remote) :
    fieldLocation (remote ++ ':' :: n) = trim remote ++ ':' :: n ↔
      ReadsBack (trim remote ++ ':' :: n) ∧
        ∃ a, trim remote = a ++ [':'] ∧ ':' ∉ a ∧ '/' ∉ a := by
  have ht := trim_append_colon remote htrim hne
  refine iff_of_false (fun h => ?_) ?_
  · rw [fieldLocation_slash (ht.trans hR) ha hslash, ht, List.append_cancel_right_eq] at h
    exact hend h
  · rintro ⟨-, a', hremote, ha', hslash'⟩
    obtain ⟨w, hw, -⟩ := exists_end remote
    rw [hw, hremote, List.append_assoc, List.append_assoc, List.singleton_append] at hR
    obtain ⟨rfl, -⟩ := cut_unique hR ha' ha
    exact hslash' hslash

/-- A remote whose name has a colon or a slash: the slash comes first, or the colon is in it. -/
theorem exists_name (hname : ¬(':' ∉ remote ∧ '/' ∉ remote)) (n : Text) :
    ∃ a b, remote.dropWhile isWhitespace ++ ':' :: n = a ++ ':' :: b ∧ ':' ∉ a ∧
      ('/' ∉ a → ∃ b, remote.dropWhile isWhitespace = a ++ ':' :: b) := by
  have hmem {c : Char} (hc : isWhitespace c = false) (h : c ∈ remote) :
      c ∈ remote.dropWhile isWhitespace :=
    trim_takes ((trim_dropWhile remote).symm ▸ (mem_trim_iff hc remote).mpr h)
  by_cases hcolon : ':' ∈ remote
  · obtain ⟨a, b, heq, ha⟩ := List.eq_append_cons_of_mem (hmem (by decide) hcolon)
    exact ⟨a, b ++ ':' :: n, by rw [heq, List.append_assoc, List.cons_append], ha,
      fun _ => ⟨b, heq⟩⟩
  · have hslash : '/' ∈ remote := by
      by_contra h
      exact hname ⟨hcolon, h⟩
    have hsub := (List.dropWhile_suffix isWhitespace (l := remote)).subset
    exact ⟨_, n, rfl, fun h => hcolon (hsub h), fun h => absurd (hmem (by decide) hslash) h⟩

/-- A path is not read as the root of its remote. -/
theorem fieldLocation_root (hname : ¬(':' ∉ remote ∧ '/' ∉ remote)) :
    fieldLocation (remote ++ ':' :: ['/']) ≠ trim remote ++ [':'] := by
  have ht := trim_append_colon remote (n := ['/']) (by decide) (by decide)
  obtain ⟨a, b, hR, ha, hcut⟩ := exists_name hname ['/']
  by_cases hslash : '/' ∈ a
  · rw [fieldLocation_slash (ht.trans hR) ha hslash, ht]
    intro h
    have hlast := congrArg List.getLast? h
    simp at hlast
  · rw [fieldLocation_remote (ht.trans hR) ha hslash]
    obtain ⟨b', heq⟩ := hcut hslash
    rw [heq, List.append_assoc, List.cons_append] at hR
    obtain ⟨-, rfl⟩ := cut_unique hR ha ha
    obtain ⟨x, hx⟩ := exists_composePath_append a b' (n := ['/']) (by decide) (by decide)
    rw [hx]
    intro h
    have hlast := congrArg List.getLast? h
    simp at hlast

/-- A path below the root, at such a remote. -/
theorem fieldLocation_below (htrim : trim n = n) (hne : n ≠ [])
    (hname : ¬(':' ∉ remote ∧ '/' ∉ remote)) :
    fieldLocation (remote ++ ':' :: n) = trim remote ++ ':' :: n ↔
      ReadsBack (trim remote ++ ':' :: n) ∧ (remote.dropWhile isWhitespace = trim remote ∨
        ∃ a, trim remote = a ++ [':'] ∧ ':' ∉ a ∧ '/' ∉ a) := by
  by_cases hend : remote.dropWhile isWhitespace = trim remote
  · rw [fieldLocation_unpadded htrim hne hend]
    exact (and_iff_left (.inl hend)).symm
  · rw [or_iff_right hend]
    obtain ⟨a, b, hR, ha, hcut⟩ := exists_name hname n
    by_cases hslash : '/' ∈ a
    · exact fieldLocation_padded_slash htrim hne hR ha hslash hend
    · obtain ⟨b', heq⟩ := hcut hslash
      exact fieldLocation_padded htrim hne heq ha hslash hend

end

/-- The location comes back from its text exactly when it is kept. -/
theorem fieldLocation_locationText_iff (remote path : Text) :
    fieldLocation (locationText remote path) = composePath remote path ↔
      LocationKept remote path := by
  unfold locationText LocationKept
  by_cases hlocal : remote = [] ∨ remote = LOCAL
  · rw [if_pos hlocal, if_pos hlocal]
    have hcompose : composePath remote path = normalizePath path := by
      refine composePath_local path ?_
      rcases hlocal with rfl | rfl
      · exact .inl rfl
      · exact .inr (by decide)
    rw [hcompose]
    by_cases hnil : trim path = []
    · rw [fieldLocation_plain (by simp [hnil]), hnil]
      exact iff_of_true rfl (readsBack_plain List.not_mem_nil)
    · have hself := fieldLocation_eq_iff (Text.trim_trim path) hnil
      have hread : fieldLocation path = fieldLocation (trim path) := by
        unfold fieldLocation splitLocation
        rw [Text.trim_trim]
      rw [hread, normalizePath, if_neg hnil]
      exact hself
  · rw [if_neg hlocal, if_neg hlocal]
    have htrim := trim_normalizePath path
    have hne := normalizePath_ne_nil path
    generalize hn : normalizePath path = n at htrim hne
    by_cases hplain : ':' ∉ remote ∧ '/' ∉ remote
    · rw [fieldLocation_named htrim hne hplain.1 hplain.2, ← hn, composePath_normalizePath]
      exact iff_of_true rfl (.inl hplain)
    · rw [or_iff_right hplain]
      -- a colon or a slash is no white space, so the remote is one
      have hremote : ¬(trim remote = [] ∨ trim remote = LOCAL) := by
        have hmem : ':' ∈ trim remote ∨ '/' ∈ trim remote := by
          rw [mem_trim_iff (by decide), mem_trim_iff (by decide)]
          by_contra h
          exact hplain (not_or.mp h)
        rintro (h | h) <;> rw [h] at hmem <;> exact absurd hmem (by decide)
      rw [composePath_remote path hremote, belowRoot_eq, hn]
      by_cases hroot : n = ['/']
      · rw [if_pos hroot, hroot]
        exact iff_of_false (fieldLocation_root hplain) fun h => h.1 rfl
      · rw [if_neg hroot, fieldLocation_below htrim hne hplain]
        exact (and_iff_right hroot).symm

end GnDrive.Gpui
