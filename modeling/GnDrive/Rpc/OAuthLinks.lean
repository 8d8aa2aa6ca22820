/-
  GnDrive.Rpc.OAuthLinks

  What `extract_url` makes of a text that goes on.

  The loop looks for the next scheme and takes what follows up to white space or a quote.
  `firstLink` is its search for the first link of a kind, and `firstLink_goOn` says what the
  search finds in a text that is continued: the same link, unless the text ends with it;
  then the link goes on as the text does.
-/

import GnDrive.Rpc.OAuth

namespace GnDrive.OAuth

open Text (find findSplit startsWith isWhitespace)

def HTTP : Text := "http://".toList

def HTTPS : Text := "https://".toList

-- ============================================================================
-- The search
-- ============================================================================

/-- The text from the first scheme on, and the length of the scheme. -/
def skip : Text → Option (Nat × Text)
  | [] => none
  | c :: t =>
      if startsWith HTTPS (c :: t) then some (8, c :: t)
      else if startsWith HTTP (c :: t) then some (7, c :: t)
      else skip t

/-- Not white space and no quote. -/
def inLink (c : Char) : Bool := !(isWhitespace c || c = '"' || c = Char.ofNat 39)

def trimLink (raw : Text) : Text :=
  raw.rdropWhile fun c => c ∈ [')', '.', ',', ';', '"', Char.ofNat 39]

/-- A link before it is trimmed, with the length of its scheme. -/
structure Link where
  scheme : Nat
  raw : Text

/-- The next scheme with what is behind it, and the text after both. -/
def nextLink (t : Text) : Option (Link × Text) :=
  (skip t).map fun (n, start) =>
    (⟨n, start.take n ++ (start.drop n).takeWhile inLink⟩, (start.drop n).dropWhile inLink)

/-- There is something behind the scheme. -/
def Link.isLink (l : Link) : Bool := l.scheme < l.raw.length && trimLink l.raw ≠ []

/-- The first link of a kind, and the text after it. -/
def findLink (q : Text → Bool) : Nat → Text → Option (Link × Text)
  | 0, _ => none
  | fuel + 1, t =>
      match nextLink t with
      | none => none
      | some (l, next) =>
          if l.isLink && q (trimLink l.raw) then some (l, next) else findLink q fuel next

section

variable {t rest start : Text} {n : Nat}

-- ============================================================================
-- The next scheme
-- ============================================================================

theorem find_cons (pat : Text) (c : Char) (t : Text) :
    find pat (c :: t) =
      if startsWith pat (c :: t) then some 0 else (find pat t).map (· + 1) := by
  unfold find startsWith
  rw [findSplit]
  split
  · rfl
  · cases findSplit pat t <;> rfl

/-- The place of the next scheme, as the loop finds it. -/
def schemePos (t : Text) : Option Nat :=
  match find HTTP t, find HTTPS t with
  | some a, some b => some (min a b)
  | some a, none => some a
  | none, some b => some b
  | none, none => none

theorem schemePos_cons (c : Char) (t : Text) :
    schemePos (c :: t) =
      if startsWith HTTP (c :: t) ∨ startsWith HTTPS (c :: t) then some 0
      else (schemePos t).map (· + 1) := by
  unfold schemePos
  rw [find_cons, find_cons]
  by_cases h : startsWith HTTP (c :: t) = true
  · rw [if_pos h, if_pos (Or.inl h)]
    cases (if startsWith HTTPS (c :: t) = true then some 0 else (find HTTPS t).map (· + 1)) with
    | none => rfl
    | some b => exact congrArg some (Nat.zero_min b)
  by_cases hs : startsWith HTTPS (c :: t) = true
  · rw [if_pos hs, if_neg h, if_pos (Or.inr hs)]
    cases (find HTTP t).map (· + 1) with
    | none => rfl
    | some a => exact congrArg some (Nat.min_zero a)
  · rw [if_neg h, if_neg hs, if_neg (not_or.mpr ⟨h, hs⟩)]
    cases find HTTP t with
    | none => cases find HTTPS t <;> rfl
    | some a =>
      cases find HTTPS t with
      | none => rfl
      | some b => exact congrArg some (Nat.add_min_add_right a b 1)

theorem skip_eq (t : Text) :
    skip t = (schemePos t).map fun pos =>
      (if startsWith HTTPS (t.drop pos) then 8 else 7, t.drop pos) := by
  induction t with
  | nil => rfl
  | cons c t ih =>
    rw [schemePos_cons]
    unfold skip
    by_cases hs : startsWith HTTPS (c :: t) = true
    · rw [if_pos hs, if_pos (Or.inr hs), Option.map_some, List.drop_zero, if_pos hs]
    · rw [if_neg hs]
      by_cases h : startsWith HTTP (c :: t) = true
      · rw [if_pos h, if_pos (Or.inl h), Option.map_some, List.drop_zero, if_neg hs]
      · rw [if_neg h, if_neg (not_or.mpr ⟨h, hs⟩), ih, Option.map_map]
        rfl

/-- The scheme is there whole. -/
theorem skip_spec (h : skip t = some (n, start)) :
    (n = 8 ∧ startsWith HTTPS start = true ∨ n = 7 ∧ startsWith HTTP start = true) ∧
      start <:+ t := by
  induction t with
  | nil => cases h
  | cons c t ih =>
    unfold skip at h
    split at h
    · obtain ⟨rfl, rfl⟩ := Prod.mk.inj (Option.some.inj h)
      exact ⟨.inl ⟨rfl, ‹_›⟩, List.suffix_rfl⟩
    split at h
    · obtain ⟨rfl, rfl⟩ := Prod.mk.inj (Option.some.inj h)
      exact ⟨.inr ⟨rfl, ‹_›⟩, List.suffix_rfl⟩
    · obtain ⟨hscheme, hsuffix⟩ := ih h
      exact ⟨hscheme, hsuffix.trans (List.suffix_cons c t)⟩

theorem length_of_startsWith {pat : Text} (h : startsWith pat t = true) :
    pat.length ≤ t.length := (List.isPrefixOf_iff_prefix.mp h).length_le

theorem length_skip (h : skip t = some (n, start)) :
    7 ≤ n ∧ n ≤ 8 ∧ n ≤ start.length ∧ start.length ≤ t.length := by
  obtain ⟨⟨rfl, hstart⟩ | ⟨rfl, hstart⟩, hsuffix⟩ := skip_spec h
  · exact ⟨by omega, by omega, length_of_startsWith hstart, hsuffix.length_le⟩
  · exact ⟨by omega, by omega, length_of_startsWith hstart, hsuffix.length_le⟩

theorem startsWith_append {pat : Text} (h : startsWith pat t = true) (rest : Text) :
    startsWith pat (t ++ rest) = true :=
  List.isPrefixOf_iff_prefix.mpr
    ((List.isPrefixOf_iff_prefix.mp h).trans (List.prefix_append _ _))

theorem startsWith_of_append {pat : Text} (hlen : pat.length ≤ t.length)
    (h : startsWith pat (t ++ rest) = true) : startsWith pat t = true :=
  List.isPrefixOf_iff_prefix.mpr
    (List.prefix_of_prefix_length_le (List.isPrefixOf_iff_prefix.mp h) (List.prefix_append _ _)
      hlen)

theorem not_both (h : startsWith HTTP t = true) : ¬ startsWith HTTPS t = true := by
  intro hs
  have hprefix := List.prefix_of_prefix_length_le (List.isPrefixOf_iff_prefix.mp h)
    (List.isPrefixOf_iff_prefix.mp hs) (by decide)
  revert hprefix
  decide

/-- The next scheme is the next one in a text that goes on. -/
theorem skip_append (h : skip t = some (n, start)) (rest : Text) :
    skip (t ++ rest) = some (n, start ++ rest) := by
  induction t with
  | nil => cases h
  | cons c t ih =>
    rw [List.cons_append]
    unfold skip at h ⊢
    split at h
    · obtain ⟨rfl, rfl⟩ := Prod.mk.inj (Option.some.inj h)
      rw [← List.cons_append, if_pos (startsWith_append ‹_› rest)]
    split at h
    · obtain ⟨rfl, rfl⟩ := Prod.mk.inj (Option.some.inj h)
      have happend := startsWith_append ‹startsWith HTTP (c :: t) = true› rest
      rw [← List.cons_append, if_neg (not_both happend), if_pos happend]
    · -- the scheme behind keeps this place apart from what follows the text
      obtain ⟨hn, -, hstart, hlen⟩ := length_skip h
      have hlong : ∀ pat : Text, pat.length ≤ 8 → ¬ startsWith pat (c :: t) = true →
          ¬ startsWith pat (c :: (t ++ rest)) = true := fun pat hpat hnot happend =>
        hnot (startsWith_of_append (by rw [List.length_cons]; omega) happend)
      rw [if_neg (hlong HTTPS (by decide) ‹_›), if_neg (hlong HTTP (by decide) ‹_›), ih h]

-- ============================================================================
-- A text that goes on
-- ============================================================================

variable {l : Link} {next : Text} {q : Text → Bool} {fuel : Nat}

theorem nextLink_eq_some :
    nextLink t = some (l, next) ↔ ∃ n start, skip t = some (n, start) ∧
      l = ⟨n, start.take n ++ (start.drop n).takeWhile inLink⟩ ∧
        next = (start.drop n).dropWhile inLink := by
  unfold nextLink
  rw [Option.map_eq_some_iff]
  constructor
  · rintro ⟨⟨n, start⟩, hskip, heq⟩
    obtain ⟨rfl, rfl⟩ := Prod.mk.inj heq
    exact ⟨n, start, hskip, rfl, rfl⟩
  · rintro ⟨n, start, hskip, rfl, rfl⟩
    exact ⟨(n, start), hskip, rfl⟩

theorem nextLink_shorter (h : nextLink t = some (l, next)) : next.length < t.length := by
  obtain ⟨n, start, hskip, -, rfl⟩ := nextLink_eq_some.mp h
  obtain ⟨hn, -, hstart, hlen⟩ := length_skip hskip
  have hdrop := (List.dropWhile_suffix inLink (l := start.drop n)).length_le
  rw [List.length_drop] at hdrop
  omega

/-- Something follows the link: it stays as it is. -/
theorem nextLink_append (h : nextLink t = some (l, next)) (hne : next ≠ []) (rest : Text) :
    nextLink (t ++ rest) = some (l, next ++ rest) := by
  obtain ⟨n, start, hskip, rfl, rfl⟩ := nextLink_eq_some.mp h
  obtain ⟨-, -, hstart, -⟩ := length_skip hskip
  refine nextLink_eq_some.mpr ⟨n, start ++ rest, skip_append hskip rest, ?_, ?_⟩
  · rw [List.take_append_of_le_length hstart, List.drop_append_of_le_length hstart,
      List.takeWhile_append, if_neg]
    intro hlen
    have hsum := congrArg List.length
      (List.takeWhile_append_dropWhile (p := inLink) (l := start.drop n))
    rw [List.length_append, hlen] at hsum
    exact hne (List.length_eq_zero_iff.mp (by omega))
  · rw [List.drop_append_of_le_length hstart, List.dropWhile_append, if_neg]
    rwa [List.isEmpty_iff]

/-- The text ends with the link: it goes on with the text. -/
theorem nextLink_append_nil (h : nextLink t = some (l, [])) (rest : Text) :
    nextLink (t ++ rest) =
      some (⟨l.scheme, l.raw ++ rest.takeWhile inLink⟩, rest.dropWhile inLink) := by
  obtain ⟨n, start, hskip, rfl, hnil⟩ := nextLink_eq_some.mp h
  obtain ⟨-, -, hstart, -⟩ := length_skip hskip
  have hall : ∀ c ∈ start.drop n, inLink c = true := List.dropWhile_eq_nil_iff.mp hnil.symm
  refine nextLink_eq_some.mpr ⟨n, start ++ rest, skip_append hskip rest, ?_, ?_⟩
  · rw [List.take_append_of_le_length hstart, List.drop_append_of_le_length hstart,
      List.takeWhile_append_of_pos hall, List.takeWhile_eq_self_iff.mpr hall, List.append_assoc]
  · rw [List.drop_append_of_le_length hstart, List.dropWhile_append_of_pos hall]

theorem findLink_succ (q : Text → Bool) (fuel : Nat) (t : Text) :
    findLink q (fuel + 1) t =
      match nextLink t with
      | none => none
      | some (l, next) =>
          if l.isLink && q (trimLink l.raw) then some (l, next) else findLink q fuel next := rfl

theorem findLink_nil (q : Text → Bool) (fuel : Nat) : findLink q fuel [] = none := by
  cases fuel <;> rfl

/-- Enough fuel for the text is enough. -/
theorem findLink_fuel (fuel' : Nat) (h : t.length ≤ fuel) (h' : t.length ≤ fuel') :
    findLink q fuel t = findLink q fuel' t := by
  induction fuel generalizing t fuel' with
  | zero =>
    obtain rfl : t = [] := List.length_eq_zero_iff.mp (by omega)
    rw [findLink_nil, findLink_nil]
  | succ fuel ih =>
    cases fuel' with
    | zero =>
      obtain rfl : t = [] := List.length_eq_zero_iff.mp (by omega)
      rw [findLink_nil, findLink_nil]
    | succ fuel' =>
      rw [findLink_succ, findLink_succ]
      cases hnext : nextLink t with
      | none => rfl
      | some found =>
        obtain ⟨l, next⟩ := found
        have hshorter := nextLink_shorter hnext
        dsimp only
        rw [ih fuel' (by omega) (by omega)]

/-- The first link of a kind in the text. -/
def firstLink (q : Text → Bool) (t : Text) : Option (Link × Text) := findLink q t.length t

theorem firstLink_of_none (h : nextLink t = none) : firstLink q t = none := by
  unfold firstLink
  cases t with
  | nil => rfl
  | cons c t =>
    rw [List.length_cons, findLink_succ, h]

theorem firstLink_of_some (h : nextLink t = some (l, next)) :
    firstLink q t =
      if l.isLink && q (trimLink l.raw) then some (l, next) else firstLink q next := by
  have hshorter := nextLink_shorter h
  unfold firstLink
  rw [findLink_fuel (t.length + 1) (Nat.le_refl _) (Nat.le_succ _), findLink_succ, h]
  dsimp only
  rw [findLink_fuel next.length (by omega) (Nat.le_refl _)]

/-- Punctuation only is trimmed, so a link stays one when it goes on. -/
theorem isLink_append (h : l.isLink = true) (more : Text) :
    Link.isLink ⟨l.scheme, l.raw ++ more⟩ = true := by
  unfold Link.isLink at h ⊢
  dsimp only
  rw [Bool.and_eq_true, decide_eq_true_iff, decide_eq_true_iff] at h ⊢
  refine ⟨by rw [List.length_append]; omega, fun hnil => h.2 ?_⟩
  unfold trimLink at hnil ⊢
  rw [List.rdropWhile_eq_nil_iff] at hnil ⊢
  exact fun c hc => hnil c (List.mem_append_left _ hc)

/-- The first link of a kind in a text is either the next link, or in what follows it. -/
theorem firstLink_cases (h : firstLink q t = some (l, next)) :
    nextLink t = some (l, next) ∧ (l.isLink && q (trimLink l.raw)) = true ∨
      ∃ l₀ next₀, nextLink t = some (l₀, next₀) ∧ next₀ ≠ [] ∧ next₀.length < t.length ∧
        ¬ (l₀.isLink && q (trimLink l₀.raw)) = true ∧ firstLink q next₀ = some (l, next) := by
  cases hnext : nextLink t with
  | none =>
    rw [firstLink_of_none hnext] at h
    cases h
  | some found =>
    obtain ⟨l₀, next₀⟩ := found
    rw [firstLink_of_some hnext] at h
    split at h
    · obtain ⟨rfl, rfl⟩ := Prod.mk.inj (Option.some.inj h)
      exact .inl ⟨rfl, ‹_›⟩
    · refine .inr ⟨l₀, next₀, rfl, ?_, nextLink_shorter hnext, ‹_›, h⟩
      rintro rfl
      cases h

theorem firstLink_spec (h : firstLink q t = some (l, next)) :
    (l.isLink && q (trimLink l.raw)) = true := by
  induction hlen : t.length using Nat.strongRecOn generalizing t with
  | ind n ih =>
    rcases firstLink_cases h with ⟨-, hq⟩ | ⟨l₀, next₀, -, -, hshorter, -, hrest⟩
    · exact hq
    · exact ih _ (hlen ▸ hshorter) hrest rfl

/-- The first link of a kind, in a text that goes on behind it. -/
theorem firstLink_append (h : firstLink q t = some (l, next)) (hne : next ≠ []) (rest : Text) :
    firstLink q (t ++ rest) = some (l, next ++ rest) := by
  induction hlen : t.length using Nat.strongRecOn generalizing t with
  | ind n ih =>
    rcases firstLink_cases h with ⟨hnext, hq⟩ | ⟨l₀, next₀, hnext, hne₀, hshorter, hq, hrest⟩
    · rw [firstLink_of_some (nextLink_append hnext hne rest), if_pos hq]
    · rw [firstLink_of_some (nextLink_append hnext hne₀ rest), if_neg hq]
      exact ih _ (hlen ▸ hshorter) hrest rfl

/-- The link, in a text that goes on. -/
def Link.goOn (l : Link) (next rest : Text) : Link × Text :=
  if next ≠ [] then (l, next ++ rest)
  else (⟨l.scheme, l.raw ++ rest.takeWhile inLink⟩, rest.dropWhile inLink)

/-- A text that ends with the first link of a kind: the search sees it as it goes on. -/
theorem firstLink_goOn (h : firstLink q t = some (l, next)) (rest : Text) :
    firstLink q (t ++ rest) =
      if q (trimLink (l.goOn next rest).1.raw) then some (l.goOn next rest)
      else firstLink q (l.goOn next rest).2 := by
  unfold Link.goOn
  by_cases hne : next ≠ []
  · have hq := firstLink_spec h
    rw [Bool.and_eq_true] at hq
    rw [firstLink_append h hne, if_pos hne, if_pos hq.2]
  rw [if_neg hne]
  obtain rfl : next = [] := not_not.mp hne
  induction hlen : t.length using Nat.strongRecOn generalizing t with
  | ind n ih =>
    rcases firstLink_cases h with ⟨hnext, hq⟩ | ⟨l₀, next₀, hnext, hne₀, hshorter, hq, hrest⟩
    · rw [firstLink_of_some (nextLink_append_nil hnext rest),
        isLink_append ((Bool.and_eq_true _ _).mp hq).1, Bool.true_and]
    · rw [firstLink_of_some (nextLink_append hnext hne₀ rest), if_neg hq]
      exact ih _ (hlen ▸ hshorter) hrest rfl

-- ============================================================================
-- The loop
-- ============================================================================

/-- One pass of the loop, once it has found a scheme. -/
def pass (fuel : Nat) (first : Option Text) (n : Nat) (start : Text) : Option Text :=
  let tail := (start.drop n).takeWhile inLink
  let url := trimLink (start.take (n + tail.length))
  let next := start.drop (n + tail.length)
  if tail ≠ [] ∧ url ≠ [] then
    if isConsentUrl url then some url else extractUrl.go fuel next (first.or (some url))
  else extractUrl.go fuel next first

/-- What the loop does with the next link. -/
def passLink (fuel : Nat) (first : Option Text) : Option (Link × Text) → Option Text
  | none => first
  | some (l, next) =>
      if l.isLink then
        if isConsentUrl (trimLink l.raw) then some (trimLink l.raw)
        else extractUrl.go fuel next (first.or (some (trimLink l.raw)))
      else extractUrl.go fuel next first

theorem pass_eq (fuel : Nat) (first : Option Text) (hlen : n ≤ start.length) :
    pass fuel first n start = passLink fuel first
      (some (⟨n, start.take n ++ (start.drop n).takeWhile inLink⟩,
        (start.drop n).dropWhile inLink)) := by
  generalize htail : (start.drop n).takeWhile inLink = tail
  generalize hnext : (start.drop n).dropWhile inLink = next
  have hsplit : start.drop n = tail ++ next := by
    rw [← htail, ← hnext, List.takeWhile_append_dropWhile]
  have hraw : start.take (n + tail.length) = start.take n ++ tail := by
    rw [List.take_add, hsplit, List.take_left]
  have hrest : start.drop (n + tail.length) = next := by
    rw [← List.drop_drop, hsplit, List.drop_left]
  have hlink : Link.isLink ⟨n, start.take n ++ tail⟩ = true ↔
      tail ≠ [] ∧ trimLink (start.take n ++ tail) ≠ [] := by
    unfold Link.isLink
    dsimp only
    rw [Bool.and_eq_true, decide_eq_true_iff, decide_eq_true_iff, List.length_append,
      List.length_take, Nat.min_eq_left hlen]
    refine and_congr_left' ?_
    rw [← List.length_pos_iff]
    show n < n + tail.length ↔ 0 < tail.length
    omega
  unfold pass passLink
  dsimp only
  rw [htail, hraw, hrest]
  by_cases h : tail ≠ [] ∧ trimLink (start.take n ++ tail) ≠ []
  · rw [if_pos h, if_pos (hlink.mpr h)]
  · rw [if_neg h, if_neg (hlink.not.mpr h)]

theorem extractUrl_go_scheme (fuel : Nat) (t : Text) (first : Option Text) :
    extractUrl.go (fuel + 1) t first =
      match schemePos t with
      | none => first
      | some pos =>
          pass fuel first (if startsWith HTTPS (t.drop pos) then 8 else 7) (t.drop pos) := rfl

theorem extractUrl_go_succ (fuel : Nat) (t : Text) (first : Option Text) :
    extractUrl.go (fuel + 1) t first = passLink fuel first (nextLink t) := by
  rw [extractUrl_go_scheme]
  unfold nextLink
  cases hskip : skip t with
  | none =>
    rw [skip_eq, Option.map_eq_none_iff] at hskip
    rw [hskip]
    rfl
  | some found =>
    obtain ⟨n, start⟩ := found
    have hlen := (length_skip hskip).2.2.1
    rw [skip_eq, Option.map_eq_some_iff] at hskip
    obtain ⟨pos, hpos, heq⟩ := hskip
    obtain ⟨hn, rfl⟩ := Prod.mk.inj heq
    rw [hpos]
    dsimp only
    rw [hn, pass_eq fuel first hlen]
    rfl

/-- The first consent link, or else the first link. -/
theorem extractUrl_go_eq (h : t.length ≤ fuel) (first : Option Text) :
    extractUrl.go fuel t first =
      ((firstLink isConsentUrl t).map fun l => trimLink l.1.raw).or
        (first.or ((firstLink (fun _ => true) t).map fun l => trimLink l.1.raw)) := by
  induction fuel generalizing t first with
  | zero =>
    obtain rfl : t = [] := List.length_eq_zero_iff.mp (by omega)
    show first = first.or none
    rw [Option.or_none]
  | succ fuel ih =>
    rw [extractUrl_go_succ]
    cases hnext : nextLink t with
    | none =>
      rw [firstLink_of_none hnext, firstLink_of_none hnext]
      show first = first.or none
      rw [Option.or_none]
    | some found =>
      obtain ⟨l, next⟩ := found
      have hshorter := nextLink_shorter hnext
      rw [firstLink_of_some hnext, firstLink_of_some hnext, Bool.and_true]
      unfold passLink
      dsimp only
      cases hlink : l.isLink with
      | false =>
        rw [if_neg Bool.false_ne_true, Bool.false_and, if_neg Bool.false_ne_true,
          if_neg Bool.false_ne_true, ih (by omega)]
      | true =>
        rw [if_pos rfl, Bool.true_and, if_pos rfl]
        split
        · rfl
        · rw [ih (by omega), Option.or_assoc]
          rfl

end

end GnDrive.OAuth
