/-
  GnDrive.Rpc.Redaction

  The redaction of rclone's output (`rpc/error.rs`) before a client gets it:
  three hand-written scanners for `key=value`, `"key": "value"` and `--key value`,
  one after another, and the cut at 500 characters.

  The scanners work on bytes and look for ASCII characters only, none of which
  is a part of a longer one, so that they do the same on characters.
-/

import GnDrive.Lib.Scan
import GnDrive.Lib.Text

namespace GnDrive.Rpc.Redact

open Scan (Matcher Walk Drops Passes Conceals Unsplit)

-- ============================================================================
-- The matchers
-- ============================================================================

/-- The text begins with the word, in either case. -/
def startsWithCi (kw t : Text) : Bool :=
  (t.take kw.length).map Char.toLower == kw.map Char.toLower

def isSpace (c : Char) : Bool :=
  c = ' ' || c = '\t' || c = '\n' || c = '\r' || c = Char.ofNat 0x0b || c = Char.ofNat 0x0c

def skipSpace (t : Text) : Text := t.dropWhile isSpace

def isQuote (c : Char) : Bool := c = '"' || c = Char.ofNat 39

/-- Where a value without quotes ends. -/
def endsValue (c : Char) : Bool :=
  isSpace c || c = ',' || c = ';' || isQuote c || c = Char.ofNat 0x7d

def KEYWORDS_1 : List String :=
  ["password", "pass", "token", "secret", "client_secret", "config_token"]

def KEYWORDS_2 : List String :=
  ["password", "pass", "token", "secret", "key", "client_secret", "config_token"]

/-- A key of `match_kv` with its value. -/
def matchKvAt (kw t : Text) : Option (Text × Text) :=
  if startsWithCi kw t then
    match skipSpace (t.drop kw.length) with
    | c :: s =>
        if c = '=' || c = ':' then
          let value := skipSpace s
          let rest := value.dropWhile fun c => !endsValue c
          if rest.length < value.length then some (t.take kw.length, rest) else none
        else none
    | [] => none
  else none

/-- `(pass(?:word)?|token|secret|client_secret|config_token|access_token)\s*[=:]\s*...` -/
def matchKv (t : Text) : Option (Text × Text) :=
  (KEYWORDS_1 ++ ["access_token"]).findSome? fun kw => matchKvAt kw.toList t

/-- A key of `match_json_kv` with its value, behind the opening quote of the key. -/
def matchJsonKvAt (kw s : Text) : Option Text :=
  if startsWithCi kw s then
    match s.drop kw.length with
    | q :: s₁ =>
        if isQuote q then
          match skipSpace s₁ with
          | c :: s₂ =>
              if c = ':' then
                match skipSpace s₂ with
                | q' :: s₃ => if isQuote q' then some s₃ else none
                | [] => none
              else none
          | [] => none
        else none
    | [] => none
  else none

/-- The text `t` is matched up to the quote that closes the value; one that is not
    closed is none. -/
def closeValue (t value : Text) : Option (Text × Text) :=
  match value.dropWhile fun c => !isQuote c with
  | _ :: rest => some (t.take (t.length - (value.length + 1)), rest)
  | [] => none

/-- `(["'](?:pass(?:word)?|token|...)["']\s*:\s*)["'][^"']*["']` -/
def matchJsonKv (t : Text) : Option (Text × Text) :=
  match t with
  | q :: s =>
      if isQuote q then
        (KEYWORDS_2 ++ ["access_token"]).findSome? fun kw =>
          (matchJsonKvAt kw.toList s).bind (closeValue t)
      else none
  | [] => none

def isFlagChar (c : Char) : Bool := c.isAlphanum || c = '_' || c = '-'

/-- One of the three words is the flag, or `key` is a part of it. -/
def isSecretFlag (run : Text) : Bool :=
  run.tails.any (startsWithCi "key".toList) ||
    ["password", "token", "secret"].any fun k => run.map Char.toLower == k.toList

/-- `(--(?:[\w-]*key[\w-]*|password|token|secret))\s+(?!-)\S+` -/
def matchFlag (t : Text) : Option (Text × Text) :=
  match t with
  | '-' :: '-' :: s =>
      if isSecretFlag (s.takeWhile isFlagChar) then
        let e := s.dropWhile isFlagChar
        match skipSpace e with
        | c :: v =>
            if v.length + 1 = e.length || c = '-' then none
            else
              some ('-' :: '-' :: s.takeWhile isFlagChar, (c :: v).dropWhile fun c => !isSpace c)
        | [] => none
      else none
  | _ => none

-- ============================================================================
-- A match is shorter than the text
-- ============================================================================

section

variable {t kept rest : Text}

theorem skipSpace_length_le (t : Text) : (skipSpace t).length ≤ t.length :=
  (List.dropWhile_suffix _).length_le

theorem matchKvAt_shorter {kw : Text} (h : matchKvAt kw t = some (kept, rest)) :
    rest.length < t.length := by
  unfold matchKvAt at h
  split at h
  · split at h
    · rename_i c s hs
      split at h
      · simp only at h
        split at h
        · rename_i hlt
          cases h
          have h₁ := skipSpace_length_le (t.drop kw.length)
          have h₂ := skipSpace_length_le s
          rw [hs, List.length_cons, List.length_drop] at h₁
          omega
        · cases h
      · cases h
    · cases h
  · cases h

theorem matchKv_shorter (h : matchKv t = some (kept, rest)) : rest.length < t.length := by
  obtain ⟨kw, -, hkw⟩ := List.exists_of_findSome?_eq_some h
  exact matchKvAt_shorter hkw

theorem matchJsonKvAt_length {kw s value : Text} (h : matchJsonKvAt kw s = some value) :
    value.length < s.length := by
  unfold matchJsonKvAt at h
  split at h
  · split at h
    · rename_i q s₁ hs
      split at h
      · split at h
        · rename_i c s₂ hs₁
          split at h
          · split at h
            · rename_i q' s₃ hs₂
              split at h
              · cases h
                have h₁ := skipSpace_length_le s₁
                have h₂ := skipSpace_length_le s₂
                have h₃ := congrArg List.length hs
                rw [hs₁, List.length_cons] at h₁
                rw [hs₂, List.length_cons] at h₂
                rw [List.length_drop, List.length_cons] at h₃
                omega
              · cases h
            · cases h
          · cases h
        · cases h
      · cases h
    · cases h
  · cases h

theorem matchJsonKv_shorter (h : matchJsonKv t = some (kept, rest)) : rest.length < t.length := by
  unfold matchJsonKv at h
  split at h
  · rename_i q s
    split at h
    · obtain ⟨kw, -, hkw⟩ := List.exists_of_findSome?_eq_some h
      obtain ⟨value, hvalue, hrest⟩ := Option.bind_eq_some_iff.mp hkw
      have hlt := matchJsonKvAt_length hvalue
      unfold closeValue at hrest
      split at hrest
      · rename_i c rest' hdrop
        cases hrest
        have hle := (List.dropWhile_suffix (l := value) fun c => !isQuote c).length_le
        rw [hdrop, List.length_cons] at hle
        simp only [List.length_cons]
        omega
      · cases hrest
    · cases h
  · cases h

theorem matchFlag_shorter (h : matchFlag t = some (kept, rest)) : rest.length < t.length := by
  unfold matchFlag at h
  split at h
  · rename_i s
    split at h
    · simp only at h
      split at h
      · rename_i c v hv
        split at h
        · cases h
        · cases h
          have h₁ := (List.dropWhile_suffix (l := c :: v) fun c => !isSpace c).length_le
          have h₂ := skipSpace_length_le (s.dropWhile isFlagChar)
          have h₃ := (List.dropWhile_suffix (l := s) isFlagChar).length_le
          rw [hv] at h₂
          simp only [List.length_cons] at h₁ h₂ ⊢
          omega
      · cases h
    · cases h
  · cases h

end

-- ============================================================================
-- `sanitize` and `stderr_field`
-- ============================================================================

def kvMatcher : Matcher Char := ⟨matchKv, fun _ _ _ => matchKv_shorter⟩

def jsonKvMatcher : Matcher Char := ⟨matchJsonKv, fun _ _ _ => matchJsonKv_shorter⟩

def flagMatcher : Matcher Char := ⟨matchFlag, fun _ _ _ => matchFlag_shorter⟩

def MASK : Text := "=***".toList

def sanitize (text : Text) : Text :=
  let a := kvMatcher.replaceAll MASK text
  let b := jsonKvMatcher.replaceAll MASK a
  flagMatcher.replaceAll MASK b

/-- Truncate to `n` characters, appending `...(truncated)` when cut. -/
def truncateString (s : Text) (n : Nat) : Text :=
  if s.length ≤ n then s else s.take n ++ "...(truncated)".toList

def stderrField (text : Text) : Text := sanitize (truncateString text 500)

example : sanitize "config_token: abc,def".toList = "config_token=***,def".toList := by
  decide +kernel

example : sanitize "run --password hunter2 --foo".toList = "run --password=*** --foo".toList := by
  decide +kernel

/-- The three scanners, in the order in which they go over a text. -/
def passes : List (Matcher Char) := [kvMatcher, jsonKvMatcher, flagMatcher]

theorem sanitize_eq (text : Text) : sanitize text = Scan.replaceAlls MASK passes text := rfl

-- ============================================================================
-- Keys and values that are found
-- ============================================================================

/-- A character of a keyword, in either case. -/
def isKeyChar (c : Char) : Bool :=
  let l := c.toLower
  (decide ('a' ≤ l) && decide (l ≤ 'z')) || l = '_'

section

variable {kw key sep t v post : Text}

theorem startsWithCi_append (hkey : key.map Char.toLower = kw.map Char.toLower) (t : Text) :
    startsWithCi kw (key ++ t) = true := by
  have hlen : kw.length = key.length := by
    simpa using (congrArg List.length hkey).symm
  simp [startsWithCi, hlen, hkey]

/-- A keyword that is followed by something else is the longest word there. -/
theorem takeWhile_keyword (hkw : ∀ c ∈ kw, isKeyChar c = true ∧ c.toLower = c)
    (h : startsWithCi kw t = true) {c : Char} {s : Text} (hdrop : t.drop kw.length = c :: s)
    (hc : isKeyChar c = false) : (t.takeWhile isKeyChar).map Char.toLower = kw := by
  have hlower : kw.map Char.toLower = kw :=
    (List.map_congr_left fun c hc => (hkw c hc).2).trans (List.map_id kw)
  have htake : (t.take kw.length).map Char.toLower = kw := by
    rw [← hlower]
    simpa [startsWithCi, hlower] using h
  have hall : ∀ d ∈ t.take kw.length, isKeyChar d = true := by
    intro d hd
    have hmem : d.toLower ∈ kw := by
      rw [← htake]
      exact List.mem_map_of_mem hd
    obtain ⟨hkey, hsame⟩ := hkw _ hmem
    simpa [isKeyChar, hsame] using hkey
  have hsplit : t = t.take kw.length ++ c :: s := by
    rw [← hdrop, List.take_append_drop]
  rw [hsplit, List.takeWhile_append_of_pos hall]
  simp [hc, htake]

/-- `=` or `:`, with spaces around it. -/
def IsSeparator (sep : Text) : Prop :=
  ∃ ws c ws', sep = ws ++ c :: ws' ∧ (∀ d ∈ ws, isSpace d = true) ∧ (c = '=' ∨ c = ':') ∧
    ∀ d ∈ ws', isSpace d = true

theorem skipSpace_append {ws : Text} (h : ∀ d ∈ ws, isSpace d = true) (t : Text) :
    skipSpace (ws ++ t) = skipSpace t := List.dropWhile_append_of_pos h

theorem skipSpace_cons {c : Char} (h : isSpace c = false) (t : Text) :
    skipSpace (c :: t) = c :: t := by
  simp [skipSpace, h]

theorem dropWhile_value {p : Char → Bool} (hv : ∀ c ∈ v, p c = true)
    (hpost : ∀ c, post.head? = some c → p c = false) : (v ++ post).dropWhile p = post := by
  rw [List.dropWhile_append_of_pos hv]
  cases post with
  | nil => rfl
  | cons c post => simp [hpost c rfl]

/-- A value without quotes is dropped up to the character that ends it. -/
theorem matchKvAt_value (hkey : key.map Char.toLower = kw.map Char.toLower)
    (hsep : IsSeparator sep) (hne : v ≠ []) (hv : ∀ c ∈ v, endsValue c = false)
    (hpost : ∀ c, post.head? = some c → endsValue c = true) :
    matchKvAt kw (key ++ (sep ++ (v ++ post))) = some (key, post) := by
  obtain ⟨ws, c, ws', rfl, hws, hc, hws'⟩ := hsep
  have hlen : kw.length = key.length := by simpa using (congrArg List.length hkey).symm
  have hcspace : isSpace c = false := by rcases hc with rfl | rfl <;> decide
  have hcsep : (c = '=' || c = ':') = true := by simpa using hc
  have hvspace : skipSpace (v ++ post) = v ++ post := by
    cases v with
    | nil => exact absurd rfl hne
    | cons d v =>
      have hd := hv d List.mem_cons_self
      simp only [endsValue, Bool.or_eq_false_iff] at hd
      exact skipSpace_cons hd.1.1.1.1 _
  have hrest : (v ++ post).dropWhile (fun c => !endsValue c) = post :=
    dropWhile_value (fun c hc => by simp [hv c hc]) (fun c hc => by simp [hpost c hc])
  have hshort : post.length < (v ++ post).length := by
    have := List.length_pos_iff.mpr hne
    simp only [List.length_append]
    omega
  unfold matchKvAt
  rw [startsWithCi_append hkey, hlen, List.drop_left, List.take_left, List.append_assoc,
    skipSpace_append hws, List.cons_append, skipSpace_cons hcspace]
  simp only [if_true, hcsep, skipSpace_append hws', hvspace, hrest, hshort]

theorem keyword_chars : ∀ kw ∈ KEYWORDS_1 ++ KEYWORDS_2 ++ ["access_token"],
    ∀ c ∈ kw.toList, isKeyChar c = true ∧ c.toLower = c := by
  have hall : ((KEYWORDS_1 ++ KEYWORDS_2 ++ ["access_token"]).all fun kw =>
      kw.toList.all fun c => isKeyChar c && c.toLower == c) = true := by
    decide +kernel
  intro kw hkw c hc
  have hchar := List.all_eq_true.mp (List.all_eq_true.mp hall kw hkw) c hc
  simpa using hchar

/-- What follows a key ends the word. -/
theorem takeWhile_key {kw : String} (hmem : kw ∈ KEYWORDS_1 ++ KEYWORDS_2 ++ ["access_token"])
    (hkey : key.map Char.toLower = kw.toList) {c : Char} (hc : isKeyChar c = false) (s : Text) :
    (key ++ c :: s).takeWhile isKeyChar = key := by
  have hall : ∀ d ∈ key, isKeyChar d = true := by
    intro d hd
    have hlower : d.toLower ∈ kw.toList := by
      rw [← hkey]
      exact List.mem_map_of_mem hd
    obtain ⟨hkeyChar, hsame⟩ := keyword_chars kw hmem _ hlower
    simpa [isKeyChar, hsame] using hkeyChar
  rw [List.takeWhile_append_of_pos hall]
  simp [hc]

theorem isKeyChar_space {c : Char} (h : isSpace c = true) : isKeyChar c = false := by
  simp only [isSpace, Bool.or_eq_true, decide_eq_true_eq] at h
  rcases h with ((((rfl | rfl) | rfl) | rfl) | rfl) | rfl <;> decide

theorem not_space_of_quote {c : Char} (h : isQuote c = true) : isSpace c = false := by
  simp only [isQuote, Bool.or_eq_true, decide_eq_true_eq] at h
  rcases h with rfl | rfl <;> decide

theorem not_key_of_quote {c : Char} (h : isQuote c = true) : isKeyChar c = false := by
  simp only [isQuote, Bool.or_eq_true, decide_eq_true_eq] at h
  rcases h with rfl | rfl <;> decide

/-- The first of the keywords that is found is the key. -/
theorem findSome_keyword {β : Type} {kws : List String} {kw : String} {f : Text → Option β} {b : β}
    (hmem : kw ∈ kws) (hfound : f kw.toList = some b)
    (honly : ∀ kw' ∈ kws, (f kw'.toList).isSome → kw'.toList = kw.toList) :
    kws.findSome? (fun kw => f kw.toList) = some b := by
  cases h : kws.findSome? fun kw => f kw.toList with
  | none =>
    have hnone := List.findSome?_eq_none_iff.mp h kw hmem
    rw [hfound] at hnone
    cases hnone
  | some b' =>
    obtain ⟨kw', hmem', hfound'⟩ := List.exists_of_findSome?_eq_some h
    have hsame := honly kw' hmem' (by simp [hfound'])
    rw [hsame, hfound] at hfound'
    exact hfound'.symm

/-- The text at which a separator begins. -/
theorem IsSeparator.head (h : IsSeparator sep) (s : Text) :
    ∃ c s', sep ++ s = c :: s' ∧ isKeyChar c = false := by
  obtain ⟨ws, c, ws', rfl, hws, hc, -⟩ := h
  cases ws with
  | nil =>
    refine ⟨c, ws' ++ s, rfl, ?_⟩
    rcases hc with rfl | rfl <;> decide
  | cons d ws => exact ⟨d, _, rfl, isKeyChar_space (hws d List.mem_cons_self)⟩

/-- A keyword with a value is followed by a space or a separator. -/
theorem matchKvAt_head (h : (matchKvAt kw t).isSome) :
    startsWithCi kw t = true ∧ ∃ c s, t.drop kw.length = c :: s ∧ isKeyChar c = false := by
  unfold matchKvAt at h
  split at h
  · rename_i hstarts
    refine ⟨hstarts, ?_⟩
    split at h
    · rename_i c s hs
      split at h
      · rename_i hc
        have hcKey : isKeyChar c = false := by
          have : c = '=' ∨ c = ':' := by simpa using hc
          rcases this with rfl | rfl <;> decide
        cases hdrop : t.drop kw.length with
        | nil =>
          rw [hdrop] at hs
          cases hs
        | cons d s' =>
          refine ⟨d, s', rfl, ?_⟩
          cases hd : isSpace d with
          | true => exact isKeyChar_space hd
          | false =>
            rw [hdrop, skipSpace_cons hd] at hs
            rw [(List.cons.inj hs).1]
            exact hcKey
      · cases h
    · cases h
  · cases h

theorem matchJsonKvAt_head {value : Text} (h : matchJsonKvAt kw t = some value) :
    startsWithCi kw t = true ∧ ∃ c s, t.drop kw.length = c :: s ∧ isKeyChar c = false := by
  unfold matchJsonKvAt at h
  split at h
  · rename_i hstarts
    refine ⟨hstarts, ?_⟩
    split at h
    · rename_i q s hs
      split at h
      · rename_i hq
        exact ⟨q, s, hs, not_key_of_quote hq⟩
      · cases h
    · cases h
  · cases h

/-- `key=value` is found where it begins. -/
theorem matchKv_value {kw : String} (hmem : kw ∈ KEYWORDS_1 ++ ["access_token"])
    (hkey : key.map Char.toLower = kw.toList) (hsep : IsSeparator sep) (hne : v ≠ [])
    (hv : ∀ c ∈ v, endsValue c = false)
    (hpost : ∀ c, post.head? = some c → endsValue c = true) :
    matchKv (key ++ (sep ++ (v ++ post))) = some (key, post) := by
  have hall : ∀ kw' ∈ KEYWORDS_1 ++ ["access_token"],
      kw' ∈ KEYWORDS_1 ++ KEYWORDS_2 ++ ["access_token"] := by decide
  have hchars := keyword_chars kw (hall kw hmem)
  have hlower : kw.toList.map Char.toLower = kw.toList :=
    (List.map_congr_left fun c hc => (hchars c hc).2).trans (List.map_id _)
  refine findSome_keyword (f := fun kw => matchKvAt kw (key ++ (sep ++ (v ++ post)))) hmem
    (matchKvAt_value (hkey.trans hlower.symm) hsep hne hv hpost) ?_
  intro kw' hmem' hsome
  -- any keyword that is found there is the whole word
  obtain ⟨hstarts, c, s, hdrop, hc⟩ := matchKvAt_head hsome
  have hword := takeWhile_keyword (keyword_chars kw' (hall kw' hmem')) hstarts hdrop hc
  obtain ⟨d, s', hhead, hd⟩ := hsep.head (v ++ post)
  rw [hhead, takeWhile_key (hall kw hmem) hkey hd, hkey] at hword
  exact hword.symm

/-- A quote, `:` with spaces around it, and a quote. -/
def IsJsonSeparator (sep : Text) : Prop :=
  ∃ q ws ws', sep = q :: (ws ++ ':' :: ws') ∧ isQuote q = true ∧ (∀ d ∈ ws, isSpace d = true) ∧
    ∀ d ∈ ws', isSpace d = true

theorem matchJsonKvAt_value {q : Char} (hkey : key.map Char.toLower = kw.map Char.toLower)
    (hsep : IsJsonSeparator sep) (hq : isQuote q = true) (s : Text) :
    matchJsonKvAt kw (key ++ (sep ++ q :: s)) = some s := by
  obtain ⟨q', ws, ws', rfl, hq', hws, hws'⟩ := hsep
  have hlen : kw.length = key.length := by simpa using (congrArg List.length hkey).symm
  unfold matchJsonKvAt
  rw [startsWithCi_append hkey, hlen, List.drop_left, List.cons_append, List.append_assoc]
  simp only [if_true, hq', skipSpace_append hws, List.cons_append,
    skipSpace_cons (show isSpace ':' = false by decide), skipSpace_append hws',
    skipSpace_cons (not_space_of_quote hq), hq]

/-- `"key": "value"` is found where it begins. -/
theorem matchJsonKv_value {kw : String} {q₀ q q' : Char}
    (hmem : kw ∈ KEYWORDS_2 ++ ["access_token"]) (hkey : key.map Char.toLower = kw.toList)
    (hq₀ : isQuote q₀ = true) (hsep : IsJsonSeparator sep) (hq : isQuote q = true)
    (hv : ∀ c ∈ v, isQuote c = false) (hq' : isQuote q' = true) :
    matchJsonKv (q₀ :: (key ++ (sep ++ q :: (v ++ q' :: post)))) =
      some (q₀ :: (key ++ sep), post) := by
  have hall : ∀ kw' ∈ KEYWORDS_2 ++ ["access_token"],
      kw' ∈ KEYWORDS_1 ++ KEYWORDS_2 ++ ["access_token"] := by decide
  have hchars := keyword_chars kw (hall kw hmem)
  have hlower : kw.toList.map Char.toLower = kw.toList :=
    (List.map_congr_left fun c hc => (hchars c hc).2).trans (List.map_id _)
  have hclosed : (v ++ q' :: post).dropWhile (fun c => !isQuote c) = q' :: post :=
    dropWhile_value (fun c hc => by simp [hv c hc]) (fun c hc => by
      obtain rfl := Option.some.inj hc
      simp [hq'])
  have hkept : (q₀ :: (key ++ (sep ++ q :: (v ++ q' :: post)))).take
      ((q₀ :: (key ++ (sep ++ q :: (v ++ q' :: post)))).length -
        ((v ++ q' :: post).length + 1)) = q₀ :: (key ++ sep) := by
    have hsplit : q₀ :: (key ++ (sep ++ q :: (v ++ q' :: post))) =
        (q₀ :: (key ++ sep)) ++ q :: (v ++ q' :: post) := by simp
    rw [hsplit, List.length_append, List.length_cons (a := q), Nat.add_sub_cancel]
    exact List.take_left
  unfold matchJsonKv
  simp only [hq₀, if_true]
  refine findSome_keyword (f := fun kw => (matchJsonKvAt kw (key ++ (sep ++ q :: (v ++ q' ::
    post)))).bind (closeValue (q₀ :: (key ++ (sep ++ q :: (v ++ q' :: post)))))) hmem ?_ ?_
  · rw [matchJsonKvAt_value (hkey.trans hlower.symm) hsep hq, Option.bind_some, closeValue, hclosed]
    simp only [hkept]
  · intro kw' hmem' hsome
    obtain ⟨value, hvalue, -⟩ := Option.bind_eq_some_iff.mp (Option.eq_some_of_isSome hsome)
    obtain ⟨hstarts, c, s, hdrop, hc⟩ := matchJsonKvAt_head hvalue
    have hword := takeWhile_keyword (keyword_chars kw' (hall kw' hmem')) hstarts hdrop hc
    obtain ⟨q'', ws, ws', rfl, hq'', -, -⟩ := hsep
    rw [List.cons_append, takeWhile_key (hall kw hmem) hkey (not_key_of_quote hq''), hkey] at hword
    exact hword.symm

/-- `--key value` is found where it begins. -/
theorem matchFlag_value {name ws : Text} (hname : ∀ c ∈ name, isFlagChar c = true)
    (hsecret : isSecretFlag name = true) (hne : ws ≠ []) (hws : ∀ c ∈ ws, isSpace c = true)
    (hv : ∀ c ∈ v, isSpace c = false) (hdash : ∃ c, v.head? = some c ∧ c ≠ '-')
    (hpost : ∀ c, post.head? = some c → isSpace c = true) :
    matchFlag ('-' :: '-' :: (name ++ (ws ++ (v ++ post)))) = some ('-' :: '-' :: name, post) := by
  obtain ⟨c, hc, hcdash⟩ := hdash
  obtain ⟨v', rfl⟩ : ∃ v', v = c :: v' := by
    cases v with
    | nil => cases hc
    | cons d v' => exact ⟨v', by rw [Option.some.inj hc]⟩
  have hflagEnd : ∀ d, (ws ++ (c :: v' ++ post)).head? = some d → isFlagChar d = false := by
    intro d hd
    obtain ⟨e, ws', rfl⟩ := List.exists_cons_of_ne_nil hne
    have hde : e = d := Option.some.inj hd
    have hspace := hws e List.mem_cons_self
    simp only [isSpace, Bool.or_eq_true, decide_eq_true_eq] at hspace
    rw [← hde]
    rcases hspace with ((((rfl | rfl) | rfl) | rfl) | rfl) | rfl <;> decide
  have hrun : (name ++ (ws ++ (c :: v' ++ post))).dropWhile isFlagChar = ws ++ (c :: v' ++ post) :=
    dropWhile_value hname hflagEnd
  have htake : (name ++ (ws ++ (c :: v' ++ post))).takeWhile isFlagChar = name := by
    have happend := List.takeWhile_append_dropWhile (p := isFlagChar)
      (l := name ++ (ws ++ (c :: v' ++ post)))
    rw [hrun] at happend
    exact List.append_cancel_right happend
  have hskip : skipSpace (ws ++ (c :: v' ++ post)) = c :: (v' ++ post) := by
    rw [skipSpace_append hws]
    exact skipSpace_cons (hv c List.mem_cons_self) _
  have hrest : (c :: (v' ++ post)).dropWhile (fun c => !isSpace c) = post :=
    dropWhile_value (v := c :: v') (fun d hd => by simp [hv d hd]) (fun d hd => by simp [hpost d hd])
  have hlen : ¬ (v' ++ post).length + 1 = (ws ++ (c :: v' ++ post)).length := by
    have := List.length_pos_iff.mpr hne
    simp only [List.length_append, List.length_cons]
    omega
  unfold matchFlag
  simp only [htake, hsecret, if_true, hrun, hskip, hlen, hcdash, hrest, decide_false,
    Bool.or_self, Bool.false_eq_true, if_false]

-- ============================================================================
-- Two values of a secret
-- ============================================================================

variable {before after v₁ v₂ v₁' v₂' x out : Text}

/-- Both values of `key=value` are concealed if the first scanner comes to the
    key, and neither has a character in it that ends it. -/
theorem conceals_kv {kw : String} (hmem : kw ∈ KEYWORDS_1 ++ ["access_token"])
    (hkey : key.map Char.toLower = kw.toList) (hsep : IsSeparator sep)
    (hwalk : ∀ v, v = v₁ ∨ v = v₂ → Walk kvMatcher MASK (key ++ (sep ++ (v ++ post))) x out)
    (hv : ∀ v, v = v₁ ∨ v = v₂ → v ≠ [] ∧ ∀ c ∈ v, endsValue c = false)
    (hpost : ∀ c, post.head? = some c → endsValue c = true) :
    Conceals MASK passes (x ++ (key ++ sep)) v₁ v₂ post := by
  refine .inl ⟨x, key ++ sep, key, out, post, rfl, fun v hor => ?_⟩
  obtain ⟨hne, hend⟩ := hv v hor
  rw [List.append_assoc, List.append_assoc]
  exact ⟨hwalk v hor, matchKv_value hmem hkey hsep hne hend hpost⟩

/-- Both values of `"key": "value"` are concealed if the first scanner passes them,
    the second comes to the key, and neither has a quote in it. -/
theorem conceals_jsonKv {kw : String} {q₀ q q' : Char} {pass₁ : Text}
    (hmem : kw ∈ KEYWORDS_2 ++ ["access_token"]) (hkey : key.map Char.toLower = kw.toList)
    (hq₀ : isQuote q₀ = true) (hsep : IsJsonSeparator sep) (hq : isQuote q = true)
    (hq' : isQuote q' = true) (hpass : pass₁ = x ++ (q₀ :: (key ++ (sep ++ [q]))))
    (h₁ : Passes kvMatcher MASK before v₁ after pass₁ v₁')
    (h₂ : Passes kvMatcher MASK before v₂ after pass₁ v₂')
    (hafter : kvMatcher.replaceAll MASK after = q' :: post)
    (hwalk : ∀ v, v = v₁' ∨ v = v₂' →
      Walk jsonKvMatcher MASK (q₀ :: (key ++ (sep ++ q :: (v ++ q' :: post)))) x out)
    (hv : ∀ v, v = v₁' ∨ v = v₂' → ∀ c ∈ v, isQuote c = false) :
    Conceals MASK passes before v₁ v₂ after := by
  refine .inr ⟨pass₁, v₁', v₂', h₁, h₂, .inl ?_⟩
  refine ⟨x, q₀ :: (key ++ (sep ++ [q])), q₀ :: (key ++ sep), out, post, hpass, fun v hor => ?_⟩
  have hsplit : q₀ :: (key ++ (sep ++ [q])) ++ v ++ kvMatcher.replaceAll MASK after =
      q₀ :: (key ++ (sep ++ q :: (v ++ q' :: post))) := by simp [hafter]
  rw [hsplit]
  exact ⟨hwalk v hor, matchJsonKv_value hmem hkey hq₀ hsep hq (hv v hor) hq'⟩

/-- Both values of `--key value` are concealed if the first two scanners pass them,
    the third comes to the flag, and neither has a space in it or begins with `-`. -/
theorem conceals_flag {name ws pass₁ pass₂ u₁ u₂ : Text}
    (hname : ∀ c ∈ name, isFlagChar c = true) (hsecret : isSecretFlag name = true) (hne : ws ≠ [])
    (hws : ∀ c ∈ ws, isSpace c = true) (hpass : pass₂ = x ++ ('-' :: '-' :: (name ++ ws)))
    (hk₁ : Passes kvMatcher MASK before v₁ after pass₁ u₁)
    (hk₂ : Passes kvMatcher MASK before v₂ after pass₁ u₂)
    (hj₁ : Passes jsonKvMatcher MASK pass₁ u₁ (kvMatcher.replaceAll MASK after) pass₂ v₁')
    (hj₂ : Passes jsonKvMatcher MASK pass₁ u₂ (kvMatcher.replaceAll MASK after) pass₂ v₂')
    (hafter : jsonKvMatcher.replaceAll MASK (kvMatcher.replaceAll MASK after) = post)
    (hwalk : ∀ v, v = v₁' ∨ v = v₂' →
      Walk flagMatcher MASK ('-' :: '-' :: (name ++ (ws ++ (v ++ post)))) x out)
    (hv : ∀ v, v = v₁' ∨ v = v₂' →
      (∀ c ∈ v, isSpace c = false) ∧ ∃ c, v.head? = some c ∧ c ≠ '-')
    (hpost : ∀ c, post.head? = some c → isSpace c = true) :
    Conceals MASK passes before v₁ v₂ after := by
  refine .inr ⟨pass₁, u₁, u₂, hk₁, hk₂, .inr ⟨pass₂, v₁', v₂', hj₁, hj₂, .inl ?_⟩⟩
  refine ⟨x, '-' :: '-' :: (name ++ ws), '-' :: '-' :: name, out, post, hpass, fun v hor => ?_⟩
  obtain ⟨hspace, hdash⟩ := hv v hor
  have hsplit : '-' :: '-' :: (name ++ ws) ++ v ++
      jsonKvMatcher.replaceAll MASK (kvMatcher.replaceAll MASK after) =
        '-' :: '-' :: (name ++ (ws ++ (v ++ post))) := by simp [hafter]
  rw [hsplit]
  exact ⟨hwalk v hor, matchFlag_value hname hsecret hne hws hspace hdash hpost⟩

-- ============================================================================
-- The cut
-- ============================================================================

/-- What a cut after `n` characters leaves of the secret, and of the text behind
    it. -/
def cutValue (n : Nat) (before v : Text) : Text := v.take (n - before.length)

def cutAfter (n : Nat) (before v after : Text) : Text :=
  if (before ++ v ++ after).length ≤ n then after
  else after.take (n - (before ++ v).length) ++ "...(truncated)".toList

theorem truncateString_append (n : Nat) (before v after : Text) :
    truncateString (before ++ v ++ after) n =
      before.take n ++ cutValue n before v ++ cutAfter n before v after := by
  unfold truncateString cutValue cutAfter
  split
  · rename_i hle
    simp only [List.length_append] at hle
    rw [List.take_of_length_le (by omega), List.take_of_length_le (by omega)]
  · rw [List.take_append, List.take_append, List.append_assoc]

/-- Values of the same length are cut at the same place. -/
theorem cutAfter_congr (n : Nat) (before after : Text) (h : v₁.length = v₂.length) :
    cutAfter n before v₁ after = cutAfter n before v₂ after := by
  simp only [cutAfter, List.length_append, h]

end

theorem find_x {m : Matcher Char} (hm : m ∈ passes) (t : Text) : m.find ('x' :: t) = none := by
  simp only [passes, List.mem_cons, List.not_mem_nil, or_false] at hm
  rcases hm with rfl | rfl | rfl
  · refine List.findSome?_eq_none_iff.mpr fun kw hkw => ?_
    have hfirst : startsWithCi kw.toList ('x' :: t) = false := by
      simp only [KEYWORDS_1, List.cons_append, List.nil_append, List.mem_cons, List.not_mem_nil,
        or_false] at hkw
      rcases hkw with rfl | rfl | rfl | rfl | rfl | rfl | rfl <;> rfl
    rw [matchKvAt, hfirst]
    rfl
  · rfl
  · rfl

/-- Filler in front of a text is copied. -/
theorem sanitize_filler (n : Nat) (t : Text) :
    sanitize (List.replicate n 'x' ++ t) = List.replicate n 'x' ++ sanitize t := by
  have hcopy : ∀ m ∈ passes, ∀ t, m.replaceAll MASK (List.replicate n 'x' ++ t) =
      List.replicate n 'x' ++ m.replaceAll MASK t := by
    intro m hm t
    induction n with
    | zero => rfl
    | succ n ih =>
      rw [List.replicate_succ, List.cons_append, Matcher.replaceAll_copy _ _ (find_x hm _), ih]
      rfl
  unfold sanitize
  dsimp only
  rw [hcopy kvMatcher (by simp [passes]), hcopy jsonKvMatcher (by simp [passes]),
    hcopy flagMatcher (by simp [passes])]

end GnDrive.Rpc.Redact
