/-
  GnDrive.Rpc.OAuthOutput

  What a session makes of the output of `rclone authorize`, read by read.

  `pump` reads a stream to its end, keeps back a character that a read cuts, and hands on the
  texts; `consume` keeps them.  The buffers hold the text of the whole stream unless a read
  is cut inside a character and has invalid bytes before it (`Unsplit`).  The URL is the
  first that the buffer shows, or the first consent link, as far as it has been read
  (`deciding`): it is the URL of the whole stream if the read does not cut it (`Uncut`).
-/

import GnDrive.Lib.Utf8
import GnDrive.Rpc.OAuthLinks

namespace GnDrive.OAuth

open Utf8

/-- What a read returns, if it is not the end. -/
abbrev Chunk := { r : List UInt8 // r ≠ [] }

def stream (reads : List Chunk) : List UInt8 := (reads.map Subtype.val).flatten

/-- The stream, in one read. -/
def inOne (reads : List Chunk) : List Chunk :=
  if h : stream reads ≠ [] then [⟨stream reads, h⟩] else []

/-- `valid`: how much of the bytes is handed on. -/
def valid (carry : List UInt8) : Nat :=
  match fromUtf8 carry with
  | .valid => carry.length
  | .incomplete validUpTo => validUpTo
  | .invalid => carry.length

/-- `pump`, with the bytes it has kept back: the texts for `on_chunk`. -/
def pump (carry : List UInt8) : List Chunk → List Text
  | [] => if carry ≠ [] then [fromUtf8Lossy carry] else []
  | r :: reads =>
      let carry := carry ++ r.1
      let text := fromUtf8Lossy (carry.take (valid carry))
      let texts := pump (carry.drop (valid carry)) reads
      if text ≠ [] then text :: texts else texts

/-- The texts of one stream. -/
def textsOf (kind : StreamKind) (events : List (StreamKind × Text)) : List Text :=
  (events.filter (·.1 = kind)).map Prod.snd

/-- What the two readers hand on, in some order. -/
structure Output (out err : List Chunk) where
  events : List (StreamKind × Text)
  stdout : textsOf .stdout events = pump [] out
  stderr : textsOf .stderr events = pump [] err

/-- The session, when it has consumed it. -/
def listen (events : List (StreamKind × Text)) : Session :=
  events.foldl (fun x e => consume x e.1 e.2) Session.new

/-- The buffers in which `process_exited` looks for the token. -/
def tokenBuffers (x : Session) : Text × Text := (x.stdoutBuffer, x.stderrBuffer)

def SameReport (x y : Session) : Prop := tokenBuffers x = tokenBuffers y ∧ x.authUrl = y.authUrl

instance (x y : Session) : Decidable (SameReport x y) := inferInstanceAs (Decidable (_ ∧ _))

-- ============================================================================
-- The conditions
-- ============================================================================

/-- No read with invalid bytes ends inside a character that the next byte continues. -/
def Unsplit (s : Option Begun) : List Chunk → Prop
  | [] => True
  | r :: reads =>
      let d := decodeFrom s r.1
      if d.clean then Unsplit d.state reads
      else (∀ p ∈ d.state, ∀ b ∈ (stream reads).head?, ¬ p.Takes b) ∧ Unsplit none reads

/-- The buffer after each text. -/
def buffers (buf : Text) : List Text → List Text
  | [] => []
  | t :: texts => (buf ++ t) :: buffers (buf ++ t) texts

/-- The text shows a link of a kind. -/
def shows (q : Text → Bool) (t : Text) : Bool := (firstLink q t).isSome

/-- The first text that shows a consent link, or else the first that shows a link. -/
def deciding (bufs : List Text) : Option Text :=
  (bufs.find? (shows isConsentUrl)).or (bufs.find? (shows fun _ => true))

/-- The consent link, or else the first link, with the text after it. -/
def shownLink (t : Text) : Option (Link × Text) :=
  (firstLink isConsentUrl t).or (firstLink (fun _ => true) t)

def Link.url (l : Link) : Text := trimLink l.raw

/-- The link that `t` shows is not cut by the end of `t` when `rest` follows; or else what it
    goes on as is no consent link, and it comes again as the next one. -/
def Uncut (t rest : Text) : Prop :=
  ∀ l next, shownLink t = some (l, next) →
    let whole := l.goOn next rest
    whole.1.url = l.url ∨
      isConsentUrl l.url ∧ ¬ isConsentUrl whole.1.url ∧
        (firstLink isConsentUrl whole.2).map (·.1.url) = some l.url

/-- The read that first shows the link does not cut it. -/
def LinkUncut (err : List Chunk) : Prop :=
  ∀ t rest, deciding (buffers [] (pump [] err)) = some t →
    deciding (buffers [] (pump [] (inOne err))) = some (t ++ rest) → Uncut t rest

-- ============================================================================
-- The texts of a stream
-- ============================================================================

section

variable {s : Option Begun} {reads : List Chunk}

def say (t : Text) : List Text := if t ≠ [] then [t] else []

theorem flatten_say (t : Text) : (say t).flatten = t := by
  unfold say
  split
  · exact List.append_nil t
  · exact Eq.symm (not_not.mp ‹_›)

/-- The texts of the reads: characters in front, then `decodeFrom` of each read. -/
def texts (s : Option Begun) : List Chunk → List Text
  | [] => say (flush s)
  | r :: reads =>
      let d := decodeFrom s r.1
      if d.clean then say d.text ++ texts d.state reads
      else say (d.text ++ flush d.state) ++ texts none reads

theorem say_append (t : Text) (texts : List Text) :
    say t ++ texts = if t ≠ [] then t :: texts else texts := by
  unfold say
  split <;> rfl

theorem carried_eq_nil (hs : Stands s) : carried s = [] ↔ s = none := by
  constructor
  · intro h
    unfold Stands at hs
    rw [h] at hs
    exact (congrArg Decoded.state hs).symm
  · rintro rfl
    rfl

theorem fromUtf8Lossy_carried (hs : Stands s) : fromUtf8Lossy (carried s) = flush s := by
  unfold fromUtf8Lossy totalFrom
  rw [hs]
  rfl

/-- Clean bytes are handed on up to the character that has begun. -/
theorem cut_of_clean {bytes : List UInt8} (hs : Stands s) (h : (decodeFrom s bytes).clean = true) :
    fromUtf8Lossy ((carried s ++ bytes).take (valid (carried s ++ bytes))) =
        (decodeFrom s bytes).text ∧
      (carried s ++ bytes).drop (valid (carried s ++ bytes)) =
        carried (decodeFrom s bytes).state := by
  obtain ⟨-, whole, hsplit, hwhole⟩ := split_of_clean hs h
  have hvalid : valid (carried s ++ bytes) = whole.length := by
    have hlen : (carried s ++ bytes).length =
        whole.length + (carried (decodeFrom s bytes).state).length :=
      (congrArg List.length hsplit).trans List.length_append
    unfold valid fromUtf8
    rw [decodeFrom_carried hs]
    dsimp only
    rw [if_pos h]
    cases hstate : (decodeFrom s bytes).state with
    | none =>
      rw [hstate] at hlen
      exact hlen
    | some p =>
      rw [hstate] at hlen
      show (carried s ++ bytes).length - (carried (some p)).length = whole.length
      omega
  rw [hvalid, hsplit, List.take_left, List.drop_left]
  refine ⟨?_, rfl⟩
  unfold fromUtf8Lossy totalFrom
  rw [hwhole]
  exact List.append_nil _

/-- Bytes that are not clean are handed on as a whole. -/
theorem cut_of_not_clean {bytes : List UInt8} (hs : Stands s)
    (h : (decodeFrom s bytes).clean = false) :
    fromUtf8Lossy ((carried s ++ bytes).take (valid (carried s ++ bytes))) =
        (decodeFrom s bytes).text ++ flush (decodeFrom s bytes).state ∧
      (carried s ++ bytes).drop (valid (carried s ++ bytes)) = [] := by
  have hvalid : valid (carried s ++ bytes) = (carried s ++ bytes).length := by
    unfold valid fromUtf8
    rw [decodeFrom_carried hs]
    dsimp only
    rw [h, if_neg Bool.false_ne_true]
  rw [hvalid, List.take_length, List.drop_length]
  refine ⟨?_, rfl⟩
  unfold fromUtf8Lossy totalFrom
  rw [decodeFrom_carried hs]

/-- What is kept back stands for the state of the decoder. -/
theorem pump_eq (hs : Stands s) (reads : List Chunk) : pump (carried s) reads = texts s reads := by
  induction reads generalizing s with
  | nil =>
    unfold pump texts say
    rw [fromUtf8Lossy_carried hs]
    cases s with
    | none => rfl
    | some p =>
      rw [if_pos (mt (carried_eq_nil hs).mp (Option.some_ne_none p))]
      rfl
  | cons r reads ih =>
    unfold pump texts
    dsimp only
    rw [say_append, say_append]
    cases hclean : (decodeFrom s r.1).clean with
    | true =>
      obtain ⟨htext, hcarry⟩ := cut_of_clean hs hclean
      rw [htext, hcarry, ih (split_of_clean hs hclean).1, if_pos rfl]
    | false =>
      obtain ⟨htext, hcarry⟩ := cut_of_not_clean hs hclean
      have hnone : pump [] reads = texts none reads := ih stands_none
      rw [htext, hcarry, hnone, if_neg Bool.false_ne_true]

theorem stream_cons (r : Chunk) (reads : List Chunk) : stream (r :: reads) = r.1 ++ stream reads :=
  rfl

/-- A read that is handed on as a whole, and what the next byte says about its end. -/
theorem flush_state (state : Option Begun) (bytes : List UInt8) :
    (∀ p ∈ state, ∀ b ∈ bytes.head?, ¬ p.Takes b) ∧
        flush state ++ totalFrom none bytes = totalFrom state bytes ∨
      (¬ ∀ p ∈ state, ∀ b ∈ bytes.head?, ¬ p.Takes b) ∧
        (totalFrom state bytes).length < (flush state ++ totalFrom none bytes).length := by
  cases state with
  | none => exact .inl ⟨(fun p h => nomatch h), rfl⟩
  | some p =>
    refine (flush_total p bytes).imp ?_ ?_
    · rintro ⟨hnot, heq⟩
      refine ⟨fun p' hp' => ?_, heq⟩
      obtain rfl := Option.some.inj hp'
      exact hnot
    · rintro ⟨⟨b, hb, htakes⟩, hlt⟩
      exact ⟨fun hnot => hnot p rfl b hb htakes, hlt⟩

/-- The texts are the text of the stream if no character is split, and longer if one is. -/
theorem flatten_texts (s : Option Begun) (reads : List Chunk) :
    Unsplit s reads ∧ (texts s reads).flatten = totalFrom s (stream reads) ∨
      ¬ Unsplit s reads ∧ (totalFrom s (stream reads)).length < (texts s reads).flatten.length := by
  induction reads generalizing s with
  | nil => exact .inl ⟨trivial, flatten_say _⟩
  | cons r reads ih =>
    unfold Unsplit texts
    rw [stream_cons, totalFrom_append]
    dsimp only
    split
    · rw [List.flatten_append, flatten_say]
      refine (ih (decodeFrom s r.1).state).imp ?_ ?_
      · rintro ⟨hunsplit, heq⟩
        exact ⟨hunsplit, congrArg _ heq⟩
      · rintro ⟨hsplit, hlt⟩
        refine ⟨hsplit, ?_⟩
        rw [List.length_append, List.length_append]
        omega
    · rw [List.flatten_append, flatten_say, List.append_assoc]
      generalize (decodeFrom s r.1).text = t
      generalize (decodeFrom s r.1).state = state
      rcases flush_state state (stream reads) with ⟨hend, heq⟩ | ⟨hend, hlt⟩
      · refine (ih none).imp ?_ ?_
        · rintro ⟨hunsplit, hrest⟩
          refine ⟨⟨hend, hunsplit⟩, ?_⟩
          rw [hrest, heq]
        · rintro ⟨hsplit, hlt⟩
          refine ⟨fun h => hsplit h.2, ?_⟩
          rw [← heq, List.length_append, List.length_append, List.length_append,
            List.length_append]
          omega
      · refine .inr ⟨fun h => hend h.1, ?_⟩
        have hle : (totalFrom none (stream reads)).length ≤ (texts none reads).flatten.length := by
          rcases ih none with ⟨-, heq⟩ | ⟨-, hle⟩
          · exact Nat.le_of_eq (congrArg _ heq.symm)
          · exact Nat.le_of_lt hle
        rw [List.length_append] at hlt
        rw [List.length_append, List.length_append, List.length_append]
        omega

/-- The texts of the reads, and what is left of a stream without invalid bytes. -/
theorem texts_of_clean (h : (decodeFrom s (stream reads)).clean = true) :
    ∃ ts, texts s reads = ts ++ say (flush (decodeFrom s (stream reads)).state) ∧
      ts.flatten = (decodeFrom s (stream reads)).text := by
  induction reads generalizing s with
  | nil => exact ⟨[], rfl, rfl⟩
  | cons r reads ih =>
    rw [stream_cons, decodeFrom_append] at h ⊢
    obtain ⟨hr, hrest⟩ := (Bool.and_eq_true _ _).mp h
    obtain ⟨ts, htexts, hflatten⟩ := ih hrest
    refine ⟨say (decodeFrom s r.1).text ++ ts, ?_, ?_⟩
    · unfold texts
      dsimp only
      rw [if_pos hr, htexts, List.append_assoc]
      rfl
    · rw [List.flatten_append, flatten_say, hflatten]
      rfl

theorem inOne_cases (reads : List Chunk) :
    stream reads = [] ∧ inOne reads = [] ∨ ∃ h, inOne reads = [⟨stream reads, h⟩] := by
  unfold inOne
  by_cases h : stream reads = []
  · exact .inl ⟨h, dif_neg (not_not.mpr h)⟩
  · exact .inr ⟨h, dif_pos h⟩

theorem stream_inOne (reads : List Chunk) : stream (inOne reads) = stream reads := by
  rcases inOne_cases reads with ⟨hnil, hone⟩ | ⟨h, hone⟩
  · rw [hone, hnil]
    rfl
  · rw [hone]
    exact List.append_nil _

/-- One read splits nothing. -/
theorem unsplit_inOne (reads : List Chunk) : Unsplit none (inOne reads) := by
  rcases inOne_cases reads with ⟨-, hone⟩ | ⟨h, hone⟩
  · rw [hone]
    trivial
  · rw [hone]
    unfold Unsplit
    dsimp only
    split
    · trivial
    · exact ⟨fun p _ b hb => (nomatch hb), trivial⟩

theorem flatten_inOne (reads : List Chunk) :
    (texts none (inOne reads)).flatten = totalFrom none (stream reads) := by
  rcases flatten_texts none (inOne reads) with ⟨-, heq⟩ | ⟨hsplit, -⟩
  · rw [heq, stream_inOne]
  · exact absurd (unsplit_inOne reads) hsplit

/-- The texts are those of one read if and only if no character is split. -/
theorem flatten_eq_iff (reads : List Chunk) :
    (texts none reads).flatten = (texts none (inOne reads)).flatten ↔ Unsplit none reads := by
  rw [flatten_inOne]
  rcases flatten_texts none reads with ⟨hunsplit, heq⟩ | ⟨hsplit, hlt⟩
  · exact iff_of_true heq hunsplit
  · refine iff_of_false (fun heq => ?_) hsplit
    rw [heq] at hlt
    exact Nat.lt_irrefl _ hlt

theorem texts_inOne_eq (reads : List Chunk) :
    texts none (inOne reads) =
      if (decodeFrom none (stream reads)).clean then
        say (decodeFrom none (stream reads)).text ++
          say (flush (decodeFrom none (stream reads)).state)
      else say (totalFrom none (stream reads)) := by
  rcases inOne_cases reads with ⟨hnil, hone⟩ | ⟨h, hone⟩
  · rw [hone, hnil]
    rfl
  · rw [hone]
    unfold texts
    dsimp only
    split
    · rfl
    · exact List.append_nil _

/-- The one read makes one text, or two: a stream can end inside a character. -/
theorem texts_inOne (reads : List Chunk) :
    texts none (inOne reads) = say (totalFrom none (stream reads)) ∨
      ∃ ts, texts none reads = ts ++ [[REPLACEMENT]] ∧
        texts none (inOne reads) = say ts.flatten ++ [[REPLACEMENT]] := by
  rw [texts_inOne_eq]
  cases hclean : (decodeFrom none (stream reads)).clean with
  | false => exact .inl rfl
  | true =>
    cases hstate : (decodeFrom none (stream reads)).state with
    | none =>
      left
      unfold totalFrom
      rw [hstate, if_pos rfl]
      show say _ ++ [] = say (_ ++ [])
      rw [List.append_nil, List.append_nil]
    | some p =>
      obtain ⟨ts, htexts, hflatten⟩ := texts_of_clean hclean
      rw [hstate] at htexts
      refine .inr ⟨ts, htexts, ?_⟩
      rw [hflatten]
      rfl

end

-- ============================================================================
-- The link that a text shows
-- ============================================================================

section

variable {t : Text} {l : Link} {next : Text}

theorem extractUrl_eq (t : Text) : extractUrl t = (shownLink t).map (·.1.url) := by
  unfold extractUrl shownLink
  rw [extractUrl_go_eq (Nat.le_refl _), Option.none_or, Option.map_or]
  rfl

/-- A link is a consent link, or the search for one goes on behind it. -/
theorem firstLink_consent (h : firstLink (fun _ => true) t = some (l, next))
    (hurl : isConsentUrl l.url = true) : firstLink isConsentUrl t = some (l, next) := by
  induction hlen : t.length using Nat.strongRecOn generalizing t with
  | ind n ih =>
    rcases firstLink_cases h with ⟨hnext, hlink⟩ | ⟨l₀, next₀, hnext, -, hshorter, hnot, hrest⟩
    · rw [firstLink_of_some hnext, if_pos]
      rw [Bool.and_true] at hlink
      exact (Bool.and_eq_true _ _).mpr ⟨hlink, hurl⟩
    · rw [Bool.and_true] at hnot
      rw [firstLink_of_some hnext, if_neg fun hq => hnot ((Bool.and_eq_true _ _).mp hq).1]
      exact ih _ (hlen ▸ hshorter) hrest rfl

/-- A consent link is a link. -/
theorem shows_of_consent (h : shows isConsentUrl t = true) :
    shows (fun _ => true) t = true := by
  unfold shows at h ⊢
  obtain ⟨⟨l, next⟩, hfirst⟩ := Option.isSome_iff_exists.mp h
  induction hlen : t.length using Nat.strongRecOn generalizing t with
  | ind n ih =>
    rcases firstLink_cases hfirst with ⟨hnext, hlink⟩ | ⟨l₀, next₀, hnext, -, hshorter, -, hrest⟩
    · rw [firstLink_of_some hnext, if_pos]
      · rfl
      · rw [Bool.and_true]
        exact ((Bool.and_eq_true _ _).mp hlink).1
    · rw [firstLink_of_some hnext]
      split
      · rfl
      · exact ih _ (hlen ▸ hshorter) (by rw [hrest]; rfl) hrest rfl

theorem shownLink_of_consent (h : firstLink isConsentUrl t = some (l, next)) :
    shownLink t = some (l, next) ∧ isConsentUrl l.url = true := by
  unfold shownLink
  rw [h]
  exact ⟨rfl, ((Bool.and_eq_true _ _).mp (firstLink_spec h)).2⟩

theorem shownLink_of_not_consent (h : ¬ shows isConsentUrl t = true) :
    shownLink t = firstLink (fun _ => true) t ∧
      ∀ l next, shownLink t = some (l, next) → ¬ isConsentUrl l.url = true := by
  have hnone : firstLink isConsentUrl t = none := Option.not_isSome_iff_eq_none.mp h
  have heq : shownLink t = firstLink (fun _ => true) t := by
    unfold shownLink
    rw [hnone, Option.none_or]
  refine ⟨heq, fun l next hlink hurl => ?_⟩
  rw [firstLink_consent (heq ▸ hlink) hurl] at hnone
  cases hnone

/-- A text that shows a link shows one when it goes on. -/
theorem shows_append (h : shows (fun _ => true) t = true) (rest : Text) :
    shows (fun _ => true) (t ++ rest) = true := by
  obtain ⟨⟨l, next⟩, hfirst⟩ := Option.isSome_iff_exists.mp h
  unfold shows
  rw [firstLink_goOn hfirst, if_pos rfl]
  rfl

theorem uncut_iff (h : shownLink t = some (l, next)) (rest : Text) :
    Uncut t rest ↔ (l.goOn next rest).1.url = l.url ∨
      isConsentUrl l.url ∧ ¬ isConsentUrl (l.goOn next rest).1.url ∧
        (firstLink isConsentUrl (l.goOn next rest).2).map (·.1.url) = some l.url := by
  unfold Uncut
  constructor
  · exact fun hall => hall l next h
  · intro hone l' next' h'
    obtain ⟨rfl, rfl⟩ := Prod.mk.inj (Option.some.inj (h.symm.trans h'))
    exact hone

/-- A consent link, and what the text goes on as. -/
theorem extractUrl_append_of_consent (h : firstLink isConsentUrl t = some (l, next))
    (rest : Text) : extractUrl t = extractUrl (t ++ rest) ↔ Uncut t rest := by
  obtain ⟨hlink, hurl⟩ := shownLink_of_consent h
  have hgoOn : firstLink isConsentUrl (t ++ rest) =
      if isConsentUrl (l.goOn next rest).1.url then some (l.goOn next rest)
      else firstLink isConsentUrl (l.goOn next rest).2 := firstLink_goOn h rest
  rw [uncut_iff hlink, extractUrl_eq, extractUrl_eq, hlink]
  generalize l.goOn next rest = whole at hgoOn ⊢
  obtain ⟨l', next'⟩ := whole
  dsimp only at hgoOn ⊢
  by_cases hurl' : isConsentUrl l'.url = true
  · rw [if_pos hurl'] at hgoOn
    rw [(shownLink_of_consent hgoOn).1]
    constructor
    · exact fun heq => .inl (Option.some.inj heq).symm
    · rintro (heq | ⟨-, hnot, -⟩)
      · exact congrArg some heq.symm
      · exact absurd hurl' hnot
  have hne : l'.url ≠ l.url := fun heq => hurl' (heq ▸ hurl)
  rw [if_neg hurl'] at hgoOn
  rw [← hgoOn]
  cases hlater : firstLink isConsentUrl (t ++ rest) with
  | some later =>
    obtain ⟨l₂, next₂⟩ := later
    rw [(shownLink_of_consent hlater).1]
    constructor
    · exact fun heq => .inr ⟨hurl, hurl', heq.symm⟩
    · rintro (heq | ⟨-, -, heq⟩)
      · exact absurd heq hne
      · exact heq.symm
  | none =>
    have hnot : ¬ shows isConsentUrl (t ++ rest) = true := by
      unfold shows
      rw [hlater]
      exact Bool.false_ne_true
    obtain ⟨-, hother⟩ := shownLink_of_not_consent hnot
    constructor
    · intro heq
      obtain ⟨⟨l₂, next₂⟩, hlink₂, hurl₂⟩ := Option.map_eq_some_iff.mp heq.symm
      have hsame : l₂.url = l.url := hurl₂
      exact absurd (hsame ▸ hurl) (hother l₂ next₂ hlink₂)
    · rintro (heq | ⟨-, -, heq⟩)
      · exact absurd heq hne
      · cases heq

/-- The URL stays the same if and only if the text does not cut the link. -/
theorem extractUrl_append_iff {rest : Text} (h : shows (fun _ => true) t = true)
    (hconsent : shows isConsentUrl (t ++ rest) = true → shows isConsentUrl t = true) :
    extractUrl t = extractUrl (t ++ rest) ↔ Uncut t rest := by
  by_cases hc : shows isConsentUrl t = true
  · obtain ⟨⟨l, next⟩, hfirst⟩ := Option.isSome_iff_exists.mp hc
    exact extractUrl_append_of_consent hfirst rest
  obtain ⟨hlink, hurl⟩ := shownLink_of_not_consent hc
  obtain ⟨hlink', -⟩ := shownLink_of_not_consent (mt hconsent hc)
  obtain ⟨⟨l, next⟩, hfirst⟩ := Option.isSome_iff_exists.mp h
  rw [hfirst] at hlink
  rw [uncut_iff hlink, extractUrl_eq, extractUrl_eq, hlink', firstLink_goOn hfirst, if_pos rfl,
    hlink]
  constructor
  · exact fun heq => .inl (Option.some.inj heq).symm
  · rintro (heq | ⟨hcon, -⟩)
    · exact congrArg some heq.symm
    · exact absurd hcon (hurl l next hlink)

end

-- ============================================================================
-- The session
-- ============================================================================

section

variable {bufs bufs' : List Text} {t : Text}

/-- What the session reports when the buffer went through these texts. -/
def answer (bufs : List Text) : Option Text := (deciding bufs).bind extractUrl

theorem extractUrl_of_consent (h : shows isConsentUrl t = true) :
    ∃ u, extractUrl t = some u ∧ isConsentUrl u = true := by
  obtain ⟨⟨l, next⟩, hfirst⟩ := Option.isSome_iff_exists.mp h
  obtain ⟨hlink, hurl⟩ := shownLink_of_consent hfirst
  exact ⟨l.url, by rw [extractUrl_eq, hlink]; rfl, hurl⟩

theorem not_consent_of_extractUrl {u : Text} (h : ¬ shows isConsentUrl t = true)
    (hurl : extractUrl t = some u) : ¬ isConsentUrl u = true := by
  rw [extractUrl_eq] at hurl
  obtain ⟨⟨l, next⟩, hlink, rfl⟩ := Option.map_eq_some_iff.mp hurl
  exact (shownLink_of_not_consent h).2 l next hlink

theorem extractUrl_isSome (t : Text) :
    (extractUrl t).isSome = shows (fun _ => true) t := by
  rw [extractUrl_eq, Option.isSome_map]
  by_cases hc : shows isConsentUrl t = true
  · rw [shows_of_consent hc]
    unfold shownLink
    rw [Option.isSome_or]
    exact Bool.or_eq_true _ _ |>.mpr (.inl hc)
  · rw [(shownLink_of_not_consent hc).1]
    rfl

/-- What `consume` makes of the URL it has. -/
def upgraded (authUrl new : Option Text) : Option Text :=
  match new with
  | none => authUrl
  | some url =>
      let upgrade := match authUrl with
        | none => true
        | some cur => !isConsentUrl cur && isConsentUrl url
      if upgrade then some url else authUrl

theorem consume_stderr (x : Session) (text : Text) :
    (consume x .stderr text).stdoutBuffer = x.stdoutBuffer ∧
      (consume x .stderr text).stderrBuffer = x.stderrBuffer ++ text ∧
        (consume x .stderr text).authUrl =
          upgraded x.authUrl (extractUrl (x.stderrBuffer ++ text)) := by
  unfold consume upgraded
  dsimp only
  cases extractUrl (x.stderrBuffer ++ text) with
  | none => exact ⟨rfl, rfl, rfl⟩
  | some url =>
    cases x.authUrl with
    | none => exact ⟨rfl, rfl, rfl⟩
    | some cur =>
      dsimp only
      by_cases hup : (!isConsentUrl cur && isConsentUrl url) = true
      · rw [if_pos hup, if_pos hup]
        exact ⟨rfl, rfl, rfl⟩
      · rw [if_neg hup, if_neg hup]
        exact ⟨rfl, rfl, rfl⟩

theorem upgraded_none (new : Option Text) : upgraded none new = new := by
  cases new <;> rfl

theorem upgraded_keep {cur : Text} {new : Option Text}
    (h : isConsentUrl cur = true ∨ ∀ url, new = some url → ¬ isConsentUrl url = true) :
    upgraded (some cur) new = some cur := by
  cases new with
  | none => rfl
  | some url =>
    refine if_neg ?_
    dsimp only
    rw [Bool.and_eq_true, Bool.not_eq_true']
    rintro ⟨hcur, hurl⟩
    rcases h with hcon | hnot
    · rw [hcon] at hcur
      cases hcur
    · exact hnot url rfl hurl

theorem upgraded_take {cur url : Text} (hcur : ¬ isConsentUrl cur = true)
    (hurl : isConsentUrl url = true) : upgraded (some cur) (some url) = some url := by
  refine if_pos ?_
  dsimp only
  rw [Bool.and_eq_true, Bool.not_eq_true']
  exact ⟨Bool.not_eq_true _ |>.mp hcur, hurl⟩

/-- The next text: `consume` keeps its URL, or takes the new one. -/
theorem answer_append (bufs : List Text) (t : Text) :
    answer (bufs ++ [t]) = upgraded (answer bufs) (extractUrl t) := by
  unfold answer deciding
  rw [List.find?_append, List.find?_append]
  cases hc : bufs.find? (shows isConsentUrl) with
  | some c =>
    obtain ⟨u, hu, hcon⟩ := extractUrl_of_consent (List.find?_some hc)
    rw [Option.some_or, Option.some_or, Option.some_or, Option.bind_some, hu,
      upgraded_keep (.inl hcon)]
  | none =>
    rw [Option.none_or, Option.none_or]
    have hnot : ∀ b ∈ bufs, ¬ shows isConsentUrl b = true := List.find?_eq_none.mp hc
    by_cases ht : shows isConsentUrl t = true
    · obtain ⟨u, hu, hcon⟩ := extractUrl_of_consent ht
      rw [List.find?_cons_of_pos ht, Option.some_or, Option.bind_some, hu]
      cases hcur : (bufs.find? (shows fun _ => true)).bind extractUrl with
      | none => rfl
      | some cur =>
        obtain ⟨b, hb, hcur⟩ := Option.bind_eq_some_iff.mp hcur
        have hmem := hnot b (List.mem_of_find?_eq_some hb)
        rw [upgraded_take (not_consent_of_extractUrl hmem hcur) hcon]
    · rw [List.find?_cons_of_neg ht, List.find?_nil, Option.none_or]
      cases hfirst : bufs.find? (shows fun _ => true) with
      | some b =>
        have hshown := extractUrl_isSome b
        rw [List.find?_some hfirst] at hshown
        obtain ⟨cur, hcur⟩ := Option.isSome_iff_exists.mp hshown
        rw [Option.some_or, Option.bind_some, hcur,
          upgraded_keep (.inr fun url => not_consent_of_extractUrl ht)]
      | none =>
        have hshown := extractUrl_isSome t
        rw [Option.none_or, Option.bind_none, upgraded_none]
        cases hurl : extractUrl t with
        | none =>
          rw [hurl] at hshown
          rw [List.find?_cons_of_neg (by rw [← hshown]; exact Bool.false_ne_true)]
          rfl
        | some url =>
          rw [hurl] at hshown
          rw [List.find?_cons_of_pos hshown.symm, Option.bind_some, hurl]

theorem buffers_append (buf : Text) (ts us : List Text) :
    buffers buf (ts ++ us) = buffers buf ts ++ buffers (buf ++ ts.flatten) us := by
  induction ts generalizing buf with
  | nil =>
    rw [List.nil_append, List.flatten_nil, List.append_nil]
    rfl
  | cons t ts ih =>
    rw [List.cons_append, List.flatten_cons, ← List.append_assoc]
    show (buf ++ t) :: buffers (buf ++ t) (ts ++ us) = _
    rw [ih]
    rfl

theorem textsOf_append (kind : StreamKind) (events : List (StreamKind × Text))
    (e : StreamKind × Text) :
    textsOf kind (events ++ [e]) = textsOf kind events ++ if e.1 = kind then [e.2] else [] := by
  unfold textsOf
  rw [List.filter_append, List.map_append]
  congr 1
  by_cases h : e.1 = kind
  · rw [if_pos h, List.filter_singleton, decide_eq_true h]
    rfl
  · rw [if_neg h, List.filter_singleton, decide_eq_false h]
    rfl

/-- What the session holds of the two streams does not depend on their order. -/
theorem listen_eq (events : List (StreamKind × Text)) :
    (listen events).stdoutBuffer = (textsOf .stdout events).flatten ∧
      (listen events).stderrBuffer = (textsOf .stderr events).flatten ∧
        (listen events).authUrl = answer (buffers [] (textsOf .stderr events)) := by
  induction events using List.reverseRecOn with
  | nil => exact ⟨rfl, rfl, rfl⟩
  | append_singleton events e ih =>
    obtain ⟨hout, herr, hurl⟩ := ih
    have hlisten : listen (events ++ [e]) = consume (listen events) e.1 e.2 := by
      unfold listen
      rw [List.foldl_append]
      rfl
    obtain ⟨kind, text⟩ := e
    rw [hlisten, textsOf_append, textsOf_append, List.flatten_append, List.flatten_append]
    cases kind with
    | stdout =>
      refine ⟨?_, ?_, ?_⟩
      · show (listen events).stdoutBuffer ++ text = _ ++ (text ++ [])
        rw [hout, List.append_nil]
      · show (listen events).stderrBuffer = _ ++ []
        rw [herr, List.append_nil]
      · show (listen events).authUrl = answer (buffers [] (_ ++ []))
        rw [hurl, List.append_nil]
    | stderr =>
      have hbuffers : buffers [] (textsOf .stderr events ++ [text]) =
          buffers [] (textsOf .stderr events) ++ [(listen events).stderrBuffer ++ text] := by
        rw [buffers_append, List.nil_append, herr]
        rfl
      obtain ⟨hout', herr', hurl'⟩ := consume_stderr (listen events) text
      refine ⟨?_, ?_, ?_⟩
      · rw [hout', hout]
        exact (List.append_nil _).symm
      · rw [herr', herr]
        show _ = _ ++ (text ++ [])
        rw [List.append_nil]
      · rw [hurl', if_pos rfl, hbuffers, answer_append, ← hurl]

/-- The buffer only grows. -/
theorem buffers_pairwise (buf : Text) (ts : List Text) :
    (buffers buf ts).Pairwise (· <+: ·) ∧
      ∀ b ∈ buffers buf ts, buf <+: b ∧ b <+: buf ++ ts.flatten := by
  induction ts generalizing buf with
  | nil => exact ⟨List.Pairwise.nil, (fun b h => nomatch h)⟩
  | cons t ts ih =>
    obtain ⟨hpairwise, hbetween⟩ := ih (buf ++ t)
    refine ⟨List.pairwise_cons.mpr ⟨fun b hb => (hbetween b hb).1, hpairwise⟩, fun b hb => ?_⟩
    rw [List.flatten_cons, ← List.append_assoc]
    rcases List.mem_cons.mp hb with rfl | hb
    · exact ⟨List.prefix_append _ _, List.prefix_append _ _⟩
    · exact ⟨(List.prefix_append _ _).trans (hbetween b hb).1, (hbetween b hb).2⟩

theorem flatten_mem_buffers (buf : Text) {ts : List Text} (h : ts ≠ []) :
    buf ++ ts.flatten ∈ buffers buf ts := by
  induction ts generalizing buf with
  | nil => exact absurd rfl h
  | cons t ts ih =>
    rw [List.flatten_cons, ← List.append_assoc]
    by_cases hts : ts = []
    · rw [hts, List.flatten_nil, List.append_nil]
      exact List.mem_cons_self
    · exact List.mem_cons_of_mem _ (ih (buf ++ t) hts)

/-- The first of a kind is not after any of that kind. -/
theorem find_prefix {q : Text → Bool} (hpairwise : bufs.Pairwise (· <+: ·)) (hmem : t ∈ bufs)
    (hq : q t = true) : ∃ b, bufs.find? q = some b ∧ b <+: t := by
  induction bufs with
  | nil => cases hmem
  | cons b bufs ih =>
    obtain ⟨hle, hpairwise⟩ := List.pairwise_cons.mp hpairwise
    by_cases hb : q b = true
    · refine ⟨b, List.find?_cons_of_pos hb, ?_⟩
      rcases List.mem_cons.mp hmem with rfl | hmem
      · exact List.prefix_rfl
      · exact hle t hmem
    · rcases List.mem_cons.mp hmem with rfl | hmem
      · exact absurd hq hb
      · rw [List.find?_cons_of_neg hb]
        exact ih hpairwise hmem

theorem deciding_eq_none : deciding bufs = none ↔ ∀ b ∈ bufs, ¬ shows (fun _ => true) b = true := by
  unfold deciding
  rw [Option.or_eq_none_iff, List.find?_eq_none, List.find?_eq_none]
  exact ⟨And.right, fun hnone => ⟨fun b hb h => hnone b hb (shows_of_consent h), hnone⟩⟩

/-- The deciding text shows a link, and a consent link if any does. -/
theorem deciding_spec (h : deciding bufs = some t) :
    t ∈ bufs ∧ shows (fun _ => true) t = true ∧
      (shows isConsentUrl t = true ∧ bufs.find? (shows isConsentUrl) = some t ∨
        (∀ b ∈ bufs, ¬ shows isConsentUrl b = true) ∧
          bufs.find? (shows fun _ => true) = some t) := by
  unfold deciding at h
  rcases Option.or_eq_some_iff.mp h with hconsent | ⟨hnone, hany⟩
  · have hshows := List.find?_some hconsent
    exact ⟨List.mem_of_find?_eq_some hconsent, shows_of_consent hshows, .inl ⟨hshows, hconsent⟩⟩
  · exact ⟨List.mem_of_find?_eq_some hany, List.find?_some hany,
      .inr ⟨List.find?_eq_none.mp hnone, hany⟩⟩

/-- Some of the buffers, among them the last: what the buffers went through when they are
    read in fewer pieces. -/
structure Coarser (bufs bufs' : List Text) : Prop where
  pairwise : bufs.Pairwise (· <+: ·)
  subset : ∀ b ∈ bufs', b ∈ bufs
  /-- A buffer that is left out comes before those that are not. -/
  before : ∀ b ∈ bufs, ∀ b' ∈ bufs', b <+: b' ∨ b ∈ bufs'
  /-- A link is shown in the end. -/
  shown : ∀ b ∈ bufs, shows (fun _ => true) b = true →
    ∃ b' ∈ bufs', shows (fun _ => true) b' = true

namespace Coarser

theorem decides (h : Coarser bufs bufs') : deciding bufs = none ↔ deciding bufs' = none := by
  rw [deciding_eq_none, deciding_eq_none]
  constructor
  · exact fun hnone b hb => hnone b (h.subset b hb)
  · intro hnone b hb hshows
    obtain ⟨b', hb', hshows'⟩ := h.shown b hb hshows
    exact hnone b' hb' hshows'

/-- In smaller pieces, less of the text decides. -/
theorem deciding_prefix {t' : Text} (h : Coarser bufs bufs') (ht : deciding bufs = some t)
    (ht' : deciding bufs' = some t') : t <+: t' := by
  obtain ⟨hmem, hshows, hfirst⟩ := deciding_spec ht
  obtain ⟨hmem', hshows', hfirst'⟩ := deciding_spec ht'
  have hin := h.subset t' hmem'
  rcases hfirst with ⟨hconsent, hfind⟩ | ⟨hnone, hfind⟩
  · rcases hfirst' with ⟨hconsent', -⟩ | ⟨hnone', -⟩
    · obtain ⟨b, hb, hprefix⟩ := find_prefix h.pairwise hin hconsent'
      rw [hfind] at hb
      obtain rfl := Option.some.inj hb
      exact hprefix
    · rcases h.before t hmem t' hmem' with hprefix | hmem
      · exact hprefix
      · exact absurd hconsent (hnone' t hmem)
  · obtain ⟨b, hb, hprefix⟩ := find_prefix h.pairwise hin hshows'
    rw [hfind] at hb
    obtain rfl := Option.some.inj hb
    exact hprefix

/-- The pieces answer alike if and only if the deciding text does not cut its link. -/
theorem answer_iff (h : Coarser bufs bufs') :
    answer bufs = answer bufs' ↔
      ∀ t rest, deciding bufs = some t → deciding bufs' = some (t ++ rest) → Uncut t rest := by
  unfold answer
  cases ht : deciding bufs with
  | none =>
    rw [h.decides.mp ht]
    exact iff_of_true rfl fun t rest h => nomatch h
  | some t =>
    cases ht' : deciding bufs' with
    | none =>
      rw [h.decides.mpr ht'] at ht
      cases ht
    | some t' =>
      obtain ⟨rest, rfl⟩ := h.deciding_prefix ht ht'
      obtain ⟨-, hshows, hfirst⟩ := deciding_spec ht
      have hconsent : shows isConsentUrl (t ++ rest) = true → shows isConsentUrl t = true := by
        intro hwhole
        rcases hfirst with ⟨hconsent, -⟩ | ⟨hnone, -⟩
        · exact hconsent
        · exact absurd hwhole (hnone _ (h.subset _ (deciding_spec ht').1))
      rw [Option.bind_some, Option.bind_some, extractUrl_append_iff hshows hconsent]
      constructor
      · intro huncut t₂ rest₂ h₂ h₂'
        obtain rfl := Option.some.inj h₂
        obtain rfl := List.append_cancel_left (Option.some.inj h₂')
        exact huncut
      · exact fun hall => hall t rest rfl rfl

end Coarser

theorem mem_buffers_say {b : Text} : b ∈ buffers [] (say t) ↔ b = t ∧ t ≠ [] := by
  unfold say
  split
  · exact List.mem_singleton.trans (and_iff_left ‹_›).symm
  · exact iff_of_false List.not_mem_nil fun h => ‹¬ t ≠ []› h.2

theorem prefix_flatten {b : Text} {ts : List Text} (h : b ∈ buffers [] ts) : b <+: ts.flatten :=
  ((buffers_pairwise [] ts).2 b h).2

theorem flatten_mem {ts : List Text} (h : ts.flatten ≠ []) : ts.flatten ∈ buffers [] ts :=
  flatten_mem_buffers [] fun hnil => h (by rw [hnil]; rfl)

/-- The last buffer shows a link if one does. -/
theorem shows_flatten {b : Text} {ts : List Text} (h : b ∈ buffers [] ts)
    (hshows : shows (fun _ => true) b = true) :
    shows (fun _ => true) ts.flatten = true ∧ ts.flatten ≠ [] := by
  obtain ⟨rest, hrest⟩ := prefix_flatten h
  have hwhole := shows_append hshows rest
  rw [hrest] at hwhole
  refine ⟨hwhole, fun hnil => ?_⟩
  rw [hnil] at hwhole
  cases hwhole

/-- All in one text. -/
theorem coarser_say (ts : List Text) : Coarser (buffers [] ts) (buffers [] (say ts.flatten)) where
  pairwise := (buffers_pairwise [] ts).1
  subset b hb := by
    obtain ⟨rfl, hne⟩ := mem_buffers_say.mp hb
    exact flatten_mem hne
  before b hb b' hb' := by
    obtain ⟨rfl, -⟩ := mem_buffers_say.mp hb'
    exact .inl (prefix_flatten hb)
  shown b hb hshows := by
    obtain ⟨hwhole, hne⟩ := shows_flatten hb hshows
    exact ⟨ts.flatten, mem_buffers_say.mpr ⟨rfl, hne⟩, hwhole⟩

/-- All but the last in one text. -/
theorem coarser_say_append (ts : List Text) (last : Text) :
    Coarser (buffers [] (ts ++ [last])) (buffers [] (say ts.flatten ++ [last])) := by
  have hcoarser := coarser_say ts
  have hwhole : ts.flatten ++ last = (ts ++ [last]).flatten := by
    rw [List.flatten_append, List.flatten_singleton]
  have hbufs := buffers_append [] ts [last]
  have hbufs' := buffers_append [] (say ts.flatten) [last]
  rw [flatten_say] at hbufs'
  have hlast : ts.flatten ++ last ∈ buffers [] (say ts.flatten ++ [last]) := by
    rw [hbufs']
    exact List.mem_append_right _ List.mem_cons_self
  refine ⟨(buffers_pairwise [] _).1, fun b hb => ?_, fun b hb b' hb' => ?_, fun b hb hshows => ?_⟩
  · rw [hbufs'] at hb
    rw [hbufs]
    exact (List.mem_append.mp hb).elim (fun hb => List.mem_append_left _ (hcoarser.subset b hb))
      (List.mem_append_right _)
  · rw [hbufs] at hb
    rcases List.mem_append.mp hb with hb | hb
    · -- before the last, and the other is all of that or more
      left
      rw [hbufs'] at hb'
      rcases List.mem_append.mp hb' with hb' | hb'
      · obtain ⟨rfl, -⟩ := mem_buffers_say.mp hb'
        exact prefix_flatten hb
      · obtain rfl := List.mem_singleton.mp hb'
        exact (prefix_flatten hb).trans (List.prefix_append _ _)
    · obtain rfl := List.mem_singleton.mp hb
      exact .inr hlast
  · refine ⟨ts.flatten ++ last, hlast, ?_⟩
    rw [hwhole]
    exact (shows_flatten hb hshows).1

/-- The whole stream in one read goes through fewer buffers. -/
theorem coarser_inOne {reads : List Chunk} (h : Unsplit none reads) :
    Coarser (buffers [] (texts none reads)) (buffers [] (texts none (inOne reads))) := by
  rcases texts_inOne reads with hone | ⟨ts, htexts, hone⟩
  · rw [hone, ← flatten_inOne, ← (flatten_eq_iff reads).mpr h]
    exact coarser_say _
  · rw [hone, htexts]
    exact coarser_say_append ts _

/-- The report does not depend on how the output is cut into reads if and only if no
    character with invalid bytes before it is split, and no link. -/
theorem output_chunks (out err : List Chunk) (output : Output out err)
    (whole : Output (inOne out) (inOne err)) :
    SameReport (listen output.events) (listen whole.events) ↔
      Unsplit none out ∧ Unsplit none err ∧ LinkUncut err := by
  obtain ⟨hout, herr, hurl⟩ := listen_eq output.events
  obtain ⟨hout', herr', hurl'⟩ := listen_eq whole.events
  have hpump : ∀ reads, pump [] reads = texts none reads := pump_eq stands_none
  rw [output.stdout, hpump] at hout
  rw [whole.stdout, hpump] at hout'
  rw [output.stderr, hpump] at herr hurl
  rw [whole.stderr, hpump] at herr' hurl'
  unfold SameReport tokenBuffers LinkUncut
  rw [Prod.mk.injEq, hout, hout', herr, herr', hurl, hurl', flatten_eq_iff, flatten_eq_iff,
    and_assoc, hpump, hpump]
  refine and_congr_right' (and_congr_right fun hunsplit => ?_)
  exact (coarser_inOne hunsplit).answer_iff

end

/-- The text of a read, as bytes. -/
def asciiBytes (t : String) : List UInt8 := t.toList.map fun c => UInt8.ofNat c.toNat

/-- A read that ends in the query of the consent link. -/
def cutLink : List Chunk :=
  [⟨asciiBytes "http://a/auth?st", by decide +kernel⟩, ⟨asciiBytes "ate=b ", by decide +kernel⟩]

def cutOutput : Output [] cutLink where
  events := [(.stderr, "http://a/auth?st".toList), (.stderr, "ate=b ".toList)]
  stdout := by decide +kernel
  stderr := by decide +kernel

def wholeOutput : Output (inOne []) (inOne cutLink) where
  events := [(.stderr, "http://a/auth?state=b ".toList)]
  stdout := by decide +kernel
  stderr := by decide +kernel

/-- The URL that is reported is the part of the link before the cut. -/
theorem cutLink_reported :
    (listen cutOutput.events).authUrl = some "http://a/auth?st".toList ∧
      ¬ SameReport (listen cutOutput.events) (listen wholeOutput.events) := by
  decide +kernel

end GnDrive.OAuth
