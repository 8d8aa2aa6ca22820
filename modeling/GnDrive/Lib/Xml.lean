/-
  GnDrive.Lib.Xml

  A reader of XML 1.0 documents, and which texts it gives back as they stand.

  `parse` takes the well-formed documents without an internal subset of the document type.
  Comments and processing instructions are read over; references, sections of character data and
  line ends become what they stand for.  Whatever is read has at least the length of what it is
  read as (`content_size`), and where the lengths are equal every text stands there as it is.
  So a document that was written without any escaping is read back when its texts are `Raw`
  (`parse_write`), and only then (`raw_of_parse`).
-/

import GnDrive.Lib.Cut
import GnDrive.Lib.Text
import Mathlib

namespace GnDrive.Xml

-- ============================================================================
-- Characters
-- ============================================================================

/-- The production `Char`. -/
def isChar (c : Char) : Bool :=
  c = '\t' || c = '\n' || c = '\r' || (0x20 ≤ c.toNat && c.toNat ≠ 0xfffe && c.toNat ≠ 0xffff)

/-- The production `S`. -/
def isSpace (c : Char) : Bool := c = ' ' || c = '\t' || c = '\r' || c = '\n'

def within (ranges : List (Nat × Nat)) (c : Char) : Bool :=
  ranges.any fun (low, high) => low ≤ c.toNat && c.toNat ≤ high

/-- The production `NameStartChar`. -/
def isNameStart (c : Char) : Bool :=
  c = ':' || c = '_' || within [(0x41, 0x5a), (0x61, 0x7a), (0xc0, 0xd6), (0xd8, 0xf6),
    (0xf8, 0x2ff), (0x370, 0x37d), (0x37f, 0x1fff), (0x200c, 0x200d), (0x2070, 0x218f),
    (0x2c00, 0x2fef), (0x3001, 0xd7ff), (0xf900, 0xfdcf), (0xfdf0, 0xfffd),
    (0x10000, 0xeffff)] c

/-- The production `NameChar`. -/
def isNameChar (c : Char) : Bool :=
  isNameStart c ||
    within [(0x2d, 0x2e), (0x30, 0x39), (0xb7, 0xb7), (0x300, 0x36f), (0x203f, 0x2040)] c

/-- The apostrophe is the character 39. -/
def isQuote (c : Char) : Bool := c = '"' || c.toNat = 39

/-- All line ends become line feeds. -/
def normalizeEol : Text → Text
  | [] => []
  | c :: s =>
      if c = '\r' then if s.head? = some '\n' then normalizeEol s else '\n' :: normalizeEol s
      else c :: normalizeEol s

def skipSpace (s : Text) : Text := s.dropWhile isSpace

/-- Behind at least one space. -/
def space (s : Text) : Option Text := if s.head?.any isSpace then some (skipSpace s) else none

def name (s : Text) : Option (Text × Text) :=
  if s.head?.any isNameStart then some (s.takeWhile isNameChar, s.dropWhile isNameChar) else none

-- ============================================================================
-- References
-- ============================================================================

def hexDigit (c : Char) : Option Nat :=
  if c.isDigit then some (c.toNat - 48)
  else if within [(0x61, 0x66)] c then some (c.toNat - 87)
  else if within [(0x41, 0x46)] c then some (c.toNat - 55)
  else none

def charNumber : Text → Option Nat
  | 'x' :: s => if s = [] then none else (s.mapM hexDigit).map (·.foldl (16 * · + ·) 0)
  | s => if s ≠ [] ∧ s.all Char.isDigit then some (Nat.ofDigitChars 10 s 0) else none

/-- What a reference stands for, by what is between `&` and `;`. -/
def entity : Text → Option Char
  | '#' :: s => (charNumber s).bind fun n => if isChar (Char.ofNat n) then some (Char.ofNat n) else none
  | s =>
      ([("amp", '&'), ("lt", '<'), ("gt", '>'), ("quot", '"'), ("apos", Char.ofNat 39)].find?
        (·.1.toList = s)).map (·.2)

/-- Behind a `&`. -/
def reference (s : Text) : Option (Char × Text) :=
  (cutFirst (· = ';') s).bind fun (body, _, rest) => (entity body).map (·, rest)

-- ============================================================================
-- Tags
-- ============================================================================

structure Tag where
  name : Text
  attributes : List (Text × Text)
deriving DecidableEq

/-- A value up to the quote `q`. -/
def value (q : Char) : Nat → Text → Option (Text × Text)
  | 0, _ => none
  | _ + 1, [] => none
  | fuel + 1, c :: s =>
      if c = q then some ([], s)
      else if c = '<' then none
      else if c = '&' then
        (reference s).bind fun (d, s) => (value q fuel s).map fun (v, s) => (d :: v, s)
      else (value q fuel s).map fun (v, s) => ((if isSpace c then ' ' else c) :: v, s)

/-- The production `Eq` and the quote behind it. -/
def openQuote (s : Text) : Option (Char × Text) :=
  match skipSpace s with
  | '=' :: s =>
      match skipSpace s with
      | q :: s => if isQuote q then some (q, s) else none
      | [] => none
  | _ => none

/-- The attributes, and what is behind them and behind spaces. -/
def attributes : Nat → Text → Option (List (Text × Text) × Text)
  | 0, _ => none
  | fuel + 1, s =>
      match name (skipSpace s) with
      | none => some ([], skipSpace s)
      | some (n, r) =>
          if s.head?.any isSpace then
            (openQuote r).bind fun (q, r) =>
            (value q fuel r).bind fun (v, r) =>
            (attributes fuel r).map fun (as, r) => ((n, v) :: as, r)
          else none

/-- Behind a `<`: the tag, and whether it is one of an empty element. -/
def startTag (s : Text) : Option (Tag × Bool × Text) :=
  (name s).bind fun (n, r) =>
  (attributes (r.length + 1) r).bind fun (as, r) =>
    if (as.map Prod.fst).Nodup then
      match r with
      | '>' :: r => some (⟨n, as⟩, false, r)
      | '/' :: '>' :: r => some (⟨n, as⟩, true, r)
      | _ => none
    else none

def endTag (n s : Text) : Option Text :=
  if ("</".toList ++ n).isPrefixOf s then
    match skipSpace (s.drop (n.length + 2)) with
    | '>' :: r => some r
    | _ => none
  else none

-- ============================================================================
-- Content
-- ============================================================================

/-- Content from its first node on.  An element that was written as an empty one is told from
    one without content. -/
inductive Content where
  | done
  | text (t : Text) (next : Content)
  | empty (tag : Tag) (next : Content)
  | element (tag : Tag) (inside next : Content)
deriving DecidableEq

namespace Content

/-- Texts side by side are one. -/
def prepend (t : Text) : Content → Content
  | .text u next => .text (t ++ u) next
  | k => if t = [] then k else .text t k

def texts : Content → List Text
  | .done => []
  | .text t next => t :: next.texts
  | .empty _ next => next.texts
  | .element _ inside next => inside.texts ++ next.texts

/-- The text at the beginning. -/
def lead : Content → Text
  | .text t _ => t
  | _ => []

end Content

/-- Behind `<!--`. -/
def comment (s : Text) : Option Text :=
  (Text.findSplit "--".toList s).bind fun (_, r) =>
    if "-->".toList.isPrefixOf r then some (r.drop 3) else none

/-- Behind `<?`. -/
def instruction (s : Text) : Option Text :=
  (name s).bind fun (n, r) =>
    if n.map Char.toLower = "xml".toList then none
    else if r.head?.any isSpace || "?>".toList.isPrefixOf r then
      (Text.findSplit "?>".toList r).map fun (_, r) => r.drop 2
    else none

/-- Up to an end tag or to the end. -/
def content : Nat → Text → Option (Content × Text)
  | 0, _ => none
  | _ + 1, [] => some (.done, [])
  | fuel + 1, c :: s =>
      if c = '<' then
        if s.head? = some '/' then some (.done, c :: s)
        else if "!--".toList.isPrefixOf s then (comment (s.drop 3)).bind (content fuel)
        else if "![CDATA[".toList.isPrefixOf s then
          (Text.findSplit "]]>".toList (s.drop 8)).bind fun (t, r) =>
          (content fuel (r.drop 3)).map fun (k, r) => (k.prepend t, r)
        else if s.head? = some '?' then (instruction (s.drop 1)).bind (content fuel)
        else
          (startTag s).bind fun (tag, closed, r) =>
            if closed then (content fuel r).map fun (k, r) => (.empty tag k, r)
            else
              (content fuel r).bind fun (inside, r) =>
              (endTag tag.name r).bind fun r =>
              (content fuel r).map fun (k, r) => (.element tag inside k, r)
      else if c = '&' then
        (reference s).bind fun (d, r) => (content fuel r).map fun (k, r) => (k.prepend [d], r)
      else if "]]>".toList.isPrefixOf (c :: s) then none
      else (content fuel s).map fun (k, r) => (k.prepend [c], r)

-- ============================================================================
-- Documents
-- ============================================================================

/-- The production `XMLDecl` has these attributes, in this order. -/
def declares (as : List (Text × Text)) : Bool :=
  match as with
  | (version, v) :: as =>
      version = "version".toList && "1.".toList.isPrefixOf v && (v.drop 2).all Char.isDigit &&
        as.map Prod.fst ∈ [[], ["encoding".toList], ["standalone".toList],
          ["encoding".toList, "standalone".toList]]
  | [] => false

def xmlDecl (s : Text) : Option Text :=
  if "<?xml".toList.isPrefixOf s && (s.drop 5).head?.any isSpace then
    (attributes (s.length + 1) (s.drop 5)).bind fun (as, r) =>
      if declares as && "?>".toList.isPrefixOf r then some (r.drop 2) else none
  else some s

/-- Behind spaces, comments and processing instructions. -/
def misc : Nat → Text → Option Text
  | 0, _ => none
  | fuel + 1, s =>
      if "<!--".toList.isPrefixOf (skipSpace s) then
        (comment ((skipSpace s).drop 4)).bind (misc fuel)
      else if "<?".toList.isPrefixOf (skipSpace s) then
        (instruction ((skipSpace s).drop 2)).bind (misc fuel)
      else some (skipSpace s)

/-- Behind a literal in quotes. -/
def literal : Text → Option Text
  | q :: s => if isQuote q then (cutFirst (· = q) s).map (·.2.2) else none
  | [] => none

/-- Behind the production `ExternalID`, when there is one. -/
def externalId (s : Text) : Option Text :=
  match space s with
  | none => some s
  | some r =>
      if "SYSTEM".toList.isPrefixOf r then (space (r.drop 6)).bind literal
      else if "PUBLIC".toList.isPrefixOf r then
        (space (r.drop 6)).bind fun r => (literal r).bind fun r => (space r).bind literal
      else some r

/-- Behind the type of the document, when there is one. -/
def doctype (s : Text) : Option Text :=
  if "<!DOCTYPE".toList.isPrefixOf s then
    (space (s.drop 9)).bind fun r =>
    (name r).bind fun (_, r) =>
    (externalId r).bind fun r =>
      match skipSpace r with
      | '>' :: r => some r
      | _ => none
  else some s

/-- Nothing but what `misc` reads over. -/
def ended (root : Content) (s : Text) : Option Content :=
  (misc (s.length + 1) s).bind fun r => if r = [] then some root else none

/-- The root element and the end. -/
def rootElement : Text → Option Content
  | '<' :: s =>
      (startTag s).bind fun (tag, closed, r) =>
        if closed then ended (.empty tag .done) r
        else
          (content (r.length + 1) r).bind fun (inside, r) =>
          (endTag tag.name r).bind (ended (.element tag inside .done))
  | _ => none

def prolog (s : Text) : Option Text :=
  (xmlDecl s).bind fun r =>
  (misc (r.length + 1) r).bind fun r =>
  (doctype r).bind fun r => misc (r.length + 1) r

/-- The root element of a well-formed document. -/
def parse (s : Text) : Option Content :=
  if s.all isChar then (prolog (normalizeEol s)).bind rootElement else none

-- ============================================================================
-- How much is read
-- ============================================================================

/-- `r` is the end of `s`, behind at least `n` characters. -/
structure Eats (n : Nat) (s r : Text) : Prop where
  suffix : r <:+ s
  length : n + r.length ≤ s.length

section

variable {n m : Nat} {s r t : Text}

theorem Eats.refl (s : Text) : Eats 0 s s := ⟨List.suffix_rfl, Nat.le_of_eq (Nat.zero_add _)⟩

theorem Eats.trans (h : Eats n s r) (h' : Eats m r t) : Eats (n + m) s t := by
  refine ⟨h'.suffix.trans h.suffix, ?_⟩
  have hn := h.length
  have hm := h'.length
  omega

theorem Eats.mono (h : Eats n s r) (hm : m ≤ n) : Eats m s r :=
  ⟨h.suffix, Nat.le_trans (Nat.add_le_add_right hm _) h.length⟩

theorem Eats.cons (c : Char) (h : Eats n s r) : Eats (n + 1) (c :: s) r := by
  refine ⟨h.suffix.trans (List.suffix_cons c s), ?_⟩
  have hn := h.length
  rw [List.length_cons]
  omega

theorem eats_append (s r : Text) : Eats s.length (s ++ r) r :=
  ⟨List.suffix_append s r, Nat.le_of_eq List.length_append.symm⟩

theorem eats_drop {pat : Text} (h : pat.isPrefixOf s = true) : Eats pat.length s (s.drop pat.length) := by
  obtain ⟨r, rfl⟩ := List.isPrefixOf_iff_prefix.mp h
  rw [List.drop_left]
  exact eats_append pat r

theorem eats_skipSpace (s : Text) : Eats 0 s (skipSpace s) := by
  refine ⟨List.dropWhile_suffix isSpace, ?_⟩
  rw [Nat.zero_add]
  exact (List.dropWhile_suffix isSpace).length_le

theorem eats_space_of_head (h : s.head?.any isSpace = true) : Eats 1 s (skipSpace s) := by
  cases s with
  | nil => cases h
  | cons c s =>
    have hskip : skipSpace (c :: s) = skipSpace s := List.dropWhile_cons_of_pos h
    rw [hskip]
    exact (eats_skipSpace s).cons c

theorem eats_name {w : Text} (h : name s = some (w, r)) : Eats w.length s r := by
  unfold name at h
  split at h
  · obtain ⟨rfl, rfl⟩ := Prod.mk.inj (Option.some.inj h)
    have happ := eats_append (s.takeWhile isNameChar) (s.dropWhile isNameChar)
    rw [List.takeWhile_append_dropWhile] at happ
    exact happ
  · cases h

theorem eats_reference {c : Char} (h : reference s = some (c, r)) : Eats 2 s r := by
  unfold reference at h
  obtain ⟨⟨body, d, rest⟩, hcut, hentity⟩ := Option.bind_eq_some_iff.mp h
  obtain ⟨e, hbody, heq⟩ := Option.map_eq_some_iff.mp hentity
  obtain ⟨rfl, rfl⟩ := Prod.mk.inj heq
  obtain ⟨rfl, -, -⟩ := cutFirst_eq_some.mp hcut
  cases body with
  | nil => cases hbody
  | cons b body =>
    have hcons := ((eats_append body (d :: rest)).trans ((Eats.refl rest).cons d)).cons b
    exact hcons.mono (by omega)

theorem eats_value {q : Char} {fuel : Nat} {v : Text} (h : value q fuel s = some (v, r)) :
    Eats (v.length + 1) s r := by
  induction fuel generalizing s v with
  | zero => cases h
  | succ fuel ih =>
    cases s with
    | nil => cases h
    | cons c s =>
      unfold value at h
      split at h
      · obtain ⟨rfl, rfl⟩ := Prod.mk.inj (Option.some.inj h)
        exact (Eats.refl s).cons c
      · split at h
        · cases h
        · split at h
          · obtain ⟨⟨d, s'⟩, href, hmap⟩ := Option.bind_eq_some_iff.mp h
            obtain ⟨⟨v', r'⟩, hvalue, heq⟩ := Option.map_eq_some_iff.mp hmap
            obtain ⟨rfl, rfl⟩ := Prod.mk.inj heq
            refine (((eats_reference href).trans (ih hvalue)).cons c).mono ?_
            rw [List.length_cons]
            omega
          · obtain ⟨⟨v', r'⟩, hvalue, heq⟩ := Option.map_eq_some_iff.mp h
            obtain ⟨rfl, rfl⟩ := Prod.mk.inj heq
            exact (ih hvalue).cons c

theorem eats_openQuote {q : Char} (h : openQuote s = some (q, r)) : Eats 2 s r := by
  unfold openQuote at h
  split at h
  · rename_i s' heq
    split at h
    · rename_i q' r' hquote
      split at h
      · obtain ⟨rfl, rfl⟩ := Prod.mk.inj (Option.some.inj h)
        have hfirst := eats_skipSpace s
        have hsecond := eats_skipSpace s'
        rw [heq] at hfirst
        rw [hquote] at hsecond
        exact (hfirst.trans ((hsecond.trans ((Eats.refl r').cons q')).cons '=')).mono (by omega)
      · cases h
    · cases h
  · cases h

/-- The least length of attributes. -/
def attributesSize (as : List (Text × Text)) : Nat :=
  (as.map fun (n, v) => n.length + v.length + 4).sum

theorem eats_attributes {fuel : Nat} {as : List (Text × Text)}
    (h : attributes fuel s = some (as, r)) : Eats (attributesSize as) s r := by
  induction fuel generalizing s as with
  | zero => cases h
  | succ fuel ih =>
    unfold attributes at h
    split at h
    · obtain ⟨rfl, rfl⟩ := Prod.mk.inj (Option.some.inj h)
      exact eats_skipSpace s
    · rename_i w r₁ hname
      split at h
      · rename_i hspace
        obtain ⟨⟨q, r₂⟩, hquote, h⟩ := Option.bind_eq_some_iff.mp h
        obtain ⟨⟨v, r₃⟩, hvalue, h⟩ := Option.bind_eq_some_iff.mp h
        obtain ⟨⟨as', r₄⟩, hrest, heq⟩ := Option.map_eq_some_iff.mp h
        obtain ⟨rfl, rfl⟩ := Prod.mk.inj heq
        have hall := (eats_space_of_head hspace).trans ((eats_name hname).trans
          ((eats_openQuote hquote).trans ((eats_value hvalue).trans (ih hrest))))
        refine hall.mono ?_
        simp only [attributesSize, List.map_cons, List.sum_cons]
        omega
      · cases h

def Tag.size (tag : Tag) : Nat := tag.name.length + attributesSize tag.attributes

theorem eats_startTag {tag : Tag} {closed : Bool} (h : startTag s = some (tag, closed, r)) :
    Eats (tag.size + if closed then 2 else 1) s r := by
  unfold startTag at h
  obtain ⟨⟨w, r₁⟩, hname, h⟩ := Option.bind_eq_some_iff.mp h
  obtain ⟨⟨as, r₂⟩, hattributes, h⟩ := Option.bind_eq_some_iff.mp h
  have hboth := (eats_name hname).trans (eats_attributes hattributes)
  dsimp only at h
  split at h
  · split at h
    · obtain ⟨rfl, rfl, rfl⟩ := by simpa using h
      exact hboth.trans ((Eats.refl _).cons '>')
    · obtain ⟨rfl, rfl, rfl⟩ := by simpa using h
      exact hboth.trans (((Eats.refl _).cons '>').cons '/')
    · cases h
  · cases h

theorem eats_endTag {w : Text} (h : endTag w s = some r) : Eats (w.length + 3) s r := by
  unfold endTag at h
  split at h
  · rename_i hprefix
    split at h
    · rename_i r' hskip
      obtain rfl := Option.some.inj h
      have hdrop := eats_drop hprefix
      have hlength : ("</".toList ++ w).length = w.length + 2 := by
        rw [List.length_append, Nat.add_comm]
        rfl
      rw [hlength] at hdrop
      have hspace := eats_skipSpace (s.drop (w.length + 2))
      rw [hskip] at hspace
      exact (hdrop.trans (hspace.trans ((Eats.refl _).cons '>'))).mono (by omega)
    · cases h
  · cases h

theorem eats_findSplit {pat before : Text} (h : Text.findSplit pat s = some (before, r)) :
    Eats before.length s r ∧ pat.isPrefixOf r = true := by
  induction s generalizing before with
  | nil =>
    unfold Text.findSplit at h
    split at h
    · rename_i hpat
      obtain ⟨rfl, rfl⟩ := Prod.mk.inj (Option.some.inj h)
      rw [hpat]
      exact ⟨Eats.refl _, rfl⟩
    · cases h
  | cons c s ih =>
    unfold Text.findSplit at h
    split at h
    · rename_i hprefix
      obtain ⟨rfl, rfl⟩ := Prod.mk.inj (Option.some.inj h)
      exact ⟨Eats.refl _, hprefix⟩
    · obtain ⟨⟨before', r'⟩, hfind, heq⟩ := Option.map_eq_some_iff.mp h
      obtain ⟨rfl, rfl⟩ := Prod.mk.inj heq
      obtain ⟨heats, hprefix⟩ := ih hfind
      exact ⟨heats.cons c, hprefix⟩

theorem eats_comment (h : comment s = some r) : Eats 3 s r := by
  unfold comment at h
  obtain ⟨⟨before, r₁⟩, hfind, h⟩ := Option.bind_eq_some_iff.mp h
  dsimp only at h
  split at h
  · rename_i hclose
    obtain rfl := Option.some.inj h
    exact ((eats_findSplit hfind).1.trans (eats_drop hclose)).mono (Nat.le_add_left 3 _)
  · cases h

theorem eats_instruction (h : instruction s = some r) : Eats 2 s r := by
  unfold instruction at h
  obtain ⟨⟨target, r₁⟩, hname, h⟩ := Option.bind_eq_some_iff.mp h
  dsimp only at h
  split at h
  · cases h
  · split at h
    · obtain ⟨⟨before, r₂⟩, hfind, rfl⟩ := Option.map_eq_some_iff.mp h
      obtain ⟨heats, hclose⟩ := eats_findSplit hfind
      refine ((eats_name hname).trans (heats.trans (eats_drop hclose))).mono ?_
      have htwo : "?>".toList.length = 2 := rfl
      omega
    · cases h

/-- What content is read as, by what it begins with. -/
inductive Reads (fuel : Nat) : Text → Content → Text → Prop where
  | stop {s : Text} : Reads fuel s .done s
  /-- A comment or a processing instruction. -/
  | skipped {s r rest : Text} {k : Content} :
      Eats 1 s r → content fuel r = some (k, rest) → Reads fuel s k rest
  /-- A reference or a section of character data: it is longer than what it stands for. -/
  | standsFor {s r rest t : Text} {k : Content} :
      Eats (t.length + 1) s r → content fuel r = some (k, rest) → Reads fuel s (k.prepend t) rest
  | char {s rest : Text} {c : Char} {k : Content} :
      c ≠ '<' → c ≠ '&' → "]]>".toList.isPrefixOf (c :: s) = false →
      content fuel s = some (k, rest) → Reads fuel (c :: s) (k.prepend [c]) rest
  | empty {s r rest : Text} {tag : Tag} {k : Content} :
      Eats (tag.size + 3) s r → content fuel r = some (k, rest) → Reads fuel s (.empty tag k) rest
  | element {s r₁ r₂ r₃ rest : Text} {tag : Tag} {inside k : Content} :
      Eats (tag.size + 2) s r₁ → content fuel r₁ = some (inside, r₂) →
      Eats (tag.name.length + 3) r₂ r₃ → content fuel r₃ = some (k, rest) →
      Reads fuel s (.element tag inside k) rest

theorem content_reads {fuel : Nat} {k : Content} {rest : Text}
    (h : content (fuel + 1) s = some (k, rest)) : Reads fuel s k rest := by
  cases s with
  | nil =>
    obtain ⟨rfl, rfl⟩ := Prod.mk.inj (Option.some.inj h)
    exact .stop
  | cons c s =>
    unfold content at h
    by_cases hmarkup : c = '<'
    · rw [if_pos hmarkup] at h
      split at h
      · obtain ⟨rfl, rfl⟩ := Prod.mk.inj (Option.some.inj h)
        exact .stop
      split at h
      · rename_i hopen
        obtain ⟨r, hcomment, hrest⟩ := Option.bind_eq_some_iff.mp h
        exact .skipped ((((eats_drop hopen).trans (eats_comment hcomment)).cons c).mono (by omega)) hrest
      split at h
      · rename_i hopen
        obtain ⟨⟨t, r⟩, hfind, h⟩ := Option.bind_eq_some_iff.mp h
        obtain ⟨⟨k', r'⟩, hrest, heq⟩ := Option.map_eq_some_iff.mp h
        obtain ⟨rfl, rfl⟩ := Prod.mk.inj heq
        obtain ⟨heats, hclose⟩ := eats_findSplit hfind
        have hall := (((eats_drop hopen).trans (heats.trans (eats_drop hclose))).cons c)
        exact .standsFor (hall.mono (by omega)) hrest
      split at h
      · obtain ⟨r, hinstruction, hrest⟩ := Option.bind_eq_some_iff.mp h
        have hdrop : Eats 0 s (s.drop 1) :=
          ⟨List.drop_suffix 1 s, by rw [List.length_drop]; omega⟩
        exact .skipped (((hdrop.trans (eats_instruction hinstruction)).cons c).mono (by omega)) hrest
      · obtain ⟨⟨tag, closed, r⟩, htag, h⟩ := Option.bind_eq_some_iff.mp h
        have heats := (eats_startTag htag).cons c
        cases closed with
        | true =>
          obtain ⟨⟨k', r'⟩, hrest, heq⟩ := Option.map_eq_some_iff.mp h
          obtain ⟨rfl, rfl⟩ := Prod.mk.inj heq
          exact .empty heats hrest
        | false =>
          obtain ⟨⟨inside, r₂⟩, hinside, h⟩ := Option.bind_eq_some_iff.mp h
          obtain ⟨r₃, hend, h⟩ := Option.bind_eq_some_iff.mp h
          obtain ⟨⟨k', r'⟩, hrest, heq⟩ := Option.map_eq_some_iff.mp h
          obtain ⟨rfl, rfl⟩ := Prod.mk.inj heq
          exact .element heats hinside (eats_endTag hend) hrest
    rw [if_neg hmarkup] at h
    by_cases hreference : c = '&'
    · rw [if_pos hreference] at h
      obtain ⟨⟨d, r⟩, href, h⟩ := Option.bind_eq_some_iff.mp h
      obtain ⟨⟨k', r'⟩, hrest, heq⟩ := Option.map_eq_some_iff.mp h
      obtain ⟨rfl, rfl⟩ := Prod.mk.inj heq
      exact .standsFor (((eats_reference href).cons c).mono (Nat.le_succ 2)) hrest
    rw [if_neg hreference] at h
    split at h
    · cases h
    · rename_i hclose
      obtain ⟨⟨k', r'⟩, hrest, heq⟩ := Option.map_eq_some_iff.mp h
      obtain ⟨rfl, rfl⟩ := Prod.mk.inj heq
      exact .char hmarkup hreference (Bool.eq_false_iff.mpr hclose) hrest

end

-- ============================================================================
-- What is read as it stands
-- ============================================================================

/-- The text is of characters of `s` and needs no escaping. -/
structure Raw (s t : Text) : Prop where
  within : ∀ c ∈ t, c ∈ s
  plain : ∀ c ∈ t, c ≠ '<' ∧ c ≠ '&'
  unended : ¬"]]>".toList <:+: t

theorem Raw.mono {s s' t : Text} (h : Raw s t) (hsub : s ⊆ s') : Raw s' t :=
  ⟨fun c hc => hsub (h.within c hc), h.plain, h.unended⟩

theorem raw_nil (s : Text) : Raw s [] := by
  refine ⟨nofun, nofun, fun h => ?_⟩
  have hnil := List.infix_nil.mp h
  cases hnil

/-- A character in front of a text, both as they stand in `c :: s`. -/
theorem Raw.cons {s t : Text} {c : Char} (h : Raw s t) (hlead : t <+: s) (hmarkup : c ≠ '<')
    (hreference : c ≠ '&') (hclose : "]]>".toList.isPrefixOf (c :: s) = false) :
    Raw (c :: s) (c :: t) := by
  refine ⟨?_, List.forall_mem_cons.mpr ⟨⟨hmarkup, hreference⟩, h.plain⟩, fun hwithin => ?_⟩
  · intro d hd
    rcases List.mem_cons.mp hd with rfl | hd
    · exact List.mem_cons_self
    · exact List.mem_cons_of_mem _ (h.within d hd)
  · rcases List.infix_cons_iff.mp hwithin with hprefix | hwithin
    · have hlong := hprefix.trans ((List.prefix_cons_inj c).mpr hlead)
      rw [← List.isPrefixOf_iff_prefix, hclose] at hlong
      cases hlong
    · exact h.unended hwithin

namespace Content

def size : Content → Nat
  | .done => 0
  | .text t next => t.length + next.size
  | .empty tag next => tag.size + 3 + next.size
  | .element tag inside next => tag.size + tag.name.length + 5 + inside.size + next.size

theorem size_prepend (t : Text) (k : Content) : (k.prepend t).size = t.length + k.size := by
  unfold prepend
  split
  · simp only [size, List.length_append]
    omega
  · split
    · rename_i ht
      rw [ht, List.length_nil, Nat.zero_add]
    · rfl

theorem lead_prepend (t : Text) (k : Content) : (k.prepend t).lead = t ++ k.lead := by
  cases k with
  | text u next => rfl
  | _ =>
    unfold prepend
    dsimp only
    by_cases ht : t = []
    · rw [if_pos ht, ht]
      rfl
    · rw [if_neg ht]
      exact (List.append_nil t).symm

theorem mem_texts_prepend {t u : Text} {k : Content} (h : u ∈ (k.prepend t).texts) :
    u ∈ k.texts ∨ u = t ++ k.lead := by
  cases k with
  | text v next =>
    rcases List.mem_cons.mp h with rfl | h
    · exact .inr rfl
    · exact .inl (List.mem_cons_of_mem _ h)
  | _ =>
    unfold prepend at h
    dsimp only at h
    by_cases ht : t = []
    · rw [if_pos ht] at h
      exact .inl h
    · rw [if_neg ht] at h
      rcases List.mem_cons.mp h with rfl | h
      · exact .inr (List.append_nil _).symm
      · exact .inl h

theorem lead_mem (k : Content) : k.lead = [] ∨ k.lead ∈ k.texts := by
  cases k with
  | text t next => exact .inr List.mem_cons_self
  | _ => exact .inl rfl

end Content

/-- What is read is no shorter than what it is read as; where it is as long, the texts stand there
    as they are. -/
theorem content_size {fuel : Nat} {s rest : Text} {k : Content}
    (h : content fuel s = some (k, rest)) :
    Eats k.size s rest ∧
      (k.size + rest.length = s.length → (∀ t ∈ k.texts, Raw s t) ∧ k.lead <+: s) := by
  induction fuel generalizing s k rest with
  | zero => cases h
  | succ fuel ih =>
    cases content_reads h with
    | stop => exact ⟨Eats.refl s, fun _ => ⟨nofun, List.nil_prefix⟩⟩
    | skipped heats hrest =>
      obtain ⟨hsize, -⟩ := ih hrest
      have hall := heats.trans hsize
      refine ⟨hall.mono (by omega), fun heq => ?_⟩
      have hlength := hall.length
      omega
    | @standsFor _ r _ t k heats hrest =>
      obtain ⟨hsize, -⟩ := ih hrest
      have hall := heats.trans hsize
      rw [Content.size_prepend]
      refine ⟨hall.mono (by omega), fun heq => ?_⟩
      have hlength := hall.length
      omega
    | @char s _ c k hmarkup hreference hclose hrest =>
      obtain ⟨hsize, hraw⟩ := ih hrest
      rw [Content.size_prepend, Content.lead_prepend]
      refine ⟨(hsize.cons c).mono (Nat.le_of_eq (Nat.add_comm 1 _)), fun heq => ?_⟩
      rw [List.length_singleton, List.length_cons] at heq
      obtain ⟨htexts, hlead⟩ := hraw (by omega)
      have hfirst : Raw s k.lead := by
        rcases k.lead_mem with hnil | hmem
        · rw [hnil]
          exact raw_nil s
        · exact htexts _ hmem
      refine ⟨fun t ht => ?_, (List.prefix_cons_inj c).mpr hlead⟩
      rcases Content.mem_texts_prepend ht with ht | rfl
      · exact (htexts t ht).mono (List.subset_cons_self c s)
      · exact hfirst.cons hlead hmarkup hreference hclose
    | @empty _ r _ tag k heats hrest =>
      obtain ⟨hsize, hraw⟩ := ih hrest
      refine ⟨heats.trans hsize, fun heq => ⟨fun t ht => ?_, List.nil_prefix⟩⟩
      have hfirst := heats.length
      have hsecond := hsize.length
      simp only [Content.size] at heq
      exact ((hraw (by omega)).1 t ht).mono heats.suffix.subset
    | @element _ r₁ r₂ r₃ _ tag inside k heats hinside hend hrest =>
      obtain ⟨hsize, hraw⟩ := ih hinside
      obtain ⟨hsize', hraw'⟩ := ih hrest
      have hall := heats.trans (hsize.trans (hend.trans hsize'))
      simp only [Content.size]
      refine ⟨hall.mono (by omega), fun heq => ⟨fun t ht => ?_, List.nil_prefix⟩⟩
      have h₁ := heats.length
      have h₂ := hsize.length
      have h₃ := hend.length
      have h₄ := hsize'.length
      rcases List.mem_append.mp ht with ht | ht
      · exact ((hraw (by omega)).1 t ht).mono heats.suffix.subset
      · refine ((hraw' (by omega)).1 t ht).mono ?_
        exact (hend.suffix.trans (hsize.suffix.trans heats.suffix)).subset

theorem misc_suffix {fuel : Nat} {s r : Text} (h : misc fuel s = some r) : r <:+ s := by
  induction fuel generalizing s with
  | zero => cases h
  | succ fuel ih =>
    have hskip := (eats_skipSpace s).suffix
    unfold misc at h
    split at h
    · obtain ⟨r₁, hcomment, hrest⟩ := Option.bind_eq_some_iff.mp h
      have hdrop := List.drop_suffix 4 (skipSpace s)
      exact (ih hrest).trans ((eats_comment hcomment).suffix.trans (hdrop.trans hskip))
    · split at h
      · obtain ⟨r₁, hinstruction, hrest⟩ := Option.bind_eq_some_iff.mp h
        have hdrop := List.drop_suffix 2 (skipSpace s)
        exact (ih hrest).trans ((eats_instruction hinstruction).suffix.trans (hdrop.trans hskip))
      · rw [← Option.some.inj h]
        exact hskip

/-- The same of a root element. -/
theorem rootElement_size {s : Text} {root : Content} (h : rootElement s = some root) :
    root.size ≤ s.length ∧ (root.size = s.length → ∀ t ∈ root.texts, Raw s t) := by
  have hended : ∀ {k root : Content} {r : Text}, ended k r = some root → root = k := by
    intro k root r h
    unfold ended at h
    obtain ⟨r', -, h⟩ := Option.bind_eq_some_iff.mp h
    split at h
    · exact (Option.some.inj h).symm
    · cases h
  unfold rootElement at h
  split at h
  · rename_i s
    obtain ⟨⟨tag, closed, r⟩, htag, h⟩ := Option.bind_eq_some_iff.mp h
    have heats := (eats_startTag htag).cons '<'
    cases closed with
    | true =>
      obtain rfl := hended h
      exact ⟨Nat.le_trans (Nat.le_add_right _ _) heats.length, fun _ => nofun⟩
    | false =>
      obtain ⟨⟨inside, r₂⟩, hinside, h⟩ := Option.bind_eq_some_iff.mp h
      obtain ⟨r₃, hend, h⟩ := Option.bind_eq_some_iff.mp h
      obtain rfl := hended h
      obtain ⟨hsize, hraw⟩ := content_size hinside
      have hall := heats.trans (hsize.trans (eats_endTag hend))
      have h₁ := heats.length
      have h₂ := hsize.length
      have h₃ := (eats_endTag hend).length
      simp only [Bool.false_eq_true, if_false] at h₁
      simp only [Content.size]
      refine ⟨by omega, fun heq t ht => ?_⟩
      rw [Content.texts, Content.texts, List.append_nil] at ht
      exact ((hraw (by omega)).1 t ht).mono heats.suffix.subset
  · cases h

-- ============================================================================
-- Writing
-- ============================================================================

/-- In front of `s`. -/
def writeAttributes : List (Text × Text) → Text → Text
  | [], s => s
  | (n, v) :: as, s => ' ' :: (n ++ '=' :: '"' :: (v ++ '"' :: writeAttributes as s))

def Tag.write (tag : Tag) (s : Text) : Text := tag.name ++ writeAttributes tag.attributes s

def Tag.writeEnd (tag : Tag) (s : Text) : Text := '<' :: '/' :: (tag.name ++ '>' :: s)

/-- Texts as they are, in front of `s`. -/
def Content.write : Content → Text → Text
  | .done, s => s
  | .text t next, s => t ++ next.write s
  | .empty tag next, s => '<' :: tag.write ('/' :: '>' :: next.write s)
  | .element tag inside next, s =>
      '<' :: tag.write ('>' :: inside.write (tag.writeEnd (next.write s)))

def isName (n : Text) : Bool := n.head?.any isNameStart && n.all isNameChar

/-- A character that can stand in a value as it is. -/
def valueChar (c : Char) : Bool :=
  isChar c && c ≠ '"' && c ≠ '<' && c ≠ '&' && (c = ' ' || !isSpace c)

/-- Attributes that can be written without escaping. -/
def Tag.valid (tag : Tag) : Bool :=
  isName tag.name && (tag.attributes.map Prod.fst).Nodup &&
    tag.attributes.all fun (n, v) =>
      isName n && v.all valueChar

/-- No text is empty, no two are side by side, and all tags are valid. -/
def Content.Shape : Content → Prop
  | .done => True
  | .text t next => t ≠ [] ∧ next.lead = [] ∧ next.Shape
  | .empty tag next => tag.valid = true ∧ next.Shape
  | .element tag inside next => tag.valid = true ∧ inside.Shape ∧ next.Shape

section

variable {n r s t v : Text} {as : List (Text × Text)} {tag : Tag}

theorem length_writeAttributes (as : List (Text × Text)) (s : Text) :
    (writeAttributes as s).length = attributesSize as + s.length := by
  induction as with
  | nil => exact (Nat.zero_add _).symm
  | cons a as ih =>
    obtain ⟨n, v⟩ := a
    simp only [writeAttributes, List.length_cons, List.length_append, ih, attributesSize,
      List.map_cons, List.sum_cons]
    omega

/-- The size is the length of what is written. -/
theorem Content.length_write (k : Content) (s : Text) :
    (k.write s).length = k.size + s.length := by
  induction k generalizing s with
  | done => exact (Nat.zero_add _).symm
  | text t next ih =>
    simp only [write, size, List.length_append, ih]
    omega
  | empty tag next ih =>
    simp only [write, size, Tag.write, Tag.size, List.length_cons, List.length_append,
      length_writeAttributes, ih]
    omega
  | element tag inside next ihinside ih =>
    simp only [write, size, Tag.write, Tag.writeEnd, Tag.size, List.length_cons,
      List.length_append, length_writeAttributes, ihinside, ih]
    omega

theorem isNameChar_of_start {c : Char} (h : isNameStart c = true) : isNameChar c = true := by
  unfold isNameChar
  rw [h, Bool.true_or]

theorem ne_of_start {c d : Char} (hc : isNameStart c = true) (hd : isNameStart d = false) :
    c ≠ d := by
  rintro rfl
  rw [hc] at hd
  cases hd

theorem not_space_of_start {c : Char} (h : isNameStart c = true) : isSpace c = false := by
  rw [← Bool.not_eq_true]
  intro hspace
  simp only [isSpace, Bool.or_eq_true, decide_eq_true_eq] at hspace
  rcases hspace with ((hc | hc) | hc) | hc
  all_goals exact ne_of_start h (by decide) hc

/-- A name begins as names do, whatever is behind it. -/
theorem start_append (hn : isName n = true) (s : Text) :
    ∃ c, (n ++ s).head? = some c ∧ isNameStart c = true := by
  obtain ⟨hstart, -⟩ := (Bool.and_eq_true _ _).mp hn
  cases n with
  | nil => cases hstart
  | cons c n => exact ⟨c, rfl, hstart⟩

theorem name_append (hn : isName n = true) (hr : ∀ c ∈ r.head?, isNameChar c = false) :
    name (n ++ r) = some (n, r) := by
  have hall := List.all_eq_true.mp ((Bool.and_eq_true _ _).mp hn).2
  have htake : r.takeWhile isNameChar = [] ∧ r.dropWhile isNameChar = r := by
    cases r with
    | nil => exact ⟨rfl, rfl⟩
    | cons c r =>
      have hc : ¬isNameChar c = true := by
        rw [hr c rfl]
        exact Bool.false_ne_true
      exact ⟨List.takeWhile_cons_of_neg hc, List.dropWhile_cons_of_neg hc⟩
  have hhead : (n ++ r).head?.any isNameStart = true := by
    obtain ⟨c, hc, hstart⟩ := start_append hn r
    rw [hc]
    exact hstart
  unfold name
  rw [if_pos hhead, List.takeWhile_append_of_pos hall, List.dropWhile_append_of_pos hall, htake.1,
    htake.2, List.append_nil]

theorem name_none (hs : ∀ c ∈ s.head?, isNameChar c = false) : name s = none := by
  unfold name
  cases s with
  | nil => rfl
  | cons c s =>
    have hc : isNameStart c = false := by
      have hchar := hs c rfl
      unfold isNameChar at hchar
      exact (Bool.or_eq_false_iff.mp hchar).1
    rw [List.head?_cons, Option.any_some, hc, if_neg Bool.false_ne_true]

theorem skipSpace_of_head (hs : ∀ c ∈ s.head?, isSpace c = false) : skipSpace s = s := by
  unfold skipSpace
  cases s with
  | nil => rfl
  | cons c s =>
    refine List.dropWhile_cons_of_neg ?_
    rw [hs c rfl]
    exact Bool.false_ne_true

theorem value_append {fuel : Nat} (hv : v.all valueChar = true) (hfuel : v.length < fuel) :
    value '"' fuel (v ++ '"' :: s) = some (v, s) := by
  induction v generalizing fuel with
  | nil =>
    obtain ⟨fuel, rfl⟩ : ∃ f, fuel = f + 1 := ⟨fuel - 1, by simp at hfuel; omega⟩
    unfold value
    exact if_pos rfl
  | cons c v ih =>
    obtain ⟨fuel, rfl⟩ : ∃ f, fuel = f + 1 := ⟨fuel - 1, by simp at hfuel; omega⟩
    rw [List.all_cons, Bool.and_eq_true] at hv
    obtain ⟨hc, hv⟩ := hv
    simp only [valueChar, Bool.and_eq_true, Bool.or_eq_true, decide_eq_true_eq,
      Bool.not_eq_true'] at hc
    obtain ⟨⟨⟨⟨-, hquote⟩, hmarkup⟩, hreference⟩, hspace⟩ := hc
    have hkept : (if isSpace c = true then ' ' else c) = c := by
      rcases hspace with rfl | hspace
      · rfl
      · rw [hspace]
        rfl
    rw [List.length_cons] at hfuel
    rw [List.cons_append]
    unfold value
    rw [if_neg hquote, if_neg hmarkup, if_neg hreference, ih hv (by omega), Option.map_some, hkept]

/-- What a tag goes on with behind its attributes. -/
def Stops (s : Text) : Prop := ∀ c ∈ s.head?, isNameChar c = false ∧ isSpace c = false

theorem attributes_write {fuel : Nat}
    (has : as.all (fun (n, v) => isName n && v.all valueChar) = true) (hs : Stops s) (hfuel : attributesSize as < fuel) :
    attributes fuel (writeAttributes as s) = some (as, s) := by
  induction as generalizing fuel with
  | nil =>
    obtain ⟨fuel, rfl⟩ : ∃ f, fuel = f + 1 := ⟨fuel - 1, by omega⟩
    unfold attributes writeAttributes
    rw [skipSpace_of_head fun c hc => (hs c hc).2, name_none fun c hc => (hs c hc).1]
  | cons a as ih =>
    obtain ⟨n, v⟩ := a
    obtain ⟨fuel, rfl⟩ : ∃ f, fuel = f + 1 := ⟨fuel - 1, by omega⟩
    rw [List.all_cons, Bool.and_eq_true] at has
    obtain ⟨ha, has⟩ := has
    obtain ⟨hn, hv⟩ := (Bool.and_eq_true _ _).mp ha
    simp only [attributesSize, List.map_cons, List.sum_cons] at hfuel
    have hstart : skipSpace (' ' :: (n ++ '=' :: '"' :: (v ++ '"' :: writeAttributes as s))) =
        n ++ '=' :: '"' :: (v ++ '"' :: writeAttributes as s) := by
      refine (List.dropWhile_cons_of_pos rfl).trans (skipSpace_of_head fun c hc => ?_)
      obtain ⟨d, hd, hstart⟩ := start_append hn ('=' :: '"' :: (v ++ '"' :: writeAttributes as s))
      obtain rfl := Option.some.inj (hd.symm.trans hc)
      exact not_space_of_start hstart
    have hname : name (n ++ '=' :: '"' :: (v ++ '"' :: writeAttributes as s)) =
        some (n, '=' :: '"' :: (v ++ '"' :: writeAttributes as s)) := by
      refine name_append hn fun c hc => ?_
      obtain rfl := Option.some.inj hc
      decide
    have hquote : openQuote ('=' :: '"' :: (v ++ '"' :: writeAttributes as s)) =
        some ('"', v ++ '"' :: writeAttributes as s) := rfl
    unfold attributes writeAttributes
    rw [hstart, hname]
    dsimp only
    have hspace : (' ' :: (n ++ '=' :: '"' :: (v ++ '"' :: writeAttributes as s))).head?.any
        isSpace = true := rfl
    rw [if_pos hspace, hquote, Option.bind_some]
    dsimp only
    rw [value_append hv (by omega), Option.bind_some]
    dsimp only
    rw [ih has (by simp only [attributesSize]; omega), Option.map_some]

theorem tag_write (htag : tag.valid = true) (hs : Stops s) :
    name (tag.write s) = some (tag.name, writeAttributes tag.attributes s) ∧
      attributes ((writeAttributes tag.attributes s).length + 1)
        (writeAttributes tag.attributes s) = some (tag.attributes, s) ∧
      (tag.attributes.map Prod.fst).Nodup := by
  simp only [Tag.valid, Bool.and_eq_true, decide_eq_true_eq] at htag
  obtain ⟨⟨hname, hnodup⟩, hall⟩ := htag
  refine ⟨name_append hname fun c hc => ?_, ?_, hnodup⟩
  · cases has : tag.attributes with
    | nil =>
      rw [has] at hc
      exact (hs c hc).1
    | cons a as =>
      rw [has] at hc
      obtain rfl := Option.some.inj hc
      decide
  · refine attributes_write (List.all_eq_true.mpr fun a ha => ?_) hs ?_
    · exact List.all_eq_true.mp hall a ha
    · rw [length_writeAttributes]
      omega

theorem startTag_write (htag : tag.valid = true) :
    startTag (tag.write ('>' :: s)) = some (tag, false, s) := by
  have hstops : Stops ('>' :: s) := by
    intro c hc
    obtain rfl := Option.some.inj hc
    decide
  obtain ⟨hname, hattributes, hnodup⟩ := tag_write htag hstops
  unfold startTag
  rw [hname, Option.bind_some]
  dsimp only
  rw [hattributes, Option.bind_some]
  dsimp only
  rw [if_pos hnodup]
  rfl

theorem startTag_writeEmpty (htag : tag.valid = true) :
    startTag (tag.write ('/' :: '>' :: s)) = some (tag, true, s) := by
  have hstops : Stops ('/' :: '>' :: s) := by
    intro c hc
    obtain rfl := Option.some.inj hc
    decide
  obtain ⟨hname, hattributes, hnodup⟩ := tag_write htag hstops
  unfold startTag
  rw [hname, Option.bind_some]
  dsimp only
  rw [hattributes, Option.bind_some]
  dsimp only
  rw [if_pos hnodup]
  rfl

theorem endTag_write : endTag tag.name (tag.writeEnd s) = some s := by
  have hprefix : ("</".toList ++ tag.name).isPrefixOf (tag.writeEnd s) = true :=
    List.isPrefixOf_iff_prefix.mpr ⟨'>' :: s, by simp [Tag.writeEnd]⟩
  have hdrop : (tag.writeEnd s).drop (tag.name.length + 2) = '>' :: s := by
    simp [Tag.writeEnd]
  unfold endTag
  rw [if_pos hprefix, hdrop]
  rfl

/-- A name opens a tag, no other markup. -/
theorem content_tag {fuel : Nat} (hs : s.head?.any isNameStart = true) :
    content (fuel + 1) ('<' :: s) =
      (startTag s).bind fun (tag, closed, r) =>
        if closed then (content fuel r).map fun (k, r) => (.empty tag k, r)
        else
          (content fuel r).bind fun (inside, r) =>
          (endTag tag.name r).bind fun r =>
          (content fuel r).map fun (k, r) => (.element tag inside k, r) := by
  cases s with
  | nil => cases hs
  | cons c s =>
    have hslash : ¬(c :: s).head? = some '/' := fun h =>
      ne_of_start hs (by decide) (Option.some.inj h)
    have hquestion : ¬(c :: s).head? = some '?' := fun h =>
      ne_of_start hs (by decide) (Option.some.inj h)
    have hbang : ∀ pat : Text, pat.head? = some '!' → ¬pat.isPrefixOf (c :: s) = true := by
      intro pat hpat h
      obtain ⟨u, hu⟩ := List.isPrefixOf_iff_prefix.mp h
      cases pat with
      | nil => cases hpat
      | cons d pat =>
        exact ne_of_start hs (by decide) ((List.cons.inj hu).1 ▸ Option.some.inj hpat)
    rw [content]
    rw [if_pos rfl, if_neg hslash, if_neg (hbang "!--".toList rfl),
      if_neg (hbang "![CDATA[".toList rfl), if_neg hquestion]

theorem prepend_prepend (c : Char) (t : Text) (k : Content) :
    (k.prepend t).prepend [c] = k.prepend (c :: t) := by
  cases k with
  | text u next => rfl
  | _ =>
    unfold Content.prepend
    dsimp only
    by_cases ht : t = []
    · rw [if_pos ht, ht]
    · rw [if_neg ht]
      rfl

theorem prepend_nil (k : Content) : k.prepend [] = k := by
  cases k <;> rfl

/-- Where markup begins, nothing before it ends a section. -/
theorem closes_before (hs : ∀ c ∈ s.head?, c = '<') (h : "]]>".toList <+: t ++ s) :
    "]]>".toList <+: t := by
  rcases List.prefix_or_prefix_of_prefix h (List.prefix_append t s) with h' | h'
  · exact h'
  · obtain ⟨b, hb⟩ := h'
    have hbs : b <+: s := (List.prefix_append_right_inj t).mp (hb ▸ h)
    cases b with
    | nil => exact ⟨[], by rw [← hb, List.append_nil, List.append_nil]⟩
    | cons d b =>
      obtain ⟨u, rfl⟩ := hbs
      obtain rfl := hs d rfl
      have hmem : '<' ∈ "]]>".toList := hb ▸ List.mem_append_right t List.mem_cons_self
      exact absurd hmem (by decide)

/-- A text in front of markup or of the end. -/
theorem content_text {fuel : Nat} (hplain : ∀ c ∈ t, c ≠ '<' ∧ c ≠ '&')
    (hunended : ¬"]]>".toList <:+: t) (hs : ∀ c ∈ s.head?, c = '<') :
    content (fuel + t.length) (t ++ s) =
      (content fuel s).map fun (k, r) => (k.prepend t, r) := by
  induction t with
  | nil =>
    rw [List.length_nil, Nat.add_zero, List.nil_append]
    simp only [prepend_nil, Option.map_id_fun', id_eq]
  | cons c t ih =>
    obtain ⟨⟨hmarkup, hreference⟩, hrest⟩ := List.forall_mem_cons.mp hplain
    have hclose : ¬"]]>".toList.isPrefixOf (c :: (t ++ s)) = true := fun h =>
      hunended (closes_before (t := c :: t) hs (List.isPrefixOf_iff_prefix.mp h)).isInfix
    rw [List.length_cons, ← Nat.add_assoc, List.cons_append, content, if_neg hmarkup,
      if_neg hreference, if_neg hclose, ih hrest fun h => hunended (List.infix_cons h),
      Option.map_map]
    congr 1
    funext k
    exact congrArg (·, k.2) (prepend_prepend c t k.1)

/-- What may stand behind content. -/
def Closes (s : Text) : Prop := s = [] ∨ ∃ r, s = '<' :: '/' :: r

theorem head_write {k : Content} (hshape : k.Shape) (hlead : k.lead = []) (hs : Closes s) :
    ∀ c ∈ (k.write s).head?, c = '<' := by
  intro c hc
  cases k with
  | done =>
    rcases hs with rfl | ⟨r, rfl⟩
    · cases hc
    · exact (Option.some.inj hc).symm
  | text t next => exact absurd hlead hshape.1
  | empty tag next => exact (Option.some.inj hc).symm
  | element tag inside next => exact (Option.some.inj hc).symm

/-- What was written of texts that need no escaping is read back. -/
theorem content_write {k : Content} {fuel : Nat} (hshape : k.Shape)
    (hraw : ∀ t ∈ k.texts, (∀ c ∈ t, c ≠ '<' ∧ c ≠ '&') ∧ ¬"]]>".toList <:+: t) (hs : Closes s)
    (hfuel : k.size < fuel) : content fuel (k.write s) = some (k, s) := by
  induction k generalizing fuel s with
  | done =>
    obtain ⟨fuel, rfl⟩ : ∃ f, fuel = f + 1 := ⟨fuel - 1, by omega⟩
    rcases hs with rfl | ⟨r, rfl⟩ <;> rfl
  | text t next ih =>
    obtain ⟨hne, hlead, hnext⟩ := hshape
    obtain ⟨⟨hplain, hunended⟩, hrest⟩ := List.forall_mem_cons.mp hraw
    simp only [Content.size] at hfuel
    obtain ⟨fuel, rfl⟩ : ∃ f, fuel = f + t.length := ⟨fuel - t.length, by omega⟩
    rw [Content.write, content_text hplain hunended (head_write hnext hlead hs),
      ih hnext hrest hs (by omega), Option.map_some]
    dsimp only
    have hprepend : next.prepend t = .text t next := by
      cases next with
      | text u next => exact absurd hlead hnext.1
      | _ => exact if_neg hne
    rw [hprepend]
  | empty tag next ih =>
    obtain ⟨htag, hnext⟩ := hshape
    simp only [Content.size] at hfuel
    obtain ⟨fuel, rfl⟩ : ∃ f, fuel = f + 1 := ⟨fuel - 1, by omega⟩
    have hstart := start_append (n := tag.name) (by
      simp only [Tag.valid, Bool.and_eq_true] at htag
      exact htag.1.1) (writeAttributes tag.attributes ('/' :: '>' :: next.write s))
    obtain ⟨c, hc, hstart⟩ := hstart
    rw [Content.write, content_tag (by rw [Tag.write, hc]; exact hstart), startTag_writeEmpty htag,
      Option.bind_some]
    dsimp only
    rw [if_pos rfl, ih hnext hraw hs (by omega), Option.map_some]
  | element tag inside next ihinside ih =>
    obtain ⟨htag, hinside, hnext⟩ := hshape
    obtain ⟨hrawinside, hrawnext⟩ := List.forall_mem_append.mp hraw
    simp only [Content.size] at hfuel
    obtain ⟨fuel, rfl⟩ : ∃ f, fuel = f + 1 := ⟨fuel - 1, by omega⟩
    have hstart := start_append (n := tag.name) (by
      simp only [Tag.valid, Bool.and_eq_true] at htag
      exact htag.1.1) (writeAttributes tag.attributes
        ('>' :: inside.write (tag.writeEnd (next.write s))))
    obtain ⟨c, hc, hstart⟩ := hstart
    have hcloses : Closes (tag.writeEnd (next.write s)) := .inr ⟨_, rfl⟩
    rw [Content.write, content_tag (by rw [Tag.write, hc]; exact hstart), startTag_write htag,
      Option.bind_some]
    dsimp only
    rw [if_neg Bool.false_ne_true,
      ihinside hinside hrawinside hcloses (by omega), Option.bind_some]
    dsimp only
    rw [endTag_write, Option.bind_some, ih hnext hrawnext hs (by omega), Option.map_some]

end

-- ============================================================================
-- Documents without escaping
-- ============================================================================

/-- The text needs no escaping. -/
structure Plain (t : Text) : Prop where
  chars : ∀ c ∈ t, isChar c = true ∧ c ≠ '\r' ∧ c ≠ '<' ∧ c ≠ '&'
  unended : ¬"]]>".toList <:+: t

/-- Characters that are read as they are, wherever they stand. -/
def Clean (s : Text) : Prop := ∀ c ∈ s, isChar c = true ∧ c ≠ '\r'

theorem clean_iff_all {s : Text} : Clean s ↔ s.all (fun c => isChar c && c ≠ '\r') = true := by
  unfold Clean
  simp only [List.all_eq_true, Bool.and_eq_true, decide_eq_true_eq]

instance (s : Text) : Decidable (Clean s) := decidable_of_iff _ clean_iff_all.symm

theorem plain_iff_all {t : Text} : Plain t ↔
    t.all (fun c => isChar c && (c ≠ '\r' && (c ≠ '<' && c ≠ '&'))) = true ∧
      ¬"]]>".toList <:+: t := by
  simp only [List.all_eq_true, Bool.and_eq_true, decide_eq_true_eq]
  exact ⟨fun h => ⟨h.chars, h.unended⟩, fun h => ⟨h.1, h.2⟩⟩

instance (t : Text) : Decidable (Plain t) := decidable_of_iff _ plain_iff_all.symm

/-- What a root element begins with. -/
def Opens (s : Text) : Prop := ∃ c r, s = '<' :: c :: r ∧ isNameStart c = true

/-- A declaration and a document type with a public identifier, in front of `s`. -/
def writeProlog (as : List (Text × Text)) (n publicId systemId s : Text) : Text :=
  "<?xml".toList ++ writeAttributes as ("?>\n<!DOCTYPE ".toList ++ (n ++ (" PUBLIC \"".toList ++
    (publicId ++ ("\" \"".toList ++ (systemId ++ ("\">\n".toList ++ s)))))))

section

variable {s t header : Text} {as : List (Text × Text)} {tag : Tag} {inside root : Content}

theorem normalizeEol_length_le (s : Text) : (normalizeEol s).length ≤ s.length := by
  induction s with
  | nil => exact Nat.le_refl 0
  | cons c s ih =>
    unfold normalizeEol
    split
    · split
      · exact Nat.le_succ_of_le ih
      · exact Nat.succ_le_succ ih
    · exact Nat.succ_le_succ ih

/-- No carriage return is left. -/
theorem mem_normalizeEol {c : Char} (h : c ∈ normalizeEol s) : c ≠ '\r' ∧ (c ∈ s ∨ c = '\n') := by
  induction s with
  | nil => cases h
  | cons d s ih =>
    have hrest : c ∈ normalizeEol s → c ≠ '\r' ∧ (c ∈ d :: s ∨ c = '\n') := fun h =>
      ⟨(ih h).1, (ih h).2.imp_left (List.mem_cons_of_mem d)⟩
    unfold normalizeEol at h
    split at h
    · split at h
      · exact hrest h
      · rcases List.mem_cons.mp h with rfl | h
        · exact ⟨by decide, .inr rfl⟩
        · exact hrest h
    · rename_i hd
      rcases List.mem_cons.mp h with rfl | h
      · exact ⟨hd, .inl List.mem_cons_self⟩
      · exact hrest h

theorem normalizeEol_append (ht : ∀ c ∈ t, c ≠ '\r') (s : Text) :
    normalizeEol (t ++ s) = t ++ normalizeEol s := by
  induction t with
  | nil => rfl
  | cons c t ih =>
    obtain ⟨hc, ht⟩ := List.forall_mem_cons.mp ht
    rw [List.cons_append, normalizeEol, if_neg hc, ih ht, List.cons_append]

theorem normalizeEol_self (hs : ∀ c ∈ s, c ≠ '\r') : normalizeEol s = s := by
  have happend := normalizeEol_append hs []
  rw [List.append_nil] at happend
  rw [happend]
  exact List.append_nil s

theorem clean_append : Clean (s ++ t) ↔ Clean s ∧ Clean t := List.forall_mem_append

theorem clean_cons {c : Char} (hc : isChar c = true ∧ c ≠ '\r') (hs : Clean s) : Clean (c :: s) :=
  List.forall_mem_cons.mpr ⟨hc, hs⟩

theorem nameChar_clean {c : Char} (h : isNameChar c = true) : isChar c = true ∧ c ≠ '\r' := by
  have hrange : 0x20 < c.toNat ∧ c.toNat ≠ 0xfffe ∧ c.toNat ≠ 0xffff := by
    simp only [isNameChar, isNameStart, within, List.any_cons, List.any_nil, Bool.or_eq_true,
      Bool.and_eq_true, decide_eq_true_eq, Bool.false_eq_true, or_false] at h
    rcases h with ((rfl | rfl) | h) | h
    · decide
    · decide
    · omega
    · omega
  refine ⟨?_, ?_⟩
  · simp only [isChar, Bool.or_eq_true, Bool.and_eq_true, decide_eq_true_eq]
    exact .inr ⟨⟨by omega, hrange.2.1⟩, hrange.2.2⟩
  · rintro rfl
    exact absurd hrange.1 (by decide)

theorem name_clean {n : Text} (h : isName n = true) : Clean n := fun c hc =>
  nameChar_clean (List.all_eq_true.mp ((Bool.and_eq_true _ _).mp h).2 c hc)

theorem value_clean {v : Text} (h : v.all valueChar = true) : Clean v := by
  intro c hc
  have hchar := List.all_eq_true.mp h c hc
  simp only [valueChar, Bool.and_eq_true, Bool.or_eq_true, decide_eq_true_eq,
    Bool.not_eq_true'] at hchar
  refine ⟨hchar.1.1.1.1, ?_⟩
  rintro rfl
  rcases hchar.2 with h | h
  · exact absurd h (by decide)
  · exact absurd h (by decide)

theorem writeAttributes_clean (has : as.all (fun (n, v) => isName n && v.all valueChar) = true)
    (hs : Clean s) : Clean (writeAttributes as s) := by
  induction as with
  | nil => exact hs
  | cons a as ih =>
    obtain ⟨n, v⟩ := a
    rw [List.all_cons, Bool.and_eq_true] at has
    obtain ⟨hn, hv⟩ := (Bool.and_eq_true _ _).mp has.1
    have hrest := clean_cons (c := '"') (by decide) (ih has.2)
    have hvalue := clean_append.mpr ⟨value_clean hv, hrest⟩
    have hequals := clean_cons (c := '=') (by decide) (clean_cons (c := '"') (by decide) hvalue)
    exact clean_cons (by decide) (clean_append.mpr ⟨name_clean hn, hequals⟩)

theorem tag_clean (htag : tag.valid = true) (hs : Clean s) :
    Clean (tag.write s) ∧ Clean (tag.writeEnd s) := by
  simp only [Tag.valid, Bool.and_eq_true] at htag
  obtain ⟨⟨hname, -⟩, has⟩ := htag
  have hend := clean_append.mpr ⟨name_clean hname, clean_cons (c := '>') (by decide) hs⟩
  exact ⟨clean_append.mpr ⟨name_clean hname, writeAttributes_clean has hs⟩,
    clean_cons (by decide) (clean_cons (by decide) hend)⟩

theorem write_clean {k : Content} (hshape : k.Shape) (htexts : ∀ t ∈ k.texts, Clean t)
    (hs : Clean s) : Clean (k.write s) := by
  induction k generalizing s with
  | done => exact hs
  | text t next ih =>
    obtain ⟨ht, hnext⟩ := List.forall_mem_cons.mp htexts
    exact clean_append.mpr ⟨ht, ih hshape.2.2 hnext hs⟩
  | empty tag next ih =>
    have hnext := clean_cons (c := '>') (by decide) (ih hshape.2 htexts hs)
    exact clean_cons (by decide)
      (tag_clean hshape.1 (clean_cons (c := '/') (by decide) hnext)).1
  | element tag inside next ihinside ih =>
    obtain ⟨htag, hinside, hnext⟩ := hshape
    obtain ⟨htexts, htexts'⟩ := List.forall_mem_append.mp htexts
    have hrest := (tag_clean htag (ih hnext htexts' hs)).2
    exact clean_cons (by decide)
      (tag_clean htag (clean_cons (c := '>') (by decide) (ihinside hinside htexts hrest))).1

theorem rootElement_write (hshape : (Content.element tag inside .done).Shape)
    (hraw : ∀ t ∈ inside.texts, (∀ c ∈ t, c ≠ '<' ∧ c ≠ '&') ∧ ¬"]]>".toList <:+: t) :
    rootElement ((Content.element tag inside .done).write []) =
      some (.element tag inside .done) := by
  obtain ⟨htag, hinside, -⟩ := hshape
  have hcloses : Closes (tag.writeEnd []) := .inr ⟨_, rfl⟩
  have hfuel : inside.size < (inside.write (tag.writeEnd [])).length + 1 := by
    rw [Content.length_write]
    omega
  show (startTag (tag.write ('>' :: inside.write (tag.writeEnd [])))).bind _ = _
  rw [startTag_write htag, Option.bind_some]
  dsimp only
  rw [if_neg Bool.false_ne_true, content_write hinside hraw hcloses hfuel, Option.bind_some]
  dsimp only
  rw [endTag_write, Option.bind_some]
  rfl

theorem opens_write (hshape : (Content.element tag inside .done).Shape) :
    Opens ((Content.element tag inside .done).write []) := by
  have htag := hshape.1
  simp only [Tag.valid, Bool.and_eq_true] at htag
  obtain ⟨c, hc, hstart⟩ := start_append htag.1.1
    (writeAttributes tag.attributes ('>' :: inside.write (tag.writeEnd [])))
  obtain ⟨r, hr⟩ := List.head?_eq_some_iff.mp hc
  exact ⟨c, r, congrArg ('<' :: ·) hr, hstart⟩

theorem opens_normalizeEol (h : Opens s) : Opens (normalizeEol s) := by
  obtain ⟨c, r, rfl, hc⟩ := h
  refine ⟨c, normalizeEol r, ?_, hc⟩
  have hclean := (nameChar_clean (isNameChar_of_start hc)).2
  exact normalizeEol_append (t := ['<', c]) (by simp [hclean]) r

/-- Behind a header, a root element that was written without escaping is read back if its texts
    need none, and only then. -/
theorem parse_write_iff (hheader : Clean header)
    (hprolog : ∀ s, Opens s → prolog (header ++ s) = some s)
    (hshape : (Content.element tag inside .done).Shape) :
    parse (header ++ (Content.element tag inside .done).write []) =
        some (.element tag inside .done) ↔
      ∀ t ∈ inside.texts, Plain t := by
  have hopens := opens_write hshape
  have heol := normalizeEol_append (fun c hc => (hheader c hc).2)
    ((Content.element tag inside .done).write [])
  unfold parse
  constructor
  · intro h t ht
    split at h
    · rename_i hall
      rw [heol, hprolog _ (opens_normalizeEol hopens), Option.bind_some] at h
      obtain ⟨hsize, hraw⟩ := rootElement_size h
      have hle := normalizeEol_length_le ((Content.element tag inside .done).write [])
      have hlength := Content.length_write (.element tag inside .done) []
      rw [List.length_nil] at hlength
      have hmem : t ∈ (Content.element tag inside .done).texts := by
        rw [Content.texts, Content.texts, List.append_nil]
        exact ht
      obtain ⟨hwithin, hplain, hunended⟩ := hraw (by omega) t hmem
      refine ⟨fun c hc => ?_, hunended⟩
      obtain ⟨hcr, hc'⟩ := mem_normalizeEol (hwithin c hc)
      refine ⟨?_, hcr, hplain c hc⟩
      rcases hc' with hc' | rfl
      · exact List.all_eq_true.mp hall c (List.mem_append_right _ hc')
      · decide
    · cases h
  · intro hplain
    have htexts : ∀ t ∈ (Content.element tag inside .done).texts, Clean t := by
      intro t ht
      rw [Content.texts, Content.texts, List.append_nil] at ht
      exact fun c hc => ⟨((hplain t ht).chars c hc).1, ((hplain t ht).chars c hc).2.1⟩
    have hclean : Clean ((Content.element tag inside .done).write []) :=
      write_clean hshape htexts nofun
    have hall : (header ++ (Content.element tag inside .done).write []).all isChar = true :=
      List.all_eq_true.mpr fun c hc => (clean_append.mpr ⟨hheader, hclean⟩ c hc).1
    rw [if_pos hall, heol, normalizeEol_self fun c hc => (hclean c hc).2, hprolog _ hopens,
      Option.bind_some]
    refine rootElement_write hshape fun t ht => ⟨fun c hc => ?_, (hplain t ht).unended⟩
    exact ((hplain t ht).chars c hc).2.2

theorem writeAttributes_append (as : List (Text × Text)) (s t : Text) :
    writeAttributes as (s ++ t) = writeAttributes as s ++ t := by
  induction as with
  | nil => rfl
  | cons a as ih =>
    obtain ⟨n, v⟩ := a
    simp only [writeAttributes, ih, List.append_assoc, List.cons_append]

theorem writeProlog_append (as : List (Text × Text)) (n publicId systemId s : Text) :
    writeProlog as n publicId systemId s = writeProlog as n publicId systemId [] ++ s := by
  unfold writeProlog
  rw [List.append_assoc, ← writeAttributes_append]
  simp only [List.append_assoc, List.append_nil]

theorem literal_append {v : Text} (hv : '"' ∉ v) : literal ('"' :: (v ++ '"' :: s)) = some s := by
  have hcut : cutFirst (· = '"') (v ++ '"' :: s) = some (v, '"', s) :=
    cutFirst_eq_some.mpr ⟨rfl, rfl, fun c hc => decide_eq_false fun heq => hv (heq ▸ hc)⟩
  have hquote : isQuote '"' = true := by decide
  unfold literal
  dsimp only
  rw [if_pos hquote, hcut]
  rfl

theorem space_append (hs : ∀ c ∈ s.head?, isSpace c = false) : space (' ' :: s) = some s := by
  have hskip : skipSpace (' ' :: s) = skipSpace s := List.dropWhile_cons_of_pos rfl
  unfold space
  rw [hskip, skipSpace_of_head hs]
  rfl

theorem xmlDecl_append (has : as.all (fun (n, v) => isName n && v.all valueChar) = true)
    (hdeclares : declares as = true) (s : Text) :
    xmlDecl ("<?xml".toList ++ writeAttributes as ("?>".toList ++ s)) = some s := by
  have hstops : Stops ("?>".toList ++ s) := by
    intro c hc
    obtain rfl := Option.some.inj hc
    decide
  have hfuel : attributesSize as <
      ("<?xml".toList ++ writeAttributes as ("?>".toList ++ s)).length + 1 := by
    rw [List.length_append, length_writeAttributes]
    omega
  have hattributes := attributes_write has hstops hfuel
  cases as with
  | nil => cases hdeclares
  | cons a as =>
    have hopen : ("<?xml".toList.isPrefixOf ("<?xml".toList ++ writeAttributes (a :: as)
        ("?>".toList ++ s)) && (("<?xml".toList ++ writeAttributes (a :: as)
          ("?>".toList ++ s)).drop 5).head?.any isSpace) = true := rfl
    unfold xmlDecl
    rw [if_pos hopen]
    show (attributes _ (writeAttributes (a :: as) ("?>".toList ++ s))).bind _ = _
    rw [hattributes, Option.bind_some]
    dsimp only
    rw [hdeclares]
    rfl

theorem doctype_append {n publicId systemId : Text} (hn : isName n = true)
    (hpublic : '"' ∉ publicId) (hsystem : '"' ∉ systemId) (s : Text) :
    doctype ("<!DOCTYPE ".toList ++ (n ++ (" PUBLIC \"".toList ++ (publicId ++
      ("\" \"".toList ++ (systemId ++ ("\">".toList ++ s))))))) = some s := by
  have hname : name (n ++ (" PUBLIC \"".toList ++ (publicId ++ ("\" \"".toList ++ (systemId ++
      ("\">".toList ++ s)))))) = some (n, " PUBLIC \"".toList ++ (publicId ++ ("\" \"".toList ++
        (systemId ++ ("\">".toList ++ s))))) := by
    refine name_append hn fun c hc => ?_
    obtain rfl := Option.some.inj hc
    decide
  have hspace : space (' ' :: (n ++ (" PUBLIC \"".toList ++ (publicId ++ ("\" \"".toList ++
      (systemId ++ ("\">".toList ++ s))))))) = some (n ++ (" PUBLIC \"".toList ++ (publicId ++
        ("\" \"".toList ++ (systemId ++ ("\">".toList ++ s)))))) := by
    refine space_append fun c hc => ?_
    obtain ⟨d, hd, hstart⟩ := start_append hn (" PUBLIC \"".toList ++ (publicId ++
      ("\" \"".toList ++ (systemId ++ ("\">".toList ++ s)))))
    obtain rfl := Option.some.inj (hd.symm.trans hc)
    exact not_space_of_start hstart
  have hexternal : externalId (" PUBLIC \"".toList ++ (publicId ++ ("\" \"".toList ++
      (systemId ++ ("\">".toList ++ s))))) = some ('>' :: s) := by
    show (literal ('"' :: (publicId ++ '"' :: (' ' :: '"' :: (systemId ++ '"' :: '>' :: s))))).bind
      (fun r => (space r).bind literal) = _
    rw [literal_append hpublic, Option.bind_some]
    exact literal_append hsystem
  have hopen : "<!DOCTYPE".toList.isPrefixOf ("<!DOCTYPE ".toList ++ (n ++ (" PUBLIC \"".toList ++
      (publicId ++ ("\" \"".toList ++ (systemId ++ ("\">".toList ++ s))))))) = true := rfl
  unfold doctype
  rw [if_pos hopen]
  show (space (' ' :: (n ++ (" PUBLIC \"".toList ++ (publicId ++ ("\" \"".toList ++
    (systemId ++ ("\">".toList ++ s)))))))).bind _ = _
  rw [hspace, Option.bind_some, hname, Option.bind_some]
  dsimp only
  rw [hexternal]
  rfl

theorem misc_opens (hs : Opens s) (fuel : Nat) : misc (fuel + 1) ('\n' :: s) = some s := by
  obtain ⟨c, r, rfl, hc⟩ := hs
  have hskip : skipSpace ('\n' :: '<' :: c :: r) = '<' :: c :: r := rfl
  have hcomment : ¬"<!--".toList.isPrefixOf ('<' :: c :: r) = true := by
    intro h
    obtain ⟨u, hu⟩ := List.isPrefixOf_iff_prefix.mp h
    exact ne_of_start hc (by decide) (List.cons.inj (List.cons.inj hu).2).1.symm
  have hinstruction : ¬"<?".toList.isPrefixOf ('<' :: c :: r) = true := by
    intro h
    obtain ⟨u, hu⟩ := List.isPrefixOf_iff_prefix.mp h
    exact ne_of_start hc (by decide) (List.cons.inj (List.cons.inj hu).2).1.symm
  unfold misc
  rw [hskip, if_neg hcomment, if_neg hinstruction]

/-- The prolog is read over. -/
theorem prolog_write {n publicId systemId : Text}
    (has : as.all (fun (n, v) => isName n && v.all valueChar) = true)
    (hdeclares : declares as = true) (hn : isName n = true) (hpublic : '"' ∉ publicId)
    (hsystem : '"' ∉ systemId) (hs : Opens s) :
    prolog (writeProlog as n publicId systemId s) = some s := by
  unfold prolog
  have hdecl := xmlDecl_append has hdeclares ('\n' :: ("<!DOCTYPE ".toList ++ (n ++
    (" PUBLIC \"".toList ++ (publicId ++ ("\" \"".toList ++ (systemId ++
      ("\">".toList ++ '\n' :: s))))))))
  show (xmlDecl ("<?xml".toList ++ writeAttributes as ("?>".toList ++ ('\n' ::
    ("<!DOCTYPE ".toList ++ (n ++ (" PUBLIC \"".toList ++ (publicId ++ ("\" \"".toList ++
      (systemId ++ ("\">".toList ++ '\n' :: s))))))))))).bind _ = _
  rw [hdecl, Option.bind_some]
  -- the line behind the declaration
  show (doctype ("<!DOCTYPE ".toList ++ (n ++ (" PUBLIC \"".toList ++ (publicId ++
    ("\" \"".toList ++ (systemId ++ ("\">".toList ++ '\n' :: s)))))))).bind _ = _
  rw [doctype_append hn hpublic hsystem, Option.bind_some]
  exact misc_opens hs _

end

end GnDrive.Xml
