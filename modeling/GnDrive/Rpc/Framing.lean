/-
  GnDrive.Rpc.Framing

  The lines of the stdio transport (`ReaderLineSource` in `rpc/stdio.rs`).

  `next_line` reads as much as it needs and keeps the rest for the next call; a line over
  the limit is discarded while it is read.  `reference` splits the whole stream at once,
  and the calls come to the same however the stream was divided into reads
  (`nextLines_eq_reference`).
-/

import GnDrive.Crates

namespace GnDrive.Rpc.Framing

abbrev NEWLINE : UInt8 := 10

inductive LineRead where
  | line (bytes : Bytes)
  | tooLong
  | eof
deriving DecidableEq

/-- What a read of the source comes to; no bytes are its end. -/
inductive Read where
  | data (bytes : Bytes)
  | interrupted
  | failed

/-- The reads to come, after which there is the end of the file, and what is read and not
    yet used. -/
structure ReaderLineSource where
  reader : List Read
  buf : Bytes

def ReaderLineSource.new (reader : List Read) : ReaderLineSource := { reader, buf := [] }

/-- The bytes kept across a read: none of a line that is over the limit already. -/
def kept (maxBytes : Nat) (buf : Bytes) : Bytes := if maxBytes < buf.length then [] else buf

/-- The loop of `next_line`; there is no newline before `scanned`. -/
def nextLineLoop (maxBytes : Nat) :
    List Read → Bool → Nat → Bytes → LineRead × ReaderLineSource
  | reader, discarding, scanned, buf =>
      match (buf.drop scanned).idxOf? NEWLINE, reader with
      | some rel, reader =>
          let idx := scanned + rel
          let line := buf.take idx
          (if discarding ∨ maxBytes < line.length then .tooLong else .line line,
            { reader, buf := buf.drop (idx + 1) })
      | none, [] => (.eof, { reader := [], buf := kept maxBytes buf })
      | none, .data [] :: rest | none, .failed :: rest =>
          (.eof, { reader := rest, buf := kept maxBytes buf })
      | none, .data (b :: chunk) :: rest =>
          nextLineLoop maxBytes rest (discarding || maxBytes < buf.length)
            (kept maxBytes buf).length (kept maxBytes buf ++ b :: chunk)
      | none, .interrupted :: rest =>
          nextLineLoop maxBytes rest (discarding || maxBytes < buf.length)
            (kept maxBytes buf).length (kept maxBytes buf)

def ReaderLineSource.nextLine (maxBytes : Nat) (s : ReaderLineSource) :
    LineRead × ReaderLineSource :=
  nextLineLoop maxBytes s.reader false 0 s.buf

/-- The results of the first `n` calls. -/
def nextLines (maxBytes : Nat) : Nat → ReaderLineSource → List LineRead
  | 0, _ => []
  | n + 1, s => (s.nextLine maxBytes).1 :: nextLines maxBytes n (s.nextLine maxBytes).2

-- ============================================================================
-- The reference
-- ============================================================================

def verdict (maxBytes : Nat) (line : Bytes) : LineRead :=
  if line.length ≤ maxBytes then .line line else .tooLong

/-- One result for each line of the stream that ends in a newline. -/
def reference (maxBytes : Nat) (stream : Bytes) : List LineRead :=
  (stream.splitOn NEWLINE).dropLast.map (verdict maxBytes)

def Read.bytes : Read → Bytes
  | .data bytes => bytes
  | .interrupted | .failed => []

/-- The source has more. -/
def Read.GoesOn : Read → Prop
  | .data bytes => bytes ≠ []
  | .interrupted => True
  | .failed => False

/-- The reads are a division of the stream. -/
def Divides (reads : List Read) (stream : Bytes) : Prop :=
  (∀ r ∈ reads, r.GoesOn) ∧ reads.flatMap Read.bytes = stream

/-- What is still to be split. -/
def ReaderLineSource.Holds (s : ReaderLineSource) (stream : Bytes) : Prop :=
  ∃ tail, Divides s.reader tail ∧ s.buf ++ tail = stream

section

variable {maxBytes : Nat} {discarding : Bool} {scanned : Nat} {buf line rest stream : Bytes}
  {reader : List Read} {s : ReaderLineSource}

theorem reference_line (h : NEWLINE ∉ line) (rest : Bytes) :
    reference maxBytes (line ++ NEWLINE :: rest) =
      verdict maxBytes line :: reference maxBytes rest := by
  unfold reference
  rw [List.splitOn_append_cons_self_of_not_mem h,
    List.dropLast_cons_of_ne_nil (List.splitOn_ne_nil _ _), List.map_cons]

theorem reference_tail (h : NEWLINE ∉ stream) : reference maxBytes stream = [] := by
  unfold reference
  rw [List.splitOn_eq_singleton h]
  rfl

-- ============================================================================
-- One call
-- ============================================================================

/-- The newline that the loop finds is the first one. -/
theorem position_first {rel : Nat} (hbuf : NEWLINE ∉ buf.take scanned)
    (h : (buf.drop scanned).idxOf? NEWLINE = some rel) :
    NEWLINE ∉ buf.take (scanned + rel) ∧
      buf = buf.take (scanned + rel) ++ NEWLINE :: buf.drop (scanned + rel + 1) := by
  obtain ⟨hlt, hat, hfirst⟩ := List.idxOf?_eq_some_iff.mp h
  rw [List.getElem_drop] at hat
  have hlen : scanned + rel < buf.length := by
    rw [List.length_drop] at hlt
    omega
  constructor
  · rw [List.take_add, List.mem_append]
    rintro (hmem | hmem)
    · exact hbuf hmem
    · obtain ⟨j, hj, hget⟩ := List.getElem_of_mem hmem
      rw [List.getElem_take] at hget
      rw [List.length_take] at hj
      exact hfirst j (by omega) hget
  · rw [← hat, List.getElem_cons_drop, List.take_append_drop]

/-- What a call comes to, from any place of its loop. -/
inductive Outcome (maxBytes : Nat) (discarding : Prop) (stream : Bytes) :
    LineRead × ReaderLineSource → Prop where
  | eof {s : ReaderLineSource} {rest : Bytes} (h : NEWLINE ∉ stream) (hrest : NEWLINE ∉ rest)
      (hs : s.Holds rest) : Outcome maxBytes discarding stream (.eof, s)
  | line {s : ReaderLineSource} {line rest : Bytes} {r : LineRead} (h : NEWLINE ∉ line)
      (hstream : stream = line ++ NEWLINE :: rest) (hs : s.Holds rest)
      (hlong : discarding ∨ maxBytes < line.length → r = .tooLong)
      (hshort : ¬ (discarding ∨ maxBytes < line.length) → r = .line line) :
      Outcome maxBytes discarding stream (r, s)

theorem kept_or (maxBytes : Nat) (buf : Bytes) :
    ¬ maxBytes < buf.length ∧ kept maxBytes buf = buf ∨
      maxBytes < buf.length ∧ kept maxBytes buf = [] := by
  unfold kept
  split
  · exact .inr ⟨‹_›, rfl⟩
  · exact .inl ⟨‹_›, rfl⟩

theorem not_mem_kept (maxBytes : Nat) (h : NEWLINE ∉ buf) : NEWLINE ∉ kept maxBytes buf := by
  obtain ⟨-, hkept⟩ | ⟨-, hkept⟩ := kept_or maxBytes buf
  · rwa [hkept]
  · rw [hkept]
    exact List.not_mem_nil

/-- A call that goes on with what is kept comes to what it came to with all of it. -/
theorem Outcome.of_kept {out : LineRead × ReaderLineSource} {discarding : Prop}
    (hbuf : NEWLINE ∉ buf)
    (h : Outcome maxBytes (discarding ∨ maxBytes < buf.length) (kept maxBytes buf ++ stream) out) :
    Outcome maxBytes discarding (buf ++ stream) out := by
  obtain ⟨hshort, hkept⟩ | ⟨hlong, hkept⟩ := kept_or maxBytes buf
  · rw [hkept] at h
    have hsame : (discarding ∨ maxBytes < buf.length) ↔ discarding := or_iff_left hshort
    rwa [hsame] at h
  · rw [hkept, List.nil_append] at h
    cases h with
    | eof hstream hrest hs =>
      exact .eof (fun hmem => (List.mem_append.mp hmem).elim hbuf hstream) hrest hs
    | @line s line rest r hline hstream hs hr _ =>
      have hover : maxBytes < (buf ++ line).length := by
        rw [List.length_append]
        omega
      have hboth : NEWLINE ∉ buf ++ line := fun hmem => (List.mem_append.mp hmem).elim hbuf hline
      refine .line hboth ?_ hs (fun _ => hr (.inl (.inr hlong))) fun hshort => absurd (.inr hover) hshort
      rw [hstream, List.append_assoc]

theorem Divides.nil : Divides [] [] := ⟨fun _ h => absurd h List.not_mem_nil, rfl⟩

theorem Divides.uncons {r : Read} {reader : List Read} (h : Divides (r :: reader) stream) :
    r.GoesOn ∧ ∃ rest, Divides reader rest ∧ stream = r.bytes ++ rest := by
  obtain ⟨hgoes, rfl⟩ := h
  exact ⟨hgoes r List.mem_cons_self, _, ⟨fun r hr => hgoes r (List.mem_cons_of_mem _ hr), rfl⟩, rfl⟩

theorem not_mem_of_position (hbuf : NEWLINE ∉ buf.take scanned)
    (h : (buf.drop scanned).idxOf? NEWLINE = none) : NEWLINE ∉ buf := by
  intro hmem
  rw [← List.take_append_drop scanned buf, List.mem_append] at hmem
  obtain hmem | hmem := hmem
  · exact hbuf hmem
  · exact List.idxOf?_eq_none_iff.mp h hmem

theorem outcome_found {rel : Nat} (hreads : Divides reader stream)
    (hbuf : NEWLINE ∉ buf.take scanned) (h : (buf.drop scanned).idxOf? NEWLINE = some rel) :
    Outcome maxBytes (discarding = true) (buf ++ stream)
      (nextLineLoop maxBytes reader discarding scanned buf) := by
  obtain ⟨hline, hsplit⟩ := position_first hbuf h
  have hloop : nextLineLoop maxBytes reader discarding scanned buf =
      (if discarding = true ∨ maxBytes < (buf.take (scanned + rel)).length then .tooLong
        else .line (buf.take (scanned + rel)), ⟨reader, buf.drop (scanned + rel + 1)⟩) := by
    unfold nextLineLoop
    rw [h]
  rw [hloop]
  refine .line hline ?_ ⟨stream, hreads, rfl⟩ (fun hlong => if_pos hlong) fun hshort => if_neg hshort
  rw [← List.cons_append, ← List.append_assoc, ← hsplit]

/-- Every place of the loop: the induction is on the reads to come. -/
theorem nextLineLoop_outcome (hreads : Divides reader stream)
    (hbuf : NEWLINE ∉ buf.take scanned) :
    Outcome maxBytes (discarding = true) (buf ++ stream)
      (nextLineLoop maxBytes reader discarding scanned buf) := by
  induction reader generalizing stream discarding scanned buf with
  | nil =>
    cases hfound : (buf.drop scanned).idxOf? NEWLINE with
    | some rel => exact outcome_found hreads hbuf hfound
    | none =>
      have hnone := not_mem_of_position hbuf hfound
      obtain ⟨-, rfl⟩ := hreads
      unfold nextLineLoop
      rw [hfound]
      refine .eof ?_ (not_mem_kept maxBytes hnone)
        ⟨[], Divides.nil, List.append_nil _⟩
      rwa [List.flatMap_nil, List.append_nil]
  | cons r reader ih =>
    cases hfound : (buf.drop scanned).idxOf? NEWLINE with
    | some rel => exact outcome_found hreads hbuf hfound
    | none =>
      have hnone := not_mem_of_position hbuf hfound
      obtain ⟨hgoes, rest, hrest, rfl⟩ := hreads.uncons
      have hkept : NEWLINE ∉ kept maxBytes buf := not_mem_kept maxBytes hnone
      refine Outcome.of_kept hnone ?_
      rw [← decide_eq_true_iff (p := maxBytes < buf.length), ← Bool.or_eq_true]
      cases r with
      | failed => exact absurd hgoes id
      | interrupted =>
        unfold nextLineLoop
        rw [hfound]
        exact ih hrest (by rwa [List.take_length])
      | data bytes =>
        cases bytes with
        | nil => exact absurd rfl hgoes
        | cons b chunk =>
          unfold nextLineLoop
          rw [hfound]
          rw [show Read.bytes (.data (b :: chunk)) = b :: chunk from rfl, ← List.append_assoc]
          exact ih hrest (by rwa [List.take_left])

-- ============================================================================
-- All calls
-- ============================================================================

theorem nextLine_outcome (h : s.Holds stream) :
    Outcome maxBytes False stream (s.nextLine maxBytes) := by
  obtain ⟨tail, hreads, rfl⟩ := h
  have houtcome : Outcome maxBytes (false = true) (s.buf ++ tail)
      (nextLineLoop maxBytes s.reader false 0 s.buf) := nextLineLoop_outcome hreads List.not_mem_nil
  rwa [Bool.false_eq_true] at houtcome

/-- The results of any number of calls, from any state of the source. -/
theorem nextLines_of_holds (n : Nat) (h : s.Holds stream) :
    nextLines maxBytes n s = (reference maxBytes stream ++ List.replicate n LineRead.eof).take n := by
  induction n generalizing s stream with
  | zero => rfl
  | succ n ih =>
    have houtcome : Outcome maxBytes False stream (s.nextLine maxBytes) := nextLine_outcome h
    unfold nextLines
    generalize s.nextLine maxBytes = out at houtcome ⊢
    cases houtcome with
    | eof hnone hrest hs =>
      rw [ih hs, reference_tail hnone, reference_tail hrest, List.nil_append, List.nil_append,
        List.replicate_succ, List.take_succ_cons]
    | @line s line rest r hline hstream hs hlong hshort =>
      have hr : r = verdict maxBytes line := by
        unfold verdict
        split
        · exact hshort (by rw [false_or]; omega)
        · exact hlong (.inr (by omega))
      have htake : (reference maxBytes rest ++ List.replicate (n + 1) LineRead.eof).take n =
          (reference maxBytes rest ++ List.replicate n LineRead.eof).take n := by
        rw [List.replicate_succ', ← List.append_assoc, List.take_append_of_le_length (by simp)]
      rw [ih hs, hstream, reference_line hline, hr, List.cons_append, List.take_succ_cons, htake]

end

/-- However the stream is divided into reads, the calls yield the lines of the whole stream,
    and then its end. -/
theorem nextLines_eq_reference (maxBytes n : Nat) {reads : List Read} {stream : Bytes}
    (h : Divides reads stream) :
    nextLines maxBytes n (.new reads) =
      (reference maxBytes stream ++ List.replicate n LineRead.eof).take n :=
  nextLines_of_holds n ⟨stream, h, rfl⟩

theorem nextLines_cut :
    Divides [.data [120, 121], .interrupted, .data [NEWLINE, 122], .data [NEWLINE]]
      [120, 121, NEWLINE, 122, NEWLINE] ∧
    nextLines 1 3 (.new [.data [120, 121], .interrupted, .data [NEWLINE, 122],
      .data [NEWLINE]]) = [.tooLong, .line [122], .eof] := by
  have h : Divides [.data [120, 121], .interrupted, .data [NEWLINE, 122], .data [NEWLINE]]
      [120, 121, NEWLINE, 122, NEWLINE] := by
    refine ⟨fun r hr => ?_, rfl⟩
    simp only [List.mem_cons, List.not_mem_nil, or_false] at hr
    rcases hr with rfl | rfl | rfl | rfl <;> simp [Read.GoesOn]
  exact ⟨h, (nextLines_eq_reference 1 3 h).trans (by decide)⟩

end GnDrive.Rpc.Framing
