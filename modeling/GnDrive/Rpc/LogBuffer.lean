/-
  GnDrive.Rpc.LogBuffer

  The ring buffer of log lines (`rpc/log_buffer.rs`) under any number of concurrent
  pushes, and `logs.read` on it (`rpc/dispatcher.rs`).

  A push appends its line under the lock of the buffer, takes the callback under the
  lock of the callback, and calls it when it holds neither.  Pushes may overtake each
  other between these steps, and the callback may be replaced.
-/

import GnDrive.Events.Bridge
import GnDrive.Lib.RecentLog
import GnDrive.Lib.System
import GnDrive.Rpc.Params

namespace GnDrive.Rpc.Logs

open Events (LogLevel)
open RecentLog (length_rtake)

-- ============================================================================
-- Lines
-- ============================================================================

/-- `LogLevel::from_label` -/
def fromLabel (s : Text) : Option LogLevel :=
  let lower := s.map Char.toLower
  if lower = "debug".toList then some .debug
  else if lower = "info".toList then some .info
  else if lower = "warn".toList ∨ lower = "warning".toList then some .warn
  else if lower = "error".toList then some .error
  else none

/-- `time` is in nanoseconds. -/
structure Line where
  time : Int
  level : LogLevel
  msg : Text
  fields : List (Text × Text)
deriving DecidableEq, Repr

/-- `timestamp_millis` -/
def Line.millis (l : Line) : Int := l.time / 1000000

-- ============================================================================
-- The buffer
-- ============================================================================

structure LogBuffer where
  capacity : Nat
  capacity_pos : 0 < capacity
  lines : List Line
  dropped : Nat

def LogBuffer.new (capacity : Nat) : LogBuffer where
  capacity := max capacity 1
  capacity_pos := Nat.lt_of_lt_of_le Nat.one_pos (Nat.le_max_right capacity 1)
  lines := []
  dropped := 0

/-- The loop of `push`. -/
def popFront (capacity : Nat) : List Line → Nat → List Line × Nat
  | [], dropped => ([], dropped)
  | l :: lines, dropped =>
      if lines.length + 1 > capacity then popFront capacity lines (dropped + 1)
      else (l :: lines, dropped)

/-- What `push` does under the lock. -/
def LogBuffer.append (b : LogBuffer) (l : Line) : LogBuffer :=
  let kept := popFront b.capacity (b.lines ++ [l]) b.dropped
  { b with lines := kept.1, dropped := kept.2 }

/-- The lines that a reader asks for. -/
def wanted (minLevel : Option LogLevel) (since : Option Int) (l : Line) : Bool :=
  minLevel.all (fun m => m.rank ≤ l.level.rank) && since.all (· < l.millis)

/-- Newest `limit` lines at/above `minLevel` newer than `since` (unix ms), plus the
    dropped counter. -/
def LogBuffer.readLines (b : LogBuffer) (limit : Nat) (minLevel : Option LogLevel)
    (since : Option Int) : List Line × Nat :=
  let sel := b.lines.filter (wanted minLevel since)
  (if sel.length > limit then sel.drop (sel.length - limit) else sel, b.dropped)

def MAX_LIMIT : Int := 2000

def minLevelParam (p : JsonDict) : Except RpcError (Option LogLevel) := do
  match ← p.string "level".toList with
  | none => .ok none
  | some level =>
      match fromLabel level with
      | some m => .ok (some m)
      | none => .error (.invalidParams "level".toList none)

/-- `logs_read` -/
def logsRead (b : LogBuffer) (p : JsonDict) : Except RpcError (List Line × Nat) := do
  let limit ← p.int "limit".toList
  if limit.getD 200 < 0 then .error (.invalidParams "limit".toList none)
  else
    let minLevel ← minLevelParam p
    let since ← p.int "since".toList
    return b.readLines (min (limit.getD 200) MAX_LIMIT).toNat minLevel since

-- ============================================================================
-- Concurrent pushes
-- ============================================================================

/-- Where a push is. -/
inductive Stage where
  | appended
  /-- About to call the callback. -/
  | called (onLine : Nat)
  | done
deriving DecidableEq, Repr

/-- The pushes in the order in which they came to the buffer, and the calls, with the
    callback and the number of the push. -/
structure Logging where
  buffer : LogBuffer
  onLine : Option Nat
  pushes : List (Line × Stage)
  calls : List (Nat × Nat)

inductive Act where
  | append (l : Line)
  | take (i : Nat)
  | call (i : Nat)
  | setOnLine (f : Option Nat)

namespace Logging

def setStage (s : Logging) (i : Nat) (l : Line) (stage : Stage) : Logging :=
  { s with pushes := s.pushes.set i (l, stage) }

def step (s : Logging) : Act → Option Logging
  | .append l =>
      some { s with buffer := s.buffer.append l, pushes := s.pushes ++ [(l, .appended)] }
  | .take i =>
      match s.pushes[i]? with
      | some (l, .appended) => some (s.setStage i l (s.onLine.elim .done .called))
      | _ => none
  | .call i =>
      match s.pushes[i]? with
      | some (l, .called f) => some { s.setStage i l .done with calls := s.calls ++ [(f, i)] }
      | _ => none
  | .setOnLine f => some { s with onLine := f }

/-- All lines that were pushed. -/
def history (s : Logging) : List Line := s.pushes.map Prod.fst

end Logging

def logging : System Logging Act where
  init s := ∃ capacity, s = ⟨.new capacity, none, [], []⟩
  step := Logging.step

-- ============================================================================
-- The buffer is the end of the history
-- ============================================================================

section

variable {s s' : Logging} {a : Act}

theorem popFront_eq (capacity : Nat) (lines : List Line) (dropped : Nat) :
    popFront capacity lines dropped =
      (lines.rtake capacity, dropped + (lines.length - capacity)) := by
  induction lines generalizing dropped with
  | nil => simp [popFront]
  | cons l lines ih =>
    unfold popFront
    by_cases hfull : lines.length + 1 > capacity
    · have htake : (l :: lines).rtake capacity = lines.rtake capacity := by
        have hdrop : lines.length + 1 - capacity = (lines.length - capacity) + 1 := by omega
        unfold List.rtake
        rw [List.length_cons, hdrop, List.drop_succ_cons]
      rw [if_pos hfull, ih, htake, List.length_cons]
      congr 1
      omega
    · have hkept : (l :: lines).rtake capacity = l :: lines := by
        have hdrop : lines.length + 1 - capacity = 0 := by omega
        unfold List.rtake
        rw [List.length_cons, hdrop, List.drop_zero]
      rw [if_neg hfull, hkept, List.length_cons]
      congr 1
      omega

/-- The buffer after the lines of the history. -/
structure Holds (b : LogBuffer) (history : List Line) : Prop where
  lines : b.lines = history.rtake b.capacity
  dropped : b.dropped + b.lines.length = history.length

theorem Holds.append {b : LogBuffer} {history : List Line} (h : Holds b history) (l : Line) :
    Holds (b.append l) (history ++ [l]) := by
  have hlines : (b.append l).lines = (history ++ [l]).rtake b.capacity := by
    unfold LogBuffer.append
    rw [popFront_eq, h.lines]
    exact RecentLog.rtake_concat_rtake b.capacity_pos history l
  refine ⟨hlines, ?_⟩
  have hdropped := h.dropped
  have hkept : (b.append l).dropped = b.dropped + (b.lines.length + 1 - b.capacity) := by
    unfold LogBuffer.append
    rw [popFront_eq, List.length_append, List.length_singleton]
  have hbound : b.lines.length ≤ b.capacity := by
    rw [h.lines, length_rtake]
    omega
  rw [hlines, length_rtake, hkept, List.length_append, List.length_singleton]
  rw [h.lines, length_rtake] at hdropped
  rw [h.lines, length_rtake]
  omega

theorem history_set {i : Nat} {l : Line} {stage stage' : Stage}
    (hi : s.pushes[i]? = some (l, stage)) : (s.setStage i l stage').history = s.history := by
  show (s.pushes.set i (l, stage')).map Prod.fst = s.pushes.map Prod.fst
  apply List.ext_getElem?
  intro j
  rw [List.getElem?_map, List.getElem?_map, List.getElem?_set]
  by_cases hij : i = j
  · subst hij
    obtain ⟨hlt, -⟩ := List.getElem?_eq_some_iff.mp hi
    rw [if_pos rfl, if_pos hlt, hi]
    rfl
  · rw [if_neg hij]

/-- Each push is announced at most once, and is over then. -/
structure Announced (s : Logging) : Prop where
  once : (s.calls.map Prod.snd).Nodup
  done : ∀ i ∈ s.calls.map Prod.snd, ∃ l, s.pushes[i]? = some (l, .done)

theorem Announced.set {i : Nat} {l : Line} {stage stage' : Stage} (h : Announced s)
    (hi : s.pushes[i]? = some (l, stage)) (hstage : stage ≠ .done) :
    Announced (s.setStage i l stage') := by
  refine ⟨h.once, fun j hj => ?_⟩
  obtain ⟨k, hk⟩ := h.done j hj
  have hne : i ≠ j := by
    rintro rfl
    rw [hi] at hk
    exact hstage (Prod.mk.inj (Option.some.inj hk)).2
  refine ⟨k, ?_⟩
  show (s.pushes.set i (l, stage'))[j]? = _
  rw [List.getElem?_set_ne hne, hk]

/-- What holds after any steps of any pushes. -/
structure Consistent (s : Logging) : Prop where
  holds : Holds s.buffer s.history
  announced : Announced s

theorem Consistent.step (h : Consistent s) (hs : s.step a = some s') : Consistent s' := by
  cases a with
  | append l =>
    obtain rfl := Option.some.inj hs
    refine ⟨?_, h.announced.once, fun i hi => ?_⟩
    · have hhistory : ({ s with
          buffer := s.buffer.append l, pushes := s.pushes ++ [(l, .appended)] } : Logging).history =
          s.history ++ [l] := List.map_append
      rw [hhistory]
      exact h.holds.append l
    · obtain ⟨k, hk⟩ := h.announced.done i hi
      obtain ⟨hlt, -⟩ := List.getElem?_eq_some_iff.mp hk
      exact ⟨k, (List.getElem?_append_left hlt).trans hk⟩
  | take i =>
    simp only [Logging.step] at hs
    split at hs
    · rename_i l hi
      obtain rfl := Option.some.inj hs
      refine ⟨?_, h.announced.set hi Stage.noConfusion⟩
      rw [history_set hi]
      exact h.holds
    · cases hs
  | call i =>
    simp only [Logging.step] at hs
    split at hs
    · rename_i l f hi
      obtain rfl := Option.some.inj hs
      -- a push that was announced would be over
      have hnew : i ∉ s.calls.map Prod.snd := by
        intro hmem
        obtain ⟨k, hk⟩ := h.announced.done i hmem
        rw [hi] at hk
        cases (Prod.mk.inj (Option.some.inj hk)).2
      obtain ⟨hlt, -⟩ := List.getElem?_eq_some_iff.mp hi
      have hset : Announced (s.setStage i l .done) := h.announced.set hi Stage.noConfusion
      refine ⟨?_, ?_, ?_⟩
      · show Holds s.buffer (s.setStage i l .done).history
        rw [history_set hi]
        exact h.holds
      · show ((s.calls ++ [(f, i)]).map Prod.snd).Nodup
        rw [List.map_append]
        exact List.nodup_append.mpr ⟨h.announced.once, List.nodup_singleton i, fun j hj k hk => by
          obtain rfl := List.mem_singleton.mp hk
          rintro rfl
          exact hnew hj⟩
      · intro j hj
        have hj : j ∈ (s.calls ++ [(f, i)]).map Prod.snd := hj
        rw [List.map_append] at hj
        rcases List.mem_append.mp hj with hj | hj
        · exact hset.done j hj
        · obtain rfl := List.mem_singleton.mp hj
          exact ⟨l, List.getElem?_set_self hlt⟩
    · cases hs
  | setOnLine f =>
    obtain rfl := Option.some.inj hs
    exact ⟨h.holds, h.announced.once, h.announced.done⟩

theorem consistent (h : logging.Reachable s) : Consistent s := by
  refine h.invariant (P := Consistent) ?_ fun s a s' hc hs => hc.step hs
  rintro _ ⟨capacity, rfl⟩
  refine ⟨⟨by simp [LogBuffer.new, Logging.history, List.rtake], rfl⟩, List.nodup_nil, ?_⟩
  intro i hi
  cases hi

-- ============================================================================
-- What a reader gets
-- ============================================================================

theorem readLines_eq (b : LogBuffer) (limit : Nat) (minLevel : Option LogLevel)
    (since : Option Int) :
    b.readLines limit minLevel since =
      ((b.lines.filter (wanted minLevel since)).rtake limit, b.dropped) := by
  unfold LogBuffer.readLines List.rtake
  simp only
  split
  · rfl
  · rename_i hshort
    rw [show (b.lines.filter (wanted minLevel since)).length - limit = 0 by omega, List.drop_zero]

/-- What an accepted request asks for. -/
theorem logsRead_ok {b : LogBuffer} {p : JsonDict} {lines : List Line} {dropped : Nat}
    (h : logsRead b p = .ok (lines, dropped)) :
    ∃ limit minLevel since, p.int "limit".toList = .ok limit ∧ 0 ≤ limit.getD 200 ∧
      minLevelParam p = .ok minLevel ∧ p.int "since".toList = .ok since ∧
      b.readLines (min (limit.getD 200) MAX_LIMIT).toNat minLevel since = (lines, dropped) := by
  unfold logsRead at h
  obtain ⟨limit, hlimit, h⟩ := bind_eq_ok h
  split at h
  · cases h
  · rename_i hneg
    obtain ⟨minLevel, hlevel, h⟩ := bind_eq_ok h
    obtain ⟨since, hsince, h⟩ := bind_eq_ok h
    exact ⟨limit, minLevel, since, hlimit, Int.not_lt.mp hneg, hlevel, hsince, Except.ok.inj h⟩

/-- Whatever pushes overtake each other, `logs.read` returns the newest of the lines that
    were pushed and that the reader wants, in the order in which they were pushed and with
    none left out between them, and says how many of all lines are no longer there; while
    none is lost it returns all that fit in its limit.  No line was announced twice. -/
theorem logs_newest (h : logging.Reachable s) {p : JsonDict} {lines : List Line} {dropped : Nat}
    (hread : logsRead s.buffer p = .ok (lines, dropped)) :
    ∃ limit minLevel since, p.int "limit".toList = .ok limit ∧ 0 ≤ limit.getD 200 ∧
      minLevelParam p = .ok minLevel ∧ p.int "since".toList = .ok since ∧
      lines.length ≤ min (limit.getD 200) MAX_LIMIT ∧
      lines = ((s.history.rtake s.buffer.capacity).filter (wanted minLevel since)).rtake
        (min (limit.getD 200) MAX_LIMIT).toNat ∧
      lines <:+ s.history.filter (wanted minLevel since) ∧
      dropped = s.history.length - s.buffer.capacity ∧
      (dropped = 0 → lines = (s.history.filter (wanted minLevel since)).rtake
        (min (limit.getD 200) MAX_LIMIT).toNat) ∧
      (s.calls.map Prod.snd).Nodup := by
  obtain ⟨limit, minLevel, since, hlimit, hpos, hlevel, hsince, hlines⟩ := logsRead_ok hread
  have hc := consistent h
  rw [readLines_eq, hc.holds.lines] at hlines
  obtain ⟨rfl, rfl⟩ := Prod.mk.inj hlines
  have hdropped : s.buffer.dropped = s.history.length - s.buffer.capacity := by
    have := hc.holds.dropped
    rw [hc.holds.lines, length_rtake] at this
    omega
  have hsuffix : s.history.rtake s.buffer.capacity <:+ s.history := List.drop_suffix _ _
  refine ⟨limit, minLevel, since, hlimit, hpos, hlevel, hsince, ?_, rfl, ?_, hdropped,
    fun hnone => ?_, hc.announced.once⟩
  · have hmax : (0 : Int) ≤ min (limit.getD 200) MAX_LIMIT := by
      unfold MAX_LIMIT
      omega
    rw [length_rtake]
    omega
  · exact (List.drop_suffix _ _).trans (hsuffix.filter _)
  · have hall : s.history.rtake s.buffer.capacity = s.history := by
      unfold List.rtake
      rw [← hdropped, hnone, List.drop_zero]
    rw [hall]

def sampleLine (n : Nat) : Line := ⟨n, .warn, [], []⟩

/-- Three lines in a buffer of two, of which the second overtakes the first at the
    callback. -/
def sampleRun : List Act :=
  [.setOnLine (some 7), .append (sampleLine 1), .append (sampleLine 2), .take 1, .call 1, .take 0,
    .append (sampleLine 3), .call 0]

theorem logs_newest_two : ∃ s, logging.runFrom ⟨.new 2, none, [], []⟩ sampleRun = some s ∧
    s.calls = [(7, 1), (7, 0)] ∧ ∃ lines dropped, logsRead s.buffer [] = .ok (lines, dropped) ∧
      dropped = s.history.length - s.buffer.capacity := by
  obtain ⟨s, hs⟩ : ∃ s, logging.runFrom ⟨.new 2, none, [], []⟩ sampleRun = some s := ⟨_, rfl⟩
  have hreach : logging.Reachable s := System.runFrom_reachable (.init ⟨2, rfl⟩) hs
  have hread : ∃ r, logsRead s.buffer [] = .ok r := ⟨_, rfl⟩
  obtain ⟨⟨lines, dropped⟩, hread⟩ := hread
  obtain ⟨limit, minLevel, since, -, -, -, -, -, -, -, hdropped, -⟩ := logs_newest hreach hread
  refine ⟨s, hs, ?_, lines, dropped, hread, hdropped⟩
  obtain rfl := Option.some.inj hs
  rfl

end

end GnDrive.Rpc.Logs
