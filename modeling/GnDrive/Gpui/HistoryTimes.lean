/-
  GnDrive.Gpui.HistoryTimes

  The times of the history (`format.rs` of the window).

  `Stamp` are the fields that a text writes, in range or not, and `Denotes` is the grammar
  that reads them; `parse_iso` goes through the same fields with its checks.  It lets the
  day 0 pass, whatever the month, and cuts a zone of four bytes in half, which need not
  fall between two characters.
-/

import GnDrive.Argon2id
import GnDrive.Gpui.Civil
import GnDrive.Lib.Cut
import GnDrive.Rpc.Params

namespace GnDrive.Gpui.History

open Calendar (IsDate dayOfDate)
open Rpc (saturate)
open Argon2id (parseU32)
open Text (trim)

-- ============================================================================
-- Reading
-- ============================================================================

def parseI32 (s : Text) : Option Int := parseInt IsI32 s

def parseI64 (s : Text) : Option Int := parseInt IsI64 s

/-- `len` of the UTF-8 text. -/
def byteLen (s : Text) : Nat := (s.map Char.utf8Size).sum

/-- `&s[..n]` and `&s[n..]`. -/
def sliceAt : Nat → Text → Except Panic (Text × Text)
  | 0, s => .ok ([], s)
  | _ + 1, [] => .error .charBoundary
  | n + 1, c :: s =>
      if c.utf8Size ≤ n + 1 then
        (sliceAt (n + 1 - c.utf8Size) s).map fun (a, b) => (c :: a, b)
      else .error .charBoundary

def isSign (c : Char) : Bool := c = '+' || c = '-'

def isColon (c : Char) : Bool := c = ':'

def isZulu (c : Char) : Bool := c = 'Z' || c = 'z'

def endsZulu (s : Text) : Bool := s.getLast?.any isZulu

def isDateEnd (c : Char) : Bool := c = 'T' || c = 't' || c = ' '

/-- The hours and minutes of a zone behind its sign. -/
def zoneFields (zone : Text) : Except Panic (Option (Int × Int)) :=
  match cutFirst isColon zone with
  | some (hour, _, minute) =>
      .ok ((parseI64 hour).bind fun h => (parseI64 minute).map fun m => (h, m))
  | none =>
      if byteLen zone = 4 then do
        let (hour, minute) ← sliceAt 2 zone
        return (parseI64 hour).bind fun h => (parseI64 minute).map fun m => (h, m)
      else if byteLen zone = 2 then .ok ((parseI64 zone).map fun h => (h, 0))
      else .ok none

def ZoneInRange (hour minute : Int) : Prop := 0 ≤ hour ∧ hour ≤ 23 ∧ 0 ≤ minute ∧ minute ≤ 59

instance (hour minute : Int) : Decidable (ZoneInRange hour minute) :=
  inferInstanceAs (Decidable (_ ∧ _))

/-- Seconds east of UTC. -/
def zoneOffset (east : Bool) (hour minute : Int) : Int :=
  (if east then 1 else -1) * (hour * 3600 + minute * 60)

def splitZone (rest : Text) : Except Panic (Option (Text × Int)) :=
  let rest := trim rest
  if endsZulu rest then .ok (some (rest.dropLast, 0))
  else
    match cutLast isSign rest with
    | none => .ok (some (rest, 0))
    | some (time, sign, zone) =>
        if time = [] then .ok none
        else do
          match ← zoneFields zone with
          | none => return none
          | some (hour, minute) =>
              if ZoneInRange hour minute then
                return some (time, zoneOffset (sign = '+') hour minute)
              else return none

/-- The year, the month and the day. -/
def dateFields (date : Text) : Option (Int × Nat × Nat) :=
  match date.splitOn '-' with
  | [year, month, day] =>
      (parseI32 year).bind fun y => (parseU32 month).bind fun m =>
        (parseU32 day).map fun d => (y, m, d)
  | _ => none

/-- The hour, the minute and the second, of which a fraction is cut off. -/
def clockFields (time : Text) : Option (Nat × Nat × Nat) :=
  match time.splitOn ':' with
  | [hour, minute] =>
      (parseU32 hour).bind fun h => (parseU32 minute).map fun m => (h, m, 0)
  | [hour, minute, second] =>
      (parseU32 hour).bind fun h => (parseU32 minute).bind fun m =>
        (parseU32 (second.takeWhile (· ≠ '.'))).map fun s => (h, m, s)
  | _ => none

def parseIso (checked : Bool) (text : Text) : Except Panic (Option Int) :=
  match cutFirst isDateEnd (trim text) with
  | none => .ok none
  | some (date, _, rest) =>
      match dateFields date with
      | none => .ok none
      | some (year, month, day) =>
          if monthLen year month < day then .ok none
          else do
            match ← splitZone rest with
            | none => return none
            | some (time, offset) =>
                match clockFields time with
                | none => return none
                | some (hour, minute, second) =>
                    if 23 < hour ∨ 59 < minute ∨ 60 < second then return none
                    else do
                      let days ← daysFromCivil checked year month day
                      return some (saturate (saturate (saturate (days * 86400)
                        + (hour * 3600 + minute * 60 + second)) - offset))

-- ============================================================================
-- Writing
-- ============================================================================

structure Civil where
  year : Int
  month : Nat
  day : Nat
  hour : Nat
  minute : Nat
deriving DecidableEq

def civilFromUnix (checked : Bool) (unix : Int) : Except Panic Civil := do
  let secs := (unix % 86400).toNat
  let (year, month, day) ← civilFromDays checked (unix / 86400)
  return { year, month, day, hour := secs / 3600, minute := secs % 3600 / 60 }

def monthName : Nat → Text
  | 1 => "Jan".toList
  | 2 => "Feb".toList
  | 3 => "Mar".toList
  | 4 => "Apr".toList
  | 5 => "May".toList
  | 6 => "Jun".toList
  | 7 => "Jul".toList
  | 8 => "Aug".toList
  | 9 => "Sep".toList
  | 10 => "Oct".toList
  | 11 => "Nov".toList
  | _ => "Dec".toList

/-- `{:02}` -/
def twoDigits (n : Nat) : Text := (Nat.toDigits 10 n).leftpad 2 '0'

def checkedSub (a b : Int) : Option Int := if IsI64 (a - b) then some (a - b) else none

def friendlyWhen (checked : Bool) (at' today : Civil) : Except Panic Text := do
  let clock := twoDigits at'.hour ++ ':' :: twoDigits at'.minute
  let atDay ← daysFromCivil checked at'.year at'.month at'.day
  let todayDay ← daysFromCivil checked today.year today.month today.day
  return match checkedSub todayDay atDay with
  | some 0 => "Today ".toList ++ clock
  | some 1 => "Yesterday ".toList ++ clock
  | _ => Nat.toDigits 10 at'.day ++ ' ' :: monthName at'.month ++ ' ' :: intDigits at'.year
      ++ ", ".toList ++ clock

def friendlyTimeIn (checked : Bool) (iso : Text) (nowUnix offsetSecs : Int) :
    Except Panic Text := do
  match ← parseIso checked iso with
  | none => return "—".toList
  | some unix =>
      let shown ← civilFromUnix checked (saturate (unix + offsetSecs))
      let today ← civilFromUnix checked (saturate (nowUnix + offsetSecs))
      friendlyWhen checked shown today

-- ============================================================================
-- What a text denotes
-- ============================================================================

structure Stamp where
  year : Int
  month : Nat
  day : Nat
  hour : Nat
  minute : Nat
  second : Nat
  /-- East of UTC. -/
  east : Bool
  zoneHour : Int
  zoneMinute : Int

namespace Stamp

variable (t : Stamp)

/-- The clock and the zone; the second 60 is a leap second. -/
structure ClockInRange : Prop where
  hour : t.hour ≤ 23
  minute : t.minute ≤ 59
  second : t.second ≤ 60
  zone : ZoneInRange t.zoneHour t.zoneMinute

/-- An existing date of a 32-bit year. -/
structure Valid : Prop extends ClockInRange t where
  year : IsI32 t.year
  date : IsDate t.year t.month t.day

/-- The Unix second. -/
def unix : Int :=
  (dayOfDate t.year t.month t.day - EPOCH) * 86400
    + (t.hour * 3600 + t.minute * 60 + t.second) - zoneOffset t.east t.zoneHour t.zoneMinute

end Stamp

/-- The zone behind its sign: hours and minutes with a colon, two digits each without one,
    or hours alone. -/
inductive ZoneText : Text → Int → Int → Prop
  | colon {hour minute : Text} {h m : Int} : (∀ c ∈ hour, c ≠ ':') → parseI64 hour = some h →
      parseI64 minute = some m → ZoneText (hour ++ ':' :: minute) h m
  | plain {hour minute : Text} {h m : Int} : (∀ c ∈ hour ++ minute, c ≠ ':') →
      byteLen hour = 2 → byteLen minute = 2 → parseI64 hour = some h →
      parseI64 minute = some m → ZoneText (hour ++ minute) h m
  | hours {hour : Text} {h : Int} : (∀ c ∈ hour, c ≠ ':') → byteLen hour = 2 →
      parseI64 hour = some h → ZoneText hour h 0

/-- What comes after the date is a clock time and a zone: `Z`, none, or one from the last
    sign on. -/
inductive ZoneCut : Text → Text → Bool → Int → Int → Prop
  | zulu {time : Text} {z : Char} : isZulu z = true → ZoneCut (time ++ [z]) time true 0 0
  | none {time : Text} : endsZulu time = false → (∀ c ∈ time, isSign c = false) →
      ZoneCut time time true 0 0
  | zone {time zone : Text} {sign : Char} {h m : Int} : time ≠ [] → isSign sign = true →
      (∀ c ∈ zone, isSign c = false) → endsZulu zone = false → ZoneText zone h m →
      ZoneCut (time ++ sign :: zone) time (sign = '+') h m

/-- The text writes the fields of `t`. -/
def Denotes (text : Text) (t : Stamp) : Prop :=
  ∃ date sep rest time, trim text = date ++ sep :: rest ∧
    isDateEnd sep = true ∧ (∀ c ∈ date, isDateEnd c = false) ∧
    dateFields date = some (t.year, t.month, t.day) ∧
    ZoneCut (trim rest) time t.east t.zoneHour t.zoneMinute ∧
    clockFields time = some (t.hour, t.minute, t.second)

/-- A zone of four bytes whose half is inside a character. -/
def CutsZone (zone : Text) : Prop :=
  (∀ c ∈ zone, c ≠ ':') ∧ byteLen zone = 4 ∧ ∀ a b, zone = a ++ b → byteLen a ≠ 2

/-- Such a zone behind a date that passes. -/
def CutsChar (text : Text) : Prop :=
  ∃ date sep rest y m d, trim text = date ++ sep :: rest ∧ isDateEnd sep = true ∧
    (∀ c ∈ date, isDateEnd c = false) ∧ dateFields date = some (y, m, d) ∧ d ≤ monthLen y m ∧
    ∃ time sign zone, trim rest = time ++ sign :: zone ∧ time ≠ [] ∧ isSign sign = true ∧
      (∀ c ∈ zone, isSign c = false) ∧ endsZulu zone = false ∧ CutsZone zone

/-- The day 0, with a clock and a zone in range. -/
def DayZero (text : Text) : Prop := ∃ t, Denotes text t ∧ t.ClockInRange ∧ t.day = 0

/-- Showing the time does not panic, and what is read as a time is the Unix second of an
    existing date. -/
def ReadsExactly (checked : Bool) (iso : Text) (nowUnix offsetSecs : Int) : Prop :=
  (∃ shown, friendlyTimeIn checked iso nowUnix offsetSecs = .ok shown) ∧
    ∀ u, parseIso checked iso = .ok (some u) → ∃ t, Denotes iso t ∧ t.Valid ∧ u = t.unix

-- ============================================================================
-- Slices and zones
-- ============================================================================

theorem utf8Size_pos (c : Char) : 1 ≤ c.utf8Size := Char.utf8Size_pos c

@[simp] theorem byteLen_cons (c : Char) (s : Text) : byteLen (c :: s) = c.utf8Size + byteLen s :=
  List.sum_cons

@[simp] theorem byteLen_append (a b : Text) : byteLen (a ++ b) = byteLen a + byteLen b := by
  unfold byteLen
  rw [List.map_append, List.sum_append]

theorem byteLen_eq_zero {s : Text} (h : byteLen s = 0) : s = [] := by
  cases s with
  | nil => rfl
  | cons c s =>
    have := utf8Size_pos c
    rw [byteLen_cons] at h
    omega

/-- A slice ends at `n`, runs out of text, or goes on behind the first character, unless
    `n` is inside of that. -/
theorem sliceAt_induction {motive : Nat → Text → Prop} (zero : ∀ s, motive 0 s)
    (short : ∀ n, motive (n + 1) [])
    (fits : ∀ n c s, c.utf8Size ≤ n + 1 → motive (n + 1 - c.utf8Size) s → motive (n + 1) (c :: s))
    (splits : ∀ n c s, ¬ c.utf8Size ≤ n + 1 → motive (n + 1) (c :: s)) (n : Nat) (s : Text) :
    motive n s := by
  induction s generalizing n with
  | nil =>
    cases n with
    | zero => exact zero []
    | succ n => exact short n
  | cons c s ih =>
    cases n with
    | zero => exact zero (c :: s)
    | succ n =>
      by_cases hfits : c.utf8Size ≤ n + 1
      · exact fits n c s hfits (ih _)
      · exact splits n c s hfits

/-- A slice that goes through is the only one of its length. -/
theorem sliceAt_eq_ok {n : Nat} {s a b : Text} :
    sliceAt n s = .ok (a, b) ↔ s = a ++ b ∧ byteLen a = n := by
  induction n, s using sliceAt_induction generalizing a with
  | zero s =>
    rw [sliceAt]
    constructor
    · intro h
      obtain ⟨rfl, rfl⟩ := Prod.mk.inj (Except.ok.inj h)
      exact ⟨rfl, rfl⟩
    · rintro ⟨rfl, h⟩
      obtain rfl := byteLen_eq_zero h
      rfl
  | short n =>
    refine iff_of_false (by simp [sliceAt]) ?_
    rintro ⟨h, hlen⟩
    obtain ⟨rfl, -⟩ := List.append_eq_nil_iff.mp h.symm
    cases hlen
  | fits n c s hfits ih =>
    rw [sliceAt, if_pos hfits]
    constructor
    · intro h
      cases hslice : sliceAt (n + 1 - c.utf8Size) s with
      | error e =>
        rw [hslice] at h
        cases h
      | ok cut =>
        rw [hslice] at h
        obtain ⟨rfl, rfl⟩ := Prod.mk.inj (Except.ok.inj h)
        obtain ⟨rfl, hlen⟩ := ih.mp hslice
        refine ⟨rfl, ?_⟩
        rw [byteLen_cons]
        omega
    · rintro ⟨h, hlen⟩
      cases a with
      | nil => cases hlen
      | cons d a =>
        obtain ⟨rfl, rfl⟩ := List.cons.inj h
        rw [byteLen_cons] at hlen
        rw [ih.mpr ⟨rfl, by omega⟩]
        rfl
  | splits n c s hsplits =>
    rw [sliceAt, if_neg hsplits]
    refine iff_of_false (fun h => by cases h) ?_
    rintro ⟨h, hlen⟩
    cases a with
    | nil => cases hlen
    | cons d a =>
      obtain ⟨rfl, -⟩ := List.cons.inj h
      rw [byteLen_cons] at hlen
      omega

theorem sliceAt_error {n : Nat} {s : Text} {p : Panic} (h : sliceAt n s = .error p) :
    p = .charBoundary := by
  induction n, s using sliceAt_induction with
  | zero s =>
    rw [sliceAt] at h
    cases h
  | short n => exact (Except.error.inj h).symm
  | fits n c s hfits ih =>
    rw [sliceAt, if_pos hfits] at h
    cases hslice : sliceAt (n + 1 - c.utf8Size) s with
    | error e =>
      rw [hslice] at h
      obtain rfl := Except.error.inj h
      exact ih hslice
    | ok cut =>
      rw [hslice] at h
      cases h
  | splits n c s hsplits =>
    rw [sliceAt, if_neg hsplits] at h
    exact (Except.error.inj h).symm

section

variable {zone rest time : Text} {h m : Int} {p : Panic}

theorem not_colon {s : Text} (hs : ∀ c ∈ s, c ≠ ':') : ∀ c ∈ s, isColon c = false :=
  fun c hc => decide_eq_false (hs c hc)

theorem readFields {hour minute : Text} :
    ((parseI64 hour).bind fun h => (parseI64 minute).map fun m => (h, m)) = some (h, m) ↔
      parseI64 hour = some h ∧ parseI64 minute = some m := by
  constructor
  · intro hread
    obtain ⟨h', hh, hmap⟩ := Option.bind_eq_some_iff.mp hread
    obtain ⟨m', hm, heq⟩ := Option.map_eq_some_iff.mp hmap
    obtain ⟨rfl, rfl⟩ := Prod.mk.inj heq
    exact ⟨hh, hm⟩
  · rintro ⟨hh, hm⟩
    rw [hh, hm]
    rfl

theorem zoneFields_eq_some : zoneFields zone = .ok (some (h, m)) ↔ ZoneText zone h m := by
  constructor
  · intro hread
    unfold zoneFields at hread
    cases hcut : cutFirst isColon zone with
    | some cut =>
      obtain ⟨hour, c, minute⟩ := cut
      rw [hcut] at hread
      obtain ⟨rfl, hc, hhour⟩ := cutFirst_eq_some.mp hcut
      obtain rfl := of_decide_eq_true hc
      obtain ⟨hh, hm⟩ := readFields.mp (Except.ok.inj hread)
      exact .colon (fun c hc => of_decide_eq_false (hhour c hc)) hh hm
    | none =>
      rw [hcut] at hread
      have hcolon : ∀ c ∈ zone, c ≠ ':' := fun c hc =>
        of_decide_eq_false (cutFirst_eq_none.mp hcut c hc)
      dsimp only at hread
      by_cases hfour : byteLen zone = 4
      · rw [if_pos hfour] at hread
        cases hslice : sliceAt 2 zone with
        | error e =>
          rw [hslice] at hread
          cases hread
        | ok cut =>
          obtain ⟨hour, minute⟩ := cut
          rw [hslice] at hread
          obtain ⟨rfl, hlen⟩ := sliceAt_eq_ok.mp hslice
          obtain ⟨hh, hm⟩ := readFields.mp (Except.ok.inj hread)
          rw [byteLen_append, hlen] at hfour
          exact .plain hcolon hlen (by omega) hh hm
      · rw [if_neg hfour] at hread
        by_cases htwo : byteLen zone = 2
        · rw [if_pos htwo] at hread
          obtain ⟨h', hh, heq⟩ := Option.map_eq_some_iff.mp (Except.ok.inj hread)
          obtain ⟨rfl, rfl⟩ := Prod.mk.inj heq
          exact .hours hcolon htwo hh
        · rw [if_neg htwo] at hread
          cases hread
  · intro htext
    unfold zoneFields
    cases htext with
    | colon hcolon hh hm =>
      rw [cutFirst_eq_some.mpr ⟨rfl, rfl, not_colon hcolon⟩]
      exact congrArg Except.ok (readFields.mpr ⟨hh, hm⟩)
    | plain hcolon hlen hlen' hh hm =>
      rw [cutFirst_eq_none.mpr (not_colon hcolon)]
      dsimp only
      rw [if_pos (by rw [byteLen_append, hlen, hlen']), sliceAt_eq_ok.mpr ⟨rfl, hlen⟩]
      exact congrArg Except.ok (readFields.mpr ⟨hh, hm⟩)
    | hours hcolon hlen hh =>
      rw [cutFirst_eq_none.mpr (not_colon hcolon)]
      dsimp only
      rw [if_neg (by omega), if_pos hlen, hh]
      rfl

theorem zoneFields_error : zoneFields zone = .error p ↔ p = .charBoundary ∧ CutsZone zone := by
  unfold zoneFields
  cases hcut : cutFirst isColon zone with
  | some cut =>
    obtain ⟨hour, c, minute⟩ := cut
    refine iff_of_false (fun h => by cases h) ?_
    rintro ⟨-, hcolon, -⟩
    obtain ⟨rfl, hc, -⟩ := cutFirst_eq_some.mp hcut
    exact hcolon c (List.mem_append_right _ List.mem_cons_self) (of_decide_eq_true hc)
  | none =>
    have hcolon : ∀ c ∈ zone, c ≠ ':' := fun c hc =>
      of_decide_eq_false (cutFirst_eq_none.mp hcut c hc)
    dsimp only
    by_cases hfour : byteLen zone = 4
    · rw [if_pos hfour]
      cases hslice : sliceAt 2 zone with
      | error e =>
        have hcuts : CutsZone zone := by
          refine ⟨hcolon, hfour, fun a b hab hlen => ?_⟩
          rw [sliceAt_eq_ok.mpr ⟨hab, hlen⟩] at hslice
          cases hslice
        obtain rfl := sliceAt_error hslice
        constructor
        · intro h
          exact ⟨(Except.error.inj h).symm, hcuts⟩
        · rintro ⟨rfl, -⟩
          rfl
      | ok cut =>
        refine iff_of_false (fun h => by cases h) ?_
        rintro ⟨-, -, -, hne⟩
        obtain ⟨hzone, hlen⟩ := sliceAt_eq_ok.mp hslice
        exact hne _ _ hzone hlen
    · rw [if_neg hfour]
      refine iff_of_false (fun h => ?_) (fun h => hfour h.2.2.1)
      split at h <;> cases h

theorem endsZulu_cons {sign : Char} (hsign : isSign sign = true) :
    endsZulu (time ++ sign :: zone) = endsZulu zone := by
  have hlast : isZulu sign = false := by
    have : sign = '+' ∨ sign = '-' := by simpa [isSign] using hsign
    rcases this with rfl | rfl <;> rfl
  unfold endsZulu
  cases zone with
  | nil =>
    rw [List.getLast?_append]
    exact hlast
  | cons c zone =>
    rw [List.getLast?_append, List.getLast?_cons_cons]
    cases h : (c :: zone).getLast? with
    | none => simp at h
    | some d => rfl

theorem splitZone_eq_some {off : Int} : splitZone rest = .ok (some (time, off)) ↔
    ∃ east h m, ZoneCut (trim rest) time east h m ∧ ZoneInRange h m ∧
      off = zoneOffset east h m := by
  unfold splitZone
  generalize trim rest = rest
  constructor
  · intro hsplit
    dsimp only at hsplit
    cases hzulu : endsZulu rest with
    | true =>
      rw [hzulu, if_pos rfl] at hsplit
      obtain ⟨rfl, rfl⟩ := Prod.mk.inj (Option.some.inj (Except.ok.inj hsplit))
      obtain ⟨z, hlast, hz⟩ := (Option.any_eq_true _ _).mp hzulu
      refine ⟨true, 0, 0, ?_, by decide, rfl⟩
      have hrest := List.dropLast_append_getLast? z hlast
      have hcut : ZoneCut (rest.dropLast ++ [z]) rest.dropLast true 0 0 := .zulu hz
      rwa [hrest] at hcut
    | false =>
      rw [hzulu, if_neg Bool.false_ne_true] at hsplit
      cases hcut : cutLast isSign rest with
      | none =>
        rw [hcut] at hsplit
        obtain ⟨rfl, rfl⟩ := Prod.mk.inj (Option.some.inj (Except.ok.inj hsplit))
        exact ⟨true, 0, 0, .none hzulu (cutLast_eq_none.mp hcut), by decide, rfl⟩
      | some cut =>
        obtain ⟨before, sign, zone⟩ := cut
        rw [hcut] at hsplit
        obtain ⟨rfl, hsign, hzone⟩ := cutLast_eq_some.mp hcut
        rw [endsZulu_cons hsign] at hzulu
        dsimp only at hsplit
        by_cases htime : before = []
        · rw [if_pos htime] at hsplit
          cases hsplit
        rw [if_neg htime] at hsplit
        cases hfields : zoneFields zone with
        | error e =>
          rw [hfields] at hsplit
          cases hsplit
        | ok fields =>
          rw [hfields] at hsplit
          cases fields with
          | none => cases hsplit
          | some hm =>
            obtain ⟨h, m⟩ := hm
            change (if ZoneInRange h m then _ else _) = _ at hsplit
            by_cases hrange : ZoneInRange h m
            · rw [if_pos hrange] at hsplit
              obtain ⟨rfl, rfl⟩ := Prod.mk.inj (Option.some.inj (Except.ok.inj hsplit))
              exact ⟨_, h, m, .zone htime hsign hzone hzulu (zoneFields_eq_some.mp hfields),
                hrange, rfl⟩
            · rw [if_neg hrange] at hsplit
              cases hsplit
  · rintro ⟨east, h, m, hcut, hrange, rfl⟩
    dsimp only
    cases hcut with
    | zulu hz =>
      rw [if_pos (by rw [endsZulu, List.getLast?_concat]; exact hz), List.dropLast_concat]
      rfl
    | none hzulu hsigns =>
      rw [hzulu, if_neg Bool.false_ne_true, cutLast_eq_none.mpr hsigns]
      rfl
    | zone htime hsign hzone hzulu htext =>
      rw [endsZulu_cons hsign, hzulu, if_neg Bool.false_ne_true,
        cutLast_eq_some.mpr ⟨rfl, hsign, hzone⟩]
      dsimp only
      rw [if_neg htime, zoneFields_eq_some.mpr htext]
      exact if_pos hrange

theorem splitZone_error : splitZone rest = .error p ↔
    p = .charBoundary ∧ ∃ time sign zone, trim rest = time ++ sign :: zone ∧ time ≠ [] ∧
      isSign sign = true ∧ (∀ c ∈ zone, isSign c = false) ∧ endsZulu zone = false ∧
      CutsZone zone := by
  unfold splitZone
  generalize trim rest = rest
  constructor
  · intro hsplit
    dsimp only at hsplit
    cases hzulu : endsZulu rest with
    | true =>
      rw [hzulu, if_pos rfl] at hsplit
      cases hsplit
    | false =>
      rw [hzulu, if_neg Bool.false_ne_true] at hsplit
      cases hcut : cutLast isSign rest with
      | none =>
        rw [hcut] at hsplit
        cases hsplit
      | some cut =>
        obtain ⟨time, sign, zone⟩ := cut
        rw [hcut] at hsplit
        obtain ⟨rfl, hsign, hzone⟩ := cutLast_eq_some.mp hcut
        rw [endsZulu_cons hsign] at hzulu
        dsimp only at hsplit
        by_cases htime : time = []
        · rw [if_pos htime] at hsplit
          cases hsplit
        rw [if_neg htime] at hsplit
        cases hfields : zoneFields zone with
        | error e =>
          rw [hfields] at hsplit
          obtain rfl := Except.error.inj hsplit
          obtain ⟨rfl, hcuts⟩ := zoneFields_error.mp hfields
          exact ⟨rfl, time, sign, zone, rfl, htime, hsign, hzone, hzulu, hcuts⟩
        | ok fields =>
          rw [hfields] at hsplit
          cases fields with
          | none => cases hsplit
          | some hm =>
            change (if ZoneInRange hm.1 hm.2 then _ else _) = _ at hsplit
            split at hsplit <;> cases hsplit
  · rintro ⟨rfl, time, sign, zone, rfl, htime, hsign, hzone, hzulu, hcuts⟩
    dsimp only
    rw [endsZulu_cons hsign, hzulu, if_neg Bool.false_ne_true,
      cutLast_eq_some.mpr ⟨rfl, hsign, hzone⟩]
    dsimp only
    rw [if_neg htime, zoneFields_error.mpr ⟨rfl, hcuts⟩]
    rfl

end

-- ============================================================================
-- Reading a time
-- ============================================================================

section

variable {checked : Bool} {text : Text} {t : Stamp}

theorem ok_bind {α β : Type} (a : α) (f : α → Except Panic β) : (.ok a >>= f) = f a := rfl

theorem parseIso_denotes (hden : Denotes text t) (hrange : t.ClockInRange)
    (hlen : t.day ≤ monthLen t.year t.month) :
    parseIso checked text = (daysFromCivil checked t.year t.month t.day).map fun days =>
      some (saturate (saturate (saturate (days * 86400)
        + (t.hour * 3600 + t.minute * 60 + t.second))
          - zoneOffset t.east t.zoneHour t.zoneMinute)) := by
  obtain ⟨date, sep, rest, time, htext, hsep, hdate, hfields, hzone, hclock⟩ := hden
  unfold parseIso
  rw [cutFirst_eq_some.mpr ⟨htext, hsep, hdate⟩]
  dsimp only
  rw [hfields]
  dsimp only
  rw [if_neg (Nat.not_lt.mpr hlen),
    splitZone_eq_some.mpr ⟨_, _, _, hzone, hrange.zone, rfl⟩]
  rw [ok_bind]
  dsimp only
  rw [hclock]
  have hclock : ¬ (23 < t.hour ∨ 59 < t.minute ∨ 60 < t.second) := by
    have h₁ := hrange.hour
    have h₂ := hrange.minute
    have h₃ := hrange.second
    omega
  dsimp only
  rw [if_neg hclock]
  cases daysFromCivil checked t.year t.month t.day <;> rfl

theorem parseIso_cuts (h : CutsChar text) : parseIso checked text = .error .charBoundary := by
  obtain ⟨date, sep, rest, y, m, d, htext, hsep, hdate, hfields, hlen, hzone⟩ := h
  unfold parseIso
  rw [cutFirst_eq_some.mpr ⟨htext, hsep, hdate⟩]
  dsimp only
  rw [hfields]
  dsimp only
  rw [if_neg (Nat.not_lt.mpr hlen), splitZone_error.mpr ⟨rfl, hzone⟩]
  rfl

/-- A text that is read is one of these two kinds. -/
theorem parseIso_cases (checked : Bool) (text : Text) :
    (∃ t, Denotes text t ∧ t.ClockInRange ∧ t.day ≤ monthLen t.year t.month) ∨ CutsChar text ∨
      parseIso checked text = .ok none := by
  unfold parseIso
  cases hcut : cutFirst isDateEnd (trim text) with
  | none => exact .inr (.inr rfl)
  | some cut =>
    obtain ⟨date, sep, rest⟩ := cut
    obtain ⟨htext, hsep, hdate⟩ := cutFirst_eq_some.mp hcut
    dsimp only
    cases hfields : dateFields date with
    | none => exact .inr (.inr rfl)
    | some fields =>
      obtain ⟨y, m, d⟩ := fields
      dsimp only
      by_cases hlen : monthLen y m < d
      · exact .inr (.inr (if_pos hlen))
      rw [if_neg hlen]
      cases hzone : splitZone rest with
      | error p =>
        exact .inr (.inl ⟨date, sep, rest, y, m, d, htext, hsep, hdate, hfields,
          Nat.not_lt.mp hlen, (splitZone_error.mp hzone).2⟩)
      | ok zone =>
        cases zone with
        | none => exact .inr (.inr rfl)
        | some timeOff =>
          obtain ⟨time, off⟩ := timeOff
          obtain ⟨east, zh, zm, hzonecut, hzonerange, -⟩ := splitZone_eq_some.mp hzone
          rw [ok_bind]
          dsimp only
          cases hclock : clockFields time with
          | none => exact .inr (.inr rfl)
          | some clock =>
            obtain ⟨h, mi, sec⟩ := clock
            dsimp only
            by_cases hrange : 23 < h ∨ 59 < mi ∨ 60 < sec
            · exact .inr (.inr (if_pos hrange))
            · refine .inl ⟨⟨y, m, d, h, mi, sec, east, zh, zm⟩, ?_, ?_, Nat.not_lt.mp hlen⟩
              · exact ⟨date, sep, rest, time, htext, hsep, hdate, hfields, hzonecut, hclock⟩
              · exact ⟨by show h ≤ 23; omega, by show mi ≤ 59; omega, by show sec ≤ 60; omega,
                  hzonerange⟩

/-- Two readings have the same date. -/
theorem Denotes.date_eq {t' : Stamp} (h : Denotes text t) (h' : Denotes text t') :
    (t.year, t.month, t.day) = (t'.year, t'.month, t'.day) := by
  obtain ⟨date, sep, rest, time, htext, hsep, hdate, hfields, -⟩ := h
  obtain ⟨date', sep', rest', time', htext', hsep', hdate', hfields', -⟩ := h'
  have hcut := cutFirst_eq_some.mpr ⟨htext, hsep, hdate⟩
  rw [cutFirst_eq_some.mpr ⟨htext', hsep', hdate'⟩] at hcut
  obtain ⟨rfl, -⟩ := Prod.mk.inj (Option.some.inj hcut)
  exact Option.some.inj (hfields.symm.trans hfields')

/-- The fields fit their types. -/
theorem Denotes.fits (h : Denotes text t) :
    IsI32 t.year ∧ t.month < 2 ^ 32 ∧ t.day < 2 ^ 32 := by
  obtain ⟨date, sep, rest, time, -, -, -, hfields, -⟩ := h
  unfold dateFields at hfields
  split at hfields
  · obtain ⟨y, hy, hfields⟩ := Option.bind_eq_some_iff.mp hfields
    obtain ⟨m, hm, hfields⟩ := Option.bind_eq_some_iff.mp hfields
    obtain ⟨d, hd, hfields⟩ := Option.map_eq_some_iff.mp hfields
    obtain ⟨rfl, hmd⟩ := Prod.mk.inj hfields
    obtain ⟨rfl, rfl⟩ := Prod.mk.inj hmd
    exact ⟨parseInt_fits hy, Argon2id.parseU32_lt hm, Argon2id.parseU32_lt hd⟩
  · cases hfields

/-- A day that the month has, unless it is 0. -/
theorem isDate_of_len {y : Int} {m d : Nat} (hlen : d ≤ monthLen y m) (hd : d ≠ 0) :
    IsDate y m d := by
  have hmonth : 1 ≤ m ∧ m ≤ 12 := by
    by_contra hout
    have hzero : monthLen y m = 0 := by
      unfold monthLen
      split <;> first | rfl | omega
    omega
  exact isDate_iff.mpr ⟨hmonth.1, hmonth.2, Nat.pos_of_ne_zero hd, hlen⟩

theorem saturate_eq {n : Int} (h : IsI64 n) : saturate n = n := by
  unfold IsI64 at h
  unfold saturate
  omega

/-- Nothing saturates. -/
theorem unix_eq (h : t.Valid) :
    saturate (saturate (saturate ((dayOfDate t.year t.month t.day - EPOCH) * 86400)
      + (t.hour * 3600 + t.minute * 60 + t.second))
        - zoneOffset t.east t.zoneHour t.zoneMinute) = t.unix := by
  have hday : -800000000000 ≤ dayOfDate t.year t.month t.day - EPOCH ∧
      dayOfDate t.year t.month t.day - EPOCH ≤ 800000000000 := by
    obtain ⟨hlow, hhigh⟩ := Calendar.year_bounds (dayOfDate t.year t.month t.day)
    rw [h.date.year] at hlow hhigh
    obtain ⟨hmin, hmax⟩ := h.year
    unfold Calendar.yearStart at hlow hhigh
    unfold EPOCH
    omega
  have hzone : -86400 ≤ zoneOffset t.east t.zoneHour t.zoneMinute ∧
      zoneOffset t.east t.zoneHour t.zoneMinute ≤ 86400 := by
    obtain ⟨h₁, h₂, h₃, h₄⟩ := h.zone
    unfold zoneOffset
    cases t.east <;> simp only [Bool.false_eq_true, if_false, if_true] <;> omega
  have h₁ := h.hour
  have h₂ := h.minute
  have h₃ := h.second
  unfold Stamp.unix
  generalize dayOfDate t.year t.month t.day - EPOCH = day at hday
  generalize zoneOffset t.east t.zoneHour t.zoneMinute = off at hzone
  have hdays : saturate (day * 86400) = day * 86400 := saturate_eq (by unfold IsI64; omega)
  rw [hdays]
  have hsecs : saturate (day * 86400 + (t.hour * 3600 + t.minute * 60 + t.second))
      = day * 86400 + (t.hour * 3600 + t.minute * 60 + t.second) :=
    saturate_eq (by unfold IsI64; omega)
  rw [hsecs]
  exact saturate_eq (by unfold IsI64; omega)

end

-- ============================================================================
-- Showing a time
-- ============================================================================

section

variable {checked : Bool} {iso : Text} {nowUnix offsetSecs : Int}

theorem isI64_saturate (n : Int) : IsI64 (saturate n) := by
  unfold IsI64 saturate
  omega

/-- Days computed from a Unix second are written with a day of at least 1. -/
theorem civilFromUnix_ok {unix : Int} (h : IsI64 unix) :
    ∃ c, civilFromUnix checked unix = .ok c ∧ c.month ≤ 12 ∧ 1 ≤ c.day ∧ c.day ≤ 31 := by
  have hfits : IsI64 (unix / 86400 + 719468) := by
    obtain ⟨hmin, hmax⟩ := h
    unfold IsI64
    omega
  obtain ⟨y, m, d, hdate, -, hcivil⟩ := @civilFromDays_date checked _ hfits
  unfold civilFromUnix
  rw [hcivil]
  exact ⟨_, rfl, hdate.last_month, hdate.first_day, day_le hdate⟩

theorem friendlyWhen_ok {shown today : Civil} (hmonth : shown.month ≤ 12) (hfirst : 1 ≤ shown.day)
    (hlast : shown.day ≤ 31) (hmonth' : today.month ≤ 12) (hfirst' : 1 ≤ today.day)
    (hlast' : today.day ≤ 31) : ∃ s, friendlyWhen checked shown today = .ok s := by
  unfold friendlyWhen
  rw [daysFromCivil_eq (by omega) (by omega), if_neg (fun h => by omega),
    daysFromCivil_eq (by omega) (by omega), if_neg (fun h => by omega)]
  exact ⟨_, rfl⟩

theorem friendlyTimeIn_ok {unix : Option Int} (h : parseIso checked iso = .ok unix) :
    ∃ shown, friendlyTimeIn checked iso nowUnix offsetSecs = .ok shown := by
  unfold friendlyTimeIn
  rw [h, ok_bind]
  cases unix with
  | none => exact ⟨_, rfl⟩
  | some unix =>
    obtain ⟨c, hc, hm, hd, hd'⟩ :=
      @civilFromUnix_ok checked _ (isI64_saturate (unix + offsetSecs))
    obtain ⟨c', hc', hm', hday, hday'⟩ :=
      @civilFromUnix_ok checked _ (isI64_saturate (nowUnix + offsetSecs))
    dsimp only
    rw [hc, ok_bind, hc', ok_bind]
    exact friendlyWhen_ok hm hd hd' hm' hday hday'

theorem friendlyTimeIn_panics {p : Panic} (h : parseIso checked iso = .error p) :
    friendlyTimeIn checked iso nowUnix offsetSecs = .error p := by
  unfold friendlyTimeIn
  rw [h]
  rfl

theorem not_dayZero (h : ReadsExactly checked iso nowUnix offsetSecs) : ¬ DayZero iso := by
  rintro ⟨t, hden, hrange, hzero⟩
  obtain ⟨⟨shown, hshown⟩, hexact⟩ := h
  have hparse := @parseIso_denotes checked _ _ hden hrange (by omega)
  cases hdays : daysFromCivil checked t.year t.month t.day with
  | error p =>
    rw [hdays] at hparse
    rw [friendlyTimeIn_panics hparse] at hshown
    cases hshown
  | ok days =>
    rw [hdays] at hparse
    obtain ⟨t', hden', hvalid, -⟩ := hexact _ hparse
    have hfirst := hvalid.date.first_day
    have hday : t.day = t'.day := congrArg (·.2.2) (hden.date_eq hden')
    omega

/-- Every text is shown without a panic, and what is read as a time is the second it
    denotes, exactly if the text neither has the day 0 nor a zone of four bytes that
    cannot be cut in half. -/
theorem reads_exactly_iff (checked : Bool) (iso : Text) (nowUnix offsetSecs : Int) :
    ReadsExactly checked iso nowUnix offsetSecs ↔ ¬ DayZero iso ∧ ¬ CutsChar iso := by
  constructor
  · intro h
    refine ⟨not_dayZero h, fun hcuts => ?_⟩
    obtain ⟨⟨shown, hshown⟩, -⟩ := h
    rw [friendlyTimeIn_panics (parseIso_cuts hcuts)] at hshown
    cases hshown
  · rintro ⟨hzero, hcuts⟩
    rcases parseIso_cases checked iso with ⟨t, hden, hrange, hlen⟩ | hcut | hnone
    · have hdate := isDate_of_len hlen fun h => hzero ⟨t, hden, hrange, h⟩
      have hvalid : t.Valid := ⟨hrange, hden.fits.1, hdate⟩
      have hparse := @parseIso_denotes checked _ _ hden hrange hlen
      rw [daysFromCivil_date hdate] at hparse
      refine ⟨friendlyTimeIn_ok hparse, fun u hu => ⟨t, hden, hvalid, ?_⟩⟩
      rw [hparse] at hu
      rw [← unix_eq hvalid]
      exact (Option.some.inj (Except.ok.inj hu)).symm
    · exact absurd hcut hcuts
    · refine ⟨friendlyTimeIn_ok hnone, fun u hu => ?_⟩
      rw [hnone] at hu
      cases hu

end

/-- A zone with a letter of two bytes in its middle. -/
theorem zone_panics : ¬ ReadsExactly false "2026-10-21T18:20:00+0é0".toList 0 0 := by
  have hpanics : friendlyTimeIn false "2026-10-21T18:20:00+0é0".toList 0 0
      = .error .charBoundary := by decide +kernel
  rintro ⟨⟨shown, hshown⟩, -⟩
  rw [hpanics] at hshown
  cases hshown

end GnDrive.Gpui.History
