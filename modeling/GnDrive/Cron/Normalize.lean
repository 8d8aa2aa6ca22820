/-
  GnDrive.Cron.Normalize

  `normalize_cron` beside `CronSchedule::parse`.

  The two read the same grammar: an expression and its normal form have the same
  words, a `0` in front apart, and a normal form is its own normal form
  (`normalizeCron_again`).  `normalize_cron` parses the descriptors only: of the
  other forms it counts the fields and does not look into them
  (`normalize_agrees_iff`).
-/

import GnDrive.Cron.Fields

namespace GnDrive.Cron

open Text (trim splitWhitespace IsWord)

/-- Normalise a UI expression for a seconds-aware parser: 5 fields get a
    leading `0`; 6 fields and `@descriptors` pass through. -/
def normalizeCron (parseDuration : Text → Option Int) (expr : Text) : Except CronError Text :=
  let e := trim expr
  if e = [] then .error .empty
  else if e.head? = some '@' then do
    let _ ← CronSchedule.parse parseDuration e
    return e
  else
    let fields := splitWhitespace e
    match fields.length with
    | 5 => .ok ("0 ".toList ++ [' '].intercalate fields)
    | 6 => .ok ([' '].intercalate fields)
    | n => .error (.badFieldCount n)

/-- A field is a list of items, each with its bounds in order and in the range of
    the field. -/
def WellFormed (field : Text) (min max : Nat) (names : List Text) (nameBase : Nat) : Prop :=
  ∃ items, readItems field names nameBase = some items ∧
    ∀ i ∈ items, min ≤ i.lo min ∧ i.lo min ≤ i.hi max ∧ i.hi max ≤ max

/-- Seconds, minutes, hours, days of the month, months and days of the week. -/
def FieldsWellFormed : List Text → Prop
  | [s, m, h, dom, mon, dow] =>
      WellFormed s 0 59 [] 0 ∧ WellFormed m 0 59 [] 0 ∧ WellFormed h 0 23 [] 0 ∧
        WellFormed dom 1 31 [] 0 ∧ WellFormed mon 1 12 monthNames 1 ∧
        WellFormed dow 0 7 dowNames 0
  | _ => False

/-- The six fields of an expression; five get a `0` in front. -/
def sixFields (fields : List Text) : List Text :=
  if fields.length = 5 then "0".toList :: fields else fields

/-- The normaliser and the parser agree on an expression. -/
def NormalizeAgrees (parseDuration : Text → Option Int) (expr : Text) : Prop :=
  ((∃ n, normalizeCron parseDuration expr = .ok n) ↔
    ∃ s, CronSchedule.parse parseDuration expr = .ok s) ∧
  ∀ n, normalizeCron parseDuration expr = .ok n →
    (∃ s, CronSchedule.parse parseDuration n = .ok s ∧
      CronSchedule.parse parseDuration expr = .ok s) ∧
    normalizeCron parseDuration n = .ok n

section

variable {parseDuration : Text → Option Int} {expr : Text}

/-! ## What the parser accepts -/

theorem parseField_of_wellFormed {field : Text} {min max nameBase : Nat} {names : List Text}
    (h : WellFormed field min max names nameBase) :
    ∃ f, parseField field min max names nameBase = .ok f := by
  obtain ⟨items, hitems, hbounds⟩ := h
  unfold readItems at hitems
  unfold parseField
  generalize Field.empty max = f
  generalize (Text.toLowercase (trim field)).splitOn ',' = parts at hitems
  induction parts generalizing items f with
  | nil => exact ⟨f, rfl⟩
  | cons part parts ih =>
    rw [List.mapM_cons] at hitems
    obtain ⟨i, hi, hitems⟩ := Option.bind_eq_some_iff.mp hitems
    obtain ⟨rest, hrest, heq⟩ := Option.bind_eq_some_iff.mp hitems
    obtain rfl := Option.some.inj heq
    have hin := hbounds i List.mem_cons_self
    have hstep : ¬ (i.lo min < min ∨ i.hi max > max ∨ i.lo min > i.hi max) := by omega
    obtain ⟨g, hg⟩ := ih rest (fun j hj => hbounds j (List.mem_cons_of_mem _ hj))
      (f.addRange (i.lo min) (i.hi max) i.step (by omega)) hrest
    refine ⟨g, ?_⟩
    rw [List.foldlM_cons, parsePart_eq, hi]
    simp only [Option.map_some, dif_neg hstep]
    exact hg

theorem parseField_ok_iff {field : Text} {min max nameBase : Nat} {names : List Text} :
    (∃ f, parseField field min max names nameBase = .ok f) ↔
      WellFormed field min max names nameBase := by
  refine ⟨?_, parseField_of_wellFormed⟩
  rintro ⟨f, hf⟩
  obtain ⟨items, hitems, hbounds, -⟩ := parseField_ok hf
  refine ⟨items, hitems, fun i hi => ?_⟩
  obtain ⟨hmin, hle, hmax, -, -⟩ := hbounds i hi
  exact ⟨hmin, hle, hmax⟩

theorem bind_ok_iff {ε α β : Type} {x : Except ε α} {f : α → Except ε β} :
    (∃ b, (x >>= f) = .ok b) ↔ ∃ a, x = .ok a ∧ ∃ b, f a = .ok b := by
  cases x with
  | error e =>
    refine iff_of_false ?_ ?_
    · rintro ⟨b, hb⟩
      cases hb
    · rintro ⟨a, ha, -⟩
      cases ha
  | ok a =>
    refine ⟨fun h => ⟨a, rfl, h⟩, ?_⟩
    rintro ⟨a', ha, h⟩
    obtain rfl := Except.ok.inj ha
    exact h

theorem parseFields_sixFields (fields : List Text) :
    parseFields (sixFields fields) = parseFields fields := by
  unfold sixFields
  split
  · rename_i hfive
    unfold parseFields
    simp only [hfive, List.length_cons]
  · rfl

theorem parseFields_ok_iff {fields : List Text} (h : fields.length = 6) :
    (∃ s, parseFields fields = .ok s) ↔ FieldsWellFormed fields := by
  match fields, h with
  | [s, m, h, dom, mon, dow], _ =>
    show (∃ c, (parseField s 0 59 [] 0 >>= fun s => parseField m 0 59 [] 0 >>= fun m =>
      parseField h 0 23 [] 0 >>= fun h => parseField dom 1 31 [] 0 >>= fun d =>
      parseField mon 1 12 monthNames 1 >>= fun mon => parseField dow 0 7 dowNames 0 >>= fun w =>
      Except.ok (ε := CronError) (CronSchedule.mk s m h d mon w.foldSunday (isRestricted dom)
        (isRestricted dow) none (by simp))) = .ok c) ↔ _
    simp only [bind_ok_iff]
    constructor
    · rintro ⟨a, ha, b, hb, c, hc, d, hd, e, he, f, hf, -⟩
      exact ⟨parseField_ok_iff.mp ⟨a, ha⟩, parseField_ok_iff.mp ⟨b, hb⟩,
        parseField_ok_iff.mp ⟨c, hc⟩, parseField_ok_iff.mp ⟨d, hd⟩,
        parseField_ok_iff.mp ⟨e, he⟩, parseField_ok_iff.mp ⟨f, hf⟩⟩
    · rintro ⟨ha, hb, hc, hd, he, hf⟩
      obtain ⟨a, ha⟩ := parseField_of_wellFormed ha
      obtain ⟨b, hb⟩ := parseField_of_wellFormed hb
      obtain ⟨c, hc⟩ := parseField_of_wellFormed hc
      obtain ⟨d, hd⟩ := parseField_of_wellFormed hd
      obtain ⟨e, he⟩ := parseField_of_wellFormed he
      obtain ⟨f, hf⟩ := parseField_of_wellFormed hf
      exact ⟨a, ha, b, hb, c, hc, d, hd, e, he, f, hf, _, rfl⟩

/-! ## What the normaliser returns -/

theorem parse_fields (he : trim expr ≠ []) (hat : (trim expr).head? ≠ some '@') :
    CronSchedule.parse parseDuration expr = parseFields (splitWhitespace (trim expr)) := by
  unfold CronSchedule.parse
  simp only [if_neg he, if_neg hat]

/-- An expression of descriptors is checked as it stands. -/
theorem parse_trim (hat : (trim expr).head? = some '@') {s : CronSchedule} :
    CronSchedule.parse parseDuration (trim expr) = .ok s ↔
      CronSchedule.parse parseDuration expr = .ok s := by
  have he : trim expr ≠ [] := by
    intro hnil
    rw [hnil] at hat
    cases hat
  unfold CronSchedule.parse
  simp only [Text.trim_trim, if_neg he, if_pos hat]
  split
  · exact Iff.rfl
  · split
    · split
      · exact Iff.rfl
      · exact iff_of_false nofun nofun
    · exact iff_of_false nofun nofun

/-- Six fields are normal. -/
theorem normalizeCron_fields (he : trim expr ≠ []) (hat : (trim expr).head? ≠ some '@') :
    normalizeCron parseDuration expr =
      if (sixFields (splitWhitespace (trim expr))).length = 6 then
        .ok ([' '].intercalate (sixFields (splitWhitespace (trim expr))))
      else .error (.badFieldCount (splitWhitespace (trim expr)).length) := by
  unfold normalizeCron sixFields
  simp only [if_neg he, if_neg hat]
  generalize splitWhitespace (trim expr) = fields
  match h : fields.length with
  | 5 => 
    obtain ⟨f, fs, rfl⟩ := List.exists_cons_of_length_pos (l := fields) (by omega)
    simp [h]
  | 6 => simp [h]
  | 0 | 1 | 2 | 3 | 4 => simp [h]
  | n + 7 => simp [h]

/-- The words of an expression that is no descriptor. -/
theorem words_expr (he : trim expr ≠ []) (hat : (trim expr).head? ≠ some '@') :
    ∃ w ws, sixFields (splitWhitespace (trim expr)) = w :: ws ∧ (∀ v ∈ w :: ws, IsWord v) ∧
      w.head? ≠ some '@' := by
  obtain ⟨c, s, hs⟩ := List.exists_cons_of_ne_nil he
  have hc : Text.isWhitespace c = false := Text.head?_trim (by rw [hs]; rfl)
  obtain ⟨w, ws, hws⟩ := Text.head_splitWhitespace (s := s) hc
  have hwords : ∀ v ∈ (c :: w) :: ws, IsWord v := fun v hv =>
    Text.isWord_of_mem (by rw [hws]; exact hv)
  rw [hs] at hat ⊢
  unfold sixFields
  rw [hws]
  split
  · refine ⟨"0".toList, (c :: w) :: ws, rfl, fun v hv => ?_, by decide⟩
    rcases List.mem_cons.mp hv with rfl | hv
    · exact ⟨by decide, List.forall_mem_singleton.mpr (by decide)⟩
    · exact hwords v hv
  · exact ⟨c :: w, ws, rfl, hwords, hat⟩

/-- The six words of a normal form. -/
theorem normal_words {w : Text} {ws : List Text} (hwords : ∀ v ∈ w :: ws, IsWord v)
    (hat : w.head? ≠ some '@') :
    trim ([' '].intercalate (w :: ws)) = [' '].intercalate (w :: ws) ∧
      [' '].intercalate (w :: ws) ≠ [] ∧ ([' '].intercalate (w :: ws)).head? ≠ some '@' ∧
      splitWhitespace ([' '].intercalate (w :: ws)) = w :: ws := by
  have hw := hwords w List.mem_cons_self
  have hhead : ([' '].intercalate (w :: ws)).head? = w.head? := Text.head?_intercalate hw
  refine ⟨Text.trim_intercalate hwords, fun hnil => ?_, ?_, Text.splitWhitespace_intercalate hwords⟩
  · rw [hnil] at hhead
    exact hw.1 (List.head?_eq_none_iff.mp hhead.symm)
  · rw [hhead]
    exact hat

/-- A normal form parses to what the expression does, and is its own normal form. -/
theorem normalizeCron_again (he : trim expr ≠ []) (hat : (trim expr).head? ≠ some '@') {n : Text}
    (hn : normalizeCron parseDuration expr = .ok n) :
    CronSchedule.parse parseDuration n = CronSchedule.parse parseDuration expr ∧
      normalizeCron parseDuration n = .ok n := by
  obtain ⟨w, ws, hfields, hwords, hhead⟩ := words_expr he hat
  obtain ⟨htrim, hne, hat', hsplit⟩ := normal_words hwords hhead
  rw [normalizeCron_fields he hat, hfields] at hn
  split at hn
  · rename_i hsix
    obtain rfl := Except.ok.inj hn
    rw [← htrim] at hne hat'
    have hsame : sixFields (w :: ws) = w :: ws := by
      unfold sixFields
      rw [if_neg (by omega)]
    constructor
    · rw [parse_fields hne hat', parse_fields he hat, htrim, hsplit, ← hfields,
        parseFields_sixFields]
    · rw [normalizeCron_fields hne hat', htrim, hsplit, hsame, if_pos hsix]
  · cases hn

/-! ## Agreement -/

theorem parseFields_length {fields : List Text} {s : CronSchedule} (h : parseFields fields = .ok s) :
    (sixFields fields).length = 6 := by
  unfold sixFields
  split
  · rename_i hfive
    simp [hfive]
  · rename_i hfive
    by_contra hsix
    have hcount : parseFields fields = .error (.badFieldCount fields.length) := by
      unfold parseFields
      split
      · contradiction
      · contradiction
      · rfl
    rw [hcount] at h
    cases h

theorem agrees_blank (he : trim expr = []) : NormalizeAgrees parseDuration expr := by
  have hnorm : normalizeCron parseDuration expr = .error .empty := by
    unfold normalizeCron
    simp only [if_pos he]
  have hparse : CronSchedule.parse parseDuration expr = .error .empty := by
    unfold CronSchedule.parse
    simp only [if_pos he]
  rw [NormalizeAgrees, hnorm, hparse]
  exact ⟨iff_of_false nofun nofun, nofun⟩

theorem agrees_descriptor (hat : (trim expr).head? = some '@') :
    NormalizeAgrees parseDuration expr := by
  have he : trim expr ≠ [] := by
    intro hnil
    rw [hnil] at hat
    cases hat
  have hnorm : ∀ e n, trim e = trim expr → (normalizeCron parseDuration e = .ok n ↔
      (∃ s, CronSchedule.parse parseDuration expr = .ok s) ∧ n = trim expr) := by
    intro e n heq
    unfold normalizeCron
    simp only [heq, if_neg he, if_pos hat]
    simp only [← parse_trim hat]
    cases CronSchedule.parse parseDuration (trim expr) with
    | error e => exact iff_of_false nofun fun ⟨⟨_, h⟩, _⟩ => nomatch h
    | ok s => exact ⟨fun h => ⟨⟨s, rfl⟩, (Except.ok.inj h).symm⟩, fun h => congrArg _ h.2.symm⟩
  refine ⟨⟨?_, ?_⟩, ?_⟩
  · rintro ⟨n, hn⟩
    exact ((hnorm expr n rfl).mp hn).1
  · intro hs
    exact ⟨trim expr, (hnorm expr _ rfl).mpr ⟨hs, rfl⟩⟩
  · intro n hn
    obtain ⟨⟨s, hs⟩, rfl⟩ := (hnorm expr n rfl).mp hn
    exact ⟨⟨s, (parse_trim hat).mpr hs, hs⟩,
      (hnorm _ _ (Text.trim_trim expr)).mpr ⟨⟨s, hs⟩, rfl⟩⟩

theorem agrees_fields_iff (he : trim expr ≠ []) (hat : (trim expr).head? ≠ some '@') :
    NormalizeAgrees parseDuration expr ↔
      ((sixFields (splitWhitespace (trim expr))).length = 6 →
        FieldsWellFormed (sixFields (splitWhitespace (trim expr)))) := by
  have hparse : CronSchedule.parse parseDuration expr = _ := parse_fields he hat
  have hnorm : normalizeCron parseDuration expr = _ := normalizeCron_fields he hat
  constructor
  · rintro ⟨hiff, -⟩ hsix
    rw [if_pos hsix] at hnorm
    obtain ⟨s, hs⟩ := hiff.mp ⟨_, hnorm⟩
    rw [hparse, ← parseFields_sixFields] at hs
    exact (parseFields_ok_iff hsix).mp ⟨s, hs⟩
  · intro hfields
    have hok : ∀ n, normalizeCron parseDuration expr = .ok n →
        ∃ s, CronSchedule.parse parseDuration expr = .ok s := by
      intro n hn
      rw [hnorm] at hn
      split at hn
      · rename_i hsix
        rw [hparse, ← parseFields_sixFields]
        exact (parseFields_ok_iff hsix).mpr (hfields hsix)
      · cases hn
    refine ⟨⟨fun ⟨n, hn⟩ => hok n hn, ?_⟩, fun n hn => ?_⟩
    · rintro ⟨s, hs⟩
      rw [hparse] at hs
      exact ⟨_, hnorm.trans (if_pos (parseFields_length hs))⟩
    · obtain ⟨hsame, hagain⟩ := normalizeCron_again he hat hn
      obtain ⟨s, hs⟩ := hok n hn
      exact ⟨⟨s, hsame.trans hs, hs⟩, hagain⟩

/-- The normaliser agrees with the parser on blank expressions and descriptors, on
    those without five or six fields and on those with well-formed fields, and on
    no others. -/
theorem normalize_agrees_iff (parseDuration : Text → Option Int) (expr : Text) :
    NormalizeAgrees parseDuration expr ↔
      trim expr = [] ∨ (trim expr).head? = some '@' ∨
        (sixFields (splitWhitespace (trim expr))).length ≠ 6 ∨
        FieldsWellFormed (sixFields (splitWhitespace (trim expr))) := by
  by_cases he : trim expr = []
  · exact iff_of_true (agrees_blank he) (.inl he)
  by_cases hat : (trim expr).head? = some '@'
  · exact iff_of_true (agrees_descriptor hat) (.inr (.inl hat))
  rw [agrees_fields_iff he hat, imp_iff_not_or]
  simp only [he, hat, false_or, Ne]

/-- `a b c d e` is normalised to a text that does not parse. -/
theorem normalize_unchecked : ¬ ∀ (parseDuration : Text → Option Int) (expr : Text),
    NormalizeAgrees parseDuration expr := by
  intro h
  obtain ⟨s, hs⟩ := (h (fun _ => none) "a b c d e".toList).1.mp ⟨"0 a b c d e".toList, rfl⟩
  have herr : CronSchedule.parse (fun _ => none) "a b c d e".toList =
      .error (.invalid "a".toList) := rfl
  rw [herr] at hs
  cases hs

end

end GnDrive.Cron
