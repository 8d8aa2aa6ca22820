/-
  GnDrive.Gpui.CanvasText

  The canvas as it is written where all numbers are whole, and reading it.
-/

import GnDrive.Gpui.Graph
import GnDrive.Lib.JsonText

namespace GnDrive.Gpui

open JsonText

def writeLocation (n : CanvasLocation Nat) : Text :=
  "\x7b\"id\":".toList ++ (quoted n.id ++ (",\"remote\":".toList ++ (quoted n.remote ++
    (",\"path\":".toList ++ (quoted n.path ++ (",\"label\":".toList ++ (quoted n.label ++
      (",\"x\":".toList ++ (wholeText n.x ++ (",\"y\":".toList ++ (wholeText n.y ++
        "\x7d".toList)))))))))))

def readLocation (t : Text) : Option (CanvasLocation Nat × Text) := do
  let t ← expect "\x7b\"id\":".toList t
  let (id, t) ← readQuoted t
  let t ← expect ",\"remote\":".toList t
  let (remote, t) ← readQuoted t
  let t ← expect ",\"path\":".toList t
  let (path, t) ← readQuoted t
  let t ← expect ",\"label\":".toList t
  let (label, t) ← readQuoted t
  let t ← expect ",\"x\":".toList t
  let (x, t) ← readWhole t
  let t ← expect ",\"y\":".toList t
  let (y, t) ← readWhole t
  let t ← expect "\x7d".toList t
  some (⟨id, remote, path, label, x, y⟩, t)

theorem readLocation_write (n : CanvasLocation Nat) (t : Text) :
    readLocation (writeLocation n ++ t) = some (n, t) := by
  unfold readLocation writeLocation
  simp only [List.append_assoc, expect_append, readQuoted_quoted, readWhole_wholeText,
    Option.bind_eq_bind, Option.bind_some]

/-- The locations after the first. -/
def writeMore : List (CanvasLocation Nat) → Text
  | [] => "]\x7d".toList
  | n :: nodes => [','] ++ (writeLocation n ++ writeMore nodes)

def writeLocations : List (CanvasLocation Nat) → Text
  | [] => "]\x7d".toList
  | n :: nodes => writeLocation n ++ writeMore nodes

def readMore : Nat → Text → Option (List (CanvasLocation Nat))
  | 0, _ => none
  | fuel + 1, t =>
      if t = "]\x7d".toList then some []
      else do
        let t ← expect [','] t
        let (n, t) ← readLocation t
        let nodes ← readMore fuel t
        some (n :: nodes)

def readLocations (t : Text) : Option (List (CanvasLocation Nat)) :=
  if t = "]\x7d".toList then some []
  else do
    let (n, t) ← readLocation t
    let nodes ← readMore (t.length + 1) t
    some (n :: nodes)

theorem readMore_write (nodes : List (CanvasLocation Nat)) (fuel : Nat)
    (h : nodes.length < fuel) : readMore fuel (writeMore nodes) = some nodes := by
  induction nodes generalizing fuel with
  | nil =>
    obtain ⟨fuel, rfl⟩ := Nat.exists_eq_succ_of_ne_zero (Nat.ne_of_gt h)
    exact if_pos rfl
  | cons n nodes ih =>
    obtain ⟨fuel, rfl⟩ := Nat.exists_eq_succ_of_ne_zero (Nat.ne_of_gt (Nat.zero_lt_of_lt h))
    have hne : writeMore (n :: nodes) ≠ "]\x7d".toList := fun heq =>
      absurd (List.head_eq_of_cons_eq heq) (by decide)
    have htail := ih fuel (by simpa using h)
    rw [readMore, if_neg hne]
    unfold writeMore
    simp only [expect_append, readLocation_write, htail, Option.bind_eq_bind, Option.bind_some]

theorem length_writeMore (nodes : List (CanvasLocation Nat)) :
    nodes.length ≤ (writeMore nodes).length := by
  induction nodes with
  | nil => exact Nat.zero_le _
  | cons n nodes ih =>
    unfold writeMore
    rw [List.length_cons, List.length_append, List.length_append, List.length_singleton]
    omega

theorem readLocations_write (nodes : List (CanvasLocation Nat)) :
    readLocations (writeLocations nodes) = some nodes := by
  cases nodes with
  | nil => exact if_pos rfl
  | cons n nodes =>
    have hne : writeLocations (n :: nodes) ≠ "]\x7d".toList := fun heq =>
      absurd (List.head_eq_of_cons_eq heq) (by decide)
    have hmore := readMore_write nodes ((writeMore nodes).length + 1)
      (Nat.lt_succ_of_le (length_writeMore nodes))
    rw [readLocations, if_neg hne]
    unfold writeLocations
    simp only [readLocation_write, hmore, Option.bind_eq_bind, Option.bind_some]

def writeCanvas (c : CanvasModel Nat) : Text :=
  "\x7b\"viewport\":\x7b\"x\":".toList ++ (wholeText c.viewport.x ++ (",\"y\":".toList ++
    (wholeText c.viewport.y ++ (",\"zoom\":".toList ++ (wholeText c.viewport.zoom ++
      ("\x7d,\"nodes\":[".toList ++ writeLocations c.nodes))))))

def readCanvas (t : Text) : Option (CanvasModel Nat) := do
  let t ← expect "\x7b\"viewport\":\x7b\"x\":".toList t
  let (x, t) ← readWhole t
  let t ← expect ",\"y\":".toList t
  let (y, t) ← readWhole t
  let t ← expect ",\"zoom\":".toList t
  let (zoom, t) ← readWhole t
  let t ← expect "\x7d,\"nodes\":[".toList t
  let nodes ← readLocations t
  some ⟨⟨x, y, zoom⟩, nodes⟩

theorem readCanvas_write (c : CanvasModel Nat) : readCanvas (writeCanvas c) = some c := by
  unfold readCanvas writeCanvas
  simp only [expect_append, readWhole_wholeText, readLocations_write, Option.bind_eq_bind,
    Option.bind_some]

def wholeNumber (t : Text) : Option Nat :=
  (readWhole t).bind fun (n, rest) => if rest = [] then some n else none

theorem wholeNumber_wholeText (n : Nat) : wholeNumber (wholeText n) = some n := by
  have h := readWhole_wholeText n []
  rw [List.append_nil] at h
  rw [wholeNumber, h]
  rfl

theorem canvas_number_text (c : CanvasModel Nat) :
    (c.map wholeText).map wholeNumber = c.map some := by
  rw [CanvasModel.map_map]
  exact CanvasModel.map_congr.mpr fun n _ => wholeNumber_wholeText n

theorem canvas_some_inj {c c' : CanvasModel Nat} (h : c.map some = c'.map some) : c = c' := by
  have heq := congrArg (CanvasModel.map fun o : Option Nat => o.getD 0) h
  rw [CanvasModel.map_map, CanvasModel.map_map] at heq
  exact (CanvasModel.map_id c).symm.trans (heq.trans (CanvasModel.map_id c'))

def parseWhole (t : Text) : CanvasModel Nat := (readCanvas t).getD ⟨⟨0, 0, 1⟩, []⟩

theorem parseWhole_write (c : CanvasModel Nat) : parseWhole (writeCanvas c) = c := by
  rw [parseWhole, readCanvas_write]
  rfl

theorem writeCanvas_inj (c c' : CanvasModel Nat) :
    writeCanvas c = writeCanvas c' ↔ c.map wholeText = c'.map wholeText := by
  constructor
  · intro h
    rw [← parseWhole_write c, h, parseWhole_write]
  · intro h
    have heq := congrArg (CanvasModel.map wholeNumber) h
    rw [canvas_number_text, canvas_number_text] at heq
    rw [canvas_some_inj heq]

theorem wholeNumber_isSome (n : Nat) : (wholeNumber (wholeText n)).isSome := by
  rw [wholeNumber_wholeText]
  rfl

theorem parseWhole_serialize (c c' : CanvasModel Nat)
    (h : (c.map wholeText).map wholeNumber = c'.map some) : parseWhole (writeCanvas c) = c' := by
  rw [canvas_number_text] at h
  rw [parseWhole_write, canvas_some_inj h]

theorem parseWhole_null (c : CanvasModel Nat)
    (h : ∃ n ∈ c.numbers, wholeNumber (wholeText n) = none) :
    parseWhole (writeCanvas c) = ⟨⟨0, 0, 1⟩, []⟩ := by
  obtain ⟨n, -, hnone⟩ := h
  rw [wholeNumber_wholeText] at hnone
  cases hnone

theorem whole_rereads (s d : Nat) (h : wholeNumber (wholeText s) = some d) : d = s := by
  rw [wholeNumber_wholeText] at h
  exact (Option.some.inj h).symm

instance wholeCanvas : CanvasJson Nat Nat where
  toSingle := id
  toDouble := id
  columnX i := 480 * i
  rowY i := 160 * i
  extraY i := 160 * i
  COL_GAP := 480
  viewport := ⟨0, 0, 1⟩
  text := wholeText
  number := wholeNumber
  parse := parseWhole
  serialize := writeCanvas
  rereads := whole_rereads
  number_viewport d _ := wholeNumber_isSome d
  number_layout _ := ⟨wholeNumber_isSome _, wholeNumber_isSome _⟩
  number_extra := ⟨wholeNumber_isSome _, fun _ => wholeNumber_isSome _⟩
  serialize_inj := writeCanvas_inj
  parse_serialize := parseWhole_serialize
  parse_null := parseWhole_null

end GnDrive.Gpui
