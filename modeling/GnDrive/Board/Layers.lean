/-
  GnDrive.Board.Layers

  The layers of a board (`topo_layers` in `board_engine.rs`).

  An edge is ready when no edge that enters its source is pending.  Each turn
  of the loop takes the ready edges, sorted by id, as the next layer; when
  none is ready, the edges left over are those that hang on a cycle.

  `layersFrom_spec` says what the loop returns, `topo_layering` what that
  means for the board.
-/

import GnDrive.Lib.Cycles
import GnDrive.Lib.Text
import Mathlib.Data.Char
import Mathlib.Data.List.Lex
import Mathlib.Data.List.Sort
import Mathlib.Tactic.Ring

namespace GnDrive.Board

/-- The columns of `board_nodes` that a run reads. -/
structure BoardNode where
  id : Text
  remoteName : Text
  path : Text
deriving DecidableEq

structure BoardEdge where
  id : Text
  sourceId : Text
  targetId : Text
  action : Text
deriving DecidableEq

inductive BoardEngineError where
  | failed (msg : Text)
  | missingNode (edge : Text)
  | cancelled
  | completedWithErrors (msg : Text)
deriving DecidableEq

/-- The `HashMap<&str, i64>` of in-degrees. -/
abbrev Degrees := Text → Option Int

/-- `indeg.get(v).unwrap_or(0)`. -/
def degree (indeg : Degrees) (v : Text) : Int := (indeg v).getD 0

/-- `*indeg.entry(v).or_insert(0) += d`. -/
def bump (indeg : Degrees) (v : Text) (d : Int) : Degrees :=
  Function.update indeg v (some (degree indeg v + d))

def degrees (nodes : List BoardNode) (edges : List BoardEdge) : Degrees :=
  edges.foldl (fun m e => bump m e.targetId 1)
    (nodes.foldl (fun m n => Function.update m n.id (some 0)) fun _ => none)

def ready (indeg : Degrees) (e : BoardEdge) : Bool := degree indeg e.sourceId == 0

/-- `layer.sort_by` on the edge ids. -/
def sortById (layer : List BoardEdge) : List BoardEdge :=
  layer.insertionSort fun a b => a.id ≤ b.id

def cycleDetected (left : Nat) : BoardEngineError :=
  .failed ("cycle detected: ".toList ++ (toString left).toList ++ " edges could not be ordered".toList)

def nextLayer (indeg : Degrees) (pending : List BoardEdge) : List BoardEdge :=
  sortById (pending.filter (ready indeg))

def stillPending (indeg : Degrees) (pending : List BoardEdge) : List BoardEdge :=
  pending.filter fun e => !ready indeg e

/-- `*indeg.entry(target).or_insert(0) -= 1` for each edge of the layer. -/
def release (indeg : Degrees) (layer : List BoardEdge) : Degrees :=
  layer.foldl (fun m e => bump m e.targetId (-1)) indeg

theorem nextLayer_perm (indeg : Degrees) (pending : List BoardEdge) :
    (nextLayer indeg pending).Perm (pending.filter (ready indeg)) :=
  List.perm_insertionSort _ _

theorem nextLayer_length (indeg : Degrees) (pending : List BoardEdge) :
    (nextLayer indeg pending).length + (stillPending indeg pending).length = pending.length := by
  rw [(nextLayer_perm indeg pending).length_eq]
  exact (List.length_eq_length_filter_add _).symm

/-- The loop of `topo_layers`; `pending` are the edges whose flag is still
    set. -/
def layersFrom (indeg : Degrees) (pending : List BoardEdge) (layers : List (List BoardEdge)) :
    Except BoardEngineError (List (List BoardEdge)) :=
  if pending.isEmpty then .ok layers
  else
    let layer := nextLayer indeg pending
    if layer.isEmpty then .error (cycleDetected pending.length)
    else layersFrom (release indeg layer) (stillPending indeg pending) (layers ++ [layer])
termination_by pending.length
decreasing_by
  rename_i hlayer
  have hlayer : ¬ (nextLayer indeg pending).isEmpty := hlayer
  have hsum := nextLayer_length indeg pending
  rw [List.isEmpty_iff, ← List.length_eq_zero_iff] at hlayer
  omega

/-- Edges grouped by topological layer. -/
def topoLayers (nodes : List BoardNode) (edges : List BoardEdge) :
    Except BoardEngineError (List (List BoardEdge)) :=
  layersFrom (degrees nodes edges) edges []

-- ============================================================================
-- What the layers are for
-- ============================================================================

/-- Some edge leads from `a` to `b`. -/
def Arc (edges : List BoardEdge) (a b : Text) : Prop :=
  ∃ e ∈ edges, e.sourceId = a ∧ e.targetId = b

def Acyclic (edges : List BoardEdge) : Prop := ∀ v, ¬ Relation.TransGen (Arc edges) v v

open Classical in
/-- The number of edges that cannot be ordered: their source can be reached
    from a cycle. -/
noncomputable def unorderable (edges : List BoardEdge) : Nat :=
  edges.countP fun e => FromCycle (Arc edges) e.sourceId

/-- Every edge that enters `v` is in one of the first `k` layers. -/
def EntersBefore (edges : List BoardEdge) (layers : List (List BoardEdge)) (k : Nat) (v : Text) :
    Prop :=
  ∀ f ∈ edges, f.targetId = v → f ∈ (layers.take k).flatten

/-- What `topo_layers` is for. -/
structure Layered (edges : List BoardEdge) (layers : List (List BoardEdge)) : Prop where
  perm : layers.flatten.Perm edges
  /-- Each edge is in the earliest layer it can be in. -/
  earliest : ∀ (k : Nat) (layer : List BoardEdge), layers[k]? = some layer → ∀ e ∈ layer,
    EntersBefore edges layers k e.sourceId ∧
      ∀ j, EntersBefore edges layers j e.sourceId → k ≤ j
  sorted : ∀ layer ∈ layers, layer.Pairwise fun a b => a.id ≤ b.id
  apart : ∀ layer ∈ layers, ∀ e ∈ layer, ∀ f ∈ layer, e.targetId ≠ f.sourceId

-- ============================================================================
-- The in-degrees
-- ============================================================================

section

variable {nodes : List BoardNode} {edges pending layer : List BoardEdge} {e f : BoardEdge}
  {layers : List (List BoardEdge)} {indeg : Degrees} {v w : Text} {k : Nat}

/-- The number of edges that enter `v`. -/
def entering (edges : List BoardEdge) (v : Text) : Nat := edges.countP fun e => e.targetId == v

theorem degree_bump (indeg : Degrees) (v w : Text) (d : Int) :
    degree (bump indeg v d) w = degree indeg w + if v = w then d else 0 := by
  by_cases h : w = v
  · subst h
    simp [degree, bump]
  · simp [degree, bump, h, Ne.symm h]

theorem degree_foldl (d : Int) (es : List BoardEdge) (indeg : Degrees) (v : Text) :
    degree (es.foldl (fun m e => bump m e.targetId d) indeg) v =
      degree indeg v + d * entering es v := by
  induction es generalizing indeg with
  | nil => simp [entering]
  | cons e es ih =>
    have hcount : (entering (e :: es) v : Int) = entering es v + if e.targetId = v then 1 else 0 := by
      simp only [entering, List.countP_cons]
      split <;> simp_all
    rw [List.foldl_cons, ih, degree_bump, hcount]
    split <;> ring

theorem degree_nodes (ns : List BoardNode) (indeg : Degrees) (h : degree indeg v = 0) :
    degree (ns.foldl (fun m n => Function.update m n.id (some 0)) indeg) v = 0 := by
  induction ns generalizing indeg with
  | nil => exact h
  | cons n ns ih =>
    refine ih _ ?_
    by_cases hv : v = n.id
    · subst hv
      simp [degree]
    · simpa [degree, hv] using h

theorem degree_degrees (nodes : List BoardNode) (edges : List BoardEdge) (v : Text) :
    degree (degrees nodes edges) v = entering edges v := by
  rw [degrees, degree_foldl, degree_nodes nodes _ rfl]
  ring

theorem entering_eq_zero : entering edges v = 0 ↔ ∀ f ∈ edges, f.targetId ≠ v := by
  simp [entering, List.countP_eq_zero]

theorem entering_perm {edges' : List BoardEdge} (h : edges.Perm edges') (v : Text) :
    entering edges v = entering edges' v := h.countP_eq _

theorem entering_split (indeg : Degrees) (pending : List BoardEdge) (v : Text) :
    entering (nextLayer indeg pending) v + entering (stillPending indeg pending) v =
      entering pending v := by
  rw [entering_perm (nextLayer_perm indeg pending)]
  exact (List.countP_eq_countP_filter_add pending _ (ready indeg)).symm

theorem mem_nextLayer : e ∈ nextLayer indeg pending ↔ e ∈ pending ∧ ready indeg e = true := by
  rw [(nextLayer_perm indeg pending).mem_iff, List.mem_filter]

theorem mem_stillPending : e ∈ stillPending indeg pending ↔ e ∈ pending ∧ ready indeg e = false := by
  simp [stillPending, List.mem_filter]

-- ============================================================================
-- The loop
-- ============================================================================

/-- What holds at the head of the loop. -/
structure Loop (edges : List BoardEdge) (indeg : Degrees) (pending : List BoardEdge)
    (layers : List (List BoardEdge)) : Prop where
  perm : (layers.flatten ++ pending).Perm edges
  degrees : ∀ v, degree indeg v = entering pending v
  /-- Equal edges are taken together. -/
  apart : ∀ e ∈ pending, e ∉ layers.flatten
  placed : ∀ (k : Nat) (layer : List BoardEdge), layers[k]? = some layer → ∀ e ∈ layer,
    EntersBefore edges layers k e.sourceId ∧ ∀ j < k, ¬ EntersBefore edges layers j e.sourceId
  later : ∀ e ∈ pending, ∀ j < layers.length, ¬ EntersBefore edges layers j e.sourceId
  sorted : ∀ layer ∈ layers, layer.Pairwise fun a b => a.id ≤ b.id

theorem loop_initial (nodes : List BoardNode) (edges : List BoardEdge) :
    Loop edges (degrees nodes edges) edges [] where
  perm := .refl _
  degrees := degree_degrees nodes edges
  apart _ _ h := by cases h
  placed k layer h := by simp at h
  later _ _ j hj := absurd hj (Nat.not_lt_zero j)
  sorted _ h := by cases h

/-- A new layer changes nothing for the layers before it. -/
theorem entersBefore_concat (hk : k ≤ layers.length) :
    EntersBefore edges (layers ++ [layer]) k v ↔ EntersBefore edges layers k v := by
  unfold EntersBefore
  rw [List.take_append_of_le_length hk]

theorem Loop.mem (h : Loop edges indeg pending layers) (hf : f ∈ edges) :
    f ∈ layers.flatten ∨ f ∈ pending :=
  List.mem_append.mp (h.perm.mem_iff.mpr hf)

theorem Loop.ready_iff (h : Loop edges indeg pending layers) :
    ready indeg e = true ↔ ∀ f ∈ pending, f.targetId ≠ e.sourceId := by
  rw [← entering_eq_zero, ready, h.degrees, beq_iff_eq]
  exact Int.natCast_eq_zero

/-- The edges of the next layer are in the earliest layer they can be in. -/
theorem Loop.next_placed (h : Loop edges indeg pending layers)
    (he : e ∈ nextLayer indeg pending) :
    EntersBefore edges layers layers.length e.sourceId ∧
      ∀ j < layers.length, ¬ EntersBefore edges layers j e.sourceId := by
  obtain ⟨hpending, hready⟩ := mem_nextLayer.mp he
  refine ⟨fun f hf hfe => ?_, h.later e hpending⟩
  rw [List.take_length]
  exact (h.mem hf).resolve_right fun hfp => h.ready_iff.mp hready f hfp hfe

/-- An edge that is not ready waits for a pending one. -/
theorem Loop.waits (h : Loop edges indeg pending layers) (hnot : ready indeg e = false) :
    ∃ f ∈ pending, f.targetId = e.sourceId := by
  by_contra hnone
  push Not at hnone
  rw [h.ready_iff.mpr hnone] at hnot
  cases hnot

/-- Step lemma. -/
theorem Loop.step (h : Loop edges indeg pending layers) :
    Loop edges (release indeg (nextLayer indeg pending)) (stillPending indeg pending)
      (layers ++ [nextLayer indeg pending]) where
  perm := by
    refine List.Perm.trans ?_ h.perm
    rw [List.flatten_append, List.flatten_singleton, List.append_assoc]
    refine List.Perm.append_left _ ?_
    exact ((nextLayer_perm indeg pending).append_right _).trans
      (List.filter_append_perm (ready indeg) pending)
  degrees v := by
    rw [release, degree_foldl, h.degrees, ← entering_split indeg pending v]
    push_cast
    ring
  apart e he := by
    obtain ⟨hpending, hnot⟩ := mem_stillPending.mp he
    rw [List.flatten_append, List.flatten_singleton, List.mem_append, not_or]
    refine ⟨h.apart e hpending, fun hlayer => ?_⟩
    rw [(mem_nextLayer.mp hlayer).2] at hnot
    cases hnot
  placed k layer hk e he := by
    rcases Nat.lt_or_ge k layers.length with hlt | hge
    · rw [List.getElem?_append_left hlt] at hk
      obtain ⟨hbefore, hleast⟩ := h.placed k layer hk e he
      refine ⟨(entersBefore_concat (Nat.le_of_lt hlt)).mpr hbefore, fun j hj hb => ?_⟩
      exact hleast j hj ((entersBefore_concat (by omega)).mp hb)
    · rw [List.getElem?_append_right hge, List.getElem?_singleton] at hk
      split at hk
      · rename_i hzero
        obtain rfl := Option.some.inj hk
        obtain rfl : k = layers.length := by omega
        obtain ⟨hbefore, hleast⟩ := h.next_placed he
        refine ⟨(entersBefore_concat (Nat.le_refl _)).mpr hbefore, fun j hj hb => ?_⟩
        exact hleast j hj ((entersBefore_concat (Nat.le_of_lt hj)).mp hb)
      · cases hk
  later e he j hj := by
    obtain ⟨hpending, hnot⟩ := mem_stillPending.mp he
    rw [List.length_append, List.length_singleton] at hj
    rw [entersBefore_concat (by omega)]
    rcases Nat.lt_or_ge j layers.length with hlt | hge
    · exact h.later e hpending j hlt
    · -- the edge it waits for is not in the layers so far
      obtain ⟨f, hf, hfe⟩ := h.waits hnot
      obtain rfl : j = layers.length := by omega
      intro hbefore
      have hmem := hbefore f (h.perm.mem_iff.mp (List.mem_append_right _ hf)) hfe
      rw [List.take_length] at hmem
      exact h.apart f hf hmem
  sorted layer hlayer := by
    rcases List.mem_append.mp hlayer with hold | hnew
    · exact h.sorted layer hold
    · rw [List.mem_singleton.mp hnew]
      exact List.pairwise_insertionSort (fun a b : BoardEdge => a.id ≤ b.id) _

-- ============================================================================
-- The result
-- ============================================================================

/-- An edge in a layer hangs on no cycle: what enters its source is in an
    earlier layer. -/
theorem Loop.not_fromCycle (h : Loop edges indeg pending layers) :
    layers[k]? = some layer → e ∈ layer → ¬ FromCycle (Arc edges) e.sourceId := by
  induction k using Nat.strongRecOn generalizing layer e with
  | ind k ih =>
    intro hk he hcycle
    obtain ⟨c, ⟨f, hf, rfl, hfe⟩, hfc⟩ := hcycle.pred
    obtain ⟨layer', hlayer', hmem⟩ := List.mem_flatten.mp ((h.placed k layer hk e he).1 f hf hfe)
    obtain ⟨j, hj, rfl⟩ := List.mem_take_iff_getElem.mp hlayer'
    exact ih j (by omega) (List.getElem?_eq_getElem _) hmem hfc

/-- When no edge is ready, all pending ones hang on a cycle. -/
theorem Loop.fromCycle (h : Loop edges indeg pending layers)
    (hstuck : (nextLayer indeg pending).isEmpty) (he : e ∈ pending) :
    FromCycle (Arc edges) e.sourceId := by
  refine fromCycle_of_no_first (P := {v | ∃ e ∈ pending, e.sourceId = v})
    (pending.finite_toSet.image BoardEdge.sourceId) ?_ ⟨e, he, rfl⟩
  rintro _ ⟨e, he, rfl⟩
  have hnot : ready indeg e = false := by
    by_contra hready
    have hmem := mem_nextLayer.mpr ⟨he, by simpa using hready⟩
    rw [List.isEmpty_iff.mp hstuck] at hmem
    cases hmem
  obtain ⟨f, hf, hfe⟩ := h.waits hnot
  exact ⟨f.sourceId, ⟨f, hf, rfl⟩, f, h.perm.mem_iff.mp (List.mem_append_right _ hf), rfl, hfe⟩

theorem Loop.not_fromCycle_placed (h : Loop edges indeg pending layers)
    (he : e ∈ layers.flatten) : ¬ FromCycle (Arc edges) e.sourceId := by
  obtain ⟨layer, hlayer, hmem⟩ := List.mem_flatten.mp he
  obtain ⟨k, hk⟩ := List.getElem?_of_mem hlayer
  exact h.not_fromCycle hk hmem

open Classical in
/-- Exactly the pending edges are unorderable. -/
theorem Loop.unorderable_eq (h : Loop edges indeg pending layers)
    (hstuck : (nextLayer indeg pending).isEmpty) : unorderable edges = pending.length := by
  have hplaced : layers.flatten.countP (fun e => decide (FromCycle (Arc edges) e.sourceId)) = 0 := by
    rw [List.countP_eq_zero]
    intro e he
    simpa using h.not_fromCycle_placed he
  have hpending : pending.countP (fun e => decide (FromCycle (Arc edges) e.sourceId)) =
      pending.length := by
    rw [List.countP_eq_length]
    intro e he
    simpa using h.fromCycle hstuck he
  rw [unorderable, ← h.perm.countP_eq, List.countP_append, hplaced, hpending, Nat.zero_add]

theorem Loop.layered (h : Loop edges indeg [] layers) : Layered edges layers where
  perm := by simpa using h.perm
  earliest k layer hk e he := by
    obtain ⟨hbefore, hleast⟩ := h.placed k layer hk e he
    exact ⟨hbefore, fun j hj => Nat.le_of_not_lt fun hlt => hleast j hlt hj⟩
  sorted := h.sorted
  apart layer hlayer e he f hf hef := by
    obtain ⟨k, hk⟩ := List.getElem?_of_mem hlayer
    have hedge : e ∈ edges := h.perm.mem_iff.mp (by simpa using ⟨layer, hlayer, he⟩)
    -- an edge that enters the source of another is in a layer before it, too
    have hbefore := (h.placed k layer hk f hf).1 e hedge hef
    obtain ⟨layer', hlayer', hmem⟩ := List.mem_flatten.mp hbefore
    obtain ⟨j, hj, rfl⟩ := List.mem_take_iff_getElem.mp hlayer'
    exact (h.placed k layer hk e he).2 j (by omega)
      (h.placed j _ (List.getElem?_eq_getElem _) e hmem).1

/-- What the loop returns. -/
theorem layersFrom_spec (h : Loop edges indeg pending layers) :
    (∃ layers', layersFrom indeg pending layers = .ok layers' ∧ Acyclic edges ∧
        Layered edges layers') ∨
      layersFrom indeg pending layers = .error (cycleDetected (unorderable edges)) ∧
        ¬ Acyclic edges := by
  fun_induction layersFrom indeg pending layers with
  | case1 indeg pending layers hempty =>
    obtain rfl := List.isEmpty_iff.mp hempty
    refine .inl ⟨layers, rfl, fun v hcycle => ?_, h.layered⟩
    obtain ⟨c, ⟨f, hf, rfl, -⟩, hfc⟩ := (fromCycle_of_cycle hcycle).pred
    exact h.not_fromCycle_placed ((h.mem hf).resolve_right (by simp)) hfc
  | case2 indeg pending layers hne layer hstuck =>
    refine .inr ⟨by rw [h.unorderable_eq hstuck], fun hacyclic => ?_⟩
    obtain ⟨e, he⟩ := List.exists_mem_of_ne_nil pending (by simpa using hne)
    obtain ⟨v, hcycle, -⟩ := h.fromCycle hstuck he
    exact hacyclic v hcycle
  | case3 indeg pending layers hne layer hlayer ih => exact ih h.step

theorem topoLayers_spec (nodes : List BoardNode) (edges : List BoardEdge) :
    (∃ layers, topoLayers nodes edges = .ok layers ∧ Acyclic edges ∧ Layered edges layers) ∨
      topoLayers nodes edges = .error (cycleDetected (unorderable edges)) ∧ ¬ Acyclic edges :=
  layersFrom_spec (loop_initial nodes edges)

theorem acyclic_of_isOk (nodes : List BoardNode) (h : (topoLayers nodes edges).isOk = true) : Acyclic edges := by
  rcases topoLayers_spec nodes edges with ⟨_, -, hacyclic, -⟩ | ⟨herr, -⟩
  · exact hacyclic
  · rw [herr] at h
    cases h

/-- `topo_layers` succeeds exactly on acyclic graphs, with layers that are as
    early as they can be; otherwise it counts the edges that hang on a cycle. -/
theorem topo_layering (nodes : List BoardNode) (edges : List BoardEdge) :
    ((∃ layers, topoLayers nodes edges = .ok layers) ↔ Acyclic edges) ∧
      (∀ layers, topoLayers nodes edges = .ok layers → Layered edges layers) ∧
      ∀ err, topoLayers nodes edges = .error err → err = cycleDetected (unorderable edges) := by
  rcases topoLayers_spec nodes edges with ⟨layers, hok, hacyclic, hlayered⟩ | ⟨herr, hcyclic⟩
  · rw [hok]
    refine ⟨⟨fun _ => hacyclic, fun _ => ⟨layers, rfl⟩⟩, fun _ h => ?_, fun _ h => (by cases h)⟩
    obtain rfl := Except.ok.inj h
    exact hlayered
  · rw [herr]
    refine ⟨⟨fun ⟨_, h⟩ => (by cases h), fun h => absurd h hcyclic⟩, fun _ h => (by cases h),
      fun _ h => ?_⟩
    exact (Except.error.inj h).symm

end

end GnDrive.Board
