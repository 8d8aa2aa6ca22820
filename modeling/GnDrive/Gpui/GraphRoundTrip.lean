/-
  GnDrive.Gpui.GraphRoundTrip

  When a flow comes back from its graph as it was.

  An operation is drawn between the nodes that are last at its locations and read
  back between the nodes that are last under the ids of these.  `Spot` is a node
  without its looks; `Flow.spots` are the spots that the canvas and the operations
  of a flow ask for, in the order in which they get into the maps.
-/

import GnDrive.Gpui.CanvasText

namespace GnDrive.Gpui

open Keyed
open Rpc (Json JsonDict)
open Text (trim trim_trim)

-- ============================================================================
-- Locations
-- ============================================================================

theorem normalizePath_normalizePath (p : Text) :
    normalizePath (normalizePath p) = normalizePath p := by
  unfold normalizePath
  by_cases h : trim p = []
  · rw [if_pos h]
    decide
  · rw [if_neg h, trim_trim, if_neg h]

theorem locationKey_congr {r r' p p' : Text} (hr : trim r = trim r')
    (hp : normalizePath p = normalizePath p') : locationKey r p = locationKey r' p' := by
  rw [locationKey, locationKey, hr, hp]

theorem trim_takes {t : Text} {c : Char} (h : c ∈ trim t) : c ∈ t := (Text.trim_isInfix t).subset h

theorem stableNodeId_ne_nil (key : Text) : stableNodeId key ≠ [] := by
  unfold stableNodeId
  rw [show "n_".toList = ['n', '_'] from rfl]
  exact List.cons_ne_nil _ _

/-- The key is cut where the remote ends. -/
theorem takeWhile_locationKey {r : Text} (p : Text) (h : NUL ∉ trim r) :
    (locationKey r p).takeWhile (· ≠ NUL) = trim r ∧
      ((locationKey r p).dropWhile (· ≠ NUL)).tail = normalizePath p := by
  have hall : ∀ c ∈ trim r, decide (c ≠ NUL) = true := by
    intro c hc
    rw [decide_eq_true_eq]
    rintro rfl
    exact h hc
  unfold locationKey
  rw [List.takeWhile_append_of_pos hall, List.dropWhile_append_of_pos hall]
  simp

-- ============================================================================
-- Spots
-- ============================================================================

/-- A place and the id of the node there. -/
structure Spot where
  id : Text
  remote : Text
  path : Text
deriving DecidableEq

def Spot.key (s : Spot) : Text := locationKey s.remote s.path

def Spot.At (s : Spot) (remote path : Text) : Prop :=
  trim s.remote = trim remote ∧ normalizePath s.path = normalizePath path

/-- The spot that a location is given when it has none. -/
def ownSpot (remote path : Text) : Spot :=
  ⟨stableNodeId (locationKey remote path), trim remote, normalizePath path⟩

/-- The spots of the locations that are not taken yet. -/
def ownSpots (taken : List Text) : List (Text × Text) → List Spot
  | [] => []
  | (r, p) :: rest =>
      if taken.contains (locationKey r p) then ownSpots taken rest
      else ownSpot r p :: ownSpots (taken ++ [locationKey r p]) rest

theorem ownSpots_of_taken {taken : List Text} {r p : Text} (h : locationKey r p ∈ taken)
    (l : List (Text × Text)) : ownSpots taken ((r, p) :: l) = ownSpots taken l := by
  rw [ownSpots, if_pos (by simpa using h)]

theorem ownSpots_of_free {taken : List Text} {r p : Text} (h : locationKey r p ∉ taken)
    (l : List (Text × Text)) :
    ownSpots taken ((r, p) :: l) = ownSpot r p :: ownSpots (taken ++ [locationKey r p]) l := by
  rw [ownSpots, if_neg (by simpa using h)]

theorem ownSpot_key (r p : Text) : (ownSpot r p).key = locationKey r p :=
  locationKey_congr (trim_trim r) (normalizePath_normalizePath p)

theorem Spot.At.key {s : Spot} {r p : Text} (h : s.At r p) : s.key = locationKey r p :=
  locationKey_congr h.1 h.2

theorem mem_ownSpots {taken : List Text} {l : List (Text × Text)} {s : Spot}
    (h : s ∈ ownSpots taken l) :
    s.key ∉ taken ∧ s.id = stableNodeId s.key ∧ ∃ r p, (r, p) ∈ l ∧ s = ownSpot r p := by
  induction l generalizing taken with
  | nil => cases h
  | cons rp l ih =>
    obtain ⟨r, p⟩ := rp
    by_cases htaken : locationKey r p ∈ taken
    · rw [ownSpots_of_taken htaken] at h
      obtain ⟨hkey, hid, r', p', hmem, heq⟩ := ih h
      exact ⟨hkey, hid, r', p', List.mem_cons_of_mem _ hmem, heq⟩
    · rw [ownSpots_of_free htaken] at h
      rcases List.mem_cons.mp h with rfl | h
      · rw [ownSpot_key]
        exact ⟨htaken, rfl, r, p, List.mem_cons_self, rfl⟩
      · obtain ⟨hkey, hid, r', p', hmem, heq⟩ := ih h
        refine ⟨fun hk => hkey (List.mem_append_left _ hk), hid, r', p', ?_, heq⟩
        exact List.mem_cons_of_mem _ hmem

theorem ownSpots_nodup (taken : List Text) (l : List (Text × Text)) :
    ((ownSpots taken l).map Spot.key).Nodup := by
  induction l generalizing taken with
  | nil => exact List.nodup_nil
  | cons rp l ih =>
    obtain ⟨r, p⟩ := rp
    by_cases htaken : locationKey r p ∈ taken
    · rw [ownSpots_of_taken htaken]
      exact ih taken
    · rw [ownSpots_of_free htaken, List.map_cons, ownSpot_key]
      refine List.nodup_cons.mpr ⟨fun hmem => ?_, ih _⟩
      obtain ⟨s, hs, hkey⟩ := List.mem_map.mp hmem
      apply (mem_ownSpots hs).1
      rw [hkey]
      exact List.mem_append_right _ (List.mem_singleton.mpr rfl)

theorem exists_ownSpot {taken : List Text} {l : List (Text × Text)} {r p : Text}
    (h : (r, p) ∈ l) (hfree : locationKey r p ∉ taken) :
    ∃ s ∈ ownSpots taken l, s.key = locationKey r p := by
  induction l generalizing taken with
  | nil => cases h
  | cons rp l ih =>
    obtain ⟨r', p'⟩ := rp
    by_cases htaken : locationKey r' p' ∈ taken
    · rw [ownSpots_of_taken htaken]
      rcases List.mem_cons.mp h with heq | h
      · obtain ⟨rfl, rfl⟩ := Prod.mk.inj heq
        exact absurd htaken hfree
      · exact ih h hfree
    · rw [ownSpots_of_free htaken]
      by_cases hkey : locationKey r p = locationKey r' p'
      · exact ⟨ownSpot r' p', List.mem_cons_self, by rw [ownSpot_key, hkey]⟩
      · rcases List.mem_cons.mp h with heq | h
        · obtain ⟨rfl, rfl⟩ := Prod.mk.inj heq
          exact absurd rfl hkey
        · obtain ⟨s, hs, hsk⟩ := @ih (taken ++ [locationKey r' p']) h (by simp [hfree, hkey])
          exact ⟨s, List.mem_cons_of_mem _ hs, hsk⟩

/-- `acc` with the spots that the locations ask for. -/
def grown (acc : List Spot) (l : List (Text × Text)) : List Spot :=
  acc ++ ownSpots (acc.map Spot.key) l

theorem grown_nil (acc : List Spot) : grown acc [] = acc := List.append_nil acc

theorem grown_of_taken {acc : List Spot} {r p : Text} (h : locationKey r p ∈ acc.map Spot.key) :
    grown acc [(r, p)] = acc := by
  rw [grown, ownSpots_of_taken h]
  exact List.append_nil acc

theorem grown_of_free {acc : List Spot} {r p : Text} (h : locationKey r p ∉ acc.map Spot.key) :
    grown acc [(r, p)] = acc ++ [ownSpot r p] := by
  rw [grown, ownSpots_of_free h]
  rfl

theorem grown_cons (acc : List Spot) (r p : Text) (l : List (Text × Text)) :
    grown acc ((r, p) :: l) = grown (grown acc [(r, p)]) l := by
  by_cases h : locationKey r p ∈ acc.map Spot.key
  · rw [grown_of_taken h, grown, grown, ownSpots_of_taken h]
  · rw [grown_of_free h, grown, grown, ownSpots_of_free h, List.map_append, List.map_singleton,
      ownSpot_key, List.append_assoc]
    rfl

theorem grown_append (acc : List Spot) (l l' : List (Text × Text)) :
    grown acc (l ++ l') = grown (grown acc l) l' := by
  induction l generalizing acc with
  | nil => rw [List.nil_append, grown_nil]
  | cons rp l ih => rw [List.cons_append, grown_cons, ih, ← grown_cons]

theorem key_mem_grown {acc : List Spot} {l : List (Text × Text)} {r p : Text}
    (h : (r, p) ∈ l) : locationKey r p ∈ (grown acc l).map Spot.key := by
  unfold grown
  rw [List.map_append, List.mem_append]
  by_cases htaken : locationKey r p ∈ acc.map Spot.key
  · exact .inl htaken
  · obtain ⟨s, hs, hkey⟩ := exists_ownSpot h htaken
    exact .inr (List.mem_map.mpr ⟨s, hs, hkey⟩)

def GraphNode.spot {S : Type} (n : GraphNode S) : Spot := ⟨n.id, n.remote, n.path⟩

def Operation.endpoints (op : Operation) : List (Text × Text) :=
  [(op.sourceRemote, op.sourcePath), (op.targetRemote, op.targetPath)]

theorem endpoints_mem {ops : List Operation} {op : Operation} (h : op ∈ ops) :
    (op.sourceRemote, op.sourcePath) ∈ ops.flatMap Operation.endpoints ∧
      (op.targetRemote, op.targetPath) ∈ ops.flatMap Operation.endpoints :=
  ⟨List.mem_flatMap.mpr ⟨op, h, by simp [Operation.endpoints]⟩,
    List.mem_flatMap.mpr ⟨op, h, by simp [Operation.endpoints]⟩⟩

section

variable {D S : Type} [CanvasJson D S]

variable (D S)

def Flow.storedSpots (flow : Flow) : List Spot := (storedNodes D S flow).map GraphNode.spot

def Flow.ownSpots (flow : Flow) : List Spot :=
  Gpui.ownSpots ((flow.storedSpots D S).map Spot.key) (flow.operations.flatMap Operation.endpoints)

def Flow.spots (flow : Flow) : List Spot := flow.storedSpots D S ++ flow.ownSpots D S

/-- A spot that is asked for on a canvas with nodes is at its location: no key is
    cut inside its remote. -/
def Flow.Uncut (flow : Flow) : Prop :=
  flow.storedSpots D S ≠ [] → ∀ rp ∈ flow.operations.flatMap Operation.endpoints,
    locationKey rp.1 rp.2 ∉ (flow.storedSpots D S).map Spot.key → NUL ∉ trim rp.1

variable {D S}

-- ============================================================================
-- The nodes that are inserted
-- ============================================================================

/-- Where the nodes are, as far as the maps are concerned. -/
def spotsOf (nodes : List (GraphNode S)) : List Spot := nodes.map GraphNode.spot

omit [CanvasJson D S] in
theorem keys_spotsOf (nodes : List (GraphNode S)) :
    (spotsOf nodes).map Spot.key = nodes.map GraphNode.key := by
  unfold spotsOf
  rw [List.map_map]
  rfl

theorem place_spots (l : Layout S) (r p : Text) (col row : Nat) :
    spotsOf (l.place D r p col row).nodes = grown (spotsOf l.nodes) [(r, p)] := by
  have hkeys : l.nodes.any (·.key = locationKey r p) = true ↔
      locationKey r p ∈ (spotsOf l.nodes).map Spot.key := by
    rw [keys_spotsOf]
    simp
  unfold Layout.place
  by_cases h : l.nodes.any (·.key = locationKey r p) = true
  · rw [if_pos h, grown_of_taken (hkeys.mp h)]
  · rw [if_neg h, grown_of_free fun hk => h (hkeys.mpr hk)]
    unfold spotsOf
    rw [List.map_append]
    rfl

omit [CanvasJson D S] in
@[simp] theorem column_nodes (l : Layout S) (key : Text) (col : Nat) :
    (l.column key col).nodes = l.nodes := by
  unfold Layout.column
  cases l.columns.lookup key with
  | some _ => rfl
  | none => rfl

theorem layOp_spots (l : Layout S) (op : Operation) (row : Nat) :
    spotsOf (l.layOp D op row).nodes = grown (spotsOf l.nodes) op.endpoints := by
  unfold Layout.layOp Operation.endpoints
  rw [grown_cons, place_spots, column_nodes, place_spots, column_nodes]

theorem layOps_spots (ops : List Operation) (start : Nat) (l : Layout S) :
    spotsOf ((ops.zipIdx start).foldl (fun l (op, row) => l.layOp D op row) l).nodes =
      grown (spotsOf l.nodes) (ops.flatMap Operation.endpoints) := by
  induction ops generalizing start l with
  | nil => exact (grown_nil _).symm
  | cons op ops ih =>
    rw [List.zipIdx_cons, List.foldl_cons, ih, layOp_spots, List.flatMap_cons, grown_append]

theorem defaultLayout_spots (ops : List Operation) :
    spotsOf (defaultLayout D S ops) = grown [] (ops.flatMap Operation.endpoints) :=
  layOps_spots ops 0 ⟨[], []⟩

theorem extraNode_spot {r : Text} (p : Text) (extra : Nat) (h : NUL ∉ trim r) :
    (extraNode D (S := S) (locationKey r p) extra).spot = ownSpot r p := by
  obtain ⟨hremote, hpath⟩ := takeWhile_locationKey p h
  unfold extraNode GraphNode.spot ownSpot
  rw [hremote, hpath]

theorem addMissing_spots (acc : List (GraphNode S) × Nat) {r : Text} (p : Text)
    (h : locationKey r p ∉ (spotsOf acc.1).map Spot.key → NUL ∉ trim r) :
    spotsOf (addMissing D acc (locationKey r p)).1 = grown (spotsOf acc.1) [(r, p)] := by
  unfold addMissing
  cases hlast : lastBy GraphNode.key acc.1 (locationKey r p) with
  | some n =>
    obtain ⟨hmem, hkey⟩ := lastBy_spec hlast
    rw [grown_of_taken]
    rw [keys_spotsOf, ← hkey]
    exact List.mem_map_of_mem hmem
  | none =>
    have hfree : locationKey r p ∉ (spotsOf acc.1).map Spot.key := by
      rw [keys_spotsOf]
      intro hmem
      obtain ⟨n, hn, hkey⟩ := List.mem_map.mp hmem
      exact lastBy_eq_none_iff.mp hlast n hn hkey
    rw [grown_of_free hfree]
    show spotsOf (acc.1 ++ [extraNode D (locationKey r p) acc.2]) = _
    unfold spotsOf
    rw [List.map_append, List.map_singleton, extraNode_spot p acc.2 (h hfree)]

/-- A location whose key was gone through finds a node. -/
theorem addMissing_fold_spots (stored : List (GraphNode S)) (l : List (Text × Text))
    (h : ∀ rp ∈ l, locationKey rp.1 rp.2 ∉ (spotsOf stored).map Spot.key → NUL ∉ trim rp.1) :
    spotsOf ((distinct (l.map fun rp => locationKey rp.1 rp.2)).foldl (addMissing D)
      (stored, 0)).1 = grown (spotsOf stored) l := by
  induction l using List.reverseRecOn with
  | nil => exact (grown_nil _).symm
  | append_singleton l rp ih =>
    obtain ⟨r, p⟩ := rp
    have hl := ih fun rp hrp => h rp (List.mem_append_left _ hrp)
    rw [List.map_append, List.map_singleton, distinct_concat, grown_append]
    unfold push
    by_cases hk : locationKey r p ∈ distinct (l.map fun rp => locationKey rp.1 rp.2)
    · rw [if_pos (by simpa using hk), hl]
      obtain ⟨rp, hrp, hkey⟩ := List.mem_map.mp (mem_distinct.mp hk)
      rw [grown_of_taken]
      rw [← hkey]
      exact key_mem_grown hrp
    · rw [if_neg (by simpa using hk), List.foldl_append, List.foldl_cons, List.foldl_nil,
        addMissing_spots, hl]
      rw [hl]
      intro hfree
      apply h (r, p) (List.mem_append_right _ (List.mem_singleton.mpr rfl))
      intro hstored
      apply hfree
      unfold grown
      rw [List.map_append]
      exact List.mem_append_left _ hstored

omit [CanvasJson D S] in
theorem needed_eq (ops : List Operation) :
    needed ops = distinct ((ops.flatMap Operation.endpoints).map fun rp =>
      locationKey rp.1 rp.2) := by
  unfold needed
  rw [List.map_flatMap]
  rfl

theorem inserted_spots (flow : Flow) (h : flow.Uncut D S) :
    spotsOf (inserted D (storedNodes D S flow) flow.operations) = flow.spots D S := by
  unfold inserted
  by_cases hempty : (storedNodes D S flow).isEmpty && !flow.operations.isEmpty
  · have hnil : storedNodes D S flow = [] := by
      rw [Bool.and_eq_true] at hempty
      exact List.isEmpty_iff.mp hempty.1
    have hstored : flow.storedSpots D S = [] := by
      unfold Flow.storedSpots
      rw [hnil]
      rfl
    rw [if_pos hempty, hnil, List.nil_append, defaultLayout_spots]
    unfold Flow.spots Flow.ownSpots
    rw [hstored]
    rfl
  · rw [if_neg hempty, needed_eq, addMissing_fold_spots]
    · rfl
    · intro rp hrp hfree
      refine h (fun hnil => hempty ?_) rp hrp hfree
      have hops : flow.operations ≠ [] := by
        intro hops
        rw [hops] at hrp
        cases hrp
      have hstored : storedNodes D S flow = [] := List.map_eq_nil_iff.mp hnil
      rw [hstored]
      simpa using hops

/-- The stored nodes come first; what is added can be written and read. -/
def Readable (D : Type) [CanvasJson D S] (x : S) : Prop :=
  (CanvasJson.number S (CanvasJson.text (D := D) S (CanvasJson.toDouble x)) : Option D).isSome

def GraphNode.Readable (D : Type) [CanvasJson D S] (n : GraphNode S) : Prop :=
  Gpui.Readable D n.x ∧ Gpui.Readable D n.y

theorem place_readable {l : Layout S} (h : ∀ n ∈ l.nodes, n.Readable D) (r p : Text)
    (col row : Nat) : ∀ n ∈ (l.place D r p col row).nodes, n.Readable D := by
  unfold Layout.place
  by_cases hany : l.nodes.any (·.key = locationKey r p) = true
  · rw [if_pos hany]
    exact h
  · rw [if_neg hany]
    intro n hn
    rcases List.mem_append.mp hn with hn | hn
    · exact h n hn
    · obtain rfl := List.mem_singleton.mp hn
      exact ⟨(CanvasJson.number_layout col).1, (CanvasJson.number_layout row).2⟩

theorem layOps_readable (ops : List Operation) {start : Nat} {l : Layout S}
    (h : ∀ n ∈ l.nodes, n.Readable D) :
    ∀ n ∈ ((ops.zipIdx start).foldl (fun l (op, row) => l.layOp D op row) l).nodes,
      n.Readable D := by
  induction ops generalizing start l with
  | nil => exact h
  | cons op ops ih =>
    rw [List.zipIdx_cons, List.foldl_cons]
    apply ih
    have hsource := place_readable (l := l.column op.sourceKey 0) (by simpa using h)
    exact place_readable (by simpa using hsource _ _ _ _) _ _ _ _

theorem defaultLayout_readable (ops : List Operation) :
    ∀ n ∈ defaultLayout D S ops, n.Readable D :=
  layOps_readable ops (l := ⟨[], []⟩) (by simp)

theorem addMissing_added (l : List Text) (acc : List (GraphNode S) × Nat) :
    ∃ added, (l.foldl (addMissing D) acc).1 = acc.1 ++ added ∧
      ∀ n ∈ added, ∃ key extra, key ∈ l ∧ n = extraNode D key extra := by
  induction l generalizing acc with
  | nil => exact ⟨[], (List.append_nil _).symm, by simp⟩
  | cons key l ih =>
    obtain ⟨added, heq, hadded⟩ := ih (addMissing D acc key)
    rw [List.foldl_cons, heq]
    have hlater : ∀ n ∈ added, ∃ key' extra, key' ∈ key :: l ∧ n = extraNode D key' extra := by
      intro n hn
      obtain ⟨key', extra, hkey, rfl⟩ := hadded n hn
      exact ⟨key', extra, List.mem_cons_of_mem _ hkey, rfl⟩
    unfold addMissing
    cases lastBy GraphNode.key acc.1 key with
    | some _ => exact ⟨added, rfl, hlater⟩
    | none =>
      refine ⟨extraNode D key acc.2 :: added, List.append_assoc _ _ _, fun n hn => ?_⟩
      rcases List.mem_cons.mp hn with rfl | hn
      · exact ⟨key, acc.2, List.mem_cons_self, rfl⟩
      · exact hlater n hn

theorem inserted_added (stored : List (GraphNode S)) (ops : List Operation) :
    ∃ added, inserted D stored ops = stored ++ added ∧ (∀ n ∈ added, n.Readable D) ∧
      (stored ≠ [] → ∀ n ∈ added, NUL ∉ n.remote) := by
  unfold inserted
  by_cases hempty : stored.isEmpty && !ops.isEmpty
  · rw [if_pos hempty]
    refine ⟨defaultLayout D S ops, rfl, defaultLayout_readable ops, fun hne => ?_⟩
    rw [Bool.and_eq_true] at hempty
    exact absurd (List.isEmpty_iff.mp hempty.1) hne
  · rw [if_neg hempty]
    obtain ⟨added, heq, hadded⟩ := addMissing_added (D := D) (needed ops) (stored, 0)
    refine ⟨added, heq, fun n hn => ?_, fun _ n hn => ?_⟩
    · obtain ⟨key, extra, -, rfl⟩ := hadded n hn
      exact ⟨CanvasJson.number_extra.1, CanvasJson.number_extra.2 extra⟩
    · obtain ⟨key, extra, -, rfl⟩ := hadded n hn
      intro hNUL
      exact absurd (List.mem_takeWhile_imp hNUL) (by simp)

-- ============================================================================
-- The nodes that are kept
-- ============================================================================

section

omit [CanvasJson D S]

variable (order : IterationOrder S) (stored added : List (GraphNode S))

/-- The nodes kept in the stored order, and the others. -/
def keptStored (stored all : List (GraphNode S)) : List (GraphNode S) :=
  under GraphNode.id all (distinct (stored.map GraphNode.id))

theorem map_keptStored :
    (keptStored stored (stored ++ added)).map GraphNode.id =
      distinct (stored.map GraphNode.id) := by
  apply map_under
  intro k hk
  rw [List.map_append]
  exact List.mem_append_left _ (mem_distinct.mp hk)

theorem map_idValues (all : List (GraphNode S)) :
    (idValues all).map GraphNode.id = distinct (all.map GraphNode.id) :=
  map_under _ fun _ hk => mem_distinct.mp hk

theorem kept_nodup : ((keptNodes order stored (stored ++ added)).map GraphNode.id).Nodup := by
  unfold keptNodes
  rw [List.map_append]
  apply List.Nodup.append
  · have heq := map_keptStored stored added
    unfold keptStored at heq
    rw [heq]
    exact distinct_nodup _
  · have hperm := (order.perm (idValues (stored ++ added))).map GraphNode.id
    rw [map_idValues] at hperm
    exact (hperm.nodup_iff.mpr (distinct_nodup _)).sublist (List.filter_sublist.map _)
  · intro k hk hk'
    obtain ⟨n, hn, rfl⟩ := List.mem_map.mp hk
    obtain ⟨n', hn', heq⟩ := List.mem_map.mp hk'
    have hstored := (mem_under.mp hn).1
    have hother := (List.mem_filter.mp hn').2
    rw [heq] at hother
    rw [mem_distinct] at hstored
    simp [hstored] at hother

theorem mem_kept {n : GraphNode S} : n ∈ keptNodes order stored (stored ++ added) ↔
    lastBy GraphNode.id (stored ++ added) n.id = some n := by
  unfold keptNodes idValues
  rw [List.mem_append, List.mem_filter, (order.perm _).mem_iff, mem_under, mem_under]
  constructor
  · rintro (⟨-, h⟩ | ⟨⟨-, h⟩, -⟩)
    · exact h
    · exact h
  · intro h
    by_cases hid : n.id ∈ stored.map GraphNode.id
    · exact .inl ⟨mem_distinct.mpr hid, h⟩
    · refine .inr ⟨⟨mem_distinct.mpr (List.mem_map_of_mem (lastBy_spec h).1), h⟩, ?_⟩
      simpa using hid

/-- A node is found under its id among the kept ones as among all. -/
theorem lastBy_kept (k : Text) :
    lastBy GraphNode.id (keptNodes order stored (stored ++ added)) k =
      lastBy GraphNode.id (stored ++ added) k := by
  apply lastBy_of_found (kept_nodup order stored added)
  · exact fun n hn => (mem_kept order stored added).mp hn
  · intro n hn
    obtain ⟨m, hm⟩ := lastBy_of_mem (f := GraphNode.id) hn
    have hid := (lastBy_spec hm).2
    rw [← hid] at hm
    rw [← hid]
    exact List.mem_map_of_mem ((mem_kept order stored added).mpr hm)

theorem kept_self (hnodup : (stored.map GraphNode.id).Nodup) :
    keptNodes order stored stored = stored := by
  unfold keptNodes
  rw [distinct_of_nodup hnodup, under_map_self hnodup, List.filter_eq_nil_iff.mpr,
    List.append_nil]
  intro n hn
  have hmem := mem_under.mp ((order.perm _).mem_iff.mp hn)
  simpa using hmem.1

end

-- ============================================================================
-- One operation
-- ============================================================================

theorem normalizeAction_cases (a : Text) :
    normalizeAction a = "bi".toList ∨ normalizeAction a = "bi-resync".toList ∨
      normalizeAction a = "push".toList := by
  unfold normalizeAction
  by_cases hbi : trim a = "bi".toList
  · exact .inl (if_pos hbi)
  · by_cases hresync : trim a = "bi-resync".toList
    · exact .inr (.inl (by simp only [if_neg hbi, if_pos hresync]))
    · exact .inr (.inr (by simp only [if_neg hbi, if_neg hresync]))

theorem normalizeAction_normalizeAction (a : Text) :
    normalizeAction (normalizeAction a) = normalizeAction a := by
  rcases normalizeAction_cases a with h | h | h
  · rw [h]
    decide
  · rw [h]
    decide
  · rw [h]
    decide

theorem normalizeAction_ne_nil (a : Text) : normalizeAction a ≠ [] := by
  rcases normalizeAction_cases a with h | h | h
  · rw [h]
    decide
  · rw [h]
    decide
  · rw [h]
    decide

namespace Operation

/-- The operation between two nodes, the others being before it. -/
def moved (op : Operation) (source target : GraphNode S) (i : Nat) : Operation :=
  { op with
    sourceRemote := source.remote
    sourcePath := normalizePath source.path
    targetRemote := target.remote
    targetPath := normalizePath target.path
    action := normalizeAction op.action
    syncConfig := op.syncConfig.insert ACTION (.string (normalizeAction op.action))
    sortOrder := i }

/-- The same operation, its texts being trimmed and an empty path the root. -/
structure Same (op op' : Operation) : Prop where
  id : op'.id = op.id
  source : trim op'.sourceRemote = trim op.sourceRemote ∧
    normalizePath op'.sourcePath = normalizePath op.sourcePath
  target : trim op'.targetRemote = trim op.targetRemote ∧
    normalizePath op'.targetPath = normalizePath op.targetPath
  action : op'.action = normalizeAction op.action
  options : op'.syncConfig.remove ACTION = op.syncConfig.remove ACTION

omit [CanvasJson D S] in
theorem same_moved (op : Operation) (source target : GraphNode S) (i : Nat) :
    op.Same (op.moved source target i) ↔ source.spot.At op.sourceRemote op.sourcePath ∧
      target.spot.At op.targetRemote op.targetPath := by
  constructor
  · rintro ⟨-, hsource, htarget, -, -⟩
    unfold moved at hsource htarget
    rw [normalizePath_normalizePath] at hsource htarget
    exact ⟨hsource, htarget⟩
  · rintro ⟨hsource, htarget⟩
    refine ⟨rfl, ?_, ?_, rfl, ?_⟩
    · show _ ∧ normalizePath (normalizePath source.path) = _
      rw [normalizePath_normalizePath]
      exact hsource
    · show _ ∧ normalizePath (normalizePath target.path) = _
      rw [normalizePath_normalizePath]
      exact htarget
    · have hP : decide (ACTION ≠ ACTION) = false := by simp
      exact JsonDict.restrict_insert_of_not (P := (decide <| · ≠ ACTION)) op.syncConfig _ hP

end Operation

-- ============================================================================
-- Drawn and read back
-- ============================================================================

/-- The spot that stands for a location: the last one with the id of the last one
    there. -/
def found (spots : List Spot) (key : Text) : Option Spot :=
  (lastBy Spot.key spots key).bind fun s => lastBy Spot.id spots s.id

section

omit [CanvasJson D S]

/-- `found`, for nodes -/
def nodeFor (all : List (GraphNode S)) (key : Text) : Option (GraphNode S) :=
  (lastBy GraphNode.key all key).bind fun n => lastBy GraphNode.id all n.id

theorem found_spotsOf (all : List (GraphNode S)) (key : Text) :
    found (spotsOf all) key = (nodeFor all key).map GraphNode.spot := by
  have hkey : lastBy Spot.key (spotsOf all) key = (lastBy GraphNode.key all key).map GraphNode.spot :=
    lastBy_map GraphNode.spot all key
  have hid : ∀ k, lastBy Spot.id (spotsOf all) k = (lastBy GraphNode.id all k).map GraphNode.spot :=
    fun k => lastBy_map GraphNode.spot all k
  unfold found nodeFor
  rw [hkey]
  cases lastBy GraphNode.key all key with
  | none => rfl
  | some n =>
    show lastBy Spot.id (spotsOf all) n.id = _
    rw [hid]
    rfl

theorem nodeFor_mem {all : List (GraphNode S)} {key : Text} {n : GraphNode S}
    (h : nodeFor all key = some n) : lastBy GraphNode.id all n.id = some n := by
  obtain ⟨m, -, hn⟩ := Option.bind_eq_some_iff.mp h
  rw [(lastBy_spec hn).2]
  exact hn

theorem nodeFor_of_nodup {all : List (GraphNode S)} (hnodup : (all.map GraphNode.id).Nodup)
    (key : Text) : nodeFor all key = lastBy GraphNode.key all key := by
  unfold nodeFor
  cases h : lastBy GraphNode.key all key with
  | none => rfl
  | some n => exact lastBy_of_nodup hnodup (lastBy_spec h).1

theorem nodeFor_isSome {all : List (GraphNode S)} {n : GraphNode S} (h : n ∈ all) :
    ∃ m, nodeFor all n.key = some m := by
  obtain ⟨s, hs⟩ := lastBy_of_mem (f := GraphNode.key) h
  obtain ⟨m, hm⟩ := lastBy_of_mem (f := GraphNode.id) (lastBy_spec hs).1
  exact ⟨m, by rw [nodeFor, hs, Option.bind_some, hm]⟩

/-- The edge of an operation, with the nodes that it is read back between. -/
def drawn (all : List (GraphNode S)) (op : Operation) :
    Option (GraphEdge × GraphNode S × GraphNode S) :=
  match nodeFor all op.sourceKey, nodeFor all op.targetKey with
  | some source, some target =>
      some (⟨op.id, source.id, target.id, normalizeAction op.action, op⟩, source, target)
  | _, _ => none

theorem endpoints_toEdge {all nodes : List (GraphNode S)}
    (hid : ∀ k, lastBy GraphNode.id nodes k = lastBy GraphNode.id all k) (op : Operation) :
    (toEdge all op).bind (endpoints nodes) = drawn all op := by
  unfold toEdge drawn nodeFor
  cases hsource : lastBy GraphNode.key all op.sourceKey with
  | none => rfl
  | some source =>
    obtain ⟨s, hs⟩ := lastBy_of_mem (f := GraphNode.id) (lastBy_spec hsource).1
    cases htarget : lastBy GraphNode.key all op.targetKey with
    | none =>
      rw [Option.bind_some, hs]
      rfl
    | some target =>
      obtain ⟨t, ht⟩ := lastBy_of_mem (f := GraphNode.id) (lastBy_spec htarget).1
      rw [Option.bind_some, Option.bind_some, Option.bind_some, hs, ht]
      unfold endpoints
      rw [hid, hid, hs, ht]
      show some _ = some _
      rw [(lastBy_spec hs).2, (lastBy_spec ht).2]

theorem drawn_spec {all : List (GraphNode S)} {op : Operation} {e : GraphEdge}
    {source target : GraphNode S} (h : drawn all op = some (e, source, target)) :
    nodeFor all op.sourceKey = some source ∧ nodeFor all op.targetKey = some target ∧
      e = ⟨op.id, source.id, target.id, normalizeAction op.action, op⟩ := by
  unfold drawn at h
  cases hsource : nodeFor all op.sourceKey with
  | none =>
    rw [hsource] at h
    cases h
  | some s =>
    cases htarget : nodeFor all op.targetKey with
    | none =>
      rw [hsource, htarget] at h
      cases h
    | some t =>
      rw [hsource, htarget] at h
      cases h
      exact ⟨rfl, rfl, rfl⟩

theorem drawn_of {all : List (GraphNode S)} {op : Operation} {source target : GraphNode S}
    (hsource : nodeFor all op.sourceKey = some source)
    (htarget : nodeFor all op.targetKey = some target) :
    drawn all op =
      some (⟨op.id, source.id, target.id, normalizeAction op.action, op⟩, source, target) := by
  rw [drawn, hsource, htarget]

/-- What is read back from the edge of an operation. -/
theorem redrawn_eq {ops : List Operation} (hids : (ops.map Operation.id).Nodup) {op : Operation}
    (hop : op ∈ ops) {source target : GraphNode S} (i : Nat) :
    redrawn ops ⟨op.id, source.id, target.id, normalizeAction op.action, op⟩ source target i =
      op.moved source target i := by
  unfold redrawn
  rw [lastBy_of_nodup hids hop]
  simp only [Option.getD_some, if_neg (normalizeAction_ne_nil op.action),
    normalizeAction_normalizeAction]
  rfl

/-- The operations that are read back, against what each has to be. -/
theorem forall₂_mapIdx {α β γ : Type} {R : α → γ → Prop} {Q : α → β → Prop} {g : α → Option β}
    {l : List α} {h : Nat → β → γ}
    (hR : ∀ i (hi : i < l.length) b, g l[i] = some b → (R l[i] (h i b) ↔ Q l[i] b)) :
    List.Forall₂ R l ((l.filterMap g).mapIdx h) ↔ ∀ a ∈ l, ∃ b, g a = some b ∧ Q a b := by
  induction l generalizing h with
  | nil => simp
  | cons a l ih =>
    cases hg : g a with
    | none =>
      rw [List.filterMap_cons_none hg]
      constructor
      · intro h2
        have hlen := h2.length_eq
        have hle := List.length_filterMap_le g l
        rw [List.length_mapIdx, List.length_cons] at hlen
        omega
      · intro hall
        obtain ⟨b, hb, -⟩ := hall a List.mem_cons_self
        rw [hg] at hb
        cases hb
    | some b =>
      have hhead : R a (h 0 b) ↔ Q a b := hR 0 (by simp) b hg
      rw [List.filterMap_cons_some hg, List.mapIdx_cons, List.forall₂_cons, ih, hhead]
      · simp [hg]
      · intro i hi b hb
        exact hR (i + 1) (by simpa using hi) b (by simpa using hb)

end

/-- The node as it is written to the canvas. -/
def GraphNode.saved (D : Type) [CanvasJson D S] (n : GraphNode S) : CanvasLocation D :=
  ⟨n.id, n.remote, normalizePath n.path, n.label, CanvasJson.toDouble n.x, CanvasJson.toDouble n.y⟩

/-- The nodes in the maps once those of the operations are there. -/
def Flow.nodes (D S : Type) [CanvasJson D S] (flow : Flow) : List (GraphNode S) :=
  inserted D (storedNodes D S flow) flow.operations

def Flow.kept (D : Type) [CanvasJson D S] (flow : Flow) (order : IterationOrder S) :
    List (GraphNode S) :=
  keptNodes order (storedNodes D S flow) (flow.nodes D S)

theorem fromGraph_toGraph (order : IterationOrder S) (flow : Flow) :
    fromGraph (D := D) (toGraph order flow) flow.operations =
      ((flow.operations.filterMap (drawn (flow.nodes D S))).mapIdx
        fun i (e, source, target) => redrawn flow.operations e source target i,
        CanvasJson.serialize S
          ⟨(CanvasJson.parse (D := D) S flow.canvasJson).viewport,
            (flow.kept D order).map (GraphNode.saved D)⟩) := by
  obtain ⟨added, hadded, -, -⟩ := inserted_added (D := D) (storedNodes D S flow) flow.operations
  have hkept := lastBy_kept order (storedNodes D S flow) added
  rw [← hadded] at hkept
  unfold fromGraph toGraph
  dsimp only
  rw [List.filterMap_filterMap]
  simp only [endpoints_toEdge hkept]
  rfl

theorem nodes_spots {flow : Flow} (h : flow.Uncut D S) :
    spotsOf (flow.nodes D S) = flow.spots D S := inserted_spots flow h

/-- Every endpoint is found where it is. -/
def Flow.Placed (D S : Type) [CanvasJson D S] (flow : Flow) : Prop :=
  ∀ rp ∈ flow.operations.flatMap Operation.endpoints,
    ∃ t, found (flow.spots D S) (locationKey rp.1 rp.2) = some t ∧ t.At rp.1 rp.2

theorem uncut_of_found {flow : Flow}
    (h : ∀ rp ∈ flow.operations.flatMap Operation.endpoints, ∃ n,
      nodeFor (flow.nodes D S) (locationKey rp.1 rp.2) = some n ∧ n.spot.At rp.1 rp.2) :
    flow.Uncut D S := by
  intro hstored rp hrp hfree
  obtain ⟨n, hn, hat⟩ := h rp hrp
  obtain ⟨added, hadded, -, hNUL⟩ :=
    inserted_added (D := D) (storedNodes D S flow) flow.operations
  have hmem : n ∈ storedNodes D S flow ++ added := by
    rw [← hadded]
    exact (lastBy_spec (nodeFor_mem hn)).1
  rw [← hat.1]
  rcases List.mem_append.mp hmem with hmem | hmem
  · apply absurd _ hfree
    rw [← hat.key]
    exact List.mem_map_of_mem (List.mem_map_of_mem hmem)
  · intro hmem'
    apply hNUL _ n hmem (trim_takes hmem')
    intro hnil
    apply hstored
    unfold Flow.storedSpots
    rw [hnil]
    rfl

theorem found_iff {flow : Flow} (h : flow.Uncut D S) (r p : Text) :
    (∃ t, found (flow.spots D S) (locationKey r p) = some t ∧ t.At r p) ↔
      ∃ n, nodeFor (flow.nodes D S) (locationKey r p) = some n ∧ n.spot.At r p := by
  rw [← nodes_spots h, found_spotsOf]
  constructor
  · rintro ⟨t, ht, hat⟩
    obtain ⟨n, hn, rfl⟩ := Option.map_eq_some_iff.mp ht
    exact ⟨n, hn, hat⟩
  · rintro ⟨n, hn, hat⟩
    exact ⟨n.spot, by rw [hn, Option.map_some], hat⟩

theorem uncut_placed_iff (flow : Flow) : flow.Uncut D S ∧ flow.Placed D S ↔
    ∀ rp ∈ flow.operations.flatMap Operation.endpoints, ∃ n,
      nodeFor (flow.nodes D S) (locationKey rp.1 rp.2) = some n ∧ n.spot.At rp.1 rp.2 := by
  constructor
  · exact fun ⟨huncut, hplaced⟩ rp hrp => (found_iff huncut _ _).mp (hplaced rp hrp)
  · intro h
    have huncut := uncut_of_found h
    exact ⟨huncut, fun rp hrp => (found_iff huncut _ _).mpr (h rp hrp)⟩

/-- The operations after a round trip. -/
def Flow.rebuilt (D S : Type) [CanvasJson D S] (flow : Flow) : List Operation :=
  (flow.operations.filterMap (drawn (flow.nodes D S))).mapIdx
    fun i (e, source, target) => redrawn flow.operations e source target i

theorem rebuilt_getElem {flow : Flow} (hids : (flow.operations.map Operation.id).Nodup) {i : Nat}
    (hi : i < (flow.rebuilt D S).length) :
    ∃ op ∈ flow.operations, ∃ e source target,
      drawn (flow.nodes D S) op = some (e, source, target) ∧
        (flow.rebuilt D S)[i] = op.moved source target i := by
  unfold Flow.rebuilt at hi ⊢
  rw [List.getElem_mapIdx]
  rw [List.length_mapIdx] at hi
  generalize hb : (flow.operations.filterMap (drawn (flow.nodes D S)))[i] = b
  have hmem := List.getElem_mem hi
  rw [hb] at hmem
  obtain ⟨op, hop, hdrawn⟩ := List.mem_filterMap.mp hmem
  obtain ⟨e, source, target⟩ := b
  refine ⟨op, hop, e, source, target, hdrawn, ?_⟩
  obtain ⟨-, -, rfl⟩ := drawn_spec hdrawn
  exact redrawn_eq hids hop i

theorem rebuilt_same {flow : Flow} (hids : (flow.operations.map Operation.id).Nodup) :
    List.Forall₂ Operation.Same flow.operations (flow.rebuilt D S) ↔
      flow.Uncut D S ∧ flow.Placed D S := by
  unfold Flow.rebuilt
  rw [uncut_placed_iff, forall₂_mapIdx (Q := fun op b =>
    b.2.1.spot.At op.sourceRemote op.sourcePath ∧ b.2.2.spot.At op.targetRemote op.targetPath)]
  · constructor
    · intro h rp hrp
      obtain ⟨op, hop, hrp⟩ := List.mem_flatMap.mp hrp
      obtain ⟨⟨e, source, target⟩, hb, hsource, htarget⟩ := h op hop
      obtain ⟨hs, ht, -⟩ := drawn_spec hb
      rcases List.mem_cons.mp hrp with rfl | hrp
      · exact ⟨source, hs, hsource⟩
      · obtain rfl := List.mem_singleton.mp hrp
        exact ⟨target, ht, htarget⟩
    · intro h op hop
      obtain ⟨source, hs, hsource⟩ := h (op.sourceRemote, op.sourcePath) (endpoints_mem hop).1
      obtain ⟨target, ht, htarget⟩ := h (op.targetRemote, op.targetPath) (endpoints_mem hop).2
      exact ⟨_, drawn_of hs ht, hsource, htarget⟩
  · rintro i hi ⟨e, source, target⟩ hb
    obtain ⟨-, -, rfl⟩ := drawn_spec hb
    dsimp only
    rw [redrawn_eq hids (List.getElem_mem hi)]
    exact Operation.same_moved _ source target i

-- ============================================================================
-- The canvas written and read
-- ============================================================================

/-- What a number is read as once it was written. -/
def reread (S : Type) [CanvasJson D S] (d : D) : D :=
  (CanvasJson.number S (CanvasJson.text S d)).getD d

/-- A number that can be written and read. -/
def Finite (S : Type) [CanvasJson D S] (d : D) : Prop :=
  (CanvasJson.number S (CanvasJson.text S d) : Option D).isSome

theorem number_text {d : D} (h : Finite S d) :
    CanvasJson.number S (CanvasJson.text S d) = some (reread S d) := by
  obtain ⟨d', hd'⟩ := Option.isSome_iff_exists.mp h
  rw [reread, hd']
  rfl

theorem parse_serialize_finite {c : CanvasModel D} (h : ∀ d ∈ c.numbers, Finite S d) :
    CanvasJson.parse S (CanvasJson.serialize S c) = c.map (reread S) := by
  apply CanvasJson.parse_serialize
  rw [CanvasModel.map_map, CanvasModel.map_map]
  exact CanvasModel.map_congr.mpr fun d hd => number_text (h d hd)

/-- Rereading is exact on what came from 32 bits. -/
theorem toSingle_reread {x : S} (h : Readable D x) :
    CanvasJson.toSingle (reread S (CanvasJson.toDouble (D := D) x)) = x :=
  CanvasJson.rereads x _ (number_text h)

theorem storedNode_saved {n : GraphNode S} (hid : n.id ≠ [])
    (hpath : normalizePath n.path = n.path) (h : n.Readable D) :
    storedNode ((n.saved D).map (reread S)) = n := by
  obtain ⟨id, remote, path, label, x, y⟩ := n
  unfold storedNode GraphNode.saved CanvasLocation.map
  dsimp only at hid hpath ⊢
  rw [if_neg hid, hpath, hpath, toSingle_reread h.1, toSingle_reread h.2]

/-- A canvas with a viewport and nodes. -/
def savedCanvas (D : Type) [CanvasJson D S] (v : Viewport D) (nodes : List (GraphNode S)) :
    CanvasModel D :=
  ⟨v, nodes.map (GraphNode.saved D)⟩

theorem savedCanvas_finite {v : Viewport D} {nodes : List (GraphNode S)} :
    (∀ d ∈ (savedCanvas D v nodes).numbers, Finite S d) ↔
      (∀ d ∈ [v.x, v.y, v.zoom], Finite S d) ∧ ∀ n ∈ nodes, n.Readable D := by
  unfold savedCanvas CanvasModel.numbers
  rw [List.flatMap_map, List.forall_mem_append, List.forall_mem_flatMap]
  refine and_congr_right' (forall₂_congr fun n _ => ?_)
  simp [GraphNode.saved, GraphNode.Readable, Gpui.Readable, Finite]

theorem storedNodes_savedCanvas {v : Viewport D} {nodes : List (GraphNode S)}
    (h : ∀ d ∈ (savedCanvas D v nodes).numbers, Finite S d)
    (hfine : ∀ n ∈ nodes, n.id ≠ [] ∧ normalizePath n.path = n.path) (ops : List Operation) :
    storedNodes D S ⟨ops, CanvasJson.serialize S (savedCanvas D v nodes)⟩ = nodes := by
  have hreadable := (savedCanvas_finite.mp h).2
  unfold storedNodes
  rw [parse_serialize_finite h]
  unfold savedCanvas CanvasModel.map
  rw [List.map_map, List.map_map]
  have hself : ∀ n ∈ nodes,
      ((storedNode ∘ CanvasLocation.map (reread S)) ∘ GraphNode.saved D) n = id n :=
    fun n hn => storedNode_saved (hfine n hn).1 (hfine n hn).2 (hreadable n hn)
  rw [List.map_congr_left hself, List.map_id]

-- ============================================================================
-- The second round trip
-- ============================================================================

theorem spot_fine {flow : Flow} {s : Spot} (h : s ∈ flow.spots D S) :
    s.id ≠ [] ∧ normalizePath s.path = s.path := by
  rcases List.mem_append.mp h with h | h
  · obtain ⟨n, hn, rfl⟩ := List.mem_map.mp h
    obtain ⟨c, -, rfl⟩ := List.mem_map.mp hn
    refine ⟨?_, normalizePath_normalizePath _⟩
    show (if c.id = [] then _ else _) ≠ _
    by_cases hid : c.id = []
    · rw [if_pos hid]
      exact stableNodeId_ne_nil _
    · rw [if_neg hid]
      exact hid
  · obtain ⟨-, -, r, p, -, rfl⟩ := mem_ownSpots h
    exact ⟨stableNodeId_ne_nil _, normalizePath_normalizePath _⟩

theorem node_fine {flow : Flow} (h : flow.Uncut D S) {n : GraphNode S}
    (hn : n ∈ flow.nodes D S) : n.id ≠ [] ∧ normalizePath n.path = n.path := by
  show n.spot.id ≠ [] ∧ normalizePath n.spot.path = n.spot.path
  apply spot_fine (D := D) (S := S)
  rw [← nodes_spots h]
  exact List.mem_map_of_mem hn

/-- Nothing is missing on a canvas that has all locations. -/
theorem inserted_self {nodes : List (GraphNode S)} {ops : List Operation}
    (h : ∀ op ∈ ops, op.sourceKey ∈ nodes.map GraphNode.key ∧
      op.targetKey ∈ nodes.map GraphNode.key) :
    inserted D nodes ops = nodes := by
  have hneeded : ∀ key ∈ needed ops, key ∈ nodes.map GraphNode.key := by
    intro key hkey
    obtain ⟨op, hop, hkey⟩ := List.mem_flatMap.mp (mem_distinct.mp hkey)
    rcases List.mem_cons.mp hkey with rfl | hkey
    · exact (h op hop).1
    · obtain rfl := List.mem_singleton.mp hkey
      exact (h op hop).2
  have hfold : ∀ keys : List Text, (∀ key ∈ keys, key ∈ nodes.map GraphNode.key) →
      keys.foldl (addMissing D) (nodes, 0) = (nodes, 0) := by
    intro keys
    induction keys with
    | nil => exact fun _ => rfl
    | cons key keys ih =>
      intro hkeys
      obtain ⟨n, hn, rfl⟩ := List.mem_map.mp (hkeys key List.mem_cons_self)
      obtain ⟨m, hm⟩ := lastBy_of_mem (f := GraphNode.key) hn
      have hsame : addMissing D (nodes, 0) n.key = (nodes, 0) := by
        unfold addMissing
        rw [hm]
      rw [List.foldl_cons, hsame]
      exact ih fun key hkey => hkeys key (List.mem_cons_of_mem _ hkey)
  unfold inserted
  rw [hfold _ hneeded, if_neg]
  intro hempty
  rw [Bool.and_eq_true] at hempty
  have hnil := List.isEmpty_iff.mp hempty.1
  cases ops with
  | nil => simp at hempty
  | cons op ops =>
    have hkey := (h op List.mem_cons_self).1
    rw [hnil] at hkey
    cases hkey

theorem kept_mem {flow : Flow} {order : IterationOrder S} {n : GraphNode S} :
    n ∈ flow.kept D order ↔ lastBy GraphNode.id (flow.nodes D S) n.id = some n := by
  obtain ⟨added, hadded, -, -⟩ := inserted_added (D := D) (storedNodes D S flow) flow.operations
  unfold Flow.kept Flow.nodes
  rw [hadded]
  exact mem_kept order (storedNodes D S flow) added

theorem kept_ids (flow : Flow) (order : IterationOrder S) :
    ((flow.kept D order).map GraphNode.id).Nodup := by
  obtain ⟨added, hadded, -, -⟩ := inserted_added (D := D) (storedNodes D S flow) flow.operations
  unfold Flow.kept Flow.nodes
  rw [hadded]
  exact kept_nodup order (storedNodes D S flow) added

namespace Operation

omit [CanvasJson D S]

theorem moved_moved (op : Operation) (s t s' t' : GraphNode S) (i : Nat) :
    (op.moved s t i).moved s' t' i = op.moved s' t' i := by
  unfold moved
  rw [normalizeAction_normalizeAction, JsonDict.insert_insert]

theorem moved_keys (op : Operation) (s t : GraphNode S) (i : Nat) :
    (op.moved s t i).sourceKey = s.key ∧ (op.moved s t i).targetKey = t.key :=
  ⟨locationKey_congr rfl (normalizePath_normalizePath _),
    locationKey_congr rfl (normalizePath_normalizePath _)⟩

/-- The operation is between places that are spelled like these. -/
def Between (op : Operation) (s t : GraphNode S) : Prop :=
  s.remote = op.sourceRemote ∧ normalizePath s.path = op.sourcePath ∧
    t.remote = op.targetRemote ∧ normalizePath t.path = op.targetPath

theorem moved_eq_iff {op op₁ : Operation} {s t : GraphNode S} {i : Nat}
    (h : op₁ = op.moved s t i) (s' t' : GraphNode S) :
    op₁ = op₁.moved s' t' i ↔ op₁.Between s' t' := by
  constructor
  · intro heq
    rw [heq]
    exact ⟨rfl, rfl, rfl, rfl⟩
  · rintro ⟨hr, hp, hr', hp'⟩
    rw [h, moved_moved]
    rw [h] at hr hp hr' hp'
    unfold moved at hr hp hr' hp' ⊢
    rw [hr, hp, hr', hp']

end Operation

theorem mem_rebuilt {flow : Flow} (hids : (flow.operations.map Operation.id).Nodup)
    {op₁ : Operation} : op₁ ∈ flow.rebuilt D S →
    ∃ op ∈ flow.operations, ∃ s t i, nodeFor (flow.nodes D S) op.sourceKey = some s ∧
      nodeFor (flow.nodes D S) op.targetKey = some t ∧ op₁ = op.moved s t i := by
  intro h
  obtain ⟨i, hi, rfl⟩ := List.mem_iff_getElem.mp h
  obtain ⟨op, hop, e, s, t, hdrawn, heq⟩ := rebuilt_getElem hids hi
  obtain ⟨hs, ht, -⟩ := drawn_spec hdrawn
  exact ⟨op, hop, s, t, i, hs, ht, heq⟩

theorem rebuilt_mem {flow : Flow} (hids : (flow.operations.map Operation.id).Nodup)
    {op : Operation} (hop : op ∈ flow.operations) {s t : GraphNode S}
    (hs : nodeFor (flow.nodes D S) op.sourceKey = some s)
    (ht : nodeFor (flow.nodes D S) op.targetKey = some t) :
    ∃ i, op.moved s t i ∈ flow.rebuilt D S := by
  have hmem := List.mem_filterMap.mpr ⟨op, hop, drawn_of hs ht⟩
  obtain ⟨i, hi, heq⟩ := List.mem_iff_getElem.mp hmem
  refine ⟨i, List.mem_mapIdx.mpr ⟨i, hi, ?_⟩⟩
  rw [heq]
  exact redrawn_eq hids hop i

/-- The last kept node at each place is spelled like the one that stands for it. -/
def Flow.SpelledKept (D : Type) [CanvasJson D S] (flow : Flow) (order : IterationOrder S) : Prop :=
  ∀ rp ∈ flow.operations.flatMap Operation.endpoints, ∀ n,
    nodeFor (flow.nodes D S) (locationKey rp.1 rp.2) = some n → ∀ m,
      lastBy GraphNode.key (flow.kept D order) n.key = some m →
        m.remote = n.remote ∧ normalizePath m.path = normalizePath n.path

theorem nodeFor_kept {flow : Flow} (order : IterationOrder S) {key : Text} {n : GraphNode S}
    (h : nodeFor (flow.nodes D S) key = some n) :
    ∃ m, lastBy GraphNode.key (flow.kept D order) n.key = some m :=
  lastBy_of_mem (kept_mem.mpr (nodeFor_mem h))

/-- The flow once its graph was read back. -/
def Flow.saved (D : Type) [CanvasJson D S] (flow : Flow) (order : IterationOrder S) : Flow where
  operations := flow.rebuilt D S
  canvasJson := CanvasJson.serialize S
    (savedCanvas D (CanvasJson.parse (D := D) S flow.canvasJson).viewport (flow.kept D order))

section

variable {flow : Flow} {order : IterationOrder S}

theorem saved_keys (hids : (flow.operations.map Operation.id).Nodup) {op : Operation}
    (hop : op ∈ (flow.saved D order).operations) :
    op.sourceKey ∈ (flow.kept D order).map GraphNode.key ∧
      op.targetKey ∈ (flow.kept D order).map GraphNode.key := by
  obtain ⟨op, -, s, t, i, hs, ht, rfl⟩ := mem_rebuilt hids hop
  rw [(op.moved_keys s t i).1, (op.moved_keys s t i).2]
  exact ⟨List.mem_map_of_mem (kept_mem.mpr (nodeFor_mem hs)),
    List.mem_map_of_mem (kept_mem.mpr (nodeFor_mem ht))⟩

omit [CanvasJson D S] in
theorem same_ids {ops ops' : List Operation} (h : List.Forall₂ Operation.Same ops ops') :
    ops'.map Operation.id = ops.map Operation.id := by
  induction h with
  | nil => rfl
  | cons hsame _ ih => rw [List.map_cons, List.map_cons, hsame.id, ih]

theorem nodeFor_kept_eq (key : Text) :
    nodeFor (flow.kept D order) key = lastBy GraphNode.key (flow.kept D order) key :=
  nodeFor_of_nodup (kept_ids flow order) key

theorem saved_nodes (hids : (flow.operations.map Operation.id).Nodup) (huncut : flow.Uncut D S)
    (hfinite : ∀ d ∈ (savedCanvas D (CanvasJson.parse (D := D) S flow.canvasJson).viewport
      (flow.kept D order)).numbers, Finite S d) :
    storedNodes D S (flow.saved D order) = flow.kept D order ∧
      (flow.saved D order).nodes D S = flow.kept D order := by
  have hstored : storedNodes D S (flow.saved D order) = flow.kept D order := by
    apply storedNodes_savedCanvas hfinite
    exact fun n hn => node_fine huncut (lastBy_spec (kept_mem.mp hn)).1
  refine ⟨hstored, ?_⟩
  unfold Flow.nodes
  rw [hstored]
  exact inserted_self fun op hop => saved_keys hids hop

theorem saved_rebuilt (hids : (flow.operations.map Operation.id).Nodup)
    (hsame : List.Forall₂ Operation.Same flow.operations (flow.rebuilt D S))
    (hnodes : (flow.saved D order).nodes D S = flow.kept D order) :
    (flow.saved D order).rebuilt D S = (flow.saved D order).operations ↔
      flow.SpelledKept D order := by
  have hids' : ((flow.saved D order).operations.map Operation.id).Nodup := by
    show ((flow.rebuilt D S).map Operation.id).Nodup
    rw [same_ids hsame]
    exact hids
  rw [eq_comm, ← List.forall₂_eq_eq_eq]
  conv_lhs => rw [Flow.rebuilt]
  rw [hnodes, forall₂_mapIdx (Q := fun op b => op.Between b.2.1 b.2.2)]
  · constructor
    · intro h rp hrp n hn m hm
      obtain ⟨op, hop, hend⟩ := List.mem_flatMap.mp hrp
      have hfound := (uncut_placed_iff flow).mp ((rebuilt_same hids).mp hsame)
      obtain ⟨s, hs, -⟩ := hfound (op.sourceRemote, op.sourcePath) (endpoints_mem hop).1
      obtain ⟨t, ht, -⟩ := hfound (op.targetRemote, op.targetPath) (endpoints_mem hop).2
      obtain ⟨i, hi⟩ := rebuilt_mem hids hop hs ht
      obtain ⟨⟨e, s', t'⟩, hb, hsr, hsp, htr, htp⟩ := h _ hi
      obtain ⟨hs', ht', -⟩ := drawn_spec hb
      rw [nodeFor_kept_eq, (op.moved_keys s t i).1] at hs'
      rw [nodeFor_kept_eq, (op.moved_keys s t i).2] at ht'
      rcases List.mem_cons.mp hend with rfl | hend
      · obtain rfl := Option.some.inj (hs.symm.trans hn)
        obtain rfl := Option.some.inj (hs'.symm.trans hm)
        exact ⟨hsr, hsp⟩
      · obtain rfl := List.mem_singleton.mp hend
        obtain rfl := Option.some.inj (ht.symm.trans hn)
        obtain rfl := Option.some.inj (ht'.symm.trans hm)
        exact ⟨htr, htp⟩
    · intro h op₁ hop₁
      obtain ⟨op, hop, s, t, i, hs, ht, rfl⟩ := mem_rebuilt hids hop₁
      obtain ⟨s', hs'⟩ := nodeFor_kept order hs
      obtain ⟨t', ht'⟩ := nodeFor_kept order ht
      have hsource := h (op.sourceRemote, op.sourcePath) (endpoints_mem hop).1 s hs s' hs'
      have htarget := h (op.targetRemote, op.targetPath) (endpoints_mem hop).2 t ht t' ht'
      refine ⟨_, @drawn_of _ _ _ s' t' ?_ ?_,
        hsource.1, hsource.2, htarget.1, htarget.2⟩
      · rw [nodeFor_kept_eq, (op.moved_keys s t i).1, hs']
      · rw [nodeFor_kept_eq, (op.moved_keys s t i).2, ht']
  · rintro i hi ⟨e, s', t'⟩ hb
    obtain ⟨-, -, rfl⟩ := drawn_spec hb
    dsimp only
    rw [redrawn_eq hids' (List.getElem_mem hi)]
    obtain ⟨op, -, e, s, t, -, heq⟩ := rebuilt_getElem hids hi
    exact Operation.moved_eq_iff heq s' t'

/-- What is left of the nodes that were stored. -/
def Flow.storedKept (D S : Type) [CanvasJson D S] (flow : Flow) : List Spot :=
  under Spot.id (flow.spots D S) (distinct ((flow.storedSpots D S).map Spot.id))

/-- The last of them at each place is spelled like the spot that stands for it. -/
def Flow.Spelled (D S : Type) [CanvasJson D S] (flow : Flow) : Prop :=
  ∀ rp ∈ flow.operations.flatMap Operation.endpoints, ∀ s t,
    found (flow.spots D S) (locationKey rp.1 rp.2) = some t →
      lastBy Spot.key (flow.storedKept D S) (locationKey rp.1 rp.2) = some s →
        s.remote = t.remote ∧ s.path = t.path

/-- What is last under its id has coordinates of 32 bits. -/
def Flow.InRange (D S : Type) [CanvasJson D S] (flow : Flow) : Prop :=
  ∀ n ∈ storedNodes D S flow, lastBy GraphNode.id (storedNodes D S flow) n.id = some n →
    (∀ s ∈ flow.ownSpots D S, s.id ≠ n.id) → n.Readable D

theorem ownSpot_unique {s t : Spot} (hs : s ∈ flow.ownSpots D S) (ht : t ∈ flow.spots D S)
    (hkey : t.key = s.key) : t = s := by
  have hfree := (mem_ownSpots hs).1
  rcases List.mem_append.mp ht with ht | ht
  · rw [← hkey] at hfree
    exact absurd (List.mem_map_of_mem ht) hfree
  · exact List.inj_on_of_nodup_map (ownSpots_nodup _ _) ht hs hkey

theorem added_spots (huncut : flow.Uncut D S) :
    ∃ added, flow.nodes D S = storedNodes D S flow ++ added ∧
      (∀ n ∈ added, n.Readable D) ∧ spotsOf added = flow.ownSpots D S := by
  obtain ⟨added, hadded, hreadable, -⟩ :=
    inserted_added (D := D) (storedNodes D S flow) flow.operations
  refine ⟨added, hadded, hreadable, ?_⟩
  have hspots := nodes_spots huncut
  unfold Flow.nodes at hspots
  rw [hadded] at hspots
  unfold spotsOf at hspots
  rw [List.map_append] at hspots
  exact List.append_cancel_left hspots

theorem kept_readable_iff (huncut : flow.Uncut D S) :
    (∀ n ∈ flow.kept D order, n.Readable D) ↔ flow.InRange D S := by
  obtain ⟨added, hadded, hreadable, hspots⟩ := added_spots huncut
  have hkept : ∀ n, n ∈ flow.kept D order ↔ ((lastBy GraphNode.id added n.id).or
      (lastBy GraphNode.id (storedNodes D S flow) n.id)) = some n := by
    intro n
    rw [kept_mem, hadded, lastBy_append]
  unfold Flow.InRange
  rw [← hspots]
  constructor
  · intro h n _ hlast hown
    have hnone : lastBy GraphNode.id added n.id = none :=
      lastBy_eq_none_iff.mpr fun a ha => hown a.spot (List.mem_map_of_mem ha)
    apply h n ((hkept n).mpr _)
    rw [hnone]
    exact hlast
  · intro h n hn
    have hlast := (hkept n).mp hn
    cases hadd : lastBy GraphNode.id added n.id with
    | some a =>
      rw [hadd, Option.some_or] at hlast
      obtain rfl := Option.some.inj hlast
      exact hreadable a (lastBy_spec hadd).1
    | none =>
      rw [hadd, Option.none_or] at hlast
      refine h n (lastBy_spec hlast).1 hlast fun s hs => ?_
      obtain ⟨a, ha, rfl⟩ := List.mem_map.mp hs
      exact lastBy_eq_none_iff.mp hadd a ha

/-- Beside the nodes kept in the stored order there are only such as were asked for. -/
theorem kept_split (huncut : flow.Uncut D S) : ∃ stored rest,
    flow.kept D order = stored ++ rest ∧ spotsOf stored = flow.storedKept D S ∧
      ∀ n ∈ rest, n.spot ∈ flow.ownSpots D S := by
  refine ⟨keptStored (storedNodes D S flow) (flow.nodes D S), _, rfl, ?_, fun n hn => ?_⟩
  · unfold keptStored Flow.storedKept Flow.storedSpots
    rw [← nodes_spots huncut, spotsOf, spotsOf, under_map, List.map_map]
    rfl
  · obtain ⟨hmem, hother⟩ := List.mem_filter.mp hn
    have hnode := (lastBy_spec (mem_under.mp ((order.perm _).mem_iff.mp hmem)).2).1
    have hspot : n.spot ∈ flow.spots D S := by
      rw [← nodes_spots huncut]
      exact List.mem_map_of_mem hnode
    rcases List.mem_append.mp hspot with hspot | hspot
    · obtain ⟨m, hm, heq⟩ := List.mem_map.mp hspot
      have hid : ((storedNodes D S flow).map GraphNode.id).contains n.id = true :=
        List.contains_iff_mem.mpr (List.mem_map.mpr ⟨m, hm, congrArg Spot.id heq⟩)
      rw [hid] at hother
      cases hother
    · exact hspot

theorem spelled_iff (huncut : flow.Uncut D S) (hplaced : flow.Placed D S) :
    flow.SpelledKept D order ↔ flow.Spelled D S := by
  obtain ⟨stored, rest, hkept, hspots, hrest⟩ := @kept_split _ _ _ _ order huncut
  have hlast : ∀ key, lastBy Spot.key (flow.storedKept D S) key =
      (lastBy GraphNode.key stored key).map GraphNode.spot := by
    intro key
    rw [← hspots]
    exact lastBy_map GraphNode.spot stored key
  have hmem : ∀ {n : GraphNode S}, n ∈ flow.nodes D S → n.spot ∈ flow.spots D S := by
    intro n hn
    rw [← nodes_spots huncut]
    exact List.mem_map_of_mem hn
  have hkeptMem : ∀ {n : GraphNode S}, n ∈ stored → n ∈ flow.nodes D S := by
    intro n hn
    have hn' : n ∈ flow.kept D order := by
      rw [hkept]
      exact List.mem_append_left _ hn
    exact (lastBy_spec (kept_mem.mp hn')).1
  -- what stands for an endpoint
  have hfound : ∀ rp ∈ flow.operations.flatMap Operation.endpoints, ∀ n,
      nodeFor (flow.nodes D S) (locationKey rp.1 rp.2) = some n →
        n ∈ flow.nodes D S ∧ n.key = locationKey rp.1 rp.2 ∧
          found (flow.spots D S) (locationKey rp.1 rp.2) = some n.spot := by
    intro rp hrp n hn
    have hspot : found (flow.spots D S) (locationKey rp.1 rp.2) = some n.spot := by
      rw [← nodes_spots huncut, found_spotsOf, hn]
      rfl
    obtain ⟨t, ht, hat⟩ := hplaced rp hrp
    obtain rfl := Option.some.inj (hspot.symm.trans ht)
    exact ⟨(lastBy_spec (nodeFor_mem hn)).1, hat.key, hspot⟩
  constructor
  · intro h rp hrp s t ht hs
    rw [hlast] at hs
    obtain ⟨m, hm, rfl⟩ := Option.map_eq_some_iff.mp hs
    obtain ⟨n, hn, -⟩ := (found_iff huncut rp.1 rp.2).mp (hplaced rp hrp)
    obtain ⟨hnode, hkey, hspot⟩ := hfound rp hrp n hn
    obtain rfl := Option.some.inj (hspot.symm.trans ht)
    obtain ⟨hmstored, hmkey⟩ := lastBy_spec hm
    cases hr : lastBy GraphNode.key rest (locationKey rp.1 rp.2) with
    | some a =>
      obtain ⟨ha, hakey⟩ := lastBy_spec hr
      have hn' := ownSpot_unique (hrest a ha) (hmem hnode) (hkey.trans hakey.symm)
      have hm' := ownSpot_unique (hrest a ha) (hmem (hkeptMem hmstored)) (hmkey.trans hakey.symm)
      rw [hn', hm']
      exact ⟨rfl, rfl⟩
    | none =>
      obtain ⟨hremote, hpath⟩ := h rp hrp n hn m (by rw [hkept, lastBy_append, hkey, hr]; exact hm)
      rw [(node_fine huncut hnode).2, (node_fine huncut (hkeptMem hmstored)).2] at hpath
      exact ⟨hremote, hpath⟩
  · intro h rp hrp n hn m hm
    obtain ⟨hnode, hkey, hspot⟩ := hfound rp hrp n hn
    rw [hkept, lastBy_append, hkey] at hm
    cases hr : lastBy GraphNode.key rest (locationKey rp.1 rp.2) with
    | some a =>
      rw [hr, Option.some_or] at hm
      obtain rfl := Option.some.inj hm
      obtain ⟨ha, hakey⟩ := lastBy_spec hr
      have hn' := ownSpot_unique (hrest a ha) (hmem hnode) (hkey.trans hakey.symm)
      exact ⟨congrArg Spot.remote hn'.symm, congrArg (fun s => normalizePath s.path) hn'.symm⟩
    | none =>
      rw [hr, Option.none_or] at hm
      obtain ⟨hremote, hpath⟩ := h rp hrp m.spot n.spot hspot (by rw [hlast, hm]; rfl)
      exact ⟨hremote, congrArg normalizePath hpath⟩

end

-- ============================================================================
-- The round trip
-- ============================================================================

/-- The numbers of a viewport, which come from 64 bits, are written as before. -/
def Viewport.Steady (S : Type) [CanvasJson D S] (v : Viewport D) : Prop :=
  ∀ d ∈ [v.x, v.y, v.zoom],
    (CanvasJson.number S (CanvasJson.text S d) : Option D).map (CanvasJson.text S) =
      some (CanvasJson.text S d)

structure Flow.Steady (D S : Type) [CanvasJson D S] (flow : Flow) : Prop where
  uncut : flow.Uncut D S
  placed : flow.Placed D S
  spelled : flow.Spelled D S
  inRange : flow.InRange D S
  viewport : (CanvasJson.parse (D := D) S flow.canvasJson).viewport.Steady S

/-- The operations come back as they were, and from then on nothing changes. -/
def RoundTrips (D : Type) [CanvasJson D S] (order order' : IterationOrder S) (flow : Flow) : Prop :=
  let once := fromGraph (D := D) (toGraph order flow) flow.operations
  List.Forall₂ Operation.Same flow.operations once.1 ∧
    fromGraph (D := D) (toGraph order' ⟨once.1, once.2⟩) once.1 = once

theorem Viewport.steady_iff {v : Viewport D} (h : ∀ d ∈ [v.x, v.y, v.zoom], Finite S d) :
    v.Steady S ↔ ∀ d ∈ [v.x, v.y, v.zoom], CanvasJson.text S (reread S d) = CanvasJson.text S d := by
  refine forall₂_congr fun d hd => ?_
  rw [number_text (h d hd), Option.map_some, Option.some_inj]

theorem Viewport.Steady.finite {v : Viewport D} (h : v.Steady S) :
    ∀ d ∈ [v.x, v.y, v.zoom], Finite S d := by
  intro d hd
  obtain ⟨d', hd', -⟩ := Option.map_eq_some_iff.mp (h d hd)
  exact Option.isSome_iff_exists.mpr ⟨d', hd'⟩

/-- Only the viewport can be written differently. -/
theorem serialize_rereads (v : Viewport D) (nodes : List (GraphNode S)) :
    CanvasJson.serialize S (savedCanvas D (v.map (reread S)) nodes) =
        CanvasJson.serialize S (savedCanvas D v nodes) ↔
      ∀ d ∈ [v.x, v.y, v.zoom], CanvasJson.text S (reread S d) = CanvasJson.text S d := by
  rw [CanvasJson.serialize_inj]
  simp [savedCanvas, CanvasModel.map, Viewport.map]

section

variable {flow : Flow} {order : IterationOrder S}

theorem second_finite (hids : (flow.operations.map Operation.id).Nodup)
    (hsame : List.Forall₂ Operation.Same flow.operations (flow.rebuilt D S))
    (hviewport : ∀ d ∈ [(CanvasJson.parse (D := D) S flow.canvasJson).viewport.x,
      (CanvasJson.parse (D := D) S flow.canvasJson).viewport.y,
      (CanvasJson.parse (D := D) S flow.canvasJson).viewport.zoom], Finite S d)
    (hreadable : ∀ n ∈ flow.kept D order, n.Readable D) (order' : IterationOrder S) :
    fromGraph (D := D) (toGraph order' (flow.saved D order)) (flow.saved D order).operations =
        ((flow.saved D order).operations, (flow.saved D order).canvasJson) ↔
      flow.Spelled D S ∧ (CanvasJson.parse (D := D) S flow.canvasJson).viewport.Steady S := by
  obtain ⟨huncut, hplaced⟩ := (rebuilt_same hids).mp hsame
  have hfinite := savedCanvas_finite.mpr ⟨hviewport, hreadable⟩
  obtain ⟨hstored, hnodes⟩ := @saved_nodes _ _ _ _ order hids huncut hfinite
  have hkept : (flow.saved D order).kept D order' = flow.kept D order := by
    unfold Flow.kept at hstored hnodes ⊢
    rw [hstored, hnodes]
    exact kept_self order' _ (kept_ids flow order)
  rw [fromGraph_toGraph, Prod.mk.injEq, hkept]
  have hcanvas : (CanvasJson.parse (D := D) S (flow.saved D order).canvasJson).viewport =
      (CanvasJson.parse (D := D) S flow.canvasJson).viewport.map (reread S) := by
    unfold Flow.saved
    rw [parse_serialize_finite hfinite]
    rfl
  rw [hcanvas, Viewport.steady_iff hviewport, ← @spelled_iff _ _ _ _ order huncut hplaced]
  exact and_congr (saved_rebuilt hids hsame hnodes)
    (serialize_rereads (CanvasJson.parse (D := D) S flow.canvasJson).viewport (flow.kept D order))

/-- A number that is not written makes the canvas unreadable; the default layout is
    written in its place. -/
theorem second_unreadable (order' : IterationOrder S)
    (h : ∃ d ∈ (savedCanvas D (CanvasJson.parse (D := D) S flow.canvasJson).viewport
      (flow.kept D order)).numbers, ¬ Finite S d) :
    fromGraph (D := D) (toGraph order' (flow.saved D order)) (flow.saved D order).operations ≠
      ((flow.saved D order).operations, (flow.saved D order).canvasJson) := by
  obtain ⟨d, hd, hinf⟩ := h
  have hnone : CanvasJson.number S (CanvasJson.text S d) = (none : Option D) :=
    Option.not_isSome_iff_eq_none.mp hinf
  have hparse := CanvasJson.parse_null (S := S) _ ⟨d, hd, hnone⟩
  have hstored : storedNodes D S (flow.saved D order) = [] := by
    unfold storedNodes Flow.saved
    rw [hparse]
    rfl
  have hreadable : ∀ n ∈ (flow.saved D order).kept D order', n.Readable D := by
    obtain ⟨added, hadded, hreadable, -⟩ :=
      inserted_added (D := D) (storedNodes D S (flow.saved D order)) (flow.saved D order).operations
    intro n hn
    have hmem := (lastBy_spec (kept_mem.mp hn)).1
    unfold Flow.nodes at hmem
    rw [hadded, hstored] at hmem
    exact hreadable n hmem
  intro heq
  rw [fromGraph_toGraph] at heq
  have hcanvas := (Prod.mk.inj heq).2
  have hviewport : (CanvasJson.parse (D := D) S (flow.saved D order).canvasJson).viewport =
      CanvasJson.viewport S := by
    unfold Flow.saved
    rw [hparse]
  rw [hviewport] at hcanvas
  have htexts := congrArg CanvasModel.numbers ((CanvasJson.serialize_inj _ _).mp hcanvas)
  rw [CanvasModel.numbers_map, CanvasModel.numbers_map] at htexts
  have hmem := List.mem_map_of_mem (f := CanvasJson.text S) hd
  rw [← htexts] at hmem
  obtain ⟨d', hd', htext⟩ := List.mem_map.mp hmem
  have hfinite := savedCanvas_finite.mpr
    ⟨fun d hd => CanvasJson.number_viewport (S := S) d hd, hreadable⟩ d' hd'
  unfold Finite at hfinite
  rw [htext, hnone] at hfinite
  cases hfinite

/-- A flow comes back from its canvas as it was, and stays so, exactly if it is
    steady. -/
theorem roundTrips_iff (order order' : IterationOrder S) (flow : Flow)
    (hids : (flow.operations.map Operation.id).Nodup) :
    RoundTrips D order order' flow ↔ flow.Steady D S := by
  have honce := fromGraph_toGraph (D := D) order flow
  unfold RoundTrips
  rw [honce]
  show List.Forall₂ Operation.Same flow.operations (flow.rebuilt D S) ∧
    fromGraph (D := D) (toGraph order' (flow.saved D order)) (flow.saved D order).operations =
      ((flow.saved D order).operations, (flow.saved D order).canvasJson) ↔ _
  constructor
  · rintro ⟨hsame, htwice⟩
    obtain ⟨huncut, hplaced⟩ := (rebuilt_same hids).mp hsame
    have hfinite : ∀ d ∈ (savedCanvas D (CanvasJson.parse (D := D) S flow.canvasJson).viewport
        (flow.kept D order)).numbers, Finite S d := by
      intro d hd
      by_contra hinf
      exact second_unreadable order' ⟨d, hd, hinf⟩ htwice
    obtain ⟨hviewport, hreadable⟩ := savedCanvas_finite.mp hfinite
    obtain ⟨hspelled, hsteady⟩ := (second_finite hids hsame hviewport hreadable order').mp htwice
    exact ⟨huncut, hplaced, hspelled, (kept_readable_iff huncut).mp hreadable, hsteady⟩
  · rintro ⟨huncut, hplaced, hspelled, hrange, hsteady⟩
    have hsame := (rebuilt_same hids).mpr ⟨huncut, hplaced⟩
    refine ⟨hsame, ?_⟩
    exact (second_finite hids hsame hsteady.finite ((kept_readable_iff huncut).mpr hrange)
      order').mpr ⟨hspelled, hsteady⟩

end

end

/-- Of a flow without a canvas only the ids can be in the way. -/
theorem Flow.steady_of_new {D S : Type} [CanvasJson D S] {flow : Flow}
    (hnew : storedNodes D S flow = []) (hplaced : flow.Placed D S)
    (hviewport : (CanvasJson.parse (D := D) S flow.canvasJson).viewport.Steady S) :
    flow.Steady D S where
  uncut := by
    intro hne
    unfold Flow.storedSpots at hne
    rw [hnew] at hne
    exact absurd rfl hne
  placed := hplaced
  spelled := by
    intro rp _ s t _ hs
    unfold Flow.storedKept Flow.storedSpots at hs
    rw [hnew] at hs
    cases hs
  inRange := by
    intro n hn
    rw [hnew] at hn
    cases hn
  viewport := hviewport

/-- An operation from the root of this machine to one folder; the map comes in
    either order. -/
theorem roundTrips_new :
    RoundTrips (S := Nat) Nat ⟨id, .refl⟩ ⟨List.reverse, List.reverse_perm⟩
      ⟨[⟨"O1".toList, [], [], [], "gdrive".toList, "/b".toList, [], [], false, 0⟩], []⟩ := by
  apply (roundTrips_iff _ _ _ (by decide)).mpr
  apply Flow.steady_of_new (by decide +kernel)
  · intro rp hrp
    rcases List.mem_cons.mp hrp with rfl | hrp
    · exact ⟨ownSpot [] [], by decide +kernel, rfl, rfl⟩
    · obtain rfl := List.mem_singleton.mp hrp
      exact ⟨ownSpot "gdrive".toList "/b".toList, by decide +kernel, by decide, by decide⟩
  · unfold Viewport.Steady
    decide +kernel

theorem RoundTrips.placed {D S : Type} [CanvasJson D S] {flow : Flow}
    {order order' : IterationOrder S} (hids : (flow.operations.map Operation.id).Nodup)
    (h : RoundTrips D order order' flow) : flow.Placed D S := by
  have hsame := h.1
  rw [fromGraph_toGraph] at hsame
  exact ((rebuilt_same hids).mp hsame).2

/-- Two nodes with one id: the operation is read back between the folder `/b` and
    itself. -/
theorem other_folder :
    let flow : Flow :=
      { operations := [⟨"O1".toList, [], [], "/a".toList, "gdrive".toList, "/b".toList, [], [],
          false, 0⟩]
        canvasJson := writeCanvas
          { viewport := ⟨0, 0, 1⟩
            nodes := [⟨"n1".toList, [], "/a".toList, [], 0, 0⟩,
              ⟨"n1".toList, "gdrive".toList, "/b".toList, [], 480, 0⟩] } }
    (flow.operations.map Operation.id).Nodup ∧
      ∀ order order' : IterationOrder Nat, ¬ RoundTrips Nat order order' flow := by
  intro flow
  refine ⟨by decide, ?_⟩
  intro order order' h
  have hids : (flow.operations.map Operation.id).Nodup := by decide
  obtain ⟨t, ht, hremote, -⟩ := h.placed hids ([], "/a".toList)
    (endpoints_mem List.mem_cons_self).1
  have hstored : storedNodes Nat Nat flow =
      [⟨"n1".toList, [], "/a".toList, [], 0, 0⟩,
        ⟨"n1".toList, "gdrive".toList, "/b".toList, [], 480, 0⟩] := by
    show (parseWhole (writeCanvas _)).nodes.map storedNode = _
    rw [parseWhole_write]
    decide
  have hspots : flow.spots Nat Nat =
      [⟨"n1".toList, [], "/a".toList⟩, ⟨"n1".toList, "gdrive".toList, "/b".toList⟩] := by
    unfold Flow.spots Flow.ownSpots Flow.storedSpots
    rw [hstored]
    decide
  have hfound : some t = some ⟨"n1".toList, "gdrive".toList, "/b".toList⟩ := by
    rw [← ht, hspots]
    decide
  obtain rfl := Option.some.inj hfound
  exact absurd hremote (by decide)

end GnDrive.Gpui
