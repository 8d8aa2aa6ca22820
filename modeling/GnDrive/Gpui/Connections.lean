/-
  GnDrive.Gpui.Connections

  Which edits of the canvas keep the operations apart.

  A draft is clean if no operation has a source and a target that are one location of rclone,
  and no two operations have the same source, target and action.  The window checks a new
  connection against the ids of nodes and edges only, and a renaming and a change of an action
  not at all.  In runs whose edits are sound, every draft is clean (`edits_keep_clean`); of one
  edit soundness is what it takes (`clean_edit_iff`).
-/

import GnDrive.Gpui.CanvasEdits

namespace GnDrive.Gpui

open Keyed (lastBy lastBy_spec lastBy_of_mem)
open Rclone (composePath)
open Text (trim)

-- ============================================================================
-- Clean drafts
-- ============================================================================

/-- The same source, target and action. -/
def Connection.Clash (c c' : Connection) : Prop :=
  c.source = c'.source ∧ c.target = c'.target ∧ c.action = c'.action

/-- No connection of a location to itself, and none twice. -/
structure Clean (cs : List Connection) : Prop where
  noSelf : ∀ c ∈ cs, c.source ≠ c.target
  noTwice : cs.Pairwise fun c c' => ¬c.Clash c'

/-- What an edge connects, its nodes being where `loc` says. -/
def GraphEdge.drawn (loc : Text → Option Text) (e : GraphEdge) : Option Connection :=
  e.connection loc fun e => normalizeAction e.action

/-- The same of edges. -/
structure CleanEdges (loc : Text → Option Text) (es : List GraphEdge) : Prop where
  noSelf : ∀ e ∈ es, ∀ c, e.drawn loc = some c → c.source ≠ c.target
  noTwice : es.Pairwise fun e e' => ∀ c, e.drawn loc = some c → ∀ c', e'.drawn loc = some c' →
    ¬c.Clash c'

theorem clean_iff_edges {loc : Text → Option Text} {es : List GraphEdge} :
    Clean (es.filterMap (GraphEdge.drawn loc)) ↔ CleanEdges loc es := by
  have hself : (∀ c ∈ es.filterMap (GraphEdge.drawn loc), c.source ≠ c.target) ↔
      ∀ e ∈ es, ∀ c, e.drawn loc = some c → c.source ≠ c.target := by
    simp only [List.mem_filterMap]
    exact ⟨fun h e he c hc => h c ⟨e, he, hc⟩, fun h c ⟨e, he, hc⟩ => h e he c hc⟩
  exact ⟨fun h => ⟨hself.mp h.1, List.pairwise_filterMap.mp h.2⟩,
    fun h => ⟨hself.mpr h.1, List.pairwise_filterMap.mpr h.2⟩⟩

theorem Clean.sublist {cs cs' : List Connection} (h : Clean cs) (hsub : cs'.Sublist cs) :
    Clean cs' :=
  ⟨fun c hc => h.noSelf c (hsub.subset hc), h.noTwice.sublist hsub⟩

section

variable {loc loc' : Text → Option Text} {es es' : List GraphEdge}

theorem CleanEdges.sublist (h : CleanEdges loc es) (hsub : es'.Sublist es) :
    CleanEdges loc es' :=
  ⟨fun e he => h.noSelf e (hsub.subset he), h.noTwice.sublist hsub⟩

theorem CleanEdges.congr (h : CleanEdges loc es)
    (hsame : ∀ e ∈ es, e.drawn loc' = e.drawn loc) : CleanEdges loc' es := by
  refine ⟨fun e he c hc => h.noSelf e he c (hsame e he ▸ hc), ?_⟩
  refine h.noTwice.imp_of_mem fun {e e'} he he' hclash c hc c' hc' => ?_
  exact hclash c (hsame e he ▸ hc) c' (hsame e' he' ▸ hc')

/-- One edge among others. -/
theorem cleanEdges_middle {l₁ l₂ : List GraphEdge} {e : GraphEdge} :
    CleanEdges loc (l₁ ++ e :: l₂) ↔ CleanEdges loc (l₁ ++ l₂) ∧
      ∀ c, e.drawn loc = some c → c.source ≠ c.target ∧
        ∀ e' ∈ l₁ ++ l₂, ∀ c', e'.drawn loc = some c' → ¬c.Clash c' := by
  have hperm : (l₁ ++ e :: l₂).Perm (e :: (l₁ ++ l₂)) := List.perm_middle
  have hsymm : ∀ e e' : GraphEdge,
      (∀ c, e.drawn loc = some c → ∀ c', e'.drawn loc = some c' → ¬c.Clash c') →
      ∀ c, e'.drawn loc = some c → ∀ c', e.drawn loc = some c' → ¬c.Clash c' :=
    fun e e' h c hc c' hc' hclash =>
      h c' hc' c hc ⟨hclash.1.symm, hclash.2.1.symm, hclash.2.2.symm⟩
  constructor
  · intro h
    have htwice := (hperm.pairwise_iff fun {e e'} => hsymm e e').mp h.noTwice
    obtain ⟨hhead, htail⟩ := List.pairwise_cons.mp htwice
    refine ⟨⟨fun e' he' => h.noSelf e' (hperm.mem_iff.mpr (List.mem_cons_of_mem _ he')), htail⟩,
      fun c hc => ⟨h.noSelf e (by simp) c hc, fun e' he' => hhead e' he' c hc⟩⟩
  · rintro ⟨hrest, hone⟩
    refine ⟨fun e' he' => ?_, ?_⟩
    · rcases List.mem_cons.mp (hperm.mem_iff.mp he') with rfl | he'
      · exact fun c hc => (hone c hc).1
      · exact hrest.noSelf e' he'
    · refine (hperm.pairwise_iff fun {e e'} => hsymm e e').mpr (List.pairwise_cons.mpr ⟨?_, ?_⟩)
      · exact fun e' he' c hc => (hone c hc).2 e' he'
      · exact hrest.noTwice

end

-- ============================================================================
-- The edits
-- ============================================================================

inductive CanvasEdit (D S : Type) where
  | connect (order : IterationOrder S) (running : Bool) (flowId : Option Text) (now : Nat)
      (source target : Text)
  | rename (order : IterationOrder S) (running : Bool) (nodeId path : Text)
      (remote : Option Text)
  | setAction (order : IterationOrder S) (running : Bool) (edgeId action : Text)
  | addNode (home : Text) (x y : S) (viewport : Viewport D) (rounds : Nat) (running : Bool)
  | deleteNode (order : IterationOrder S) (running : Bool) (id : Text)
  | deleteEdge (order : IterationOrder S) (running : Bool) (id : Text)

section

variable {D S : Type} [CanvasJson D S]

def Inspector.edit (w : Inspector D S) : CanvasEdit D S → Inspector D S
  | .connect order running flowId now source target =>
      w.connectNodes order running flowId now source target
  | .rename order running nodeId path remote => w.setNodePath order running nodeId path remote
  | .setAction order running edgeId action => w.setEdgeAction order running edgeId action
  | .addNode home x y viewport rounds running => w.addNode home x y viewport rounds running
  | .deleteNode order running id => w.deleteNode order running id
  | .deleteEdge order running id => w.deleteEdge order running id

variable (D) in
/-- The canvas of a clean draft, edited. -/
def canvasSystem : System (Inspector D S) (CanvasEdit D S) where
  init w := ∃ flow order, w.draft = some flow ∧ w.graph = some (toGraph order flow) ∧
    Clean (flow.operations.map Operation.connection)
  step w a := some (w.edit a)

omit [CanvasJson D S]

/-- Each edge is between the locations of its operation.  Two nodes of one id, such as those of
    two locations with one hash, are what can make it untrue. -/
def InPlace (graph : FlowGraph D S) : Prop :=
  ∀ e ∈ graph.edges, ∀ s t, locationOf graph.nodes e.source = some s →
    locationOf graph.nodes e.target = some t →
    s = e.operation.connection.source ∧ t = e.operation.connection.target

/-- Where the nodes are after a renaming. -/
def renamedLocation (loc : Text → Option Text) (nodeId path : Text) (remote : Option Text)
    (k : Text) : Option Text :=
  if k = nodeId then
    (loc k).map fun _ => composePath (remote.getD (splitLocation path).1) (splitLocation path).2
  else loc k

/-- What the edit changes connects no location to itself and nothing that is connected with the
    same action elsewhere. -/
def SoundEdit (graph : FlowGraph D S) : CanvasEdit D S → Prop
  | .connect _ running flowId _ source target =>
      running = false → flowId ≠ none → connectError source target PUSH graph = none →
      ∀ s t, locationOf graph.nodes source = some s → locationOf graph.nodes target = some t →
        s ≠ t ∧ ∀ e ∈ graph.edges, ∀ c, e.drawn (locationOf graph.nodes) = some c →
          ¬(s = c.source ∧ t = c.target ∧ PUSH = c.action)
  | .rename _ running nodeId path remote =>
      running = false → path ≠ [] →
      let loc := renamedLocation (locationOf graph.nodes) nodeId path remote
      (∀ e ∈ graph.edges, e.source = nodeId ∨ e.target = nodeId → ∀ c, e.drawn loc = some c →
        c.source ≠ c.target) ∧
      graph.edges.Pairwise fun e e' =>
        (e.source = nodeId ∨ e.target = nodeId) ∨ (e'.source = nodeId ∨ e'.target = nodeId) →
        ∀ c, e.drawn loc = some c → ∀ c', e'.drawn loc = some c' → ¬c.Clash c'
  | .setAction _ running edgeId action =>
      running = false → ∀ l₁ e l₂, graph.edges = l₁ ++ e :: l₂ → e.id = edgeId →
        (∀ e' ∈ l₁, e'.id ≠ edgeId) → ∀ c, e.drawn (locationOf graph.nodes) = some c →
        ∀ e' ∈ l₁ ++ l₂, ∀ c', e'.drawn (locationOf graph.nodes) = some c' →
          ¬(c.source = c'.source ∧ c.target = c'.target ∧ normalizeAction action = c'.action)
  | _ => True

end

-- ============================================================================
-- Edges between places
-- ============================================================================

theorem drawn_eq_some {loc : Text → Option Text} {e : GraphEdge} {c : Connection} :
    e.drawn loc = some c ↔ ∃ s t, loc e.source = some s ∧ loc e.target = some t ∧
      c = ⟨e.id, s, t, normalizeAction e.action⟩ := by
  unfold GraphEdge.drawn GraphEdge.connection
  constructor
  · intro h
    cases hs : loc e.source with
    | none =>
      rw [hs] at h
      cases h
    | some s =>
      cases ht : loc e.target with
      | none =>
        rw [hs, ht] at h
        cases h
      | some t =>
        rw [hs, ht] at h
        exact ⟨s, t, rfl, rfl, (Option.some.inj h).symm⟩
  · rintro ⟨s, t, hs, ht, rfl⟩
    rw [hs, ht]

/-- An edge is drawn by where its two nodes are. -/
theorem drawn_congr {loc loc' : Text → Option Text} {e : GraphEdge}
    (hs : loc' e.source = loc e.source) (ht : loc' e.target = loc e.target) :
    e.drawn loc' = e.drawn loc := by
  unfold GraphEdge.drawn GraphEdge.connection
  rw [hs, ht]

theorem modify_split {es l₁ l₂ : List GraphEdge} {e : GraphEdge} {id : Text}
    (hes : es = l₁ ++ e :: l₂) (hid : e.id = id) (hfirst : ∀ e' ∈ l₁, e'.id ≠ id)
    (f : GraphEdge → GraphEdge) :
    es.modify (es.findIdx (·.id = id)) f = l₁ ++ f e :: l₂ := by
  subst hes
  induction l₁ with
  | nil => simp [List.findIdx_cons, hid]
  | cons d l₁ ih =>
    have hd : d.id ≠ id := hfirst d List.mem_cons_self
    rw [List.cons_append, List.findIdx_cons]
    simp only [hd, decide_false, cond_false]
    rw [List.modify_succ_cons, ih fun e' he' => hfirst e' (List.mem_cons_of_mem _ he')]
    rfl

theorem exists_split {es : List GraphEdge} {id : Text} (h : ∃ e ∈ es, e.id = id) :
    ∃ l₁ e l₂, es = l₁ ++ e :: l₂ ∧ e.id = id ∧ ∀ e' ∈ l₁, e'.id ≠ id := by
  cases hfind : es.find? (·.id = id) with
  | none =>
    obtain ⟨e, he, hid⟩ := h
    exact absurd (decide_eq_true hid) (List.find?_eq_none.mp hfind e he)
  | some e =>
    obtain ⟨hid, l₁, l₂, hes, hfirst⟩ := List.find?_eq_some_iff_append.mp hfind
    exact ⟨l₁, e, l₂, hes, of_decide_eq_true hid, fun e' he' => by simpa using hfirst e' he'⟩

section

variable {D S : Type} [CanvasJson D S]

/-- The window shows the graph of a clean draft. -/
structure Ready (w : Inspector D S) (graph : FlowGraph D S) (draft : Flow) : Prop where
  hasGraph : w.graph = some graph
  hasDraft : w.draft = some draft
  nodes : (graph.nodes.map GraphNode.id).Nodup
  actions : ∀ e ∈ graph.edges, e.action = normalizeAction e.operation.action
  operations : (graph.edges.map GraphEdge.operation).Sublist draft.operations
  clean : Clean (draft.operations.map Operation.connection)

omit [CanvasJson D S] in
theorem drawn_inPlace {graph : FlowGraph D S} (hplace : InPlace graph) {e : GraphEdge}
    (he : e ∈ graph.edges) (haction : e.action = normalizeAction e.operation.action)
    {c : Connection} (hc : e.drawn (locationOf graph.nodes) = some c) :
    c.source = e.operation.connection.source ∧ c.target = e.operation.connection.target ∧
      c.action = e.operation.connection.action := by
  obtain ⟨s, t, hs, ht, rfl⟩ := drawn_eq_some.mp hc
  obtain ⟨rfl, rfl⟩ := hplace e he s t hs ht
  refine ⟨rfl, rfl, ?_⟩
  show normalizeAction e.action = normalizeAction e.operation.action
  rw [haction, normalizeAction_normalizeAction]

variable {w : Inspector D S} {graph : FlowGraph D S} {draft : Flow}

omit [CanvasJson D S] in
/-- What is drawn in place of clean operations is clean. -/
theorem Ready.cleanEdges (h : Ready w graph draft) (hplace : InPlace graph) :
    CleanEdges (locationOf graph.nodes) graph.edges := by
  have hclean : Clean ((graph.edges.map GraphEdge.operation).map Operation.connection) :=
    h.clean.sublist (h.operations.map _)
  refine ⟨fun e he c hc => ?_, ?_⟩
  · obtain ⟨hs, ht, -⟩ := drawn_inPlace hplace he (h.actions e he) hc
    rw [hs, ht]
    exact hclean.noSelf _ (List.mem_map_of_mem (List.mem_map_of_mem he))
  · have htwice := hclean.noTwice
    rw [List.map_map, List.pairwise_map] at htwice
    refine htwice.imp_of_mem fun {e e'} he he' hclash c hc c' hc' hsame => hclash ?_
    obtain ⟨hs, ht, ha⟩ := drawn_inPlace hplace he (h.actions e he) hc
    obtain ⟨hs', ht', ha'⟩ := drawn_inPlace hplace he' (h.actions e' he') hc'
    obtain ⟨hss, htt, haa⟩ := hsame
    exact ⟨hs.symm.trans (hss.trans hs'), ht.symm.trans (htt.trans ht'),
      ha.symm.trans (haa.trans ha')⟩

theorem normalizeAction_ne {a : Text} {op : Operation} (h : a = normalizeAction op.action) :
    a ≠ [] := h ▸ normalizeAction_ne_nil op.action

/-- Rebuilt of edges that are clean where the nodes are, and only of such, the draft is clean. -/
theorem rebuilt_clean_iff {order : IterationOrder S} {previous : List Operation}
    (hr : Inspector.Rebuilt order graph previous w) (hactions : ∀ e ∈ graph.edges, e.action ≠ []) :
    (∃ draft, w.draft = some draft ∧ Clean (draft.operations.map Operation.connection)) ↔
      CleanEdges (locationOf graph.nodes) graph.edges := by
  have hdrawn : (fromGraph graph previous).1.map Operation.connection =
      graph.edges.filterMap (GraphEdge.drawn (locationOf graph.nodes)) := by
    rw [fromGraph_connections]
    refine List.filterMap_congr fun e he => ?_
    unfold GraphEdge.drawn GraphEdge.connection
    rw [edgeAction_of_ne (hactions e he)]
  rw [← clean_iff_edges, ← hdrawn]
  constructor
  · rintro ⟨draft, hdraft, hclean⟩
    rw [hr.draft] at hdraft
    rw [← Option.some.inj hdraft] at hclean
    exact hclean
  · exact fun hclean => ⟨_, hr.draft, hclean⟩

/-- A window that shows the graph of its clean draft is ready. -/
theorem ready_toGraph {w : Inspector D S} {order : IterationOrder S} {draft : Flow}
    (hgraph : w.graph = some (toGraph order draft)) (hdraft : w.draft = some draft)
    (hclean : Clean (draft.operations.map Operation.connection)) :
    Ready w (toGraph order draft) draft := by
  have hedge : ∀ (all : List (GraphNode S)) (op : Operation) (e : GraphEdge),
      toEdge all op = some e → e.operation = op ∧ e.action = normalizeAction op.action := by
    intro all op e he
    unfold toEdge at he
    split at he
    · rw [← Option.some.inj he]
      exact ⟨rfl, rfl⟩
    · cases he
  refine ⟨hgraph, hdraft, kept_ids draft order, ?_, ?_, hclean⟩
  · intro e he
    obtain ⟨op, -, hop⟩ := List.mem_filterMap.mp he
    obtain ⟨rfl, haction⟩ := hedge _ op e hop
    exact haction
  · show ((draft.operations.filterMap (toEdge (draft.nodes D S))).map _).Sublist _
    induction draft.operations with
    | nil => exact .slnil
    | cons op ops ih =>
      cases he : toEdge (draft.nodes D S) op with
      | none =>
        rw [List.filterMap_cons_none he]
        exact ih.cons _
      | some e =>
        rw [List.filterMap_cons_some he, List.map_cons, (hedge _ op e he).1]
        exact ih.cons_cons _

-- ============================================================================
-- Edit by edit
-- ============================================================================

section

omit [CanvasJson D S]

variable {loc : Text → Option Text} {es : List GraphEdge}

theorem clean_connect_iff {e : GraphEdge} {s t : Text} (h : CleanEdges loc es)
    (hs : loc e.source = some s) (ht : loc e.target = some t) :
    CleanEdges loc (es ++ [e]) ↔ s ≠ t ∧ ∀ e' ∈ es, ∀ c, e'.drawn loc = some c →
      ¬(s = c.source ∧ t = c.target ∧ normalizeAction e.action = c.action) := by
  have hone : e.drawn loc = some ⟨e.id, s, t, normalizeAction e.action⟩ :=
    drawn_eq_some.mpr ⟨s, t, hs, ht, rfl⟩
  rw [cleanEdges_middle, List.append_nil]
  constructor
  · rintro ⟨-, hnew⟩
    exact hnew _ hone
  · intro hnew
    refine ⟨h, fun c hc => ?_⟩
    obtain rfl := Option.some.inj (hone.symm.trans hc)
    exact hnew

theorem clean_rename_iff {loc' : Text → Option Text} {nodeId : Text} (h : CleanEdges loc es)
    (hloc : ∀ k, k ≠ nodeId → loc' k = loc k) :
    CleanEdges loc' es ↔
      (∀ e ∈ es, e.source = nodeId ∨ e.target = nodeId → ∀ c, e.drawn loc' = some c →
        c.source ≠ c.target) ∧
      es.Pairwise fun e e' =>
        (e.source = nodeId ∨ e.target = nodeId) ∨ (e'.source = nodeId ∨ e'.target = nodeId) →
        ∀ c, e.drawn loc' = some c → ∀ c', e'.drawn loc' = some c' → ¬c.Clash c' := by
  -- an edge elsewhere is drawn as before
  have hother : ∀ e : GraphEdge, ¬(e.source = nodeId ∨ e.target = nodeId) →
      e.drawn loc' = e.drawn loc := fun e he =>
    drawn_congr (hloc _ fun hs => he (.inl hs)) (hloc _ fun ht => he (.inr ht))
  constructor
  · intro h'
    refine ⟨fun e he _ => h'.noSelf e he, ?_⟩
    refine h'.noTwice.imp fun {e e'} hclash hat => ?_
    exact hclash
  · rintro ⟨hself, htwice⟩
    refine ⟨fun e he c hc => ?_, ?_⟩
    · by_cases hat : e.source = nodeId ∨ e.target = nodeId
      · exact hself e he hat c hc
      · rw [hother e hat] at hc
        exact h.noSelf e he c hc
    · refine (htwice.and h.noTwice).imp fun {e e'} hboth c hc c' hc' => ?_
      by_cases hat : (e.source = nodeId ∨ e.target = nodeId) ∨
          (e'.source = nodeId ∨ e'.target = nodeId)
      · exact hboth.1 hat c hc c' hc'
      · obtain ⟨he, he'⟩ := not_or.mp hat
        rw [hother e he] at hc
        rw [hother e' he'] at hc'
        exact hboth.2 c hc c' hc'

theorem clean_setAction_iff {l₁ l₂ : List GraphEdge} {e : GraphEdge} {action : Text}
    (h : CleanEdges loc (l₁ ++ e :: l₂)) :
    CleanEdges loc (l₁ ++ e.setAction (normalizeAction action) :: l₂) ↔
      ∀ c, e.drawn loc = some c → ∀ e' ∈ l₁ ++ l₂, ∀ c', e'.drawn loc = some c' →
        ¬(c.source = c'.source ∧ c.target = c'.target ∧ normalizeAction action = c'.action) := by
  obtain ⟨hrest, hone⟩ := cleanEdges_middle.mp h
  have hnew : ∀ c, (e.setAction (normalizeAction action)).drawn loc = some c ↔
      ∃ c₀, e.drawn loc = some c₀ ∧ c = { c₀ with action := normalizeAction action } := by
    intro c
    rw [drawn_eq_some]
    constructor
    · rintro ⟨s, t, hs, ht, rfl⟩
      exact ⟨_, drawn_eq_some.mpr ⟨s, t, hs, ht, rfl⟩,
        by simp [GraphEdge.setAction, normalizeAction_normalizeAction]⟩
    · rintro ⟨c₀, hc₀, rfl⟩
      obtain ⟨s, t, hs, ht, rfl⟩ := drawn_eq_some.mp hc₀
      exact ⟨s, t, hs, ht, by simp [GraphEdge.setAction, normalizeAction_normalizeAction]⟩
  rw [cleanEdges_middle, and_iff_right hrest]
  constructor
  · intro hclean c hc e' he' c' hc'
    exact (hclean _ ((hnew _).mpr ⟨c, hc, rfl⟩)).2 e' he' c' hc'
  · intro hsound c hc
    obtain ⟨c₀, hc₀, rfl⟩ := (hnew c).mp hc
    exact ⟨(hone c₀ hc₀).1, fun e' he' c' hc' => hsound c₀ hc₀ e' he' c' hc'⟩

end

variable {w : Inspector D S} {graph : FlowGraph D S} {draft : Flow}

omit [CanvasJson D S] in
theorem exists_location {id : Text} (h : graph.nodes.any (·.id = id) = true) :
    ∃ s, locationOf graph.nodes id = some s := by
  obtain ⟨n, hn, hid⟩ := List.any_eq_true.mp h
  obtain ⟨m, hm⟩ := lastBy_of_mem (f := GraphNode.id) hn
  rw [of_decide_eq_true hid] at hm
  exact ⟨m.location, by rw [locationOf, hm]; rfl⟩

omit [CanvasJson D S] in
theorem connectError_none {source target action : Text}
    (h : connectError source target action graph = none) :
    graph.nodes.any (·.id = source) = true ∧ graph.nodes.any (·.id = target) = true := by
  unfold connectError at h
  split_ifs at h with hempty hloop hknown hedge
  simp only [Bool.or_eq_true, Bool.not_eq_true', not_or, Bool.not_eq_false] at hknown
  exact hknown

omit [CanvasJson D S] in
/-- A renaming to where the node is. -/
theorem renamedLocation_same {nodeId path : Text} {remote : Option Text}
    (h : ∀ node ∈ graph.nodes, node.id = nodeId →
      node.remote = remote.getD (splitLocation path).1 ∧
        node.path = normalizePath (splitLocation path).2) :
    renamedLocation (locationOf graph.nodes) nodeId path remote = locationOf graph.nodes := by
  funext k
  unfold renamedLocation
  split_ifs with hk
  · unfold locationOf
    cases hn : lastBy GraphNode.id graph.nodes k with
    | none => rfl
    | some n =>
      obtain ⟨hmem, hid⟩ := lastBy_spec hn
      obtain ⟨hremote, hpath⟩ := h n hmem (hid.trans hk)
      rw [Option.map_some, Option.map_some, GraphNode.location, hremote, hpath,
        composePath_normalizePath]
  · rfl

omit [CanvasJson D S] in
/-- The other nodes stay where they are when one is deleted. -/
theorem locationOf_filter (nodes : List (GraphNode S)) {id k : Text} (hk : k ≠ id) :
    locationOf (nodes.filter (·.id ≠ id)) k = locationOf nodes k := by
  unfold locationOf lastBy
  rw [← List.filter_reverse, List.find?_filter]
  congr 2
  funext n
  by_cases hn : n.id = k
  · simp [hn, hk]
  · simp [hn]

omit [CanvasJson D S] in
/-- An edit that is not made leaves the clean draft. -/
theorem Ready.stays {w' : Inspector D S} (h : Ready w graph draft) (hsame : w' = w) :
    ∃ draft', w'.draft = some draft' ∧
      Clean (draft'.operations.map Operation.connection) :=
  ⟨draft, hsame ▸ h.hasDraft, h.clean⟩

omit [CanvasJson D S] in
theorem Ready.action_ne (h : Ready w graph draft) : ∀ e ∈ graph.edges, e.action ≠ [] :=
  fun e he => normalizeAction_ne (h.actions e he)

section

variable {order : IterationOrder S} {running : Bool}

theorem connect_iff (h : Ready w graph draft) (hedges : CleanEdges (locationOf graph.nodes) graph.edges)
    (flowId : Option Text) (now : Nat) (source target : Text) :
    (∃ draft', (w.connectNodes order running flowId now source target).draft = some draft' ∧
      Clean (draft'.operations.map Operation.connection)) ↔
      SoundEdit graph (.connect order running flowId now source target : CanvasEdit D S) := by
  rcases Inspector.connectNodes_spec h.hasGraph h.hasDraft flowId now source target with
    ⟨hsame, hwhy⟩ | ⟨hrun, hcheck, flow, rfl, hr⟩
  · refine iff_of_true (h.stays hsame) fun hrun hflow hcheck => ?_
    rcases hwhy with hwhy | hwhy | hwhy
    · rw [hrun] at hwhy
      cases hwhy
    · exact absurd hwhy hflow
    · exact absurd hcheck hwhy
  · obtain ⟨hsource, htarget⟩ := connectError_none hcheck
    obtain ⟨s, hs⟩ := exists_location hsource
    obtain ⟨t, ht⟩ := exists_location htarget
    have hpush : normalizeAction PUSH = PUSH := by decide
    rw [rebuilt_clean_iff hr, clean_connect_iff hedges hs ht]
    · show _ ∧ (∀ e' ∈ _, ∀ c, _ → ¬(_ ∧ _ ∧ normalizeAction PUSH = _)) ↔ _
      rw [hpush]
      constructor
      · intro hsound _ _ _ s' t' hs' ht'
        rw [← Option.some.inj (hs.symm.trans hs'), ← Option.some.inj (ht.symm.trans ht')]
        exact hsound
      · exact fun hsound => hsound hrun (Option.some_ne_none flow) hcheck s t hs ht
    · intro e he
      rcases List.mem_append.mp he with he | he
      · exact h.action_ne e he
      · rw [List.mem_singleton.mp he]
        exact (by decide : PUSH ≠ [])

theorem rename_iff (h : Ready w graph draft) (hedges : CleanEdges (locationOf graph.nodes) graph.edges)
    (nodeId path : Text) (remote : Option Text) :
    (∃ draft', (w.setNodePath order running nodeId path remote).draft = some draft' ∧
      Clean (draft'.operations.map Operation.connection)) ↔
      SoundEdit graph (.rename order running nodeId path remote : CanvasEdit D S) := by
  have hother : ∀ k, k ≠ nodeId → renamedLocation (locationOf graph.nodes) nodeId path remote k =
      locationOf graph.nodes k := fun k hk => if_neg hk
  rcases Inspector.setNodePath_spec h.hasGraph h.hasDraft h.nodes nodeId path remote with
    ⟨hsame, hwhy⟩ | ⟨hrun, hpath, node, hnode, hid, hr⟩
  · refine iff_of_true (h.stays hsame) fun hrun hpath => ?_
    rcases hwhy with hwhy | hwhy | hwhy
    · rw [hrun] at hwhy
      cases hwhy
    · exact absurd hwhy hpath
    · refine (clean_rename_iff hedges hother).mp ?_
      rw [renamedLocation_same hwhy]
      exact hedges
  · have hloc : locationOf (graph.nodes.map (movedTo nodeId (remote.getD (splitLocation path).1)
        (normalizePath (splitLocation path).2))) =
          renamedLocation (locationOf graph.nodes) nodeId path remote := by
      funext k
      rw [locationOf_movedTo, composePath_normalizePath]
      rfl
    rw [rebuilt_clean_iff hr h.action_ne]
    show CleanEdges (locationOf (graph.nodes.map _)) graph.edges ↔ _
    rw [hloc, clean_rename_iff hedges hother]
    exact ⟨fun hsound _ _ => hsound, fun hsound => hsound hrun hpath⟩

theorem setAction_iff (h : Ready w graph draft)
    (hedges : CleanEdges (locationOf graph.nodes) graph.edges) (edgeId action : Text) :
    (∃ draft', (w.setEdgeAction order running edgeId action).draft = some draft' ∧
      Clean (draft'.operations.map Operation.connection)) ↔
      SoundEdit graph (.setAction order running edgeId action : CanvasEdit D S) := by
  rcases Inspector.setEdgeAction_spec h.hasGraph h.hasDraft edgeId action with
    ⟨hsame, hwhy⟩ | ⟨hrun, hedge, hr⟩
  · refine iff_of_true (h.stays hsame) fun hrun l₁ e l₂ hes hid => ?_
    rcases hwhy with hwhy | hwhy
    · rw [hrun] at hwhy
      cases hwhy
    · exact absurd hid (hwhy e (by simp [hes]))
  · have hactions : ∀ e ∈ graph.edges.modify (graph.edges.findIdx (·.id = edgeId))
        (.setAction (normalizeAction action)), e.action ≠ [] := by
      obtain ⟨l₁, e, l₂, hes, hid, hfirst⟩ := exists_split hedge
      rw [modify_split hes hid hfirst]
      intro e' he'
      rcases List.mem_append.mp he' with he' | he'
      · exact h.action_ne e' (by simp [hes, he'])
      · rcases List.mem_cons.mp he' with rfl | he'
        · exact normalizeAction_ne_nil action
        · exact h.action_ne e' (by simp [hes, he'])
    rw [rebuilt_clean_iff hr hactions]
    constructor
    · intro hclean _ l₁ e l₂ hes hid hfirst
      rw [hes] at hedges
      rw [modify_split hes hid hfirst] at hclean
      exact (clean_setAction_iff hedges).mp hclean
    · intro hsound
      obtain ⟨l₁, e, l₂, hes, hid, hfirst⟩ := exists_split hedge
      rw [modify_split hes hid hfirst]
      rw [hes] at hedges
      exact (clean_setAction_iff hedges).mpr (hsound hrun l₁ e l₂ hes hid hfirst)

end

/-- Of one edit of a window that shows its draft in place, soundness is what keeps the draft
    clean. -/
theorem clean_edit_iff (h : Ready w graph draft) (hplace : InPlace graph) (a : CanvasEdit D S) :
    (∃ draft', (w.edit a).draft = some draft' ∧
      Clean (draft'.operations.map Operation.connection)) ↔ SoundEdit graph a := by
  have hedges := h.cleanEdges hplace
  cases a with
  | connect order running flowId now source target =>
    exact connect_iff h hedges flowId now source target
  | rename order running nodeId path remote => exact rename_iff h hedges nodeId path remote
  | setAction order running edgeId action => exact setAction_iff h hedges edgeId action
  | addNode home x y viewport rounds running =>
    refine iff_of_true ?_ trivial
    have hspec := @Inspector.addNode_spec D S _ running w graph draft h.hasGraph h.hasDraft home x y
      viewport rounds
    rcases hspec with hsame | ⟨node, canvas, -, -, hdraft⟩
    · exact h.stays hsame
    · exact ⟨_, hdraft, h.clean⟩
  | deleteNode order running id =>
    refine iff_of_true ?_ trivial
    have hspec := @Inspector.deleteNode_spec D S _ order running w graph draft h.hasGraph h.hasDraft
      id
    rcases hspec with hsame | hr
    · exact h.stays hsame
    · refine (rebuilt_clean_iff hr fun e he => h.action_ne e (List.mem_of_mem_filter he)).mpr ?_
      refine (hedges.sublist List.filter_sublist).congr fun e he => ?_
      obtain ⟨hs, ht⟩ := by simpa using (List.mem_filter.mp he).2
      exact drawn_congr (locationOf_filter _ hs) (locationOf_filter _ ht)
  | deleteEdge order running id =>
    refine iff_of_true ?_ trivial
    have hspec := @Inspector.deleteEdge_spec D S _ order running w graph draft h.hasGraph h.hasDraft
      id
    rcases hspec with hsame | hr
    · exact h.stays hsame
    · refine (rebuilt_clean_iff hr fun e he => h.action_ne e (List.mem_of_mem_filter he)).mpr ?_
      exact hedges.sublist List.filter_sublist

-- ============================================================================
-- Runs of edits
-- ============================================================================

/-- The window shows its graph in place, and the edit is sound there. -/
def Sound (w : Inspector D S) (a : CanvasEdit D S) : Prop :=
  ∀ graph, w.graph = some graph → InPlace graph ∧ SoundEdit graph a

/-- The ids that an edit brings. -/
def CanvasEdit.newIds : CanvasEdit D S → List Text
  | .connect _ _ _ now _ _ => [operationId now]
  | _ => []

omit [CanvasJson D S] in
theorem setAction_ids {edgeId action : Text} (h : ∃ e ∈ graph.edges, e.id = edgeId) :
    (graph.edges.modify (graph.edges.findIdx (·.id = edgeId))
      (.setAction (normalizeAction action))).map GraphEdge.id = graph.edges.map GraphEdge.id := by
  obtain ⟨l₁, e, l₂, hes, hid, hfirst⟩ := exists_split h
  rw [modify_split hes hid hfirst, hes]
  simp [GraphEdge.setAction]

/-- What an edit can do to the window: nothing, operations made anew of a graph with no more ids
    of edges than the new one, or one more node. -/
theorem edit_cases (hgraph : w.graph = some graph) (hdraft : w.draft = some draft)
    (hnodes : (graph.nodes.map GraphNode.id).Nodup) (a : CanvasEdit D S) :
    w.edit a = w ∨
      (∃ order graph' previous, Inspector.Rebuilt order graph' previous (w.edit a) ∧
        (graph'.edges.map GraphEdge.id).Sublist (graph.edges.map GraphEdge.id ++ a.newIds)) ∨
      ∃ node canvas, node.id ∉ graph.nodes.map GraphNode.id ∧
        (w.edit a).graph = some { graph with nodes := graph.nodes ++ [node] } ∧
        (w.edit a).draft = some ⟨draft.operations, canvas⟩ := by
  cases a with
  | connect order running flowId now source target =>
    have hspec := @Inspector.connectNodes_spec D S _ order running w graph draft hgraph hdraft flowId
      now source target
    rcases hspec with ⟨hsame, -⟩ | ⟨-, -, flow, -, hr⟩
    · exact .inl hsame
    · refine .inr (.inl ⟨_, _, _, hr, ?_⟩)
      rw [List.map_append]
      exact List.Sublist.refl _
  | rename order running nodeId path remote =>
    have hspec := @Inspector.setNodePath_spec D S _ order running w graph draft hgraph hdraft hnodes
      nodeId path remote
    rcases hspec with ⟨hsame, -⟩ | ⟨-, -, node, -, -, hr⟩
    · exact .inl hsame
    · exact .inr (.inl ⟨_, _, _, hr, List.sublist_append_left ..⟩)
  | setAction order running edgeId action =>
    have hspec := @Inspector.setEdgeAction_spec D S _ order running w graph draft hgraph hdraft
      edgeId action
    rcases hspec with ⟨hsame, -⟩ | ⟨-, hedge, hr⟩
    · exact .inl hsame
    · refine .inr (.inl ⟨_, _, _, hr, ?_⟩)
      rw [setAction_ids hedge]
      exact List.sublist_append_left ..
  | addNode home x y viewport rounds running =>
    have hspec := @Inspector.addNode_spec D S _ running w graph draft hgraph hdraft home x y
      viewport rounds
    exact hspec.imp_right .inr
  | deleteNode order running id =>
    have hspec := @Inspector.deleteNode_spec D S _ order running w graph draft hgraph hdraft id
    refine hspec.imp_right fun hr => .inl ⟨_, _, _, hr, ?_⟩
    exact (List.filter_sublist.map _).trans (List.sublist_append_left ..)
  | deleteEdge order running id =>
    have hspec := @Inspector.deleteEdge_spec D S _ order running w graph draft hgraph hdraft id
    refine hspec.imp_right fun hr => .inl ⟨_, _, _, hr, ?_⟩
    exact (List.filter_sublist.map _).trans (List.sublist_append_left ..)

/-- A sound edit leaves a window that is ready for the next one. -/
theorem ready_edit (h : Ready w graph draft) {a : CanvasEdit D S} (hsound : Sound w a) :
    ∃ graph' draft', Ready (w.edit a) graph' draft' := by
  obtain ⟨hplace, hedit⟩ := hsound graph h.hasGraph
  obtain ⟨draft', hdraft', hclean⟩ := (clean_edit_iff h hplace a).mpr hedit
  rcases edit_cases h.hasGraph h.hasDraft h.nodes a with hsame | ⟨order, graph', previous, hr, -⟩ |
    ⟨node, canvas, hfresh, hgraph, hdraft⟩
  · rw [hsame]
    exact ⟨graph, draft, h⟩
  · have heq := hr.draft
    rw [hdraft'] at heq
    obtain rfl := Option.some.inj heq
    exact ⟨_, _, ready_toGraph hr.graph hdraft' hclean⟩
  · refine ⟨_, _, hgraph, hdraft, ?_, h.actions, h.operations, h.clean⟩
    show ((graph.nodes ++ [node]).map GraphNode.id).Nodup
    rw [List.map_append, List.map_singleton]
    exact List.nodup_append.mpr ⟨h.nodes, List.nodup_singleton _, fun i hi j hj heq =>
      hfresh (List.mem_singleton.mp hj ▸ heq ▸ hi)⟩

/-- In every run of sound edits the draft stays clean. -/
theorem edits_keep_clean {w : Inspector D S} (h : (canvasSystem D).ReachableIf Sound w) :
    ∃ draft, w.draft = some draft ∧ Clean (draft.operations.map Operation.connection) := by
  have hready : ∃ graph draft, Ready w graph draft := by
    refine System.ReachableIf.invariant (P := fun w => ∃ graph draft, Ready w graph draft) ?_ ?_ h
    · rintro w ⟨draft, order, hdraft, hgraph, hclean⟩
      exact ⟨_, _, ready_toGraph hgraph hdraft hclean⟩
    · rintro w a w' ⟨graph, draft, hready⟩ hsound hstep
      obtain rfl := Option.some.inj hstep
      exact ready_edit hready hsound
  obtain ⟨graph, draft, hready⟩ := hready
  exact ⟨draft, hready.hasDraft, hready.clean⟩

/-- The graph of a draft whose endpoints are all found where they are is in place. -/
theorem inPlace_toGraph {flow : Flow} (huncut : flow.Uncut D S) (hplaced : flow.Placed D S)
    (order : IterationOrder S) : InPlace (toGraph (D := D) order flow) := by
  have hfound := (uncut_placed_iff flow).mp ⟨huncut, hplaced⟩
  obtain ⟨added, hadded, -, -⟩ := inserted_added (D := D) (storedNodes D S flow) flow.operations
  have hkept := lastBy_kept order (storedNodes D S flow) added
  rw [← hadded] at hkept
  have hnodes : ∀ k, lastBy GraphNode.id (toGraph (D := D) order flow).nodes k =
      lastBy GraphNode.id (flow.nodes D S) k := hkept
  -- where the node of an endpoint is
  have hat : ∀ rp ∈ flow.operations.flatMap Operation.endpoints, ∀ (n : GraphNode S) (s : Text),
      lastBy GraphNode.key (flow.nodes D S) (locationKey rp.1 rp.2) = some n →
      locationOf (toGraph (D := D) order flow).nodes n.id = some s → s = composePath rp.1 rp.2 := by
    intro rp hrp n s hn hs
    obtain ⟨m, hm, hremote, hpath⟩ := hfound rp hrp
    have hid : lastBy GraphNode.id (flow.nodes D S) n.id = some m := by
      rw [nodeFor, hn] at hm
      exact hm
    have hloc : locationOf (toGraph (D := D) order flow).nodes n.id = some m.location := by
      rw [locationOf, hnodes, hid]
      rfl
    rw [← Option.some.inj (hloc.symm.trans hs), GraphNode.location,
      ← composePath_normalizePath m.remote, ← composePath_normalizePath rp.1, ← hpath]
    exact composePath_congr _ hremote
  intro e he s t hs ht
  obtain ⟨op, hop, hedge⟩ := List.mem_filterMap.mp he
  obtain ⟨hsource, htarget⟩ := endpoints_mem hop
  unfold toEdge at hedge
  split at hedge
  · rename_i source target hks hkt
    obtain rfl := Option.some.inj hedge
    exact ⟨hat _ hsource source s hks hs, hat _ htarget target t hkt ht⟩
  · cases hedge

end

-- ============================================================================
-- One push
-- ============================================================================

namespace Inspector

theorem showing_init : (canvasSystem Nat).init (showing onePush) := by
  refine ⟨onePush, asIs, rfl, rfl, ?_, List.pairwise_singleton _ _⟩
  intro c hc
  rw [List.mem_singleton.mp hc]
  decide

theorem onePush_inPlace : InPlace (toGraph (D := Nat) asIs onePush) := by
  have hfound : onePush.Uncut Nat Nat ∧ onePush.Placed Nat Nat := by
    refine (uncut_placed_iff onePush).mpr fun rp hrp => ?_
    obtain ⟨-, -, ⟨s, t, hs, ht, hsr, hsp, htr, htp⟩, -⟩ := onePush_drawn List.mem_cons_self
    rcases List.mem_cons.mp hrp with rfl | hrp
    · exact ⟨s, hs, congrArg trim hsr, hsp⟩
    · rw [List.mem_singleton.mp hrp]
      exact ⟨t, ht, congrArg trim htr, htp⟩
  exact inPlace_toGraph hfound.1 hfound.2 asIs

/-- The push is made to go both ways. -/
theorem action_stays_clean :
    ∃ draft, ((showing onePush).edit (.setAction asIs false "O1".toList "bi".toList)).draft =
      some draft ∧ Clean (draft.operations.map Operation.connection) := by
  refine edits_keep_clean (.step (.init showing_init) (fun graph hgraph => ?_) rfl)
  obtain rfl := Option.some.inj hgraph
  refine ⟨onePush_inPlace, fun _ l₁ e l₂ hes _ _ c _ e' he' => ?_⟩
  have hlen := congrArg List.length hes
  have hone : (toGraph (D := Nat) asIs onePush).edges.length ≤ 1 :=
    List.length_filterMap_le _ _
  have hmem := List.length_pos_of_mem he'
  simp only [List.length_append, List.length_cons] at hlen hmem
  omega

/-- The target of the push is renamed to its source. -/
theorem rename_onto_source :
    ¬∀ w : Inspector Nat Nat, (canvasSystem Nat).Reachable w →
      ∃ draft, w.draft = some draft ∧ Clean (draft.operations.map Operation.connection) := by
  intro h
  obtain ⟨draft, hdraft, hclean⟩ := h ((showing onePush).edit (.rename asIs false
    (stableNodeId (locationKey "gdrive".toList "/b".toList)) "/".toList none))
      (.step (.init showing_init) rfl)
  have hops : ((showing onePush).edit (.rename asIs false
      (stableNodeId (locationKey "gdrive".toList "/b".toList)) "/".toList none)).draft.map
        (·.operations.map Operation.connection) =
      some [⟨"O1".toList, "/".toList, "/".toList, "push".toList⟩] := by decide +kernel
  rw [hdraft, Option.map_some] at hops
  rw [Option.some.inj hops] at hclean
  exact hclean.noSelf _ (List.mem_singleton.mpr rfl) rfl

end Inspector

end GnDrive.Gpui
