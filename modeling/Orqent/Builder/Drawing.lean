/-
What is drawn on the canvas can be saved, unless a node was cut off its edges.

A node that is removed by the key takes its edges along: the canvas reports their removal
first.  The delete button of the inspector removes the node alone.  An edge that names it
stays in the store, where nothing shows it, and the server refuses the canvas for as long as
the edge names no node: a new node that draws the same key takes it up again.
-/
import Orqent.Builder.Canvas

namespace Orqent.Builder

open Trace

variable {Config : Type}

/-! ### The canvas as a system -/

/-- The keys of the nodes, in their order. -/
def BuilderState.keys (s : BuilderState Config) : List NodeKey :=
  s.nodes.map fun node => node.data.nodeKey

/-- Every action can be taken. -/
def BuilderState.step [EmptyCollection Config] (F : XyFlow Config) (s : BuilderState Config)
    (a : BuilderAction Config) : Option (BuilderState Config) :=
  some (s.act F a)

/-- What the canvas reports: nodes and edges are selected, measured, moved and removed, and
connections run between handles of nodes that are there. -/
def Drawn (s : BuilderState Config) : BuilderAction Config → Prop
  | .onNodesChange changes => ∀ c ∈ changes, c.plain = true
  | .onEdgesChange changes => ∀ c ∈ changes, c.plain = true
  | .connect c => (c.source ∈ s.keys ∧ c.target ∈ s.keys) ∧
      c.sourceHandle.isSome = true ∧ c.targetHandle.isSome = true
  | _ => True

/-- No edge names a node that is removed. -/
def Detached (s : BuilderState Config) : BuilderAction Config → Prop
  | .onNodesChange changes =>
      ∀ e ∈ s.edges, e.source ∉ removedNodes changes ∧ e.target ∉ removedNodes changes
  | _ => True

instance (s : BuilderState Config) : ∀ a, Decidable (Drawn s a)
  | .onNodesChange changes => inferInstanceAs (Decidable (∀ c ∈ changes, c.plain = true))
  | .onEdgesChange changes => inferInstanceAs (Decidable (∀ c ∈ changes, c.plain = true))
  | .connect c => inferInstanceAs (Decidable ((c.source ∈ s.keys ∧ c.target ∈ s.keys) ∧
      c.sourceHandle.isSome = true ∧ c.targetHandle.isSome = true))
  | .addNode .. | .updateConfig .. | .select _ => isTrue trivial

instance (s : BuilderState Config) : ∀ a, Decidable (Detached s a)
  | .onNodesChange changes => inferInstanceAs (Decidable (∀ e ∈ s.edges,
      e.source ∉ removedNodes changes ∧ e.target ∉ removedNodes changes))
  | .onEdgesChange _ | .connect _ | .addNode .. | .updateConfig .. | .select _ => isTrue trivial

/-- What the server's validator asks of the canvas. -/
def Saveable (s : BuilderState Config) : Prop := s.toGraph.IsGraph

/-- The canvas is a graph, and its nodes are known to the package by their keys. -/
structure Sound (s : BuilderState Config) : Prop where
  ids : ∀ node ∈ s.nodes, node.id = node.data.nodeKey
  handles : ∀ e ∈ s.edges, e.sourceHandle.isSome = true ∧ e.targetHandle.isSome = true
  keys_nodup : s.keys.Nodup
  ends : ∀ e ∈ s.edges, e.source ∈ s.keys ∧ e.target ∈ s.keys
  connections_nodup : (s.edges.map FlowEdge.connection).Nodup

/-! ### What is sent of the edges -/

section Edges

variable {s : BuilderState Config}

/-- Edges by named handles that are sent as one are one connection. -/
theorem connection_of_toGraph {e f : FlowEdge}
    (he : e.sourceHandle.isSome = true ∧ e.targetHandle.isSome = true)
    (hf : f.sourceHandle.isSome = true ∧ f.targetHandle.isSome = true)
    (h : e.toGraph = f.toGraph) : e.connection = f.connection := by
  obtain ⟨source, hsource⟩ := Option.isSome_iff_exists.mp he.1
  obtain ⟨target, htarget⟩ := Option.isSome_iff_exists.mp he.2
  obtain ⟨source', hsource'⟩ := Option.isSome_iff_exists.mp hf.1
  obtain ⟨target', htarget'⟩ := Option.isSome_iff_exists.mp hf.2
  simp only [FlowEdge.toGraph, hsource, htarget, hsource', htarget', Option.getD_some,
    GraphEdge.mk.injEq] at h
  simp [FlowEdge.connection, hsource, htarget, hsource', htarget', h]

theorem Sound.saveable (h : Sound s) : Saveable s := by
  refine ⟨?_, ?_, ?_, ?_⟩
  · rw [keys_toGraph]
    exact h.keys_nodup
  · intro e he
    obtain ⟨f, hf, rfl⟩ := List.mem_map.mp he
    rw [keys_toGraph]
    exact (h.ends f hf).1
  · intro e he
    obtain ⟨f, hf, rfl⟩ := List.mem_map.mp he
    rw [keys_toGraph]
    exact (h.ends f hf).2
  · have hpairs := List.pairwise_map.mp h.connections_nodup
    show (s.edges.map FlowEdge.toGraph).Nodup
    refine List.pairwise_map.mpr (hpairs.imp_of_mem fun he hf hne hsame => ?_)
    exact hne (connection_of_toGraph (h.handles _ he) (h.handles _ hf) hsame)

theorem Saveable.ends (h : Saveable s) {e : FlowEdge} (he : e ∈ s.edges) :
    e.source ∈ s.keys ∧ e.target ∈ s.keys := by
  have hmem : e.toGraph ∈ s.toGraph.edges := List.mem_map_of_mem he
  have hsource := h.source_mem _ hmem
  have htarget := h.target_mem _ hmem
  rw [keys_toGraph] at hsource htarget
  exact ⟨hsource, htarget⟩

theorem sound_load (revision : Nat) {g : Content Config} (catalogue : List NodeType)
    (h : g.IsGraph) : Sound (BuilderState.load revision g catalogue) := by
  have hkeys : (BuilderState.load revision g catalogue).keys = g.nodes.map GraphNode.key := by
    simp [BuilderState.keys, BuilderState.load, flowNode]
  refine ⟨?_, ?_, hkeys ▸ h.keys_nodup, ?_, ?_⟩
  · intro node hnode
    obtain ⟨n, -, rfl⟩ := List.mem_map.mp hnode
    rfl
  · intro e he
    obtain ⟨f, -, rfl⟩ := List.mem_map.mp he
    exact ⟨rfl, rfl⟩
  · intro e he
    obtain ⟨f, hf, rfl⟩ := List.mem_map.mp he
    rw [hkeys]
    exact ⟨h.source_mem f hf, h.target_mem f hf⟩
  · show ((g.edges.map flowEdge).map FlowEdge.connection).Nodup
    rw [List.map_map]
    refine h.edges_nodup.map fun e f hsame => ?_
    obtain ⟨source, sourceHandle, target, targetHandle⟩ := e
    obtain ⟨source', sourceHandle', target', targetHandle'⟩ := f
    simp only [Function.comp, FlowEdge.connection, flowEdge, Connection.mk.injEq,
      Option.some.injEq] at hsame
    simp [hsame]

end Edges

/-! ### What an action does -/

section Action

variable {F : XyFlow Config} {s : BuilderState Config}

/-- A change of the nodes drops the keys of those it removes. -/
theorem keys_onNodesChange (hF : F.Documented)
    (hids : ∀ node ∈ s.nodes, node.id = node.data.nodeKey)
    {changes : List (NodeChange Config)} (hplain : ∀ c ∈ changes, c.plain = true) :
    (s.onNodesChange F changes).keys = s.keys.filter (· ∉ removedNodes changes) ∧
      ∀ node ∈ (s.onNodesChange F changes).nodes, node.id = node.data.nodeKey := by
  have hnamed := hF.nodes_kept changes s.nodes hplain
  constructor
  · have hkeys := congrArg (List.map fun p => p.2.nodeKey) hnamed
    rw [List.map_map, List.map_map] at hkeys
    refine hkeys.trans ?_
    unfold BuilderState.keys
    rw [List.filter_map]
    refine congrArg _ (List.filter_congr fun node hnode => ?_)
    simp [hids node hnode]
  · intro node hnode
    have hmem : node.named ∈ (F.applyNodeChanges changes s.nodes).map FlowNode.named :=
      List.mem_map_of_mem hnode
    rw [hnamed] at hmem
    obtain ⟨old, hold, hsame⟩ := List.mem_map.mp hmem
    have hid := hids old (List.mem_filter.mp hold).1
    simp only [FlowNode.named, Prod.mk.injEq] at hsame
    rw [← hsame.1, ← hsame.2]
    exact hid

/-- The edges a change leaves are edges that were there, in their order. -/
theorem connections_onEdgesChange (hF : F.Documented) {changes : List EdgeChange}
    (hplain : ∀ c ∈ changes, c.plain = true) :
    ((s.onEdgesChange F changes).edges.map FlowEdge.connection).Sublist
      (s.edges.map FlowEdge.connection) := by
  show ((F.applyEdgeChanges changes s.edges).map FlowEdge.connection).Sublist _
  rw [hF.edges_kept changes s.edges hplain]
  exact List.filter_sublist.map _

/-- What is so of an edge for its ends and handles. -/
theorem edges_of_connections {P : Connection → Prop} {es fs : List FlowEdge}
    (hsub : es.map FlowEdge.connection ⊆ fs.map FlowEdge.connection)
    (h : ∀ f ∈ fs, P f.connection) : ∀ e ∈ es, P e.connection := by
  intro e he
  obtain ⟨f, hf, hsame⟩ := List.mem_map.mp (hsub (List.mem_map_of_mem he))
  exact hsame ▸ h f hf

theorem Sound.onNodesChange (h : Sound s) (hF : F.Documented) {changes : List (NodeChange Config)}
    (hplain : ∀ c ∈ changes, c.plain = true)
    (hdetached : ∀ e ∈ s.edges, e.source ∉ removedNodes changes ∧ e.target ∉ removedNodes changes) :
    Sound (s.onNodesChange F changes) := by
  obtain ⟨hkeys, hids⟩ := keys_onNodesChange hF h.ids hplain
  refine ⟨hids, h.handles, hkeys ▸ h.keys_nodup.filter _, fun e he => ?_, h.connections_nodup⟩
  obtain ⟨hsource, htarget⟩ := h.ends e he
  obtain ⟨hs, ht⟩ := hdetached e he
  rw [hkeys]
  exact ⟨List.mem_filter.mpr ⟨hsource, by simpa using hs⟩,
    List.mem_filter.mpr ⟨htarget, by simpa using ht⟩⟩

theorem Sound.onEdgesChange (h : Sound s) (hF : F.Documented) {changes : List EdgeChange}
    (hplain : ∀ c ∈ changes, c.plain = true) : Sound (s.onEdgesChange F changes) := by
  have hsub := connections_onEdgesChange (s := s) hF hplain
  refine ⟨h.ids, ?_, h.keys_nodup, ?_, h.connections_nodup.sublist hsub⟩
  · exact edges_of_connections
      (P := fun c => c.sourceHandle.isSome = true ∧ c.targetHandle.isSome = true)
      hsub.subset h.handles
  · exact edges_of_connections (P := fun c => c.source ∈ s.keys ∧ c.target ∈ s.keys)
      hsub.subset h.ends

theorem Sound.connect (h : Sound s) (hF : F.Documented) {c : Connection}
    (hdrawn : Drawn s (.connect c)) : Sound (s.connect F c) := by
  obtain ⟨hends, hhandles⟩ := hdrawn
  unfold BuilderState.connect
  split
  · exact h
  have hconnection : (connectionEdge c).connection = c := rfl
  by_cases hthere : c ∈ s.edges.map FlowEdge.connection
  · have hsame : F.addEdge (connectionEdge c) s.edges = s.edges := by
      rw [hF.edge_added, hconnection, if_pos hthere]
    rw [hsame]
    exact ⟨h.ids, h.handles, h.keys_nodup, h.ends, h.connections_nodup⟩
  · have hadded : F.addEdge (connectionEdge c) s.edges = s.edges ++ [connectionEdge c] := by
      rw [hF.edge_added, hconnection, if_neg hthere]
    rw [hadded]
    refine ⟨h.ids, ?_, h.keys_nodup, ?_, ?_⟩
    · intro e he
      rcases List.mem_append.mp he with he | he
      · exact h.handles e he
      · obtain rfl := List.mem_singleton.mp he
        exact hhandles
    · intro e he
      rcases List.mem_append.mp he with he | he
      · exact h.ends e he
      · obtain rfl := List.mem_singleton.mp he
        exact hends
    · rw [List.map_append, List.map_singleton, hconnection]
      exact List.nodup_append.mpr ⟨h.connections_nodup, List.nodup_singleton c, fun x hx y hy hxy =>
        hthere (List.mem_singleton.mp hy ▸ hxy ▸ hx)⟩

/-- Dressing the nodes otherwise leaves a sound canvas sound. -/
theorem Sound.redressed (h : Sound s) {s' : BuilderState Config}
    {dress : FlowNode Config → FlowNode Config} (hnodes : s'.nodes = s.nodes.map dress)
    (hedges : s'.edges = s.edges) (hid : ∀ node, (dress node).id = node.id)
    (hkey : ∀ node, (dress node).data.nodeKey = node.data.nodeKey) : Sound s' := by
  have hkeys : s'.keys = s.keys := by
    unfold BuilderState.keys
    rw [hnodes, List.map_map]
    exact List.map_congr_left fun node _ => hkey node
  refine ⟨?_, hedges ▸ h.handles, hkeys ▸ h.keys_nodup, ?_, hedges ▸ h.connections_nodup⟩
  · intro node hnode
    obtain ⟨old, hmem, rfl⟩ := List.mem_map.mp (hnodes ▸ hnode)
    rw [hid, hkey]
    exact h.ids old hmem
  · rw [hkeys, hedges]
    exact h.ends

variable [EmptyCollection Config]

theorem Sound.addNode (h : Sound s) (descriptor : NodeType) (position : Point) :
    Sound (s.addNode descriptor position) := by
  have hkeys : (s.addNode descriptor position).keys =
      s.keys ++ [nextKey descriptor.type s.nodes] := by
    simp [BuilderState.keys, BuilderState.addNode, Function.comp_def]
  refine ⟨?_, h.handles, ?_, ?_, h.connections_nodup⟩
  · intro node hnode
    rcases List.mem_append.mp hnode with hold | hnew
    · obtain ⟨prior, hprior, rfl⟩ := List.mem_map.mp hold
      exact h.ids prior hprior
    · obtain rfl := List.mem_singleton.mp hnew
      rfl
  · rw [hkeys]
    exact List.nodup_append.mpr ⟨h.keys_nodup, List.nodup_singleton _, fun x hx y hy hxy =>
      nextKey_fresh descriptor.type s.nodes (List.mem_singleton.mp hy ▸ hxy ▸ hx)⟩
  · intro e he
    obtain ⟨hsource, htarget⟩ := h.ends e he
    rw [hkeys]
    exact ⟨List.mem_append_left _ hsource, List.mem_append_left _ htarget⟩

theorem Sound.act (h : Sound s) (hF : F.Documented) {a : BuilderAction Config} (hdrawn : Drawn s a)
    (hdetached : Detached s a) : Sound (s.act F a) := by
  cases a with
  | onNodesChange changes => exact h.onNodesChange hF hdrawn hdetached
  | onEdgesChange changes => exact h.onEdgesChange hF hdrawn
  | connect c => exact h.connect hF hdrawn
  | addNode descriptor position => exact h.addNode descriptor position
  | updateConfig nodeKey config =>
      refine h.redressed rfl rfl (fun node => ?_) fun node => ?_
      · split <;> rfl
      · split <;> rfl
  | select nodeKey => exact h.redressed rfl rfl (fun _ => rfl) fun _ => rfl

/-- Where the canvas can still be saved, no edge has lost its node. -/
theorem Sound.detached (h : Sound s) (hF : F.Documented) {a : BuilderAction Config}
    (hdrawn : Drawn s a) (hsaveable : Saveable (s.act F a)) : Detached s a := by
  cases a with
  | onNodesChange changes =>
      intro e he
      obtain ⟨hsource, htarget⟩ := Saveable.ends (s := s.onNodesChange F changes) hsaveable he
      rw [(keys_onNodesChange hF h.ids hdrawn).1] at hsource htarget
      exact ⟨by simpa using (List.mem_filter.mp hsource).2,
        by simpa using (List.mem_filter.mp htarget).2⟩
  | _ => exact trivial

end Action

/-! ### Every run of the canvas -/

/--
**What is drawn can be saved.**  From a draft that was loaded, through any changes the canvas
can report, in any order: the validator of the request takes the canvas in every state if and
only if no node was ever removed while an edge named it.
-/
theorem canvas_stays_graph_iff [EmptyCollection Config] {F : XyFlow Config} (hF : F.Documented)
    {g : Content Config} (hg : g.IsGraph) (revision : Nat) (catalogue : List NodeType)
    {actions : List (BuilderAction Config)} {s : BuilderState Config}
    (hrun : run (BuilderState.step F) (.load revision g catalogue) actions = some s)
    (hdrawn : Along (BuilderState.step F) Drawn (.load revision g catalogue) actions) :
    (Visits (BuilderState.step F) Saveable (.load revision g catalogue) actions ↔
        Along (BuilderState.step F) Detached (.load revision g catalogue) actions) ∧
      ∀ r, s.toGraph.ReadAs r → (r.rejection = none ↔ Saveable s) := by
  refine ⟨?_, fun r hr => hr.rejection_iff⟩
  refine visits_iff_along (I := Sound) (sound_load revision catalogue hg)
    (fun s h => h.saveable) ?_ ?_ hrun hdrawn
  · intro _ s a s' _ hs hdrawn hdetached hstep
    obtain rfl := Option.some.inj hstep
    exact hs.act hF hdrawn hdetached
  · intro _ s a s' _ hs hdrawn hstep hsaveable
    obtain rfl := Option.some.inj hstep
    exact hs.detached hF hdrawn hsaveable

/-! ### A package that does as documented -/

section Plain

/-- What a change makes of a node it does not remove. -/
def NodeChange.touch (node : FlowNode Config) : NodeChange Config → FlowNode Config
  | .select id selected => if node.id = id then { node with selected } else node
  | .position id (some place) => if node.id = id then { node with position := place } else node
  | _ => node

/-- The package as it is documented, and no more. -/
def plainFlow (Config : Type) : XyFlow Config where
  applyNodeChanges changes nodes :=
    (nodes.filter fun node => node.id ∉ removedNodes changes).map fun node =>
      changes.foldl NodeChange.touch node
  applyEdgeChanges changes edges := edges.filter fun edge => edge.id ∉ removedEdges changes
  addEdge edge edges :=
    if edge.connection ∈ edges.map FlowEdge.connection then edges else edges ++ [edge]

theorem touch_named (c : NodeChange Config) (node : FlowNode Config) :
    (c.touch node).named = node.named := by
  unfold NodeChange.touch
  split
  · split <;> rfl
  · split <;> rfl
  · rfl

theorem touch_position {c : NodeChange Config} (h : c.meaningful = false) (node : FlowNode Config) :
    (c.touch node).position = node.position := by
  cases c with
  | select id selected =>
      unfold NodeChange.touch
      dsimp only
      split <;> rfl
  | dimensions id => rfl
  | _ => exact absurd h (by simp [NodeChange.meaningful])

theorem foldl_touch {β : Type} {f : FlowNode Config → β} {changes : List (NodeChange Config)}
    (h : ∀ c ∈ changes, ∀ node, f (c.touch node) = f node) (node : FlowNode Config) :
    f (changes.foldl NodeChange.touch node) = f node := by
  induction changes generalizing node with
  | nil => rfl
  | cons c rest ih =>
      rw [List.foldl_cons, ih fun d hd => h d (List.mem_cons_of_mem _ hd)]
      exact h c List.mem_cons_self node

theorem plainFlow_documented : (plainFlow Config).Documented where
  nodes_kept := by
    intro changes nodes _
    show List.map _ (List.map _ _) = _
    rw [List.map_map]
    exact List.map_congr_left fun node _ =>
      foldl_touch (f := FlowNode.named) (fun c _ n => touch_named c n) node
  nodes_still := by
    intro changes nodes hstill
    have hnone : removedNodes changes = [] := by
      refine List.filterMap_eq_nil_iff.mpr fun c hc => ?_
      have hc := hstill c hc
      cases c <;> first | rfl | exact absurd hc (by simp [NodeChange.meaningful])
    show List.map _ (List.map _ _) = _
    rw [List.map_map, hnone]
    simp only [List.not_mem_nil, not_false_eq_true, decide_true, List.filter_true]
    exact List.map_congr_left fun node _ =>
      foldl_touch (f := FlowNode.position) (fun c hc n => touch_position (hstill c hc) n) node
  edges_kept := by
    intro changes edges _
    rfl
  edge_added := by
    intro edge edges
    rfl

end Plain

/-- A draft as it is created. -/
def Content.blank (Config : Type) : Content Config := ⟨[], []⟩

theorem Content.blank_isGraph : (Content.blank Config).IsGraph :=
  ⟨List.nodup_nil, by simp [blank], by simp [blank], List.nodup_nil⟩

/-- Two nodes are joined, and the first is deleted in the inspector. -/
def cutOff : List (BuilderAction (List String)) :=
  [.addNode ⟨"trigger.manual", 1⟩ ⟨0, 0⟩, .addNode ⟨"core.log", 1⟩ ⟨0, 120⟩,
    .connect ⟨"manual_1", "log_1", some "main", some "main"⟩,
    .onNodesChange [.remove "manual_1"]]

/-- What is then on the canvas cannot be saved. -/
theorem cutOff_unsaveable : ¬ Visits (BuilderState.step (plainFlow (List String))) Saveable
    (.load 1 (.blank _) []) cutOff := by
  obtain ⟨s, hrun⟩ : ∃ s, run (BuilderState.step (plainFlow (List String)))
    (.load 1 (.blank _) []) cutOff = some s := ⟨_, rfl⟩
  have hexact := canvas_stays_graph_iff plainFlow_documented Content.blank_isGraph 1 [] hrun
    (by decide)
  exact mt hexact.1.mp (by decide)

end Orqent.Builder
