/-
The canvas of the builder.

The store holds what is on the canvas, the revision the draft was loaded at, and whether
there is anything worth saving.  `load` puts a draft on the canvas and `toGraph` reads the
whole canvas back, with the places of the nodes rounded.

The server takes what is sent if it is a graph: distinct keys, declared ends, distinct
edges.  The store keeps the first by the keys it makes and the last because a connection is
not drawn twice.  The ends it leaves to the canvas: a change that removes a node leaves the
edges that name it, and while they are left so nothing can be saved.  `canvas_stays_graph_iff`
is that this is the only way.

What `@xyflow/react` does with the changes it reports is not under the source; `Documented`
says what is relied on.
-/
import Orqent.Lib.Decimal
import Orqent.Lib.Trace
import Orqent.Versions.Payload
import Mathlib.Data.Rat.Floor

namespace Orqent.Builder

/-! ### The store -/

/-- A place on the canvas. -/
structure Point where
  x : ℚ
  y : ℚ
deriving DecidableEq, Repr

/-- `Math.round`: the nearest integer, of two the greater. -/
def round (x : ℚ) : ℚ := ⌊x + 1 / 2⌋

/-- A place on the grid. -/
def Point.round (p : Point) : Point := ⟨Builder.round p.x, Builder.round p.y⟩

/-- What the store reads of an entry of the catalogue. -/
structure NodeType where
  type : String
  version : Nat
deriving DecidableEq, Repr

/-- A node as the API has it. -/
structure GraphNode (Config : Type) where
  key : NodeKey
  type : String
  version : Nat
  label : Option String
  config : Config
  ui : Point
deriving DecidableEq, Repr

/-- The nodes and edges of a draft, as they are served and as they are sent. -/
structure Content (Config : Type) where
  nodes : List (GraphNode Config)
  edges : List GraphEdge
deriving DecidableEq, Repr

/-- What the canvas carries with a node. -/
structure NodeData (Config : Type) where
  nodeKey : NodeKey
  type : String
  version : Nat
  label : Option String
  config : Config
  descriptor : Option NodeType
deriving DecidableEq, Repr

/-- A node on the canvas. -/
structure FlowNode (Config : Type) where
  id : String
  position : Point
  data : NodeData Config
  selected : Bool := false
deriving DecidableEq, Repr

/-- An edge on the canvas. -/
structure FlowEdge where
  id : String
  source : String
  target : String
  sourceHandle : Option String
  targetHandle : Option String
  label : Option String
  selected : Bool := false
deriving DecidableEq, Repr

/-- What the canvas reports when two handles were joined. -/
structure Connection where
  source : String
  target : String
  sourceHandle : Option String
  targetHandle : Option String
deriving DecidableEq, Repr

/-- A change to the nodes, as the canvas reports it. -/
inductive NodeChange (Config : Type)
  | select (id : String) (selected : Bool)
  | dimensions (id : String)
  | position (id : String) (position : Option Point)
  | remove (id : String)
  | add (item : FlowNode Config)
  | replace (id : String) (item : FlowNode Config)

/-- A change to the edges, as the canvas reports it. -/
inductive EdgeChange
  | select (id : String) (selected : Bool)
  | remove (id : String)
  | add (item : FlowEdge)
  | replace (id : String) (item : FlowEdge)

/-- The store of the builder. -/
structure BuilderState (Config : Type) where
  nodes : List (FlowNode Config) := []
  edges : List FlowEdge := []
  /-- The optimistic-lock revision the draft was loaded at. -/
  revision : Nat := 0
  selectedKey : Option NodeKey := none
  dirty : Bool := false
deriving DecidableEq, Repr

/-- What the package does with changes and with a new edge. -/
structure XyFlow (Config : Type) where
  applyNodeChanges : List (NodeChange Config) → List (FlowNode Config) → List (FlowNode Config)
  applyEdgeChanges : List EdgeChange → List FlowEdge → List FlowEdge
  addEdge : FlowEdge → List FlowEdge → List FlowEdge

variable {Config : Type}

/-- Neither a selection nor a measurement. -/
def NodeChange.meaningful : NodeChange Config → Bool
  | .select .. | .dimensions _ => false
  | _ => true

/-- Not a selection. -/
def EdgeChange.meaningful : EdgeChange → Bool
  | .select .. => false
  | _ => true

/-- A letter or digit of ASCII, as `[a-z0-9]` has it where case is ignored. -/
def isAlphanumeric (c : Char) : Bool :=
  isLowerAscii c || (decide ('A' ≤ c) && decide (c ≤ 'Z')) || (decide ('0' ≤ c) && decide (c ≤ '9'))

/-- What a character becomes in a key.  A string is made of code units, and a character above
`U+FFFF` is two of them. -/
def keyUnits (c : Char) : List Char :=
  if isAlphanumeric c then [c.toLower] else if c.toNat < 0x10000 then ['_'] else ['_', '_']

/-- The last part of the type, in lower case, with `_` for whatever is no letter or digit. -/
def keyBase (type : String) : String :=
  let last := (type.toList.splitOn '.').getLast?.getD []
  let base := last.flatMap keyUnits
  if base = [] then "node" else String.ofList base

/-- A key with its number. -/
def numbered (base : String) (index : Nat) : NodeKey := base ++ "_" ++ toString index

/-- The first number that is not taken.  As many are tried as there are nodes, and one more. -/
def nextKey (type : String) (existing : List (FlowNode Config)) : NodeKey :=
  let base := keyBase type
  let taken := existing.map fun node => node.data.nodeKey
  let index := (List.range' 1 (taken.length + 1)).find? fun i => numbered base i ∉ taken
  numbered base (index.getD 1)

/-- The name a descriptor is looked up by. -/
def qualifiedName (type : String) (version : Nat) : String := type ++ "@" ++ toString version

/-- Which branch of a condition an edge leaves by. -/
def branchLabel (handle : Option String) : Option String :=
  if handle = some "true" ∨ handle = some "false" then handle else none

/-- A node of the draft, with its descriptor; of two entries of one name the later counts. -/
def flowNode (catalogue : List NodeType) (node : GraphNode Config) : FlowNode Config where
  id := node.key
  position := node.ui
  data :=
    { nodeKey := node.key
      type := node.type
      version := node.version
      label := node.label
      config := node.config
      descriptor := catalogue.reverse.find? fun t =>
        qualifiedName t.type t.version = qualifiedName node.type node.version }

/-- An edge of the draft, named by its ends and handles. -/
def flowEdge (edge : GraphEdge) : FlowEdge where
  id := edge.sourceKey ++ ":" ++ edge.sourceHandle ++ "->" ++ edge.targetKey ++ ":" ++
    edge.targetHandle
  source := edge.sourceKey
  target := edge.targetKey
  sourceHandle := some edge.sourceHandle
  targetHandle := some edge.targetHandle
  label := branchLabel (some edge.sourceHandle)

/-- The edge that is drawn for a connection. -/
def connectionEdge (c : Connection) : FlowEdge where
  id := c.source ++ ":" ++ c.sourceHandle.getD "null" ++ "->" ++ c.target ++ ":" ++
    c.targetHandle.getD "null"
  source := c.source
  target := c.target
  sourceHandle := c.sourceHandle
  targetHandle := c.targetHandle
  label := branchLabel c.sourceHandle

/-- A node as it is sent. -/
def FlowNode.toGraph (node : FlowNode Config) : GraphNode Config where
  key := node.data.nodeKey
  type := node.data.type
  version := node.data.version
  label := node.data.label
  config := node.data.config
  ui := node.position.round

/-- An edge as it is sent; an end without a handle is at `main`. -/
def FlowEdge.toGraph (edge : FlowEdge) : GraphEdge where
  sourceKey := edge.source
  sourceHandle := edge.sourceHandle.getD "main"
  targetKey := edge.target
  targetHandle := edge.targetHandle.getD "main"

namespace BuilderState

variable (s : BuilderState Config)

/-- A draft is put on the canvas. -/
def load (revision : Nat) (graph : Content Config) (catalogue : List NodeType) :
    BuilderState Config where
  revision := revision
  dirty := false
  selectedKey := none
  nodes := graph.nodes.map (flowNode catalogue)
  edges := graph.edges.map flowEdge

/-- The canvas reports changes to the nodes. -/
def onNodesChange (F : XyFlow Config) (changes : List (NodeChange Config)) : BuilderState Config :=
  { s with
    nodes := F.applyNodeChanges changes s.nodes
    dirty := s.dirty || changes.any NodeChange.meaningful }

/-- The canvas reports changes to the edges. -/
def onEdgesChange (F : XyFlow Config) (changes : List EdgeChange) : BuilderState Config :=
  { s with
    edges := F.applyEdgeChanges changes s.edges
    dirty := s.dirty || changes.any EdgeChange.meaningful }

/-- Two handles are joined, if both are there. -/
def connect (F : XyFlow Config) (c : Connection) : BuilderState Config :=
  if c.source = "" ∨ c.target = "" then s
  else { s with edges := F.addEdge (connectionEdge c) s.edges, dirty := true }

/-- The new node has no configuration; the backend fills in the defaults. -/
def addNode [EmptyCollection Config] (descriptor : NodeType) (position : Point) :
    BuilderState Config :=
  let key := nextKey descriptor.type s.nodes
  { s with
    dirty := true
    selectedKey := some key
    nodes := s.nodes.map (fun node => { node with selected := false }) ++
      [{ id := key, selected := true, position,
         data := ⟨key, descriptor.type, descriptor.version, none, ∅, some descriptor⟩ }] }

/-- A node is configured. -/
def updateConfig (nodeKey : NodeKey) (config : Config) : BuilderState Config :=
  { s with
    dirty := true
    nodes := s.nodes.map fun node =>
      if node.data.nodeKey = nodeKey then { node with data := { node.data with config } }
      else node }

/-- One node is selected, or none. -/
def select (nodeKey : Option NodeKey) : BuilderState Config :=
  { s with
    selectedKey := nodeKey
    nodes := s.nodes.map fun node => { node with selected := some node.data.nodeKey = nodeKey } }

/-- The revision that a save has left. -/
def setRevision (revision : Nat) : BuilderState Config := { s with revision }

/-- There is nothing to save. -/
def markClean : BuilderState Config := { s with dirty := false }

/-- The whole canvas, as it is sent. -/
def toGraph : Content Config where
  nodes := s.nodes.map FlowNode.toGraph
  edges := s.edges.map FlowEdge.toGraph

end BuilderState

/-- What a user does on the canvas, by the function of the store it comes to. -/
inductive BuilderAction (Config : Type)
  | onNodesChange (changes : List (NodeChange Config))
  | onEdgesChange (changes : List EdgeChange)
  | connect (c : Connection)
  | addNode (descriptor : NodeType) (position : Point)
  | updateConfig (nodeKey : NodeKey) (config : Config)
  | select (nodeKey : Option NodeKey)

/-- What an action of the user makes of the store. -/
def BuilderState.act [EmptyCollection Config] (F : XyFlow Config) (s : BuilderState Config) :
    BuilderAction Config → BuilderState Config
  | .onNodesChange changes => s.onNodesChange F changes
  | .onEdgesChange changes => s.onEdgesChange F changes
  | .connect c => s.connect F c
  | .addNode descriptor position => s.addNode descriptor position
  | .updateConfig nodeKey config => s.updateConfig nodeKey config
  | .select nodeKey => s.select nodeKey

/-! ### What the package documents -/

/-- The nodes that are removed. -/
def removedNodes (changes : List (NodeChange Config)) : List String :=
  changes.filterMap fun
    | .remove id => some id
    | _ => none

/-- The edges that are removed. -/
def removedEdges (changes : List EdgeChange) : List String :=
  changes.filterMap fun
    | .remove id => some id
    | _ => none

/-- Neither adds nor replaces: all that a canvas reports of its own accord. -/
def NodeChange.plain : NodeChange Config → Bool
  | .add _ | .replace .. => false
  | _ => true

/-- Neither adds nor replaces. -/
def EdgeChange.plain : EdgeChange → Bool
  | .add _ | .replace .. => false
  | _ => true

/-- What is left of a node when its place, size and selection are not looked at. -/
def FlowNode.named (node : FlowNode Config) : String × NodeData Config := (node.id, node.data)

/-- The ends and handles of an edge. -/
def FlowEdge.connection (edge : FlowEdge) : Connection :=
  ⟨edge.source, edge.target, edge.sourceHandle, edge.targetHandle⟩

/-- A change touches the element it names, and that only in what it is about; and a connection
that is there is not drawn again. -/
structure XyFlow.Documented (F : XyFlow Config) : Prop where
  nodes_kept : ∀ changes nodes, (∀ c ∈ changes, c.plain = true) →
    (F.applyNodeChanges changes nodes).map FlowNode.named =
      (nodes.filter fun node => node.id ∉ removedNodes changes).map FlowNode.named
  nodes_still : ∀ changes nodes, (∀ c ∈ changes, c.meaningful = false) →
    (F.applyNodeChanges changes nodes).map FlowNode.position = nodes.map FlowNode.position
  edges_kept : ∀ changes edges, (∀ c ∈ changes, c.plain = true) →
    (F.applyEdgeChanges changes edges).map FlowEdge.connection =
      (edges.filter fun edge => edge.id ∉ removedEdges changes).map FlowEdge.connection
  edge_added : ∀ edge edges, F.addEdge edge edges =
    if edge.connection ∈ edges.map FlowEdge.connection then edges else edges ++ [edge]

/-! ### The keys the builder makes -/

theorem numbered_inj {base : String} {i j : Nat} (h : numbered base i = numbered base j) :
    i = j := by
  have hlist := congrArg String.toList h
  simp only [numbered, String.toList_append, List.append_assoc] at hlist
  exact toString_nat_inj (List.append_cancel_left (List.append_cancel_left hlist))

/-- One of the numbers that are tried is free: there is one more of them than there are nodes. -/
theorem exists_free_number (base : String) (taken : List NodeKey) :
    ∃ i, (List.range' 1 (taken.length + 1)).find? (fun i => numbered base i ∉ taken) = some i ∧
      numbered base i ∉ taken := by
  cases hfind : (List.range' 1 (taken.length + 1)).find? fun i => numbered base i ∉ taken with
  | some i => exact ⟨i, rfl, by simpa using List.find?_some hfind⟩
  | none =>
      have htaken : (List.range' 1 (taken.length + 1)).map (numbered base) ⊆ taken := by
        intro key hkey
        obtain ⟨i, hi, rfl⟩ := List.mem_map.mp hkey
        simpa using List.find?_eq_none.mp hfind i hi
      have hnodup : ((List.range' 1 (taken.length + 1)).map (numbered base)).Nodup :=
        List.Nodup.map (fun i j => numbered_inj) List.nodup_range'
      have hlength := (List.subperm_of_subset hnodup htaken).length_le
      simp at hlength

/-- **A new node has a key of its own.** -/
theorem nextKey_fresh (type : String) (existing : List (FlowNode Config)) :
    nextKey type existing ∉ existing.map fun node => node.data.nodeKey := by
  obtain ⟨i, hfind, hfree⟩ :=
    exists_free_number (keyBase type) (existing.map fun node => node.data.nodeKey)
  unfold nextKey
  dsimp only
  rw [hfind]
  exact hfree

/-! ### What is sent -/

namespace Content

/-- Distinct keys, declared ends, distinct edges. -/
structure IsGraph (g : Content Config) : Prop where
  keys_nodup : (g.nodes.map GraphNode.key).Nodup
  source_mem : ∀ e ∈ g.edges, e.sourceKey ∈ g.nodes.map GraphNode.key
  target_mem : ∀ e ∈ g.edges, e.targetKey ∈ g.nodes.map GraphNode.key
  edges_nodup : g.edges.Nodup

/-- A request in which the server reads this content. -/
structure ReadAs (g : Content Config) (r : GraphRequest) : Prop where
  keys : r.keys = g.nodes.map GraphNode.key
  edges : r.graphEdges = g.edges

/-- **The validator of the request takes what is a graph.** -/
theorem ReadAs.rejection_iff {g : Content Config} {r : GraphRequest} (h : g.ReadAs r) :
    r.rejection = none ↔ g.IsGraph := by
  rw [r.rejection_eq_none_iff, GraphRequest.IsGraph, h.keys, h.edges]
  exact ⟨fun ⟨a, b, c, d⟩ => ⟨a, b, c, d⟩, fun ⟨a, b, c, d⟩ => ⟨a, b, c, d⟩⟩

/-- What is left of a draft whose nodes lie between the points of the grid. -/
def rounded (g : Content Config) : Content Config :=
  { g with nodes := g.nodes.map fun node => { node with ui := node.ui.round } }

end Content

section Sent

variable (s : BuilderState Config)

theorem keys_toGraph : s.toGraph.nodes.map GraphNode.key = s.nodes.map fun n => n.data.nodeKey := by
  simp [BuilderState.toGraph, FlowNode.toGraph]

/-- **Loading a draft and reading the canvas gives the draft, on the grid.** -/
theorem toGraph_load (revision : Nat) (g : Content Config) (catalogue : List NodeType) :
    (BuilderState.load revision g catalogue).toGraph = g.rounded := by
  simp [BuilderState.load, BuilderState.toGraph, Content.rounded, Function.comp_def,
    FlowNode.toGraph, flowNode, FlowEdge.toGraph, flowEdge]

theorem round_round (x : ℚ) : round (round x) = round x := by
  unfold round
  have hhalf : ⌊(⌊x + 1 / 2⌋ : ℚ) + 1 / 2⌋ = ⌊x + 1 / 2⌋ := by
    rw [Int.floor_intCast_add]
    norm_num
  rw [hhalf]

/-- What was read off a canvas is on the grid. -/
theorem rounded_toGraph : s.toGraph.rounded = s.toGraph := by
  simp [Content.rounded, BuilderState.toGraph, FlowNode.toGraph, Point.round, round_round]

end Sent

end Orqent.Builder
