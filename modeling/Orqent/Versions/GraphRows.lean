/-
The rows of one version's graph.

`replaceGraph` writes a graph as node rows and edge rows, the edges addressed by the
ids the nodes were given; `loadGraph` reads the rows in id order and joins the edges
back to node keys.  The fact the callers want is `loadGraph_graphRows`: what was
written is what is read.

A node's `ui_position` is not among the columns, since no graph that is loaded has it.
-/
import Orqent.Graph.Model
import Mathlib.Data.List.Sort

namespace Orqent

variable {Value : Type}

/-- A row of `workflow_nodes`. -/
structure NodeRow (Value : Type) where
  id : Nat
  node : GraphNode Value
deriving DecidableEq, Repr

/-- A row of `workflow_edges`. -/
structure EdgeRow where
  id : Nat
  sourceNodeId : Nat
  sourceHandle : String
  targetNodeId : Nat
  targetHandle : String
deriving DecidableEq, Repr

/-- The rows whose `workflow_version_id` is one version. -/
structure GraphRows (Value : Type) where
  nodes : List (NodeRow Value) := []
  edges : List EdgeRow := []
deriving DecidableEq, Repr

deriving instance DecidableEq for WorkflowGraph

/-! ### Reading -/

/-- The graph of these nodes and edges; the constructor refuses what is not one. -/
def WorkflowGraph.of? [DecidableEq Value] (nodes : List (GraphNode Value))
    (edges : List GraphEdge) : Option (WorkflowGraph Value) :=
  if h : (nodes.map GraphNode.key).Nodup ∧ (∀ e ∈ edges, e.sourceKey ∈ nodes.map GraphNode.key) ∧
      (∀ e ∈ edges, e.targetKey ∈ nodes.map GraphNode.key) ∧ edges.Nodup then
    some ⟨nodes, edges, h.1, h.2.1, h.2.2.1, h.2.2.2⟩
  else none

/-- The node rows of a graph in the order of their ids. -/
def listNodes (rows : GraphRows Value) : List (NodeRow Value) :=
  rows.nodes.insertionSort fun a b => a.id ≤ b.id

/-- The node a foreign key names. -/
def joined (rows : List (NodeRow Value)) (id : Nat) : Option (NodeRow Value) :=
  rows.find? fun row => row.id = id

/-- An edge row joined to the keys of its two nodes. -/
def EdgeRow.load (rows : List (NodeRow Value)) (e : EdgeRow) : Option GraphEdge :=
  match joined rows e.sourceNodeId, joined rows e.targetNodeId with
  | some source, some target =>
      some ⟨source.node.key, e.sourceHandle, target.node.key, e.targetHandle⟩
  | _, _ => none

/-- Reconstruct the graph: two queries, each in the order of the ids. -/
def loadGraph [DecidableEq Value] (rows : GraphRows Value) : Option (WorkflowGraph Value) :=
  WorkflowGraph.of? ((rows.nodes.insertionSort fun a b => a.id ≤ b.id).map NodeRow.node)
    ((rows.edges.insertionSort fun a b => a.id ≤ b.id).filterMap (EdgeRow.load rows.nodes))

/-! ### Writing -/

/-- The rows of these nodes, with ids from `first` on. -/
def nodeRows (first : Nat) (nodes : List (GraphNode Value)) : List (NodeRow Value) :=
  (nodes.zipIdx first).map fun n => ⟨n.2, n.1⟩

/-- The id the node with this key was given. -/
def nodeId (rows : List (NodeRow Value)) (key : NodeKey) : Option Nat :=
  (rows.find? fun row => row.node.key = key).map NodeRow.id

/-- The row of an edge.  Every edge of a graph joins two of its nodes, so the ids are there. -/
def edgeRow (rows : List (NodeRow Value)) (e : GraphEdge × Nat) : EdgeRow where
  id := e.2
  sourceNodeId := (nodeId rows e.1.sourceKey).getD 0
  sourceHandle := e.1.sourceHandle
  targetNodeId := (nodeId rows e.1.targetKey).getD 0
  targetHandle := e.1.targetHandle

/-- The rows of these edges, with ids from `first` on. -/
def edgeRows (first : Nat) (rows : List (NodeRow Value)) (edges : List GraphEdge) : List EdgeRow :=
  (edges.zipIdx first).map (edgeRow rows)

/-- The rows of a graph, with ids from the next ones on. -/
def graphRows (firstNode firstEdge : Nat) (g : WorkflowGraph Value) : GraphRows Value where
  nodes := nodeRows firstNode g.nodes
  edges := edgeRows firstEdge (nodeRows firstNode g.nodes) g.edges

/-! ### What was written is what is read -/

theorem nodeRows_nodes (first : Nat) (nodes : List (GraphNode Value)) :
    (nodeRows first nodes).map NodeRow.node = nodes := by
  unfold nodeRows
  rw [List.map_map]
  exact List.zipIdx_map_fst first nodes

theorem nodeRows_ids (first : Nat) (nodes : List (GraphNode Value)) :
    (nodeRows first nodes).map NodeRow.id = List.range' first nodes.length := by
  unfold nodeRows
  rw [List.map_map]
  exact List.zipIdx_map_snd first nodes

theorem edgeRows_ids (first : Nat) (rows : List (NodeRow Value)) (edges : List GraphEdge) :
    (edgeRows first rows edges).map EdgeRow.id = List.range' first edges.length := by
  unfold edgeRows
  rw [List.map_map]
  exact List.zipIdx_map_snd first edges

/-- Rows whose ids are in a row are in id order already. -/
theorem insertionSort_of_ids {α : Type} {id : α → Nat} {rows : List α} {first n : Nat}
    (h : rows.map id = List.range' first n) :
    (rows.insertionSort fun a b => id a ≤ id b) = rows := by
  refine List.Pairwise.insertionSort_eq ?_
  have hsorted : (rows.map id).Pairwise (· ≤ ·) := by
    rw [h]
    exact List.pairwise_le_range'
  exact List.pairwise_map.mp hsorted

/-- The join finds the node an edge was written with. -/
theorem joined_nodeId (first : Nat) {nodes : List (GraphNode Value)} {key : NodeKey}
    (hkey : key ∈ nodes.map GraphNode.key) :
    ∃ row, joined (nodeRows first nodes) ((nodeId (nodeRows first nodes) key).getD 0) = some row ∧
      row.node.key = key := by
  obtain ⟨row, hrow⟩ : ∃ row, (nodeRows first nodes).find?
      (fun r => r.node.key = key) = some row := by
    rw [← Option.isSome_iff_exists, List.find?_isSome]
    obtain ⟨n, hn, rfl⟩ := List.mem_map.mp hkey
    rw [← nodeRows_nodes first nodes] at hn
    obtain ⟨r, hr, rfl⟩ := List.mem_map.mp hn
    exact ⟨r, hr, by simp⟩
  have hmem := List.mem_of_find?_eq_some hrow
  obtain ⟨other, hother⟩ : ∃ other, joined (nodeRows first nodes) row.id = some other := by
    rw [← Option.isSome_iff_exists, joined, List.find?_isSome]
    exact ⟨row, hmem, by simp⟩
  have hnodup : ((nodeRows first nodes).map NodeRow.id).Nodup := by
    rw [nodeRows_ids]
    exact List.nodup_range'
  have hsame : other = row :=
    List.inj_on_of_nodup_map hnodup (List.mem_of_find?_eq_some hother) hmem
      (by simpa using List.find?_some hother)
  refine ⟨row, ?_, by simpa using List.find?_some hrow⟩
  unfold nodeId
  rw [hrow]
  exact hsame ▸ hother

theorem of?_eq [DecidableEq Value] (g : WorkflowGraph Value) :
    WorkflowGraph.of? g.nodes g.edges = some g :=
  dif_pos ⟨g.keys_nodup, g.source_mem, g.target_mem, g.edges_nodup⟩

theorem edgeRows_load {firstNode firstEdge : Nat} {nodes : List (GraphNode Value)}
    {edges : List GraphEdge} (hsource : ∀ e ∈ edges, e.sourceKey ∈ nodes.map GraphNode.key)
    (htarget : ∀ e ∈ edges, e.targetKey ∈ nodes.map GraphNode.key) :
    (edgeRows firstEdge (nodeRows firstNode nodes) edges).filterMap
      (EdgeRow.load (nodeRows firstNode nodes)) = edges := by
  have hload : ∀ e ∈ edges.zipIdx firstEdge,
      (EdgeRow.load (nodeRows firstNode nodes) ∘ edgeRow (nodeRows firstNode nodes)) e
        = some e.1 := by
    intro e he
    have hmem : e.1 ∈ edges := List.fst_mem_of_mem_zipIdx he
    obtain ⟨source, hs, hskey⟩ := joined_nodeId firstNode (hsource e.1 hmem)
    obtain ⟨target, ht, htkey⟩ := joined_nodeId firstNode (htarget e.1 hmem)
    simp only [Function.comp, EdgeRow.load, edgeRow, hs, ht, hskey, htkey]
  unfold edgeRows
  rw [List.filterMap_map, List.filterMap_congr hload]
  show List.filterMap (some ∘ Prod.fst) _ = edges
  rw [List.filterMap_eq_map]
  exact List.zipIdx_map_fst firstEdge edges

/-- **A graph that was written is read back as it was.** -/
theorem loadGraph_graphRows [DecidableEq Value] (firstNode firstEdge : Nat)
    (g : WorkflowGraph Value) : loadGraph (graphRows firstNode firstEdge g) = some g := by
  rw [loadGraph, graphRows, insertionSort_of_ids (nodeRows_ids firstNode g.nodes),
    insertionSort_of_ids (edgeRows_ids firstEdge _ g.edges), nodeRows_nodes,
    edgeRows_load g.source_mem g.target_mem]
  exact of?_eq g

end Orqent
