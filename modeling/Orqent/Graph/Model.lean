/-
The in-memory workflow graph.

Nodes keyed by a stable string and edges joining their handles.  Structural
integrity is a precondition rather than a validation rule: the constructor
refuses duplicate keys, dangling edges and duplicate edges, so here they are
fields of the structure and a graph that breaks them cannot be built.

`Value` is the type of JSON values; a node's configuration is one mapping of
names to values.
-/
import Orqent.Engine.State
import Orqent.Lib.Dict
import Orqent.Lib.Digraph
import Orqent.Lib.Text

namespace Orqent

/-- A node's stable identity within a version. -/
abbrev NodeKey := String

/-- One step in a workflow, as authored. -/
structure GraphNode (Value : Type) where
  key : NodeKey
  nodeType : String
  version : Nat
  config : Dict String Value := []
  label : Option String := none
deriving DecidableEq, Repr

/-- A connection from one node's output handle to another's input handle. -/
structure GraphEdge where
  sourceKey : NodeKey
  sourceHandle : String
  targetKey : NodeKey
  targetHandle : String
deriving DecidableEq, Repr

/-- How an edge reads in a message: `trigger_1.main -> log_1.main`. -/
def GraphEdge.text (e : GraphEdge) : String :=
  e.sourceKey ++ "." ++ e.sourceHandle ++ " -> " ++ e.targetKey ++ "." ++ e.targetHandle

/-- A whole workflow version's graph. -/
structure WorkflowGraph (Value : Type) where
  nodes : List (GraphNode Value)
  edges : List GraphEdge
  keys_nodup : (nodes.map GraphNode.key).Nodup
  source_mem : ∀ e ∈ edges, e.sourceKey ∈ nodes.map GraphNode.key
  target_mem : ∀ e ∈ edges, e.targetKey ∈ nodes.map GraphNode.key
  edges_nodup : edges.Nodup

namespace WorkflowGraph

variable {Value : Type} (g : WorkflowGraph Value)

/-- The graph with nothing in it. -/
def empty : WorkflowGraph Value where
  nodes := []
  edges := []
  keys_nodup := List.nodup_nil
  source_mem := by simp
  target_mem := by simp
  edges_nodup := List.nodup_nil

/-- Every node key, in declaration order. -/
def nodeKeys : List NodeKey := g.nodes.map GraphNode.key

/-- The number of nodes. -/
def length : Nat := g.nodes.length

/-- The node with this key, or `none`. -/
def node (key : NodeKey) : Option (GraphNode Value) := g.nodes.find? fun n => n.key = key

/-- Edges leaving this node, in declaration order. -/
def outgoing (key : NodeKey) : List GraphEdge := g.edges.filter fun e => e.sourceKey = key

/-- Edges arriving at this node, in declaration order. -/
def incoming (key : NodeKey) : List GraphEdge := g.edges.filter fun e => e.targetKey = key

theorem nodeKeys_nodup : g.nodeKeys.Nodup := g.keys_nodup

/-- A node is found under its key. -/
theorem node_of_mem {n : GraphNode Value} (h : n ∈ g.nodes) : g.node n.key = some n := by
  unfold node
  cases hfind : g.nodes.find? fun m => m.key = n.key with
  | none =>
      have hnot := List.find?_eq_none.mp hfind n h
      simp at hnot
  | some m =>
      have hkey : m.key = n.key := by simpa using List.find?_some hfind
      rw [List.inj_on_of_nodup_map g.keys_nodup (List.mem_of_find?_eq_some hfind) h hkey]

@[simp] theorem mem_incoming {key : NodeKey} {e : GraphEdge} :
    e ∈ g.incoming key ↔ e ∈ g.edges ∧ e.targetKey = key := by
  simp [incoming]

theorem source_mem_of_incoming {key : NodeKey} {e : GraphEdge} (h : e ∈ g.incoming key) :
    e.sourceKey ∈ g.nodeKeys :=
  g.source_mem e ((g.mem_incoming).mp h).1

/-! ### Directed reachability -/

/-- `a` feeds `b`: some edge leads from `a` to `b`. -/
def Feeds (a b : NodeKey) : Prop := ∃ e ∈ g.edges, e.sourceKey = a ∧ e.targetKey = b

/-- `a` lies upstream of `b`: a path of at least one edge leads from `a` to `b`. -/
def Ancestor (a b : NodeKey) : Prop := Relation.TransGen g.Feeds a b

/-- No node lies upstream of itself. -/
def Acyclic : Prop := Digraph.Acyclic g.Feeds

/-- No two edges arrive at one input handle. -/
def SingleFanIn : Prop := (g.edges.map fun e => (e.targetKey, e.targetHandle)).Nodup

/-- A rank that grows along every edge rules cycles out. -/
theorem acyclic_of_rank (rank : NodeKey → Nat)
    (h : ∀ e ∈ g.edges, rank e.sourceKey < rank e.targetKey) : g.Acyclic := by
  refine Digraph.acyclic_of_rank rank ?_
  intro a b hfeeds
  obtain ⟨e, he, rfl, rfl⟩ := hfeeds
  exact h e he

theorem feeds_of_incoming {key : NodeKey} {e : GraphEdge} (h : e ∈ g.incoming key) :
    g.Feeds e.sourceKey key := by
  obtain ⟨he, ht⟩ := (g.mem_incoming).mp h
  exact ⟨e, he, rfl, ht⟩

end WorkflowGraph

end Orqent
