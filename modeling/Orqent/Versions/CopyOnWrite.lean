/-
The draft that is made when there is none.

It starts as a copy of the active version: the node rows with their canvas positions, and
the edges as they load.  Both are what `stored_writable` says can be written, so the copy
is made and loads as what it was copied from.

A graph that a client sends is another matter: it is saved exactly where the indexes tell its
keys and connections apart (`save_load_iff`).

`GraphTables.rows` is the view of `Versions.GraphRows`, one version's rows without the
positions; what is loaded from it is what is loaded here.
-/
import Orqent.Versions.Payload

namespace Orqent

variable {Value : Type} {c : Collation}

/-! ### One version's rows -/

/-- A node row without its place on the canvas. -/
def WorkflowNode.row (n : WorkflowNode Value) : NodeRow Value := ⟨n.id, n.toGraphNode⟩

/-- An edge row of a version that is known. -/
def WorkflowEdge.row (e : WorkflowEdge) : EdgeRow :=
  ⟨e.id, e.sourceNodeId, e.sourceHandle, e.targetNodeId, e.targetHandle⟩

/-- One version's rows. -/
def GraphTables.rows (t : GraphTables Value) (version : Nat) : GraphRows Value where
  nodes := (t.nodes.filter fun n => n.workflowVersionId = version).map WorkflowNode.row
  edges := (t.edges.filter fun e => e.workflowVersionId = version).map WorkflowEdge.row

/-- A foreign key of a version's edge leads to the same node there. -/
theorem joined_rows {t : GraphTables Value} (h : t.Sound c) {v : Nat} {n : WorkflowNode Value}
    (hn : n ∈ t.listNodes v) : joined (t.rows v).nodes n.id = some n.row := by
  have hmem : n.row ∈ (t.rows v).nodes := by
    obtain ⟨hn, hv⟩ := mem_listNodes.mp hn
    exact List.mem_map.mpr ⟨n, List.mem_filter.mpr ⟨hn, by simpa using hv⟩, rfl⟩
  have hids : ((t.rows v).nodes.map NodeRow.id).Nodup := by
    rw [GraphTables.rows, List.map_map]
    exact h.nodeIds.sublist (List.filter_sublist.map _)
  obtain ⟨other, hother⟩ : ∃ other, joined (t.rows v).nodes n.id = some other := by
    rw [← Option.isSome_iff_exists, joined, List.find?_isSome]
    exact ⟨n.row, hmem, by simp [WorkflowNode.row]⟩
  have hid : other.id = n.id := by simpa using List.find?_some hother
  rw [hother, List.inj_on_of_nodup_map hids (List.mem_of_find?_eq_some hother) hmem hid]

/-- **One version's rows load as the version does.** -/
theorem loadGraph_rows [DecidableEq Value] {t : GraphTables Value} (h : t.Sound c) (v : Nat) :
    loadGraph (t.rows v) = some (stored_writable h v).graph := by
  have hnodes : ((t.rows v).nodes.insertionSort fun a b => a.id ≤ b.id).map NodeRow.node =
      (stored_writable h v).graph.nodes := by
    have hsort : ((t.rows v).nodes.insertionSort fun a b => a.id ≤ b.id) =
        (t.listNodes v).map WorkflowNode.row :=
      (List.map_insertionSort (fun a b : WorkflowNode Value => a.id ≤ b.id)
        (fun a b => a.id ≤ b.id) WorkflowNode.row _ fun a _ b _ => Iff.rfl).symm
    show _ = ((t.listNodes v).map WorkflowNode.toNodeColumns).map NodeColumns.toGraphNode
    rw [hsort, List.map_map, List.map_map]
    rfl
  have hedges : ((t.rows v).edges.insertionSort fun a b => a.id ≤ b.id).filterMap
      (EdgeRow.load (t.rows v).nodes) = (stored_writable h v).graph.edges := by
    have hsort : ((t.rows v).edges.insertionSort fun a b => a.id ≤ b.id) =
        (t.listEdges v).map WorkflowEdge.row :=
      (List.map_insertionSort (fun a b : WorkflowEdge => a.id ≤ b.id)
        (fun a b => a.id ≤ b.id) WorkflowEdge.row _ fun a _ b _ => Iff.rfl).symm
    rw [hsort, List.filterMap_map]
    refine List.filterMap_congr fun e he => ?_
    obtain ⟨source, hs, target, ht, hsid, htid, heq⟩ := h.ends he
    rw [heq]
    simp only [Function.comp, EdgeRow.load, WorkflowEdge.row, ← hsid, ← htid, joined_rows h hs,
      joined_rows h ht]
    rfl
  rw [loadGraph, hnodes, hedges]
  exact of?_eq _

/-! ### One workflow -/

/-- The rows of one workflow, and the two tables its graphs are in. -/
structure WorkflowRows (c : Collation) (Value : Type) where
  activeVersionId : Option Nat
  versions : Dict Nat WorkflowVersion
  graphs : GraphStore c Value
  ids_nodup : (versions.map Prod.fst).Nodup

namespace WorkflowRows

variable (w : WorkflowRows c Value)

/-- The workflow's draft, if it has one. -/
def getDraft : Option (Nat × WorkflowVersion) :=
  w.versions.find? fun e => e.2.status = .draft

/-- An id for a new version row. -/
abbrev NewId := { id : Nat // ∀ e ∈ w.versions, e.1 < id }

/-- Insert a draft row, with the graphs as they then are. -/
def addDraft (id : w.NewId) (graphs : GraphStore c Value) : WorkflowRows c Value :=
  { w with
    versions := w.versions.set id.1 { status := .draft }
    graphs
    ids_nodup := w.versions.nodup_set _ _ w.ids_nodup }

/-- Return the workflow's draft, creating it copy-on-write if absent. -/
def ensureDraft (newId : w.NewId) (nodeIds : w.graphs.NodeIds) (edgeIds : w.graphs.EdgeIds) :
    Except SaveError (WorkflowRows c Value × Nat) :=
  match w.getDraft with
  | some (id, _) => .ok (w, id)
  | none =>
      match w.activeVersionId with
      | none => .ok (w.addDraft newId w.graphs, newId.1)
      | some source =>
          let nodes := (w.graphs.listNodes source).map WorkflowNode.toNodeColumns
          match w.graphs.loadGraph source with
          | .error text => .error (.valueError text)
          | .ok graph => do
              let graphs ← w.graphs.replaceGraph newId.1 nodeIds edgeIds nodes graph.edges
              .ok (w.addDraft newId graphs, newId.1)

end WorkflowRows

/-- Nodes and edges that make a graph to the program: distinct keys, and distinct edges between
declared ones. -/
structure MakesGraph (nodes : List (NodeColumns Value)) (edges : List GraphEdge) : Prop where
  keys : (nodes.map NodeColumns.nodeKey).Nodup
  source : ∀ e ∈ edges, e.sourceKey ∈ nodes.map NodeColumns.nodeKey
  target : ∀ e ∈ edges, e.targetKey ∈ nodes.map NodeColumns.nodeKey
  edges : edges.Nodup

/-- No two keys, and no two connections, are one to the database. -/
structure ToldApart (c : Collation) (nodes : List (NodeColumns Value)) (edges : List GraphEdge) :
    Prop where
  keys : (nodes.map fun n => c n.nodeKey).Nodup
  connections : (edges.map (connection c)).Nodup

/-- What can be written is a graph that the database tells apart. -/
theorem MakesGraph.writable_iff {nodes : List (NodeColumns Value)} {edges : List GraphEdge}
    (h : MakesGraph nodes edges) : Writable c nodes edges ↔ ToldApart c nodes edges := by
  constructor
  · intro hw
    exact ⟨hw.keys, hw.connections⟩
  · intro hapart
    exact ⟨hapart.keys, h.source, h.target, hapart.connections⟩

end Orqent
