/-
The two tables all graphs are kept in.

`replaceGraph` deletes a version's rows and inserts others, the edges addressed by the ids
the nodes were given; `loadGraph` reads the rows of a version in id order and joins the
edges back to node keys.  The tables of `GraphRows` are one version's part of these, less
the canvas positions.

What the database refuses is part of an insert: a primary key that is there, a foreign key
that leads nowhere, and whatever the unique indexes take for a repetition.  How an index
compares texts is its collation, an argument here: the key a text is compared by.

`GraphTables.Sound` is what every save keeps, and all that reading needs.
-/
import Orqent.Graph.Construct
import Orqent.Versions.GraphRows

namespace Orqent

variable {Value : Type}

/-- The key a text is compared by: texts with equal keys are equal to the database. -/
abbrev Collation := String → String

/-! ### Rows -/

/-- The columns of a row of `workflow_nodes` that a caller fills in. -/
structure NodeColumns (Value : Type) where
  nodeKey : NodeKey
  nodeType : String
  nodeTypeVersion : Nat
  label : Option String
  config : Dict String Value
  uiPosition : Dict String Value
  /-- Its key is one: not blank, and no longer than the column. -/
  key_ok : keyProblem nodeKey = none

/-- A row of `workflow_nodes`. -/
structure WorkflowNode (Value : Type) extends NodeColumns Value where
  id : Nat
  workflowVersionId : Nat

/-- A row of `workflow_edges`. -/
structure WorkflowEdge where
  id : Nat
  workflowVersionId : Nat
  sourceNodeId : Nat
  sourceHandle : String
  targetNodeId : Nat
  targetHandle : String
deriving DecidableEq, Repr

/-- The node as the domain sees it, without its place on the canvas. -/
def NodeColumns.toGraphNode (n : NodeColumns Value) : GraphNode Value where
  key := n.nodeKey
  nodeType := n.nodeType
  version := n.nodeTypeVersion
  config := n.config
  label := n.label

/-- What the unique index on nodes compares. -/
def WorkflowNode.entry (c : Collation) (n : WorkflowNode Value) : Nat × String :=
  (n.workflowVersionId, c n.nodeKey)

/-- What the unique index on edges compares. -/
def WorkflowEdge.entry (c : Collation) (e : WorkflowEdge) : Nat × Nat × String × Nat × String :=
  (e.workflowVersionId, e.sourceNodeId, c e.sourceHandle, e.targetNodeId, c e.targetHandle)

/-- The rows of all versions. -/
structure GraphTables (Value : Type) where
  nodes : List (WorkflowNode Value) := []
  edges : List WorkflowEdge := []

/-- Why a graph is not written. -/
inductive SaveError
  /-- A key of this name is taken. -/
  | duplicateEntry (index : String)
  /-- A row that is referred to is not there. -/
  | foreignKey (name : String)
  /-- An edge names a node that is not among those written. -/
  | keyError (key : NodeKey)
  /-- What was stored makes no graph. -/
  | valueError (text : String)
deriving DecidableEq, Repr

namespace GraphTables

variable (t : GraphTables Value)

/-! ### Reading -/

/-- The node rows of a version, ordered by id. -/
def listNodes (version : Nat) : List (WorkflowNode Value) :=
  (t.nodes.filter fun n => n.workflowVersionId = version).insertionSort fun a b => a.id ≤ b.id

/-- The edge rows of a version, ordered by id. -/
def listEdges (version : Nat) : List WorkflowEdge :=
  (t.edges.filter fun e => e.workflowVersionId = version).insertionSort fun a b => a.id ≤ b.id

/-- The node a foreign key names. -/
def nodeById (id : Nat) : Option (WorkflowNode Value) := t.nodes.find? fun n => n.id = id

/-- An edge row joined to the keys of its two nodes. -/
def join (e : WorkflowEdge) : Option GraphEdge :=
  match t.nodeById e.sourceNodeId, t.nodeById e.targetNodeId with
  | some source, some target =>
      some ⟨source.nodeKey, e.sourceHandle, target.nodeKey, e.targetHandle⟩
  | _, _ => none

/-- Reconstruct a version's graph: its nodes, then its edges joined back to their keys. -/
def loadGraph (version : Nat) : Except String (WorkflowGraph Value) :=
  WorkflowGraph.construct ((t.listNodes version).map fun n => n.toGraphNode)
    ((t.listEdges version).filterMap t.join)

/-! ### Writing -/

/-- Delete a version's edges. -/
def deleteEdges (version : Nat) : GraphTables Value :=
  { t with edges := t.edges.filter fun e => e.workflowVersionId ≠ version }

/-- Delete a version's nodes, and with them every edge that refers to one. -/
def deleteNodes (version : Nat) : GraphTables Value :=
  let gone := (t.nodes.filter fun n => n.workflowVersionId = version).map fun n => n.id
  { nodes := t.nodes.filter fun n => n.workflowVersionId ≠ version
    edges := t.edges.filter fun e => e.sourceNodeId ∉ gone ∧ e.targetNodeId ∉ gone }

/-- Insert node rows. -/
def insertNodes (c : Collation) (rows : List (WorkflowNode Value)) :
    Except SaveError (GraphTables Value) :=
  let nodes := t.nodes ++ rows
  if ¬ (nodes.map fun n => n.id).Nodup then .error (.duplicateEntry "PRIMARY")
  else if ¬ (nodes.map (WorkflowNode.entry c)).Nodup then
    .error (.duplicateEntry "uq_workflow_nodes_workflow_version_id_node_key")
  else .ok { t with nodes }

/-- Insert edge rows. -/
def insertEdges (c : Collation) (rows : List WorkflowEdge) :
    Except SaveError (GraphTables Value) :=
  let edges := t.edges ++ rows
  if ¬ (edges.map WorkflowEdge.id).Nodup then .error (.duplicateEntry "PRIMARY")
  else if ¬ (edges.map (WorkflowEdge.entry c)).Nodup then
    .error (.duplicateEntry "uq_workflow_edges_version_source_target")
  else if ∃ e ∈ rows, e.sourceNodeId ∉ t.nodes.map fun n => n.id then
    .error (.foreignKey "fk_workflow_edges_source_node_id_workflow_nodes")
  else if ∃ e ∈ rows, e.targetNodeId ∉ t.nodes.map fun n => n.id then
    .error (.foreignKey "fk_workflow_edges_target_node_id_workflow_nodes")
  else .ok { t with edges }

end GraphTables

/-- Ids for new rows: ascending, and beyond all that are there. -/
structure FreshIds (used : List Nat) where
  id : Nat → Nat
  ascending : StrictMono id
  fresh : ∀ n, ∀ u ∈ used, u < id n

/-- The rows of these nodes, each with the next id. -/
def newNodes (version : Nat) (id : Nat → Nat) (nodes : List (NodeColumns Value)) :
    List (WorkflowNode Value) :=
  nodes.zipIdx.map fun n => { n.1 with id := id n.2, workflowVersionId := version }

/-- The ids the nodes were given, by key; of two nodes of one key, the later one's. -/
def idsByKey (rows : List (WorkflowNode Value)) : Dict NodeKey Nat :=
  Dict.assign [] (rows.map fun n => (n.nodeKey, n.id))

/-- The row of an edge, its ends resolved to ids. -/
def newEdge (version : Nat) (ids : Dict NodeKey Nat) (id : Nat) (e : GraphEdge) :
    Except SaveError WorkflowEdge :=
  match ids.get? e.sourceKey, ids.get? e.targetKey with
  | none, _ => .error (.keyError e.sourceKey)
  | some _, none => .error (.keyError e.targetKey)
  | some source, some target =>
      .ok ⟨id, version, source, e.sourceHandle, target, e.targetHandle⟩

/-- Replace a version's graph wholesale. -/
def GraphTables.replaceGraph (t : GraphTables Value) (c : Collation) (version : Nat)
    (nodeIds edgeIds : Nat → Nat) (nodes : List (NodeColumns Value)) (edges : List GraphEdge) :
    Except SaveError (GraphTables Value) := do
  let emptied := (t.deleteEdges version).deleteNodes version
  let rows := newNodes version nodeIds nodes
  let written ← emptied.insertNodes c rows
  let edgeRows ← edges.zipIdx.mapM fun e => newEdge version (idsByKey rows) (edgeIds e.2) e.1
  written.insertEdges c edgeRows

/-! ### What every save keeps -/

/-- What the tables keep.  That an edge joins nodes of its own version is no constraint of the
database; it is so because only `replaceGraph` writes edges. -/
structure GraphTables.Sound (c : Collation) (t : GraphTables Value) : Prop where
  nodeIds : (t.nodes.map fun n => n.id).Nodup
  edgeIds : (t.edges.map WorkflowEdge.id).Nodup
  nodeEntries : (t.nodes.map (WorkflowNode.entry c)).Nodup
  edgeEntries : (t.edges.map (WorkflowEdge.entry c)).Nodup
  source : ∀ e ∈ t.edges, ∃ n ∈ t.nodes,
    n.id = e.sourceNodeId ∧ n.workflowVersionId = e.workflowVersionId
  target : ∀ e ∈ t.edges, ∃ n ∈ t.nodes,
    n.id = e.targetNodeId ∧ n.workflowVersionId = e.workflowVersionId

/-- The tables and that they are sound. -/
structure GraphStore (c : Collation) (Value : Type) extends GraphTables Value where
  sound : toGraphTables.Sound c

/-- Between which sockets an edge runs, as the database tells them apart. -/
def connection (c : Collation) (e : GraphEdge) : NodeKey × String × NodeKey × String :=
  (e.sourceKey, c e.sourceHandle, e.targetKey, c e.targetHandle)

/-- Nodes and edges that make a graph, with nothing the database takes for a repetition. -/
structure Writable (c : Collation) (nodes : List (NodeColumns Value)) (edges : List GraphEdge) :
    Prop where
  keys : (nodes.map fun n => c n.nodeKey).Nodup
  source : ∀ e ∈ edges, e.sourceKey ∈ nodes.map NodeColumns.nodeKey
  target : ∀ e ∈ edges, e.targetKey ∈ nodes.map NodeColumns.nodeKey
  connections : (edges.map (connection c)).Nodup

section Lists

variable {α β γ ε : Type}

/-- Two maps that identify the same elements leave the same lists without repetition. -/
theorem nodup_map_congr {f : α → β} {g : α → γ} {l : List α}
    (h : ∀ a ∈ l, ∀ b ∈ l, f a = f b ↔ g a = g b) : (l.map f).Nodup ↔ (l.map g).Nodup := by
  unfold List.Nodup
  rw [List.pairwise_map, List.pairwise_map]
  exact List.Pairwise.iff_of_mem fun {a b} ha hb => not_congr (h a ha b hb)

theorem zipIdx_map_of_fst (f : α → β) (l : List α) : (l.zipIdx.map fun p => f p.1) = l.map f := by
  have hcomp : (fun p : α × Nat => f p.1) = f ∘ Prod.fst := rfl
  rw [hcomp, ← List.map_map, List.zipIdx_map_fst]

theorem zipIdx_map_of_snd (f : Nat → β) (l : List α) :
    (l.zipIdx.map fun p => f p.2) = (List.range l.length).map f := by
  have hcomp : (fun p : α × Nat => f p.2) = f ∘ Prod.snd := rfl
  rw [hcomp, ← List.map_map, List.zipIdx_map_snd, List.range_eq_range']

/-- Where a step succeeds under a condition and its result is known, so are all of them. -/
theorem mapM_eq_ok_iff {f : α → Except ε β} {P : α → Prop} {g : α → β}
    (h : ∀ a b, f a = .ok b ↔ P a ∧ b = g a) {l : List α} {l' : List β} :
    l.mapM f = .ok l' ↔ (∀ a ∈ l, P a) ∧ l' = l.map g := by
  induction l generalizing l' with
  | nil =>
      rw [List.mapM_nil]
      simp [pure, Except.pure, eq_comm]
  | cons a rest ih =>
      rw [List.mapM_cons]
      cases ha : f a with
      | error e =>
          have hnot : ¬ P a := fun hP => by simp [(h a (g a)).mpr ⟨hP, rfl⟩] at ha
          simp [bind, Except.bind, hnot]
      | ok b =>
          obtain ⟨hP, rfl⟩ := (h a b).mp ha
          cases hrest : rest.mapM f with
          | error e =>
              have hnot : ¬ ∀ x ∈ rest, P x := fun hall => by simp [ih.mpr ⟨hall, rfl⟩] at hrest
              simp [bind, Except.bind, hP, hnot]
          | ok bs =>
              obtain ⟨hall, rfl⟩ := ih.mp hrest
              constructor
              · intro heq
                rw [← Except.ok.inj heq]
                exact ⟨List.forall_mem_cons.mpr ⟨hP, hall⟩, rfl⟩
              · intro hboth
                rw [hboth.2]
                rfl

/-- Rows with ascending ids are in id order already. -/
theorem insertionSort_of_ascending (id : α → Nat) {rows : List α}
    (h : (rows.map id).Pairwise (· < ·)) :
    (rows.insertionSort fun a b => id a ≤ id b) = rows :=
  List.Pairwise.insertionSort_eq ((List.pairwise_map.mp h).imp fun hlt => Nat.le_of_lt hlt)

/-- Fresh ids after those in use are without repetition. -/
theorem FreshIds.nodup_append {used : List Nat} (ids : FreshIds used) {kept : List Nat}
    (hnodup : kept.Nodup) (hkept : kept ⊆ used) (n : Nat) :
    (kept ++ (List.range n).map ids.id).Nodup := by
  refine List.Nodup.append hnodup (List.Nodup.map ids.ascending.injective List.nodup_range) ?_
  intro i hi hnew
  obtain ⟨m, -, rfl⟩ := List.mem_map.mp hnew
  exact Nat.lt_irrefl _ (ids.fresh m _ (hkept hi))

end Lists

/-! ### What a save writes -/

section Save

variable {c : Collation} {t t' : GraphTables Value} {v : Nat} {nodes : List (NodeColumns Value)}
  {edges : List GraphEdge} {id : Nat → Nat}

theorem newNodes_columns (v : Nat) (id : Nat → Nat) (nodes : List (NodeColumns Value)) :
    (newNodes v id nodes).map WorkflowNode.toNodeColumns = nodes := by
  unfold newNodes
  rw [List.map_map]
  exact List.zipIdx_map_fst 0 nodes

theorem newNodes_ids (v : Nat) (id : Nat → Nat) (nodes : List (NodeColumns Value)) :
    ((newNodes v id nodes).map fun n => n.id) = (List.range nodes.length).map id := by
  unfold newNodes
  rw [List.map_map]
  exact zipIdx_map_of_snd id nodes

theorem newNodes_version {n : WorkflowNode Value} (hn : n ∈ newNodes v id nodes) :
    n.workflowVersionId = v := by
  obtain ⟨p, -, rfl⟩ := List.mem_map.mp hn
  rfl

theorem newNodes_keys (v : Nat) (id : Nat → Nat) (nodes : List (NodeColumns Value)) :
    ((newNodes v id nodes).map fun n => n.nodeKey) = nodes.map NodeColumns.nodeKey := by
  conv_rhs => rw [← newNodes_columns v id nodes]
  rw [List.map_map]
  rfl

/-- The id a key leads to; every end of an edge that is written leads to one. -/
def idOf (ids : Dict NodeKey Nat) (key : NodeKey) : Nat := (ids.get? key).getD 0

/-- The row an edge is written as. -/
def writtenEdge (v : Nat) (ids : Dict NodeKey Nat) (id : Nat) (e : GraphEdge) : WorkflowEdge :=
  ⟨id, v, idOf ids e.sourceKey, e.sourceHandle, idOf ids e.targetKey, e.targetHandle⟩

/-- An edge is resolved where both its ends are among the keys. -/
theorem newEdge_eq_ok_iff {ids : Dict NodeKey Nat} {i : Nat} {e : GraphEdge} {row : WorkflowEdge} :
    newEdge v ids i e = .ok row ↔
      ((ids.get? e.sourceKey).isSome = true ∧ (ids.get? e.targetKey).isSome = true) ∧
        row = writtenEdge v ids i e := by
  unfold newEdge writtenEdge idOf
  cases hsource : ids.get? e.sourceKey with
  | none => simp
  | some source =>
      cases htarget : ids.get? e.targetKey with
      | none => simp
      | some target => simp [eq_comm]

/-- The tables without a version's graph. -/
def GraphTables.without (t : GraphTables Value) (v : Nat) : GraphTables Value where
  nodes := t.nodes.filter fun n => n.workflowVersionId ≠ v
  edges := t.edges.filter fun e => e.workflowVersionId ≠ v

/-- Deleting a version's nodes takes no other version's edges along. -/
theorem GraphTables.Sound.deleteNodes_deleteEdges (h : t.Sound c) (v : Nat) :
    (t.deleteEdges v).deleteNodes v = t.without v := by
  have hends : ∀ e ∈ t.edges, e.workflowVersionId ≠ v → ∀ i n, n ∈ t.nodes → n.id = i →
      n.workflowVersionId = e.workflowVersionId →
        i ∉ (t.nodes.filter fun n => n.workflowVersionId = v).map fun n => n.id := by
    intro e he hne i n hn hi hversion hgone
    obtain ⟨m, hm, hmi⟩ := List.mem_map.mp hgone
    obtain ⟨hm, hmv⟩ := List.mem_filter.mp hm
    have hsame : m = n := List.inj_on_of_nodup_map h.nodeIds hm hn (hmi.trans hi.symm)
    subst hsame
    exact hne (hversion.symm.trans (by simpa using hmv))
  unfold GraphTables.deleteNodes GraphTables.deleteEdges GraphTables.without
  dsimp only
  congr 1
  rw [List.filter_eq_self]
  intro e he
  obtain ⟨he, hne⟩ := List.mem_filter.mp he
  have hne : e.workflowVersionId ≠ v := by simpa using hne
  obtain ⟨source, hsource, hsid, hsv⟩ := h.source e he
  obtain ⟨target, htarget, htid, htv⟩ := h.target e he
  exact decide_eq_true
    ⟨hends e he hne _ source hsource hsid hsv, hends e he hne _ target htarget htid htv⟩

/-- What is left is sound. -/
theorem GraphTables.Sound.without (h : t.Sound c) (v : Nat) : (t.without v).Sound c := by
  have hend : ∀ e ∈ (t.without v).edges, ∀ n ∈ t.nodes,
      n.workflowVersionId = e.workflowVersionId → n ∈ (t.without v).nodes := by
    intro e he n hn hversion
    have hne := (List.mem_filter.mp he).2
    exact List.mem_filter.mpr ⟨hn, by simpa [hversion] using hne⟩
  exact
    { nodeIds := h.nodeIds.sublist (List.filter_sublist.map _)
      edgeIds := h.edgeIds.sublist (List.filter_sublist.map _)
      nodeEntries := h.nodeEntries.sublist (List.filter_sublist.map _)
      edgeEntries := h.edgeEntries.sublist (List.filter_sublist.map _)
      source := by
        intro e he
        obtain ⟨n, hn, hid, hversion⟩ := h.source e (List.mem_filter.mp he).1
        exact ⟨n, hend e he n hn hversion, hid, hversion⟩
      target := by
        intro e he
        obtain ⟨n, hn, hid, hversion⟩ := h.target e (List.mem_filter.mp he).1
        exact ⟨n, hend e he n hn hversion, hid, hversion⟩ }

/-- The rows of the edges. -/
def newEdges (v : Nat) (ids : Dict NodeKey Nat) (id : Nat → Nat) (edges : List GraphEdge) :
    List WorkflowEdge :=
  edges.zipIdx.map fun e => writtenEdge v ids (id e.2) e.1

/-- The tables once a version's graph was replaced. -/
def GraphTables.written (t : GraphTables Value) (v : Nat) (nodeIds edgeIds : Nat → Nat)
    (nodes : List (NodeColumns Value)) (edges : List GraphEdge) : GraphTables Value where
  nodes := (t.without v).nodes ++ newNodes v nodeIds nodes
  edges := (t.without v).edges ++ newEdges v (idsByKey (newNodes v nodeIds nodes)) edgeIds edges

theorem newEdges_ids (v : Nat) (ids : Dict NodeKey Nat) (id : Nat → Nat) (edges : List GraphEdge) :
    (newEdges v ids id edges).map WorkflowEdge.id = (List.range edges.length).map id := by
  unfold newEdges
  rw [List.map_map]
  exact zipIdx_map_of_snd id edges

theorem mem_newEdges {ids : Dict NodeKey Nat} {row : WorkflowEdge}
    (h : row ∈ newEdges v ids id edges) : ∃ e ∈ edges, ∃ i, row = writtenEdge v ids i e := by
  obtain ⟨p, hp, rfl⟩ := List.mem_map.mp h
  exact ⟨p.1, List.fst_mem_of_mem_zipIdx hp, id p.2, rfl⟩

theorem newEdges_version {ids : Dict NodeKey Nat} {row : WorkflowEdge}
    (h : row ∈ newEdges v ids id edges) : row.workflowVersionId = v := by
  obtain ⟨e, -, i, rfl⟩ := mem_newEdges h
  rfl

/-- Every key leads to the node written under it. -/
theorem get?_idsByKey (hkeys : (nodes.map NodeColumns.nodeKey).Nodup) {key : NodeKey} {i : Nat} :
    (idsByKey (newNodes v id nodes)).get? key = some i ↔
      ∃ n ∈ newNodes v id nodes, n.nodeKey = key ∧ n.id = i := by
  have hfst : (((newNodes v id nodes).map fun n => (n.nodeKey, n.id)).map Prod.fst).Nodup := by
    rw [List.map_map]
    exact (newNodes_keys v id nodes).symm ▸ hkeys
  unfold idsByKey
  rw [Dict.assign_eq _ hfst]
  constructor
  · intro h
    obtain ⟨n, hn, heq⟩ := List.mem_map.mp (Dict.mem_of_get? _ h)
    exact ⟨n, hn, congrArg Prod.fst heq, congrArg Prod.snd heq⟩
  · intro h
    obtain ⟨n, hn, rfl, rfl⟩ := h
    exact Dict.get?_of_mem _ hfst (List.mem_map.mpr ⟨n, hn, rfl⟩)

theorem mem_keys_iff (v : Nat) (id : Nat → Nat) (hkeys : (nodes.map NodeColumns.nodeKey).Nodup)
    {key : NodeKey} :
    ((idsByKey (newNodes v id nodes)).get? key).isSome = true ↔
      key ∈ nodes.map NodeColumns.nodeKey := by
  rw [Option.isSome_iff_exists, ← newNodes_keys v id nodes, List.mem_map]
  simp only [get?_idsByKey hkeys]
  constructor
  · intro h
    obtain ⟨i, n, hn, hkey, -⟩ := h
    exact ⟨n, hn, hkey⟩
  · intro h
    obtain ⟨n, hn, hkey⟩ := h
    exact ⟨n.id, n, hn, hkey, rfl⟩

/-- The node a written key leads to. -/
theorem exists_idOf (v : Nat) (id : Nat → Nat)
    (hkeys : (nodes.map NodeColumns.nodeKey).Nodup) {key : NodeKey}
    (hkey : key ∈ nodes.map NodeColumns.nodeKey) :
    ∃ n ∈ newNodes v id nodes, n.nodeKey = key ∧
      n.id = idOf (idsByKey (newNodes v id nodes)) key := by
  obtain ⟨i, hi⟩ := Option.isSome_iff_exists.mp ((mem_keys_iff v id hkeys).mpr hkey)
  obtain ⟨n, hn, hnkey, hid⟩ := (get?_idsByKey hkeys).mp hi
  refine ⟨n, hn, hnkey, ?_⟩
  rw [idOf, hi]
  exact hid

/-- Different keys lead to different ids. -/
theorem idOf_inj (hkeys : (nodes.map NodeColumns.nodeKey).Nodup) (hid : Function.Injective id)
    {key key' : NodeKey} (hkey : key ∈ nodes.map NodeColumns.nodeKey)
    (hkey' : key' ∈ nodes.map NodeColumns.nodeKey) :
    idOf (idsByKey (newNodes v id nodes)) key = idOf (idsByKey (newNodes v id nodes)) key' ↔
      key = key' := by
  constructor
  · intro h
    obtain ⟨n, hn, rfl, hnid⟩ := exists_idOf v id hkeys hkey
    obtain ⟨m, hm, rfl, hmid⟩ := exists_idOf v id hkeys hkey'
    have hnodup : ((newNodes v id nodes).map fun n => n.id).Nodup := by
      rw [newNodes_ids]
      exact List.nodup_range.map hid
    rw [List.inj_on_of_nodup_map hnodup hn hm (hnid.trans (h.trans hmid.symm))]
  · intro h
    rw [h]

/-- Where the rows there belong to other versions, only the new ones can repeat an entry. -/
theorem nodup_entries_append {α β : Type} {entry : α → Nat × β} {old new : List α} (v : Nat)
    (hold : (old.map entry).Nodup) (hother : ∀ a ∈ old, (entry a).1 ≠ v)
    (hnew : ∀ a ∈ new, (entry a).1 = v) :
    ((old ++ new).map entry).Nodup ↔ (new.map entry).Nodup := by
  rw [List.map_append, List.nodup_append]
  constructor
  · intro hall
    exact hall.2.1
  · intro hnodup
    refine ⟨hold, hnodup, ?_⟩
    intro x hx y hy hxy
    obtain ⟨a, ha, rfl⟩ := List.mem_map.mp hx
    obtain ⟨b, hb, rfl⟩ := List.mem_map.mp hy
    exact hother a ha ((congrArg Prod.fst hxy).trans (hnew b hb))

/-- The entries of a version's node rows repeat where their keys do. -/
theorem nodup_newNodes_entries :
    ((newNodes v id nodes).map (WorkflowNode.entry c)).Nodup ↔
      (nodes.map fun n => c n.nodeKey).Nodup := by
  have hmap : (newNodes v id nodes).map (WorkflowNode.entry c) =
      nodes.map fun n => (v, c n.nodeKey) := by
    unfold newNodes
    rw [List.map_map]
    exact zipIdx_map_of_fst (fun n : NodeColumns Value => (v, c n.nodeKey)) nodes
  rw [hmap]
  exact nodup_map_congr fun a _ b _ => by simp

/-- The entries of a version's edge rows repeat where their connections do. -/
theorem nodup_newEdges_entries {nodeIds : Nat → Nat} (hid : Function.Injective nodeIds)
    (hkeys : (nodes.map NodeColumns.nodeKey).Nodup)
    (hsource : ∀ e ∈ edges, e.sourceKey ∈ nodes.map NodeColumns.nodeKey)
    (htarget : ∀ e ∈ edges, e.targetKey ∈ nodes.map NodeColumns.nodeKey) :
    ((newEdges v (idsByKey (newNodes v nodeIds nodes)) id edges).map (WorkflowEdge.entry c)).Nodup ↔
      (edges.map (connection c)).Nodup := by
  have hmap : (newEdges v (idsByKey (newNodes v nodeIds nodes)) id edges).map
      (WorkflowEdge.entry c) = edges.map fun e =>
        (writtenEdge v (idsByKey (newNodes v nodeIds nodes)) 0 e).entry c := by
    unfold newEdges
    rw [List.map_map]
    exact zipIdx_map_of_fst (fun e =>
      (writtenEdge v (idsByKey (newNodes v nodeIds nodes)) 0 e).entry c) edges
  rw [hmap]
  refine nodup_map_congr fun a ha b hb => ?_
  simp only [WorkflowEdge.entry, writtenEdge, connection, Prod.mk.injEq, true_and,
    idOf_inj hkeys hid (hsource a ha) (hsource b hb),
    idOf_inj hkeys hid (htarget a ha) (htarget b hb)]

/-- Node rows go in where the database tells their keys apart. -/
theorem insertNodes_eq_ok_iff (h : t.Sound c) (ids : FreshIds (t.nodes.map fun n => n.id)) :
    (t.without v).insertNodes c (newNodes v ids.id nodes) = .ok t' ↔
      (nodes.map fun n => c n.nodeKey).Nodup ∧
        t' = { t.without v with nodes := (t.without v).nodes ++ newNodes v ids.id nodes } := by
  have hprimary : (((t.without v).nodes ++ newNodes v ids.id nodes).map fun n => n.id).Nodup := by
    rw [List.map_append, newNodes_ids]
    exact ids.nodup_append (h.without v).nodeIds (List.filter_sublist.map _).subset _
  have happend : (((t.without v).nodes ++ newNodes v ids.id nodes).map
      (WorkflowNode.entry c)).Nodup ↔ (nodes.map fun n => c n.nodeKey).Nodup := by
    refine (nodup_entries_append v (h.without v).nodeEntries (fun n hn => ?_)
      fun n hn => ?_).trans nodup_newNodes_entries
    · exact of_decide_eq_true (List.mem_filter.mp hn).2
    · exact newNodes_version hn
  unfold GraphTables.insertNodes
  dsimp only
  rw [if_neg (not_not.mpr hprimary)]
  by_cases hkeys : (nodes.map fun n => c n.nodeKey).Nodup
  · rw [if_neg (not_not.mpr (happend.mpr hkeys))]
    simp [hkeys, eq_comm]
  · rw [if_pos fun hc => hkeys (happend.mp hc)]
    simp [hkeys]

/-- Edge rows go in where the database tells their connections apart. -/
theorem insertEdges_eq_ok_iff (h : t.Sound c) {nodeIds : Nat → Nat}
    (ids : FreshIds (t.edges.map WorkflowEdge.id)) (hid : Function.Injective nodeIds)
    (hkeys : (nodes.map NodeColumns.nodeKey).Nodup)
    (hsource : ∀ e ∈ edges, e.sourceKey ∈ nodes.map NodeColumns.nodeKey)
    (htarget : ∀ e ∈ edges, e.targetKey ∈ nodes.map NodeColumns.nodeKey) :
    GraphTables.insertEdges
        { t.without v with nodes := (t.without v).nodes ++ newNodes v nodeIds nodes } c
        (newEdges v (idsByKey (newNodes v nodeIds nodes)) ids.id edges) = .ok t' ↔
      (edges.map (connection c)).Nodup ∧ t' = t.written v nodeIds ids.id nodes edges := by
  have hprimary : (((t.without v).edges ++
      newEdges v (idsByKey (newNodes v nodeIds nodes)) ids.id edges).map
        WorkflowEdge.id).Nodup := by
    rw [List.map_append, newEdges_ids]
    exact ids.nodup_append (h.without v).edgeIds (List.filter_sublist.map _).subset _
  have happend : (((t.without v).edges ++
      newEdges v (idsByKey (newNodes v nodeIds nodes)) ids.id edges).map
        (WorkflowEdge.entry c)).Nodup ↔ (edges.map (connection c)).Nodup := by
    refine (nodup_entries_append v (h.without v).edgeEntries (fun e he => ?_)
      fun e he => ?_).trans (nodup_newEdges_entries hid hkeys hsource htarget)
    · exact of_decide_eq_true (List.mem_filter.mp he).2
    · exact newEdges_version he
  have hthere : ∀ key ∈ nodes.map NodeColumns.nodeKey,
      idOf (idsByKey (newNodes v nodeIds nodes)) key ∈
        ((t.without v).nodes ++ newNodes v nodeIds nodes).map fun n => n.id := by
    intro key hkey
    obtain ⟨n, hn, -, hnid⟩ := exists_idOf v nodeIds hkeys hkey
    exact List.mem_map.mpr ⟨n, List.mem_append_right _ hn, hnid⟩
  have hends : ∀ (key : GraphEdge → NodeKey) (column : WorkflowEdge → Nat),
      (∀ i e, column (writtenEdge v (idsByKey (newNodes v nodeIds nodes)) i e) =
        idOf (idsByKey (newNodes v nodeIds nodes)) (key e)) →
      (∀ e ∈ edges, key e ∈ nodes.map NodeColumns.nodeKey) →
      ¬ ∃ row ∈ newEdges v (idsByKey (newNodes v nodeIds nodes)) ids.id edges,
        column row ∉ ((t.without v).nodes ++ newNodes v nodeIds nodes).map fun n => n.id := by
    intro key column hcolumn hkey hc
    obtain ⟨row, hrow, hmissing⟩ := hc
    obtain ⟨e, he, i, rfl⟩ := mem_newEdges hrow
    exact hmissing (hcolumn i e ▸ hthere _ (hkey e he))
  unfold GraphTables.insertEdges
  dsimp only
  rw [if_neg (not_not.mpr hprimary)]
  by_cases hconnections : (edges.map (connection c)).Nodup
  · rw [if_neg (not_not.mpr (happend.mpr hconnections)),
      if_neg (hends _ _ (fun _ _ => rfl) hsource), if_neg (hends _ _ (fun _ _ => rfl) htarget)]
    simp [hconnections, GraphTables.written, eq_comm]
  · rw [if_pos fun hc => hconnections (happend.mp hc)]
    simp [hconnections]

theorem Writable.keys_nodup (h : Writable c nodes edges) :
    (nodes.map NodeColumns.nodeKey).Nodup := by
  refine List.Nodup.of_map c ?_
  rw [List.map_map]
  exact h.keys

theorem Writable.edges_nodup (h : Writable c nodes edges) : edges.Nodup :=
  List.Nodup.of_map _ h.connections

/-- **What is written, and when**: a graph the database finds no repetition in. -/
theorem replaceGraph_eq_ok_iff (h : t.Sound c) (nodeIds : FreshIds (t.nodes.map fun n => n.id))
    (edgeIds : FreshIds (t.edges.map WorkflowEdge.id)) :
    t.replaceGraph c v nodeIds.id edgeIds.id nodes edges = .ok t' ↔
      Writable c nodes edges ∧ t' = t.written v nodeIds.id edgeIds.id nodes edges := by
  have hresolve : ∀ (ids : Dict NodeKey Nat) (rows : List WorkflowEdge),
      edges.zipIdx.mapM (fun e => newEdge v ids (edgeIds.id e.2) e.1) = .ok rows ↔
        (∀ e ∈ edges.zipIdx, (ids.get? e.1.sourceKey).isSome = true ∧
          (ids.get? e.1.targetKey).isSome = true) ∧ rows = newEdges v ids edgeIds.id edges :=
    fun ids rows => mapM_eq_ok_iff fun e row => newEdge_eq_ok_iff
  unfold GraphTables.replaceGraph
  dsimp only
  rw [h.deleteNodes_deleteEdges v]
  constructor
  · intro hrun
    obtain ⟨mid, hnodes, hrun⟩ := except_bind_eq_ok_iff.mp hrun
    obtain ⟨rows, hrows, hedges⟩ := except_bind_eq_ok_iff.mp hrun
    obtain ⟨hck, rfl⟩ := (insertNodes_eq_ok_iff h nodeIds).mp hnodes
    obtain ⟨hends, rfl⟩ := (hresolve _ _).mp hrows
    have hkeys : (nodes.map NodeColumns.nodeKey).Nodup :=
      List.Nodup.of_map c (by rw [List.map_map]; exact hck)
    have hends' : ∀ e ∈ edges, e.sourceKey ∈ nodes.map NodeColumns.nodeKey ∧
        e.targetKey ∈ nodes.map NodeColumns.nodeKey := by
      intro e he
      rw [← List.zipIdx_map_fst 0 edges] at he
      obtain ⟨p, hp, rfl⟩ := List.mem_map.mp he
      obtain ⟨hs, ht⟩ := hends p hp
      exact ⟨(mem_keys_iff _ _ hkeys).mp hs, (mem_keys_iff _ _ hkeys).mp ht⟩
    obtain ⟨hconnections, rfl⟩ := (insertEdges_eq_ok_iff h edgeIds nodeIds.ascending.injective hkeys
      (fun e he => (hends' e he).1) fun e he => (hends' e he).2).mp hedges
    exact ⟨⟨hck, fun e he => (hends' e he).1, fun e he => (hends' e he).2, hconnections⟩, rfl⟩
  · intro hboth
    obtain ⟨hw, rfl⟩ := hboth
    have hkeys := hw.keys_nodup
    refine except_bind_eq_ok_iff.mpr ⟨_, (insertNodes_eq_ok_iff h nodeIds).mpr ⟨hw.keys, rfl⟩, ?_⟩
    refine except_bind_eq_ok_iff.mpr ⟨_, (hresolve _ _).mpr ⟨?_, rfl⟩, ?_⟩
    · intro e he
      have hmem := List.fst_mem_of_mem_zipIdx he
      exact ⟨(mem_keys_iff _ _ hkeys).mpr (hw.source _ hmem),
        (mem_keys_iff _ _ hkeys).mpr (hw.target _ hmem)⟩
    · exact (insertEdges_eq_ok_iff h edgeIds nodeIds.ascending.injective hkeys hw.source
        hw.target).mpr ⟨hw.connections, rfl⟩

end Save

end Orqent
