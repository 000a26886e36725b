/-
Saving a graph and loading it is the identity.

A save gives the nodes of a version ascending ids, so reading them by id reads them in the
order they were written, and the join leads every edge back to the keys it was written
with.  Other versions keep their rows, and their edges keep the nodes they refer to.

What is stored of a version can be written again (`stored_writable`): every stored graph
loads, and the copy a new draft starts from is never refused.
-/
import Orqent.Versions.GraphStore
import Orqent.Versions.Tables

namespace Orqent

variable {Value : Type} {c : Collation} {t t' : GraphTables Value} {v w : Nat}
  {nodes : List (NodeColumns Value)} {edges : List GraphEdge}

/-! ### What is kept -/

theorem insertNodes_checks {rows : List (WorkflowNode Value)}
    (h : t.insertNodes c rows = .ok t') :
    (t'.nodes.map fun n => n.id).Nodup ∧ (t'.nodes.map (WorkflowNode.entry c)).Nodup := by
  unfold GraphTables.insertNodes at h
  dsimp only at h
  split at h
  · simp at h
  · rename_i hprimary
    split at h
    · simp at h
    · rename_i hentries
      rw [← Except.ok.inj h]
      exact ⟨not_not.mp hprimary, not_not.mp hentries⟩

theorem insertEdges_checks {rows : List WorkflowEdge} (h : t.insertEdges c rows = .ok t') :
    t'.nodes = t.nodes ∧ (t'.edges.map WorkflowEdge.id).Nodup ∧
      (t'.edges.map (WorkflowEdge.entry c)).Nodup := by
  unfold GraphTables.insertEdges at h
  dsimp only at h
  split at h
  · simp at h
  · rename_i hprimary
    split at h
    · simp at h
    · rename_i hentries
      split at h
      · simp at h
      · split at h
        · simp at h
        · rw [← Except.ok.inj h]
          exact ⟨rfl, not_not.mp hprimary, not_not.mp hentries⟩

/-- **A save keeps the tables sound.** -/
theorem sound_replaceGraph (h : t.Sound c) (nodeIds : FreshIds (t.nodes.map fun n => n.id))
    (edgeIds : FreshIds (t.edges.map WorkflowEdge.id))
    (hsave : t.replaceGraph c v nodeIds.id edgeIds.id nodes edges = .ok t') : t'.Sound c := by
  obtain ⟨hw, rfl⟩ := (replaceGraph_eq_ok_iff h nodeIds edgeIds).mp hsave
  obtain ⟨mid, hnodes, hrun⟩ := except_bind_eq_ok_iff.mp hsave
  obtain ⟨rows, -, hedges⟩ := except_bind_eq_ok_iff.mp hrun
  obtain ⟨hnodeIds, hnodeEntries⟩ := insertNodes_checks hnodes
  obtain ⟨hsame, hedgeIds, hedgeEntries⟩ := insertEdges_checks hedges
  have hend : ∀ e ∈ edges, ∀ key ∈ nodes.map NodeColumns.nodeKey, ∀ i,
      ∃ n ∈ (t.written v nodeIds.id edgeIds.id nodes edges).nodes,
        n.id = idOf (idsByKey (newNodes v nodeIds.id nodes)) key ∧ n.workflowVersionId =
          (writtenEdge v (idsByKey (newNodes v nodeIds.id nodes)) i e).workflowVersionId := by
    intro e _ key hkey i
    obtain ⟨n, hn, -, hid⟩ := exists_idOf v nodeIds.id hw.keys_nodup hkey
    exact ⟨n, List.mem_append_right _ hn, hid, newNodes_version hn⟩
  exact
    { nodeIds := hsame ▸ hnodeIds
      edgeIds := hedgeIds
      nodeEntries := hsame ▸ hnodeEntries
      edgeEntries := hedgeEntries
      source := by
        intro row hrow
        rcases List.mem_append.mp hrow with hkept | hnew
        · obtain ⟨n, hn, hid, hversion⟩ := (h.without v).source row hkept
          exact ⟨n, List.mem_append_left _ hn, hid, hversion⟩
        · obtain ⟨e, he, i, rfl⟩ := mem_newEdges hnew
          exact hend e he _ (hw.source e he) i
      target := by
        intro row hrow
        rcases List.mem_append.mp hrow with hkept | hnew
        · obtain ⟨n, hn, hid, hversion⟩ := (h.without v).target row hkept
          exact ⟨n, List.mem_append_left _ hn, hid, hversion⟩
        · obtain ⟨e, he, i, rfl⟩ := mem_newEdges hnew
          exact hend e he _ (hw.target e he) i }

/-! ### What is read -/

/-- A foreign key names the row of that id. -/
theorem nodeById_eq_some_iff (hids : (t.nodes.map fun n => n.id).Nodup) {i : Nat}
    {n : WorkflowNode Value} : t.nodeById i = some n ↔ n ∈ t.nodes ∧ n.id = i := by
  constructor
  · intro h
    exact ⟨List.mem_of_find?_eq_some h, by simpa using List.find?_some h⟩
  · intro h
    obtain ⟨hn, rfl⟩ := h
    obtain ⟨m, hm⟩ : ∃ m, t.nodeById n.id = some m := by
      rw [← Option.isSome_iff_exists, GraphTables.nodeById, List.find?_isSome]
      exact ⟨n, hn, by simp⟩
    have hid : m.id = n.id := by simpa using List.find?_some hm
    rw [hm, List.inj_on_of_nodup_map hids (List.mem_of_find?_eq_some hm) hn hid]

theorem mem_listNodes {n : WorkflowNode Value} :
    n ∈ t.listNodes v ↔ n ∈ t.nodes ∧ n.workflowVersionId = v := by
  simp [GraphTables.listNodes]

theorem mem_listEdges {e : WorkflowEdge} :
    e ∈ t.listEdges v ↔ e ∈ t.edges ∧ e.workflowVersionId = v := by
  simp [GraphTables.listEdges]

/-- The two nodes of a stored edge, which are of its version. -/
theorem GraphTables.Sound.ends (h : t.Sound c) {e : WorkflowEdge} (he : e ∈ t.listEdges v) :
    ∃ source ∈ t.listNodes v, ∃ target ∈ t.listNodes v,
      source.id = e.sourceNodeId ∧ target.id = e.targetNodeId ∧
        t.join e = some ⟨source.nodeKey, e.sourceHandle, target.nodeKey, e.targetHandle⟩ := by
  obtain ⟨hmem, rfl⟩ := mem_listEdges.mp he
  obtain ⟨source, hs, hsid, hsv⟩ := h.source e hmem
  obtain ⟨target, ht, htid, htv⟩ := h.target e hmem
  refine ⟨source, mem_listNodes.mpr ⟨hs, hsv⟩, target, mem_listNodes.mpr ⟨ht, htv⟩, hsid, htid, ?_⟩
  unfold GraphTables.join
  rw [(nodeById_eq_some_iff h.nodeIds).mpr ⟨hs, hsid⟩,
    (nodeById_eq_some_iff h.nodeIds).mpr ⟨ht, htid⟩]

/-- Some of the rows in another order have no more repetitions than the rows. -/
theorem nodup_map_sorted {α β : Type} {rows : List α} {f : α → β} (h : (rows.map f).Nodup)
    (p : α → Bool) (r : α → α → Prop) [DecidableRel r] :
    (((rows.filter p).insertionSort r).map f).Nodup :=
  ((List.perm_insertionSort r _).map f).nodup_iff.mpr (h.sublist (List.filter_sublist.map f))

theorem nodup_map_listNodes {β : Type} {f : WorkflowNode Value → β} (h : (t.nodes.map f).Nodup) :
    ((t.listNodes v).map f).Nodup :=
  nodup_map_sorted h _ _

theorem nodup_map_listEdges {β : Type} {f : WorkflowEdge → β} (h : (t.edges.map f).Nodup) :
    ((t.listEdges v).map f).Nodup :=
  nodup_map_sorted h _ _

/-- In one version a key, as the database compares it, tells the node. -/
theorem node_of_key (h : t.Sound c) {m n : WorkflowNode Value} (hm : m ∈ t.listNodes v)
    (hn : n ∈ t.listNodes v) (hkey : c m.nodeKey = c n.nodeKey) : m = n := by
  obtain ⟨hm, hmv⟩ := mem_listNodes.mp hm
  obtain ⟨hn, hnv⟩ := mem_listNodes.mp hn
  have hentry : m.entry c = n.entry c := by
    simp [WorkflowNode.entry, hkey, hmv, hnv]
  exact List.inj_on_of_nodup_map h.nodeEntries hm hn hentry

/-- **What is stored of a version can be written again.** -/
theorem stored_writable (h : t.Sound c) (v : Nat) :
    Writable c ((t.listNodes v).map WorkflowNode.toNodeColumns)
      ((t.listEdges v).filterMap t.join) := by
  have hkey : ∀ n ∈ t.listNodes v,
      n.nodeKey ∈ ((t.listNodes v).map WorkflowNode.toNodeColumns).map NodeColumns.nodeKey := by
    intro n hn
    rw [List.map_map]
    exact List.mem_map.mpr ⟨n, hn, rfl⟩
  have hjoined : ∀ e ∈ (t.listEdges v).filterMap t.join, ∃ source ∈ t.listNodes v,
      ∃ target ∈ t.listNodes v, e.sourceKey = source.nodeKey ∧ e.targetKey = target.nodeKey := by
    intro e he
    obtain ⟨row, hrow, hjoin⟩ := List.mem_filterMap.mp he
    obtain ⟨source, hs, target, ht, -, -, heq⟩ := h.ends hrow
    obtain rfl := Option.some.inj (hjoin.symm.trans heq)
    exact ⟨source, hs, target, ht, rfl, rfl⟩
  refine ⟨?_, ?_, ?_, ?_⟩
  · rw [List.map_map]
    have hentries := nodup_map_listNodes (v := v) h.nodeEntries
    refine (nodup_map_congr fun m hm n hn => ?_).mp hentries
    have hmv := (mem_listNodes.mp hm).2
    have hnv := (mem_listNodes.mp hn).2
    simp [WorkflowNode.entry, hmv, hnv]
  · intro e he
    obtain ⟨source, hs, -, -, hsource, -⟩ := hjoined e he
    rw [hsource]
    exact hkey source hs
  · intro e he
    obtain ⟨-, -, target, ht, -, htarget⟩ := hjoined e he
    rw [htarget]
    exact hkey target ht
  · have hentries : (t.listEdges v).Pairwise fun a b => a.entry c ≠ b.entry c :=
      List.pairwise_map.mp (nodup_map_listEdges (v := v) h.edgeEntries)
    unfold List.Nodup
    rw [List.pairwise_map, List.pairwise_filterMap]
    refine hentries.imp_of_mem fun {a b} ha hb hne e hae f hbf hsame => hne ?_
    -- the connection gives back the keys, hence the ids the rows hold
    obtain ⟨source, hs, target, ht, hsid, htid, heq⟩ := h.ends ha
    obtain rfl := Option.some.inj (hae.symm.trans heq)
    obtain ⟨source', hs', target', ht', hsid', htid', heq'⟩ := h.ends hb
    obtain rfl := Option.some.inj (hbf.symm.trans heq')
    simp only [connection, Prod.mk.injEq] at hsame
    obtain ⟨hskey, hsh, htkey, hth⟩ := hsame
    have hsource := node_of_key h hs hs' (congrArg c hskey)
    have htarget := node_of_key h ht ht' (congrArg c htkey)
    have hav := (mem_listEdges.mp ha).2
    have hbv := (mem_listEdges.mp hb).2
    simp [WorkflowEdge.entry, hav, hbv, ← hsid, ← hsid', ← htid, ← htid', hsource, htarget, hsh,
      hth]

/-- The graph of what can be written. -/
def Writable.graph (h : Writable c nodes edges) : WorkflowGraph Value where
  nodes := nodes.map NodeColumns.toGraphNode
  edges := edges
  keys_nodup := by
    rw [List.map_map]
    exact h.keys_nodup
  source_mem := by
    intro e he
    rw [List.map_map]
    exact h.source e he
  target_mem := by
    intro e he
    rw [List.map_map]
    exact h.target e he
  edges_nodup := h.edges_nodup

theorem Writable.construct (h : Writable c nodes edges) :
    WorkflowGraph.construct (nodes.map NodeColumns.toGraphNode) edges = .ok h.graph := by
  refine WorkflowGraph.construct_eq_ok_iff.mpr ⟨?_, rfl, rfl⟩
  intro n hn
  obtain ⟨columns, -, rfl⟩ := List.mem_map.mp hn
  exact columns.key_ok

/-- **Every stored graph loads.** -/
theorem loadGraph_sound (h : t.Sound c) (v : Nat) :
    t.loadGraph v = .ok (stored_writable h v).graph := by
  rw [← (stored_writable h v).construct, List.map_map]
  rfl

/-! ### Reading what was written -/

section Written

variable {nodeIds : FreshIds (t.nodes.map fun n => n.id)}
  {edgeIds : FreshIds (t.edges.map WorkflowEdge.id)}

theorem ascending_range {used : List Nat} (ids : FreshIds used) (n : Nat) :
    ((List.range n).map ids.id).Pairwise (· < ·) := by
  rw [List.pairwise_map]
  exact List.pairwise_lt_range.imp fun hlt => ids.ascending hlt

/-- Replacing a version's rows leaves it the new ones. -/
theorem filter_replaced {α : Type} {version : α → Nat} {old new : List α}
    (hnew : ∀ a ∈ new, version a = v) :
    ((old.filter fun a => version a ≠ v) ++ new).filter (fun a => version a = v) = new := by
  have hnone : (old.filter fun a => version a ≠ v).filter (fun a => version a = v) = [] := by
    simp
  have hall : new.filter (fun a => version a = v) = new := by
    rw [List.filter_eq_self]
    intro a ha
    simpa using hnew a ha
  rw [List.filter_append, hnone, hall, List.nil_append]

/-- It leaves another version's rows as they were. -/
theorem filter_replaced_ne {α : Type} {version : α → Nat} {old new : List α}
    (hnew : ∀ a ∈ new, version a = v) (hw : w ≠ v) :
    ((old.filter fun a => version a ≠ v) ++ new).filter (fun a => version a = w) =
      old.filter fun a => version a = w := by
  have hkept : (old.filter fun a => version a ≠ v).filter (fun a => version a = w) =
      old.filter fun a => version a = w := by
    rw [List.filter_filter]
    refine List.filter_congr fun a _ => ?_
    by_cases ha : version a = w <;> simp [ha, hw]
  have hnone : new.filter (fun a => version a = w) = [] := by
    rw [List.filter_eq_nil_iff]
    intro a ha
    rw [hnew a ha]
    simpa using hw.symm
  rw [List.filter_append, hkept, hnone, List.append_nil]

/-- The nodes of the version are those that were written, in order. -/
theorem listNodes_written :
    (t.written v nodeIds.id edgeIds.id nodes edges).listNodes v = newNodes v nodeIds.id nodes := by
  unfold GraphTables.listNodes GraphTables.written GraphTables.without
  dsimp only
  rw [filter_replaced fun n hn => newNodes_version hn]
  refine insertionSort_of_ascending (fun n : WorkflowNode Value => n.id) ?_
  rw [newNodes_ids]
  exact ascending_range nodeIds _

theorem listEdges_written :
    (t.written v nodeIds.id edgeIds.id nodes edges).listEdges v =
      newEdges v (idsByKey (newNodes v nodeIds.id nodes)) edgeIds.id edges := by
  unfold GraphTables.listEdges GraphTables.written GraphTables.without
  dsimp only
  rw [filter_replaced fun e he => newEdges_version he]
  refine insertionSort_of_ascending WorkflowEdge.id ?_
  rw [newEdges_ids]
  exact ascending_range edgeIds _

/-- The nodes of another version are those it had. -/
theorem listNodes_written_ne (hw : w ≠ v) :
    (t.written v nodeIds.id edgeIds.id nodes edges).listNodes w = t.listNodes w := by
  unfold GraphTables.listNodes GraphTables.written GraphTables.without
  dsimp only
  rw [filter_replaced_ne (fun n hn => newNodes_version hn) hw]

theorem listEdges_written_ne (hw : w ≠ v) :
    (t.written v nodeIds.id edgeIds.id nodes edges).listEdges w = t.listEdges w := by
  unfold GraphTables.listEdges GraphTables.written GraphTables.without
  dsimp only
  rw [filter_replaced_ne (fun e he => newEdges_version he) hw]

/-- The edges of the version, joined back to their keys, are those that were written. -/
theorem joined_written (hw : Writable c nodes edges)
    (hsound : (t.written v nodeIds.id edgeIds.id nodes edges).Sound c) :
    ((t.written v nodeIds.id edgeIds.id nodes edges).listEdges v).filterMap
      (t.written v nodeIds.id edgeIds.id nodes edges).join = edges := by
  have hjoin : ∀ e ∈ edges, ∀ i, (t.written v nodeIds.id edgeIds.id nodes edges).join
      (writtenEdge v (idsByKey (newNodes v nodeIds.id nodes)) i e) = some e := by
    intro e he i
    obtain ⟨source, hs, hskey, hsid⟩ :=
      exists_idOf v nodeIds.id hw.keys_nodup (hw.source e he)
    obtain ⟨target, ht, htkey, htid⟩ :=
      exists_idOf v nodeIds.id hw.keys_nodup (hw.target e he)
    unfold GraphTables.join writtenEdge
    dsimp only
    rw [(nodeById_eq_some_iff hsound.nodeIds).mpr ⟨List.mem_append_right _ hs, hsid⟩,
      (nodeById_eq_some_iff hsound.nodeIds).mpr ⟨List.mem_append_right _ ht, htid⟩]
    simp [hskey, htkey]
  rw [listEdges_written, newEdges, List.filterMap_map]
  have hsome : ∀ p ∈ edges.zipIdx,
      ((t.written v nodeIds.id edgeIds.id nodes edges).join ∘ fun e : GraphEdge × Nat =>
        writtenEdge v (idsByKey (newNodes v nodeIds.id nodes)) (edgeIds.id e.2) e.1) p
        = (some ∘ Prod.fst) p :=
    fun p hp => hjoin p.1 (List.fst_mem_of_mem_zipIdx hp) _
  rw [List.filterMap_congr hsome, List.filterMap_eq_map, List.zipIdx_map_fst]

/-- **What was written is what is loaded.** -/
theorem loadGraph_written (hw : Writable c nodes edges)
    (hsound : (t.written v nodeIds.id edgeIds.id nodes edges).Sound c) :
    (t.written v nodeIds.id edgeIds.id nodes edges).loadGraph v = .ok hw.graph := by
  have hnodes : ((t.written v nodeIds.id edgeIds.id nodes edges).listNodes v).map
      (fun n => n.toGraphNode) = nodes.map NodeColumns.toGraphNode := by
    rw [listNodes_written]
    conv_rhs => rw [← newNodes_columns v nodeIds.id nodes, List.map_map]
    rfl
  rw [GraphTables.loadGraph, hnodes, joined_written hw hsound]
  exact hw.construct

/-- **Another version loads as before.** -/
theorem loadGraph_written_ne (h : t.Sound c)
    (hsound : (t.written v nodeIds.id edgeIds.id nodes edges).Sound c) (hw : w ≠ v) :
    (t.written v nodeIds.id edgeIds.id nodes edges).loadGraph w = t.loadGraph w := by
  have hjoin : ∀ e ∈ t.listEdges w,
      (t.written v nodeIds.id edgeIds.id nodes edges).join e = t.join e := by
    intro e he
    obtain ⟨source, hs, target, ht, hsid, htid, heq⟩ := h.ends he
    have he' : e ∈ (t.written v nodeIds.id edgeIds.id nodes edges).listEdges w :=
      (listEdges_written_ne hw).symm ▸ he
    obtain ⟨source', hs', target', ht', hsid', htid', heq'⟩ := hsound.ends he'
    rw [listNodes_written_ne hw] at hs' ht'
    have hids := nodup_map_listNodes (v := w) h.nodeIds
    have hsource : source' = source := List.inj_on_of_nodup_map hids hs' hs (hsid'.trans hsid.symm)
    have htarget : target' = target := List.inj_on_of_nodup_map hids ht' ht (htid'.trans htid.symm)
    rw [heq, heq', hsource, htarget]
  unfold GraphTables.loadGraph
  rw [listNodes_written_ne hw, listEdges_written_ne hw, List.filterMap_congr hjoin]

end Written

/-! ### The store -/

/-- What a caller asks to be written: a graph with its canvas positions. -/
structure Canvas (c : Collation) (Value : Type) where
  nodes : List (NodeColumns Value)
  edges : List GraphEdge
  writable : Writable c nodes edges

/-- Its graph. -/
def Canvas.graph (g : Canvas c Value) : WorkflowGraph Value := g.writable.graph

namespace GraphStore

/-- The tables before anything was saved. -/
def empty : GraphStore c Value where
  nodes := []
  edges := []
  sound :=
    { nodeIds := List.nodup_nil
      edgeIds := List.nodup_nil
      nodeEntries := List.nodup_nil
      edgeEntries := List.nodup_nil
      source := by simp
      target := by simp }

/-- Ids for new node rows. -/
abbrev NodeIds (s : GraphStore c Value) := FreshIds (s.nodes.map fun n => n.id)

/-- Ids for new edge rows. -/
abbrev EdgeIds (s : GraphStore c Value) := FreshIds (s.edges.map WorkflowEdge.id)

/-- Replace a version's graph; the tables stay sound. -/
def replaceGraph (s : GraphStore c Value) (version : Nat) (nodeIds : s.NodeIds)
    (edgeIds : s.EdgeIds) (nodes : List (NodeColumns Value)) (edges : List GraphEdge) :
    Except SaveError (GraphStore c Value) :=
  match h : s.toGraphTables.replaceGraph c version nodeIds.id edgeIds.id nodes edges with
  | .error e => .error e
  | .ok t => .ok ⟨t, sound_replaceGraph s.sound nodeIds edgeIds h⟩

/-- **A save is refused only where the database finds a repetition, and then it loads.** -/
theorem replaceGraph_writable (s : GraphStore c Value) (v : Nat) (nodeIds : s.NodeIds)
    (edgeIds : s.EdgeIds) (hw : Writable c nodes edges) :
    ∃ s' : GraphStore c Value, s.replaceGraph v nodeIds edgeIds nodes edges = .ok s' ∧
      s'.loadGraph v = .ok hw.graph ∧
      (s'.listNodes v).map WorkflowNode.toNodeColumns = nodes ∧
      ∀ w, w ≠ v → s'.loadGraph w = s.loadGraph w ∧ s'.listNodes w = s.listNodes w := by
  have hsave : s.toGraphTables.replaceGraph c v nodeIds.id edgeIds.id nodes edges =
      .ok (s.written v nodeIds.id edgeIds.id nodes edges) :=
    (replaceGraph_eq_ok_iff s.sound nodeIds edgeIds).mpr ⟨hw, rfl⟩
  have hsound := sound_replaceGraph s.sound nodeIds edgeIds hsave
  refine ⟨⟨_, hsound⟩, ?_, loadGraph_written hw hsound, ?_, ?_⟩
  · unfold replaceGraph
    split
    · simp_all
    · rename_i t' ht'
      obtain rfl := Except.ok.inj (hsave.symm.trans ht')
      rfl
  · show ((s.written v nodeIds.id edgeIds.id nodes edges).listNodes v).map _ = nodes
    rw [listNodes_written, newNodes_columns]
  · intro w hne
    exact ⟨loadGraph_written_ne s.sound hsound hne, listNodes_written_ne hne⟩

/-- **What the database accepts** is what can be written. -/
theorem exists_replaceGraph_iff (s : GraphStore c Value) {nodeIds : s.NodeIds}
    {edgeIds : s.EdgeIds} :
    (∃ s', s.replaceGraph v nodeIds edgeIds nodes edges = .ok s') ↔ Writable c nodes edges := by
  constructor
  · intro h
    obtain ⟨s', hs'⟩ := h
    unfold replaceGraph at hs'
    split at hs'
    · simp at hs'
    · rename_i t' ht'
      exact ((replaceGraph_eq_ok_iff s.sound nodeIds edgeIds).mp ht').1
  · intro hw
    obtain ⟨s', hs', -⟩ := s.replaceGraph_writable v nodeIds edgeIds hw
    exact ⟨s', hs'⟩

end GraphStore

end Orqent
