/-
What publishing a graph establishes about its shape.

A graph on which validation reports no error has no cycle, at least one node, and
declared handles at the ends of every edge; where no input handle of the registry
takes many connections, no two edges arrive at one input.  Those are the
preconditions of the scheduler.
-/
import Orqent.Graph.Validation
import Orqent.Graph.Cycles

namespace Orqent

variable {Value : Type} {g : WorkflowGraph Value} {registry : NodeRegistry Value}

/-! ### The report -/

/-- A valid report has no error from any stage. -/
theorem not_error_of_valid (h : (validateGraph g registry).isValid = true) {i : ValidationIssue}
    (hi : i ∈ (resolve g registry).2 ++ validateConfig g (resolve g registry).1 ++
      validateHandles g (resolve g registry).1 ++ validateStructure g (resolve g registry).1) :
    i.isError = false := by
  have hnone : (validateGraph g registry).issues.any (·.isError) = false := by
    simpa [ValidationReport.isValid] using h
  refine Bool.eq_false_iff.mpr fun hc => ?_
  have hmem : i ∈ (validateGraph g registry).issues := by
    unfold validateGraph
    exact (List.mem_insertionSort _).mpr hi
  have : (validateGraph g registry).issues.any (·.isError) = true :=
    List.any_eq_true.mpr ⟨i, hmem, hc⟩
  rw [hnone] at this
  exact nomatch this

theorem not_error_of_resolve (h : (validateGraph g registry).isValid = true) {i : ValidationIssue}
    (hi : i ∈ (resolve g registry).2) : i.isError = false :=
  not_error_of_valid h (by simp [hi])

theorem not_error_of_handles (h : (validateGraph g registry).isValid = true) {i : ValidationIssue}
    (hi : i ∈ validateHandles g (resolve g registry).1) : i.isError = false :=
  not_error_of_valid h (by simp [hi])

theorem not_error_of_structure (h : (validateGraph g registry).isValid = true) {i : ValidationIssue}
    (hi : i ∈ validateStructure g (resolve g registry).1) : i.isError = false :=
  not_error_of_valid h (by simp [hi])

/-! ### Resolution -/

/-- The descriptors of nodes with distinct keys, and the issues, node by node. -/
theorem foldl_resolveNode (registry : NodeRegistry Value) (nodes : List (GraphNode Value))
    (hnodup : (nodes.map GraphNode.key).Nodup) (acc : Descriptors Value × List ValidationIssue) :
    (∀ i ∈ acc.2, i ∈ (nodes.foldl (resolveNode registry) acc).2) ∧
      (∀ k, k ∉ nodes.map GraphNode.key →
        (nodes.foldl (resolveNode registry) acc).1.get? k = acc.1.get? k) ∧
      ∀ n ∈ nodes, (registry.find n.nodeType n.version = none →
          ∃ i ∈ (nodes.foldl (resolveNode registry) acc).2, i.isError = true) ∧
        ∀ d, registry.find n.nodeType n.version = some d →
          (nodes.foldl (resolveNode registry) acc).1.get? n.key = some d := by
  induction nodes generalizing acc with
  | nil => exact ⟨fun _ hi => hi, fun _ _ => rfl, fun n hn => nomatch hn⟩
  | cons node rest ih =>
      rw [List.map_cons, List.nodup_cons] at hnodup
      obtain ⟨hkeep, hother, hrest⟩ := ih hnodup.2 (resolveNode registry acc node)
      rw [List.foldl_cons]
      have hissues : ∀ i ∈ acc.2, i ∈ (resolveNode registry acc node).2 := by
        intro i hi
        unfold resolveNode
        split
        · exact List.mem_append_left _ hi
        · dsimp only
          split
          · exact List.mem_append_left _ hi
          · exact hi
      refine ⟨fun i hi => hkeep i (hissues i hi), fun k hk => ?_, fun n hn => ?_⟩
      · rw [List.map_cons, List.mem_cons, not_or] at hk
        rw [hother k hk.2, resolveNode]
        split
        · rfl
        · exact (Dict.get?_set ..).trans (if_neg fun hc => hk.1 hc.symm)
      · rcases List.mem_cons.mp hn with rfl | hn
        · refine ⟨fun hnone => ?_, fun d hd => ?_⟩
          · have hissue : ∃ i ∈ (resolveNode registry acc n).2, i.isError = true := by
              unfold resolveNode
              rw [hnone]
              exact ⟨_, List.mem_append_right _ List.mem_cons_self, rfl⟩
            obtain ⟨i, hi, herr⟩ := hissue
            exact ⟨i, hkeep i hi, herr⟩
          · rw [hother n.key hnodup.1, resolveNode, hd]
            exact (Dict.get?_set ..).trans (if_pos rfl)
        · exact hrest n hn

/-- On a valid graph every node resolves, to what the registry declares. -/
theorem descriptor_of_valid (h : (validateGraph g registry).isValid = true) {n : GraphNode Value}
    (hn : n ∈ g.nodes) : ∃ d, registry.find n.nodeType n.version = some d ∧
      (resolve g registry).1.get? n.key = some d := by
  obtain ⟨-, -, hnodes⟩ := foldl_resolveNode registry g.nodes g.keys_nodup ([], [])
  obtain ⟨hnone, hsome⟩ := hnodes n hn
  cases hfind : registry.find n.nodeType n.version with
  | none =>
      obtain ⟨i, hi, herr⟩ := hnone hfind
      rw [not_error_of_resolve h hi] at herr
      exact nomatch herr
  | some d => exact ⟨d, rfl, hsome d hfind⟩

/-- On a valid graph every node's type accepts its configuration. -/
theorem config_of_valid (h : (validateGraph g registry).isValid = true) {n : GraphNode Value}
    (hn : n ∈ g.nodes) {d : NodeDescriptor Value}
    (hfind : registry.find n.nodeType n.version = some d) : d.configModel.errors n.config = [] := by
  obtain ⟨d', hfind', hget⟩ := descriptor_of_valid h hn
  obtain rfl : d = d' := Option.some.inj (hfind.symm.trans hfind')
  rw [List.eq_nil_iff_forall_not_mem]
  intro detail hdetail
  have hissue : ∃ i ∈ translate n.key (d.configModel.errors n.config), i.isError = true :=
    ⟨_, List.mem_map_of_mem hdetail, rfl⟩
  obtain ⟨i, hi, herr⟩ := hissue
  have hmem : i ∈ validateConfig g (resolve g registry).1 := by
    refine List.mem_flatMap.mpr ⟨n, hn, ?_⟩
    rw [hget]
    exact hi
  rw [not_error_of_valid h (by simp [hmem])] at herr
  simp at herr

/-! ### Edges -/

theorem exists_node_of_mem {key : NodeKey} (h : key ∈ g.nodeKeys) : ∃ n ∈ g.nodes, n.key = key :=
  List.mem_map.mp h

/-- On a valid graph an edge arrives at a handle its target declares. -/
theorem input_of_valid (h : (validateGraph g registry).isValid = true) {e : GraphEdge}
    (he : e ∈ g.edges) : ∃ n ∈ g.nodes, n.key = e.targetKey ∧
      ∃ d, registry.find n.nodeType n.version = some d ∧
        (resolve g registry).1.get? e.targetKey = some d ∧
          ∃ i, d.input e.targetHandle = some i := by
  obtain ⟨n, hn, hkey⟩ := exists_node_of_mem (g.target_mem e he)
  obtain ⟨d, hfind, hget⟩ := descriptor_of_valid h hn
  rw [hkey] at hget
  refine ⟨n, hn, hkey, d, hfind, hget, ?_⟩
  refine Option.isSome_iff_exists.mp ?_
  by_contra hnone
  rw [Option.not_isSome_iff_eq_none] at hnone
  have hissue : ∃ i ∈ checkEdge (resolve g registry).1 e, i.isError = true := by
    simp only [checkEdge, hget, Option.bind_some, hnone]
    refine ⟨_, List.mem_append_left _ (List.mem_append_right _ List.mem_cons_self), rfl⟩
  obtain ⟨i, hi, herr⟩ := hissue
  have hmem : i ∈ validateHandles g (resolve g registry).1 :=
    List.mem_append_left _ (List.mem_flatMap.mpr ⟨e, he, hi⟩)
  rw [not_error_of_handles h hmem] at herr
  simp at herr

/-- A registry none of whose input handles takes many connections. -/
def NodeRegistry.SingleInputs (registry : NodeRegistry Value) : Prop :=
  ∀ nodeType version d, registry.find nodeType version = some d →
    ∀ i ∈ d.inputs, i.arity = .single

/-- The number of edges at one input handle. -/
theorem count_target (g : WorkflowGraph Value) (key : NodeKey) (handle : String) :
    (g.edges.map fun e => (e.targetKey, e.targetHandle)).count (key, handle) =
      ((g.incoming key).map GraphEdge.targetHandle).count handle := by
  unfold WorkflowGraph.incoming
  induction g.edges with
  | nil => rfl
  | cons e rest ih =>
      rw [List.map_cons, List.filter_cons, List.count_cons, ih]
      by_cases hkey : e.targetKey = key
      · by_cases hhandle : e.targetHandle = handle <;> simp [hkey, hhandle]
      · simp [hkey]

/-- **A valid graph has one edge per input handle**, where no handle takes many. -/
theorem singleFanIn_of_valid (hsingle : registry.SingleInputs)
    (h : (validateGraph g registry).isValid = true) : g.SingleFanIn := by
  unfold WorkflowGraph.SingleFanIn
  rw [List.nodup_iff_count_le_one]
  intro place
  obtain ⟨key, handle⟩ := place
  by_contra hmany
  obtain ⟨e, he, hpair⟩ := List.mem_map.mp (List.count_pos_iff.mp (by omega :
    0 < (g.edges.map fun e => (e.targetKey, e.targetHandle)).count (key, handle)))
  obtain ⟨rfl, rfl⟩ := Prod.mk.inj hpair
  rw [count_target] at hmany
  obtain ⟨n, hn, hkey, d, hfind, hget, i, hi⟩ := input_of_valid h he
  have hname : i.name = e.targetHandle := by simpa using List.find?_some hi
  have hdeclared : i ∈ d.inputs := List.mem_of_find?_eq_some hi
  have hissue : ∃ j ∈ checkInput e.targetKey
      (((g.incoming e.targetKey).map GraphEdge.targetHandle).count i.name) i, j.isError = true := by
    unfold checkInput
    rw [if_pos ⟨hsingle _ _ d hfind i hdeclared, by rw [hname]; omega⟩]
    exact ⟨_, List.mem_append_left _ List.mem_cons_self, rfl⟩
  obtain ⟨j, hj, herr⟩ := hissue
  have hmem : j ∈ validateHandles g (resolve g registry).1 := by
    refine List.mem_append_right _ (List.mem_flatMap.mpr ⟨n, hn, ?_⟩)
    rw [hkey, hget]
    exact List.mem_flatMap.mpr ⟨i, hdeclared, hj⟩
  rw [not_error_of_handles h hmem] at herr
  exact nomatch herr

/-- On a valid graph something connects to every required input. -/
theorem connected_of_valid (h : (validateGraph g registry).isValid = true) {n : GraphNode Value}
    (hn : n ∈ g.nodes) {d : NodeDescriptor Value}
    (hfind : registry.find n.nodeType n.version = some d) {i : InputHandle} (hi : i ∈ d.inputs)
    (hrequired : i.required = true) : ∃ e ∈ g.incoming n.key, e.targetHandle = i.name := by
  obtain ⟨d', hfind', hget⟩ := descriptor_of_valid h hn
  obtain rfl : d = d' := by
    rw [hfind, Option.some.injEq] at hfind'
    exact hfind'
  by_contra hnone
  have hcount : ((g.incoming n.key).map GraphEdge.targetHandle).count i.name = 0 := by
    rw [List.count_eq_zero]
    intro hc
    obtain ⟨e, he, hname⟩ := List.mem_map.mp hc
    exact hnone ⟨e, he, hname⟩
  have hissue : ∃ j ∈ checkInput n.key
      (((g.incoming n.key).map GraphEdge.targetHandle).count i.name) i, j.isError = true := by
    unfold checkInput
    rw [if_pos (c := i.required = true ∧ _) ⟨hrequired, hcount⟩]
    exact ⟨_, List.mem_append_right _ List.mem_cons_self, rfl⟩
  obtain ⟨j, hj, herr⟩ := hissue
  have hmem : j ∈ validateHandles g (resolve g registry).1 := by
    refine List.mem_append_right _ (List.mem_flatMap.mpr ⟨n, hn, ?_⟩)
    rw [hget]
    exact List.mem_flatMap.mpr ⟨i, hi, hj⟩
  rw [not_error_of_handles h hmem] at herr
  simp at herr

/-! ### The shape of the whole -/

/-- **A valid graph has no cycle.** -/
theorem acyclic_of_valid (h : (validateGraph g registry).isValid = true) : g.Acyclic := by
  refine findCycles_complete (List.eq_nil_iff_forall_not_mem.mpr fun cycle hcycle => ?_)
  have hmem : _ ∈ validateStructure g (resolve g registry).1 :=
    List.mem_append_left _ (List.mem_append_left _ (List.mem_map_of_mem hcycle))
  have herr := not_error_of_structure h hmem
  exact nomatch herr

/-- A valid graph has a trigger, so it has a node. -/
theorem nodeKeys_ne_nil_of_valid (h : (validateGraph g registry).isValid = true) :
    g.nodeKeys ≠ [] := by
  intro hnil
  have hnodes : g.nodes = [] := List.map_eq_nil_iff.mp hnil
  have htriggers : triggerKeys g (resolve g registry).1 = [] := by
    simp [triggerKeys, hnodes]
  have hissue : ∃ i ∈ checkTriggers g (triggerKeys g (resolve g registry).1), i.isError = true := by
    unfold checkTriggers
    rw [htriggers]
    exact ⟨_, List.mem_append_left _ List.mem_cons_self, rfl⟩
  obtain ⟨i, hi, herr⟩ := hissue
  have hmem : i ∈ validateStructure g (resolve g registry).1 :=
    List.mem_append_left _ (List.mem_append_right _ hi)
  rw [not_error_of_structure h hmem] at herr
  simp at herr

end Orqent
