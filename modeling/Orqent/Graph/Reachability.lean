/-
What the reachability warning reports.

The traversal takes a node from its queue and adds the successors it has not reached;
what it has reached is closed under successors but for what is still queued, and every
turn takes one node out of those queued or unreached.  So it ends within one turn per
node, with everything reachable from the triggers, and `unreachable_iff` says which
nodes a valid graph has reported.
-/
import Orqent.Graph.Publishable

namespace Orqent

variable {Value : Type} {g : WorkflowGraph Value} {registry : NodeRegistry Value}
  {starts reached queue : List NodeKey}

/-- The node is reported as one that will never run. -/
def ReportedUnreachable (g : WorkflowGraph Value) (registry : NodeRegistry Value) (key : NodeKey) :
    Prop :=
  ∃ i ∈ (validateGraph g registry).issues, i.code = .unreachableNode ∧ i.nodeKey = some key

/-! ### The traversal -/

/-- The state of the loop. -/
structure ReachOk (g : WorkflowGraph Value) (starts : List NodeKey)
    (state : List NodeKey × List NodeKey) : Prop where
  started : ∀ k ∈ starts, k ∈ state.1
  nodes : ∀ k ∈ state.1, k ∈ g.nodeKeys
  queued : ∀ k ∈ state.2, k ∈ state.1
  closed : ∀ a ∈ state.1, a ∈ state.2 ∨ ∀ b ∈ successors g a, b ∈ state.1
  origin : ∀ k ∈ state.1, k ∈ starts ∨ ∃ a, g.Feeds a k

/-- The nodes that are queued or have not been reached. -/
def reachLeft (g : WorkflowGraph Value) (state : List NodeKey × List NodeKey) : Nat :=
  state.2.length + g.nodeKeys.countP fun k => k ∉ state.1

/-- One successor of the node taken from the queue. -/
def reachOne (state : List NodeKey × List NodeKey) (successor : NodeKey) :
    List NodeKey × List NodeKey :=
  if successor ∈ state.1 then state else (successor :: state.1, successor :: state.2)

theorem reachLoop_cons (fuel : Nat) (key : NodeKey) :
    reachLoop g (fuel + 1) (reached, key :: queue) =
    reachLoop g fuel ((successors g key).foldl reachOne (reached, queue)) := rfl

/-- What some successors add to what is reached, and to the queue. -/
structure Extends (g : WorkflowGraph Value) (state : List NodeKey × List NodeKey)
    (keys : List NodeKey) (state' : List NodeKey × List NodeKey) : Prop where
  reached : ∀ k, k ∈ state'.1 ↔ k ∈ state.1 ∨ k ∈ keys
  kept : ∀ k ∈ state.2, k ∈ state'.2
  queued : ∀ k ∈ state'.2, k ∈ state.2 ∨ k ∈ keys
  new : ∀ k ∈ state'.1, k ∈ state.1 ∨ k ∈ state'.2
  left : reachLeft g state' ≤ reachLeft g state

theorem reachOne_extends {state : List NodeKey × List NodeKey} {successor : NodeKey}
    (hnode : successor ∈ g.nodeKeys) : Extends g state [successor] (reachOne state successor) := by
  unfold reachOne
  split
  · rename_i hmem
    refine ⟨fun k => ⟨Or.inl, fun hk => ?_⟩, fun k hk => hk, fun k hk => Or.inl hk,
      fun k hk => Or.inl hk, le_rfl⟩
    rcases hk with hk | hk
    · exact hk
    · exact List.mem_singleton.mp hk ▸ hmem
  · rename_i hmem
    refine ⟨fun k => ?_, fun k hk => ?_, fun k hk => ?_, fun k hk => ?_, ?_⟩
    · simp [or_comm]
    · exact List.mem_cons_of_mem _ hk
    · simpa [or_comm] using hk
    · rcases List.mem_cons.mp hk with rfl | hk
      · exact Or.inr List.mem_cons_self
      · exact Or.inl hk
    · have hlt : g.nodeKeys.countP (fun k => k ∉ successor :: state.1) <
          g.nodeKeys.countP fun k => k ∉ state.1 := by
        refine Digraph.countP_lt (fun k _ hk => ?_) hnode (by simp) (by simpa using hmem)
        simp only [List.mem_cons, not_or, decide_eq_true_eq] at hk ⊢
        exact hk.2
      show (successor :: state.2).length + g.nodeKeys.countP (fun k => k ∉ successor :: state.1) ≤
        state.2.length + g.nodeKeys.countP fun k => k ∉ state.1
      rw [List.length_cons]
      omega

theorem reachAll_extends {keys : List NodeKey} (hnodes : ∀ k ∈ keys, k ∈ g.nodeKeys)
    (state : List NodeKey × List NodeKey) : Extends g state keys (keys.foldl reachOne state) := by
  induction keys generalizing state with
  | nil => exact ⟨by simp, by simp, by simp, fun k hk => Or.inl hk, le_rfl⟩
  | cons key rest ih =>
      have hone : Extends g state [key] (reachOne state key) :=
        reachOne_extends (hnodes key List.mem_cons_self)
      have hrest := ih (fun k hk => hnodes k (List.mem_cons_of_mem _ hk)) (reachOne state key)
      rw [List.foldl_cons]
      refine ⟨fun k => ?_, fun k hk => hrest.kept k (hone.kept k hk), fun k hk => ?_,
        fun k hk => ?_, hrest.left.trans hone.left⟩
      · rw [hrest.reached, hone.reached, List.mem_singleton, List.mem_cons, or_assoc]
      · rcases hrest.queued k hk with hbefore | hmem
        · refine (hone.queued k hbefore).imp_right fun hmem => ?_
          exact List.mem_singleton.mp hmem ▸ List.mem_cons_self
        · exact Or.inr (List.mem_cons_of_mem _ hmem)
      · rcases hrest.new k hk with hbefore | hqueued
        · exact (hone.new k hbefore).imp_right (hrest.kept k)
        · exact Or.inr hqueued

/-- **A turn of the loop keeps its state in order, and leaves less to do.** -/
theorem ReachOk.turn {key : NodeKey} (h : ReachOk g starts (reached, key :: queue)) :
    ReachOk g starts ((successors g key).foldl reachOne (reached, queue)) ∧
      reachLeft g ((successors g key).foldl reachOne (reached, queue)) <
        reachLeft g (reached, key :: queue) := by
  have hnodes : ∀ k ∈ successors g key, k ∈ g.nodeKeys := by
    intro k hk
    exact (WorkflowGraph.feeds_mem (mem_successors.mp hk)).2
  have hall := reachAll_extends hnodes (reached, queue)
  refine ⟨⟨fun k hk => ?_, fun k hk => ?_, fun k hk => ?_, fun a ha => ?_, fun k hk => ?_⟩, ?_⟩
  · exact (hall.reached k).mpr (Or.inl (h.started k hk))
  · rcases (hall.reached k).mp hk with hold | hsuccessor
    · exact h.nodes k hold
    · exact hnodes k hsuccessor
  · refine (hall.reached k).mpr ?_
    exact (hall.queued k hk).imp_left fun hold => h.queued k (List.mem_cons_of_mem _ hold)
  · rcases hall.new a ha with hold | hqueued
    · rcases h.closed a hold with hqueued | hclosed
      · rcases List.mem_cons.mp hqueued with rfl | hqueued
        · exact Or.inr fun b hb => (hall.reached b).mpr (Or.inr hb)
        · exact Or.inl (hall.kept a hqueued)
      · exact Or.inr fun b hb => (hall.reached b).mpr (Or.inl (hclosed b hb))
    · exact Or.inl hqueued
  · rcases (hall.reached k).mp hk with hold | hsuccessor
    · exact h.origin k hold
    · exact Or.inr ⟨key, mem_successors.mp hsuccessor⟩
  · refine Nat.lt_of_le_of_lt hall.left ?_
    simp [reachLeft]

/-- **The loop ends with what it has reached closed under successors.** -/
theorem reachLoop_spec {fuel : Nat} {state : List NodeKey × List NodeKey}
    (h : ReachOk g starts state) (hfuel : reachLeft g state ≤ fuel) :
    ReachOk g starts (reachLoop g fuel state, []) := by
  induction fuel generalizing state with
  | zero =>
      obtain ⟨reached, queue⟩ := state
      have hnil : queue = [] := by
        have hlength : queue.length + g.nodeKeys.countP (fun k => k ∉ reached) ≤ 0 := hfuel
        exact List.length_eq_zero_iff.mp (by omega)
      subst hnil
      exact h
  | succ fuel ih =>
      obtain ⟨reached, _ | ⟨key, queue⟩⟩ := state
      · exact h
      · obtain ⟨hok, hlt⟩ := h.turn
        rw [reachLoop_cons]
        exact ih hok (by omega)

/-- **What is reached holds the starts and is closed under successors.** -/
theorem reachableFrom_spec (hnodup : starts.Nodup) (hnodes : ∀ k ∈ starts, k ∈ g.nodeKeys) :
    ReachOk g starts (reachableFrom g starts, []) := by
  refine reachLoop_spec ⟨fun k hk => hk, hnodes, ?_, ?_, fun k hk => Or.inl hk⟩ ?_
  · simp
  · exact fun a ha => Or.inl (by simpa using ha)
  · have hsplit := List.length_eq_countP_add_countP (fun k => decide (k ∈ starts)) (l := g.nodeKeys)
    have hstarts : starts.length ≤ g.nodeKeys.countP fun k => k ∈ starts := by
      rw [List.countP_eq_length_filter]
      refine List.Subperm.length_le (List.subperm_of_subset hnodup fun k hk => ?_)
      exact List.mem_filter.mpr ⟨hnodes k hk, by simpa using hk⟩
    have hlength : g.nodeKeys.length = g.length := List.length_map ..
    show starts.reverse.length + g.nodeKeys.countP (fun k => k ∉ starts) ≤ g.length
    simp only [decide_eq_true_eq] at hsplit
    rw [List.length_reverse]
    omega

/-! ### The report -/

/-- No stage but the last reports a node as unreachable. -/
theorem code_of_resolve {i : ValidationIssue} (hi : i ∈ (resolve g registry).2) :
    i.code ≠ .unreachableNode := by
  have hall : ∀ (nodes : List (GraphNode Value)) (acc : Descriptors Value × List ValidationIssue),
      (∀ j ∈ acc.2, j.code ≠ .unreachableNode) →
        ∀ j ∈ (nodes.foldl (resolveNode registry) acc).2, j.code ≠ .unreachableNode := by
    intro nodes
    induction nodes with
    | nil => exact fun acc hacc => hacc
    | cons node rest ih =>
        intro acc hacc
        refine ih (resolveNode registry acc node) fun j hj => ?_
        unfold resolveNode at hj
        split at hj
        · rcases List.mem_append.mp hj with hj | hj
          · exact hacc j hj
          · simp [List.mem_singleton.mp hj]
        · dsimp only at hj
          split at hj
          · rcases List.mem_append.mp hj with hj | hj
            · exact hacc j hj
            · simp [List.mem_singleton.mp hj]
          · exact hacc j hj
  exact hall g.nodes ([], []) (by simp) i hi

theorem code_of_config {descriptors : Descriptors Value} {i : ValidationIssue}
    (hi : i ∈ validateConfig g descriptors) : i.code = .invalidConfig := by
  obtain ⟨node, -, hnode⟩ := List.mem_flatMap.mp hi
  split at hnode
  · simp at hnode
  · obtain ⟨detail, -, rfl⟩ := List.mem_map.mp hnode
    rfl

theorem code_of_handles {descriptors : Descriptors Value} {i : ValidationIssue}
    (hi : i ∈ validateHandles g descriptors) : i.code ≠ .unreachableNode := by
  rcases List.mem_append.mp hi with hi | hi
  · obtain ⟨e, -, he⟩ := List.mem_flatMap.mp hi
    unfold checkEdge at he
    dsimp only at he
    simp only [List.mem_append] at he
    rcases he with (he | he) | he <;> split at he
    · simp [List.mem_singleton.mp he]
    · simp at he
    · simp [List.mem_singleton.mp he]
    · simp at he
    · split at he
      · simp at he
      · simp [List.mem_singleton.mp he]
    · simp at he
  · obtain ⟨node, -, hnode⟩ := List.mem_flatMap.mp hi
    split at hnode
    · simp at hnode
    · obtain ⟨handle, -, hhandle⟩ := List.mem_flatMap.mp hnode
      unfold checkInput at hhandle
      rcases List.mem_append.mp hhandle with hhandle | hhandle <;> split at hhandle
      · simp [List.mem_singleton.mp hhandle]
      · simp at hhandle
      · simp [List.mem_singleton.mp hhandle]
      · simp at hhandle

theorem code_of_cycles {i : ValidationIssue} (hi : i ∈ checkCycles g) :
    i.code = .cycleDetected := by
  obtain ⟨cycle, -, rfl⟩ := List.mem_map.mp hi
  rfl

theorem code_of_triggers {triggers : List NodeKey} {i : ValidationIssue}
    (hi : i ∈ checkTriggers g triggers) : i.code ≠ .unreachableNode := by
  unfold checkTriggers at hi
  rcases List.mem_append.mp hi with hi | hi
  · split at hi
    · simp [List.mem_singleton.mp hi]
    · split at hi
      · obtain ⟨key, -, rfl⟩ := List.mem_map.mp hi
        simp
      · simp at hi
  · obtain ⟨key, -, hkey⟩ := List.mem_flatMap.mp hi
    split at hkey
    · simp at hkey
    · simp [List.mem_singleton.mp hkey]

/-- The triggers of a valid graph: there is one, and they are nodes of it. -/
theorem triggers_of_valid (h : (validateGraph g registry).isValid = true) :
    triggerKeys g (resolve g registry).1 ≠ [] ∧
      (triggerKeys g (resolve g registry).1).Nodup ∧
      ∀ k ∈ triggerKeys g (resolve g registry).1, k ∈ g.nodeKeys := by
  refine ⟨fun hnil => ?_, ?_, fun k hk => ?_⟩
  · have hissue : ∃ i ∈ checkTriggers g (triggerKeys g (resolve g registry).1),
        i.isError = true := by
      unfold checkTriggers
      rw [hnil]
      exact ⟨_, List.mem_append_left _ List.mem_cons_self, rfl⟩
    obtain ⟨i, hi, herr⟩ := hissue
    have hmem : i ∈ validateStructure g (resolve g registry).1 :=
      List.mem_append_left _ (List.mem_append_right _ hi)
    rw [not_error_of_structure h hmem] at herr
    simp at herr
  · exact (g.keys_nodup).sublist (List.filter_sublist.map _)
  · obtain ⟨node, hnode, rfl⟩ := List.mem_map.mp hk
    exact List.mem_map_of_mem (List.mem_filter.mp hnode).1

/-- **What a valid graph has reported** are its nodes outside what the triggers reach. -/
theorem reportedUnreachable_iff (h : (validateGraph g registry).isValid = true) {key : NodeKey} :
    ReportedUnreachable g registry key ↔
      key ∈ g.nodeKeys ∧ key ∉ reachableFrom g (triggerKeys g (resolve g registry).1) := by
  obtain ⟨hsome, -, -⟩ := triggers_of_valid h
  have hmem : ∀ i, i ∈ (validateGraph g registry).issues ↔
      i ∈ (resolve g registry).2 ++ validateConfig g (resolve g registry).1 ++
        validateHandles g (resolve g registry).1 ++ validateStructure g (resolve g registry).1 :=
    fun i => List.mem_insertionSort _
  unfold ReportedUnreachable
  constructor
  · intro hreported
    obtain ⟨i, hi, hcode, hkey⟩ := hreported
    rw [hmem] at hi
    simp only [validateStructure, List.mem_append] at hi
    rcases hi with ((hi | hi) | hi) | (hi | hi) | hi
    · exact absurd hcode (code_of_resolve hi)
    · simp [code_of_config hi] at hcode
    · exact absurd hcode (code_of_handles hi)
    · simp [code_of_cycles hi] at hcode
    · exact absurd hcode (code_of_triggers hi)
    · unfold checkReachability at hi
      rw [if_neg (by simpa using hsome)] at hi
      obtain ⟨node, hnode, rfl⟩ := List.mem_map.mp hi
      obtain rfl := Option.some.inj hkey
      obtain ⟨hnode, hout⟩ := List.mem_filter.mp hnode
      simp only [Bool.decide_and, Bool.and_eq_true, decide_eq_true_eq] at hout
      exact ⟨List.mem_map_of_mem hnode, hout.1⟩
  · intro hc
    obtain ⟨hkey, hout⟩ := hc
    obtain ⟨node, hnode, rfl⟩ := List.mem_map.mp hkey
    obtain ⟨d, -, hget⟩ := descriptor_of_valid h hnode
    refine ⟨{ code := .unreachableNode
              message := "This node cannot be reached from the trigger, so it will never run."
              severity := .warning
              nodeKey := some node.key }, ?_, rfl, rfl⟩
    rw [hmem]
    refine List.mem_append_right _ (List.mem_append_right _ ?_)
    unfold checkReachability
    rw [if_neg (by simpa using hsome)]
    refine List.mem_map.mpr ⟨node, List.mem_filter.mpr ⟨hnode, ?_⟩, rfl⟩
    simp [hout, Dict.contains, hget]

/-- The node is a trigger. -/
def IsTriggerNode (g : WorkflowGraph Value) (registry : NodeRegistry Value) (key : NodeKey) :
    Prop :=
  ∃ node d, g.node key = some node ∧ registry.find node.nodeType node.version = some d ∧
    d.isTrigger = true

theorem mem_triggerKeys_iff (h : (validateGraph g registry).isValid = true) {key : NodeKey} :
    key ∈ triggerKeys g (resolve g registry).1 ↔ IsTriggerNode g registry key := by
  constructor
  · intro hkey
    obtain ⟨node, hmem, rfl⟩ := List.mem_map.mp hkey
    obtain ⟨hnode, htrigger⟩ := List.mem_filter.mp hmem
    obtain ⟨d, hfind, hget⟩ := descriptor_of_valid h hnode
    rw [hget, Option.any_some] at htrigger
    exact ⟨node, d, g.node_of_mem hnode, hfind, htrigger⟩
  · intro hc
    obtain ⟨node, d, hnode, hfind, htrigger⟩ := hc
    have hmem : node ∈ g.nodes := List.mem_of_find?_eq_some hnode
    obtain rfl : node.key = key := by simpa using List.find?_some hnode
    obtain ⟨d', hfind', hget⟩ := descriptor_of_valid h hmem
    obtain rfl : d = d' := Option.some.inj (hfind.symm.trans hfind')
    refine List.mem_map.mpr ⟨node, List.mem_filter.mpr ⟨hmem, ?_⟩, rfl⟩
    rw [hget, Option.any_some, htrigger]

/-- **Nothing is reported exactly where the nodes without connections into them are triggers.** -/
theorem none_unreachable_iff (h : (validateGraph g registry).isValid = true) :
    (∀ k ∈ g.nodeKeys, ¬ ReportedUnreachable g registry k) ↔
      ∀ k ∈ g.nodeKeys, g.incoming k = [] → IsTriggerNode g registry k := by
  obtain ⟨-, hnodup, hnodes⟩ := triggers_of_valid h
  have hreach := reachableFrom_spec hnodup hnodes
  constructor
  · intro hnone k hk hroot
    have hreached : k ∈ reachableFrom g (triggerKeys g (resolve g registry).1) := by
      by_contra hout
      exact hnone k hk ((reportedUnreachable_iff h).mpr ⟨hk, hout⟩)
    rcases hreach.origin k hreached with htrigger | ⟨a, e, he, -, htarget⟩
    · exact (mem_triggerKeys_iff h).mp htrigger
    · have hmem : e ∈ g.incoming k := (g.mem_incoming).mpr ⟨he, htarget⟩
      simp [hroot] at hmem
  · intro hroots
    have hall : ∀ k, k ∈ g.nodeKeys →
        k ∈ reachableFrom g (triggerKeys g (resolve g registry).1) := by
      refine Digraph.acyclic_induction (acyclic_of_valid h)
        (fun a b hab => (WorkflowGraph.feeds_mem hab).1) ?_
      intro k ih hk
      by_cases hroot : g.incoming k = []
      · exact hreach.started k ((mem_triggerKeys_iff h).mpr (hroots k hk hroot))
      · obtain ⟨e, he⟩ := List.exists_mem_of_ne_nil _ hroot
        have hfeeds := g.feeds_of_incoming he
        have hsource := ih e.sourceKey hfeeds (g.source_mem_of_incoming he)
        rcases hreach.closed e.sourceKey hsource with hqueued | hclosed
        · simp at hqueued
        · exact hclosed k (mem_successors.mpr hfeeds)
    intro k hk hreported
    exact ((reportedUnreachable_iff h).mp hreported).2 (hall k hk)

end Orqent
