/-
The graph a client sends.

Three places say what a graph is: the validator of the request, the constructor of
`WorkflowGraph`, and the unique indexes the rows meet.  The first two compare texts as
they are.  The indexes compare them by the collation of the column, and under the one the
tables are declared with `main` and `Main` are one text.

Node keys are lower snake_case at this boundary, and such keys the collation tells apart
(`KeysApart`).  Handles are any text, so there the three part ways: exactly for a graph in
which two edges join the same nodes by handles that compare as equal.
-/
import Orqent.Lib.Json
import Orqent.Lib.Text
import Orqent.Versions.SaveLoad

namespace Orqent

/-! ### The request -/

/-- How long the type of a node may be. -/
def maxNodeTypeLength : Nat := 100

/-- How long a label may be. -/
def maxLabelLength : Nat := 255

/-- How long the name of a handle may be. -/
def maxHandleLength : Nat := 64

/-- A lower-case letter of ASCII. -/
def isLowerAscii (c : Char) : Bool := decide ('a' ≤ c) && decide (c ≤ 'z')

/-- A character a key may go on with. -/
def isKeyChar (c : Char) : Bool :=
  isLowerAscii c || (decide ('0' ≤ c) && decide (c ≤ '9')) || c = '_'

/-- Whether the key matches `^[a-z][a-z0-9_]{0,63}$`. -/
def isNodeKey (key : NodeKey) : Bool :=
  match key.toList with
  | [] => false
  | first :: rest => isLowerAscii first && rest.all isKeyChar && decide (rest.length ≤ 63)

/-- Where a node sits on the canvas. -/
structure UiPosition where
  x : NumberValue
  y : NumberValue

/-- One node as the builder sends it. -/
structure GraphNodeRequest where
  key : NodeKey
  type : String
  version : Nat
  label : Option String := none
  config : Dict String Json := []
  ui : UiPosition
  key_pattern : isNodeKey key = true
  type_length : 1 ≤ type.length ∧ type.length ≤ maxNodeTypeLength
  version_pos : 1 ≤ version
  label_length : ∀ text ∈ label, text.length ≤ maxLabelLength

/-- One connection as the builder sends it, addressed by node key. -/
structure GraphEdgeRequest where
  source : NodeKey
  sourceHandle : String
  target : NodeKey
  targetHandle : String
  source_length : source.length ≤ maxNodeKeyLength
  source_handle_length : 1 ≤ sourceHandle.length ∧ sourceHandle.length ≤ maxHandleLength
  target_length : target.length ≤ maxNodeKeyLength
  target_handle_length : 1 ≤ targetHandle.length ∧ targetHandle.length ≤ maxHandleLength

/-- A whole graph, replacing whatever the draft held. -/
structure GraphRequest where
  revision : Nat
  nodes : List GraphNodeRequest := []
  edges : List GraphEdgeRequest := []
  revision_pos : 1 ≤ revision

/-- The edge in the domain's words. -/
def GraphEdgeRequest.edge (e : GraphEdgeRequest) : GraphEdge :=
  ⟨e.source, e.sourceHandle, e.target, e.targetHandle⟩

namespace GraphRequest

variable (r : GraphRequest)

/-- The keys the payload declares. -/
def keys : List NodeKey := r.nodes.map GraphNodeRequest.key

/-- The edges the service is called with. -/
def graphEdges : List GraphEdge := r.edges.map GraphEdgeRequest.edge

/-- The first end of an edge that is not a declared node: which end, and its key. -/
def danglingEnd (declared : List NodeKey) (e : GraphEdge) : Option (String × NodeKey) :=
  if e.sourceKey ∉ declared then some ("source", e.sourceKey)
  else if e.targetKey ∉ declared then some ("target", e.targetKey)
  else none

/-- `_reject_impossible_graphs`: why the payload is refused. -/
def rejection : Option String :=
  match firstDuplicate [] r.keys with
  | some key => some ("Duplicate node key: " ++ quoted key)
  | none =>
      match firstDuplicate [] r.graphEdges with
      | some edge => some ("Duplicate edge: " ++ edge.text)
      | none =>
          r.graphEdges.findSome? fun edge =>
            (danglingEnd r.keys edge).map fun dangling =>
              "Edge " ++ dangling.1 ++ " " ++ quoted dangling.2 ++
                " is not a node in this graph: " ++ edge.text

/-- The payload describes a graph: distinct keys, declared ends, distinct edges. -/
def IsGraph : Prop :=
  r.keys.Nodup ∧ (∀ e ∈ r.graphEdges, e.sourceKey ∈ r.keys) ∧
    (∀ e ∈ r.graphEdges, e.targetKey ∈ r.keys) ∧ r.graphEdges.Nodup

/-- **The validator refuses what is no graph, and nothing else.** -/
theorem rejection_eq_none_iff : r.rejection = none ↔ r.IsGraph := by
  have hends : (∀ e ∈ r.graphEdges, danglingEnd r.keys e = none) ↔
      (∀ e ∈ r.graphEdges, e.sourceKey ∈ r.keys) ∧ ∀ e ∈ r.graphEdges, e.targetKey ∈ r.keys := by
    rw [← forall₂_and]
    refine forall₂_congr fun e _ => ?_
    unfold danglingEnd
    by_cases hsource : e.sourceKey ∈ r.keys
    · by_cases htarget : e.targetKey ∈ r.keys <;> simp [hsource, htarget]
    · simp [hsource]
  unfold rejection IsGraph
  cases hkeys : firstDuplicate [] r.keys with
  | some key =>
      have hnot : ¬ r.keys.Nodup := by
        rw [← firstDuplicate_nil_eq_none_iff, hkeys]
        simp
      simp [hnot]
  | none =>
      have hnodup := firstDuplicate_nil_eq_none_iff.mp hkeys
      cases hedges : firstDuplicate [] r.graphEdges with
      | some edge =>
          have hnot : ¬ r.graphEdges.Nodup := by
            rw [← firstDuplicate_nil_eq_none_iff, hedges]
            simp
          simp [hnot]
      | none =>
          have hedgesNodup := firstDuplicate_nil_eq_none_iff.mp hedges
          simp only [List.findSome?_eq_none_iff, Option.map_eq_none_iff, hends, hnodup,
            hedgesNodup, true_and, and_true]

end GraphRequest

/-! ### The three definitions -/

theorem isLowerAscii_toNat {c : Char} (h : isLowerAscii c = true) :
    97 ≤ c.toNat ∧ c.toNat ≤ 122 := by
  simp only [isLowerAscii, Bool.and_eq_true, decide_eq_true_eq, Char.le_def,
    UInt32.le_iff_toNat_le] at h
  exact h

theorem isSpace_of_isLowerAscii {c : Char} (h : isLowerAscii c = true) : isSpace c = false := by
  obtain ⟨hlow, hhigh⟩ := isLowerAscii_toNat h
  simp only [isSpace, Bool.or_eq_false_iff, Bool.and_eq_false_iff, decide_eq_false_iff_not]
  omega

/-- A key of the pattern is a key to the constructor of a node. -/
theorem keyProblem_of_isNodeKey {key : NodeKey} (h : isNodeKey key = true) :
    keyProblem key = none := by
  unfold isNodeKey at h
  cases hlist : key.toList with
  | nil => simp [hlist] at h
  | cons first rest =>
      simp only [hlist, Bool.and_eq_true, decide_eq_true_eq] at h
      obtain ⟨⟨hfirst, -⟩, hlength⟩ := h
      have hstrip : strip key.toList ≠ [] := by
        rw [ne_eq, strip_eq_nil_iff, hlist]
        intro hc
        simp [isSpace_of_isLowerAscii hfirst] at hc
      have hle : ¬ maxNodeKeyLength < key.length := by
        rw [← String.length_toList, hlist, List.length_cons, maxNodeKeyLength]
        omega
      unfold keyProblem
      rw [if_neg (by simpa using hstrip), if_neg hle]

/-- The columns of the row a node is written as. -/
def GraphNodeRequest.columns (n : GraphNodeRequest) : NodeColumns Json where
  nodeKey := n.key
  nodeType := n.type
  nodeTypeVersion := n.version
  label := n.label
  config := n.config
  uiPosition := [("x", .float n.ui.x), ("y", .float n.ui.y)]
  key_ok := keyProblem_of_isNodeKey n.key_pattern

/-- The node rows the service is called with. -/
def GraphRequest.columns (r : GraphRequest) : List (NodeColumns Json) :=
  r.nodes.map GraphNodeRequest.columns

/-- Keys of the pattern are not taken for one another. -/
def KeysApart (c : Collation) : Prop :=
  ∀ a b, isNodeKey a = true → isNodeKey b = true → c a = c b → a = b

/-- Two edges of the graph join the same nodes by handles that are told apart by the program
and not by the database. -/
def GraphRequest.Confusable (r : GraphRequest) (c : Collation) : Prop :=
  r.IsGraph ∧ ∃ e ∈ r.graphEdges, ∃ f ∈ r.graphEdges, e ≠ f ∧ connection c e = connection c f

section Agreement

variable {c : Collation} {r : GraphRequest} {s : GraphStore c Json} {version : Nat}
  {nodeIds : s.NodeIds} {edgeIds : s.EdgeIds}

/-- The validator, the constructor and the indexes accept the same, and what is stored loads. -/
structure DefinitionsAgree (c : Collation) (r : GraphRequest) (s : GraphStore c Json)
    (version : Nat)
    (nodeIds : s.NodeIds) (edgeIds : s.EdgeIds) : Prop where
  constructs : r.rejection = none ↔
    ∃ g, WorkflowGraph.construct (r.columns.map NodeColumns.toGraphNode) r.graphEdges = .ok g
  saves : r.rejection = none ↔
    ∃ s', s.replaceGraph version nodeIds edgeIds r.columns r.graphEdges = .ok s'
  loads : ∀ s', s.replaceGraph version nodeIds edgeIds r.columns r.graphEdges = .ok s' →
    ∃ g, s'.loadGraph version = .ok g

theorem columns_keys (r : GraphRequest) : r.columns.map NodeColumns.nodeKey = r.keys := by
  rw [GraphRequest.columns, List.map_map]
  rfl

/-- **The constructor accepts what the validator accepts.** -/
theorem constructs_iff (r : GraphRequest) :
    (∃ g, WorkflowGraph.construct (r.columns.map NodeColumns.toGraphNode) r.graphEdges = .ok g) ↔
      r.IsGraph := by
  have hkeys : ((r.columns.map NodeColumns.toGraphNode).map GraphNode.key) = r.keys := by
    rw [List.map_map, ← columns_keys]
    rfl
  have hok : ∀ n ∈ r.columns.map NodeColumns.toGraphNode, keyProblem n.key = none := by
    intro n hn
    obtain ⟨columns, -, rfl⟩ := List.mem_map.mp hn
    exact columns.key_ok
  rw [WorkflowGraph.exists_construct_iff, WorkflowGraph.problem_eq_none_iff, hkeys]
  exact and_iff_right hok

/-- **The indexes accept what the validator accepts, less what they cannot tell apart.** -/
theorem writable_iff (hc : KeysApart c) :
    Writable c r.columns r.graphEdges ↔
      r.IsGraph ∧ (r.graphEdges.map (connection c)).Nodup := by
  have hkeys : (r.columns.map fun n => c n.nodeKey).Nodup ↔ r.keys.Nodup := by
    rw [← columns_keys]
    refine nodup_map_congr fun m hm n hn => ?_
    obtain ⟨a, -, rfl⟩ := List.mem_map.mp hm
    obtain ⟨b, -, rfl⟩ := List.mem_map.mp hn
    exact ⟨hc _ _ a.key_pattern b.key_pattern, fun heq => congrArg c heq⟩
  constructor
  · intro h
    have hsource := h.source
    have htarget := h.target
    rw [columns_keys] at hsource htarget
    exact ⟨⟨hkeys.mp h.keys, hsource, htarget, h.edges_nodup⟩, h.connections⟩
  · intro h
    obtain ⟨⟨hnodup, hsource, htarget, -⟩, hconnections⟩ := h
    rw [← columns_keys] at hsource htarget
    exact ⟨hkeys.mpr hnodup, hsource, htarget, hconnections⟩

/-- **The three definitions agree on a payload unless it is confusable.** -/
theorem agree_iff (hc : KeysApart c) :
    DefinitionsAgree c r s version nodeIds edgeIds ↔ ¬ r.Confusable c := by
  have hsaves : (∃ s', s.replaceGraph version nodeIds edgeIds r.columns r.graphEdges = .ok s') ↔
      r.IsGraph ∧ (r.graphEdges.map (connection c)).Nodup :=
    s.exists_replaceGraph_iff.trans (writable_iff hc)
  have hconnections : r.IsGraph → ((r.graphEdges.map (connection c)).Nodup ↔
      ∀ e ∈ r.graphEdges, ∀ f ∈ r.graphEdges, connection c e = connection c f → e = f) :=
    fun hgraph => List.nodup_map_iff_inj_on hgraph.2.2.2
  constructor
  · intro hagree hconfusable
    obtain ⟨hgraph, e, he, f, hf, hne, heq⟩ := hconfusable
    obtain ⟨-, hnodup⟩ := hsaves.mp (hagree.saves.mp (r.rejection_eq_none_iff.mpr hgraph))
    exact hne ((hconnections hgraph).mp hnodup e he f hf heq)
  · intro hnot
    refine ⟨?_, ?_, ?_⟩
    · rw [r.rejection_eq_none_iff, constructs_iff]
    · rw [r.rejection_eq_none_iff, hsaves]
      refine ⟨fun hgraph => ⟨hgraph, (hconnections hgraph).mpr ?_⟩, And.left⟩
      intro e he f hf heq
      by_contra hne
      exact hnot ⟨hgraph, e, he, f, hf, hne, heq⟩
    · intro s' _
      exact ⟨_, loadGraph_sound s'.sound version⟩

end Agreement

/-! ### Two handles the database takes for one -/

/-- Comparison without case, which is what the declared collation comes to on ASCII. -/
def caseless (s : String) : String := String.ofList (s.toList.map Char.toLower)

theorem toLower_of_isKeyChar {c : Char} (h : isKeyChar c = true) : c.toLower = c := by
  have hupper : ¬ (c.val ≥ 'A'.val ∧ c.val ≤ 'Z'.val) := by
    simp only [isKeyChar, isLowerAscii, Bool.or_eq_true, Bool.and_eq_true, decide_eq_true_eq,
      Char.le_def, UInt32.le_iff_toNat_le, ← Char.toNat_inj] at h
    simp only [ge_iff_le, UInt32.le_iff_toNat_le]
    have hA : 'A'.val.toNat = 65 := rfl
    have hZ : 'Z'.val.toNat = 90 := rfl
    have ha : 'a'.val.toNat = 97 := rfl
    have hzero : '0'.val.toNat = 48 := rfl
    have hnine : '9'.val.toNat = 57 := rfl
    have hbar : '_'.toNat = 95 := rfl
    have hc : c.toNat = c.val.toNat := rfl
    omega
  unfold Char.toLower
  exact dif_neg hupper

theorem caseless_of_isNodeKey {key : NodeKey} (h : isNodeKey key = true) : caseless key = key := by
  have hall : ∀ c ∈ key.toList, c.toLower = c := by
    unfold isNodeKey at h
    cases hlist : key.toList with
    | nil => simp
    | cons first rest =>
        simp only [hlist, Bool.and_eq_true, List.all_eq_true] at h
        obtain ⟨⟨hfirst, hrest⟩, -⟩ := h
        intro c hc
        rcases List.mem_cons.mp hc with rfl | hc
        · exact toLower_of_isKeyChar (by simp [isKeyChar, hfirst])
        · exact toLower_of_isKeyChar (hrest c hc)
  unfold caseless
  rw [List.map_congr_left hall, List.map_id', String.ofList_toList]

/-- Keys have no upper case to lose. -/
theorem keysApart_caseless : KeysApart caseless := by
  intro a b ha hb hab
  rw [caseless_of_isNodeKey ha, caseless_of_isNodeKey hb] at hab
  exact hab

theorem noop_length : 1 ≤ "core.noop".length ∧ "core.noop".length ≤ maxNodeTypeLength := by
  decide

theorem one_version : 1 ≤ (1 : Nat) := Nat.le_refl 1

theorem no_label (text : String) (h : text ∈ (none : Option String)) :
    text.length ≤ maxLabelLength := by
  simp at h

/-- A node of this key. -/
def plainNode (key : NodeKey) (h : isNodeKey key = true) : GraphNodeRequest where
  key
  type := "core.noop"
  version := 1
  label := none
  config := []
  ui := ⟨((0 : ℚ) : WithTop ℚ), ((0 : ℚ) : WithTop ℚ)⟩
  key_pattern := h
  type_length := noop_length
  version_pos := one_version
  label_length := no_label

/-- The lengths of an edge's fields are within their bounds. -/
structure Fits (e : GraphEdge) : Prop where
  source : e.sourceKey.length ≤ maxNodeKeyLength
  sourceHandle : 1 ≤ e.sourceHandle.length ∧ e.sourceHandle.length ≤ maxHandleLength
  target : e.targetKey.length ≤ maxNodeKeyLength
  targetHandle : 1 ≤ e.targetHandle.length ∧ e.targetHandle.length ≤ maxHandleLength

/-- The edge as it is sent. -/
def sentEdge (e : GraphEdge) (h : Fits e) : GraphEdgeRequest :=
  ⟨e.sourceKey, e.sourceHandle, e.targetKey, e.targetHandle, h.source, h.sourceHandle, h.target,
    h.targetHandle⟩

theorem isNodeKey_a : isNodeKey "a" = true := by decide

theorem isNodeKey_b : isNodeKey "b" = true := by decide

theorem fits_main : Fits ⟨"a", "main", "b", "main"⟩ := by constructor <;> decide

theorem fits_Main : Fits ⟨"a", "Main", "b", "main"⟩ := by constructor <;> decide

/-- Two nodes, joined from the handle `main` of the first and again from `Main`. -/
def mainTwice : GraphRequest where
  revision := 1
  nodes := [plainNode "a" isNodeKey_a, plainNode "b" isNodeKey_b]
  edges := [sentEdge ⟨"a", "main", "b", "main"⟩ fits_main,
    sentEdge ⟨"a", "Main", "b", "main"⟩ fits_Main]
  revision_pos := one_version

/-- Ids from zero on, where none is in use. -/
def idsFromZero : FreshIds [] where
  id n := n
  ascending := strictMono_id
  fresh := by simp

theorem agree_iff_mainTwice :
    DefinitionsAgree caseless mainTwice GraphStore.empty 1 idsFromZero idsFromZero ↔
      ¬ mainTwice.Confusable caseless :=
  agree_iff keysApart_caseless

/-- The validator and the constructor accept the payload, and the index refuses it. -/
theorem mainTwice_disagree :
    mainTwice.rejection = none ∧
      ¬ DefinitionsAgree caseless mainTwice GraphStore.empty 1 idsFromZero idsFromZero := by
  have haccepted : mainTwice.rejection = none := by decide +kernel
  refine ⟨haccepted, fun hagree => ?_⟩
  have hw := GraphStore.exists_replaceGraph_iff _ |>.mp (hagree.saves.mp haccepted)
  exact absurd hw.connections (by decide +kernel)

end Orqent
