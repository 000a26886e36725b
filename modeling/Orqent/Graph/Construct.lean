/-
The constructors of a graph.

`GraphNode` refuses a blank key and one longer than its column; `WorkflowGraph` refuses a
repeated key, an edge that names no node and a repeated edge, whichever it meets first.
`construct_eq_ok_iff` is what callers want: what is constructed is the graph of those
nodes and edges, and it is constructed where there is one.
-/
import Orqent.Graph.Model
import Orqent.Lib.Text

namespace Orqent

variable {α Value : Type}

/-! ### Repetitions -/

/-- The first value that repeats one of `seen` or one before it. -/
def firstDuplicate [DecidableEq α] : List α → List α → Option α
  | _, [] => none
  | seen, a :: rest => if a ∈ seen then some a else firstDuplicate (a :: seen) rest

theorem firstDuplicate_eq_none_iff [DecidableEq α] {seen values : List α} :
    firstDuplicate seen values = none ↔ values.Nodup ∧ ∀ a ∈ values, a ∉ seen := by
  induction values generalizing seen with
  | nil => simp [firstDuplicate]
  | cons a rest ih =>
      unfold firstDuplicate
      by_cases hseen : a ∈ seen
      · simp [hseen]
      · rw [if_neg hseen, ih, List.nodup_cons]
        constructor
        · intro h
          obtain ⟨hnodup, hnew⟩ := h
          refine ⟨⟨fun hmem => hnew a hmem List.mem_cons_self, hnodup⟩, ?_⟩
          intro b hb
          rcases List.mem_cons.mp hb with rfl | hb
          · exact hseen
          · exact fun hc => hnew b hb (List.mem_cons_of_mem _ hc)
        · intro h
          obtain ⟨⟨hnot, hnodup⟩, hnew⟩ := h
          refine ⟨hnodup, fun b hb hc => ?_⟩
          rcases List.mem_cons.mp hc with rfl | hc
          · exact hnot hb
          · exact hnew b (List.mem_cons_of_mem _ hb) hc

@[simp] theorem firstDuplicate_nil_eq_none_iff [DecidableEq α] {values : List α} :
    firstDuplicate [] values = none ↔ values.Nodup := by
  simp [firstDuplicate_eq_none_iff]

/-! ### A node -/

/-- The length of the column a key is stored in. -/
def maxNodeKeyLength : Nat := 64

/-- What the constructor of a node says about its key. -/
def keyProblem (key : NodeKey) : Option String :=
  if (strip key.toList).isEmpty then some "Node key must not be blank."
  else if maxNodeKeyLength < key.length then
    some ("Node key exceeds " ++ toString maxNodeKeyLength ++ " characters: " ++ quoted key)
  else none

/-! ### A graph -/

namespace WorkflowGraph

/-- What the constructor says about the nodes. -/
def nodeProblem (nodes : List (GraphNode Value)) : Option String :=
  (firstDuplicate [] (nodes.map GraphNode.key)).map fun key =>
    "Duplicate node key: " ++ quoted key

/-- What the constructor says about the edges, those of `seen` behind it. -/
def edgeProblem (keys : List NodeKey) : List GraphEdge → List GraphEdge → Option String
  | _, [] => none
  | seen, e :: rest =>
      if e.sourceKey ∉ keys then
        some ("Edge references unknown source node: " ++ quoted e.sourceKey)
      else if e.targetKey ∉ keys then
        some ("Edge references unknown target node: " ++ quoted e.targetKey)
      else if e ∈ seen then some ("Duplicate edge: " ++ e.text)
      else edgeProblem keys (e :: seen) rest

theorem nodeProblem_eq_none_iff {nodes : List (GraphNode Value)} :
    nodeProblem nodes = none ↔ (nodes.map GraphNode.key).Nodup := by
  simp [nodeProblem]

theorem edgeProblem_eq_none_iff {keys : List NodeKey} {seen edges : List GraphEdge} :
    edgeProblem keys seen edges = none ↔
      (∀ e ∈ edges, e.sourceKey ∈ keys) ∧ (∀ e ∈ edges, e.targetKey ∈ keys) ∧
        firstDuplicate seen edges = none := by
  induction edges generalizing seen with
  | nil => simp [edgeProblem, firstDuplicate]
  | cons e rest ih =>
      unfold edgeProblem firstDuplicate
      by_cases hsource : e.sourceKey ∈ keys
      · by_cases htarget : e.targetKey ∈ keys
        · by_cases hseen : e ∈ seen
          · simp [hsource, htarget, hseen]
          · simp [hsource, htarget, hseen, ih]
        · simp [hsource, htarget]
      · simp [hsource]

/-- Why there is no graph of these nodes and edges. -/
def problem (nodes : List (GraphNode Value)) (edges : List GraphEdge) : Option String :=
  (nodeProblem nodes).or (edgeProblem (nodes.map GraphNode.key) [] edges)

theorem problem_eq_none_iff {nodes : List (GraphNode Value)} {edges : List GraphEdge} :
    problem nodes edges = none ↔
      (nodes.map GraphNode.key).Nodup ∧ (∀ e ∈ edges, e.sourceKey ∈ nodes.map GraphNode.key) ∧
        (∀ e ∈ edges, e.targetKey ∈ nodes.map GraphNode.key) ∧ edges.Nodup := by
  rw [problem, Option.or_eq_none_iff, nodeProblem_eq_none_iff, edgeProblem_eq_none_iff,
    firstDuplicate_nil_eq_none_iff]

/-- Construct a graph, its nodes first. -/
def construct (nodes : List (GraphNode Value)) (edges : List GraphEdge) :
    Except String (WorkflowGraph Value) :=
  match nodes.findSome? fun n => keyProblem n.key with
  | some text => .error text
  | none =>
      match h : problem nodes edges with
      | some text => .error text
      | none =>
          .ok
            { nodes
              edges
              keys_nodup := (problem_eq_none_iff.mp h).1
              source_mem := (problem_eq_none_iff.mp h).2.1
              target_mem := (problem_eq_none_iff.mp h).2.2.1
              edges_nodup := (problem_eq_none_iff.mp h).2.2.2 }

/-- **What is constructed is the graph of these nodes and edges, where the keys are keys.** -/
theorem construct_eq_ok_iff {nodes : List (GraphNode Value)} {edges : List GraphEdge}
    {g : WorkflowGraph Value} :
    construct nodes edges = .ok g ↔
      (∀ n ∈ nodes, keyProblem n.key = none) ∧ g.nodes = nodes ∧ g.edges = edges := by
  unfold construct
  constructor
  · intro h
    split at h
    · simp at h
    · rename_i hkeys
      split at h
      · simp at h
      · rw [← Except.ok.inj h]
        exact ⟨by simpa using hkeys, rfl, rfl⟩
  · intro h
    obtain ⟨hkeys, rfl, rfl⟩ := h
    have hfind : (g.nodes.findSome? fun n => keyProblem n.key) = none := by simpa using hkeys
    have hproblem : problem g.nodes g.edges = none :=
      problem_eq_none_iff.mpr ⟨g.keys_nodup, g.source_mem, g.target_mem, g.edges_nodup⟩
    rw [hfind]
    dsimp only
    split
    · simp_all
    · rfl

/-- There is a graph exactly where the constructors see no problem. -/
theorem exists_construct_iff {nodes : List (GraphNode Value)} {edges : List GraphEdge} :
    (∃ g, construct nodes edges = .ok g) ↔
      (∀ n ∈ nodes, keyProblem n.key = none) ∧ problem nodes edges = none := by
  constructor
  · intro h
    obtain ⟨g, hg⟩ := h
    obtain ⟨hkeys, rfl, rfl⟩ := construct_eq_ok_iff.mp hg
    exact ⟨hkeys,
      problem_eq_none_iff.mpr ⟨g.keys_nodup, g.source_mem, g.target_mem, g.edges_nodup⟩⟩
  · intro h
    obtain ⟨hkeys, hproblem⟩ := h
    obtain ⟨hnodup, hsource, htarget, hedges⟩ := problem_eq_none_iff.mp hproblem
    exact ⟨⟨nodes, edges, hnodup, hsource, htarget, hedges⟩,
      construct_eq_ok_iff.mpr ⟨hkeys, rfl, rfl⟩⟩

end WorkflowGraph

end Orqent
