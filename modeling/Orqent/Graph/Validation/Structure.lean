/-
Structural validation: the shape of the graph as a whole.

Does anything loop back on itself, is there exactly one trigger with nothing
connected into it, and can every node be reached from where the workflow starts.
Nodes whose type did not resolve are traversed, but not reported on.

The two traversals are the source's loops over an explicit stack, as a step on the
variables of the loop and a number of steps that is enough for it
(`workLeft`, `reachableFrom`).
-/
import Orqent.Graph.Validation.Config
import Mathlib.Algebra.GroupWithZero.Nat
import Mathlib.Data.String.Basic
import Mathlib.Data.List.Dedup

namespace Orqent

variable {Value : Type}

/-- Distinct targets of this node's outgoing edges, in declaration order. -/
def successors (g : WorkflowGraph Value) (key : NodeKey) : List NodeKey :=
  ((g.outgoing key).map GraphEdge.targetKey).reverse.dedup.reverse

/-! ### Cycles -/

/-- Unvisited, on the current path, finished. -/
inductive Colour
  | white
  | grey
  | black
deriving DecidableEq, Repr

/-- The smallest of some keys. -/
def smallest : List NodeKey → NodeKey
  | [] => ""
  | key :: rest => rest.foldl (fun least k => if k < least then k else least) key

/-- Rotate a cycle to start at its smallest key. -/
def normalise (cycle : List NodeKey) : List NodeKey :=
  let pivot := cycle.idxOf (smallest cycle)
  cycle.drop pivot ++ cycle.take pivot

/-- The variables of the search: the stack has its top first, each entry with the
successors its iterator has left; `depth` is the position of a node within `path`. -/
structure CycleSearch where
  colour : NodeKey → Colour
  path : List NodeKey
  depth : NodeKey → Nat
  stack : List (NodeKey × List NodeKey)
  cycles : List (List NodeKey)
  seen : List (List NodeKey)

namespace CycleSearch

/-- Nothing visited. -/
def empty : CycleSearch := ⟨fun _ => .white, [], fun _ => 0, [], [], []⟩

/-- A back edge to a node of the current path closes a cycle. -/
def close (s : CycleSearch) (successor : NodeKey) : CycleSearch :=
  let cycle := normalise (s.path.drop (s.depth successor))
  if cycle ∈ s.seen then s else { s with seen := cycle :: s.seen, cycles := s.cycles ++ [cycle] }

/-- Look at the next successor of the node on top, or finish that node. -/
def step (g : WorkflowGraph Value) (s : CycleSearch) : CycleSearch :=
  match s.stack with
  | [] => s
  | (node, []) :: below =>
      { s with
        colour := Function.update s.colour node .black
        path := s.path.dropLast
        stack := below }
  | (node, successor :: rest) :: below =>
      let s := { s with stack := (node, rest) :: below }
      match s.colour successor with
      | .white =>
          { s with
            colour := Function.update s.colour successor .grey
            depth := Function.update s.depth successor s.path.length
            path := s.path ++ [successor]
            stack := (successor, successors g successor) :: s.stack }
      | .grey => s.close successor
      | .black => s

/-- The loop: at most `fuel` steps, until the stack is empty. -/
def loop (g : WorkflowGraph Value) : Nat → CycleSearch → CycleSearch
  | 0, s => s
  | fuel + 1, s => if s.stack.isEmpty then s else loop g fuel (s.step g)

/-- A step for each successor to look at and one to finish each node. -/
def workLeft (g : WorkflowGraph Value) : Nat :=
  (g.nodeKeys.map fun key => (successors g key).length + 1).sum

/-- One pass of the outer loop. -/
def visit (g : WorkflowGraph Value) (s : CycleSearch) (start : NodeKey) : CycleSearch :=
  if s.colour start ≠ .white then s
  else
    loop g (workLeft g)
      { s with
        colour := Function.update s.colour start .grey
        path := [start]
        depth := Function.update s.depth start 0
        stack := [(start, successors g start)] }

end CycleSearch

/-- Every distinct cycle, each as the sequence of nodes around it. -/
def findCycles (g : WorkflowGraph Value) : List (List NodeKey) :=
  (g.nodeKeys.foldl (CycleSearch.visit g) .empty).cycles

/-- One issue for each cycle that is found. -/
def checkCycles (g : WorkflowGraph Value) : List ValidationIssue :=
  (findCycles g).map fun cycle =>
    { code := .cycleDetected
      message := "These nodes form a cycle: "
        ++ String.intercalate " -> " (cycle ++ cycle.take 1)
        ++ ". A workflow runs forwards, so it cannot loop back on itself."
      nodeKey := cycle.head? }

/-! ### Triggers -/

/-- The nodes that are triggers. -/
def triggerKeys (g : WorkflowGraph Value) (descriptors : Descriptors Value) : List NodeKey :=
  (g.nodes.filter fun node => (descriptors.get? node.key).any (·.isTrigger)).map GraphNode.key

/-- Exactly one trigger, with nothing connected into it. -/
def checkTriggers (g : WorkflowGraph Value) (triggers : List NodeKey) : List ValidationIssue :=
  (if triggers.isEmpty then
    [{ code := .noTrigger
       message := "The workflow has no trigger node, so nothing tells it how to start." }]
  else if 1 < triggers.length then
    triggers.map fun key =>
      { code := .multipleTriggers
        message := "The workflow has " ++ toString triggers.length
          ++ " trigger nodes; exactly one is allowed."
        nodeKey := some key }
  else []) ++
  triggers.flatMap fun key =>
    match g.incoming key with
    | [] => []
    | first :: _ =>
        [{ code := .triggerHasInput
           message := "A trigger starts the workflow, so nothing may connect into it. "
             ++ "Remove the connection from " ++ quoted first.sourceKey ++ "."
           nodeKey := some key }]

/-! ### Reachability -/

/-- The loop over the queue, which is taken from and added to at its end (here: the head). -/
def reachLoop (g : WorkflowGraph Value) : Nat → List NodeKey × List NodeKey → List NodeKey
  | 0, (reached, _) => reached
  | _, (reached, []) => reached
  | fuel + 1, (reached, key :: queue) =>
      reachLoop g fuel
        ((successors g key).foldl
          (fun (reached, queue) successor =>
            if successor ∈ reached then (reached, queue)
            else (successor :: reached, successor :: queue))
          (reached, queue))

/-- Everything that can be reached from the starts; each node is queued at most once. -/
def reachableFrom (g : WorkflowGraph Value) (starts : List NodeKey) : List NodeKey :=
  reachLoop g g.length (starts, starts.reverse)

/-- Warn about nodes the trigger can never reach. -/
def checkReachability (g : WorkflowGraph Value) (descriptors : Descriptors Value)
    (triggers : List NodeKey) : List ValidationIssue :=
  if triggers.isEmpty then []
  else
    let reached := reachableFrom g triggers
    (g.nodes.filter fun node => node.key ∉ reached ∧ descriptors.contains node.key).map fun node =>
      { code := .unreachableNode
        message := "This node cannot be reached from the trigger, so it will never run."
        severity := .warning
        nodeKey := some node.key }

/-- Report everything structurally wrong with the graph. -/
def validateStructure (g : WorkflowGraph Value) (descriptors : Descriptors Value) :
    List ValidationIssue :=
  let triggers := triggerKeys g descriptors
  checkCycles g ++ checkTriggers g triggers ++ checkReachability g descriptors triggers

end Orqent
