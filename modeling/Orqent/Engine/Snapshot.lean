/-
The scheduler's boundary: persisted state in, decisions out.

A snapshot is everything one tick is allowed to know.  It is addressed by node
key, and its executions are a partial mapping: a run materializes every node up
front, so a missing key means the snapshot was assembled wrongly, and the
scheduler says so rather than guessing.

A decision describes a transition; it does not perform one.
-/
import Orqent.Graph.Model

namespace Orqent

/-- One node execution, as the scheduler sees it. -/
structure NodeExecutionSnapshot (Value : Type) where
  nodeKey : NodeKey
  status : NodeExecutionStatus
  attempt : Nat
  outputs : Option (Dict String Value) := none

/-- Everything one scheduler tick is allowed to know. -/
structure RunSnapshot (Value : Type) where
  status : RunStatus
  graph : WorkflowGraph Value
  nodeExecutions : NodeKey → Option (NodeExecutionSnapshot Value)
  triggerPayload : Option (Dict String Value) := none

/-- The closed set of things a tick can decide. -/
inductive SchedulerDecision
  /-- Hand this node to execution: `PENDING → RUNNING`. -/
  | startNode (nodeKey : NodeKey)
  /-- Move the run itself. -/
  | setRunStatus (status : RunStatus)
  /-- Return a stranded node to the queue of work: `RUNNING → PENDING`. -/
  | recoverNode (nodeKey : NodeKey)
  /-- This node will never run: `PENDING → SKIPPED`. -/
  | skipNode (nodeKey : NodeKey)
deriving DecidableEq, Repr

/-- The run has one execution for each node of its graph. -/
def RunSnapshot.Complete {Value : Type} (s : RunSnapshot Value) : Prop :=
  ∀ k ∈ s.graph.nodeKeys, (s.nodeExecutions k).isSome

end Orqent
