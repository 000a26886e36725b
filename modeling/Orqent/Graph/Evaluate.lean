/-
What a workflow computes.

The reference: every node once, as a recursion over the graph.  A node with no
inbound edge runs on nothing; a node with a live inbound edge runs on the values of
its live edges; any other node is skipped.  An edge is live when its source ran and
emitted on its source handle.

There are no ticks, batches or rows here.  `evaluate_eq` says that on an acyclic graph
this is the recursion it claims to be.
-/
import Orqent.Graph.Model
import Orqent.Lib.Dict

namespace Orqent

variable {Value : Type}

/-- What the runner of each node emits, as a function of its inputs. -/
abbrev NodeRunner (Value : Type) := NodeKey → Dict String Value → Dict String Value

/-- What became of a node: its inputs and outputs, or `none` if it was skipped. -/
abbrev Evaluation (Value : Type) := Option (Dict String Value × Dict String Value)

/-- The input an edge carries, if it is live. -/
def liveInput (f : NodeKey → Evaluation Value) (e : GraphEdge) : Option (String × Value) :=
  (f e.sourceKey).bind fun ran =>
    (ran.2.get? e.sourceHandle).map fun value => (e.targetHandle, value)

namespace WorkflowGraph

variable {g : WorkflowGraph Value} {runner : NodeRunner Value} {key : NodeKey}

/-- One step of the recursion: a node, from what became of the others. -/
def evaluateFrom (g : WorkflowGraph Value) (runner : NodeRunner Value)
    (f : NodeKey → Evaluation Value) (key : NodeKey) : Evaluation Value :=
  let inputs := (g.incoming key).filterMap (liveInput f)
  if (g.incoming key).isEmpty || (g.incoming key).any fun e => (liveInput f e).isSome then
    some (inputs, runner key inputs)
  else none

/-- What becomes of every node. -/
def evaluate (g : WorkflowGraph Value) (runner : NodeRunner Value) : NodeKey → Evaluation Value :=
  Digraph.rounds (g.evaluateFrom runner) none g.nodeKeys.length

theorem evaluateFrom_local : Digraph.Local g.Feeds (g.evaluateFrom runner) := by
  intro f f' key h
  have hlive : ∀ e ∈ g.incoming key, liveInput f e = liveInput f' e := by
    intro e he
    rw [liveInput, liveInput, h _ (g.feeds_of_incoming he)]
  have hinputs : (g.incoming key).filterMap (liveInput f)
      = (g.incoming key).filterMap (liveInput f') := List.filterMap_congr hlive
  have hany : ((g.incoming key).any fun e => (liveInput f e).isSome)
      = (g.incoming key).any fun e => (liveInput f' e).isSome := by
    rw [Bool.eq_iff_iff, List.any_eq_true, List.any_eq_true]
    exact exists_congr fun e => and_congr_right fun he => by rw [hlive e he]
  rw [evaluateFrom, evaluateFrom, hinputs, hany]

/-- **The recursion.** -/
theorem evaluate_eq (hacyclic : g.Acyclic) (hkey : key ∈ g.nodeKeys) :
    g.evaluate runner key = g.evaluateFrom runner (g.evaluate runner) key :=
  Digraph.rounds_eq hacyclic (fun _ _ ⟨e, he, ha, _⟩ => ha ▸ g.source_mem e he)
    evaluateFrom_local hkey

end WorkflowGraph

end Orqent
