/-
Graph validation: the rules a workflow must satisfy to be publishable.

Four stages in a fixed order, none of which stops the next: resolve the node types,
then configuration, handles and structure over what resolved.  The report lists
every issue, sorted by severity, node and code.
-/
import Orqent.Graph.Validation.Handles
import Orqent.Graph.Validation.Structure
import Mathlib.Data.List.Sort
import Mathlib.Data.Prod.Lex

namespace Orqent

variable {Value : Type}

/-- Everything wrong with one graph. -/
structure ValidationReport where
  issues : List ValidationIssue
deriving DecidableEq, Repr

/-- Whether the graph may be published: errors block, warnings do not. -/
def ValidationReport.isValid (r : ValidationReport) : Bool := !r.issues.any (·.isError)

/-- Resolve one node. -/
def resolveNode (registry : NodeRegistry Value) (acc : Descriptors Value × List ValidationIssue)
    (node : GraphNode Value) : Descriptors Value × List ValidationIssue :=
  match registry.find node.nodeType node.version with
  | none =>
      (acc.1, acc.2 ++
        [{ code := .unknownNodeType
           message := "There is no node type " ++ node.nodeType ++ "@" ++ toString node.version
             ++ ". It may have been removed, or this workflow may predate "
             ++ "the running version of the server."
           nodeKey := some node.key }])
  | some descriptor =>
      (acc.1.set node.key descriptor,
        if descriptor.deprecated then
          acc.2 ++
            [{ code := .deprecatedNodeType
               message := "Node type " ++ descriptor.qualifiedName ++ " is deprecated. "
                 ++ "It still runs, but a newer version is available."
               severity := .warning
               nodeKey := some node.key }]
        else acc.2)

/-- Turn each node's type and version into a descriptor; only what resolves is mapped. -/
def resolve (g : WorkflowGraph Value) (registry : NodeRegistry Value) :
    Descriptors Value × List ValidationIssue :=
  g.nodes.foldl (resolveNode registry) ([], [])

/-- What the report is sorted by: severity, node and code; issues without a node first. -/
def sortKey (i : ValidationIssue) : Nat ×ₗ Nat ×ₗ String ×ₗ Nat :=
  toLex (i.severity.rank,
    toLex (if i.nodeKey.isNone then 0 else 1, toLex (i.nodeKey.getD "", i.code.rank)))

/-- Run every validation rule against the graph and report all of them. -/
def validateGraph (g : WorkflowGraph Value) (registry : NodeRegistry Value) : ValidationReport :=
  let (descriptors, issues) := resolve g registry
  let issues := issues ++ validateConfig g descriptors ++ validateHandles g descriptors
    ++ validateStructure g descriptors
  ⟨issues.insertionSort fun a b => sortKey a ≤ sortKey b⟩

end Orqent
