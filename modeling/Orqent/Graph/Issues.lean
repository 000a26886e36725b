/-
What is wrong with a graph, in a form a builder can point at.

The codes and severities are closed, and listed in the order the source declares
them: that order is what a report sorts by.
-/
import Orqent.Graph.Model

namespace Orqent

/-- How much an issue matters: an error blocks publishing, a warning does not. -/
inductive Severity
  | error
  | warning
deriving DecidableEq, Repr

/-- The closed set of things validation can report. -/
inductive IssueCode
  | unknownNodeType
  | deprecatedNodeType
  | invalidConfig
  | unknownHandle
  | arityViolation
  | requiredInputMissing
  | incompatibleTypes
  | cycleDetected
  | noTrigger
  | multipleTriggers
  | triggerHasInput
  | unreachableNode
deriving DecidableEq, Repr

/-- Errors come before warnings. -/
def Severity.rank : Severity → Nat
  | error => 0
  | warning => 1

/-- The declaration order of the codes. -/
def IssueCode.rank : IssueCode → Nat
  | unknownNodeType => 0
  | deprecatedNodeType => 1
  | invalidConfig => 2
  | unknownHandle => 3
  | arityViolation => 4
  | requiredInputMissing => 5
  | incompatibleTypes => 6
  | cycleDetected => 7
  | noTrigger => 8
  | multipleTriggers => 9
  | triggerHasInput => 10
  | unreachableNode => 11

/-- One problem with a graph.  `field` is a path within a node's configuration. -/
structure ValidationIssue where
  code : IssueCode
  message : String
  severity : Severity := .error
  nodeKey : Option NodeKey := none
  edge : Option GraphEdge := none
  field : Option String := none
deriving DecidableEq, Repr

/-- Whether this issue blocks publishing. -/
def ValidationIssue.isError (i : ValidationIssue) : Bool := i.severity = .error

end Orqent
