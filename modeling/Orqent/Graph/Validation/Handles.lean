/-
Handle validation: whether the connections a user drew can carry data.

Edges are reported before nodes, both in declaration order.  A node whose type did
not resolve has no declared handles and is skipped, as an edge endpoint and as a
node to check inputs on.
-/
import Orqent.Graph.Validation.Config

namespace Orqent

variable {Value : Type}

/-! ### Type compatibility -/

/-- Whether a value of type `source` may flow into a handle of type `target`. -/
def compatible : HandleType → HandleType → Bool
  | .any, _ => true
  | _, .any => true
  | .record _, .json => true
  | .list source, .list target => source = target || compatible source target
  | source, target => source = target

/-! ### Per edge -/

/-- The half of an unknown-handle message that says what could have been used. -/
def available (names : List String) : String :=
  if names.isEmpty then "It has none."
  else "Available: " ++ String.intercalate ", " (names.map quoted) ++ "."

/-- Both ends name a real handle, and the types line up. -/
def checkEdge (descriptors : Descriptors Value) (edge : GraphEdge) : List ValidationIssue :=
  let sourceDescriptor := descriptors.get? edge.sourceKey
  let targetDescriptor := descriptors.get? edge.targetKey
  let source := sourceDescriptor.bind fun d => d.output edge.sourceHandle
  let target := targetDescriptor.bind fun d => d.input edge.targetHandle
  let sourceIssues :=
    match sourceDescriptor, source with
    | some d, none =>
        [{ code := .unknownHandle
           message := d.qualifiedName ++ " has no output handle " ++ quoted edge.sourceHandle ++
             ". "
             ++ available (d.outputs.map OutputHandle.name)
           nodeKey := some edge.sourceKey
           edge := some edge }]
    | _, _ => []
  let targetIssues :=
    match targetDescriptor, target with
    | some d, none =>
        [{ code := .unknownHandle
           message := d.qualifiedName ++ " has no input handle " ++ quoted edge.targetHandle ++ ". "
             ++ available (d.inputs.map InputHandle.name)
           nodeKey := some edge.targetKey
           edge := some edge }]
    | _, _ => []
  let typeIssues :=
    match source, target with
    | some s, some t =>
        if compatible s.type t.type then []
        else
          [{ code := .incompatibleTypes
             message := edge.text ++ " carries " ++ s.type.toText ++ ", but "
               ++ quoted edge.targetHandle ++ " accepts " ++ t.type.toText ++ "."
             nodeKey := some edge.targetKey
             edge := some edge }]
    | _, _ => []
  sourceIssues ++ targetIssues ++ typeIssues

/-! ### Per node -/

/-- What one declared input says about the number of its connections. -/
def checkInput (key : NodeKey) (count : Nat) (handle : InputHandle) : List ValidationIssue :=
  (if handle.arity = .single ∧ 1 < count then
    [{ code := .arityViolation
       message := "Input " ++ quoted handle.name ++ " accepts one connection but has "
         ++ toString count
         ++ ". Remove the extra connections, or use a node that merges them."
       nodeKey := some key }]
  else []) ++
  (if handle.required = true ∧ count = 0 then
    [{ code := .requiredInputMissing
       message := "Input " ++ quoted handle.name ++ " is required but nothing connects to it. "
         ++ "It expects " ++ handle.type.toText ++ "."
       nodeKey := some key }]
  else [])

/-- Each declared input handle has an acceptable number of connections. -/
def checkInputs (g : WorkflowGraph Value) (key : NodeKey) (descriptor : NodeDescriptor Value) :
    List ValidationIssue :=
  let targets := (g.incoming key).map GraphEdge.targetHandle
  descriptor.inputs.flatMap fun handle => checkInput key (targets.count handle.name) handle

/-- Report everything wrong with the graph's handles and connections. -/
def validateHandles (g : WorkflowGraph Value) (descriptors : Descriptors Value) :
    List ValidationIssue :=
  g.edges.flatMap (checkEdge descriptors) ++
    g.nodes.flatMap fun node =>
      match descriptors.get? node.key with
      | none => []
      | some descriptor => checkInputs g node.key descriptor

end Orqent
