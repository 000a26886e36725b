/-
Running one node: everything between "start this" and a result.

Inputs are resolved by walking the persisted edges, the context every runner
receives is built, and an escaped exception is turned into a failure.  The runner
itself is outside: what it does is an argument (`RunnerOutcome`), what it is handed
is `buildContext`.
-/
import Orqent.Engine.Snapshot
import Orqent.Nodes.Contract
import Orqent.Lib.Decimal

namespace Orqent

variable {Value : Type}

/--
One inbound edge's contribution: the upstream's `outputs[source_handle]` becomes
`inputs[target_handle]`.  An upstream handle that produced nothing leaves the
input absent.
-/
def receive (s : RunSnapshot Value) (inputs : Dict String Value) (e : GraphEdge) :
    Dict String Value :=
  match s.nodeExecutions e.sourceKey with
  | none => inputs
  | some upstream =>
      match upstream.outputs with
      | none => inputs
      | some outputs =>
          match outputs.get? e.sourceHandle with
          | none => inputs
          | some value => inputs.set e.targetHandle value

/-- The values arriving on this node's input handles. -/
def resolveInputs (s : RunSnapshot Value) (key : NodeKey) : Dict String Value :=
  (s.graph.incoming key).foldl (receive s) []

/-- The key a runner deduplicates against: stable for one attempt, different for the next. -/
def idempotencyKey (runId workflowNodeId attempt : Nat) : String :=
  toString runId ++ ":" ++ toString workflowNodeId ++ ":" ++ toString attempt

/-- Within a run the key names the node's row and the attempt. -/
theorem idempotencyKey_inj {runId node node' attempt attempt' : Nat}
    (h : idempotencyKey runId node attempt = idempotencyKey runId node' attempt') :
    node = node' ∧ attempt = attempt' := by
  have hlist := congrArg String.toList h
  simp only [idempotencyKey, String.toList_append] at hlist
  rw [List.append_assoc, List.append_assoc, List.append_assoc, List.append_assoc,
    List.append_assoc, List.append_assoc] at hlist
  have hrest := List.append_cancel_left (List.append_cancel_left hlist)
  have hcolon : (":" : String).toList = [':'] := rfl
  rw [hcolon, List.singleton_append, List.singleton_append,
    List.append_cons_inj_of_notMem (colon_notMem node) (colon_notMem attempt)] at hrest
  exact ⟨toString_nat_inj hrest.1, toString_nat_inj hrest.2.2⟩

/-- What a node is given when it runs. -/
structure NodeRunContext (Value : Type) where
  config : Dict String Value
  inputs : Dict String Value
  idempotencyKey : String
  triggerPayload : Dict String Value
  organizationPublicId : String
  resumeToken : Option String
deriving DecidableEq, Repr

/-- Assemble what the runner is handed, or say why the node cannot be run. -/
def buildContext (s : RunSnapshot Value) (registry : NodeRegistry Value) (key : NodeKey)
    (runId : Nat) (organizationPublicId : String) (workflowNodeId attempt : Nat)
    (resumeToken : Option String) : Except EngineError (NodeRunContext Value) := do
  let some node := s.graph.node key
    | .error (.domainRule ("The graph has no node " ++ quoted key ++ "."))
  let descriptor ← registry.get node.nodeType node.version
  if !(descriptor.configModel.errors node.config).isEmpty then
    .error (.domainRule
      ("Node " ++ quoted key ++ " has configuration its type " ++ descriptor.qualifiedName
        ++ " no longer accepts: " ++ descriptor.configModel.errorText node.config))
  else
    .ok
      { config := node.config
        inputs := resolveInputs s key
        idempotencyKey := idempotencyKey runId workflowNodeId attempt
        triggerPayload := s.triggerPayload.getD []
        organizationPublicId
        resumeToken }

/-- Where the node's type is registered and accepts its configuration, there is a context. -/
theorem buildContext_ok {s : RunSnapshot Value} {registry : NodeRegistry Value} {key : NodeKey}
    {runId : Nat} {organizationPublicId : String} {workflowNodeId attempt : Nat}
    {resumeToken : Option String} {node : GraphNode Value} {d : NodeDescriptor Value}
    (hnode : s.graph.node key = some node) (hget : registry.get node.nodeType node.version = .ok d)
    (hconfig : d.configModel.errors node.config = []) :
    buildContext s registry key runId organizationPublicId workflowNodeId attempt resumeToken =
      .ok
        { config := node.config
          inputs := resolveInputs s key
          idempotencyKey := idempotencyKey runId workflowNodeId attempt
          triggerPayload := s.triggerPayload.getD []
          organizationPublicId
          resumeToken } := by
  unfold buildContext
  rw [hnode]
  show (registry.get node.nodeType node.version >>= _) = _
  rw [hget]
  show (if _ then _ else _) = _
  rw [if_neg (by simp [hconfig])]

/-- There is a context only where the node's type is registered and accepts its
configuration, and this is what it is. -/
theorem buildContext_inv {s : RunSnapshot Value} {registry : NodeRegistry Value} {key : NodeKey}
    {runId : Nat} {organizationPublicId : String} {workflowNodeId attempt : Nat}
    {resumeToken : Option String} {context : NodeRunContext Value}
    (h : buildContext s registry key runId organizationPublicId workflowNodeId attempt resumeToken
      = .ok context) :
    ∃ node d, s.graph.node key = some node ∧ registry.get node.nodeType node.version = .ok d ∧
      d.configModel.errors node.config = [] ∧
      context =
        { config := node.config
          inputs := resolveInputs s key
          idempotencyKey := idempotencyKey runId workflowNodeId attempt
          triggerPayload := s.triggerPayload.getD []
          organizationPublicId
          resumeToken } := by
  unfold buildContext at h
  cases hnode : s.graph.node key with
  | none =>
      rw [hnode] at h
      cases h
  | some node =>
      rw [hnode] at h
      change (registry.get node.nodeType node.version >>= _) = _ at h
      cases hget : registry.get node.nodeType node.version with
      | error e =>
          rw [hget] at h
          cases h
      | ok d =>
          rw [hget] at h
          change (if _ then _ else _) = _ at h
          split at h
          · cases h
          · rename_i hconfig
            exact ⟨node, d, rfl, hget, by simpa using hconfig, (Except.ok.inj h).symm⟩

/-- The context says whose run it is. -/
theorem buildContext_organization {s : RunSnapshot Value} {registry : NodeRegistry Value}
    {key : NodeKey} {runId : Nat} {organizationPublicId : String} {workflowNodeId attempt : Nat}
    {resumeToken : Option String} {context : NodeRunContext Value}
    (h : buildContext s registry key runId organizationPublicId workflowNodeId attempt resumeToken
      = .ok context) : context.organizationPublicId = organizationPublicId := by
  obtain ⟨node, d, -, -, -, rfl⟩ := buildContext_inv h
  rfl

/-- What a runner did: it returned, or an exception escaped from it. -/
inductive RunnerOutcome (Value : Type)
  | returned (result : NodeResult Value)
  | raised (typeName message : String)
deriving DecidableEq, Repr

/-- A node's own exception is recorded as a failure that must not be retried. -/
def RunnerOutcome.result : RunnerOutcome Value → NodeResult Value
  | .returned result => result
  | .raised typeName message => .failed (typeName ++ ": " ++ message) false

/-! ### What the inputs are -/

/-- The value an edge carried, if it carried one. -/
def carried (s : RunSnapshot Value) (e : GraphEdge) : Option Value :=
  (s.nodeExecutions e.sourceKey).bind fun upstream =>
    upstream.outputs.bind fun outputs => outputs.get? e.sourceHandle

/-- The entry an edge contributes to the inputs of its target. -/
def arrival (s : RunSnapshot Value) (e : GraphEdge) : Option (String × Value) :=
  (carried s e).map fun value => (e.targetHandle, value)

theorem receive_eq (s : RunSnapshot Value) (inputs : Dict String Value) (e : GraphEdge) :
    receive s inputs e = inputs.assign (arrival s e).toList := by
  unfold receive
  rw [arrival, carried]
  cases s.nodeExecutions e.sourceKey with
  | none => rfl
  | some upstream =>
      show (match upstream.outputs with | none => _ | some outputs => _) = _
      cases houtputs : upstream.outputs with
      | none => simp [houtputs, Dict.assign]
      | some outputs => cases hvalue : outputs.get? e.sourceHandle <;>
          simp [houtputs, hvalue, Dict.assign]

theorem foldl_receive (s : RunSnapshot Value) (edges : List GraphEdge)
    (inputs : Dict String Value) :
    edges.foldl (receive s) inputs = inputs.assign (edges.filterMap (arrival s)) := by
  induction edges generalizing inputs with
  | nil => rfl
  | cons e rest ih =>
      rw [List.foldl_cons, ih, receive_eq, List.filterMap_cons]
      cases arrival s e <;> rfl

/-- An input is there if some edge into it carried a value. -/
theorem resolveInputs_contains_iff {s : RunSnapshot Value} {key : NodeKey} {handle : String} :
    (resolveInputs s key).contains handle = true ↔
      ∃ e ∈ s.graph.incoming key, e.targetHandle = handle ∧ (carried s e).isSome = true := by
  have hempty : Dict.contains ([] : Dict String Value) handle = false := rfl
  unfold resolveInputs
  rw [foldl_receive, Dict.contains_assign, hempty]
  simp only [Bool.false_eq_true, false_or, List.mem_map, List.mem_filterMap]
  constructor
  · intro h
    obtain ⟨entry, ⟨e, he, harrival⟩, rfl⟩ := h
    obtain ⟨value, hvalue, rfl⟩ := Option.map_eq_some_iff.mp harrival
    exact ⟨e, he, rfl, Option.isSome_iff_exists.mpr ⟨value, hvalue⟩⟩
  · intro h
    obtain ⟨e, he, rfl, hsome⟩ := h
    obtain ⟨value, hvalue⟩ := Option.isSome_iff_exists.mp hsome
    exact ⟨(e.targetHandle, value), ⟨e, he, by rw [arrival, hvalue]; rfl⟩, rfl⟩

/-- The handles the arrivals name are among the handles of the edges, in the same order. -/
theorem arrivals_handles (s : RunSnapshot Value) (edges : List GraphEdge) :
    ((edges.filterMap (arrival s)).map Prod.fst).Sublist (edges.map GraphEdge.targetHandle) := by
  induction edges with
  | nil => exact List.Sublist.refl _
  | cons e rest ih =>
      rw [List.filterMap_cons, arrival]
      cases carried s e with
      | none => exact List.Sublist.cons _ ih
      | some value => exact List.Sublist.cons_cons _ ih

/-- Without fan-in the inbound edges of one node arrive at distinct handles. -/
theorem incoming_handles_nodup {g : WorkflowGraph Value} (hfan : g.SingleFanIn) (key : NodeKey) :
    ((g.incoming key).map GraphEdge.targetHandle).Nodup := by
  have hpairs : ((g.incoming key).map fun e => (e.targetKey, e.targetHandle)).Nodup :=
    List.Nodup.sublist (List.Sublist.map _ List.filter_sublist) hfan
  have hkey : ((g.incoming key).map fun e => (e.targetKey, e.targetHandle))
      = ((g.incoming key).map GraphEdge.targetHandle).map fun h => (key, h) := by
    rw [List.map_map]
    refine List.map_congr_left fun e he => ?_
    rw [((g.mem_incoming).mp he).2]
    rfl
  rw [hkey] at hpairs
  exact List.Nodup.of_map _ hpairs

/-- **Without fan-in the inputs are the carried values, in declaration order.** -/
theorem resolveInputs_eq {s : RunSnapshot Value} (hfan : s.graph.SingleFanIn) (key : NodeKey) :
    resolveInputs s key = (s.graph.incoming key).filterMap (arrival s) := by
  unfold resolveInputs
  rw [foldl_receive]
  exact Dict.assign_eq _ ((incoming_handles_nodup hfan key).sublist (arrivals_handles s _))

end Orqent
