/-
What a workflow of built-in types computes.

Without waits, agents and conditions that look up what cannot be a key, what a node emits is
a matter of its configuration, its inputs and what the run was started with (`denote`).  So
the graph has a meaning, its evaluation node by node, and the engine computes it, whatever
the batches and the crashes.
-/
import Orqent.Runtime.BuiltIns

namespace Orqent

open Scheduler

variable {Args : Type} {ports : CataloguePorts} {agentConfig : ConfigReader AgentConfig}
  {r : InMemoryNodeRegistry Args} {env : Env Json} {s : Sys Unit Json} {now : Time} {key : NodeKey}

/-- A node that neither waits nor may fail. -/
def Calm (ports : CataloguePorts) (n : GraphNode Json) : Prop :=
  n.nodeType ≠ "core.wait" ∧ ¬ MayFail ports (n.nodeType, n.version) n.config

/-- What a runner is handed, where its attempt and its run do not matter. -/
def inputContext (env : Env Json) (key : NodeKey) (inputs : Dict String Json) :
    NodeRunContext Json where
  config := ((env.graph.node key).map GraphNode.config).getD []
  inputs
  idempotencyKey := ""
  triggerPayload := env.triggerPayload.getD []
  organizationPublicId := env.organizationPublicId
  resumeToken := none

/-- What each node makes of its inputs. -/
def denote (r : InMemoryNodeRegistry Args) (env : Env Json) (around : Surroundings Args) :
    NodeRunner Json := fun key inputs =>
  match r.call env around key (inputContext env key inputs) with
  | some (.returned (.completed outputs)) => outputs
  | _ => []

/-- A steady type that has what it requires completes. -/
theorem completes_of_calm {node : GraphNode Json} {t : NodeType Args}
    (htyped : Typed ports agentConfig env key node t) (hcalm : Calm ports node)
    {context : NodeRunContext Json} (hconfig : context.config = node.config)
    (hsupplied : t.descriptor.Supplied context) (around : Surroundings Args) :
    t.Steady ∧ ∃ outputs, t.runner around context = .returned (.completed outputs) := by
  obtain ⟨hwait, hnot⟩ := hcalm
  have hsteady : t.Steady := by
    refine BuiltIn.catalogue_steady ports agentConfig htyped.2.1 (fun hc => ?_) fun hc => ?_
    · exact hwait (Prod.mk.inj (htyped.2.2.symm.trans hc)).1
    · exact hnot (Or.inl (htyped.2.2.symm.trans hc))
  have hbehaves := BuiltIn.catalogue_behaves ports (fun _ _ => True) (fun _ => True) agentConfig t
    htyped.2.1
  have hfails : ∀ error retryable, (t.runner around context).result ≠ .failed error retryable := by
    intro error retryable hfailed
    have hmay := hbehaves.fails around context error retryable hsupplied hfailed
    rw [htyped.2.2, hconfig] at hmay
    exact hnot hmay
  refine ⟨hsteady, ?_⟩
  cases houtcome : t.runner around context with
  | raised typeName message =>
      rw [houtcome] at hfails
      exact absurd rfl (hfails _ _)
  | returned result =>
      cases result with
      | completed outputs => exact ⟨outputs, rfl⟩
      | suspended token hint =>
        exact absurd houtcome (hsteady.unsuspended around context token hint)
      | failed error retryable =>
          rw [houtcome] at hfails
          exact absurd rfl (hfails _ _)

/-- **A runner that is called returns what the node denotes.** -/
theorem Called.denoted (hbuild : buildRegistry Args ports agentConfig = .ok r)
    (hregistry : env.registry = r.port)
    (hvalid : (validateGraph env.graph env.registry).isValid = true)
    (hcalm : ∀ n ∈ env.graph.nodes, Calm ports n) {snap : RunRows Json} (hok : RunOk env.graph snap)
    (hpayload : snap.run.triggerPayload = env.triggerPayload) {l : Launch}
    (hsatisfied : upstreamSatisfied (snapshot env.graph snap) l.key = true)
    {context : NodeRunContext Json} (hcontext : invocation env snap l = .ok (some context))
    {outcome : RunnerOutcome Json} (hcalled : Called r env l.key context outcome)
    (around : Surroundings Args) : outcome =
      .returned (.completed
        (denote r env around l.key (resolveInputs (snapshot env.graph snap) l.key))) := by
  obtain ⟨node, t, htyped, hconfig, hsupplied⟩ :=
    supplied_of_started hbuild hregistry hvalid hok hsatisfied hcontext
  obtain ⟨node', run, around', hnode, hrun, rfl⟩ := hcalled
  obtain rfl : node = node' := Option.some.inj (htyped.1.symm.trans hnode)
  obtain rfl := runner_of_typed hbuild htyped hrun
  obtain ⟨hsteady, outputs, hcompletes⟩ := completes_of_calm htyped
    (hcalm node (List.mem_of_find?_eq_some hnode)) hconfig hsupplied around'
  obtain ⟨-, hbuilt⟩ := invocation_inv hcontext
  obtain ⟨node', -, hnode', -, -, heq⟩ := buildContext_inv hbuilt
  have hsame :
    t.runner around (inputContext env l.key (resolveInputs (snapshot env.graph snap) l.key))
      = t.runner around' context := by
    refine hsteady.same around around' _ context ?_ ?_ ?_
    · rw [hconfig, inputContext, hnode]
      rfl
    · rw [heq]
      rfl
    · rw [heq]
      show env.triggerPayload.getD [] = snap.run.triggerPayload.getD []
      rw [hpayload]
  have hcall : r.call env around l.key
      (inputContext env l.key (resolveInputs (snapshot env.graph snap) l.key)) =
        some (.returned (.completed outputs)) := by
    unfold InMemoryNodeRegistry.call
    rw [hnode]
    simp only [Option.bind_eq_bind, Option.bind_some, hrun, Except.toOption]
    rw [hsame, hcompletes]
    rfl
  rw [hcompletes, denote, hcall]

/-- Where the registry's runners are what is called, a run is that of what they denote. -/
theorem deterministic_of_builtIns (hbuild : buildRegistry Args ports agentConfig = .ok r)
    (hregistry : env.registry = r.port)
    (hvalid : (validateGraph env.graph env.registry).isValid = true)
    (hcalm : ∀ n ∈ env.graph.nodes, Calm ports n) (around : Surroundings Args)
    {tr : List (Unit × Action Json)}
    (h : Trace.run (Sys.step env) (Sys.start Unit env now) tr = some s)
    (hruns : Trace.Along (Sys.step env) (RunsBuiltIns r env) (Sys.start Unit env now) tr) :
    Trace.Along (Sys.step env) (Deterministic env (denote r env around)) (Sys.start Unit env now)
      tr := by
  refine (Trace.along_of_invariant (I := fun _ => True) trivial ?_ (fun _ _ _ _ _ _ _ _ => trivial)
    h hruns).2
  intro tr s a s' hrun _ hcalls hstep
  obtain ⟨⟨⟩, a⟩ := a
  cases a with
  | invoke key outcome =>
      obtain ⟨cycles, snap, batch, hphase, l, context, rfl, hok, hsatisfied, hcontext, hcalled⟩ :=
        called_of_step hbuild hregistry hvalid hrun hstep hcalls
      have hpayload := all_payloads hrun ()
      rw [hphase] at hpayload
      simp only [Deterministic, hphase]
      exact hcalled.denoted hbuild hregistry hvalid hcalm hok hpayload hsatisfied hcontext around
  | _ => trivial

/--
**A workflow of built-in types computes what it denotes.**  On a graph that validates and
has no wait, no agent and no condition that looks up what cannot be a key, whatever the
trigger payload and the crashes of its driver: every runner is called on the inputs the
evaluation of the graph has for its node, and when an advance returns, the run is
`COMPLETED` with the outputs of the evaluation, and with the rest of the nodes skipped.
-/
theorem workflow_computes (hbuild : buildRegistry Args ports agentConfig = .ok r)
    (hregistry : env.registry = r.port)
    (hvalid : (validateGraph env.graph env.registry).isValid = true)
    (hcalm : ∀ n ∈ env.graph.nodes, Calm ports n) (around : Surroundings Args)
    {tr : List (Unit × Action Json)}
    (h : Trace.run (Sys.step env) (Sys.start Unit env now) tr = some s)
    (hruns : Trace.Along (Sys.step env) (RunsBuiltIns r env) (Sys.start Unit env now) tr) :
    Trace.Along (Sys.step env) (OnReferenceInputs env (denote r env around))
        (Sys.start Unit env now) tr ∧
      ∀ status, (s.procs ()).phase = .returned status →
        status = .completed ∧ Computed env.graph (denote r env around) s.rows :=
  reference_computed (acyclic_of_valid hvalid)
    (singleFanIn_of_valid (singleInputs_of_build hbuild hregistry) hvalid)
    (nodeKeys_ne_nil_of_valid hvalid) (repeatable_of_build hbuild hregistry hvalid) h
    (deterministic_of_builtIns hbuild hregistry hvalid hcalm around h hruns)

/-- The greeting is computed, whatever crashed on the way. -/
theorem greet_computes : ∃ s,
    Trace.run (Sys.step greetEnv) (Sys.start Unit greetEnv 0) (greetDrive.map ((), ·)) = some s ∧
      Computed greetGraph (denote greetRegistry greetEnv greetSurroundings) s.rows ∧
      (s.rows.executions "greeting").output = some [("main", .string "hello")] := by
  have hcalm : ∀ n ∈ greetEnv.graph.nodes, Calm greetPorts n := by
    intro n hn
    simp only [greetEnv, greetGraph, List.mem_cons, List.not_mem_nil, or_false] at hn
    rcases hn with rfl | rfl | rfl <;>
      exact ⟨by decide, fun hmay => by rcases hmay with hc | ⟨hc, -⟩ <;> simp at hc⟩
  obtain ⟨s, hrun, hruns, hphase⟩ := greetDrive_runs
  obtain ⟨-, hcomputed⟩ := (workflow_computes greetRegistry_built rfl greetGraph_valid hcalm
    greetSurroundings hrun hruns).2 _ hphase
  refine ⟨s, hrun, hcomputed, ?_⟩
  exact (hcomputed.ran "greeting" (by decide) [] _ (by rfl)).2

end Orqent
