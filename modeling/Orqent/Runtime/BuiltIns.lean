/-
Runs of workflows made of the built-in types.

`RunsBuiltIns` says what happens at an invocation there: the runner the registry has for the
node's type is called with the context built for it.  With what each type owes
(`NodeType.Behaves`) and what validation and scheduling see to, that the inputs a type
requires are there when it runs, it follows that nothing but an agent, or a condition that
looks a list or an object up among keys, ever fails.
-/
import Orqent.Nodes.Behaviour
import Orqent.Runtime.Reference
import Orqent.Runtime.TypeSafety

namespace Orqent

open Scheduler

variable {P Args : Type} {ports : CataloguePorts} {agentConfig : ConfigReader AgentConfig}
  {r : InMemoryNodeRegistry Args} {env : Env Json} {s : Sys P Json} {p : P} {now : Time}
  {key : NodeKey} (record : RecordModel → Dict String Json → Prop) (binary : Json → Prop)

/-- The runner that was called is that of the node's type. -/
def Called (r : InMemoryNodeRegistry Args) (env : Env Json) (key : NodeKey)
    (context : NodeRunContext Json) (outcome : RunnerOutcome Json) : Prop :=
  ∃ node run around, env.graph.node key = some node ∧
    r.runner node.nodeType node.version = .ok run ∧ outcome = run around context

/-- What is invoked is the runner registered for the node's type, on the node's context. -/
def RunsBuiltIns (r : InMemoryNodeRegistry Args) (env : Env Json) (s : Sys P Json) :
    P × Action Json → Prop
  | (p, .invoke key outcome) => ∀ cycles snap batch,
      (s.procs p).phase = .invoking cycles snap batch → ∀ l, (l, none) ∈ batch → l.key = key →
        ∀ context, invocation env snap l = .ok (some context) → Called r env key context outcome
  | _ => True

/-- A node and its type. -/
def Typed (ports : CataloguePorts) (agentConfig : ConfigReader AgentConfig) (env : Env Json)
    (key : NodeKey) (node : GraphNode Json) (t : NodeType Args) : Prop :=
  env.graph.node key = some node ∧ t ∈ BuiltIn.catalogue ports agentConfig ∧
    t.key = (node.nodeType, node.version)

/-- A result of a node is one its type owes. -/
def Owed (ports : CataloguePorts) (agentConfig : ConfigReader AgentConfig) (Args : Type)
    (env : Env Json) (key : NodeKey) (result : NodeResult Json) : Prop :=
  ∃ node, ∃ t : NodeType Args, Typed ports agentConfig env key node t ∧
    (∀ outputs, result = .completed outputs →
      t.descriptor.Emits (jsonTyping record binary) outputs) ∧
    ∀ error retryable, result = .failed error retryable → MayFail ports t.key node.config

/-! ### The registry of a deployment -/

section Deployment

variable (hbuild : buildRegistry Args ports agentConfig = .ok r) (hregistry : env.registry = r.port)

include hbuild in
theorem holds_of_build : r.Holds (BuiltIn.catalogue ports agentConfig) := by
  obtain ⟨r', hbuild', hholds⟩ := buildRegistry_holds Args ports agentConfig
  obtain rfl := Except.ok.inj (hbuild.symm.trans hbuild')
  exact hholds

include hbuild hregistry in
/-- What the registry finds is the descriptor of a built-in type. -/
theorem type_of_find {nodeType : String} {version : Nat} {d : NodeDescriptor Json}
    (hfind : env.registry.find nodeType version = some d) :
    ∃ t : NodeType Args, t ∈ BuiltIn.catalogue ports agentConfig ∧ t.key = (nodeType, version) ∧
      t.descriptor = d := by
  rw [hregistry] at hfind
  exact (holds_of_build hbuild).find_iff.mp hfind

include hbuild hregistry in
theorem singleInputs_of_build : env.registry.SingleInputs := by
  intro nodeType version d hfind i hi
  obtain ⟨t, ht, -, rfl⟩ := type_of_find hbuild hregistry hfind
  exact (BuiltIn.catalogue_behaves ports (fun _ _ => True) (fun _ => True) agentConfig t ht).single
    i hi

include hbuild hregistry in
/-- Every node of a valid graph has its type, which accepts its configuration. -/
theorem typed_of_valid (hvalid : (validateGraph env.graph env.registry).isValid = true)
    (hkey : key ∈ env.graph.nodeKeys) : ∃ node, ∃ t : NodeType Args,
      Typed ports agentConfig env key node t ∧
        env.registry.find node.nodeType node.version = some t.descriptor ∧
        t.descriptor.configModel.errors node.config = [] := by
  obtain ⟨node, hnode, rfl⟩ := List.mem_map.mp hkey
  obtain ⟨d, hfind, hconfig⟩ :=
    ((valid_iff_executable env.graph env.registry).mp hvalid).known node hnode
  obtain ⟨t, ht, htype, rfl⟩ := type_of_find hbuild hregistry hfind
  exact ⟨node, t, ⟨env.graph.node_of_mem hnode, ht, htype⟩, hfind, hconfig⟩

include hbuild hregistry in
theorem repeatable_of_build (hvalid : (validateGraph env.graph env.registry).isValid = true) :
    Repeatable env := by
  intro key hkey
  obtain ⟨node, t, ⟨hnode, ht, -⟩, hfind, hconfig⟩ := typed_of_valid hbuild hregistry hvalid hkey
  refine ⟨node, t.descriptor, hnode, ?_, hconfig, ?_⟩
  · unfold NodeRegistry.get
    rw [hfind]
  · exact (BuiltIn.catalogue_behaves ports (fun _ _ => True) (fun _ => True) agentConfig t
      ht).repeatable

include hbuild hregistry in
/-- No built-in type forbids repeating it. -/
theorem not_refused (snap : RunRows Json) (l : Launch) : invocation env snap l ≠ .ok none := by
  have hguard : repeatWouldBeUnsafe env l.key l.attempt ≠ .ok true := by
    unfold repeatWouldBeUnsafe
    split
    · exact nofun
    · split
      · exact nofun
      · rename_i node hnode
        unfold NodeRegistry.get
        cases hfind : env.registry.find node.nodeType node.version with
        | none => exact nofun
        | some d =>
            obtain ⟨t, ht, -, rfl⟩ := type_of_find hbuild hregistry hfind
            have hrepeatable := (BuiltIn.catalogue_behaves ports (fun _ _ => True)
              (fun _ => True) agentConfig t ht).repeatable
            intro hc
            exact hrepeatable (of_decide_eq_true (Except.ok.inj hc))
  intro hc
  unfold invocation at hc
  cases hrepeat : repeatWouldBeUnsafe env l.key l.attempt with
  | error e =>
      rw [hrepeat] at hc
      exact nomatch hc
  | ok refused =>
      cases refused with
      | true => exact hguard hrepeat
      | false =>
          rw [hrepeat] at hc
          cases hbuilt : buildContext (snapshot env.graph snap) env.registry l.key env.runId
              env.organizationPublicId (env.workflowNodeId l.key) l.attempt l.token with
          | error e =>
              simp only [bind, Except.bind, hbuilt] at hc
              exact nomatch hc
          | ok context =>
              simp only [bind, Except.bind, hbuilt] at hc
              exact nomatch hc

include hbuild in
/-- The runner registered for a node is that of its type. -/
theorem runner_of_typed {node : GraphNode Json} {t : NodeType Args}
    (htyped : Typed ports agentConfig env key node t)
    {run : Surroundings Args → NodeRunContext Json → RunnerOutcome Json}
    (hrun : r.runner node.nodeType node.version = .ok run) : run = t.runner := by
  obtain ⟨-, ht, htype⟩ := htyped
  have hrunner := (holds_of_build hbuild).runner_of_mem ht
  obtain ⟨hname, hversion⟩ := Prod.mk.inj htype
  rw [hname, hversion, hrun] at hrunner
  exact Except.ok.inj hrunner

/-! ### What a runner is handed -/

include hbuild hregistry in
/-- **A node that may run has the inputs its type requires.** -/
theorem supplied_of_started (hvalid : (validateGraph env.graph env.registry).isValid = true)
    {snap : RunRows Json} (hok : RunOk env.graph snap) {l : Launch}
    (hsatisfied : upstreamSatisfied (snapshot env.graph snap) l.key = true)
    {context : NodeRunContext Json} (hcontext : invocation env snap l = .ok (some context)) :
    ∃ node, ∃ t : NodeType Args, Typed ports agentConfig env l.key node t ∧
      context.config = node.config ∧ t.descriptor.Supplied context := by
  obtain ⟨-, hbuilt⟩ := invocation_inv hcontext
  obtain ⟨node, d, hnode, hget, hconfig, rfl⟩ := buildContext_inv hbuilt
  have hkey : node.key = l.key := by simpa using List.find?_some hnode
  have hmem : node ∈ env.graph.nodes := List.mem_of_find?_eq_some hnode
  have hnodeKey : l.key ∈ env.graph.nodeKeys := hkey ▸ List.mem_map_of_mem hmem
  obtain ⟨node', t, htyped, hfind, hconfig'⟩ := typed_of_valid hbuild hregistry hvalid hnodeKey
  obtain rfl : node = node' := Option.some.inj (hnode.symm.trans htyped.1)
  refine ⟨node, t, htyped, rfl, hconfig', fun i hi hrequired => ?_⟩
  have hresolves : Resolves env.graph env.registry l.key t.descriptor := ⟨node, hmem, hkey, hfind⟩
  have hexec := (valid_iff_executable env.graph env.registry).mp hvalid
  have honly := (BuiltIn.catalogue_behaves ports (fun _ _ => True) (fun _ => True) agentConfig t
    htyped.2.1).only i hi hrequired
  obtain ⟨e, he, hname⟩ := hexec.fed l.key t.descriptor hresolves i hi hrequired
  by_contra hmissing
  have hunfed := (hok.missing_iff hsatisfied ⟨e, he, hname⟩).mp (Bool.eq_false_iff.mpr hmissing)
  -- The value it would run on instead arrives at another input, and there is none.
  obtain ⟨f, hf, hne, -⟩ := hunfed.2
  obtain ⟨-, target, -, input, -, htarget, -, hinput, -⟩ :=
    hexec.joined f (env.graph.mem_incoming.mp hf).1
  rw [(env.graph.mem_incoming.mp hf).2] at htarget
  obtain rfl := htarget.unique hresolves
  have hinputName : input.name = f.targetHandle := by simpa using List.find?_some hinput
  obtain rfl := honly input (List.mem_of_find?_eq_some hinput)
  exact hne hinputName.symm

include hbuild hregistry in
theorem Called.owed (hvalid : (validateGraph env.graph env.registry).isValid = true)
    {snap : RunRows Json} (hok : RunOk env.graph snap) {l : Launch}
    (hsatisfied : upstreamSatisfied (snapshot env.graph snap) l.key = true)
    {context : NodeRunContext Json} (hcontext : invocation env snap l = .ok (some context))
    {outcome : RunnerOutcome Json} (hcalled : Called r env l.key context outcome) :
    Owed record binary ports agentConfig Args env l.key outcome.result := by
  obtain ⟨node, t, htyped, hconfig, hsupplied⟩ :=
    supplied_of_started hbuild hregistry hvalid hok hsatisfied hcontext
  obtain ⟨node', run, around, hnode, hrun, rfl⟩ := hcalled
  obtain rfl : node = node' := Option.some.inj (htyped.1.symm.trans hnode)
  obtain rfl := runner_of_typed hbuild htyped hrun
  have hbehaves := BuiltIn.catalogue_behaves ports record binary agentConfig t htyped.2.1
  refine ⟨node, t, htyped, fun outputs houtputs => ?_, fun error retryable hfailed => ?_⟩
  · refine hbehaves.typed around context outputs ?_
    cases houtcome : t.runner around context with
    | returned result =>
        rw [houtcome] at houtputs
        exact congrArg RunnerOutcome.returned houtputs
    | raised typeName message =>
        rw [houtcome] at houtputs
        exact nomatch houtputs
  · rw [← hconfig]
    exact hbehaves.fails around context error retryable hsupplied hfailed

include hbuild hregistry in
/-- What comes of an invocation is what the type of the node owes. -/
theorem RunsBuiltIns.vouches (hvalid : (validateGraph env.graph env.registry).isValid = true)
    {a : P × Action Json} (hstarted : ∀ p, (s.procs p).phase.Started env)
    (hruns : RunsBuiltIns r env s a) :
    Vouches (Owed record binary ports agentConfig Args env) env s a := by
  obtain ⟨p, a⟩ := a
  cases a with
  | invoke key outcome =>
      intro cycles snap batch hphase l hl hkey result hrecorded
      subst hkey
      have hphaseStarted := hstarted p
      rw [hphase] at hphaseStarted
      obtain ⟨hok, hsatisfied⟩ := hphaseStarted
      unfold invokeLaunch at hrecorded
      split at hrecorded
      · exact nomatch hrecorded
      · rename_i hnone
        exact absurd hnone (not_refused hbuild hregistry snap l)
      · rename_i context hcontext
        obtain rfl := Option.some.inj hrecorded
        have hcalled := hruns cycles snap batch hphase l hl rfl context hcontext
        exact hcalled.owed record binary hbuild hregistry hvalid hok (hsatisfied _ hl) hcontext
  | _ => trivial

end Deployment

section Runs

variable [DecidableEq P]

/--
**Only agents and conditions that look up what cannot be a key ever fail.**  On a graph that
validates against the registry of built-in types, under any interleaving of any processes in
which the registered runners are what is called: whatever a node emitted is on handles its
type declares and of their types; a node that failed is an agent, or a condition with the
operator `contains` and a list or an object to look for; and where the graph has neither,
the run does not fail.
-/
theorem only_may_fail (hbuild : buildRegistry Args ports agentConfig = .ok r)
    (hregistry : env.registry = r.port)
    (hvalid : (validateGraph env.graph env.registry).isValid = true) {tr : List (P × Action Json)}
    (h : Trace.run (Sys.step env) (Sys.start P env now) tr = some s)
    (hruns : Trace.Along (Sys.step env) (RunsBuiltIns r env) (Sys.start P env now) tr) :
    (∀ k ∈ env.graph.nodeKeys, ∃ node, ∃ t : NodeType Args, Typed ports agentConfig env k node t ∧
        (∀ outputs, (s.rows.executions k).output = some outputs →
          t.descriptor.Emits (jsonTyping record binary) outputs) ∧
        ((s.rows.executions k).status = .failed → MayFail ports t.key node.config)) ∧
      ((∀ n ∈ env.graph.nodes, ¬ MayFail ports (n.nodeType, n.version) n.config) →
        s.rows.run.status ≠ .failed) := by
  have hvouched : s.Vouched (Owed record binary ports agentConfig Args env) env := by
    refine all_vouched h fun before a after heq s' hs' => ?_
    exact (hruns before a after heq s' hs').vouches record binary hbuild hregistry hvalid
      (all_started hs')
  have hnodes : ∀ k ∈ env.graph.nodeKeys, ∃ node, ∃ t : NodeType Args,
      Typed ports agentConfig env k node t ∧
        (∀ outputs, (s.rows.executions k).output = some outputs →
          t.descriptor.Emits (jsonTyping record binary) outputs) ∧
        ((s.rows.executions k).status = .failed → MayFail ports t.key node.config) := by
    intro k hk
    obtain ⟨node, t, htyped, -, -⟩ := typed_of_valid hbuild hregistry hvalid hk
    have hsame : ∀ node' (t' : NodeType Args), Typed ports agentConfig env k node' t' →
        node' = node ∧ t'.descriptor = t.descriptor ∧ t'.key = t.key := by
      intro node' t' htyped'
      obtain rfl : node' = node := Option.some.inj (htyped'.1.symm.trans htyped.1)
      have hkey := htyped'.2.2.trans htyped.2.2.symm
      exact ⟨rfl, congrArg _ (List.inj_on_of_nodup_map (holds_of_build hbuild).nodup htyped'.2.1
        htyped.2.1 hkey), hkey⟩
    refine ⟨node, t, htyped, fun outputs houtput => ?_, fun hfailed => ?_⟩
    · obtain ⟨node', t', htyped', hemits, -⟩ := (hvouched.rows k hk).output outputs houtput
      rw [← (hsame node' t' htyped').2.1]
      exact hemits outputs rfl
    · obtain ⟨error, retryable, node', t', htyped', -, hmay⟩ := (hvouched.rows k hk).failed hfailed
      obtain ⟨rfl, -, hkey⟩ := hsame node' t' htyped'
      rw [← hkey]
      exact hmay error retryable rfl
  refine ⟨hnodes, fun hnone hfailed => ?_⟩
  obtain ⟨k, hk, hnode⟩ := all_failures_shown h hfailed
  obtain ⟨node, t, htyped, -, hmay⟩ := hnodes k hk
  have hmem : node ∈ env.graph.nodes := List.mem_of_find?_eq_some htyped.1
  exact hnone node hmem (htyped.2.2 ▸ hmay hnode)

/-- **An invocation that happens**: its node has its inputs, and its type's runner is called. -/
theorem called_of_step (hbuild : buildRegistry Args ports agentConfig = .ok r)
    (hregistry : env.registry = r.port)
    (hvalid : (validateGraph env.graph env.registry).isValid = true) {tr : List (P × Action Json)}
    (h : Trace.run (Sys.step env) (Sys.start P env now) tr = some s) {s' : Sys P Json}
    {outcome : RunnerOutcome Json} (hstep : Sys.step env s (p, .invoke key outcome) = some s')
    (hcalls : RunsBuiltIns r env s (p, .invoke key outcome)) :
    ∃ cycles snap batch, (s.procs p).phase = .invoking cycles snap batch ∧
      ∃ l context, l.key = key ∧ RunOk env.graph snap ∧
        upstreamSatisfied (snapshot env.graph snap) l.key = true ∧
        invocation env snap l = .ok (some context) ∧ Called r env l.key context outcome := by
  cases (sys_ok h).step_move hstep with
  | invoke key outcome cycles snap batch hphase hopen =>
      obtain ⟨l, hl, rfl⟩ := hopen
      have hstarted := all_started h p
      have hgraph := all_in_graph h p
      rw [hphase] at hstarted hgraph
      obtain ⟨context, hcontext, -⟩ :=
        (repeatable_of_build hbuild hregistry hvalid).invocation snap (hgraph _ hl)
      exact ⟨cycles, snap, batch, hphase, l, context, rfl, hstarted.1, hstarted.2 _ hl, hcontext,
        hcalls cycles snap batch hphase l hl rfl context hcontext⟩
  | raised a hnot => exact absurd rfl (hnot key outcome)

/-- Runners that are the registry's emit what their types declare. -/
theorem honoured_of_builtIns (hbuild : buildRegistry Args ports agentConfig = .ok r)
    (hregistry : env.registry = r.port)
    (hvalid : (validateGraph env.graph env.registry).isValid = true) {tr : List (P × Action Json)}
    (h : Trace.run (Sys.step env) (Sys.start P env now) tr = some s)
    (hruns : Trace.Along (Sys.step env) (RunsBuiltIns r env) (Sys.start P env now) tr) :
    Trace.Along (Sys.step env) (Honoured (jsonTyping record binary) env)
      (Sys.start P env now) tr := by
  refine (Trace.along_of_invariant (I := fun _ => True) trivial ?_ (fun _ _ _ _ _ _ _ _ => trivial)
    h hruns).2
  intro tr s a s' hrun _ hcalls hstep
  obtain ⟨p, a⟩ := a
  cases a with
  | invoke key outcome =>
      obtain ⟨cycles, snap, batch, -, l, context, rfl, hok, hsatisfied, hcontext, hcalled⟩ :=
        called_of_step hbuild hregistry hvalid hrun hstep hcalls
      cases outcome with
      | raised typeName message => trivial
      | returned result =>
          intro d outputs hd hcompleted
          obtain ⟨n, hn, hkey, hfind⟩ := hd
          obtain ⟨node, t, htyped, hemits, -⟩ := hcalled.owed record binary hbuild hregistry hvalid
            hok hsatisfied hcontext
          have hnode := env.graph.node_of_mem hn
          rw [hkey] at hnode
          obtain rfl : n = node := Option.some.inj (hnode.symm.trans htyped.1)
          have hregistered := (holds_of_build hbuild).find_iff.mpr
            ⟨t, htyped.2.1, htyped.2.2, rfl⟩
          rw [hregistry] at hfind
          obtain rfl : t.descriptor = d := Option.some.inj (hregistered.symm.trans hfind)
          exact hemits outputs hcompleted
  | _ => trivial

end Runs

/-! ### Checking a run -/

/-- What the registry's runner does with this context, in these surroundings. -/
def InMemoryNodeRegistry.call (r : InMemoryNodeRegistry Args) (env : Env Json)
    (around : Surroundings Args) (key : NodeKey) (context : NodeRunContext Json) :
    Option (RunnerOutcome Json) := do
  let node ← env.graph.node key
  let run ← (r.runner node.nodeType node.version).toOption
  return run around context

/-- Whether an invocation is one of the registry's runners, in these surroundings. -/
def checkCall (r : InMemoryNodeRegistry Args) (env : Env Json) (around : Surroundings Args)
    (s : Sys P Json) : P × Action Json → Bool
  | (p, .invoke key outcome) =>
      match (s.procs p).phase with
      | .invoking _ snap batch => batch.all fun e =>
          match e.2, invocation env snap e.1 with
          | none, .ok (some context) =>
              e.1.key ≠ key || r.call env around key context = some outcome
          | _, _ => true
      | _ => true
  | _ => true

theorem called_of_call {context : NodeRunContext Json} {around : Surroundings Args}
    {outcome : RunnerOutcome Json} (h : r.call env around key context = some outcome) :
    Called r env key context outcome := by
  unfold InMemoryNodeRegistry.call at h
  obtain ⟨node, hnode, h⟩ := Option.bind_eq_some_iff.mp h
  obtain ⟨run, hrun, h⟩ := Option.bind_eq_some_iff.mp h
  refine ⟨node, run, around, hnode, ?_, (Option.some.inj h).symm⟩
  cases hget : r.runner node.nodeType node.version with
  | error e =>
      rw [hget] at hrun
      exact nomatch hrun
  | ok run' =>
      rw [hget] at hrun
      rw [Option.some.inj hrun]

theorem runsBuiltIns_of_check {around : Surroundings Args} {a : P × Action Json}
    (h : checkCall r env around s a = true) : RunsBuiltIns r env s a := by
  obtain ⟨p, a⟩ := a
  cases a with
  | invoke key outcome =>
      intro cycles snap batch hphase l hl hkey context hcontext
      simp only [checkCall, hphase] at h
      have hentry := List.all_eq_true.mp h _ hl
      simp only [hcontext, Bool.or_eq_true, decide_eq_true_eq] at hentry
      rcases hentry with hne | hcall
      · exact absurd hkey hne
      · exact called_of_call hcall
  | _ => trivial

/-! ### A workflow that greets -/

/-- The ports as the libraries have them for what the example meets. -/
def greetPorts : CataloguePorts where
  extraForbidden := "Extra inputs are not permitted"
  stringType := "Input should be a valid string"
  stringTooLong max := "String should have at most " ++ toString max ++ " characters"
  notAmong names := "Input should be " ++ " or ".intercalate (names.map quoted)
  valueError message := "Value error, " ++ message
  exceptionText name details :=
    toString details.length ++ " validation errors for " ++ name
  isValidCron cron := cron = defaultCron

/-- An agent's configuration, of which the example only has the defaults. -/
def greetAgent : ConfigReader AgentConfig where
  name := "AgentConfig"
  read raw :=
    if raw.isEmpty then .ok {} else .error [⟨["instructions"], "Input should be a valid string"⟩]
  reported := by
    intro raw
    split <;> simp

/-- The catalogue of the application. -/
def greetRegistry : InMemoryNodeRegistry Unit :=
  (buildRegistry Unit greetPorts greetAgent).toOption.getD {}

theorem greetRegistry_built : buildRegistry Unit greetPorts greetAgent = .ok greetRegistry := rfl

/-- A constant that is logged, beside the trigger every workflow has. -/
def greetGraph : WorkflowGraph Json where
  nodes :=
    [⟨"start", "trigger.manual", 1, [], none⟩,
      ⟨"greeting", "core.constant", 1, [("value", .string "hello")], none⟩,
      ⟨"say", "core.log", 1, [], none⟩]
  edges := [⟨"greeting", "main", "say", "main"⟩]
  keys_nodup := by decide
  source_mem := by decide
  target_mem := by decide
  edges_nodup := by decide

/-- A run of the greeting. -/
def greetEnv : Env Json where
  graph := greetGraph
  registry := greetRegistry.port
  runId := 7
  organizationPublicId := "org"
  workflowNodeId := greetGraph.nodeKeys.idxOf
  workflowNodeId_inj := fun _ hk _ _ => (List.idxOf_inj hk).mp
  triggerPayload := none

/-- Nobody answers, and no id is asked for. -/
def greetSurroundings : Surroundings Unit where
  newPublicId := ""
  agent :=
    { agents := fun _ _ => .error (.refused "There is no provider." false)
      knowledge := none
      tools := ⟨[], List.nodup_nil, nofun, nofun⟩
      floatText := fun _ => "" }

/-- The driver dies with the constant emitted and not recorded, and advances again. -/
def greetDrive : List (Action Json) :=
  [.advance, .beginTick, .commitTick 0,
      .invoke "greeting" (.returned (.completed [("main", .string "hello")])), .crash, .advance] ++
    cycle [("start", .returned (.completed [("main", .object [])])),
      ("greeting", .returned (.completed [("main", .string "hello")]))] ++
    cycle [("say", .returned (.completed []))] ++ cycle [] ++ [.beginTick, .commitTick 0]

theorem greetDrive_runs : ∃ s,
    Trace.run (Sys.step greetEnv) (Sys.start Unit greetEnv 0) (greetDrive.map ((), ·)) = some s ∧
      Trace.Along (Sys.step greetEnv) (RunsBuiltIns greetRegistry greetEnv)
        (Sys.start Unit greetEnv 0) (greetDrive.map ((), ·)) ∧
      (s.procs ()).phase = .returned .completed := by
  have heval : (Trace.run (Sys.step greetEnv) (Sys.start Unit greetEnv 0)
      (greetDrive.map ((), ·))).map (fun s => (s.procs ()).phase.returnedStatus)
        = some (some .completed) := by
    decide +kernel
  have hchecked : Trace.Along (Sys.step greetEnv)
      (fun s a => checkCall greetRegistry greetEnv greetSurroundings s a = true)
      (Sys.start Unit greetEnv 0) (greetDrive.map ((), ·)) := by
    decide +kernel
  obtain ⟨s, hrun, hreturned⟩ := Option.map_eq_some_iff.mp heval
  exact ⟨s, hrun, fun before a after heq s' hs' =>
    runsBuiltIns_of_check (hchecked before a after heq s' hs'),
    returned_of_returnedStatus hreturned⟩

theorem greetGraph_valid :
    (validateGraph greetEnv.graph greetEnv.registry).isValid = true := by
  decide +kernel

/-- No node of the greeting may fail, so the run does not. -/
theorem greet_does_not_fail : ∃ s,
    Trace.run (Sys.step greetEnv) (Sys.start Unit greetEnv 0) (greetDrive.map ((), ·)) = some s ∧
      s.rows.run.status ≠ .failed := by
  obtain ⟨s, hrun, hruns, -⟩ := greetDrive_runs
  refine ⟨s, hrun, (only_may_fail (fun _ _ => True) (fun _ => True) greetRegistry_built rfl
    greetGraph_valid hrun hruns).2 ?_⟩
  intro n hn hmay
  simp only [greetEnv, greetGraph, List.mem_cons, List.not_mem_nil, or_false] at hn
  rcases hn with rfl | rfl | rfl <;> rcases hmay with hc | ⟨hc, -⟩ <;> simp at hc

/-- The driver stands where the greeting is about to be logged. -/
def greetLogs : List (Action Json) := greetDrive.take 18

/-- What is logged is a text, because it comes from a constant. -/
theorem greet_types_preserved : ∃ s,
    Trace.run (Sys.step greetEnv) (Sys.start Unit greetEnv 0) (greetLogs.map ((), ·)) = some s ∧
      ∃ i, i.type = .text ∧ ArrivedTyped (jsonTyping (fun _ _ => True) fun _ => True) greetEnv.graph
        greetEnv.registry "say" i (.string "hello") := by
  have heval : (Trace.run (Sys.step greetEnv) (Sys.start Unit greetEnv 0)
      (greetLogs.map ((), ·))).map
      (fun s => ((s.procs ()).phase.calls greetEnv).map fun call => (call.1, call.2.inputs))
      = some [(⟨"say", 1, none⟩, [("main", .string "hello")])] := by
    decide +kernel
  have hchecked : Trace.Along (Sys.step greetEnv)
      (fun s a => checkCall greetRegistry greetEnv greetSurroundings s a = true)
      (Sys.start Unit greetEnv 0) (greetLogs.map ((), ·)) := by
    decide +kernel
  obtain ⟨s, hrun, hvalues⟩ := Option.map_eq_some_iff.mp heval
  obtain ⟨⟨l, context⟩, hcalls, hpair⟩ := List.map_eq_singleton_iff.mp hvalues
  obtain ⟨rfl, hinputs⟩ := Prod.mk.inj hpair
  obtain ⟨cycles, snap, batch, hphase, hbatch, hcontext⟩ :=
    mem_calls (hcalls ▸ List.mem_singleton_self (_, context))
  have htypes := types_preserved greetGraph_valid hrun
    (honoured_of_builtIns (fun _ _ => True) (fun _ => True) greetRegistry_built rfl greetGraph_valid
      hrun fun before a after heq s' hs' =>
        runsBuiltIns_of_check (hchecked before a after heq s' hs'))
  refine ⟨s, hrun, { name := "main", type := .text }, rfl, ?_⟩
  refine htypes.2 () cycles snap batch hphase _ none hbatch context hcontext
    (BuiltIn.coreLog greetPorts : NodeType Unit).descriptor
    ⟨⟨"say", "core.log", 1, [], none⟩, by decide, rfl, rfl⟩ _ List.mem_cons_self _ ?_
  rw [hinputs]
  rfl

end Orqent
