/-
The engine computes the reference.

One driver at a time: the system has one process, which may crash at any point of an
advance and advance again, as often as it likes.  `Deterministic` says what the
runners do: each returns the outputs `runner` has for the inputs it is handed.

`InStep` is the invariant.  The committed rows agree with the reference, and so does
everything the process knows: the rows it reads are the committed ones, a node it has
launched has its inputs settled in the rows it was launched on, and the outcomes it
holds are those of the reference.
-/
import Orqent.Runtime.Launches
import Orqent.Runtime.Parking
import Orqent.Service.Reference

namespace Orqent

open Scheduler

variable {Value : Type} {env : Env Value} {runner : NodeRunner Value} {s s' : Sys Unit Value}
  {a : Action Value} {now : Time} {key : NodeKey}

/-! ### The assumptions -/

/-- Every node can be run, and run again: its type is registered and accepts its
configuration, and does not forbid repeating it. -/
def Repeatable (env : Env Value) : Prop :=
  ∀ key ∈ env.graph.nodeKeys, ∃ node d, env.graph.node key = some node ∧
    env.registry.get node.nodeType node.version = .ok d ∧
    d.configModel.errors node.config = [] ∧ d.sideEffect ≠ .atMostOnce

/-- A runner that is called returns what `runner` makes of its inputs. -/
def Deterministic (env : Env Value) (runner : NodeRunner Value) (s : Sys Unit Value) :
    Unit × Action Value → Prop
  | (_, .invoke key outcome) =>
      match (s.procs ()).phase with
      | .invoking _ snap _ =>
          outcome =
            .returned (.completed (runner key (resolveInputs (snapshot env.graph snap) key)))
      | _ => True
  | _ => True

instance [DecidableEq Value] (s : Sys Unit Value) (a : Unit × Action Value) :
    Decidable (Deterministic env runner s a) := by
  unfold Deterministic
  split
  · split <;> infer_instance
  · infer_instance

theorem Deterministic.outcome_eq {outcome : RunnerOutcome Value} {cycles : Nat}
    {snap : RunRows Value} {batch : List (Launch × Option (Outcome Value))}
    (h : Deterministic env runner s ((), .invoke key outcome))
    (hphase : (s.procs ()).phase = .invoking cycles snap batch) :
    outcome =
      .returned (.completed (runner key (resolveInputs (snapshot env.graph snap) key))) := by
  simpa only [Deterministic, hphase] using h

/-- A runner that is called is called on the inputs of the reference. -/
def OnReferenceInputs (env : Env Value) (runner : NodeRunner Value) (s : Sys Unit Value) :
    Unit × Action Value → Prop
  | (_, .invoke key _) => ∀ cycles snap batch,
      (s.procs ()).phase = .invoking cycles snap batch → ∀ l, (l, none) ∈ batch → l.key = key →
        ∃ context inputs outputs, invocation env snap l = .ok (some context) ∧
          env.graph.evaluate runner key = some (inputs, outputs) ∧ context.inputs = inputs
  | _ => True

/-! ### The invariant -/

/-- The outcome is the one the reference has for this node. -/
def Expected (env : Env Value) (runner : NodeRunner Value) (key : NodeKey)
    (outcome : Outcome Value) : Prop :=
  ∃ inputs outputs, env.graph.evaluate runner key = some (inputs, outputs) ∧
    outcome = .returned (.completed outputs)

/-- What the process knows is right. -/
def Phase.InStep (env : Env Value) (runner : NodeRunner Value) (rows : RunRows Value) :
    Phase Value → Prop
  | .ticking _ snap => snap = rows
  | .invoking _ snap batch =>
      RunOk env.graph snap ∧ Matches env.graph runner snap ∧
        ∀ e ∈ batch, e.1.key ∈ env.graph.nodeKeys ∧
          upstreamSatisfied (snapshot env.graph snap) e.1.key = true ∧
          ∀ outcome, e.2 = some outcome → Expected env runner e.1.key outcome
  | .settling _ todo _ => ∀ e ∈ todo, Expected env runner e.1.key e.2
  | .recording _ _ l outcome todo _ =>
      Expected env runner l.key outcome ∧ ∀ e ∈ todo, Expected env runner e.1.key e.2
  | .returned status =>
      status = rows.run.status ∧ decisions (snapshot env.graph rows) = []
  | _ => True

/-- The state of a run whose runners are deterministic. -/
structure InStep (env : Env Value) (runner : NodeRunner Value) (s : Sys Unit Value) : Prop where
  rows : Matches env.graph runner s.rows
  phase : (s.procs ()).phase.InStep env runner s.rows

/-! ### Invoking -/

/-- A repeatable node is never refused, and its runner is handed what its edges carry. -/
theorem Repeatable.invocation (h : Repeatable env) (snap : RunRows Value) {l : Launch}
    (hkey : l.key ∈ env.graph.nodeKeys) : ∃ context,
      Orqent.invocation env snap l = .ok (some context) ∧
        context.inputs = resolveInputs (snapshot env.graph snap) l.key := by
  obtain ⟨node, d, hnode, hget, hconfig, hside⟩ := h l.key hkey
  have hguard : repeatWouldBeUnsafe env l.key l.attempt = .ok false := by
    unfold repeatWouldBeUnsafe
    split
    · rfl
    · rw [hnode]
      dsimp only
      rw [hget]
      show Except.ok _ = _
      rw [decide_eq_false hside]
  obtain ⟨context, hcontext, hinputs⟩ : ∃ context, buildContext (snapshot env.graph snap)
      env.registry l.key env.runId env.organizationPublicId (env.workflowNodeId l.key) l.attempt
      l.token = .ok context ∧ context.inputs = resolveInputs (snapshot env.graph snap) l.key :=
    ⟨_, buildContext_ok hnode hget hconfig, rfl⟩
  refine ⟨context, ?_, hinputs⟩
  unfold Orqent.invocation
  rw [hguard]
  show (buildContext _ _ _ _ _ _ _ _ >>= fun c => Except.ok (some c)) = _
  rw [hcontext]
  rfl

/-- What comes of an invocation is what the reference expects. -/
theorem Repeatable.invokeLaunch (h : Repeatable env) {snap : RunRows Value} {l : Launch}
    (hkey : l.key ∈ env.graph.nodeKeys) (outcome : RunnerOutcome Value) :
    Orqent.invokeLaunch env snap l outcome = .returned outcome.result := by
  obtain ⟨context, hinvocation, -⟩ := h.invocation snap hkey
  unfold Orqent.invokeLaunch
  rw [hinvocation]

/-! ### Steps -/

theorem gathered_mem {batch : List (Launch × Option (Outcome Value))}
    {todo : List (Launch × Outcome Value)} (hall : gathered batch = some todo)
    {e : Launch × Outcome Value} (he : e ∈ todo) : (e.1, some e.2) ∈ batch := by
  rw [← gathered_launched hall]
  exact List.mem_map_of_mem he

/-- **The invariant is kept by every step whose runner is deterministic.** -/
theorem InStep.step [DecidableEq Value] (h : InStep env runner s) (hok : SysOk env s)
    (hacyclic : env.graph.Acyclic) (hfan : env.graph.SingleFanIn) (hrepeatable : Repeatable env)
    (hmove : Move env s () a s') (hruns : Deterministic env runner s ((), a)) :
    InStep env runner s' := by
  have hrows := h.rows
  have hphase := h.phase
  cases hmove with
  | advance hbefore =>
      refine ⟨hrows, ?_⟩
      rw [Sys.moved_self]
      trivial
  | resume token hbefore =>
      refine ⟨hrows, ?_⟩
      rw [Sys.moved_self]
      trivial
  | claim clock leaseSeconds locked task queue hbefore hclaim =>
      refine ⟨hrows, ?_⟩
      simp only [Function.update_self]
      trivial
  | beginTick cycles hbefore =>
      refine ⟨hrows, ?_⟩
      rw [Sys.moved_self]
      exact rfl
  | quietTick now cycles snap hbefore hfan' hnone =>
      rw [hbefore] at hphase
      obtain rfl : snap = s.rows := hphase
      refine ⟨hrows, ?_⟩
      rw [Sys.moved_self]
      exact ⟨rfl, hnone⟩
  | tick now cycles rows ops hbefore hlimit hsome heffect =>
      refine ⟨hrows.tick hok.rows hacyclic heffect, ?_⟩
      rw [Sys.moved_self, launches_decisions]
      refine ⟨hok.rows, hrows, fun e he => ?_⟩
      obtain ⟨k, hk, rfl⟩ := List.mem_map.mp he
      exact ⟨(mem_ready.mp hk).1, (mem_ready.mp hk).2.2, fun outcome hc => by simp at hc⟩
  | resumed now token key hbefore hfind hwaiting hsuspended =>
      exact absurd hwaiting (hrows.sound key (waitingNode_mem hfind).1).2
  | invoke key outcome cycles snap batch hbefore hopen =>
      rw [hbefore] at hphase
      obtain ⟨hsnap, hmatches, hbatch⟩ := hphase
      refine ⟨hrows, ?_⟩
      rw [Sys.moved_self]
      refine ⟨hsnap, hmatches, fun e he => ?_⟩
      obtain ⟨⟨l, known⟩, hmem, rfl⟩ := List.mem_map.mp he
      obtain ⟨hkey, hsat, hknown⟩ := hbatch _ hmem
      cases known with
      | some outcome' => exact ⟨hkey, hsat, hknown⟩
      | none =>
          rw [invokeEntry]
          split
          · rename_i hl
            refine ⟨hkey, hsat, fun outcome' hc => ?_⟩
            obtain rfl := Option.some.inj hc
            subst hl
            rw [hrepeatable.invokeLaunch hkey, hruns.outcome_eq hbefore]
            exact ⟨_, _, hmatches.runs hsnap hacyclic hfan hkey hsat, rfl⟩
          · exact ⟨hkey, hsat, hknown⟩
  | gather cycles snap batch todo hbefore hall =>
      rw [hbefore] at hphase
      refine ⟨hrows, ?_⟩
      rw [Sys.moved_self]
      intro e he
      exact (hphase.2.2 _ (gathered_mem hall he)).2.2 e.2 rfl
  | nextCycle cycles hbefore =>
      refine ⟨hrows, ?_⟩
      rw [Sys.moved_self]
      trivial
  | skipEscaped cycles l error rest failed hbefore =>
      rw [hbefore] at hphase
      obtain ⟨inputs, outputs, -, hc⟩ := hphase _ List.mem_cons_self
      simp at hc
  | beginSettle cycles l outcome rest failed hbefore hrecorded =>
      rw [hbefore] at hphase
      refine ⟨hrows, ?_⟩
      rw [Sys.moved_self]
      exact ⟨hphase _ List.mem_cons_self, fun e he => hphase e (List.mem_cons_of_mem _ he)⟩
  | settle now rejected cycles l outcome result todo failed hbefore hrecorded hkey hrunning
      hstorable =>
      rw [hbefore] at hphase
      obtain ⟨⟨inputs, outputs, heval, rfl⟩, htodo⟩ := hphase
      obtain rfl := Option.some.inj hrecorded
      refine ⟨hrows.settle heval, ?_⟩
      rw [Sys.moved_self]
      exact htodo
  | extend expiresAt id htask =>
      refine ⟨hrows, ?_⟩
      simp only [Function.update_self]
      exact hphase
  | requeue runAfter id htask =>
      refine ⟨hrows, ?_⟩
      rw [show (_ : Sys Unit Value).procs () = Process.idle from Sys.raised_self]
      trivial
  | release id status hbefore htask =>
      refine ⟨hrows, ?_⟩
      rw [show (_ : Sys Unit Value).procs () = Process.idle from Sys.raised_self]
      trivial
  | raised a hnot =>
      refine ⟨hrows, ?_⟩
      rw [Sys.raised_self]
      trivial

/-! ### Runs -/

theorem start_inStep (env : Env Value) (runner : NodeRunner Value) (now : Time) :
    InStep env runner (Sys.start Unit env now) where
  rows := materialize_matches env.graph runner env.triggerPayload
  phase := trivial

/-- What is launched is invoked on the inputs of the reference. -/
theorem InStep.onReferenceInputs (h : InStep env runner s) (hacyclic : env.graph.Acyclic)
    (hfan : env.graph.SingleFanIn) (hrepeatable : Repeatable env) (a : Action Value) :
    OnReferenceInputs env runner s ((), a) := by
  cases a with
  | invoke key outcome =>
      intro cycles snap batch hphase l hl heq
      subst heq
      have hstep := h.phase
      rw [hphase] at hstep
      obtain ⟨hsnap, hmatches, hbatch⟩ := hstep
      obtain ⟨hkey, hsat, -⟩ := hbatch _ hl
      obtain ⟨context, hinvocation, hinputs⟩ := hrepeatable.invocation snap hkey
      exact ⟨context, _, _, hinvocation, hmatches.runs hsnap hacyclic hfan hkey hsat, hinputs⟩
  | _ => trivial

/--
**The engine computes the reference.**  On a nonempty acyclic graph with one edge per
input handle, whatever the trigger payload, the batches and the crashes: every runner is
called on the inputs the reference has for its node, and when an advance returns, the run
is `COMPLETED` and every node is what the reference says.
-/
theorem reference_computed [DecidableEq Value] {tr : List (Unit × Action Value)}
    (hacyclic : env.graph.Acyclic) (hfan : env.graph.SingleFanIn) (hne : env.graph.nodeKeys ≠ [])
    (hrepeatable : Repeatable env)
    (h : Trace.run (Sys.step env) (Sys.start Unit env now) tr = some s)
    (hruns : Trace.Along (Sys.step env) (Deterministic env runner) (Sys.start Unit env now) tr) :
    Trace.Along (Sys.step env) (OnReferenceInputs env runner) (Sys.start Unit env now) tr ∧
      ∀ status, (s.procs ()).phase = .returned status →
        status = .completed ∧ Computed env.graph runner s.rows := by
  have hboth : InStep env runner s ∧
      Trace.Along (Sys.step env) (OnReferenceInputs env runner) (Sys.start Unit env now) tr := by
    refine Trace.along_of_invariant (start_inStep env runner now) ?_ ?_ h hruns
    · intro tr s step s' _ hstep _ _
      obtain ⟨⟨⟩, a⟩ := step
      exact hstep.onReferenceInputs hacyclic hfan hrepeatable a
    · intro tr s step s' hrun hstep hdet hnext
      obtain ⟨⟨⟩, a⟩ := step
      have hok : SysOk env s := sys_ok hrun
      exact hstep.step hok hacyclic hfan hrepeatable (hok.step_move hnext) hdet
  refine ⟨hboth.2, fun status hphase => ?_⟩
  have hstep := hboth.1.phase
  rw [hphase] at hstep
  have hcomputed := hboth.1.rows.computed (sys_ok h).rows hacyclic hne hstep.2
  exact ⟨hstep.1.trans hcomputed.completed, hcomputed⟩

/-! ### The rejoining branch, with a crash -/

theorem rejoinEnv_repeatable : Repeatable rejoinEnv := by
  intro key hkey
  simp only [rejoinEnv, WorkflowGraph.nodeKeys, rejoinGraph, List.map_cons, List.map_nil,
    List.mem_cons, List.not_mem_nil, or_false] at hkey
  rcases hkey with rfl | rfl | rfl | rfl | rfl <;> exact ⟨_, _, rfl, rfl, rfl, by decide⟩

/-- `condition` takes its `true` side; every other node emits on `main`. -/
def rejoinRunner : NodeRunner Unit :=
  fun key _ => if key = "condition" then [("true", ())] else [("main", ())]

/-- The outcomes of these nodes. -/
def rejoinOutcomes (keys : List NodeKey) : List (NodeKey × RunnerOutcome Unit) :=
  keys.map fun key => (key, .returned (.completed (rejoinRunner key [])))

/-- The status an advance has returned. -/
def Phase.returnedStatus {Value : Type} : Phase Value → Option RunStatus
  | .returned status => some status
  | _ => none

theorem returned_of_returnedStatus {Value : Type} {phase : Phase Value} {status : RunStatus}
    (h : phase.returnedStatus = some status) : phase = .returned status := by
  unfold Phase.returnedStatus at h
  split at h
  · rw [Option.some.inj h]
  · simp at h

/-- The driver dies with `other` invoked and `condition` not, and advances again. -/
def rejoinCrash : List (Action Unit) :=
  [.advance] ++ cycle (rejoinOutcomes ["trigger"]) ++
    [.beginTick, .commitTick 0, .invoke "other" (.returned (.completed [("main", ())])), .crash,
      .advance] ++
    cycle (rejoinOutcomes ["condition", "other"]) ++ cycle [] ++ cycle (rejoinOutcomes ["merge"]) ++
    cycle [] ++ [.beginTick, .commitTick 0]

/-- The run completes; `side` was skipped in the reference, so it is `SKIPPED`. -/
theorem rejoin_computes : ∃ s,
    Trace.run (Sys.step rejoinEnv) (Sys.start Unit rejoinEnv 0) (rejoinCrash.map ((), ·)) = some s ∧
      (s.procs ()).phase = .returned .completed ∧ Computed rejoinGraph rejoinRunner s.rows ∧
      (s.rows.executions "side").status = .skipped := by
  have heval : (Trace.run (Sys.step rejoinEnv) (Sys.start Unit rejoinEnv 0)
      (rejoinCrash.map ((), ·))).map (fun s => (s.procs ()).phase.returnedStatus)
        = some (some .completed) := by
    decide +kernel
  have hruns : Trace.Along (Sys.step rejoinEnv) (Deterministic rejoinEnv rejoinRunner)
      (Sys.start Unit rejoinEnv 0) (rejoinCrash.map ((), ·)) := by
    decide +kernel
  obtain ⟨s, hrun, hreturned⟩ := Option.map_eq_some_iff.mp heval
  have hphase := returned_of_returnedStatus hreturned
  obtain ⟨-, hcomputed⟩ := (reference_computed rejoinGraph_acyclic rejoinGraph_singleFanIn
    (by decide) rejoinEnv_repeatable hrun hruns).2 _ hphase
  exact ⟨s, hrun, hphase, hcomputed, (hcomputed.skipped "side" (by decide) (by decide +kernel)).1⟩

/-- A run of the empty graph. -/
def emptyEnv : Env Unit :=
  { rejoinEnv with graph := .empty, workflowNodeId_inj := by decide }

/--
The empty graph is acyclic, without fan-in, and its advance settles at once, with the run
still `PENDING`: the conclusion `COMPLETED` asks for a node.
-/
theorem empty_run_stays_pending : emptyEnv.graph.Acyclic ∧ emptyEnv.graph.SingleFanIn ∧
    Repeatable emptyEnv ∧ ∃ s,
      Trace.run (Sys.step emptyEnv) (Sys.start Unit emptyEnv 0)
          ([Action.advance, .beginTick, .commitTick 0].map ((), ·)) = some s ∧
        Trace.Along (Sys.step emptyEnv) (Deterministic emptyEnv rejoinRunner)
          (Sys.start Unit emptyEnv 0) ([Action.advance, .beginTick, .commitTick 0].map ((), ·)) ∧
        (s.procs ()).phase = .returned .pending ∧ s.rows.run.status = .pending := by
  refine ⟨?_, List.nodup_nil, ?_, ?_⟩
  · exact WorkflowGraph.empty.acyclic_of_rank (fun _ => 0) (by simp [WorkflowGraph.empty])
  · intro key hkey
    exact nomatch hkey
  · exact ⟨_, rfl, by decide +kernel, rfl, rfl⟩

end Orqent
