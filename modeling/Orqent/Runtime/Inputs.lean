/-
What a node is started with.

Validation sees to it that something connects to every required input, and the scheduler
starts a node once every connection into it is decided and at least one carried a value.
The two together leave one gap: an input all of whose connections are dead is absent,
although it is required, where another input lets the node run.
-/
import Orqent.Runtime.Resumed

namespace Orqent

open Scheduler

variable {P Value : Type} {env : Env Value} {s s' : Sys P Value} {p q : P} {a : Action Value}
  {now : Time}

/-- Every connection into this input is dead, and the node runs on another one's value. -/
def Unfed (s : RunSnapshot Value) (key : NodeKey) (inputs : Dict String Value) (handle : String) :
    Prop :=
  (∀ e ∈ s.graph.incoming key, e.targetHandle = handle → isDead s e = true) ∧
    ∃ e ∈ s.graph.incoming key, e.targetHandle ≠ handle ∧ isLive s e = true ∧
      inputs.contains e.targetHandle = true

/-- What is launched was found ready, or has run before. -/
def Phase.Started (env : Env Value) : Phase Value → Prop
  | .invoking _ snap batch =>
      RunOk env.graph snap ∧
        ∀ e ∈ batch, upstreamSatisfied (snapshot env.graph snap) e.1.key = true
  | _ => True

/-! ### Edges and inputs -/

section Edges

variable {g : WorkflowGraph Value} {rows : RunRows Value} {e : GraphEdge}

theorem carried_of_live (h : isLive (snapshot g rows) e = true) :
    (carried (snapshot g rows) e).isSome = true := by
  obtain ⟨x, outputs, hx, -, hout, hmem⟩ := isLive_iff.mp h
  rw [carried, hx, Option.bind_some, hout, Option.bind_some]
  exact hmem

/-- A dead edge carried nothing. -/
theorem RunOk.carried_of_dead (hok : RunOk g rows) (h : isDead (snapshot g rows) e = true) :
    carried (snapshot g rows) e = none := by
  obtain ⟨hkey, hsource⟩ := source_of_dead h
  have hnone : ∀ outputs, (rows.executions e.sourceKey).output = some outputs →
      outputs.get? e.sourceHandle = none := by
    intro outputs houtputs
    rcases hsource with hskipped | ⟨-, outputs', houtputs', hnot⟩
    · have hsucceeded := (hok.output_iff _ hkey).mp (by simp [houtputs])
      rw [hskipped] at hsucceeded
      simp at hsucceeded
    · rw [houtputs, Option.some.injEq] at houtputs'
      rw [← houtputs'] at hnot
      simpa [Dict.contains] using hnot
  rw [carried, snapshot_execution hkey, Option.bind_some, Option.bind_eq_none_iff]
  exact hnone

/-- **An input of a node that may run is missing only where all that connects to it is dead.** -/
theorem RunOk.missing_iff (hok : RunOk g rows) {key : NodeKey} {handle : String}
    (hsatisfied : upstreamSatisfied (snapshot g rows) key = true)
    (hconnected : ∃ e ∈ g.incoming key, e.targetHandle = handle) :
    (resolveInputs (snapshot g rows) key).contains handle = false ↔
      Unfed (snapshot g rows) key (resolveInputs (snapshot g rows) key) handle := by
  obtain ⟨f, hf, hhandle⟩ := hconnected
  constructor
  · intro hmissing
    have hnotlive : ∀ e ∈ g.incoming key, e.targetHandle = handle →
        isLive (snapshot g rows) e = false := by
      intro e he htarget
      refine Bool.eq_false_iff.mpr fun hlive => ?_
      have hthere := resolveInputs_contains_iff.mpr ⟨e, he, htarget, carried_of_live hlive⟩
      simp [hmissing] at hthere
    rcases upstreamSatisfied_iff.mp hsatisfied with hnil | ⟨hresolved, e, he, hlive⟩
    · have hnone : g.incoming key = [] := hnil
      simp [hnone] at hf
    · refine ⟨fun e he htarget => ?_, e, he, fun htarget => ?_, hlive, ?_⟩
      · have hdecided := hresolved e he
        rwa [resolved, hnotlive e he htarget, Bool.false_or] at hdecided
      · simp [hnotlive e he htarget] at hlive
      · exact resolveInputs_contains_iff.mpr ⟨e, he, rfl, carried_of_live hlive⟩
  · intro hunfed
    refine Bool.eq_false_iff.mpr fun hthere => ?_
    obtain ⟨e, he, htarget, hsome⟩ := resolveInputs_contains_iff.mp hthere
    rw [hok.carried_of_dead (hunfed.1 e he htarget)] at hsome
    simp at hsome

end Edges

/-! ### Runs -/

section Steps

variable [DecidableEq P] [DecidableEq Value]

set_option linter.unusedSectionVars false

/-- **Whatever is launched had its inputs settled in the rows it is invoked on.** -/
theorem Move.started (h : Move env s p a s') (hok : SysOk env s)
    (hbefore : ∀ q, (s.procs q).phase.Started env) (q : P) : (s'.procs q).phase.Started env := by
  by_cases hq : q = p
  swap
  · rw [h.procs_ne hq]
    exact hbefore q
  subst hq
  have hstarted := hbefore q
  cases h with
  | tick now cycles rows ops hphase hlimit hsome heffect =>
      rw [Sys.moved_self, launches_decisions]
      refine ⟨hok.rows, fun e he => ?_⟩
      obtain ⟨k, hk, rfl⟩ := List.mem_map.mp he
      exact (mem_ready.mp hk).2.2
  | resumed now token key hphase hfind hwaiting hsuspended =>
      rw [Sys.moved_self]
      refine ⟨hok.rows, fun e he => ?_⟩
      rw [List.mem_singleton.mp he]
      exact hok.rows.begun_satisfied key (waitingNode_mem hfind).1 (Or.inr (Or.inl hwaiting))
  | invoke key outcome cycles snap batch hphase hopen =>
      rw [hphase] at hstarted
      rw [Sys.moved_self]
      refine ⟨hstarted.1, fun e he => ?_⟩
      obtain ⟨⟨l, known⟩, hmem, rfl⟩ := List.mem_map.mp he
      have hsatisfied := hstarted.2 _ hmem
      cases known with
      | some outcome' => exact hsatisfied
      | none =>
          rw [invokeEntry]
          split <;> exact hsatisfied
  | claim clock leaseSeconds locked task queue hphase hclaim =>
      simp only [Function.update_self]
      trivial
  | extend expiresAt id htask =>
      simp only [Function.update_self]
      exact hstarted
  | requeue runAfter id htask =>
      rw [show (_ : Sys P Value).procs q = Process.idle from Sys.raised_self]
      trivial
  | release id status hphase htask =>
      rw [show (_ : Sys P Value).procs q = Process.idle from Sys.raised_self]
      trivial
  | raised a hnot =>
      rw [Sys.raised_self]
      trivial
  | _ =>
      rw [Sys.moved_self]
      trivial

theorem all_started {tr : List (P × Action Value)}
    (h : Trace.run (Sys.step env) (Sys.start P env now) tr = some s) (p : P) :
    (s.procs p).phase.Started env := by
  have hboth : SysOk env s ∧ ∀ p, (s.procs p).phase.Started env := by
    refine Trace.run_invariant (P := fun s => SysOk env s ∧ ∀ p, (s.procs p).phase.Started env)
      ⟨start_ok env now, fun _ => trivial⟩ ?_ h
    intro s step s' hs hstep
    obtain ⟨hok, hstarted⟩ := hs
    obtain ⟨q, a⟩ := step
    exact ⟨hok.step hstep, (hok.step_move hstep).started hok hstarted⟩
  exact hboth.2 p

/--
**A required input is absent only where everything that connects to it is dead.**  On a
graph that validates, in every state of a run and for every node in the hands of a
process, what its runner is given lacks a required input if and only if every connection
into that input is dead and the node was started on the value of another one.
-/
theorem required_input_missing_iff {tr : List (P × Action Value)}
    (hvalid : (validateGraph env.graph env.registry).isValid = true)
    (h : Trace.run (Sys.step env) (Sys.start P env now) tr = some s) {cycles : Nat}
    {snap : RunRows Value} {batch : List (Launch × Option (Outcome Value))}
    (hphase : (s.procs p).phase = .invoking cycles snap batch) {l : Launch}
    {known : Option (Outcome Value)} (hl : (l, known) ∈ batch) {context : NodeRunContext Value}
    (hcontext : invocation env snap l = .ok (some context)) {node : GraphNode Value}
    (hnode : env.graph.node l.key = some node) {d : NodeDescriptor Value}
    (hfind : env.registry.find node.nodeType node.version = some d) {i : InputHandle}
    (hi : i ∈ d.inputs) (hrequired : i.required = true) :
    context.inputs.contains i.name = false ↔
      Unfed (snapshot env.graph snap) l.key context.inputs i.name := by
  have hstarted := all_started h p
  rw [hphase] at hstarted
  obtain ⟨hok, hsatisfied⟩ := hstarted
  obtain ⟨-, hbuild⟩ := invocation_inv hcontext
  obtain ⟨-, -, -, -, -, rfl⟩ := buildContext_inv hbuild
  have hkey : node.key = l.key := by simpa using List.find?_some hnode
  have hconnected := connected_of_valid hvalid (List.mem_of_find?_eq_some hnode) hfind hi hrequired
  rw [hkey] at hconnected
  exact hok.missing_iff (hsatisfied _ hl) hconnected

end Steps

/-! ### The rejoining branch -/

/-- The tick after `side` was pruned starts `merge`. -/
def rejoinMerges : List (Bool × Action Unit) :=
  (rejoinDrive (.completed []) ++ [Action.beginTick, .commitTick 0]).map (true, ·)

theorem rejoinMerges_calls : ∃ s, Trace.run (Sys.step rejoinEnv) (Sys.start Bool rejoinEnv 0)
      rejoinMerges = some s ∧ ∃ cycles snap batch context,
        (s.procs true).phase = .invoking cycles snap batch ∧
        ((⟨"merge", 1, none⟩ : Launch), none) ∈ batch ∧
        invocation rejoinEnv snap ⟨"merge", 1, none⟩ = .ok (some context) ∧
        context.inputs = [("b", ())] := by
  have heval : (Trace.run (Sys.step rejoinEnv) (Sys.start Bool rejoinEnv 0) rejoinMerges).map
      (fun s => ((s.procs true).phase.calls rejoinEnv).map fun call => (call.1, call.2.inputs))
      = some [(⟨"merge", 1, none⟩, [("b", ())])] := by
    decide +kernel
  obtain ⟨s, hrun, hvalues⟩ := Option.map_eq_some_iff.mp heval
  obtain ⟨⟨l, context⟩, hcalls, hpair⟩ := List.map_eq_singleton_iff.mp hvalues
  obtain ⟨rfl, hinputs⟩ := Prod.mk.inj hpair
  obtain ⟨cycles, snap, batch, hphase, hbatch, hcontext⟩ :=
    mem_calls (hcalls ▸ List.mem_singleton_self (_, context))
  exact ⟨s, hrun, cycles, snap, batch, context, hphase, hbatch, hcontext, hinputs⟩

/-- The node type of `merge` in the example, which requires both its inputs. -/
theorem rejoin_merge_type : ∃ node d, rejoinEnv.graph.node "merge" = some node ∧
    rejoinEnv.registry.find node.nodeType node.version = some d ∧
    ∃ i ∈ d.inputs, i.required = true ∧ i.name = "a" :=
  ⟨⟨"merge", "core.merge", 1, [], none⟩,
    rejoinType "core.merge" .control ["a", "b"] ["main"] (by decide) (by decide), rfl, rfl,
    ⟨"a", .any, .single, true⟩, by decide, rfl, rfl⟩

/-- `merge` is without `a` because `side` was pruned, and runs on `b`. -/
theorem rejoin_merge_unfed :
    ∃ snap inputs, Unfed (snapshot rejoinEnv.graph snap) "merge" inputs "a" := by
  obtain ⟨s, hrun, cycles, snap, batch, context, hphase, hbatch, hcontext, hinputs⟩ :=
    rejoinMerges_calls
  obtain ⟨node, d, hnode, hfind, i, hi, hrequired, hname⟩ := rejoin_merge_type
  have hvalid : (validateGraph rejoinEnv.graph rejoinEnv.registry).isValid = true :=
    rejoinGraph_valid
  have hiff :=
    required_input_missing_iff hvalid hrun hphase hbatch hcontext hnode hfind hi hrequired
  rw [hinputs, hname] at hiff
  exact ⟨snap, [("b", ())], hiff.mp (by decide)⟩

/-- A graph validates, and a node of it is started without an input its type requires. -/
theorem rejoin_merge_without_required :
    (validateGraph rejoinEnv.graph rejoinEnv.registry).isValid = true ∧
    ∃ s, Trace.run (Sys.step rejoinEnv) (Sys.start Bool rejoinEnv 0) rejoinMerges = some s ∧
      ∃ cycles snap batch l context node d i,
        (s.procs true).phase = .invoking cycles snap batch ∧ (l, none) ∈ batch ∧
        invocation rejoinEnv snap l = .ok (some context) ∧
        rejoinEnv.graph.node l.key = some node ∧
        rejoinEnv.registry.find node.nodeType node.version = some d ∧
        i ∈ d.inputs ∧ i.required = true ∧ context.inputs.contains i.name = false := by
  obtain ⟨s, hrun, cycles, snap, batch, context, hphase, hbatch, hcontext, hinputs⟩ :=
    rejoinMerges_calls
  obtain ⟨node, d, hnode, hfind, i, hi, hrequired, hname⟩ := rejoin_merge_type
  refine ⟨rejoinGraph_valid, s, hrun, cycles, snap, batch, _, context, node, d, i, hphase, hbatch,
    hcontext, hnode, hfind, hi, hrequired, ?_⟩
  rw [hinputs, hname]
  decide

end Orqent
