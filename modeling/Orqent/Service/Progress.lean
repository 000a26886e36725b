/-
Runs do not stall.

On an acyclic graph a node that is neither started nor pruned has an inbound edge
that is not decided, and following those edges upstream ends at a node that failed
or waits.  So a tick with nothing to decide finds the run concluded or parked
(`quiet_tick_settled`), and validation establishes what the argument needs of the
graph (`publishable_progress`).
-/
import Orqent.Graph.Publishable
import Orqent.Service.Invariant

namespace Orqent

open Scheduler

variable {Value : Type} {g : WorkflowGraph Value} {rows : RunRows Value} {key : NodeKey}

/-- The edges of a succeeded or skipped node are decided. -/
theorem RunOk.resolved_of_final (h : RunOk g rows) {e : GraphEdge} (he : e.sourceKey ∈ g.nodeKeys)
    (hst : (rows.executions e.sourceKey).status = .succeeded ∨
      (rows.executions e.sourceKey).status = .skipped) :
    resolved (snapshot g rows) e = true := by
  rcases hst with hst | hst
  · obtain ⟨outputs, hout⟩ := Option.isSome_iff_exists.mp ((h.output_iff _ he).mpr hst)
    cases hemitted : outputs.contains e.sourceHandle with
    | true =>
        have hlive : isLive (snapshot g rows) e = true :=
          isLive_iff.mpr ⟨_, outputs, snapshot_execution he, hst, hout, hemitted⟩
        simp [resolved, hlive]
    | false =>
        have hdead : isDead (snapshot g rows) e = true :=
          isDead_iff.mpr ⟨_, snapshot_execution he, Or.inr ⟨hst, outputs, hout, hemitted⟩⟩
        simp [resolved, hdead]
  · have hdead : isDead (snapshot g rows) e = true :=
      isDead_iff.mpr ⟨_, snapshot_execution he, Or.inl hst⟩
    simp [resolved, hdead]

/-- Where nothing is running, startable or prunable, a pending node is held up by a
node upstream that failed or waits. -/
theorem RunOk.held_up (h : RunOk g rows) (hacyclic : g.Acyclic)
    (hstranded : strandedKeys (snapshot g rows) = [])
    (hprunable : prunableKeys (snapshot g rows) = []) (hready : readyKeys (snapshot g rows) = []) :
    ∀ k, k ∈ g.nodeKeys → (rows.executions k).status = .pending →
      ∃ a ∈ g.nodeKeys, g.Ancestor a k ∧
        ((rows.executions a).status = .failed ∨ (rows.executions a).status = .waiting) := by
  refine Digraph.acyclic_induction hacyclic (fun a b hab => (WorkflowGraph.feeds_mem hab).1) ?_
  intro k ih hk hpend
  have hopen : ∃ e ∈ g.incoming k, resolved (snapshot g rows) e = false := by
    by_contra hnone
    have hall : ∀ e ∈ g.incoming k, resolved (snapshot g rows) e = true := by
      intro e he
      by_contra hc
      exact hnone ⟨e, he, Bool.eq_false_iff.mpr hc⟩
    rcases satisfied_or_dead (s := snapshot g rows) hall with hsat | hdead
    · have := mem_ready.mpr ⟨hk, Or.inr hpend, hsat⟩
      simp [hready] at this
    · have := mem_prunable.mpr ⟨hk, hpend, hdead⟩
      simp [hprunable] at this
  obtain ⟨e, he, hunresolved⟩ := hopen
  have hfeeds := g.feeds_of_incoming he
  have hsource := g.source_mem_of_incoming he
  cases hst : (rows.executions e.sourceKey).status with
  | pending =>
      obtain ⟨a, ha, hanc, hheld⟩ := ih e.sourceKey hfeeds hsource hst
      exact ⟨a, ha, hanc.tail hfeeds, hheld⟩
  | running =>
      have := mem_stranded.mpr ⟨hsource, hst⟩
      simp [hstranded] at this
  | waiting => exact ⟨e.sourceKey, hsource, .single hfeeds, Or.inr hst⟩
  | succeeded => simp [h.resolved_of_final hsource (Or.inl hst)] at hunresolved
  | failed => exact ⟨e.sourceKey, hsource, .single hfeeds, Or.inl hst⟩
  | skipped => simp [h.resolved_of_final hsource (Or.inr hst)] at hunresolved

/-- **A tick with nothing to decide finds the run concluded or parked.** -/
theorem RunOk.quiet_tick_settled (h : RunOk g rows) (hacyclic : g.Acyclic) (hne : g.nodeKeys ≠ [])
    (hquiet : decisions (snapshot g rows) = []) : rows.run.status.isResting = true := by
  obtain ⟨hstranded, hprunable, hready, hconc⟩ := decisions_eq_nil_iff.mp hquiet
  have hheld := h.held_up hacyclic hstranded hprunable hready
  have hrun : someNode (snapshot g rows) .running = false := by
    refine Bool.eq_false_iff.mpr fun hc => ?_
    obtain ⟨k, hk, hst⟩ := someNode_snapshot.mp hc
    have := mem_stranded.mpr ⟨hk, hst⟩
    simp [hstranded] at this
  rw [conclusion_of_quiet hready hrun] at hconc
  by_cases hwait : someNode (snapshot g rows) .waiting = true
  · rw [if_pos hwait] at hconc
    obtain hc | hc := hconc
    · exact nomatch hc
    · rw [snapshot_status] at hc
      rw [← Option.some.inj hc]
      decide
  · rw [if_neg hwait] at hconc
    by_cases hfail : someNode (snapshot g rows) .failed = true
    · rw [if_pos hfail] at hconc
      obtain hc | hc := hconc
      · exact nomatch hc
      · rw [snapshot_status] at hc
        rw [← Option.some.inj hc]
        decide
    · rw [if_neg hfail] at hconc
      have hall : ∀ k ∈ g.nodeKeys, (rows.executions k).status.isTerminal = true := by
        intro k hk
        have hnotpending : (rows.executions k).status ≠ .pending := by
          intro hpend
          obtain ⟨a, ha, -, hst | hst⟩ := hheld k hk hpend
          · exact hfail (someNode_snapshot.mpr ⟨a, ha, hst⟩)
          · exact hwait (someNode_snapshot.mpr ⟨a, ha, hst⟩)
        cases hst : (rows.executions k).status with
        | pending => exact absurd hst hnotpending
        | running =>
            have := mem_stranded.mpr ⟨hk, hst⟩
            simp [hstranded] at this
        | waiting => exact absurd (someNode_snapshot.mpr ⟨k, hk, hst⟩) hwait
        | succeeded => rfl
        | failed => rfl
        | skipped => rfl
      have hcond : (!g.nodeKeys.isEmpty && g.nodeKeys.all fun k =>
          (statusOf (snapshot g rows) k).isTerminal) = true := by
        rw [Bool.and_eq_true, List.all_eq_true]
        refine ⟨by simpa [List.isEmpty_iff] using hne, fun k hk => ?_⟩
        rw [snapshot_statusOf hk]
        exact hall k hk
      rw [snapshot_graph, if_pos hcond] at hconc
      obtain hc | hc := hconc
      · exact nomatch hc
      · rw [snapshot_status] at hc
        rw [← Option.some.inj hc]
        decide

/--
**Publishable means executable, and no run stalls.**  On a graph that validates, over
a registry without inputs that take many connections, a tick in any state a run
reaches returns; and it returns nothing only when the run is completed, failed or
suspended, with every pending node held up by a failed or waiting one upstream.
-/
theorem publishable_progress {registry : NodeRegistry Value} {payload : Option (Dict String Value)}
    {tr : List (RunTxn Value)} (hsingle : registry.SingleInputs)
    (hvalid : (validateGraph g registry).isValid = true)
    (h : Trace.run (serial g) (materialize payload) tr = some rows) :
    (∃ ds, tick (snapshot g rows) = .ok ds) ∧
      (tick (snapshot g rows) = .ok [] →
        (rows.run.status = .completed ∨ rows.run.status = .failed ∨ rows.run.status = .suspended) ∧
          ∀ k ∈ g.nodeKeys, (rows.executions k).status = .pending →
            ∃ a ∈ g.nodeKeys, g.Ancestor a k ∧
              ((rows.executions a).status = .failed ∨ (rows.executions a).status = .waiting)) := by
  have htick : tick (snapshot g rows) = .ok (decisions (snapshot g rows)) :=
    tick_ok snapshot_complete (singleFanIn_of_valid hsingle hvalid)
  have hok : RunOk g rows := history_ok h
  refine ⟨⟨_, htick⟩, fun hnil => ?_⟩
  rw [htick, Except.ok.injEq] at hnil
  have hacyclic := acyclic_of_valid hvalid
  obtain ⟨hstranded, hprunable, hready, -⟩ := decisions_eq_nil_iff.mp hnil
  refine ⟨?_, hok.held_up hacyclic hstranded hprunable hready⟩
  have hresting := hok.quiet_tick_settled hacyclic (nodeKeys_ne_nil_of_valid hvalid) hnil
  cases hst : rows.run.status with
  | pending => rw [hst] at hresting; exact nomatch hresting
  | running => rw [hst] at hresting; exact nomatch hresting
  | suspended => exact Or.inr (Or.inr rfl)
  | completed => exact Or.inl rfl
  | failed => exact Or.inr (Or.inl rfl)

/-- A node type of the running example, with the handles its node has there. -/
def rejoinType (nodeType : String) (category : NodeCategory) (inputs outputs : List String)
    (hin : (inputs.map fun name => (⟨name, .any, .single, true⟩ : InputHandle).name).Nodup)
    (hout : (outputs.map fun name => (⟨name, .any⟩ : OutputHandle).name).Nodup) :
    NodeDescriptor Unit where
  nodeType
  version := 1
  category
  configModel := ⟨fun _ => [], fun _ => ""⟩
  inputs := inputs.map fun name => ⟨name, .any, .single, true⟩
  outputs := outputs.map fun name => ⟨name, .any⟩
  inputs_nodup := by rw [List.map_map]; exact hin
  outputs_nodup := by rw [List.map_map]; exact hout

/-- The node types of the running example. -/
def rejoinTypes : List (NodeDescriptor Unit) :=
  [rejoinType "trigger.manual" .trigger [] ["main"] (by decide) (by decide),
    rejoinType "core.condition" .control ["main"] ["true", "false"] (by decide) (by decide),
    rejoinType "core.noop" .transform ["main"] ["main"] (by decide) (by decide),
    rejoinType "core.merge" .control ["a", "b"] ["main"] (by decide) (by decide),
    rejoinType "ai.agent" .ai ["main"] ["main"] (by decide) (by decide)]

/-- The types of the graph whose branches join again. -/
def rejoinRegistry : NodeRegistry Unit where
  find nodeType version :=
    rejoinTypes.find? fun d => d.nodeType = nodeType && d.version = version

theorem rejoinRegistry_singleInputs : rejoinRegistry.SingleInputs := by
  intro nodeType version d hfind
  have hall : ∀ d ∈ rejoinTypes, ∀ i ∈ d.inputs, i.arity = .single := by decide
  simp only [rejoinRegistry] at hfind
  exact hall d (List.mem_of_find?_eq_some hfind)

theorem rejoinGraph_valid : (validateGraph rejoinGraph rejoinRegistry).isValid = true := by decide

/-- The running example validates, and its run parks when `other` waits. -/
theorem publishable_progress_rejoin : ∃ rows,
    Trace.run (serial rejoinGraph) (materialize none) (rejoinHistory (.suspended "token" none))
        = some rows ∧
      ∃ ds, tick (snapshot rejoinGraph rows) = .ok ds := by
  obtain ⟨rows, h⟩ : ∃ rows, Trace.run (serial rejoinGraph) (materialize none)
      (rejoinHistory (.suspended "token" none)) = some rows := ⟨_, rfl⟩
  exact ⟨rows, h, (publishable_progress rejoinRegistry_singleInputs rejoinGraph_valid h).1⟩

end Orqent
