/-
Rows that agree with the reference.

`Matches` says that every node that is done has come to what `evaluate` says of it.
It is what a tick keeps, because a node whose inputs have settled is started on
exactly the inputs of the reference (`Matches.runs`) and one whose inputs are dead is
skipped there too (`Matches.skips`), and what recording the right outputs keeps.
Where a tick has nothing left to decide, every node is done.
-/
import Orqent.Engine.Invocation
import Orqent.Graph.Evaluate
import Orqent.Service.Progress

namespace Orqent

open Scheduler

variable {Value : Type} {g : WorkflowGraph Value} {runner : NodeRunner Value}
  {rows rows' : RunRows Value} {now : Time} {key : NodeKey} {queue : List QueueOp}

/-- Every node that is done has come to what the reference says, and none failed or waits. -/
structure Matches (g : WorkflowGraph Value) (runner : NodeRunner Value) (rows : RunRows Value) :
    Prop where
  succeeded : ∀ k ∈ g.nodeKeys, (rows.executions k).status = .succeeded →
    ∃ inputs outputs, g.evaluate runner k = some (inputs, outputs) ∧
      (rows.executions k).output = some outputs
  skipped : ∀ k ∈ g.nodeKeys, (rows.executions k).status = .skipped → g.evaluate runner k = none
  sound : ∀ k ∈ g.nodeKeys,
    (rows.executions k).status ≠ .failed ∧ (rows.executions k).status ≠ .waiting

/-! ### Edges -/

/-- A live edge carries what it carries in the reference. -/
theorem Matches.live (h : Matches g runner rows) {e : GraphEdge}
    (hlive : isLive (snapshot g rows) e = true) :
    arrival (snapshot g rows) e = liveInput (g.evaluate runner) e ∧
      (liveInput (g.evaluate runner) e).isSome = true := by
  obtain ⟨hk, hst, outputs, hout, hemitted⟩ := source_of_live hlive
  obtain ⟨inputs, outputs', heval, hout'⟩ := h.succeeded _ hk hst
  obtain rfl : outputs = outputs' := Option.some.inj (hout.symm.trans hout')
  obtain ⟨value, hvalue⟩ := (Dict.contains_iff outputs _).mp hemitted
  have hinput : liveInput (g.evaluate runner) e = some (e.targetHandle, value) := by
    unfold liveInput
    rw [heval]
    simp [hvalue]
  rw [hinput, arrival, carried, snapshot_execution hk]
  simp [hout, hvalue]

/-- A dead edge carries nothing, and nothing in the reference. -/
theorem Matches.dead (h : Matches g runner rows) (hok : RunOk g rows) {e : GraphEdge}
    (hdead : isDead (snapshot g rows) e = true) :
    arrival (snapshot g rows) e = none ∧ liveInput (g.evaluate runner) e = none := by
  obtain ⟨hk, hskip | ⟨hst, outputs, hout, hemitted⟩⟩ := source_of_dead hdead
  · have hnone : (rows.executions e.sourceKey).output = none := by
      rw [← Option.not_isSome_iff_eq_none]
      intro hc
      rw [(hok.output_iff _ hk).mp hc] at hskip
      exact nomatch hskip
    unfold liveInput
    rw [h.skipped _ hk hskip, arrival, carried, snapshot_execution hk]
    simp [hnone]
  · obtain ⟨inputs, outputs', heval, hout'⟩ := h.succeeded _ hk hst
    obtain rfl : outputs = outputs' := Option.some.inj (hout.symm.trans hout')
    have hnone : outputs.get? e.sourceHandle = none := by
      rw [← Option.not_isSome_iff_eq_none]
      simpa [Dict.contains] using hemitted
    unfold liveInput
    rw [heval, arrival, carried, snapshot_execution hk]
    simp [hout, hnone]

/-! ### Nodes -/

/-- **A node whose inputs have settled runs in the reference, on the same inputs.** -/
theorem Matches.runs (h : Matches g runner rows) (hok : RunOk g rows) (hacyclic : g.Acyclic)
    (hfan : g.SingleFanIn) (hkey : key ∈ g.nodeKeys)
    (hsat : upstreamSatisfied (snapshot g rows) key = true) :
    g.evaluate runner key = some (resolveInputs (snapshot g rows) key,
      runner key (resolveInputs (snapshot g rows) key)) := by
  have harrive : ∀ e ∈ g.incoming key, resolved (snapshot g rows) e = true →
      arrival (snapshot g rows) e = liveInput (g.evaluate runner) e := by
    intro e _ hres
    unfold resolved at hres
    rw [Bool.or_eq_true] at hres
    rcases hres with hlive | hdead
    · exact (h.live hlive).1
    · rw [(h.dead hok hdead).1, (h.dead hok hdead).2]
  rw [WorkflowGraph.evaluate_eq hacyclic hkey, WorkflowGraph.evaluateFrom, resolveInputs_eq hfan]
  rcases upstreamSatisfied_iff.mp hsat with hnone | ⟨hall, e, he, hlive⟩
  · rw [snapshot_graph] at hnone ⊢
    simp [hnone]
  · have hinputs : (g.incoming key).filterMap (arrival (snapshot g rows))
        = (g.incoming key).filterMap (liveInput (g.evaluate runner)) :=
      List.filterMap_congr fun f hf => harrive f hf (hall f hf)
    have hany : ((g.incoming key).any fun f => (liveInput (g.evaluate runner) f).isSome) = true :=
      List.any_eq_true.mpr ⟨e, he, (h.live hlive).2⟩
    rw [snapshot_graph, hinputs, hany, Bool.or_true, if_pos rfl]

/-- **A node whose inputs are all dead is skipped in the reference.** -/
theorem Matches.skips (h : Matches g runner rows) (hok : RunOk g rows) (hacyclic : g.Acyclic)
    (hkey : key ∈ g.nodeKeys) (hdead : upstreamDead (snapshot g rows) key = true) :
    g.evaluate runner key = none := by
  obtain ⟨hne, hall⟩ := upstreamDead_iff.mp hdead
  have hany : ((g.incoming key).any fun f => (liveInput (g.evaluate runner) f).isSome) = false := by
    refine Bool.eq_false_iff.mpr fun hc => ?_
    obtain ⟨e, he, hsome⟩ := List.any_eq_true.mp hc
    rw [(h.dead hok (hall e he)).2] at hsome
    exact nomatch hsome
  have hempty : (g.incoming key).isEmpty = false := by simpa [List.isEmpty_iff] using hne
  rw [WorkflowGraph.evaluate_eq hacyclic hkey, WorkflowGraph.evaluateFrom, hany, hempty]
  rfl

/-! ### Transactions -/

theorem materialize_matches (g : WorkflowGraph Value) (runner : NodeRunner Value)
    (payload : Option (Dict String Value)) : Matches g runner (materialize payload) where
  succeeded := fun _ _ h => nomatch h
  skipped := fun _ _ h => nomatch h
  sound := fun _ _ => ⟨nofun, nofun⟩

/-- **A tick keeps the rows in agreement**: what it prunes, the reference skips. -/
theorem Matches.tick (h : Matches g runner rows) (hok : RunOk g rows) (hacyclic : g.Acyclic)
    (he : Effect g rows (.tick now) rows' queue) : Matches g runner rows' := by
  have hcases := fun k (hk : k ∈ g.nodeKeys) => hok.ticked_cases now hk
  rw [← he.tick_executions] at hcases
  refine ⟨fun k hk hst => ?_, fun k hk hst => ?_, fun k hk => ?_⟩
  · rcases hcases k hk with ⟨-, -, hrow⟩ | ⟨-, -, hrow⟩ | ⟨-, -, hrow⟩ | ⟨-, -, -, hrow⟩ <;>
      rw [hrow] at hst ⊢
    · exact nomatch hst
    · exact nomatch hst
    · exact nomatch hst
    · exact h.succeeded k hk hst
  · rcases hcases k hk with ⟨-, -, hrow⟩ | ⟨-, -, hrow⟩ | ⟨-, hdead, hrow⟩ | ⟨-, -, -, hrow⟩ <;>
      rw [hrow] at hst
    · exact nomatch hst
    · exact nomatch hst
    · exact h.skips hok hacyclic hk hdead
    · exact h.skipped k hk hst
  · rcases hcases k hk with ⟨-, -, hrow⟩ | ⟨-, -, hrow⟩ | ⟨-, -, hrow⟩ | ⟨-, -, -, hrow⟩ <;>
      rw [hrow]
    · exact ⟨nofun, nofun⟩
    · exact ⟨nofun, nofun⟩
    · exact ⟨nofun, nofun⟩
    · exact h.sound k hk

/-- Recording the outputs the reference has for a node. -/
theorem Matches.settle (h : Matches g runner rows) {inputs outputs : Dict String Value}
    (heval : g.evaluate runner key = some (inputs, outputs)) :
    Matches g runner ((rows.write key
      (settledExecution now (rows.executions key) (.completed outputs))).append
        (settledBody key (.completed outputs)).1 (settledBody key (.completed outputs)).2) := by
  have hrow : ∀ k, (rows.write key (settledExecution now (rows.executions key)
      (.completed outputs))).executions k =
        if k = key then settledExecution now (rows.executions key) (.completed outputs)
        else rows.executions k := by
    intro k
    by_cases hk : k = key
    · rw [hk, RunRows.write_self, if_pos rfl]
    · rw [RunRows.write_ne _ _ hk, if_neg hk]
  refine ⟨fun k hk hst => ?_, fun k hk hst => ?_, fun k hk => ?_⟩
  · rw [RunRows.append_executions, hrow] at hst ⊢
    split at hst
    · rename_i hkey
      rw [if_pos hkey, hkey]
      exact ⟨inputs, outputs, heval, rfl⟩
    · rename_i hkey
      rw [if_neg hkey]
      exact h.succeeded k hk hst
  · rw [RunRows.append_executions, hrow] at hst
    split at hst
    · exact nomatch hst
    · exact h.skipped k hk hst
  · rw [RunRows.append_executions, hrow]
    split
    · exact ⟨nofun, nofun⟩
    · exact h.sound k hk

/-- What every node is once the reference has been computed. -/
structure Computed (g : WorkflowGraph Value) (runner : NodeRunner Value) (rows : RunRows Value) :
    Prop where
  completed : rows.run.status = .completed
  ran : ∀ k ∈ g.nodeKeys, ∀ inputs outputs, g.evaluate runner k = some (inputs, outputs) →
    (rows.executions k).status = .succeeded ∧ (rows.executions k).output = some outputs
  skipped : ∀ k ∈ g.nodeKeys, g.evaluate runner k = none →
    (rows.executions k).status = .skipped ∧ (rows.executions k).output = none

/-- **A tick with nothing to decide finds the reference computed.** -/
theorem Matches.computed (h : Matches g runner rows) (hok : RunOk g rows) (hacyclic : g.Acyclic)
    (hne : g.nodeKeys ≠ []) (hquiet : decisions (snapshot g rows) = []) :
    Computed g runner rows := by
  obtain ⟨hstranded, hprunable, hready, hconc⟩ := decisions_eq_nil_iff.mp hquiet
  have hheld := hok.held_up hacyclic hstranded hprunable hready
  have hdone : ∀ k ∈ g.nodeKeys, (rows.executions k).status = .succeeded ∨
      (rows.executions k).status = .skipped := by
    intro k hk
    cases hst : (rows.executions k).status with
    | pending =>
        obtain ⟨a, ha, -, hfailed | hwaiting⟩ := hheld k hk hst
        · exact absurd hfailed (h.sound a ha).1
        · exact absurd hwaiting (h.sound a ha).2
    | running =>
        have hmem := mem_stranded.mpr ⟨hk, hst⟩
        rw [hstranded] at hmem
        exact nomatch hmem
    | waiting => exact absurd hst (h.sound k hk).2
    | succeeded => exact Or.inl rfl
    | failed => exact absurd hst (h.sound k hk).1
    | skipped => exact Or.inr rfl
  refine ⟨?_, fun k hk inputs outputs heval => ?_, fun k hk heval => ?_⟩
  · have hcompleted : conclusion (snapshot g rows) = some .completed := by
      refine conclusion_of_done hready hne fun k hk => ?_
      rw [snapshot_graph] at hk
      rw [snapshot_statusOf hk]
      exact hdone k hk
    rw [hcompleted] at hconc
    rcases hconc with hc | hc
    · exact nomatch hc
    · exact (Option.some.inj hc).symm
  · rcases hdone k hk with hst | hst
    · obtain ⟨inputs', outputs', heval', hout⟩ := h.succeeded k hk hst
      obtain ⟨-, rfl⟩ := Prod.mk.inj (Option.some.inj (heval.symm.trans heval'))
      exact ⟨hst, hout⟩
    · rw [h.skipped k hk hst] at heval
      exact nomatch heval
  · rcases hdone k hk with hst | hst
    · obtain ⟨inputs', outputs', heval', -⟩ := h.succeeded k hk hst
      rw [heval] at heval'
      exact nomatch heval'
    · refine ⟨hst, ?_⟩
      rw [← Option.not_isSome_iff_eq_none]
      intro hc
      rw [(hok.output_iff k hk).mp hc] at hst
      exact nomatch hst

end Orqent
