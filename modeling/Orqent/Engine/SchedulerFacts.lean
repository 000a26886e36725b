/-
What the sets of a tick have to do with one another.

An edge is never both live and dead, so a node is never both startable and
prunable: the prunings and the starts of a tick are disjoint, and so are the
prunings and the recoveries.  Nothing is decided twice.  The run's conclusion is
read off the statuses alone.
-/
import Orqent.Engine.Scheduler

namespace Orqent.Scheduler

variable {Value : Type} {s : RunSnapshot Value} {key : NodeKey} {e : GraphEdge}

/-! ### Edges -/

theorem isLive_iff : isLive s e = true ↔ ∃ x outputs, s.nodeExecutions e.sourceKey = some x ∧
    x.status = .succeeded ∧ x.outputs = some outputs ∧ outputs.contains e.sourceHandle = true := by
  unfold isLive
  cases s.nodeExecutions e.sourceKey with
  | none => simp
  | some x =>
      by_cases hst : x.status = .succeeded
      · cases hout : x.outputs <;> simp [hst, hout]
      · simp [hst]

theorem isDead_iff : isDead s e = true ↔ ∃ x, s.nodeExecutions e.sourceKey = some x ∧
    (x.status = .skipped ∨ x.status = .succeeded ∧
      ∃ outputs, x.outputs = some outputs ∧ outputs.contains e.sourceHandle = false) := by
  unfold isDead
  cases s.nodeExecutions e.sourceKey with
  | none => simp
  | some x =>
      by_cases hst : x.status = .skipped
      · simp [hst]
      · cases hout : x.outputs <;> simp [hst, hout]

/-- An edge is never both live and dead. -/
theorem not_dead_of_live (h : isLive s e = true) : isDead s e = false := by
  obtain ⟨x, outputs, hx, hst, hout, hmem⟩ := isLive_iff.mp h
  by_contra hdead
  obtain ⟨y, hy, hcase⟩ := isDead_iff.mp (by simpa using hdead)
  obtain rfl : x = y := by rw [hx, Option.some.injEq] at hy; exact hy
  rcases hcase with hskip | ⟨-, outputs', hout', hnot⟩
  · rw [hst] at hskip
    simp at hskip
  · rw [hout, Option.some.injEq] at hout'
    rw [← hout', hmem] at hnot
    simp at hnot

/-- Whether an edge has been decided: it carried a value, or never will. -/
def resolved (s : RunSnapshot Value) (e : GraphEdge) : Bool := isLive s e || isDead s e

theorem upstreamSatisfied_iff : upstreamSatisfied s key = true ↔
    s.graph.incoming key = [] ∨
      (∀ e ∈ s.graph.incoming key, resolved s e = true) ∧
        ∃ e ∈ s.graph.incoming key, isLive s e = true := by
  unfold upstreamSatisfied
  cases s.graph.incoming key with
  | nil => simp
  | cons e rest => simp [resolved]

theorem upstreamDead_iff : upstreamDead s key = true ↔
    s.graph.incoming key ≠ [] ∧ ∀ e ∈ s.graph.incoming key, isDead s e = true := by
  unfold upstreamDead
  cases s.graph.incoming key with
  | nil => simp
  | cons e rest => simp

/-- A node whose inputs let it run is not one whose inputs are all dead. -/
theorem not_upstreamDead_of_satisfied (h : upstreamSatisfied s key = true) :
    upstreamDead s key = false := by
  by_contra hdead
  obtain ⟨hne, hall⟩ := upstreamDead_iff.mp (by simpa using hdead)
  rcases upstreamSatisfied_iff.mp h with hnil | ⟨-, e, he, hlive⟩
  · exact hne hnil
  · have := not_dead_of_live hlive
    rw [hall e he] at this
    simp at this

/-- Once every inbound edge is decided the node can run or can never run. -/
theorem satisfied_or_dead (h : ∀ e ∈ s.graph.incoming key, resolved s e = true) :
    upstreamSatisfied s key = true ∨ upstreamDead s key = true := by
  by_cases hnil : s.graph.incoming key = []
  · exact Or.inl (upstreamSatisfied_iff.mpr (Or.inl hnil))
  by_cases hlive : ∃ e ∈ s.graph.incoming key, isLive s e = true
  · exact Or.inl (upstreamSatisfied_iff.mpr (Or.inr ⟨h, hlive⟩))
  · refine Or.inr (upstreamDead_iff.mpr ⟨hnil, fun e he => ?_⟩)
    have hnot : isLive s e = false := by
      by_contra hc
      exact hlive ⟨e, he, by simpa using hc⟩
    simpa [resolved, hnot] using h e he

/-! ### Nodes -/

@[simp] theorem mem_strandedKeys :
    key ∈ strandedKeys s ↔ key ∈ s.graph.nodeKeys ∧ statusOf s key = .running := by
  simp [strandedKeys]

@[simp] theorem mem_prunableKeys : key ∈ prunableKeys s ↔
    key ∈ s.graph.nodeKeys ∧ statusOf s key = .pending ∧ upstreamDead s key = true := by
  simp [prunableKeys]

@[simp] theorem mem_readyKeys : key ∈ readyKeys s ↔ key ∈ s.graph.nodeKeys ∧
    (statusOf s key = .running ∨ statusOf s key = .pending) ∧
      upstreamSatisfied s key = true := by
  simp [readyKeys]

theorem strandedKeys_nodup : (strandedKeys s).Nodup := s.graph.nodeKeys_nodup.filter _

theorem prunableKeys_nodup : (prunableKeys s).Nodup := s.graph.nodeKeys_nodup.filter _

theorem readyKeys_nodup : (readyKeys s).Nodup := s.graph.nodeKeys_nodup.filter _

theorem not_stranded_of_prunable (h : key ∈ prunableKeys s) : key ∉ strandedKeys s := by
  intro hc
  rw [mem_prunableKeys] at h
  rw [mem_strandedKeys, h.2.1] at hc
  simp at hc

theorem not_prunable_of_ready (h : key ∈ readyKeys s) : key ∉ prunableKeys s := by
  intro hc
  have hdead := not_upstreamDead_of_satisfied (mem_readyKeys.mp h).2.2
  rw [(mem_prunableKeys.mp hc).2.2] at hdead
  simp at hdead

@[simp] theorem someNode_iff {st : NodeExecutionStatus} :
    someNode s st = true ↔ ∃ k ∈ s.graph.nodeKeys, statusOf s k = st := by
  simp [someNode]

/-! ### The decisions -/

/-- What a tick decides about nodes: recoveries, prunings, starts. -/
def nodeDecisions (s : RunSnapshot Value) : List SchedulerDecision :=
  (strandedKeys s).map .recoverNode ++ (prunableKeys s).map .skipNode ++
    (readyKeys s).map .startNode

theorem decisions_eq (s : RunSnapshot Value) : decisions s = nodeDecisions s ++ statusDecision s :=
  rfl

theorem mem_nodeDecisions {d : SchedulerDecision} : d ∈ nodeDecisions s ↔
    (∃ key ∈ strandedKeys s, d = .recoverNode key) ∨ (∃ key ∈ prunableKeys s, d = .skipNode key) ∨
      ∃ key ∈ readyKeys s, d = .startNode key := by
  simp only [nodeDecisions, List.mem_append, List.mem_map, or_assoc, eq_comm]

theorem statusDecision_cases (s : RunSnapshot Value) :
    statusDecision s = [] ∨ ∃ status, statusDecision s = [.setRunStatus status] := by
  unfold statusDecision
  split
  · exact Or.inl rfl
  · split
    · exact Or.inl rfl
    · exact Or.inr ⟨_, rfl⟩

theorem eq_setRunStatus {d : SchedulerDecision} (h : d ∈ statusDecision s) :
    ∃ status, d = .setRunStatus status := by
  rcases statusDecision_cases s with hnil | ⟨status, hone⟩
  · rw [hnil] at h
    exact absurd h List.not_mem_nil
  · rw [hone] at h
    exact ⟨status, List.mem_singleton.mp h⟩

theorem mem_decisions {d : SchedulerDecision} (hnode : ∀ status, d ≠ .setRunStatus status) :
    d ∈ decisions s ↔ d ∈ nodeDecisions s := by
  rw [decisions_eq, List.mem_append]
  refine or_iff_left fun hstatus => ?_
  obtain ⟨status, hc⟩ := eq_setRunStatus hstatus
  exact hnode status hc

theorem recoverNode_mem : .recoverNode key ∈ decisions s ↔ key ∈ strandedKeys s := by
  rw [mem_decisions (by simp), mem_nodeDecisions]
  simp

theorem skipNode_mem : .skipNode key ∈ decisions s ↔ key ∈ prunableKeys s := by
  rw [mem_decisions (by simp), mem_nodeDecisions]
  simp

theorem startNode_mem : .startNode key ∈ decisions s ↔ key ∈ readyKeys s := by
  rw [mem_decisions (by simp), mem_nodeDecisions]
  simp

/-- **Nothing is decided twice.** -/
theorem decisions_nodup (s : RunSnapshot Value) : (decisions s).Nodup := by
  have hrecover :=
    (strandedKeys_nodup (s := s)).map fun _ _ h => SchedulerDecision.recoverNode.inj h
  have hskip := (prunableKeys_nodup (s := s)).map fun _ _ h => SchedulerDecision.skipNode.inj h
  have hstart := (readyKeys_nodup (s := s)).map fun _ _ h => SchedulerDecision.startNode.inj h
  rw [decisions_eq, nodeDecisions, List.nodup_append, List.nodup_append, List.nodup_append]
  refine ⟨⟨⟨hrecover, hskip, ?_⟩, hstart, ?_⟩, ?_, ?_⟩
  · intro d hd d' hd'
    obtain ⟨key, -, rfl⟩ := List.mem_map.mp hd
    obtain ⟨key', -, rfl⟩ := List.mem_map.mp hd'
    simp
  · intro d hd d' hd'
    obtain ⟨key', -, rfl⟩ := List.mem_map.mp hd'
    rcases List.mem_append.mp hd with hd | hd <;>
      obtain ⟨key, -, rfl⟩ := List.mem_map.mp hd <;> simp
  · rcases statusDecision_cases s with hnil | ⟨status, hone⟩
    · rw [hnil]
      exact List.nodup_nil
    · rw [hone]
      exact List.nodup_singleton _
  · intro d hd d' hd'
    obtain ⟨status, rfl⟩ := eq_setRunStatus hd'
    rcases mem_nodeDecisions.mp hd with ⟨key, -, rfl⟩ | ⟨key, -, rfl⟩ | ⟨key, -, rfl⟩ <;> simp

/-! ### The run -/

theorem conclusion_running_iff :
    conclusion s = some .running ↔ readyKeys s ≠ [] ∨ someNode s .running = true := by
  unfold conclusion
  constructor
  · intro h
    by_contra hnot
    rw [not_or] at hnot
    have hcond : ¬ ((!(readyKeys s).isEmpty || someNode s .running) = true) := by
      simpa using ⟨not_not.mp hnot.1, by simpa using hnot.2⟩
    rw [if_neg hcond] at h
    split at h
    · simp at h
    · split at h
      · simp at h
      · split at h <;> simp at h
  · intro h
    rw [if_pos (by simpa using h)]

/-- Nothing runs and nothing starts where the tick does not conclude `RUNNING`. -/
theorem quiet_of_ne_running (h : conclusion s ≠ some .running) :
    readyKeys s = [] ∧ someNode s .running = false := by
  have hnot : ¬ (readyKeys s ≠ [] ∨ someNode s .running = true) :=
    fun hc => h (conclusion_running_iff.mpr hc)
  rw [not_or, not_not] at hnot
  exact ⟨hnot.1, Bool.eq_false_iff.mpr hnot.2⟩

theorem quiet_of_conclusion {st : RunStatus} (h : conclusion s = some st) (hst : st ≠ .running) :
    readyKeys s = [] ∧ someNode s .running = false :=
  quiet_of_ne_running (by simpa [h] using hst)

/-- The conclusions other than `RUNNING`, once nothing runs and nothing starts. -/
theorem conclusion_of_quiet (hready : readyKeys s = []) (hrun : someNode s .running = false) :
    conclusion s =
      if someNode s .waiting then some .suspended
      else if someNode s .failed then some .failed
      else if !s.graph.nodeKeys.isEmpty && s.graph.nodeKeys.all (fun k => (statusOf s k).isTerminal)
      then some .completed
      else none := by
  unfold conclusion
  rw [if_neg (by simp [hready, hrun])]

/-- Once every node has succeeded or was skipped the run is complete. -/
theorem conclusion_of_done (hready : readyKeys s = []) (hne : s.graph.nodeKeys ≠ [])
    (hdone : ∀ k ∈ s.graph.nodeKeys, statusOf s k = .succeeded ∨ statusOf s k = .skipped) :
    conclusion s = some .completed := by
  have hnone : ∀ st, st ≠ .succeeded → st ≠ .skipped → someNode s st = false := by
    intro st hsucceeded hskipped
    refine Bool.eq_false_iff.mpr fun hc => ?_
    obtain ⟨k, hk, hst⟩ := someNode_iff.mp hc
    rcases hdone k hk with h | h
    · exact hsucceeded (hst.symm.trans h)
    · exact hskipped (hst.symm.trans h)
  have hall : s.graph.nodeKeys.all (fun k => (statusOf s k).isTerminal) = true := by
    rw [List.all_eq_true]
    intro k hk
    rcases hdone k hk with h | h <;> rw [h] <;> rfl
  rw [conclusion_of_quiet hready (hnone .running nofun nofun), hnone .waiting nofun nofun,
    hnone .failed nofun nofun, hall]
  simp [hne]

theorem conclusion_suspended (h : conclusion s = some .suspended) : someNode s .waiting = true := by
  obtain ⟨hready, hrun⟩ := quiet_of_conclusion h (by decide)
  rw [conclusion_of_quiet hready hrun] at h
  by_contra hw
  rw [if_neg hw] at h
  split at h
  · simp at h
  · split at h <;> simp at h

theorem conclusion_failed (h : conclusion s = some .failed) :
    someNode s .waiting = false ∧ someNode s .failed = true := by
  obtain ⟨hready, hrun⟩ := quiet_of_conclusion h (by decide)
  rw [conclusion_of_quiet hready hrun] at h
  split at h
  · simp at h
  · rename_i hw
    refine ⟨Bool.eq_false_iff.mpr hw, ?_⟩
    by_contra hf
    rw [if_neg hf] at h
    split at h <;> simp at h

theorem conclusion_completed (h : conclusion s = some .completed) :
    s.graph.nodeKeys ≠ [] ∧ ∀ k ∈ s.graph.nodeKeys, (statusOf s k).isTerminal = true := by
  obtain ⟨hready, hrun⟩ := quiet_of_conclusion h (by decide)
  rw [conclusion_of_quiet hready hrun] at h
  split at h
  · simp at h
  · split at h
    · simp at h
    · split at h
      · rename_i hall
        simpa [List.isEmpty_iff] using hall
      · simp at h

theorem conclusion_ne_pending : conclusion s ≠ some .pending := by
  intro h
  obtain ⟨hready, hrun⟩ := quiet_of_conclusion h (by decide)
  rw [conclusion_of_quiet hready hrun] at h
  split at h
  · simp at h
  · split at h
    · simp at h
    · split at h <;> simp at h

theorem statusDecision_eq_nil_iff :
    statusDecision s = [] ↔ conclusion s = none ∨ conclusion s = some s.status := by
  unfold statusDecision
  cases conclusion s with
  | none => simp
  | some st => by_cases h : st = s.status <;> simp [h]

/-- A tick decides nothing exactly when nothing is stranded, prunable or ready and the
run already holds the status concluded. -/
theorem decisions_eq_nil_iff : decisions s = [] ↔
    strandedKeys s = [] ∧ prunableKeys s = [] ∧ readyKeys s = [] ∧
      (conclusion s = none ∨ conclusion s = some s.status) := by
  rw [decisions, List.append_eq_nil_iff, List.append_eq_nil_iff, List.append_eq_nil_iff,
    List.map_eq_nil_iff, List.map_eq_nil_iff, List.map_eq_nil_iff, statusDecision_eq_nil_iff]
  tauto

/-- A tick on a complete snapshot returns exactly when the graph has no fan-in. -/
theorem tick_ok_iff (h : s.Complete) {ds : List SchedulerDecision} :
    tick s = .ok ds ↔ s.graph.SingleFanIn ∧ ds = decisions s := by
  constructor
  · intro htick
    have hfan : s.graph.SingleFanIn := by
      refine (rejectUnsupportedFanIn_ok_iff s.graph).mp ?_
      cases hcheck : rejectUnsupportedFanIn s.graph with
      | ok u => rfl
      | error err =>
          rw [tick, hcheck] at htick
          cases htick
    rw [tick_ok h hfan, Except.ok.injEq] at htick
    exact ⟨hfan, htick.symm⟩
  · intro hc
    obtain ⟨hfan, rfl⟩ := hc
    exact tick_ok h hfan

end Orqent.Scheduler
