/-
The decisions of a tick are legal to apply.

A tick reads whatever snapshot it is given: statuses no run leads to, outputs of nodes that
never ran.  What it decides about nodes may still be applied to rows with these statuses, one
decision after another, and no guard refuses any.  A recovered node counts as pending for
the starts and not for the prunings; that a start finds its row `PENDING` rests on the
recoveries coming first.

`tick_legal` says so of every complete snapshot without fan-in.  A recovered node need not be
started as well: it is where its inputs have settled (`start_of_settled`).
-/
import Orqent.Service.Invariant

namespace Orqent

open Scheduler

variable {Value : Type} {s : RunSnapshot Value} {rows : RunRows Value} {now : Time}

/-- The node a decision moves, and where to. -/
def SchedulerDecision.move : SchedulerDecision → Option (NodeKey × NodeExecutionStatus)
  | .startNode key => some (key, .running)
  | .recoverNode key => some (key, .pending)
  | .skipNode key => some (key, .skipped)
  | .setRunStatus _ => none

/-- The guard that a decision about a node is applied behind. -/
def SchedulerDecision.guard (d : SchedulerDecision) (rows : RunRows Value) :
    Except EngineError Unit :=
  match d.move with
  | none => .ok ()
  | some (key, target) => ensureNodeExecutionTransition (rows.executions key).status target

/-- No inbound edge is undecided and one is live, or there is none at all. -/
def InputsSettled (s : RunSnapshot Value) (key : NodeKey) : Prop :=
  (∀ e ∈ s.graph.incoming key, isLive s e = true ∨ isDead s e = true) ∧
      (∃ e ∈ s.graph.incoming key, isLive s e = true) ∨
    s.graph.incoming key = []

/-- Decisions that can be applied to what they were decided on, node by node. -/
structure LegalTick (s : RunSnapshot Value) (ds : List SchedulerDecision) : Prop where
  oneWay : ∀ e, ¬ (isLive s e = true ∧ isDead s e = true)
  recoversOnce : ∀ key, ds.count (.recoverNode key) ≤ 1
  startsOnce : ∀ key, ds.count (.startNode key) ≤ 1
  skipsOnce : ∀ key, ds.count (.skipNode key) ≤ 1
  apart : ∀ key, ¬ (.startNode key ∈ ds ∧ .skipNode key ∈ ds)
  /-- There is an execution to move. -/
  known : ∀ d ∈ ds, ∀ m ∈ d.move, m.1 ∈ s.graph.nodeKeys
  /-- Each is come to, and its guard lets it pass. -/
  guarded : ∀ now rows, Shows s rows → ∀ before d after, ds = before ++ d :: after →
    ∃ work, before.foldlM (applyDecision now) (rows, []) = .ok work ∧ d.guard work.1 = .ok ()
  restarts : (∀ key ∈ s.graph.nodeKeys, statusOf s key = .running → InputsSettled s key) →
    ∀ key, .recoverNode key ∈ ds → .startNode key ∈ ds

/-! ### What is decided -/

/-- A node that is recovered is started too where its inputs have settled. -/
theorem start_of_settled {key : NodeKey} (h : key ∈ strandedKeys s)
    (hsettled : InputsSettled s key) : key ∈ readyKeys s := by
  obtain ⟨hmem, hrun⟩ := mem_strandedKeys.mp h
  refine mem_readyKeys.mpr ⟨hmem, Or.inl hrun, upstreamSatisfied_iff.mpr ?_⟩
  rcases hsettled with ⟨hdecided, hlive⟩ | hnil
  · refine Or.inr ⟨fun e he => ?_, hlive⟩
    unfold resolved
    rw [Bool.or_eq_true]
    exact hdecided e he
  · exact Or.inl hnil

/-- Every node that is moved is a node of the graph. -/
theorem move_known {d : SchedulerDecision} (hd : d ∈ decisions s) :
    ∀ m ∈ d.move, m.1 ∈ s.graph.nodeKeys := by
  intro m hm
  have hnode : ∀ status, d ≠ .setRunStatus status := by
    rintro status rfl
    exact nomatch hm
  rcases mem_nodeDecisions.mp ((mem_decisions hnode).mp hd) with
    ⟨key, hkey, rfl⟩ | ⟨key, hkey, rfl⟩ | ⟨key, hkey, rfl⟩ <;> obtain rfl := Option.some.inj hm
  · exact (mem_strandedKeys.mp hkey).1
  · exact (mem_prunableKeys.mp hkey).1
  · exact (mem_readyKeys.mp hkey).1

/-! ### Applying it -/

/-- What was applied has passed its guard. -/
theorem guard_of_applied {work work' : RunRows Value × List QueueOp} {d : SchedulerDecision}
    (h : applyDecision now work d = .ok work') : d.guard work.1 = .ok () := by
  cases d with
  | startNode key =>
      obtain ⟨u, hcheck, -⟩ := except_bind_eq_ok_iff.mp h
      exact hcheck
  | recoverNode key =>
      obtain ⟨u, hcheck, -⟩ := except_bind_eq_ok_iff.mp h
      exact hcheck
  | skipNode key =>
      obtain ⟨u, hcheck, -⟩ := except_bind_eq_ok_iff.mp h
      exact hcheck
  | setRunStatus status => rfl

/-- What applies as a whole comes to each decision in turn, and applies it. -/
theorem applied_each {before after : List SchedulerDecision} {d : SchedulerDecision}
    {work result : RunRows Value × List QueueOp}
    (h : (before ++ d :: after).foldlM (applyDecision now) work = .ok result) :
    ∃ mid next, before.foldlM (applyDecision now) work = .ok mid ∧
      applyDecision now mid d = .ok next := by
  rw [List.foldlM_append] at h
  obtain ⟨mid, hbefore, hrest⟩ := except_bind_eq_ok_iff.mp h
  rw [List.foldlM_cons] at hrest
  obtain ⟨next, hstep, -⟩ := except_bind_eq_ok_iff.mp hrest
  exact ⟨mid, next, hbefore, hstep⟩

/-- **No guard refuses a decision about a node**, in the order they are returned. -/
theorem Shows.guarded (h : Shows s rows) (now : Time) {before after : List SchedulerDecision}
    {d : SchedulerDecision} (hsplit : decisions s = before ++ d :: after) :
    ∃ work, before.foldlM (applyDecision now) (rows, []) = .ok work ∧
      d.guard work.1 = .ok () := by
  have hall := h.apply_nodeDecisions now
  rw [decisions_eq, List.append_eq_append_iff] at hsplit
  rcases hsplit with ⟨rest, rfl, hstatus⟩ | ⟨rest, hnodes, hrest⟩
  · -- The run's own move, which comes last.
    rcases statusDecision_cases s with hnil | ⟨status, hone⟩
    · rw [hnil] at hstatus
      simp at hstatus
    · rw [hone, eq_comm, List.append_eq_singleton_iff] at hstatus
      rcases hstatus with ⟨rfl, hd⟩ | ⟨-, hc⟩
      · obtain ⟨rfl, -⟩ := List.cons.inj hd
        rw [List.append_nil]
        exact ⟨_, hall, rfl⟩
      · exact nomatch hc
  · cases rest with
    | nil =>
        rw [List.append_nil] at hnodes
        rw [List.nil_append] at hrest
        obtain ⟨status, rfl⟩ := eq_setRunStatus (s := s) (d := d) (by simp [← hrest])
        exact ⟨_, hnodes ▸ hall, rfl⟩
    | cons d' rest =>
        obtain ⟨rfl, -⟩ := List.cons.inj hrest
        rw [hnodes] at hall
        obtain ⟨mid, next, hbefore, happlied⟩ := applied_each hall
        exact ⟨mid, hbefore, guard_of_applied happlied⟩

/--
**The node decisions of a tick are always legal to apply.**  A tick on a snapshot with one
execution per node and one edge per input handle, whatever the statuses and outputs in it,
returns decisions that are: no edge is both live and dead, no node is recovered, started
or pruned twice, none is both started and pruned, and applied in order to rows with these
statuses each passes its guard.  Where every running node has its inputs settled, all that
are recovered are started.
-/
theorem tick_legal (hcomplete : s.Complete) (hfan : s.graph.SingleFanIn) :
    ∃ ds, tick s = .ok ds ∧ LegalTick s ds := by
  have honce : ∀ d, (decisions s).count d ≤ 1 :=
    List.nodup_iff_count_le_one.mp (decisions_nodup s)
  refine ⟨decisions s, tick_ok hcomplete hfan, ?_, fun _ => honce _, fun _ => honce _,
    fun _ => honce _, ?_, fun d hd => move_known hd, ?_, ?_⟩
  · intro e hboth
    obtain ⟨hlive, hdead⟩ := hboth
    rw [not_dead_of_live hlive] at hdead
    exact nomatch hdead
  · intro key hboth
    obtain ⟨hstart, hskip⟩ := hboth
    exact not_prunable_of_ready (startNode_mem.mp hstart) (skipNode_mem.mp hskip)
  · intro now rows hshows before d after hsplit
    exact hshows.guarded now hsplit
  · intro hsettled key hrecover
    have hstranded := recoverNode_mem.mp hrecover
    obtain ⟨hmem, hrun⟩ := mem_strandedKeys.mp hstranded
    exact startNode_mem.mpr (start_of_settled hstranded (hsettled key hmem hrun))

/-- No run leads here: `merge` was left running, `trigger` was skipped, and `condition`, which
it feeds, has succeeded. -/
def strandedMerge : RunSnapshot Unit where
  status := .suspended
  graph := rejoinGraph
  nodeExecutions := fun key =>
    if key = "condition" then some ⟨key, .succeeded, 1, some [("true", ())]⟩
    else if key = "merge" then some ⟨key, .running, 1, none⟩
    else if key = "other" then some ⟨key, .pending, 1, none⟩
    else some ⟨key, .skipped, 1, none⟩

/-- `merge` is recovered and started, `other` is pruned, and all of it is legal. -/
theorem strandedMerge_legal :
    ∃ ds, tick strandedMerge = .ok ds ∧
      ds = [.recoverNode "merge", .skipNode "other", .startNode "merge", .setRunStatus .running] ∧
      LegalTick strandedMerge ds := by
  have hcomplete : strandedMerge.Complete := by
    unfold RunSnapshot.Complete
    decide
  obtain ⟨ds, htick, hlegal⟩ := tick_legal hcomplete rejoinGraph_singleFanIn
  have heval : tick strandedMerge =
      .ok [.recoverNode "merge", .skipNode "other", .startNode "merge", .setRunStatus .running] :=
    rfl
  rw [heval, Except.ok.injEq] at htick
  exact ⟨ds, htick ▸ heval, htick.symm, hlegal⟩

end Orqent
