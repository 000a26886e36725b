/-
The timeline as a history.

`replay` reads nothing but the timeline: it folds the events in the order of their
numbers into the statuses they say the run and its nodes have.  `events_replay` is
the point: after any history, that is what the rows say, and a node's attempt is
the number of times it was started from scratch, never below one.

Two moves leave no event of their own.  A recovery writes none, but every node a
tick recovers it also starts again, so the start counts it.  A run leaving `PENDING`
writes none either, but it only leaves with a node being started.
-/
import Orqent.Service.Invariant

namespace Orqent

open Scheduler

variable {Value : Type} {g : WorkflowGraph Value} {rows rows' : RunRows Value}
  {now : Time} {key : NodeKey} {queue : List QueueOp} {t : RunTxn Value}

/-! ### Reading the timeline back -/

/-- What the timeline says so far: the statuses, and how often a node was started that
was not waiting. -/
structure Replay where
  run : RunStatus
  node : NodeKey → NodeExecutionStatus
  starts : NodeKey → Nat

namespace Replay

/-- Before the first event. -/
def empty : Replay := ⟨.pending, fun _ => .pending, fun _ => 0⟩

/-- A node comes to stand at a status. -/
def settle (r : Replay) (key : NodeKey) (st : NodeExecutionStatus) : Replay :=
  { r with node := Function.update r.node key st }

/-- A start counts unless it resumes a waiting node, and it sets a pending run going. -/
def begin (r : Replay) (key : NodeKey) : Replay :=
  { run := if r.run = .pending then .running else r.run
    node := Function.update r.node key .running
    starts :=
      if r.node key = .pending ∨ r.node key = .running then
        Function.update r.starts key (r.starts key + 1)
      else r.starts }

/-- One event. -/
def event (r : Replay) (b : EventBody) : Replay :=
  match b.1, b.2.map EventPayload.nodeKey with
  | .nodeStarted, some key => r.begin key
  | .nodeSucceeded, some key => r.settle key .succeeded
  | .nodeFailed, some key => r.settle key .failed
  | .nodeSuspended, some key => r.settle key .waiting
  | .nodeSkipped, some key => r.settle key .skipped
  | .runSuspended, _ => { r with run := .suspended }
  | .runResumed, _ => { r with run := .running }
  | .runCompleted, _ => { r with run := .completed }
  | .runFailed, _ => { r with run := .failed }
  | _, _ => r

/-- Several events, in order. -/
def events (r : Replay) (bodies : List EventBody) : Replay := bodies.foldl event r

theorem settle_self (r : Replay) (key : NodeKey) (st : NodeExecutionStatus) :
    (r.settle key st).node key = st :=
  Function.update_self ..

theorem settle_ne (r : Replay) {key j : NodeKey} (st : NodeExecutionStatus) (h : j ≠ key) :
    (r.settle key st).node j = r.node j :=
  Function.update_of_ne h ..

theorem events_append (r : Replay) (bs cs : List EventBody) :
    r.events (bs ++ cs) = (r.events bs).events cs :=
  List.foldl_append ..

end Replay

/-- The timeline folded in the order of its numbers. -/
def replay (events : List RunEvent) : Replay :=
  Replay.empty.events
    ((events.insertionSort fun a b => a.seq ≤ b.seq).map fun e => (e.eventType, e.payload))

/-! ### Several nodes at once -/

namespace Replay

/-- The prunings of a tick. -/
theorem events_skipped (r : Replay) (keys : List NodeKey) :
    r.events (keys.map fun k => (.nodeSkipped, some (.node k))) =
      { r with node := fun k => if k ∈ keys then .skipped else r.node k } := by
  induction keys generalizing r with
  | nil => simp [events]
  | cons k rest ih =>
      show (r.settle k .skipped).events _ = _
      rw [ih, settle]
      congr 1
      funext j
      by_cases hj : j = k
      · subst hj
        simp
      · simp [hj]

/-- The starts of a tick: distinct nodes, none of them waiting. -/
theorem events_started (r : Replay) {keys : List NodeKey} (hnodup : keys.Nodup)
    (hfresh : ∀ k ∈ keys, r.node k = .pending ∨ r.node k = .running) :
    r.events (keys.map fun k => (.nodeStarted, some (.node k))) =
      { run := if keys ≠ [] ∧ r.run = .pending then .running else r.run
        node := fun k => if k ∈ keys then .running else r.node k
        starts := fun k => if k ∈ keys then r.starts k + 1 else r.starts k } := by
  induction keys generalizing r with
  | nil => simp [events]
  | cons k rest ih =>
      rw [List.nodup_cons] at hnodup
      show (r.begin k).events _ = _
      have hk := hfresh k List.mem_cons_self
      rw [ih _ hnodup.2]
      · simp only [begin, if_pos hk, mk.injEq]
        refine ⟨?_, ?_, ?_⟩
        · by_cases hrun : r.run = .pending <;> simp [hrun]
        · funext j
          by_cases hj : j = k
          · subst hj
            simp
          · simp [hj]
        · funext j
          by_cases hj : j = k
          · subst hj
            simp [hnodup.1]
          · simp [hj]
      · intro j hj
        have hne : j ≠ k := fun hc => hnodup.1 (hc ▸ hj)
        show Function.update r.node k .running j = _ ∨ Function.update r.node k .running j = _
        rw [Function.update_of_ne hne]
        exact hfresh j (List.mem_cons_of_mem k hj)

end Replay

/-! ### What each transaction writes -/

/-- The timeline without its numbers. -/
def RunRows.log (rows : RunRows Value) : List EventBody :=
  rows.events.map fun e => (e.eventType, e.payload)

theorem log_append (rows : RunRows Value) (eventType : RunEventType)
    (payload : Option EventPayload) :
    (rows.append eventType payload).log = rows.log ++ [(eventType, payload)] := by
  simp [RunRows.log, RunRows.append]

theorem log_appendAll (rows : RunRows Value) (bodies : List EventBody) :
    (rows.appendAll bodies).log = rows.log ++ bodies := by
  induction bodies generalizing rows with
  | nil => simp
  | cons b rest ih =>
      show ((rows.append b.1 b.2).appendAll rest).log = _
      rw [ih, log_append]
      simp

/-- In a numbered timeline the order of the numbers is the order of the rows. -/
theorem replay_eq (h : Numbered rows.events) :
    replay rows.events = Replay.empty.events rows.log := by
  have hsorted : rows.events.Pairwise fun a b => a.seq ≤ b.seq := by
    have hseqs : (rows.events.map RunEvent.seq).Pairwise (· ≤ ·) := by
      rw [h]
      exact List.pairwise_le_range'
    exact List.pairwise_map.mp hseqs
  unfold replay
  rw [hsorted.insertionSort_eq, RunRows.log]

/-- The events of a tick for the nodes. -/
theorem log_ticked : (ticked g now rows).log = rows.log ++ nodeBodies (snapshot g rows) := by
  unfold ticked
  rw [log_appendAll]
  rfl

theorem log_concluded (target : RunStatus) :
    (rows.concluded now target).log = rows.log ++ runBodies rows.run.status target := by
  unfold RunRows.concluded
  rw [log_appendAll]
  rfl

theorem log_resumed : (resumed now key rows).log =
    rows.log ++ [(.runResumed, none), (.nodeStarted, some (.node key))] := by
  unfold resumed
  rw [log_appendAll]
  rfl

/-! ### The timeline agrees with the rows -/

/-- What the timeline says of one node, and how that stands to its row. -/
structure NodeAgrees (x : NodeExecution Value) (st : NodeExecutionStatus) (starts : Nat) :
    Prop where
  status : st = x.status
  /-- A node not begun has no start and is at its first attempt. -/
  fresh : x.status = .pending ∨ x.status = .skipped → starts = 0 ∧ x.attempt = 1
  /-- A node begun has had one start for each attempt. -/
  counted : begun x.status → 1 ≤ starts ∧ x.attempt = starts

/-- What the timeline says of a run, and how that stands to its rows. -/
structure Agrees (g : WorkflowGraph Value) (rows : RunRows Value) (r : Replay) : Prop where
  run : r.run = rows.run.status
  node : ∀ k ∈ g.nodeKeys, NodeAgrees (rows.executions k) (r.node k) (r.starts k)

theorem begun_or_fresh (st : NodeExecutionStatus) : begun st ∨ st = .pending ∨ st = .skipped := by
  cases st <;> simp [begun]

/-- One start for each attempt, and never an attempt below one. -/
theorem NodeAgrees.attempt_eq {x : NodeExecution Value} {st : NodeExecutionStatus} {starts : Nat}
    (h : NodeAgrees x st starts) : x.attempt = max 1 starts := by
  rcases begun_or_fresh x.status with hbegun | hfresh
  · obtain ⟨hpos, heq⟩ := h.counted hbegun
    omega
  · obtain ⟨hzero, hone⟩ := h.fresh hfresh
    omega

/-- A node that stays begun, with the same attempt and no start. -/
theorem NodeAgrees.moved {x y : NodeExecution Value} {st : NodeExecutionStatus} {starts : Nat}
    (h : NodeAgrees x st starts) (hx : begun x.status) (hy : begun y.status)
    (hattempt : y.attempt = x.attempt) : NodeAgrees y y.status starts where
  status := rfl
  fresh := by
    intro hfresh
    rcases hy with hy | hy | hy | hy <;> simp [hy] at hfresh
  counted := fun _ => hattempt ▸ h.counted hx

theorem materialize_agrees (g : WorkflowGraph Value) (payload : Option (Dict String Value)) :
    Agrees g (materialize payload) (Replay.empty.events (materialize payload).log) where
  run := rfl
  node := fun k _ =>
    { status := rfl
      fresh := fun _ => ⟨rfl, rfl⟩
      counted := by rintro (h | h | h | h) <;> exact nomatch h }

/-- What a tick's own events say, node by node. -/
theorem Agrees.events_nodeBodies {r : Replay} (h : Agrees g rows r) :
    r.events (nodeBodies (snapshot g rows)) =
      { run := if readyKeys (snapshot g rows) ≠ [] ∧ r.run = .pending then .running else r.run
        node := fun k =>
          if k ∈ readyKeys (snapshot g rows) then .running
          else if k ∈ prunableKeys (snapshot g rows) then .skipped else r.node k
        starts := fun k =>
          if k ∈ readyKeys (snapshot g rows) then r.starts k + 1 else r.starts k } := by
  rw [nodeBodies, Replay.events_append, Replay.events_skipped,
    Replay.events_started _ readyKeys_nodup]
  intro k hk
  have hnot := not_prunable_of_ready hk
  obtain ⟨hmem, hst, -⟩ := mem_ready.mp hk
  simp only [if_neg hnot, (h.node k hmem).status]
  exact hst.symm

/-- A tick's own events agree with the rows it leaves, node by node. -/
theorem Agrees.ticked_node {r : Replay} (h : Agrees g rows r) (hok : RunOk g rows) (now : Time)
    (hk : key ∈ g.nodeKeys) :
    NodeAgrees ((ticked g now rows).executions key)
      ((r.events (nodeBodies (snapshot g rows))).node key)
      ((r.events (nodeBodies (snapshot g rows))).starts key) := by
  rw [h.events_nodeBodies]
  have hbefore := h.node key hk
  rcases hok.ticked_cases now hk with
    ⟨hrun, hsat, hrow⟩ | ⟨hpend, hsat, hrow⟩ | ⟨hpend, hdead, hrow⟩ | ⟨-, hready, hprune, hrow⟩ <;>
    rw [hrow]
  · simp only [if_pos (mem_ready.mpr ⟨hk, Or.inl hrun, hsat⟩)]
    obtain ⟨hpos, hcount⟩ := hbefore.counted (Or.inl hrun)
    exact
      { status := rfl
        fresh := by rintro (hc | hc) <;> exact nomatch hc
        counted := fun _ => ⟨Nat.le_add_left 1 _, congrArg (· + 1) hcount⟩ }
  · simp only [if_pos (mem_ready.mpr ⟨hk, Or.inr hpend, hsat⟩)]
    obtain ⟨hzero, hone⟩ := hbefore.fresh (Or.inl hpend)
    exact
      { status := rfl
        fresh := by rintro (hc | hc) <;> exact nomatch hc
        counted := fun _ => ⟨Nat.le_add_left 1 _, by rw [hzero]; exact hone⟩ }
  · have hprune := mem_prunable.mpr ⟨hk, hpend, hdead⟩
    have hready : key ∉ readyKeys (snapshot g rows) := fun hc => not_prunable_of_ready hc hprune
    simp only [if_neg hready, if_pos hprune]
    exact
      { status := rfl
        fresh := fun _ => hbefore.fresh (Or.inl hpend)
        counted := by rintro (hc | hc | hc | hc) <;> exact nomatch hc }
  · simp only [if_neg hready, if_neg hprune]
    exact hbefore

/-- What a tick's own events say of the run: a pending run is going once a node starts. -/
theorem Agrees.ticked_run_eq {r : Replay} (h : Agrees g rows r) :
    (r.events (nodeBodies (snapshot g rows))).run =
      if rows.run.status = .pending ∧ readyKeys (snapshot g rows) ≠ [] then .running
      else rows.run.status := by
  rw [h.events_nodeBodies, h.run]
  simp only [and_comm]

/-- The run's own event sets the run's status to the target; a run leaving `PENDING` has
none, and its start event did. -/
theorem events_runBodies {previous target : RunStatus} (h : target ∈ previous.transitions)
    {r : Replay} (hrun : previous = .pending ∧ target = .running ∧ r.run = .running ∨
      ¬ (previous = .pending ∧ target = .running)) :
    r.events (runBodies previous target) = { r with run := target } := by
  obtain ⟨run, node, starts⟩ := r
  rcases hrun with ⟨rfl, rfl, hrun⟩ | hrun
  · subst hrun
    rfl
  · cases previous <;> cases target <;> simp [RunStatus.transitions] at h hrun <;> rfl

/-- **Every transaction keeps the timeline and the rows in agreement.** -/
theorem Agrees.step (h : Agrees g rows (Replay.empty.events rows.log)) (hok : RunOk g rows)
    (he : Effect g rows t rows' queue) : Agrees g rows' (Replay.empty.events rows'.log) := by
  cases he with
  | tick now hfan hstatus =>
      rw [log_ticked, Replay.events_append]
      refine ⟨?_, fun k hk => h.ticked_node hok now hk⟩
      rw [h.ticked_run_eq, ticked_run]
      refine if_neg fun hc => ?_
      rw [hok.pending_conclusion hc.1, if_pos hc.2, hc.1] at hstatus
      rcases hstatus with hs | hs <;> exact nomatch hs
  | conclude now target hfan hstatus hne hlegal =>
      rw [log_concluded, log_ticked, Replay.events_append, Replay.events_append, ticked_run,
        events_runBodies hlegal]
      · refine ⟨(concluded_status target).symm, fun k hk => ?_⟩
        rw [concluded_executions]
        exact h.ticked_node hok now hk
      · by_cases hpend : rows.run.status = .pending
        · rw [hok.pending_conclusion hpend] at hstatus
          by_cases hready : readyKeys (snapshot g rows) = []
          · rw [if_neg (not_not.mpr hready)] at hstatus
            exact nomatch hstatus
          · rw [if_pos hready, Option.some.injEq] at hstatus
            refine Or.inl ⟨hpend, hstatus.symm, ?_⟩
            rw [h.ticked_run_eq, if_pos ⟨hpend, hready⟩]
        · exact Or.inr fun hc => hpend hc.1
  | settle t now k result rejected ht hmem hrunning hstorable =>
      rw [log_append, Replay.events_append]
      have hsettle : ∀ r : Replay, r.events [((settledBody k result).1, (settledBody k result).2)]
          = r.settle k (settledExecution now (rows.executions k) result).status := by
        intro r
        cases result <;> rfl
      have hbegun : begun (settledExecution now (rows.executions k) result).status := by
        cases result <;> simp [settledExecution, begun]
      rw [show (rows.write k _).log = rows.log from rfl, hsettle]
      refine ⟨h.run, fun j hj => ?_⟩
      rw [RunRows.append_executions]
      by_cases hjk : j = k
      · subst hjk
        rw [RunRows.write_self, Replay.settle_self]
        refine (h.node j hj).moved (Or.inl hrunning) hbegun ?_
        cases result <;> rfl
      · rw [RunRows.write_ne _ _ hjk, Replay.settle_ne _ _ hjk]
        exact h.node j hj
  | resume now token k hfind hwaiting hsuspended =>
      rw [log_resumed, Replay.events_append]
      have hk := (waitingNode_mem hfind).1
      have hstatus : (Replay.empty.events rows.log).node k = .waiting :=
        (h.node k hk).status.trans hwaiting
      have hresume : (Replay.empty.events rows.log).events
            [(.runResumed, none), (.nodeStarted, some (.node k))] =
          { (Replay.empty.events rows.log).settle k .running with run := .running } := by
        show Replay.begin { Replay.empty.events rows.log with run := .running } k = _
        simp [Replay.begin, Replay.settle, hstatus]
      rw [hresume]
      refine ⟨resumed_status.symm, fun j hj => ?_⟩
      show NodeAgrees _ (((Replay.empty.events rows.log).settle k .running).node j) _
      by_cases hjk : j = k
      · subst hjk
        rw [resumed_self, Replay.settle_self]
        exact (h.node j hj).moved (Or.inr (Or.inl hwaiting)) (Or.inl rfl) rfl
      · rw [resumed_ne hjk, Replay.settle_ne _ _ hjk]
        exact h.node j hj

/--
**The timeline is a faithful history.**  After any history of a run, folding the
timeline gives the stored status of the run and of every node, and a node's attempt
is the number of its starts that did not resume it, or one before the first.
-/
theorem events_replay {payload : Option (Dict String Value)} {tr : List (RunTxn Value)}
    (h : Trace.run (serial g) (materialize payload) tr = some rows) :
    (replay rows.events).run = rows.run.status ∧
      ∀ k ∈ g.nodeKeys, (replay rows.events).node k = (rows.executions k).status ∧
        (rows.executions k).attempt = max 1 ((replay rows.events).starts k) := by
  have hagrees : Agrees g rows (Replay.empty.events rows.log) := by
    refine Trace.run_induction
      (P := fun _ r => Agrees g r (Replay.empty.events r.log)) (materialize_agrees g payload) ?_ h
    intro tr r t r' hrun hr hstep
    obtain ⟨queue, he⟩ := serial_effect hstep
    exact hr.step (history_ok hrun) he
  rw [replay_eq (history_ok h).numbered]
  exact ⟨hagrees.run, fun k hk => ⟨(hagrees.node k hk).status, (hagrees.node k hk).attempt_eq⟩⟩

theorem events_replay_rejoin : ∃ rows,
    Trace.run (serial rejoinGraph) (materialize none) (rejoinHistory (.failed "boom" false))
        = some rows ∧
      (replay rows.events).run = rows.run.status ∧
        ∀ k ∈ rejoinGraph.nodeKeys, (replay rows.events).node k = (rows.executions k).status ∧
          (rows.executions k).attempt = max 1 ((replay rows.events).starts k) := by
  obtain ⟨rows, h⟩ : ∃ rows, Trace.run (serial rejoinGraph) (materialize none)
      (rejoinHistory (.failed "boom" false)) = some rows := ⟨_, rfl⟩
  exact ⟨rows, h, events_replay h⟩

end Orqent
