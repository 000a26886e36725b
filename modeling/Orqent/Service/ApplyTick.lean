/-
What applying a tick does to the rows.

The service applies decisions one at a time, each behind a guard.  This file says
once what the whole list comes to: `ticked` gives every execution after the tick
and the events written for the nodes, `concluded` adds the run's own move.
`tickBody_cases` is the inversion the rest of the development uses: a scheduling
transaction that returns has left exactly these rows.

The order of the decisions carries the argument.  Recoveries come first and touch
only `RUNNING` rows, prunings touch only rows that were `PENDING` before, and a
start finds its row `PENDING` either way; each list has no key twice, so a guard
never sees a row an earlier decision of its own kind has moved.
-/
import Orqent.Service.Rows
import Orqent.Engine.SchedulerFacts

namespace Orqent

variable {Value : Type}

/-! ### Several events and several rows at once -/

/-- What an event says, before it is numbered. -/
abbrev EventBody := RunEventType × Option EventPayload

/-- Append events one after another. -/
def RunRows.appendAll (rows : RunRows Value) (bodies : List EventBody) : RunRows Value :=
  bodies.foldl (fun r b => r.append b.1 b.2) rows

/-- Rewrite the executions of some keys. -/
def RunRows.writeAll (rows : RunRows Value) (keys : List NodeKey)
    (f : NodeExecution Value → NodeExecution Value) : RunRows Value :=
  { rows with
    executions := fun k => if k ∈ keys then f (rows.executions k) else rows.executions k }

namespace RunRows

variable (rows : RunRows Value)

@[simp] theorem append_run (t : RunEventType) (p : Option EventPayload) :
    (rows.append t p).run = rows.run := rfl

@[simp] theorem append_executions (t : RunEventType) (p : Option EventPayload) :
    (rows.append t p).executions = rows.executions := rfl

@[simp] theorem write_run (k : NodeKey) (x : NodeExecution Value) :
    (rows.write k x).run = rows.run := rfl

@[simp] theorem write_events (k : NodeKey) (x : NodeExecution Value) :
    (rows.write k x).events = rows.events := rfl

theorem write_self (k : NodeKey) (x : NodeExecution Value) : (rows.write k x).executions k = x :=
  Function.update_self ..

theorem write_ne {k j : NodeKey} (x : NodeExecution Value) (h : j ≠ k) :
    (rows.write k x).executions j = rows.executions j :=
  Function.update_of_ne h ..

@[simp] theorem appendAll_nil : rows.appendAll [] = rows := rfl

theorem appendAll_append (bs cs : List EventBody) :
    rows.appendAll (bs ++ cs) = (rows.appendAll bs).appendAll cs :=
  List.foldl_append ..

@[simp] theorem appendAll_run (bodies : List EventBody) :
    (rows.appendAll bodies).run = rows.run := by
  induction bodies generalizing rows with
  | nil => rfl
  | cons b rest ih => exact ih (rows.append b.1 b.2)

@[simp] theorem appendAll_executions (bodies : List EventBody) :
    (rows.appendAll bodies).executions = rows.executions := by
  induction bodies generalizing rows with
  | nil => rfl
  | cons b rest ih => exact ih (rows.append b.1 b.2)

theorem appendAll_writeAll (bodies : List EventBody) (keys : List NodeKey)
    (f : NodeExecution Value → NodeExecution Value) :
    (rows.appendAll bodies).writeAll keys f = (rows.writeAll keys f).appendAll bodies := by
  induction bodies generalizing rows with
  | nil => rfl
  | cons b rest ih => exact ih (rows.append b.1 b.2)

theorem writeAll_executions (keys : List NodeKey) (f : NodeExecution Value → NodeExecution Value)
    (k : NodeKey) : (rows.writeAll keys f).executions k =
      if k ∈ keys then f (rows.executions k) else rows.executions k := rfl

theorem writeAll_cons {k : NodeKey} {rest : List NodeKey} (hk : k ∉ rest)
    (f : NodeExecution Value → NodeExecution Value) :
    (rows.write k (f (rows.executions k))).writeAll rest f = rows.writeAll (k :: rest) f := by
  unfold writeAll
  congr 1
  funext j
  by_cases hj : j = k
  · subst hj
    rw [if_neg hk, if_pos List.mem_cons_self, write_self]
  · rw [write_ne rows _ hj]
    by_cases hr : j ∈ rest
    · rw [if_pos hr, if_pos (List.mem_cons_of_mem k hr)]
    · rw [if_neg hr, if_neg (by simp [hj, hr])]

end RunRows

/-! ### The numbering of the timeline -/

/-- The sequence numbers of the timeline are exactly `1..n`. -/
def Numbered (events : List RunEvent) : Prop :=
  events.map RunEvent.seq = List.range' 1 events.length

theorem foldl_max_range' (n m : Nat) : (List.range' 1 n).foldl max m = max m n := by
  induction n with
  | zero => simp
  | succ n ih =>
      rw [List.range'_1_concat, List.foldl_append, ih]
      simp only [List.foldl_cons, List.foldl_nil]
      omega

/-- The next number after `1..n` is `n + 1`. -/
theorem Numbered.nextSeq_eq {events : List RunEvent} (h : Numbered events) :
    nextSeq events = events.length + 1 := by
  unfold nextSeq
  rw [h, foldl_max_range']
  omega

theorem Numbered.append {rows : RunRows Value} (h : Numbered rows.events) (t : RunEventType)
    (p : Option EventPayload) : Numbered (rows.append t p).events := by
  show List.map RunEvent.seq (rows.events ++ _) = _
  rw [List.map_append, h]
  simp only [RunRows.append, List.length_append, List.map_cons, List.map_nil, List.length_cons,
    List.length_nil, h.nextSeq_eq]
  rw [show rows.events.length + (0 + 1) = rows.events.length + 1 from rfl, List.range'_1_concat]
  simp [Nat.add_comm]

theorem Numbered.appendAll {rows : RunRows Value} (h : Numbered rows.events)
    (bodies : List EventBody) : Numbered (rows.appendAll bodies).events := by
  induction bodies generalizing rows with
  | nil => exact h
  | cons b rest ih => exact ih (h.append b.1 b.2)

/-- What was appended, without the numbers. -/
theorem appendAll_bodies (rows : RunRows Value) (bodies : List EventBody) :
    ∃ added : List RunEvent, (rows.appendAll bodies).events = rows.events ++ added ∧
      added.map (fun e => (e.eventType, e.payload)) = bodies := by
  induction bodies generalizing rows with
  | nil => exact ⟨[], by simp, rfl⟩
  | cons b rest ih =>
      obtain ⟨added, hevents, hbodies⟩ := ih (rows.append b.1 b.2)
      refine ⟨⟨nextSeq rows.events, b.1, b.2⟩ :: added, ?_, by simp [hbodies]⟩
      show ((rows.append b.1 b.2).appendAll rest).events = _
      rw [hevents]
      simp [RunRows.append]

theorem appendAll_length (rows : RunRows Value) (bodies : List EventBody) :
    (rows.appendAll bodies).events.length = rows.events.length + bodies.length := by
  obtain ⟨added, hevents, hbodies⟩ := appendAll_bodies rows bodies
  rw [hevents, List.length_append, ← hbodies, List.length_map]

/-! ### One kind of decision for several nodes -/

/--
Applying the same kind of decision to a list of distinct keys.  `hstep` is the
decision on one key whose execution meets the guard; no key occurs twice, so each
execution still meets it when its turn comes.
-/
theorem foldlM_decisions {now : Time} {d : NodeKey → SchedulerDecision}
    {f : NodeExecution Value → NodeExecution Value} {body : NodeKey → List EventBody}
    (guard : NodeExecution Value → Prop)
    (hstep : ∀ (work : RunRows Value × List QueueOp) key, guard (work.1.executions key) →
      applyDecision now work (d key)
        = .ok ((work.1.write key (f (work.1.executions key))).appendAll (body key), work.2)) :
    ∀ (keys : List NodeKey) (work : RunRows Value × List QueueOp), keys.Nodup →
      (∀ k ∈ keys, guard (work.1.executions k)) →
      (keys.map d).foldlM (applyDecision now) work
        = .ok ((work.1.writeAll keys f).appendAll (keys.flatMap body), work.2) := by
  intro keys
  induction keys with
  | nil =>
      intro work _ _
      simp [RunRows.writeAll, pure, Except.pure]
  | cons k rest ih =>
      intro work hnodup hguard
      rw [List.nodup_cons] at hnodup
      rw [List.map_cons, List.foldlM_cons, hstep work k (hguard k List.mem_cons_self)]
      show (rest.map d).foldlM (applyDecision now) _ = _
      rw [ih _ hnodup.2]
      · simp only [RunRows.appendAll_writeAll, RunRows.writeAll_cons _ hnodup.1,
          List.flatMap_cons, RunRows.appendAll_append]
      · intro j hj
        have hne : j ≠ k := fun hc => hnodup.1 (hc ▸ hj)
        show guard (((work.1.write k _).appendAll _).executions j)
        rw [RunRows.appendAll_executions, RunRows.write_ne _ _ hne]
        exact hguard j (List.mem_cons_of_mem k hj)

theorem recover_step (now : Time) (work : RunRows Value × List QueueOp) (key : NodeKey)
    (h : (work.1.executions key).status = .running) :
    applyDecision now work (.recoverNode key)
      = .ok ((work.1.write key (work.1.executions key).recovered).appendAll [], work.2) := by
  rw [applyDecision, h, ensureNodeExecutionTransition, ensure_of_mem (by decide)]
  rfl

theorem skip_step (now : Time) (work : RunRows Value × List QueueOp) (key : NodeKey)
    (h : (work.1.executions key).status = .pending) :
    applyDecision now work (.skipNode key)
      = .ok ((work.1.write key ((work.1.executions key).skipped now)).appendAll
          [(.nodeSkipped, some (.node key))], work.2) := by
  rw [applyDecision, h, ensureNodeExecutionTransition, ensure_of_mem (by decide)]
  rfl

theorem start_step (now : Time) (work : RunRows Value × List QueueOp) (key : NodeKey)
    (h : (work.1.executions key).status = .pending) :
    applyDecision now work (.startNode key)
      = .ok ((work.1.write key ((work.1.executions key).started now)).appendAll
          [(.nodeStarted, some (.node key))], work.2) := by
  rw [applyDecision, h, ensureNodeExecutionTransition, ensure_of_mem (by decide)]
  rfl

/-! ### The snapshot of some rows -/

section Snapshot

variable {g : WorkflowGraph Value} {rows : RunRows Value} {key : NodeKey}

theorem snapshot_complete : (snapshot g rows).Complete := by
  intro k hk
  have hsome : (snapshot g rows).nodeExecutions k = some _ := if_pos hk
  rw [hsome]
  rfl

@[simp] theorem snapshot_status : (snapshot g rows).status = rows.run.status := rfl

@[simp] theorem snapshot_graph : (snapshot g rows).graph = g := rfl

theorem snapshot_execution (hk : key ∈ g.nodeKeys) : (snapshot g rows).nodeExecutions key =
    some ⟨key, (rows.executions key).status, (rows.executions key).attempt,
      (rows.executions key).output⟩ :=
  if_pos hk

theorem snapshot_statusOf (hk : key ∈ g.nodeKeys) :
    Scheduler.statusOf (snapshot g rows) key = (rows.executions key).status := by
  unfold Scheduler.statusOf
  rw [snapshot_execution hk]
  rfl

theorem mem_stranded : key ∈ Scheduler.strandedKeys (snapshot g rows) ↔
    key ∈ g.nodeKeys ∧ (rows.executions key).status = .running := by
  rw [Scheduler.mem_strandedKeys, snapshot_graph]
  exact and_congr_right fun hk => by rw [snapshot_statusOf hk]

theorem mem_prunable : key ∈ Scheduler.prunableKeys (snapshot g rows) ↔
    key ∈ g.nodeKeys ∧ (rows.executions key).status = .pending ∧
      Scheduler.upstreamDead (snapshot g rows) key = true := by
  rw [Scheduler.mem_prunableKeys, snapshot_graph]
  exact and_congr_right fun hk => by rw [snapshot_statusOf hk]

theorem mem_ready : key ∈ Scheduler.readyKeys (snapshot g rows) ↔ key ∈ g.nodeKeys ∧
    ((rows.executions key).status = .running ∨ (rows.executions key).status = .pending) ∧
      Scheduler.upstreamSatisfied (snapshot g rows) key = true := by
  rw [Scheduler.mem_readyKeys, snapshot_graph]
  exact and_congr_right fun hk => by rw [snapshot_statusOf hk]

theorem someNode_snapshot {st : NodeExecutionStatus} :
    Scheduler.someNode (snapshot g rows) st = true ↔
      ∃ k ∈ g.nodeKeys, (rows.executions k).status = st := by
  rw [Scheduler.someNode_iff, snapshot_graph]
  constructor
  · intro h
    obtain ⟨k, hk, hst⟩ := h
    exact ⟨k, hk, by rw [← hst, snapshot_statusOf hk]⟩
  · intro h
    obtain ⟨k, hk, hst⟩ := h
    exact ⟨k, hk, by rw [← hst, snapshot_statusOf hk]⟩

end Snapshot

/-! ### The whole tick -/

open Scheduler in
/-- The events a tick writes for the nodes. -/
def nodeBodies (s : RunSnapshot Value) : List EventBody :=
  (prunableKeys s).map (fun k => (.nodeSkipped, some (.node k))) ++
    (readyKeys s).map (fun k => (.nodeStarted, some (.node k)))

open Scheduler in
/-- One execution after the tick. -/
def tickedExecution (s : RunSnapshot Value) (now : Time) (key : NodeKey)
    (x : NodeExecution Value) : NodeExecution Value :=
  if key ∈ readyKeys s then (if key ∈ strandedKeys s then x.recovered else x).started now
  else if key ∈ prunableKeys s then x.skipped now
  else if key ∈ strandedKeys s then x.recovered
  else x

/-- The rows after the node decisions of a tick. -/
def ticked (g : WorkflowGraph Value) (now : Time) (rows : RunRows Value) : RunRows Value :=
  RunRows.appendAll
    { rows with
      executions := fun k => tickedExecution (snapshot g rows) now k (rows.executions k) }
    (nodeBodies (snapshot g rows))

/-- The event a run transition writes. -/
def runBodies (previous target : RunStatus) : List EventBody :=
  match runEvent previous target with
  | some (some t) => [(t, none)]
  | _ => []

/-- The rows after the run's own move. -/
def RunRows.concluded (now : Time) (target : RunStatus) (rows : RunRows Value) : RunRows Value :=
  RunRows.appendAll { rows with run := rows.run.moved now target }
    (runBodies rows.run.status target)

/-- What a conclusion does to the queue. -/
def conclusionOps (target : RunStatus) : List QueueOp :=
  if target.isResting then [.finishOutstanding] else []

/-- Every legal run transition has an entry in the event table. -/
theorem runEvent_of_legal {previous target : RunStatus} (h : target ∈ previous.transitions) :
    runEvent previous target = some ((runBodies previous target).head?.map Prod.fst) := by
  cases previous <;> cases target <;> simp [RunStatus.transitions] at h <;> rfl

/-- Rows in which every node is where the snapshot shows it. -/
def Shows (s : RunSnapshot Value) (rows : RunRows Value) : Prop :=
  ∀ k ∈ s.graph.nodeKeys, (rows.executions k).status = Scheduler.statusOf s k

theorem snapshot_shows (g : WorkflowGraph Value) (rows : RunRows Value) :
    Shows (snapshot g rows) rows :=
  fun _ hk => (snapshot_statusOf hk).symm

section Decided

open Scheduler

variable {s : RunSnapshot Value} {rows : RunRows Value}

/-- A ready row is `PENDING` once the recoveries were applied, recovered itself or not. -/
theorem Shows.pending_of_ready (h : Shows s rows) {key : NodeKey} (hkey : key ∈ readyKeys s) :
    ((rows.writeAll (strandedKeys s) NodeExecution.recovered).executions key).status
      = .pending := by
  obtain ⟨hmem, hst, -⟩ := mem_readyKeys.mp hkey
  rw [RunRows.writeAll_executions]
  by_cases hstranded : key ∈ strandedKeys s
  · rw [if_pos hstranded]
    rfl
  · rw [if_neg hstranded, h key hmem]
    rcases hst with hrun | hpend
    · exact absurd (mem_strandedKeys.mpr ⟨hmem, hrun⟩) hstranded
    · exact hpend

/-- The events of the three kinds of decisions. -/
theorem nodeBodies_eq (s : RunSnapshot Value) :
    ((strandedKeys s).flatMap fun _ => ([] : List EventBody)) ++
      ((prunableKeys s).flatMap fun k => [(.nodeSkipped, some (.node k))]) ++
      ((readyKeys s).flatMap fun k => [(.nodeStarted, some (.node k))]) = nodeBodies s := by
  have hnil : ((strandedKeys s).flatMap fun _ => ([] : List EventBody)) = [] :=
    List.flatMap_eq_nil_iff.mpr fun _ _ => rfl
  unfold nodeBodies
  rw [hnil, List.map_eq_flatMap, List.map_eq_flatMap, List.nil_append]

/-- The rows of the three kinds of decisions. -/
theorem writeAll_ticked (s : RunSnapshot Value) (now : Time) (rows : RunRows Value) :
    ((rows.writeAll (strandedKeys s) NodeExecution.recovered).writeAll (prunableKeys s)
        (NodeExecution.skipped now)).writeAll (readyKeys s) (NodeExecution.started now) =
      { rows with executions := fun k => tickedExecution s now k (rows.executions k) } := by
  unfold RunRows.writeAll
  congr 1
  funext k
  simp only [tickedExecution]
  by_cases hready : k ∈ readyKeys s
  · have hnot := not_prunable_of_ready hready
    simp [hready, hnot]
  · by_cases hprune : k ∈ prunableKeys s
    · have hnot := not_stranded_of_prunable hprune
      simp [hready, hprune, hnot]
    · simp [hready, hprune]

/-- **The node decisions of a tick always pass their guards**, and this is what they leave. -/
theorem Shows.apply_nodeDecisions (h : Shows s rows) (now : Time) :
    (nodeDecisions s).foldlM (applyDecision now) (rows, []) =
      .ok (RunRows.appendAll
        { rows with executions := fun k => tickedExecution s now k (rows.executions k) }
        (nodeBodies s), []) := by
  unfold nodeDecisions
  rw [List.foldlM_append, List.foldlM_append]
  -- Recoveries: every stranded row is `RUNNING`.
  rw [foldlM_decisions (fun x => x.status = .running) (recover_step now) _ _ strandedKeys_nodup
    fun k hk => by
      obtain ⟨hmem, hrun⟩ := mem_strandedKeys.mp hk
      rw [h k hmem, hrun]]
  show ((prunableKeys s).map _).foldlM (applyDecision now) _ >>= _ = _
  -- Prunings: a prunable row was `PENDING`, so no recovery touched it.
  rw [foldlM_decisions (fun x => x.status = .pending) (skip_step now) _ _ prunableKeys_nodup]
  · show ((readyKeys s).map _).foldlM (applyDecision now) _ = _
    -- Starts: a ready row is `PENDING` now, whether or not it was just recovered.
    rw [foldlM_decisions (fun x => x.status = .pending) (start_step now) _ _ readyKeys_nodup]
    · refine congrArg (fun r => Except.ok (r, [])) ?_
      simp only [RunRows.appendAll_writeAll, ← RunRows.appendAll_append]
      rw [nodeBodies_eq, writeAll_ticked]
    · intro k hk
      have hnot := not_prunable_of_ready hk
      rw [RunRows.appendAll_executions, RunRows.writeAll_executions, if_neg hnot,
        RunRows.appendAll_executions]
      exact h.pending_of_ready hk
  · intro k hk
    obtain ⟨hmem, hpend, -⟩ := mem_prunableKeys.mp hk
    have hnot := not_stranded_of_prunable hk
    rw [RunRows.appendAll_executions, RunRows.writeAll_executions, if_neg hnot, h k hmem, hpend]

end Decided

/-- The run's own move: allowed by the table, or the guard's refusal. -/
theorem apply_statusDecision (now : Time) (rows : RunRows Value) (target : RunStatus) :
    applyDecision now (rows, []) (.setRunStatus target) =
      (ensureRunTransition rows.run.status target).map fun _ =>
        (rows.concluded now target, conclusionOps target) := by
  rw [applyDecision]
  by_cases h : target ∈ rows.run.status.transitions
  · have hok : ensureRunTransition rows.run.status target = .ok () := ensure_of_mem h
    rw [hok]
    simp only [bind, Except.bind]
    have hev := runEvent_of_legal h
    unfold RunRows.concluded conclusionOps
    rw [hev]
    unfold runBodies
    cases hr : runEvent rows.run.status target with
    | none => rw [hev] at hr; simp at hr
    | some ev =>
        cases ev with
        | none => rfl
        | some t => rfl
  · cases hcheck : ensureRunTransition rows.run.status target with
    | ok u => exact absurd (ensure_ok_iff.mp hcheck) h
    | error e => rfl

theorem statusDecision_snapshot (g : WorkflowGraph Value) (rows : RunRows Value) :
    Scheduler.statusDecision (snapshot g rows) =
      match Scheduler.conclusion (snapshot g rows) with
      | none => []
      | some target => if target = rows.run.status then [] else [.setRunStatus target] :=
  rfl

/-- **A scheduling transaction, in closed form.** -/
theorem tickBody_eq (g : WorkflowGraph Value) (now : Time) (rows : RunRows Value)
    (hfan : g.SingleFanIn) :
    tickBody g now rows =
      match Scheduler.conclusion (snapshot g rows) with
      | none => .ok (ticked g now rows, [])
      | some target =>
          if target = rows.run.status then .ok (ticked g now rows, [])
          else (ensureRunTransition rows.run.status target).map fun _ =>
            ((ticked g now rows).concluded now target, conclusionOps target) := by
  unfold tickBody
  rw [Scheduler.tick_ok snapshot_complete hfan]
  show applyDecisions now rows (Scheduler.decisions (snapshot g rows)) = _
  unfold applyDecisions
  rw [Scheduler.decisions_eq, List.foldlM_append, (snapshot_shows g rows).apply_nodeDecisions]
  show (Scheduler.statusDecision (snapshot g rows)).foldlM (applyDecision now)
    (ticked g now rows, [])
    = _
  rw [statusDecision_snapshot]
  cases Scheduler.conclusion (snapshot g rows) with
  | none => rfl
  | some target =>
      by_cases h : target = rows.run.status
      · simp only [if_pos h]
        rfl
      · simp only [if_neg h]
        rw [List.foldlM_cons, apply_statusDecision]
        show (Except.map _ (ensureRunTransition (ticked g now rows).run.status target) >>= _) = _
        unfold ticked
        rw [RunRows.appendAll_run]
        cases ensureRunTransition rows.run.status target <;> rfl

/--
**What a scheduling transaction that returns has done.**  The graph has no fan-in,
and the rows are the ticked ones, with the run's own move where the conclusion is
a change.
-/
theorem tickBody_cases {g : WorkflowGraph Value} {now : Time} {rows rows' : RunRows Value}
    {queue : List QueueOp} (h : tickBody g now rows = .ok (rows', queue)) :
    g.SingleFanIn ∧
      ((Scheduler.conclusion (snapshot g rows) = none ∨
          Scheduler.conclusion (snapshot g rows) = some rows.run.status) ∧
        rows' = ticked g now rows ∧ queue = [] ∨
      ∃ target, Scheduler.conclusion (snapshot g rows) = some target ∧
        target ≠ rows.run.status ∧ target ∈ rows.run.status.transitions ∧
        rows' = (ticked g now rows).concluded now target ∧ queue = conclusionOps target) := by
  have hfan : g.SingleFanIn := by
    by_contra hnot
    cases htick : Scheduler.tick (snapshot g rows) with
    | ok ds => exact hnot ((Scheduler.tick_ok_iff snapshot_complete).mp htick).1
    | error e =>
        unfold tickBody at h
        rw [htick] at h
        exact nomatch h
  refine ⟨hfan, ?_⟩
  rw [tickBody_eq g now rows hfan] at h
  split at h
  · rename_i hnone
    rw [Except.ok.injEq, Prod.mk.injEq] at h
    exact Or.inl ⟨Or.inl hnone, h.1.symm, h.2.symm⟩
  · rename_i target hsome
    split at h
    · rename_i hsame
      rw [Except.ok.injEq, Prod.mk.injEq] at h
      exact Or.inl ⟨Or.inr (hsame ▸ hsome), h.1.symm, h.2.symm⟩
    · rename_i hne
      cases hcheck : ensureRunTransition rows.run.status target with
      | error e => rw [hcheck] at h; exact nomatch h
      | ok u =>
          rw [hcheck] at h
          simp only [Except.map, Except.ok.injEq, Prod.mk.injEq] at h
          exact Or.inr ⟨target, hsome, hne, ensure_ok_iff.mp hcheck, h.1.symm, h.2.symm⟩

end Orqent
