/-
Transactions of one run that overlap.

The rows are read in a snapshot and written back by primary key, with no lock and
no version column: an update sets the columns the transaction changed, on whatever
is committed by then (`RunRows.commit`).  The one thing that is refused is an event
whose number is taken, and it takes the whole transaction with it.

That is enough, because every transaction that changes a row writes an event
(`Effect.appends`).  `runStore` states this as a `LogStore`, and `run_serialises`
reads the result off: the commits that change anything form a serial history, each
having read exactly what the one before it left.
-/
import Orqent.Service.Invariant
import Orqent.Lib.LogStore

namespace Orqent

open Scheduler

variable {Value : Type} {g : WorkflowGraph Value} {rows rows' : RunRows Value}
  {now : Time} {key : NodeKey} {queue : List QueueOp} {t : RunTxn Value}

/-! ### Committing -/

/-- One column of an update: set only if the transaction changed it. -/
def column {α : Type} [DecidableEq α] (snap new cur : α) : α := if new = snap then cur else new

section Commit

variable [DecidableEq Value]

/-- An update of a run writes the columns that were changed. -/
def RunRow.update (snap new cur : RunRow Value) : RunRow Value where
  status := column snap.status new.status cur.status
  triggerPayload := column snap.triggerPayload new.triggerPayload cur.triggerPayload
  startedAt := column snap.startedAt new.startedAt cur.startedAt
  finishedAt := column snap.finishedAt new.finishedAt cur.finishedAt

/-- An update of a node execution writes the columns that were changed. -/
def NodeExecution.update (snap new cur : NodeExecution Value) : NodeExecution Value where
  status := column snap.status new.status cur.status
  attempt := column snap.attempt new.attempt cur.attempt
  output := column snap.output new.output cur.output
  error := column snap.error new.error cur.error
  resumeToken := column snap.resumeToken new.resumeToken cur.resumeToken
  startedAt := column snap.startedAt new.startedAt cur.startedAt
  finishedAt := column snap.finishedAt new.finishedAt cur.finishedAt

/--
Commit the rows `new`, computed from the snapshot `snap`, onto the committed rows
`cur`.  An inserted event whose number is taken makes the commit fail.
-/
def RunRows.commit (snap new cur : RunRows Value) : Option (RunRows Value) :=
  let inserted := new.events.drop snap.events.length
  if inserted.any fun e => cur.events.any fun f => f.seq = e.seq then none
  else
    some
      { run := RunRow.update snap.run new.run cur.run
        executions := fun k =>
          NodeExecution.update (snap.executions k) (new.executions k) (cur.executions k)
        events := cur.events ++ inserted }

theorem column_same {α : Type} [DecidableEq α] (snap cur : α) : column snap snap cur = cur :=
  if_pos rfl

theorem column_fresh {α : Type} [DecidableEq α] (snap new : α) : column snap new snap = new := by
  by_cases h : new = snap <;> simp [column, h]

/-- An update that changed nothing leaves the rows as they are by now. -/
theorem commit_unchanged (snap cur : RunRows Value) : RunRows.commit snap snap cur = some cur := by
  simp [RunRows.commit, RunRow.update, NodeExecution.update, column_same]

/-- Where nothing was committed since the snapshot, the new rows are what is left. -/
theorem commit_onto_snapshot {snap new : RunRows Value} (hnew : Numbered new.events)
    (hextends : ∃ added, new.events = snap.events ++ added) :
    RunRows.commit snap new snap = some new := by
  obtain ⟨added, hadded⟩ := hextends
  have hnodup : (new.events.map RunEvent.seq).Nodup := by
    rw [hnew]
    exact List.nodup_range'
  have hfree : ¬ ((added.any fun e => snap.events.any fun f => f.seq = e.seq) = true) := by
    rw [hadded, List.map_append, List.nodup_append] at hnodup
    intro hc
    simp only [List.any_eq_true, decide_eq_true_eq] at hc
    obtain ⟨e, he, f, hf, hseq⟩ := hc
    exact hnodup.2.2 f.seq (List.mem_map_of_mem hf) e.seq (List.mem_map_of_mem he) hseq
  have hdrop : new.events.drop snap.events.length = added := by
    rw [hadded, List.drop_left]
  obtain ⟨run, executions, events⟩ := new
  simp only [RunRows.commit, hdrop, if_neg hfree, RunRow.update, NodeExecution.update, column_fresh]
  exact congrArg (fun es => some (RunRows.mk run executions es)) hadded.symm

/-- The number after the snapshot's last is taken once anything else was committed. -/
theorem commit_conflict {snap new cur : RunRows Value} (hnew : Numbered new.events)
    (hcur : Numbered cur.events) (hextends : ∃ added, new.events = snap.events ++ added)
    (hgrew : snap.events.length < new.events.length)
    (hlater : snap.events.length < cur.events.length) : RunRows.commit snap new cur = none := by
  obtain ⟨added, hadded⟩ := hextends
  have hdrop : new.events.drop snap.events.length = added := by rw [hadded, List.drop_left]
  obtain ⟨first, rest, rfl⟩ : ∃ first rest, added = first :: rest := by
    refine List.exists_cons_of_ne_nil fun hc => ?_
    rw [hadded, hc, List.append_nil] at hgrew
    exact Nat.lt_irrefl _ hgrew
  have hseq : first.seq = 1 + snap.events.length := by
    have hget : (new.events.map RunEvent.seq)[snap.events.length]? = some first.seq := by
      rw [hadded, List.map_append, List.getElem?_append_right (by simp)]
      simp
    rw [hnew, List.getElem?_range' (by simpa using hgrew)] at hget
    simpa using hget.symm
  have htaken : 1 + snap.events.length ∈ cur.events.map RunEvent.seq := by
    rw [hcur, List.mem_range'_1]
    omega
  obtain ⟨f, hf, hfseq⟩ := List.mem_map.mp htaken
  refine if_pos ?_
  rw [hdrop, List.any_cons, Bool.or_eq_true]
  exact Or.inl (List.any_eq_true.mpr ⟨f, hf, by simp [hfseq, hseq]⟩)

end Commit

/-! ### Every change writes an event -/

/-- A tick without events for the nodes decides nothing about them. -/
theorem RunOk.no_node_decisions (h : RunOk g rows) (hnone : nodeBodies (snapshot g rows) = []) :
    strandedKeys (snapshot g rows) = [] ∧ prunableKeys (snapshot g rows) = [] ∧
      readyKeys (snapshot g rows) = [] := by
  unfold nodeBodies at hnone
  rw [List.append_eq_nil_iff, List.map_eq_nil_iff, List.map_eq_nil_iff] at hnone
  refine ⟨List.eq_nil_iff_forall_not_mem.mpr fun k hk => ?_, hnone⟩
  have := h.stranded_ready hk
  simp [hnone.2] at this

/-- The events a transaction leaves begin with the ones it found. -/
theorem Effect.extends (he : Effect g rows t rows' queue) :
    ∃ added, rows'.events = rows.events ++ added := by
  have hextends : ∀ (r : RunRows Value) bodies, ∃ added,
      (r.appendAll bodies).events = r.events ++ added := by
    intro r bodies
    obtain ⟨added, hadded, -⟩ := appendAll_bodies r bodies
    exact ⟨added, hadded⟩
  cases he with
  | tick now hfan hstatus => exact hextends _ _
  | conclude now target hfan hstatus hne hlegal =>
      obtain ⟨first, hfirst⟩ : ∃ added, (ticked g now rows).events = rows.events ++ added :=
        hextends _ _
      obtain ⟨second, hsecond⟩ : ∃ added,
          ((ticked g now rows).concluded now target).events = (ticked g now rows).events ++ added :=
        hextends _ _
      exact ⟨first ++ second, by rw [hsecond, hfirst, List.append_assoc]⟩
  | settle t now k result rejected ht hk hrunning hstorable => exact ⟨[_], rfl⟩
  | resume now token k hfind hwaiting hsuspended => exact hextends _ _

theorem ticked_length : (ticked g now rows).events.length =
    rows.events.length + (nodeBodies (snapshot g rows)).length := by
  unfold ticked
  rw [appendAll_length]

/-- A transaction is a tick with nothing to decide, or it appends to the timeline. -/
theorem Effect.quiet_or_grows (h : RunOk g rows) (he : Effect g rows t rows' queue) :
    (∃ now, t = .tick now) ∧ decisions (snapshot g rows) = [] ∧ rows' = rows ∨
      rows.events.length < rows'.events.length := by
  cases he with
  | tick now hfan hstatus =>
      by_cases hnone : nodeBodies (snapshot g rows) = []
      · obtain ⟨hstranded, hprunable, hready⟩ := h.no_node_decisions hnone
        have hdecisions : decisions (snapshot g rows) = [] :=
          decisions_eq_nil_iff.mpr ⟨hstranded, hprunable, hready, hstatus⟩
        exact Or.inl ⟨⟨now, rfl⟩, hdecisions, ticked_of_no_decisions hdecisions⟩
      · refine Or.inr ?_
        rw [ticked_length]
        exact Nat.lt_add_of_pos_right (List.length_pos_iff.mpr hnone)
  | conclude now target hfan hstatus hne hlegal =>
      refine Or.inr ?_
      have hpos : 0 < (nodeBodies (snapshot g rows)).length +
          (runBodies rows.run.status target).length := by
        by_cases hpend : rows.run.status = .pending
        · by_cases hready : readyKeys (snapshot g rows) = []
          · rw [h.pending_conclusion hpend, if_neg (not_not.mpr hready)] at hstatus
            exact nomatch hstatus
          · have hnodes : 0 < (nodeBodies (snapshot g rows)).length := by
              unfold nodeBodies
              rw [List.length_append, List.length_map, List.length_map]
              have := List.length_pos_iff.mpr hready
              omega
            omega
        · have hrun : 0 < (runBodies rows.run.status target).length := by
            cases hst : rows.run.status <;> cases target <;>
              simp_all [RunStatus.transitions, runBodies, runEvent]
          omega
      unfold RunRows.concluded
      rw [appendAll_length]
      show _ < (ticked g now rows).events.length + _
      rw [ticked_length, ticked_run]
      omega
  | settle t now k result rejected ht hk hrunning hstorable =>
      refine Or.inr ?_
      simp [RunRows.append]
  | resume now token k hfind hwaiting hsuspended =>
      refine Or.inr ?_
      unfold resumed
      rw [appendAll_length]
      simp

/-- **A transaction that changes a row appends to the timeline.** -/
theorem Effect.appends (h : RunOk g rows) (he : Effect g rows t rows' queue) :
    rows' = rows ∨ rows.events.length < rows'.events.length :=
  (he.quiet_or_grows h).imp_left fun hquiet => hquiet.2.2

/-! ### The run as a store with a log -/

/-- The rows of a run, their transactions and their commits, as a store with a log. -/
def runStore [DecidableEq Value] (g : WorkflowGraph Value) :
    LogStore (RunRows Value) (RunTxn Value) where
  len rows := rows.events.length
  body t rows := serial g rows t
  commit := RunRows.commit
  Valid := RunOk g
  valid_body := by
    intro t rows rows' hok hbody
    obtain ⟨queue, he⟩ := serial_effect hbody
    exact Effect.ok hok he
  appends := by
    intro t rows rows' hok hbody
    obtain ⟨queue, he⟩ := serial_effect hbody
    exact he.appends hok
  conflict := by
    intro t rows rows' cur hok hcur hbody hgrew hlater
    obtain ⟨queue, he⟩ := serial_effect hbody
    exact commit_conflict (he.numbered hok.numbered) hcur.numbered he.extends hgrew hlater
  commit_fresh := by
    intro t rows rows' hok hbody
    obtain ⟨queue, he⟩ := serial_effect hbody
    exact commit_onto_snapshot (he.numbered hok.numbered) he.extends
  commit_same := by
    intro rows cur _ _
    exact commit_unchanged rows cur

/--
**The event sequence serialises every change to a run.**  After any interleaving of
any number of transactions:
the committed rows are those of a history of transactions run one at a time;
a further commit leaves them alone, or was computed from exactly these rows and adds
to their timeline;
a transaction that changes its snapshot appends an event;
and the numbers of the timeline are `1..n`.
-/
theorem run_serialises [DecidableEq Value] {payload : Option (Dict String Value)}
    {events : List (LogStore.Event (RunTxn Value))}
    {p : LogStore.Pool (RunRows Value) (RunTxn Value)}
    (h : Trace.run (runStore g).poolStep (LogStore.Pool.start (materialize payload))
      events = some p) :
    (∃ tr, Trace.run (serial g) (materialize payload) tr = some p.committed) ∧
      (∀ i p', (runStore g).poolStep p (.commit i) = some p' → p'.committed = p.committed ∨
        ∃ t, p.opened i = some (t, p.committed) ∧ serial g p.committed t = some p'.committed ∧
          p.committed.events.length < p'.committed.events.length) ∧
      (∀ i t snap new, p.opened i = some (t, snap) → serial g snap t = some new →
        new = snap ∨ snap.events.length < new.events.length) ∧
      p.committed.events.map RunEvent.seq = List.range' 1 p.committed.events.length := by
  have hok := LogStore.poolOk (S := runStore g) (materialize_ok g payload) h
  refine ⟨?_, fun i p' hstep => LogStore.poolStep_commit hok hstep, ?_, hok.valid.numbered⟩
  · obtain ⟨tr, htr⟩ := hok.history
    exact ⟨tr, htr⟩
  · intro i t snap new hopen hbody
    obtain ⟨hvalid, -⟩ := hok.snapshots i t snap hopen
    exact (runStore g).appends hvalid hbody

/-- Two advancers tick the same rows; the second to commit is refused. -/
def overlappingTicks : List (LogStore.Event (RunTxn Unit)) :=
  [.begin 0 (.tick 1), .begin 1 (.tick 2), .commit 0, .commit 1]

theorem run_serialises_rejoin : ∃ p : LogStore.Pool (RunRows Unit) (RunTxn Unit),
    Trace.run (runStore rejoinGraph).poolStep (LogStore.Pool.start (materialize none))
        overlappingTicks = some p ∧
      p.committed.events.map RunEvent.seq = List.range' 1 p.committed.events.length := by
  obtain ⟨p, h⟩ : ∃ p, Trace.run (runStore rejoinGraph).poolStep
      (LogStore.Pool.start (materialize none)) overlappingTicks = some p := ⟨_, rfl⟩
  exact ⟨p, h, (run_serialises h).2.2.2⟩

end Orqent
