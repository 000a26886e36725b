/-
What every history of a run keeps.

`RunOk` collects it: the timeline is numbered without gaps, a node that has begun
had its inputs settled, a skipped node had all of them dead, outputs belong to the
nodes that succeeded, and the run's status says what it says about its nodes.

`Effect.ok` is the step lemma, one case per kind of transaction; `history_ok` is
the run lemma.
-/
import Orqent.Service.History

namespace Orqent

open Scheduler

variable {Value : Type} {g : WorkflowGraph Value} {rows rows' : RunRows Value}
  {now : Time} {key : NodeKey} {queue : List QueueOp} {t : RunTxn Value}

/-! ### Rows after a transaction, key by key -/

@[simp] theorem ticked_run : (ticked g now rows).run = rows.run := by
  simp [ticked]

@[simp] theorem ticked_executions (k : NodeKey) : (ticked g now rows).executions k =
    tickedExecution (snapshot g rows) now k (rows.executions k) := by
  simp [ticked]

@[simp] theorem concluded_executions (target : RunStatus) :
    (rows.concluded now target).executions = rows.executions := by
  simp [RunRows.concluded]

@[simp] theorem concluded_status (target : RunStatus) :
    (rows.concluded now target).run.status = target := by
  simp [RunRows.concluded, RunRow.moved]

@[simp] theorem resumed_status : (resumed now key rows).run.status = .running := by
  simp [resumed]

theorem resumed_self : (resumed now key rows).executions key =
    { rows.executions key with
      status := .running, resumeToken := none, startedAt := some now } := by
  simp [resumed, RunRows.write_self]

theorem resumed_ne {k : NodeKey} (h : k ≠ key) :
    (resumed now key rows).executions k = rows.executions k := by
  simp [resumed, RunRows.write_ne _ _ h]

/-- The execution of a node the tick starts. -/
theorem ticked_ready (now : Time) (h : key ∈ readyKeys (snapshot g rows)) :
    (ticked g now rows).executions key =
      (if (rows.executions key).status = .running then (rows.executions key).recovered
        else rows.executions key).started now := by
  have hiff : key ∈ strandedKeys (snapshot g rows) ↔ (rows.executions key).status = .running := by
    rw [mem_stranded]
    exact and_iff_right (mem_ready.mp h).1
  rw [ticked_executions, tickedExecution, if_pos h]
  simp only [hiff]

/-- The execution of a node the tick prunes. -/
theorem ticked_prunable (now : Time) (h : key ∈ prunableKeys (snapshot g rows)) :
    (ticked g now rows).executions key = (rows.executions key).skipped now := by
  have hready : key ∉ readyKeys (snapshot g rows) := fun hc => not_prunable_of_ready hc h
  rw [ticked_executions, tickedExecution, if_neg hready, if_pos h]

/-- The execution of a node the tick decides nothing about. -/
theorem ticked_other (hready : key ∉ readyKeys (snapshot g rows))
    (hprunable : key ∉ prunableKeys (snapshot g rows))
    (hstranded : key ∉ strandedKeys (snapshot g rows)) :
    (ticked g now rows).executions key = rows.executions key := by
  rw [ticked_executions, tickedExecution, if_neg hready, if_neg hprunable, if_neg hstranded]

/-- A tick with no decisions writes nothing. -/
theorem ticked_of_no_decisions (h : decisions (snapshot g rows) = []) :
    ticked g now rows = rows := by
  obtain ⟨hstranded, hprunable, hready, -⟩ := decisions_eq_nil_iff.mp h
  unfold ticked
  rw [nodeBodies, hprunable, hready]
  simp [tickedExecution, hstranded, hprunable, hready]

/-- Concluding the run writes no execution. -/
theorem Effect.tick_executions (h : Effect g rows (.tick now) rows' queue) :
    rows'.executions = (ticked g now rows).executions := by
  cases h with
  | tick now hfan hstatus => rfl
  | conclude now target hfan hstatus hne hlegal => exact concluded_executions target
  | settle t now key result rejected ht hkey hrunning hstorable =>
      rcases ht with ht | ⟨ht, -⟩ <;> exact nomatch ht

/-! ### Final rows, decided edges -/

/-- A tick moves only rows that were pending or running. -/
theorem ticked_of_settled (hp : (rows.executions key).status ≠ .pending)
    (hr : (rows.executions key).status ≠ .running) :
    (ticked g now rows).executions key = rows.executions key := by
  refine ticked_other ?_ ?_ ?_
  · intro hc
    rcases (mem_ready.mp hc).2.1 with h | h
    · exact hr h
    · exact hp h
  · intro hc
    exact hp (mem_prunable.mp hc).2.1
  · intro hc
    exact hr (mem_stranded.mp hc).2

/-- **No transaction writes a final row.** -/
theorem Effect.final (h : Effect g rows t rows' queue)
    (hterm : (rows.executions key).status.isTerminal = true) :
    rows'.executions key = rows.executions key := by
  have hp : (rows.executions key).status ≠ .pending := by rintro hc; simp [hc] at hterm; cases hterm
  have hr : (rows.executions key).status ≠ .running := by rintro hc; simp [hc] at hterm; cases hterm
  cases h with
  | tick now hfan hstatus => exact ticked_of_settled hp hr
  | conclude now target hfan hstatus hne hlegal =>
      rw [concluded_executions]
      exact ticked_of_settled hp hr
  | settle t now k result rejected ht hk hrunning hstorable =>
      have hne : key ≠ k := by
        intro heq
        subst heq
        exact hr hrunning
      simp only [RunRows.append_executions]
      exact RunRows.write_ne _ _ hne
  | resume now token k hfind hwaiting hsuspended =>
      have hne : key ≠ k := by
        intro heq
        subst heq
        rw [hwaiting] at hterm
        cases hterm
      exact resumed_ne hne

/-- The rows `rows'` keep every final row of `rows`. -/
def KeepsFinal (rows rows' : RunRows Value) : Prop :=
  ∀ k, (rows.executions k).status.isTerminal = true → rows'.executions k = rows.executions k

theorem Effect.keepsFinal (h : Effect g rows t rows' queue) : KeepsFinal rows rows' :=
  fun _ hk => h.final hk

theorem isLive_congr {e : GraphEdge}
    (h : rows'.executions e.sourceKey = rows.executions e.sourceKey) :
    isLive (snapshot g rows') e = isLive (snapshot g rows) e := by
  simp only [isLive, snapshot, h]

theorem isDead_congr {e : GraphEdge}
    (h : rows'.executions e.sourceKey = rows.executions e.sourceKey) :
    isDead (snapshot g rows') e = isDead (snapshot g rows) e := by
  simp only [isDead, snapshot, h]

/-- A live edge leaves a node that succeeded. -/
theorem source_of_live {e : GraphEdge} (h : isLive (snapshot g rows) e = true) :
    e.sourceKey ∈ g.nodeKeys ∧ (rows.executions e.sourceKey).status = .succeeded ∧
      ∃ outputs, (rows.executions e.sourceKey).output = some outputs ∧
        outputs.contains e.sourceHandle = true := by
  obtain ⟨x, outputs, hx, hst, hout, hmem⟩ := isLive_iff.mp h
  by_cases hk : e.sourceKey ∈ g.nodeKeys
  · rw [snapshot_execution hk, Option.some.injEq] at hx
    subst hx
    exact ⟨hk, hst, outputs, hout, hmem⟩
  · unfold snapshot at hx
    simp [hk] at hx

/-- A dead edge leaves a node that was skipped, or succeeded without emitting on it. -/
theorem source_of_dead {e : GraphEdge} (h : isDead (snapshot g rows) e = true) :
    e.sourceKey ∈ g.nodeKeys ∧ ((rows.executions e.sourceKey).status = .skipped ∨
      (rows.executions e.sourceKey).status = .succeeded ∧
        ∃ outputs, (rows.executions e.sourceKey).output = some outputs ∧
          outputs.contains e.sourceHandle = false) := by
  obtain ⟨x, hx, hcase⟩ := isDead_iff.mp h
  by_cases hk : e.sourceKey ∈ g.nodeKeys
  · rw [snapshot_execution hk, Option.some.injEq] at hx
    subst hx
    exact ⟨hk, hcase⟩
  · unfold snapshot at hx
    simp [hk] at hx

/-- Only a final node decides an edge. -/
theorem final_of_resolved {e : GraphEdge} (h : resolved (snapshot g rows) e = true) :
    (rows.executions e.sourceKey).status.isTerminal = true := by
  unfold resolved at h
  rw [Bool.or_eq_true] at h
  rcases h with hlive | hdead
  · rw [(source_of_live hlive).2.1]
    rfl
  · rcases (source_of_dead hdead).2 with hskip | ⟨hsucc, -⟩
    · rw [hskip]
      rfl
    · rw [hsucc]
      rfl

theorem live_mono (hkeep : KeepsFinal rows rows') {e : GraphEdge}
    (h : isLive (snapshot g rows) e = true) : isLive (snapshot g rows') e = true := by
  have hres : resolved (snapshot g rows) e = true := by simp [resolved, h]
  rw [isLive_congr (hkeep _ (final_of_resolved hres))]
  exact h

theorem dead_mono (hkeep : KeepsFinal rows rows') {e : GraphEdge}
    (h : isDead (snapshot g rows) e = true) : isDead (snapshot g rows') e = true := by
  have hres : resolved (snapshot g rows) e = true := by simp [resolved, h]
  rw [isDead_congr (hkeep _ (final_of_resolved hres))]
  exact h

theorem resolved_mono (hkeep : KeepsFinal rows rows') {e : GraphEdge}
    (h : resolved (snapshot g rows) e = true) : resolved (snapshot g rows') e = true := by
  rw [resolved, Bool.or_eq_true] at h ⊢
  exact h.imp (live_mono hkeep) (dead_mono hkeep)

/-- **Inputs that have settled stay settled.** -/
theorem satisfied_mono (hkeep : KeepsFinal rows rows')
    (h : upstreamSatisfied (snapshot g rows) key = true) :
    upstreamSatisfied (snapshot g rows') key = true := by
  rw [upstreamSatisfied_iff] at h ⊢
  refine h.imp id ?_
  intro hc
  obtain ⟨hall, e, he, hlive⟩ := hc
  exact ⟨fun f hf => resolved_mono hkeep (hall f hf), e, he, live_mono hkeep hlive⟩

theorem upstreamDead_mono (hkeep : KeepsFinal rows rows')
    (h : upstreamDead (snapshot g rows) key = true) :
    upstreamDead (snapshot g rows') key = true := by
  rw [upstreamDead_iff] at h ⊢
  exact ⟨h.1, fun e he => dead_mono hkeep (h.2 e he)⟩

/-! ### One node -/

/-- What one transaction can do to one node. -/
inductive NodeMove (g : WorkflowGraph Value) (rows : RunRows Value) (key : NodeKey) :
    NodeExecution Value → Prop
  | same : NodeMove g rows key (rows.executions key)
  | start (now : Time) (hpending : (rows.executions key).status = .pending)
      (hsatisfied : upstreamSatisfied (snapshot g rows) key = true) :
      NodeMove g rows key ((rows.executions key).started now)
  | recover (now : Time) (hrunning : (rows.executions key).status = .running)
      (hsatisfied : upstreamSatisfied (snapshot g rows) key = true) :
      NodeMove g rows key ((rows.executions key).recovered.started now)
  | prune (now : Time) (hpending : (rows.executions key).status = .pending)
      (hdead : upstreamDead (snapshot g rows) key = true) :
      NodeMove g rows key ((rows.executions key).skipped now)
  | settle (now : Time) (result : NodeResult Value)
      (hrunning : (rows.executions key).status = .running) :
      NodeMove g rows key (settledExecution now (rows.executions key) result)
  | resume (now : Time) (hwaiting : (rows.executions key).status = .waiting) :
      NodeMove g rows key
        { rows.executions key with
          status := .running, resumeToken := none, startedAt := some now }

/-! ### The invariant -/

/-- The node has been handed to a runner. -/
def begun (st : NodeExecutionStatus) : Prop :=
  st = .running ∨ st = .waiting ∨ st = .succeeded ∨ st = .failed

/-- What every committed state of a run satisfies. -/
structure RunOk (g : WorkflowGraph Value) (rows : RunRows Value) : Prop where
  numbered : Numbered rows.events
  begun_satisfied : ∀ k ∈ g.nodeKeys, begun (rows.executions k).status →
    upstreamSatisfied (snapshot g rows) k = true
  skipped_dead : ∀ k ∈ g.nodeKeys, (rows.executions k).status = .skipped →
    upstreamDead (snapshot g rows) k = true
  output_iff : ∀ k ∈ g.nodeKeys,
    (rows.executions k).output.isSome = true ↔ (rows.executions k).status = .succeeded
  untouched : rows.run.status = .pending → ∀ k ∈ g.nodeKeys, (rows.executions k).status = .pending
  parked : rows.run.status = .suspended → ∃ k ∈ g.nodeKeys, (rows.executions k).status = .waiting
  resting : rows.run.status.isResting = true →
    ∀ k ∈ g.nodeKeys, (rows.executions k).status ≠ .running
  finished : rows.run.status.isTerminal = true →
    ∀ k ∈ g.nodeKeys, (rows.executions k).status ≠ .waiting

theorem materialize_ok (g : WorkflowGraph Value) (payload : Option (Dict String Value)) :
    RunOk g (materialize payload) where
  numbered := by
    show [nextSeq []] = _
    rfl
  begun_satisfied := by
    intro k _ h
    rcases h with h | h | h | h <;> exact nomatch h
  skipped_dead := by
    intro k _ h
    exact nomatch h
  output_iff := by
    intro k _
    simp [materialize]
  untouched := fun _ _ _ => rfl
  parked := fun h => nomatch h
  resting := fun h => nomatch h
  finished := fun h => nomatch h

/-- Every running node is started again by the tick that recovers it. -/
theorem RunOk.stranded_ready (h : RunOk g rows) (hk : key ∈ strandedKeys (snapshot g rows)) :
    key ∈ readyKeys (snapshot g rows) := by
  obtain ⟨hmem, hrun⟩ := mem_stranded.mp hk
  exact mem_ready.mpr ⟨hmem, Or.inl hrun, h.begun_satisfied key hmem (Or.inl hrun)⟩

/-- The four things a tick can do to a node, and what each says about it. -/
theorem RunOk.ticked_cases (h : RunOk g rows) (now : Time) (hk : key ∈ g.nodeKeys) :
    ((rows.executions key).status = .running ∧ upstreamSatisfied (snapshot g rows) key = true ∧
        (ticked g now rows).executions key = (rows.executions key).recovered.started now) ∨
      ((rows.executions key).status = .pending ∧ upstreamSatisfied (snapshot g rows) key = true ∧
        (ticked g now rows).executions key = (rows.executions key).started now) ∨
      ((rows.executions key).status = .pending ∧ upstreamDead (snapshot g rows) key = true ∧
        (ticked g now rows).executions key = (rows.executions key).skipped now) ∨
      ((rows.executions key).status ≠ .running ∧ key ∉ readyKeys (snapshot g rows) ∧
        key ∉ prunableKeys (snapshot g rows) ∧
        (ticked g now rows).executions key = rows.executions key) := by
  by_cases hready : key ∈ readyKeys (snapshot g rows)
  · obtain ⟨-, hst, hsat⟩ := mem_ready.mp hready
    have hrow := ticked_ready now hready
    rcases hst with hrun | hpend
    · rw [if_pos hrun] at hrow
      exact Or.inl ⟨hrun, hsat, hrow⟩
    · rw [if_neg (by simp [hpend])] at hrow
      exact Or.inr (Or.inl ⟨hpend, hsat, hrow⟩)
  · by_cases hprune : key ∈ prunableKeys (snapshot g rows)
    · obtain ⟨-, hpend, hdead⟩ := mem_prunable.mp hprune
      exact Or.inr (Or.inr (Or.inl ⟨hpend, hdead, ticked_prunable now hprune⟩))
    · have hns : key ∉ strandedKeys (snapshot g rows) := fun hc => hready (h.stranded_ready hc)
      have hrun : (rows.executions key).status ≠ .running :=
        fun hc => hns (mem_stranded.mpr ⟨hk, hc⟩)
      exact Or.inr (Or.inr (Or.inr ⟨hrun, hready, hprune, ticked_other hready hprune hns⟩))

theorem RunOk.ticked_move (h : RunOk g rows) (now : Time) (hk : key ∈ g.nodeKeys) :
    NodeMove g rows key ((ticked g now rows).executions key) := by
  rcases h.ticked_cases now hk with
    ⟨hrun, hsat, hrow⟩ | ⟨hpend, hsat, hrow⟩ | ⟨hpend, hdead, hrow⟩ | ⟨-, -, -, hrow⟩ <;> rw [hrow]
  · exact .recover now hrun hsat
  · exact .start now hpend hsat
  · exact .prune now hpend hdead
  · exact .same

/-- **What any transaction does to any node.** -/
theorem RunOk.move (h : RunOk g rows) (he : Effect g rows t rows' queue) (hk : key ∈ g.nodeKeys) :
    NodeMove g rows key (rows'.executions key) := by
  cases he with
  | tick now hfan hstatus => exact h.ticked_move now hk
  | conclude now target hfan hstatus hne hlegal =>
      rw [concluded_executions]
      exact h.ticked_move now hk
  | settle t now k result rejected ht hmem hrunning hstorable =>
      rw [RunRows.append_executions]
      by_cases hkey : key = k
      · subst hkey
        rw [RunRows.write_self]
        exact .settle now result hrunning
      · rw [RunRows.write_ne _ _ hkey]
        exact .same
  | resume now token k hfind hwaiting hsuspended =>
      by_cases hkey : key = k
      · subst hkey
        rw [resumed_self]
        exact .resume now hwaiting
      · rw [resumed_ne hkey]
        exact .same

/-- A tick that does not conclude `RUNNING` only prunes. -/
theorem RunOk.quiet_tick (h : RunOk g rows) (now : Time) (hk : key ∈ g.nodeKeys)
    (hquiet : conclusion (snapshot g rows) ≠ some .running) :
    (rows.executions key).status ≠ .running ∧
      ((ticked g now rows).executions key = rows.executions key ∨
        (rows.executions key).status = .pending ∧ upstreamDead (snapshot g rows) key = true ∧
          (ticked g now rows).executions key = (rows.executions key).skipped now) := by
  obtain ⟨hready, -⟩ := quiet_of_ne_running hquiet
  have hnot : key ∉ readyKeys (snapshot g rows) := by simp [hready]
  rcases h.ticked_cases now hk with
    ⟨hrun, hsat, -⟩ | ⟨hpend, hsat, -⟩ | ⟨hpend, hdead, hrow⟩ | ⟨hrun, -, -, hrow⟩
  · exact absurd (mem_ready.mpr ⟨hk, Or.inl hrun, hsat⟩) hnot
  · exact absurd (mem_ready.mpr ⟨hk, Or.inr hpend, hsat⟩) hnot
  · exact ⟨by simp [hpend], Or.inr ⟨hpend, hdead, hrow⟩⟩
  · exact ⟨hrun, Or.inl hrow⟩

theorem RunOk.quiet_tick_not_running (h : RunOk g rows) (now : Time) (hk : key ∈ g.nodeKeys)
    (hquiet : conclusion (snapshot g rows) ≠ some .running) :
    ((ticked g now rows).executions key).status ≠ .running := by
  obtain ⟨hrun, hrow | ⟨-, -, hrow⟩⟩ := h.quiet_tick now hk hquiet <;> rw [hrow]
  · exact hrun
  · simp [NodeExecution.skipped]

/-- A tick leaves waiting nodes waiting, and makes none. -/
theorem RunOk.ticked_waiting (h : RunOk g rows) (now : Time) (hk : key ∈ g.nodeKeys) :
    ((ticked g now rows).executions key).status = .waiting ↔
      (rows.executions key).status = .waiting := by
  rcases h.ticked_cases now hk with
    ⟨hrun, -, hrow⟩ | ⟨hpend, -, hrow⟩ | ⟨hpend, -, hrow⟩ | ⟨-, -, -, hrow⟩ <;> rw [hrow]
  · simp [NodeExecution.started, hrun]
  · simp [NodeExecution.started, hpend]
  · simp [NodeExecution.skipped, hpend]

/-- Before the run has moved nothing is decided, so no pending node can be pruned. -/
theorem RunOk.not_dead_of_pending (h : RunOk g rows) (hrun : rows.run.status = .pending) :
    upstreamDead (snapshot g rows) key = false := by
  by_contra hdead
  obtain ⟨hne, hall⟩ := upstreamDead_iff.mp (by simpa using hdead)
  obtain ⟨e, he⟩ := List.exists_mem_of_ne_nil _ hne
  obtain ⟨hk, hst⟩ := source_of_dead (hall e he)
  have hpend := h.untouched hrun e.sourceKey hk
  rcases hst with hst | ⟨hst, -⟩ <;> simp [hpend] at hst

/-- A run leaves `PENDING` with a node being started, and only then. -/
theorem RunOk.pending_conclusion (h : RunOk g rows) (hrun : rows.run.status = .pending) :
    conclusion (snapshot g rows) =
      if readyKeys (snapshot g rows) ≠ [] then some .running else none := by
  have hnone : ∀ st, st ≠ .pending → someNode (snapshot g rows) st = false := by
    intro st hst
    refine Bool.eq_false_iff.mpr fun hc => ?_
    obtain ⟨k, hk, hstatus⟩ := someNode_snapshot.mp hc
    exact hst (by rw [← hstatus, h.untouched hrun k hk])
  by_cases hready : readyKeys (snapshot g rows) = []
  · rw [conclusion_of_quiet hready (hnone .running (by decide)), hnone .waiting (by decide),
      hnone .failed (by decide)]
    cases hkeys : g.nodeKeys with
    | nil => simp [hkeys, hready]
    | cons k rest =>
        have hk : k ∈ g.nodeKeys := by simp [hkeys]
        have hst : statusOf (snapshot g rows) k = .pending := by
          rw [snapshot_statusOf hk, h.untouched hrun k hk]
        simp [hkeys, hready, hst, NodeExecutionStatus.isTerminal, NodeExecutionStatus.transitions]
  · rw [if_pos hready, conclusion_running_iff]
    exact Or.inl hready

/-! ### Every transaction keeps it -/

theorem Numbered.ticked (h : Numbered rows.events) (now : Time) :
    Numbered (Orqent.ticked g now rows).events := by
  unfold Orqent.ticked
  refine Numbered.appendAll ?_ _
  exact h

theorem Numbered.concluded (h : Numbered rows.events) (now : Time) (target : RunStatus) :
    Numbered (rows.concluded now target).events := by
  unfold RunRows.concluded
  refine Numbered.appendAll ?_ _
  exact h

theorem Numbered.resumed (h : Numbered rows.events) (now : Time) (key : NodeKey) :
    Numbered (Orqent.resumed now key rows).events := by
  unfold Orqent.resumed
  refine Numbered.appendAll ?_ _
  exact h

/-- The timeline keeps its numbering. -/
theorem Effect.numbered (h : Numbered rows.events) (he : Effect g rows t rows' queue) :
    Numbered rows'.events := by
  cases he with
  | tick now hfan hstatus => exact h.ticked now
  | conclude now target hfan hstatus hne hlegal => exact (h.ticked now).concluded now target
  | settle t now k result rejected ht hk hrunning hstorable =>
      have hwritten :
          Numbered (rows.write k (settledExecution now (rows.executions k) result)).events := h
      exact hwritten.append _ _
  | resume now token k hfind hwaiting hsuspended => exact h.resumed now k

/-- What has begun was satisfied when it started, and that is never undone. -/
theorem RunOk.begun_after (h : RunOk g rows) (he : Effect g rows t rows' queue)
    (hk : key ∈ g.nodeKeys) (hbegun : begun (rows'.executions key).status) :
    upstreamSatisfied (snapshot g rows') key = true := by
  have hmove := h.move he hk
  have hsat : upstreamSatisfied (snapshot g rows) key = true := by
    generalize rows'.executions key = x at hmove hbegun
    cases hmove with
    | same => exact h.begun_satisfied key hk hbegun
    | start now hpending hsatisfied => exact hsatisfied
    | recover now hrunning hsatisfied => exact hsatisfied
    | prune now hpending hdead =>
        rcases hbegun with hb | hb | hb | hb <;> simp [NodeExecution.skipped] at hb
    | settle now result hrunning => exact h.begun_satisfied key hk (Or.inl hrunning)
    | resume now hwaiting => exact h.begun_satisfied key hk (Or.inr (Or.inl hwaiting))
  exact satisfied_mono he.keepsFinal hsat

theorem RunOk.skipped_after (h : RunOk g rows) (he : Effect g rows t rows' queue)
    (hk : key ∈ g.nodeKeys) (hskip : (rows'.executions key).status = .skipped) :
    upstreamDead (snapshot g rows') key = true := by
  have hmove := h.move he hk
  have hdead : upstreamDead (snapshot g rows) key = true := by
    generalize rows'.executions key = x at hmove hskip
    cases hmove with
    | same => exact h.skipped_dead key hk hskip
    | start now hpending hsatisfied => simp [NodeExecution.started] at hskip
    | recover now hrunning hsatisfied => simp [NodeExecution.started] at hskip
    | prune now hpending hdead => exact hdead
    | settle now result hrunning => cases result <;> simp [settledExecution] at hskip
    | resume now hwaiting => simp at hskip
  exact upstreamDead_mono he.keepsFinal hdead

theorem RunOk.output_after (h : RunOk g rows) (he : Effect g rows t rows' queue)
    (hk : key ∈ g.nodeKeys) :
    (rows'.executions key).output.isSome = true ↔ (rows'.executions key).status = .succeeded := by
  have hbefore := h.output_iff key hk
  have hmove := h.move he hk
  generalize rows'.executions key = x at hmove ⊢
  cases hmove with
  | same => exact hbefore
  | start now hpending hsatisfied => simpa [NodeExecution.started, hpending] using hbefore
  | recover now hrunning hsatisfied =>
      simpa [NodeExecution.started, NodeExecution.recovered, hrunning] using hbefore
  | prune now hpending hdead => simpa [NodeExecution.skipped, hpending] using hbefore
  | settle now result hrunning =>
      rw [hrunning] at hbefore
      cases result with
      | completed outputs => simp [settledExecution]
      | failed error retryable => simpa [settledExecution] using hbefore
      | suspended token hint => simpa [settledExecution] using hbefore
  | resume now hwaiting => simpa [hwaiting] using hbefore

/-- A run that is still pending has had no node started or pruned. -/
theorem RunOk.untouched_after (h : RunOk g rows) (he : Effect g rows t rows' queue)
    (hrun' : rows'.run.status = .pending) (hk : key ∈ g.nodeKeys) :
    (rows'.executions key).status = .pending := by
  cases he with
  | tick now hfan hstatus =>
      rw [ticked_run] at hrun'
      have hquiet : conclusion (snapshot g rows) ≠ some .running := by
        rcases hstatus with hs | hs <;> simp [hs, hrun']
      obtain ⟨-, hrow | ⟨-, hdead, -⟩⟩ := h.quiet_tick now hk hquiet
      · rw [hrow]
        exact h.untouched hrun' key hk
      · rw [h.not_dead_of_pending hrun'] at hdead
        simp at hdead
  | conclude now target hfan hstatus hne hlegal =>
      rw [concluded_status] at hrun'
      exact absurd (hrun' ▸ hstatus) conclusion_ne_pending
  | settle t now j result rejected ht hj hrunning hstorable =>
      have hpend := h.untouched hrun' j hj
      simp [hpend] at hrunning
  | resume now token j hfind hwaiting hsuspended => simp at hrun'

/-- A run is parked on a node that waits, and no transaction but a resume ends the wait. -/
theorem RunOk.parked_after (h : RunOk g rows) (he : Effect g rows t rows' queue)
    (hrun' : rows'.run.status = .suspended) :
    ∃ k ∈ g.nodeKeys, (rows'.executions k).status = .waiting := by
  cases he with
  | tick now hfan hstatus =>
      rw [ticked_run] at hrun'
      obtain ⟨k, hk, hwait⟩ := h.parked hrun'
      exact ⟨k, hk, (h.ticked_waiting now hk).mpr hwait⟩
  | conclude now target hfan hstatus hne hlegal =>
      rw [concluded_status] at hrun'
      obtain ⟨k, hk, hwait⟩ := someNode_snapshot.mp (conclusion_suspended (hrun' ▸ hstatus))
      exact ⟨k, hk, by rw [concluded_executions]; exact (h.ticked_waiting now hk).mpr hwait⟩
  | settle t now j result rejected ht hj hrunning hstorable =>
      have hresting : rows.run.status.isResting = true := by
        rw [show rows.run.status = .suspended from hrun']
        decide
      exact absurd hrunning (h.resting hresting j hj)
  | resume now token j hfind hwaiting hsuspended => simp at hrun'

theorem RunOk.resting_after (h : RunOk g rows) (he : Effect g rows t rows' queue)
    (hrun' : rows'.run.status.isResting = true) (hk : key ∈ g.nodeKeys) :
    (rows'.executions key).status ≠ .running := by
  cases he with
  | tick now hfan hstatus =>
      rw [ticked_run] at hrun'
      refine h.quiet_tick_not_running now hk ?_
      rcases hstatus with hs | hs
      · simp [hs]
      · rw [hs]
        intro hc
        rw [Option.some.inj hc] at hrun'
        cases hrun'
  | conclude now target hfan hstatus hne hlegal =>
      rw [concluded_status] at hrun'
      rw [concluded_executions]
      refine h.quiet_tick_not_running now hk ?_
      rw [hstatus]
      intro hc
      rw [Option.some.inj hc] at hrun'
      cases hrun'
  | settle t now j result rejected ht hj hrunning hstorable =>
      exact absurd hrunning (h.resting hrun' j hj)
  | resume now token j hfind hwaiting hsuspended =>
      rw [resumed_status] at hrun'
      cases hrun'

theorem RunOk.finished_after (h : RunOk g rows) (he : Effect g rows t rows' queue)
    (hrun' : rows'.run.status.isTerminal = true) (hk : key ∈ g.nodeKeys) :
    (rows'.executions key).status ≠ .waiting := by
  cases he with
  | tick now hfan hstatus =>
      rw [ticked_run] at hrun'
      rw [ne_eq, h.ticked_waiting now hk]
      exact h.finished hrun' key hk
  | conclude now target hfan hstatus hne hlegal =>
      rw [concluded_status] at hrun'
      rw [concluded_executions, ne_eq, h.ticked_waiting now hk]
      intro hwait
      cases target with
      | pending => cases hrun'
      | running => cases hrun'
      | suspended => cases hrun'
      | completed =>
          have hterm := (conclusion_completed hstatus).2 key hk
          rw [snapshot_statusOf hk, hwait] at hterm
          cases hterm
      | failed =>
          have hnone := (conclusion_failed hstatus).1
          rw [someNode_snapshot.mpr ⟨key, hk, hwait⟩] at hnone
          simp at hnone
  | settle t now j result rejected ht hj hrunning hstorable =>
      have hresting : rows.run.status.isResting = true := by
        simp only [RunStatus.isResting, Bool.or_eq_true]
        exact Or.inr hrun'
      exact absurd hrunning (h.resting hresting j hj)
  | resume now token j hfind hwaiting hsuspended =>
      rw [resumed_status] at hrun'
      cases hrun'

/-- **Every transaction keeps the invariant.** -/
theorem Effect.ok (h : RunOk g rows) (he : Effect g rows t rows' queue) : RunOk g rows' where
  numbered := he.numbered h.numbered
  begun_satisfied := fun _ hk hbegun => h.begun_after he hk hbegun
  skipped_dead := fun _ hk hskip => h.skipped_after he hk hskip
  output_iff := fun _ hk => h.output_after he hk
  untouched := fun hrun _ hk => h.untouched_after he hrun hk
  parked := fun hrun => h.parked_after he hrun
  resting := fun hrun _ hk => h.resting_after he hrun hk
  finished := fun hrun _ hk => h.finished_after he hrun hk

/-! ### Histories -/

/-- One transaction on the committed rows: its rows, unless it raised. -/
def serial (g : WorkflowGraph Value) (rows : RunRows Value) (t : RunTxn Value) :
    Option (RunRows Value) :=
  match t.exec g rows with
  | .ok (rows', _) => some rows'
  | .error _ => none

theorem serial_effect (h : serial g rows t = some rows') :
    ∃ queue, Effect g rows t rows' queue := by
  unfold serial at h
  split at h
  · rename_i rows₁ queue hexec
    rw [Option.some.injEq] at h
    exact ⟨queue, exec_effect (h ▸ hexec)⟩
  · exact nomatch h

/-- **Every history of a run keeps the invariant.** -/
theorem history_ok {payload : Option (Dict String Value)} {tr : List (RunTxn Value)}
    (h : Trace.run (serial g) (materialize payload) tr = some rows) : RunOk g rows := by
  refine Trace.run_invariant (materialize_ok g payload) (fun r t r' hr hstep => ?_) h
  obtain ⟨queue, he⟩ := serial_effect hstep
  exact Effect.ok hr he

/-! ### A running example -/

/--
A branch that rejoins.  `condition` emits on `true` only, so `side` is pruned;
`merge` has one input from `side` and one that is live; `other` is independent of
all three.
-/
def rejoinGraph : WorkflowGraph Unit where
  nodes := [⟨"trigger", "trigger.manual", 1, [], none⟩,
    ⟨"condition", "core.condition", 1, [], none⟩, ⟨"side", "core.noop", 1, [], none⟩,
    ⟨"merge", "core.merge", 1, [], none⟩, ⟨"other", "ai.agent", 1, [], none⟩]
  edges := [⟨"trigger", "main", "condition", "main"⟩, ⟨"condition", "false", "side", "main"⟩,
    ⟨"side", "main", "merge", "a"⟩, ⟨"condition", "true", "merge", "b"⟩,
    ⟨"trigger", "main", "other", "main"⟩]
  keys_nodup := by decide
  source_mem := by decide
  target_mem := by decide
  edges_nodup := by decide

theorem rejoinGraph_acyclic : rejoinGraph.Acyclic :=
  rejoinGraph.acyclic_of_rank (fun k => rejoinGraph.nodeKeys.idxOf k) (by decide)

theorem rejoinGraph_singleFanIn : rejoinGraph.SingleFanIn := by
  unfold WorkflowGraph.SingleFanIn
  decide

/-- One advance: `condition` takes its `true` side and `other` ends as `result`. -/
def rejoinHistory (result : NodeResult Unit) : List (RunTxn Unit) :=
  [.tick 1, .settle 2 "trigger" (.completed [("main", ())]) false, .tick 3,
    .settle 4 "condition" (.completed [("true", ())]) false, .settle 5 "other" result false,
      .tick 6]

end Orqent
