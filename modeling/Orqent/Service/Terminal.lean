/-
Terminal runs.

A run that has concluded should be over: the next tick finds nothing, and no
transaction changes a row.  For `COMPLETED` that holds of every history.  For
`FAILED` it depends on the tick that concluded it: the conclusion is read off the
statuses from before the tick's own prunings, and a pruning can decide the last
inbound edge of a node further down.

`Unfinished` is that situation, as a condition on the rows the tick reads.
`terminal_absorbing_iff` says it is the only one in which a terminal run moves
again; `rejoin` is a graph and a history where it does.
-/
import Orqent.Service.Invariant

namespace Orqent

open Scheduler

variable {Value : Type} {g : WorkflowGraph Value} {rows rows' : RunRows Value}
  {now : Time} {key : NodeKey} {queue : List QueueOp} {t : RunTxn Value}

/-- The next thing a tick has to say about these rows is that the run failed: a node
has, and nothing runs, waits or can start. -/
def FailsNext (g : WorkflowGraph Value) (rows : RunRows Value) : Prop :=
  readyKeys (snapshot g rows) = [] ∧
    (∀ k ∈ g.nodeKeys,
      (rows.executions k).status ≠ .running ∧ (rows.executions k).status ≠ .waiting) ∧
    ∃ k ∈ g.nodeKeys, (rows.executions k).status = .failed

/-- An edge that is decided, or leaves a node all of whose inputs are dead and which
is about to be pruned. -/
def Settling (g : WorkflowGraph Value) (rows : RunRows Value) (e : GraphEdge) : Prop :=
  resolved (snapshot g rows) e = true ∨ e.sourceKey ∈ prunableKeys (snapshot g rows)

/-- A pending node that is not about to be pruned, and will have all its inputs decided. -/
def Revivable (g : WorkflowGraph Value) (rows : RunRows Value) (key : NodeKey) : Prop :=
  key ∈ g.nodeKeys ∧ (rows.executions key).status = .pending ∧ g.incoming key ≠ [] ∧
    upstreamDead (snapshot g rows) key = false ∧ ∀ e ∈ g.incoming key, Settling g rows e

/-- The rows of a run about to fail with something left to decide. -/
def Unfinished (g : WorkflowGraph Value) (rows : RunRows Value) : Prop :=
  FailsNext g rows ∧ ∃ k, Revivable g rows k

/-- What "terminal is final" asks of the rows: nothing to decide, nothing that changes
them, and no tick refused as an illegal transition. -/
structure Absorbed (g : WorkflowGraph Value) (rows : RunRows Value) : Prop where
  quiet : rows.run.status.isTerminal = true → tick (snapshot g rows) = .ok []
  fixed : rows.run.status.isTerminal = true → ∀ t rows', serial g rows t = some rows' → rows' = rows
  legal : ∀ now e, tickBody g now rows = .error e → e.isInvalidTransition = false

/-! ### The conclusion, read off the rows -/

theorem conclusion_failed_iff : conclusion (snapshot g rows) = some .failed ↔ FailsNext g rows := by
  constructor
  · intro h
    obtain ⟨hready, hrun⟩ := quiet_of_conclusion h (by decide)
    obtain ⟨hwait, hfail⟩ := conclusion_failed h
    refine ⟨hready, fun k hk => ⟨fun hc => ?_, fun hc => ?_⟩, someNode_snapshot.mp hfail⟩
    · rw [someNode_snapshot.mpr ⟨k, hk, hc⟩] at hrun
      exact nomatch hrun
    · rw [someNode_snapshot.mpr ⟨k, hk, hc⟩] at hwait
      exact nomatch hwait
  · intro hgiven
    obtain ⟨hready, hnone, hfail⟩ := hgiven
    have hrun : someNode (snapshot g rows) .running = false := by
      refine Bool.eq_false_iff.mpr fun hc => ?_
      obtain ⟨k, hk, hst⟩ := someNode_snapshot.mp hc
      exact (hnone k hk).1 hst
    have hwait : someNode (snapshot g rows) .waiting = false := by
      refine Bool.eq_false_iff.mpr fun hc => ?_
      obtain ⟨k, hk, hst⟩ := someNode_snapshot.mp hc
      exact (hnone k hk).2 hst
    rw [conclusion_of_quiet hready hrun, if_neg (by simp [hwait]),
      if_pos (someNode_snapshot.mpr hfail)]

/-- The conclusion does not depend on the run's own row. -/
theorem conclusion_congr (h : rows'.executions = rows.executions) :
    conclusion (snapshot g rows') = conclusion (snapshot g rows) := by
  have hsnap : snapshot g rows' =
      { snapshot g rows with
        status := rows'.run.status
        triggerPayload := rows'.run.triggerPayload } := by
    rw [snapshot, snapshot, h]
  rw [hsnap]
  rfl

/-- The status a tick concludes may always follow the run's own, until it is final. -/
theorem RunOk.conclusion_legal (h : RunOk g rows) {target : RunStatus}
    (hc : conclusion (snapshot g rows) = some target) (hne : target ≠ rows.run.status)
    (hlive : rows.run.status.isTerminal = false) : target ∈ rows.run.status.transitions := by
  have hnotpending : target ≠ .pending := fun hp => conclusion_ne_pending (hp ▸ hc)
  cases hst : rows.run.status with
  | pending =>
      have hnotsuspended : target ≠ .suspended := by
        intro heq
        subst heq
        obtain ⟨k, hk, hwait⟩ := someNode_snapshot.mp (conclusion_suspended hc)
        simp [h.untouched hst k hk] at hwait
      cases target <;> simp_all [RunStatus.transitions]
  | running => cases target <;> simp_all [RunStatus.transitions]
  | suspended =>
      obtain ⟨k, hk, hwait⟩ := h.parked hst
      have hsome : someNode (snapshot g rows) .waiting = true :=
        someNode_snapshot.mpr ⟨k, hk, hwait⟩
      by_cases hrunning : target = .running
      · simp [hrunning, RunStatus.transitions]
      · obtain ⟨hready, hrun⟩ := quiet_of_conclusion hc hrunning
        rw [conclusion_of_quiet hready hrun, if_pos hsome, Option.some.injEq] at hc
        exact absurd (hc.symm.trans hst.symm) hne
  | completed => rw [hst] at hlive; cases hlive
  | failed => rw [hst] at hlive; cases hlive

/-! ### Rows with nothing left to decide -/

theorem resting_of_terminal {st : RunStatus} (h : st.isTerminal = true) : st.isResting = true := by
  simp [RunStatus.isResting, h]

/-- **Nothing changes the rows of a finished run that has nothing left to decide.** -/
theorem RunOk.fixed (h : RunOk g rows) (hterm : rows.run.status.isTerminal = true)
    (hnone : decisions (snapshot g rows) = []) (he : Effect g rows t rows' queue) :
    rows' = rows := by
  cases he with
  | tick now hfan hstatus => exact ticked_of_no_decisions hnone
  | conclude now target hfan hstatus hne hlegal =>
      unfold RunStatus.isTerminal at hterm
      rw [List.isEmpty_iff] at hterm
      rw [hterm] at hlegal
      exact nomatch hlegal
  | settle t now k result rejected ht hk hrunning hstorable =>
      exact absurd hrunning (h.resting (resting_of_terminal hterm) k hk)
  | resume now token k hfind hwaiting hsuspended =>
      rw [hsuspended] at hterm
      exact nomatch hterm

theorem RunOk.legal (h : RunOk g rows) (hfan : g.SingleFanIn)
    (hquiet : rows.run.status.isTerminal = true → decisions (snapshot g rows) = [])
    {e : EngineError} :
    tickBody g now rows ≠ .error e := by
  intro herr
  rw [tickBody_eq g now rows hfan] at herr
  cases hc : conclusion (snapshot g rows) with
  | none => simp [hc] at herr
  | some target =>
      simp only [hc] at herr
      by_cases hsame : target = rows.run.status
      · simp [hsame] at herr
      · have hlive : rows.run.status.isTerminal = false := by
          refine Bool.eq_false_iff.mpr fun hterm => ?_
          obtain ⟨-, -, -, hnil | hnil⟩ := decisions_eq_nil_iff.mp (hquiet hterm)
          · simp [hc] at hnil
          · rw [hc, Option.some.injEq] at hnil
            exact hsame hnil
        have hok : ensureRunTransition rows.run.status target = .ok () :=
          ensure_of_mem (h.conclusion_legal hc hsame hlive)
        rw [if_neg hsame, hok] at herr
        exact nomatch herr

/-- Terminal rows are absorbed exactly when their tick has nothing to decide. -/
theorem RunOk.absorbed_iff (h : RunOk g rows) (hfan : g.SingleFanIn) : Absorbed g rows ↔
    (rows.run.status.isTerminal = true → decisions (snapshot g rows) = []) := by
  constructor
  · intro habs hterm
    have := habs.quiet hterm
    rw [tick_ok snapshot_complete hfan, Except.ok.injEq] at this
    exact this
  · intro hnone
    refine ⟨fun hterm => ?_, fun hterm t rows' hstep => ?_, fun now e herr => ?_⟩
    · rw [tick_ok snapshot_complete hfan, hnone hterm]
    · obtain ⟨queue, he⟩ := serial_effect hstep
      exact h.fixed hterm (hnone hterm) he
    · exact absurd herr (h.legal hfan hnone)

/-! ### The tick that concludes -/

section Concluding

/-- The statuses a tick that does not conclude `RUNNING` leaves, edge by edge. -/
theorem RunOk.resolved_after (h : RunOk g rows)
    (hquiet : conclusion (snapshot g rows) ≠ some .running)
    (hrows : rows'.executions = (ticked g now rows).executions) {e : GraphEdge}
    (he : e.sourceKey ∈ g.nodeKeys) :
    resolved (snapshot g rows') e = true ↔ Settling g rows e := by
  obtain ⟨-, hsame | ⟨hpend, hdead, hskip⟩⟩ := h.quiet_tick now he hquiet
  · have hrow : rows'.executions e.sourceKey = rows.executions e.sourceKey := by rw [hrows, hsame]
    have hcongr : resolved (snapshot g rows') e = resolved (snapshot g rows) e := by
      rw [resolved, resolved, isLive_congr hrow, isDead_congr hrow]
    rw [hcongr, Settling]
    refine ⟨Or.inl, ?_⟩
    intro hsettling
    rcases hsettling with hres | hprune
    · exact hres
    · have hmoved := ticked_prunable now hprune
      rw [hsame] at hmoved
      have hst := congrArg NodeExecution.status hmoved
      simp [NodeExecution.skipped, (mem_prunable.mp hprune).2.1] at hst
  · refine iff_of_true ?_ (Or.inr (mem_prunable.mpr ⟨he, hpend, hdead⟩))
    have hst : (rows'.executions e.sourceKey).status = .skipped := by
      rw [hrows, hskip]
      rfl
    have hdead' : isDead (snapshot g rows') e = true := by
      unfold isDead
      rw [snapshot_execution he]
      simp [hst]
    simp [resolved, hdead']

/-- A revivable node is decided on after the tick that fails the run. -/
theorem RunOk.not_revivable (h : RunOk g rows) (hfails : FailsNext g rows)
    (hrows : rows'.executions = (ticked g now rows).executions)
    (hnone : decisions (snapshot g rows') = []) : ¬ ∃ k, Revivable g rows k := by
  have hquiet : conclusion (snapshot g rows) ≠ some .running := by
    simp [conclusion_failed_iff.mpr hfails]
  intro hrevivable
  obtain ⟨k, hk, hpend, hne, halive, hsettling⟩ := hrevivable
  obtain ⟨-, hprunable, hready, -⟩ := decisions_eq_nil_iff.mp hnone
  have hrow : rows'.executions k = rows.executions k := by
    rw [hrows]
    obtain ⟨-, hsame | ⟨-, hdead, -⟩⟩ := h.quiet_tick now hk hquiet
    · exact hsame
    · rw [halive] at hdead
      simp at hdead
  have hpend' : (rows'.executions k).status = .pending := hrow ▸ hpend
  have hall : ∀ e ∈ g.incoming k, resolved (snapshot g rows') e = true := fun e he =>
    (h.resolved_after hquiet hrows (g.source_mem_of_incoming he)).mpr (hsettling e he)
  rcases satisfied_or_dead (s := snapshot g rows') hall with hsat | hdead
  · have := mem_ready.mpr ⟨hk, Or.inr hpend', hsat⟩
    simp [hready] at this
  · have := mem_prunable.mpr ⟨hk, hpend', hdead⟩
    simp [hprunable] at this

/-- Where no node is revivable, those still pending after the tick wait for another. -/
theorem RunOk.stuck_after (h : RunOk g rows) (hfails : FailsNext g rows)
    (hrows : rows'.executions = (ticked g now rows).executions)
    (hnot : ¬ ∃ k, Revivable g rows k) {k : NodeKey} (hk : k ∈ g.nodeKeys)
    (hpend' : (rows'.executions k).status = .pending) :
    ¬ ∀ e ∈ g.incoming k, resolved (snapshot g rows') e = true := by
  have hquiet : conclusion (snapshot g rows) ≠ some .running := by
    simp [conclusion_failed_iff.mpr hfails]
  intro hall
  obtain ⟨-, hsame | ⟨-, -, hskip⟩⟩ := h.quiet_tick now hk hquiet
  · have hpend : (rows.executions k).status = .pending := by
      rw [← hsame, ← hrows]
      exact hpend'
    have hsettling : ∀ e ∈ g.incoming k, Settling g rows e := fun e he =>
      (h.resolved_after hquiet hrows (g.source_mem_of_incoming he)).mp (hall e he)
    have hne : g.incoming k ≠ [] := by
      intro hnil
      have := mem_ready.mpr ⟨hk, Or.inr hpend, upstreamSatisfied_iff.mpr (Or.inl hnil)⟩
      simp [hfails.1] at this
    refine hnot ⟨k, hk, hpend, hne, Bool.eq_false_iff.mpr fun hdead => ?_, hsettling⟩
    have hmoved := ticked_prunable now (mem_prunable.mpr ⟨hk, hpend, hdead⟩)
    rw [hsame] at hmoved
    have hst := congrArg NodeExecution.status hmoved
    simp [NodeExecution.skipped, hpend] at hst
  · rw [hrows, hskip] at hpend'
    simp [NodeExecution.skipped] at hpend'

/-- After the tick that fails the run, something is left exactly when a node was revivable. -/
theorem RunOk.decisions_after (h : RunOk g rows) (hfails : FailsNext g rows)
    (hrows : rows'.executions = (ticked g now rows).executions)
    (hstatus : rows'.run.status = .failed) :
    decisions (snapshot g rows') = [] ↔ ¬ ∃ k, Revivable g rows k := by
  refine ⟨h.not_revivable hfails hrows, fun hnot => ?_⟩
  have hquiet : conclusion (snapshot g rows) ≠ some .running := by
    simp [conclusion_failed_iff.mpr hfails]
  have hnotrunning : ∀ k ∈ g.nodeKeys, (rows'.executions k).status ≠ .running := fun k hk => by
    rw [hrows]
    exact h.quiet_tick_not_running now hk hquiet
  have hready : readyKeys (snapshot g rows') = [] := by
    refine List.eq_nil_iff_forall_not_mem.mpr fun k hk => ?_
    obtain ⟨hmem, hst, hsat⟩ := mem_ready.mp hk
    rcases hst with hst | hst
    · exact hnotrunning k hmem hst
    · refine h.stuck_after hfails hrows hnot hmem hst ?_
      rcases upstreamSatisfied_iff.mp hsat with hnil | ⟨hall, -⟩
      · intro e he
        rw [show g.incoming k = [] from hnil] at he
        simp at he
      · exact hall
  have hprunable : prunableKeys (snapshot g rows') = [] := by
    refine List.eq_nil_iff_forall_not_mem.mpr fun k hk => ?_
    obtain ⟨hmem, hst, hdead⟩ := mem_prunable.mp hk
    refine h.stuck_after hfails hrows hnot hmem hst fun e he => ?_
    simp [resolved, (upstreamDead_iff.mp hdead).2 e he]
  have hfails' : FailsNext g rows' := by
    refine ⟨hready, fun k hk => ⟨hnotrunning k hk, ?_⟩, ?_⟩
    · rw [hrows, ne_eq, h.ticked_waiting now hk]
      exact (hfails.2.1 k hk).2
    · obtain ⟨k, hk, hfail⟩ := hfails.2.2
      refine ⟨k, hk, ?_⟩
      rw [hrows, ticked_of_settled (by simp [hfail]) (by simp [hfail])]
      exact hfail
  refine decisions_eq_nil_iff.mpr ⟨?_, hprunable, hready, Or.inr ?_⟩
  · refine List.eq_nil_iff_forall_not_mem.mpr fun k hk => ?_
    obtain ⟨hmem, hst⟩ := mem_stranded.mp hk
    exact hnotrunning k hmem hst
  · rw [conclusion_failed_iff.mpr hfails', snapshot_status, hstatus]

/-- A run that completes has nothing left. -/
theorem decisions_of_completed
    (hall : ∀ k ∈ g.nodeKeys, (rows.executions k).status.isTerminal = true)
    (hconc : conclusion (snapshot g rows) = some rows.run.status) :
    decisions (snapshot g rows) = [] := by
  refine decisions_eq_nil_iff.mpr ⟨?_, ?_, ?_, Or.inr hconc⟩
  all_goals refine List.eq_nil_iff_forall_not_mem.mpr fun k hk => ?_
  · obtain ⟨hmem, hst⟩ := mem_stranded.mp hk
    have := hall k hmem
    rw [hst] at this
    exact nomatch this
  · obtain ⟨hmem, hst, -⟩ := mem_prunable.mp hk
    have := hall k hmem
    rw [hst] at this
    exact nomatch this
  · obtain ⟨hmem, hst, -⟩ := mem_ready.mp hk
    have := hall k hmem
    rcases hst with hst | hst <;> rw [hst] at this <;> exact nomatch this

end Concluding

/-! ### Whole histories -/

/-- The condition on a transaction: it is not a tick that fails the run too early. -/
def LeavesNothing (g : WorkflowGraph Value) (rows : RunRows Value) : RunTxn Value → Prop
  | .tick _ => ¬ Unfinished g rows
  | _ => True

/-- A transaction makes a run terminal only by a tick that concludes it. -/
theorem Effect.concludes (he : Effect g rows t rows' queue)
    (hlive : rows.run.status.isTerminal = false) (hterm : rows'.run.status.isTerminal = true) :
    ∃ now target, t = .tick now ∧ g.SingleFanIn ∧ conclusion (snapshot g rows) = some target ∧
      target.isTerminal = true ∧ rows' = (ticked g now rows).concluded now target := by
  cases he with
  | tick now hfan hstatus =>
      rw [ticked_run, hlive] at hterm
      exact nomatch hterm
  | conclude now target hfan hstatus hne hlegal =>
      rw [concluded_status] at hterm
      exact ⟨now, target, rfl, hfan, hstatus, hterm, rfl⟩
  | settle t now k result rejected ht hk hrunning hstorable =>
      simp only [RunRows.append_run, RunRows.write_run, hlive] at hterm
      exact nomatch hterm
  | resume now token k hfind hwaiting hsuspended =>
      rw [resumed_status] at hterm
      exact nomatch hterm

/-- Where nothing is left to decide, no transaction leaves something. -/
theorem RunOk.leavesNothing_of_decided (h : RunOk g rows)
    (hnone : decisions (snapshot g rows) = []) (t : RunTxn Value) : LeavesNothing g rows t := by
  cases t with
  | tick now =>
      intro hgiven
      obtain ⟨hfails, hrevivable⟩ := hgiven
      obtain ⟨-, -, -, hconc | hconc⟩ := decisions_eq_nil_iff.mp hnone
      · simp [conclusion_failed_iff.mpr hfails] at hconc
      · rw [conclusion_failed_iff.mpr hfails, Option.some.injEq] at hconc
        have hsame : rows.executions = (ticked g now rows).executions := by
          rw [ticked_of_no_decisions hnone]
        exact (h.decisions_after hfails hsame hconc.symm).mp hnone hrevivable
  | settle now key result rejected => trivial
  | refuse now key => trivial
  | resume now token => trivial

/-- A run that completes is left as its nodes are: all of them are over. -/
theorem decisions_completed (now : Time) (hconc : conclusion (snapshot g rows) = some .completed) :
    decisions (snapshot g ((ticked g now rows).concluded now .completed)) = [] := by
  have hall : ∀ k ∈ g.nodeKeys, (rows.executions k).status.isTerminal = true := by
    intro k hk
    rw [← snapshot_statusOf hk]
    exact (conclusion_completed hconc).2 k hk
  have hrows : ((ticked g now rows).concluded now .completed).executions = rows.executions := by
    rw [concluded_executions]
    funext k
    by_cases hk : k ∈ g.nodeKeys
    · refine ticked_of_settled ?_ ?_ <;> intro hc <;> have := hall k hk <;>
        rw [hc] at this <;> exact nomatch this
    · refine ticked_other ?_ ?_ ?_ <;> simp [hk]
  refine decisions_of_completed ?_ ?_
  · rw [hrows]
    exact hall
  · rw [conclusion_congr hrows, concluded_status]
    exact hconc

/-- A transaction after which the run goes on leaves nothing. -/
theorem Effect.leavesNothing_of_live (he : Effect g rows t rows' queue)
    (hlive : rows.run.status.isTerminal = false) (hlive' : rows'.run.status.isTerminal = false) :
    LeavesNothing g rows t := by
  cases t with
  | tick now =>
      intro hgiven
      obtain ⟨hfails, -⟩ := hgiven
      have hconc := conclusion_failed_iff.mpr hfails
      cases he with
      | tick now hfan hstatus =>
          rcases hstatus with hs | hs <;> rw [hconc] at hs
          · exact nomatch hs
          · rw [← Option.some.inj hs] at hlive
            exact nomatch hlive
      | conclude now target hfan hstatus hne hlegal =>
          rw [hconc, Option.some.injEq] at hstatus
          rw [concluded_status, ← hstatus] at hlive'
          exact nomatch hlive'
      | settle t now k result rejected ht hk hrunning hstorable =>
          rcases ht with ht | ⟨ht, -⟩ <;> exact nomatch ht
  | settle now key result rejected => trivial
  | refuse now key => trivial
  | resume now token => trivial

/-- **One transaction.**  Absorbed rows stay absorbed exactly under the condition. -/
theorem RunOk.absorbed_step (h : RunOk g rows) (hfan : g.SingleFanIn) (habs : Absorbed g rows)
    (he : Effect g rows t rows' queue) : Absorbed g rows' ↔ LeavesNothing g rows t := by
  have hok' : RunOk g rows' := Effect.ok h he
  have hnone := (h.absorbed_iff hfan).mp habs
  by_cases hterm : rows.run.status.isTerminal = true
  · obtain rfl : rows' = rows := h.fixed hterm (hnone hterm) he
    exact iff_of_true habs (h.leavesNothing_of_decided (hnone hterm) t)
  have hlive : rows.run.status.isTerminal = false := Bool.eq_false_iff.mpr hterm
  rw [hok'.absorbed_iff hfan]
  by_cases hterm' : rows'.run.status.isTerminal = true
  · obtain ⟨now, target, rfl, -, hconc, htarget, rfl⟩ := he.concludes hlive hterm'
    rw [concluded_status]
    cases target with
    | pending => exact nomatch htarget
    | running => exact nomatch htarget
    | suspended => exact nomatch htarget
    | completed =>
        refine iff_of_true (fun _ => decisions_completed now hconc) fun hgiven => ?_
        obtain ⟨hfails, -⟩ := hgiven
        rw [conclusion_failed_iff.mpr hfails] at hconc
        exact nomatch hconc
    | failed =>
        have hfails := conclusion_failed_iff.mp hconc
        have hrows : ((ticked g now rows).concluded now .failed).executions
            = (ticked g now rows).executions := concluded_executions _
        have hiff := h.decisions_after hfails hrows (concluded_status _)
        unfold LeavesNothing
        rw [Unfinished, not_and]
        constructor
        · intro hnil _
          exact hiff.mp (hnil rfl)
        · intro hcond _
          exact hiff.mpr (hcond hfails)
  · refine iff_of_true (fun hc => absurd hc hterm') ?_
    exact he.leavesNothing_of_live hlive (Bool.eq_false_iff.mpr hterm')

/--
**A terminal run is over, in exactly the histories without a premature failure.**
Every terminal state passed through has an empty tick, no transaction changes it,
and no tick is refused as an illegal transition, if and only if no tick is taken on
`Unfinished` rows.
-/
theorem terminal_absorbing_iff {payload : Option (Dict String Value)} {tr : List (RunTxn Value)}
    (hfan : g.SingleFanIn) (h : Trace.run (serial g) (materialize payload) tr = some rows) :
    Trace.Visits (serial g) (Absorbed g) (materialize payload) tr ↔
      Trace.Along (serial g) (LeavesNothing g) (materialize payload) tr := by
  refine Trace.run_induction (P := fun tr _ =>
    Trace.Visits (serial g) (Absorbed g) (materialize payload) tr ↔
      Trace.Along (serial g) (LeavesNothing g) (materialize payload) tr) ?_ ?_ h
  · refine iff_of_true (Trace.visits_nil.mpr ?_) Trace.along_nil
    exact ((materialize_ok g payload).absorbed_iff hfan).mpr fun hterm => nomatch hterm
  · intro tr r t r' hrun ih hstep
    obtain ⟨queue, he⟩ := serial_effect hstep
    have hok : RunOk g r := history_ok hrun
    rw [Trace.visits_snoc (Trace.run_snoc hrun hstep), Trace.along_snoc hrun, ih]
    refine and_congr_right fun halong => ?_
    exact hok.absorbed_step hfan ((ih.mpr halong).last hrun) he

/-- The condition on an advance in which `other` ends well. -/
theorem rejoin_absorbing :
    Trace.Visits (serial rejoinGraph) (Absorbed rejoinGraph) (materialize none)
        (rejoinHistory (.completed [])) ↔
      Trace.Along (serial rejoinGraph) (LeavesNothing rejoinGraph) (materialize none)
        (rejoinHistory (.completed [])) :=
  terminal_absorbing_iff rejoinGraph_singleFanIn rfl

/--
The tick that prunes `side` also fails the run, and the next one starts `merge`
and is refused: a failed run may not move to `RUNNING`.
-/
theorem rejoin_reopens : rejoinGraph.Acyclic ∧ rejoinGraph.SingleFanIn ∧ ∃ rows,
    Trace.run (serial rejoinGraph) (materialize none) (rejoinHistory (.failed "boom" false))
        = some rows ∧
      rows.run.status = .failed ∧
      tick (snapshot rejoinGraph rows) = .ok [.startNode "merge", .setRunStatus .running] ∧
      ∃ e, tickBody rejoinGraph 7 rows = .error e ∧ e.isInvalidTransition = true :=
  ⟨rejoinGraph_acyclic, rejoinGraph_singleFanIn, _, rfl, rfl, rfl, _, rfl, rfl⟩

end Orqent
