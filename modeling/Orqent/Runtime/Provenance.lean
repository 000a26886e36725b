/-
Where what is recorded comes from.

A result is recorded for a node because some invocation of its runner returned it, or in
place of one that must not be repeated.  So what is true of every result that comes of an
invocation (`Vouches`) is true of whatever a process has in hand, and of every output and
every failure in the rows, in any order of the steps of any processes (`all_vouched`).
-/
import Orqent.Runtime.Inputs
import Orqent.Service.Terminal

namespace Orqent

open Scheduler

variable {P Value : Type} {env : Env Value} {s s' : Sys P Value} {p q : P} {a : Action Value}
  {now : Time} {key : NodeKey} {Q : NodeKey → NodeResult Value → Prop}

/-- What a row has to show of the results recorded in it. -/
structure NodeExecution.Vouched (Q : NodeKey → NodeResult Value → Prop) (key : NodeKey)
    (x : NodeExecution Value) : Prop where
  output : ∀ outputs, x.output = some outputs → Q key (.completed outputs)
  failed : x.status = .failed → ∃ error retryable, Q key (.failed error retryable)

/-- `Q` holds of the results recorded in these rows. -/
def RunRows.Vouched (Q : NodeKey → NodeResult Value → Prop) (g : WorkflowGraph Value)
    (rows : RunRows Value) : Prop :=
  ∀ k ∈ g.nodeKeys, (rows.executions k).Vouched Q k

/-- The rows a batch was started from have this property. -/
def Phase.Snap (R : RunRows Value → Prop) : Phase Value → Prop
  | .invoking _ snap _ => R snap
  | _ => True

/-- What comes of the invocation is what `Q` says of its node. -/
def Vouches (Q : NodeKey → NodeResult Value → Prop) (env : Env Value) (s : Sys P Value) :
    P × Action Value → Prop
  | (p, .invoke key outcome) => ∀ cycles snap batch,
      (s.procs p).phase = .invoking cycles snap batch → ∀ l, (l, none) ∈ batch → l.key = key →
        ∀ result, (invokeLaunch env snap l outcome).recorded = some result → Q key result
  | _ => True

/-- `Q` holds of all results: those recorded, and those in the hands of some process. -/
structure Sys.Vouched (Q : NodeKey → NodeResult Value → Prop) (env : Env Value)
    (s : Sys P Value) : Prop where
  rows : s.rows.Vouched Q env.graph
  snaps : ∀ p, (s.procs p).phase.Snap (RunRows.Vouched Q env.graph)
  hands : ∀ p, ∀ e ∈ (s.procs p).phase.launched, ∀ outcome result,
    e.2 = some outcome → outcome.recorded = some result → Q e.1.key result

/-! ### Rows -/

/-- A row that only changes its status, to one that is not `FAILED`, records nothing. -/
theorem NodeExecution.Vouched.moved {x y : NodeExecution Value} (h : x.Vouched Q key)
    (houtput : y.output = x.output) (hstatus : y.status ≠ .failed) : y.Vouched Q key where
  output := houtput ▸ h.output
  failed := fun hc => absurd hc hstatus

theorem NodeExecution.Vouched.settled {x : NodeExecution Value} (h : x.Vouched Q key) (now : Time)
    {result : NodeResult Value} (hresult : Q key result) :
    (settledExecution now x result).Vouched Q key := by
  cases result with
  | completed outputs =>
      refine ⟨fun outputs' houtputs => ?_, fun hc => nomatch hc⟩
      rwa [← Option.some.inj houtputs]
  | failed error retryable => exact ⟨h.output, fun _ => ⟨error, retryable, hresult⟩⟩
  | suspended token hint => exact h.moved rfl nofun

variable {g : WorkflowGraph Value} {rows rows' : RunRows Value}

theorem materialize_vouched (payload : Option (Dict String Value)) :
    (materialize payload).Vouched Q g := by
  intro k hk
  exact ⟨fun _ hc => (nomatch hc), fun hc => (nomatch hc)⟩

theorem RunRows.Vouched.tick {queue : List QueueOp} (h : rows.Vouched Q g) (hok : RunOk g rows)
    (he : Effect g rows (.tick now) rows' queue) : rows'.Vouched Q g := by
  intro k hk
  rw [he.tick_executions]
  have hrow := h k hk
  rcases hok.ticked_cases now hk with
    ⟨-, -, heq⟩ | ⟨-, -, heq⟩ | ⟨-, -, heq⟩ | ⟨-, -, -, heq⟩ <;> rw [heq]
  · exact hrow.moved rfl nofun
  · exact hrow.moved rfl nofun
  · exact hrow.moved rfl nofun
  · exact hrow

theorem RunRows.Vouched.resumed (h : rows.Vouched Q g) (now : Time) (key : NodeKey) :
    (Orqent.resumed now key rows).Vouched Q g := by
  intro k hk
  by_cases hkey : k = key
  · subst hkey
    rw [resumed_self]
    exact (h k hk).moved rfl nofun
  · rw [resumed_ne hkey]
    exact h k hk

theorem RunRows.Vouched.settled (h : rows.Vouched Q g) (now : Time) {result : NodeResult Value}
    (hresult : Q key result) (body : EventBody) :
    ((rows.write key (settledExecution now (rows.executions key) result)).append body.1
      body.2).Vouched
      Q g := by
  intro k hk
  rw [RunRows.append_executions]
  by_cases hkey : k = key
  · subst hkey
    rw [RunRows.write_self]
    exact (h k hk).settled now hresult
  · rw [RunRows.write_ne _ _ hkey]
    exact h k hk

/-! ### A run that failed -/

/-- A run that failed shows a node that did. -/
def FailureShown (g : WorkflowGraph Value) (rows : RunRows Value) : Prop :=
  rows.run.status = .failed → ∃ k ∈ g.nodeKeys, (rows.executions k).status = .failed

/-- A tick leaves a failed node as it is. -/
theorem failed_ticked (hok : RunOk g rows) (hkey : key ∈ g.nodeKeys)
    (hfailed : (rows.executions key).status = .failed) :
    ((ticked g now rows).executions key).status = .failed := by
  rcases hok.ticked_cases now hkey with ⟨hst, -, -⟩ | ⟨hst, -, -⟩ | ⟨hst, -, -⟩ | ⟨-, -, -, heq⟩
  · rw [hfailed] at hst
    exact nomatch hst
  · rw [hfailed] at hst
    exact nomatch hst
  · rw [hfailed] at hst
    exact nomatch hst
  · rw [heq]
    exact hfailed

theorem FailureShown.tick {queue : List QueueOp} (h : FailureShown g rows) (hok : RunOk g rows)
    (he : Effect g rows (.tick now) rows' queue) : FailureShown g rows' := by
  have hkept : (∃ k ∈ g.nodeKeys, (rows.executions k).status = .failed) →
      ∃ k ∈ g.nodeKeys, ((ticked g now rows).executions k).status = .failed := by
    intro hshown
    obtain ⟨k, hk, hfailed⟩ := hshown
    exact ⟨k, hk, failed_ticked hok hk hfailed⟩
  intro hstatus
  rw [he.tick_executions]
  cases he with
  | tick hfan hconclusion =>
      rw [ticked_run] at hstatus
      exact hkept (h hstatus)
  | conclude now target hfan hconclusion hne hlegal =>
      rw [concluded_status] at hstatus
      subst hstatus
      exact hkept (conclusion_failed_iff.mp hconclusion).2.2
  | settle t now key result rejected ht hkey hrunning hstorable =>
      rcases ht with hc | ⟨hc, -⟩ <;> exact nomatch hc

/-- What was failed is so after a write to a node that was not. -/
theorem FailureShown.written {x : NodeExecution Value} (h : FailureShown g rows)
    (hnot : (rows.executions key).status ≠ .failed) : FailureShown g (rows.write key x) := by
  intro hstatus
  obtain ⟨k, hk, hfailed⟩ := h hstatus
  refine ⟨k, hk, ?_⟩
  have hne : k ≠ key := by
    intro hc
    rw [hc] at hfailed
    exact hnot hfailed
  rw [RunRows.write_ne _ _ hne]
  exact hfailed

/-! ### What a run was started with -/

theorem concluded_payload (target : RunStatus) :
    (rows.concluded now target).run.triggerPayload = rows.run.triggerPayload := by
  simp [RunRows.concluded, RunRow.moved]

theorem tick_payload {queue : List QueueOp} (he : Effect g rows (.tick now) rows' queue) :
    rows'.run.triggerPayload = rows.run.triggerPayload := by
  cases he with
  | tick hfan hconclusion => rw [ticked_run]
  | conclude now target hfan hconclusion hne hlegal => rw [concluded_payload, ticked_run]
  | settle t now key result rejected ht hkey hrunning hstorable =>
      rcases ht with hc | ⟨hc, -⟩ <;> exact nomatch hc

/-! ### Runs -/

section Steps

variable [DecidableEq P] [DecidableEq Value]

set_option linter.unusedSectionVars false

/-- **What is true of the rows is true of those a batch is started from.** -/
theorem Move.snaps {R : RunRows Value → Prop} (h : Move env s p a s') (hrows : R s.rows)
    (hbefore : ∀ q, (s.procs q).phase.Snap R) (q : P) : (s'.procs q).phase.Snap R := by
  by_cases hq : q = p
  swap
  · rw [h.procs_ne hq]
    exact hbefore q
  subst hq
  have hsnap := hbefore q
  cases h with
  | tick now cycles rows ops hphase hlimit hsome heffect =>
      rw [Sys.moved_self]
      exact hrows
  | resumed now token key hphase hfind hwaiting hsuspended =>
      rw [Sys.moved_self]
      exact hrows
  | invoke key outcome cycles snap batch hphase hopen =>
      rw [hphase] at hsnap
      rw [Sys.moved_self]
      exact hsnap
  | claim clock leaseSeconds locked task queue hphase hclaim =>
      simp only [Function.update_self]
      trivial
  | extend expiresAt id htask =>
      simp only [Function.update_self]
      exact hsnap
  | requeue runAfter id htask =>
      rw [show (_ : Sys P Value).procs q = Process.idle from Sys.raised_self]
      trivial
  | release id status hphase htask =>
      rw [show (_ : Sys P Value).procs q = Process.idle from Sys.raised_self]
      trivial
  | raised a hnot =>
      rw [Sys.raised_self]
      trivial
  | _ =>
      rw [Sys.moved_self]
      trivial

/-- What comes of an invocation joins what its process has in hand. -/
theorem invoked_vouched {snap : RunRows Value} {outcome : RunnerOutcome Value}
    {batch : List (Launch × Option (Outcome Value))}
    (hbatch : ∀ e ∈ batch, ∀ known result, e.2 = some known → known.recorded = some result →
      Q e.1.key result)
    (hnew : ∀ l, (l, none) ∈ batch → l.key = key → ∀ result,
      (invokeLaunch env snap l outcome).recorded = some result → Q key result) :
    ∀ e ∈ invokeIn env snap key outcome batch, ∀ known result, e.2 = some known →
      known.recorded = some result → Q e.1.key result := by
  intro e he known result hknown hrecorded
  obtain ⟨⟨l, o⟩, hmem, rfl⟩ := List.mem_map.mp he
  cases o with
  | some known' => exact hbatch _ hmem known result hknown hrecorded
  | none =>
      rw [invokeEntry] at hknown ⊢
      split at hknown
      · rename_i hkey
        obtain rfl := Option.some.inj hknown
        rw [if_pos hkey, hkey]
        exact hnew l hmem hkey result hrecorded
      · cases hknown

/-- **Every step whose invocation is vouched for keeps all of it so.** -/
theorem Sys.Vouched.step (h : s.Vouched Q env) (hok : SysOk env s) (hmove : Move env s p a s')
    (hvouches : Vouches Q env s (p, a)) : s'.Vouched Q env := by
  have hhands := h.hands p
  have hsnaps := hmove.snaps h.rows h.snaps
  have hothers : (∀ e ∈ (s'.procs p).phase.launched, ∀ outcome result, e.2 = some outcome →
      outcome.recorded = some result → Q e.1.key result) →
      ∀ q, ∀ e ∈ (s'.procs q).phase.launched, ∀ outcome result, e.2 = some outcome →
        outcome.recorded = some result → Q e.1.key result := by
    intro hself q
    by_cases hq : q = p
    · subst hq
      exact hself
    · rw [hmove.procs_ne hq]
      exact h.hands q
  cases hmove.handover with
  | keep a s' hrows hquiet hlaunched =>
      exact ⟨hrows ▸ h.rows, hsnaps, hothers fun e he => hhands e (hlaunched.subset he)⟩
  | invoke key outcome s' cycles snap batch hphase hopen hrows hphase' =>
      refine ⟨hrows ▸ h.rows, hsnaps, hothers ?_⟩
      rw [hphase] at hhands
      rw [hphase']
      exact invoked_vouched hhands (hvouches cycles snap batch hphase)
  | settle now rejected s' l outcome result hlaunched hrecorded hrunning hrows =>
      rw [hlaunched] at hhands
      refine ⟨?_, hsnaps, hothers fun e he => hhands e (List.mem_cons_of_mem _ he)⟩
      rw [hrows]
      exact h.rows.settled now (hhands _ List.mem_cons_self outcome result rfl hrecorded) _
  | tick now s' cycles ops hphase hlimit hphase' heffect =>
      refine ⟨h.rows.tick hok.rows heffect, hsnaps, hothers ?_⟩
      rw [hphase']
      intro e he outcome result hknown
      obtain ⟨k, -, rfl⟩ := List.mem_map.mp he
      exact nomatch hknown
  | resumed now s' token key hphase hphase' hfind hwaiting hsuspended hrows =>
      refine ⟨hrows ▸ h.rows.resumed now key, hsnaps, hothers ?_⟩
      rw [hphase']
      intro e he outcome result hknown
      rw [List.mem_singleton.mp he] at hknown
      exact nomatch hknown

/-- **What is vouched for at every invocation holds of everything recorded.** -/
theorem all_vouched {tr : List (P × Action Value)}
    (h : Trace.run (Sys.step env) (Sys.start P env now) tr = some s)
    (hvouches : Trace.Along (Sys.step env) (Vouches Q env) (Sys.start P env now) tr) :
    s.Vouched Q env := by
  refine Trace.run_induction_along (P := fun _ s => s.Vouched Q env) ?_ ?_ h hvouches
  · exact ⟨materialize_vouched _, fun _ => trivial, fun _ _ he => nomatch he⟩
  · intro tr s step s' hrun hs hv hstep
    obtain ⟨q, a⟩ := step
    exact hs.step (sys_ok hrun) ((sys_ok hrun).step_move hstep) hv

/-- **A run that failed has a node that failed.** -/
theorem all_failures_shown {tr : List (P × Action Value)}
    (h : Trace.run (Sys.step env) (Sys.start P env now) tr = some s) :
    FailureShown env.graph s.rows := by
  have hboth : SysOk env s ∧ FailureShown env.graph s.rows := by
    refine Trace.run_invariant (P := fun s => SysOk env s ∧ FailureShown env.graph s.rows)
      ⟨start_ok env now, nofun⟩ ?_ h
    intro s step s' hs hstep
    obtain ⟨hok, hshown⟩ := hs
    obtain ⟨q, a⟩ := step
    refine ⟨hok.step hstep, ?_⟩
    cases (hok.step_move hstep).handover with
    | keep a s' hrows hquiet hlaunched => exact hrows ▸ hshown
    | invoke key outcome s' cycles snap batch hphase hopen hrows hphase' => exact hrows ▸ hshown
    | settle now rejected s' l outcome result hlaunched hrecorded hrunning hrows =>
        rw [hrows]
        exact hshown.written (by simp [hrunning])
    | tick now s' cycles ops hphase hlimit hphase' heffect => exact hshown.tick hok.rows heffect
    | resumed now s' token key hphase hphase' hfind hwaiting hsuspended hrows =>
        intro hstatus
        rw [hrows, resumed_status] at hstatus
        exact nomatch hstatus
  exact hboth.2

/-- **Every batch is started with what the run was started with.** -/
theorem all_payloads {tr : List (P × Action Value)}
    (h : Trace.run (Sys.step env) (Sys.start P env now) tr = some s) (p : P) :
    (s.procs p).phase.Snap fun rows => rows.run.triggerPayload = env.triggerPayload := by
  have hall : SysOk env s ∧ s.rows.run.triggerPayload = env.triggerPayload ∧
      ∀ p, (s.procs p).phase.Snap fun rows => rows.run.triggerPayload = env.triggerPayload := by
    refine Trace.run_invariant (P := fun s => SysOk env s ∧
        s.rows.run.triggerPayload = env.triggerPayload ∧
        ∀ p, (s.procs p).phase.Snap fun rows => rows.run.triggerPayload = env.triggerPayload)
      ⟨start_ok env now, rfl, fun _ => trivial⟩ ?_ h
    intro s step s' hs hstep
    obtain ⟨hok, hpayload, hsnaps⟩ := hs
    obtain ⟨q, a⟩ := step
    have hmove := hok.step_move hstep
    refine ⟨hok.step hstep, ?_, hmove.snaps hpayload hsnaps⟩
    cases hmove.handover with
    | keep a s' hrows hquiet hlaunched => rw [hrows, hpayload]
    | invoke key outcome s' cycles snap batch hphase hopen hrows hphase' => rw [hrows, hpayload]
    | settle now rejected s' l outcome result hlaunched hrecorded hrunning hrows =>
        rw [hrows, RunRows.append_run, RunRows.write_run, hpayload]
    | tick now s' cycles ops hphase hlimit hphase' heffect => rw [tick_payload heffect, hpayload]
    | resumed now s' token key hphase hphase' hfind hwaiting hsuspended hrows =>
        rw [hrows]
        simpa [resumed] using hpayload
  exact hall.2.2 p

/-- **What is launched is in the graph.** -/
theorem all_in_graph {tr : List (P × Action Value)}
    (h : Trace.run (Sys.step env) (Sys.start P env now) tr = some s) (p : P) :
    ∀ e ∈ (s.procs p).phase.launched, e.1.key ∈ env.graph.nodeKeys := by
  have hall : SysOk env s ∧
      ∀ p, ∀ e ∈ (s.procs p).phase.launched, e.1.key ∈ env.graph.nodeKeys := by
    refine Trace.run_invariant (P := fun s => SysOk env s ∧
        ∀ p, ∀ e ∈ (s.procs p).phase.launched, e.1.key ∈ env.graph.nodeKeys)
      ⟨start_ok env now, fun _ _ he => nomatch he⟩ ?_ h
    intro s step s' hs hstep
    obtain ⟨hok, hlaunched⟩ := hs
    obtain ⟨p, a⟩ := step
    have hmove := hok.step_move hstep
    refine ⟨hok.step hstep, fun q => ?_⟩
    by_cases hq : q = p
    swap
    · rw [hmove.procs_ne hq]
      exact hlaunched q
    subst hq
    have hbefore := hlaunched q
    cases hmove.handover with
    | keep a s' hrows hquiet hsub => exact fun e he => hbefore e (hsub.subset he)
    | invoke key outcome s' cycles snap batch hphase hopen hrows hphase' =>
        rw [hphase] at hbefore
        rw [hphase']
        intro e he
        have hkey : e.1.key ∈ (invokeIn env snap key outcome batch).map fun e => e.1.key :=
          List.mem_map_of_mem he
        rw [invokeIn_keys] at hkey
        obtain ⟨e', he', heq⟩ := List.mem_map.mp hkey
        rw [← heq]
        exact hbefore e' he'
    | settle now rejected s' l outcome result hhead hrecorded hrunning hrows =>
        rw [hhead] at hbefore
        exact fun e he => hbefore e (List.mem_cons_of_mem _ he)
    | tick now s' cycles ops hphase hlimit hphase' heffect =>
        rw [hphase']
        intro e he
        obtain ⟨k, hk, rfl⟩ := List.mem_map.mp he
        exact (mem_ready.mp hk).1
    | resumed now s' token key hphase hphase' hfind hwaiting hsuspended hrows =>
        rw [hphase']
        intro e he
        rw [List.mem_singleton.mp he]
        exact (waitingNode_mem hfind).1
  exact hall.2 p

end Steps

end Orqent
