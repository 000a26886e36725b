/-
The run's status and the queue's view of it.

A run that is `PENDING` or `RUNNING` should have exactly one outstanding task, and
one that rests should have none.  The tick that parks or concludes a run closes its
task in the same transaction, and creation and resume enqueue one in theirs; but a
tick can also take a run from `SUSPENDED` back to `RUNNING`, when a node turns out to
be ready after it parked, and that one enqueues nothing.

`agree_step` says that this is the only step by which the two come to disagree, so
`status_and_queue_agree_iff` is about every run of the system.  What makes the
worker's release harmless is that a task is done with from the moment its worker
sees the run at rest (`ParkOk.tasks`).
-/
import Orqent.Runtime.Steps
import Orqent.Service.Progress

namespace Orqent

open Scheduler

variable {P Value : Type} {env : Env Value} {s s' : Sys P Value} {p q : P} {a : Action Value}
  {now : Time}

/-- One outstanding task while the run can move, none while it rests. -/
def Agree (env : Env Value) (s : Sys P Value) : Prop :=
  s.queue.pending env.runId = if s.rows.run.status.isResting then 0 else 1

/-- The advance sees, or has seen, the run at rest. -/
def Phase.atRest : Phase Value → Prop
  | .ticking _ snap => snap.run.status.isResting = true
  | .returned _ => True
  | _ => False

/-- The action applies a tick to a suspended run in which some node is ready. -/
def Unparks (env : Env Value) (s : Sys P Value) : P × Action Value → Prop
  | (p, .commitTick _) =>
      s.rows.run.status = .suspended ∧ readyKeys (snapshot env.graph s.rows) ≠ [] ∧
        ∃ cycles < env.graph.length + 1, (s.procs p).phase = .ticking cycles s.rows
  | _ => False

/-- What the agreement rests on. -/
structure ParkOk (env : Env Value) (s : Sys P Value) : Prop where
  agree : Agree env s
  rows : QueueTable.Rows env.runId s.queue
  /-- Only a tick that passed its fan-in check has moved the run. -/
  fanIn : s.rows.run.status ≠ .pending → env.graph.SingleFanIn
  /-- A worker that sees the run at rest holds a task that is done with. -/
  tasks : ∀ p id, (s.procs p).task = some id →
    id < s.queue.length ∧ ((s.procs p).phase.atRest → QueueTable.Done id s.queue)

/-! ### What a step does to the queue -/

theorem Agree.none (h : Agree env s) (hrest : s.rows.run.status.isResting = true) :
    s.queue.pending env.runId = 0 := by
  unfold Agree at h
  rw [if_pos hrest] at h
  exact h

theorem Effect.evolves {queue : QueueTable P} {rows' : RunRows Value} {ops : List QueueOp}
    (hq : QueueTable.Rows env.runId queue) (h : Effect env.graph s.rows (.tick now) rows' ops) :
    QueueTable.Evolves env.runId queue (ops.foldl (QueueOp.apply env.runId now) queue) := by
  cases h with
  | tick now hfan hstatus => exact hq.evolves_refl
  | conclude now target hfan hstatus hne hlegal =>
      unfold conclusionOps
      split
      · exact hq.evolves_map QueueTable.finish_updates
      · exact hq.evolves_refl
  | settle t now key result rejected ht hkey hrunning hstorable => exact hq.evolves_refl

/-- A tick that does not take the run out of `SUSPENDED` keeps the agreement. -/
theorem Effect.agree (hok : RunOk env.graph s.rows) (h : Agree env s) {rows' : RunRows Value}
    {ops : List QueueOp} (he : Effect env.graph s.rows (.tick now) rows' ops)
    (hparked : s.rows.run.status = .suspended → readyKeys (snapshot env.graph s.rows) = []) :
    Agree env { s with
      rows := rows', queue := ops.foldl (QueueOp.apply env.runId now) s.queue } := by
  cases he with
  | tick now hfan hstatus =>
      unfold Agree
      simp only [ticked_run, List.foldl_nil]
      exact h
  | conclude now target hfan hstatus hne hlegal =>
      unfold Agree
      rw [conclusionOps]
      simp only [concluded_status]
      by_cases hrest : target.isResting = true
      · rw [if_pos hrest, if_pos hrest]
        exact QueueTable.pending_finishOutstanding
      · rw [if_neg hrest, if_neg hrest]
        -- The run is concluded `RUNNING`, so it was `PENDING`.
        have hactive : s.rows.run.status.isResting = false := by
          by_contra hc
          have hresting : s.rows.run.status.isResting = true := by simpa using hc
          cases hst : s.rows.run.status with
          | pending => simp [hst, RunStatus.isResting] at hresting; cases hresting
          | running => simp [hst, RunStatus.isResting] at hresting; cases hresting
          | completed => simp [hst, RunStatus.transitions] at hlegal
          | failed => simp [hst, RunStatus.transitions] at hlegal
          | suspended =>
              have hready := hparked hst
              have hrunning : target = .running := by
                simpa [hst, RunStatus.transitions] using hlegal
              rw [hrunning, conclusion_running_iff] at hstatus
              rcases hstatus with hc | hc
              · exact hc hready
              · obtain ⟨k, hk, hrun⟩ := someNode_snapshot.mp hc
                exact hok.resting hresting k hk hrun
        unfold Agree at h
        rw [hactive] at h
        exact h
  | settle t now key result rejected ht hkey hrunning hstorable =>
      rcases ht with ht | ⟨ht, -⟩ <;> simp at ht

section Moves

variable [DecidableEq P] [DecidableEq Value]

set_option linter.unusedSectionVars false

theorem Move.evolves (hq : QueueTable.Rows env.runId s.queue) (h : Move env s p a s') :
    QueueTable.Evolves env.runId s.queue s'.queue := by
  cases h with
  | claim clock leaseSeconds locked task queue hphase hclaim =>
      obtain ⟨-, f, hf, -, rfl⟩ := QueueTable.claim_cases hclaim
      exact hq.evolves_map hf
  | tick now cycles rows ops hphase hlimit hsome heffect => exact heffect.evolves hq
  | resumed now token key hphase hfind hwaiting hsuspended => exact hq.evolves_enqueue now
  | extend expiresAt id htask =>
      exact hq.evolves_map (QueueTable.own_updates fun t => ⟨rfl, rfl⟩)
  | requeue runAfter id htask =>
      exact hq.evolves_map (QueueTable.own_updates fun t => ⟨rfl, rfl⟩)
  | release id status hphase htask =>
      exact hq.evolves_map (QueueTable.own_updates fun t => ⟨rfl, rfl⟩)
  | _ => exact hq.evolves_refl

/-! ### What a step keeps -/

/-- The task of the process that moved: the one it had, or one it has just claimed. -/
theorem Move.task (h : Move env s p a s') {id : Nat} (htask : (s'.procs p).task = some id) :
    (s.procs p).task = some id ∨
      (∃ t ∈ s.queue, t.id = id) ∧ (s'.procs p).phase = .advancing 0 := by
  cases h with
  | claim clock leaseSeconds locked task queue hphase hclaim =>
      simp only [Function.update_self] at htask ⊢
      exact Or.inr ⟨⟨task, (QueueTable.claim_cases hclaim).1, Option.some.inj htask⟩, trivial⟩
  | extend expiresAt id' htask' =>
      simp only [Function.update_self] at htask
      exact Or.inl htask
  | requeue runAfter id' htask' =>
      rw [show (_ : Sys P Value).procs p = Process.idle from Sys.raised_self] at htask
      exact nomatch htask
  | release id' status hphase htask' =>
      rw [show (_ : Sys P Value).procs p = Process.idle from Sys.raised_self] at htask
      exact nomatch htask
  | raised a hnot =>
      rw [Sys.raised_self] at htask
      exact nomatch htask
  | _ =>
      rw [Sys.moved_self] at htask
      exact Or.inl htask

/-- A process comes to see the run at rest by reading rows at rest, and returns no other. -/
theorem Move.atRest (h : Move env s p a s') (hok : SysOk env s) (hacyclic : env.graph.Acyclic)
    (hne : env.graph.nodeKeys ≠ []) (hrest : (s'.procs p).phase.atRest) :
    (s.procs p).phase.atRest ∨ s.rows.run.status.isResting = true := by
  cases h with
  | beginTick cycles hphase =>
      rw [Sys.moved_self] at hrest
      exact Or.inr hrest
  | quietTick now cycles snap hphase hfan hnone =>
      have hsnap := (hok.snaps p snap (by rw [hphase]; rfl)).1
      rw [hphase]
      exact Or.inl (hsnap.quiet_tick_settled hacyclic hne hnone)
  | claim clock leaseSeconds locked task queue hphase hclaim =>
      simp only [Function.update_self] at hrest
      exact hrest.elim
  | extend expiresAt id htask =>
      simp only [Function.update_self] at hrest
      exact Or.inl hrest
  | requeue runAfter id htask =>
      rw [show (_ : Sys P Value).procs p = Process.idle from Sys.raised_self] at hrest
      exact hrest.elim
  | release id status hphase htask =>
      rw [show (_ : Sys P Value).procs p = Process.idle from Sys.raised_self] at hrest
      exact hrest.elim
  | raised a hnot =>
      rw [Sys.raised_self] at hrest
      exact hrest.elim
  | _ =>
      rw [Sys.moved_self] at hrest
      exact hrest.elim

theorem Move.fanIn (h : Move env s p a s')
    (hbefore : s.rows.run.status ≠ .pending → env.graph.SingleFanIn)
    (hmoved : s'.rows.run.status ≠ .pending) : env.graph.SingleFanIn := by
  cases h with
  | tick now cycles rows ops hphase hlimit hsome heffect =>
      cases heffect with
      | tick now hfan hstatus => exact hfan
      | conclude now target hfan hstatus hne hlegal => exact hfan
      | settle t now key result rejected ht hkey hrunning hstorable =>
          rcases ht with ht | ⟨ht, -⟩ <;> exact nomatch ht
  | resumed now token key hphase hfind hwaiting hsuspended =>
      refine hbefore ?_
      rw [hsuspended]
      decide
  | _ => exact hbefore hmoved

/-- **What the agreement rests on is kept with it.** -/
theorem ParkOk.step (h : ParkOk env s) (hok : SysOk env s) (hacyclic : env.graph.Acyclic)
    (hne : env.graph.nodeKeys ≠ []) (hmove : Move env s p a s') (hagree : Agree env s') :
    ParkOk env s' := by
  have hq := hmove.evolves h.rows
  refine ⟨hagree, hq.rows, hmove.fanIn h.fanIn, fun q id htask => ?_⟩
  by_cases hqp : q = p
  swap
  · rw [hmove.procs_ne hqp] at htask ⊢
    obtain ⟨hlt, hdone⟩ := h.tasks q id htask
    exact ⟨hlt.trans_le hq.length_le, fun hrest => hq.done id hlt (hdone hrest)⟩
  subst hqp
  rcases hmove.task htask with hbefore | ⟨⟨t, ht, rfl⟩, hphase⟩
  · obtain ⟨hlt, hdone⟩ := h.tasks q id hbefore
    refine ⟨hlt.trans_le hq.length_le, fun hrest => hq.done id hlt ?_⟩
    rcases hmove.atRest hok hacyclic hne hrest with hrest | hrest
    · exact hdone hrest
    · exact h.rows.done (h.agree.none hrest)
  · refine ⟨(h.rows.id_lt t ht).trans_le hq.length_le, fun hrest => ?_⟩
    rw [hphase] at hrest
    exact hrest.elim

/-- **The status and the queue come apart in one way**: a tick takes a suspended run back. -/
theorem ParkOk.agree_step (h : ParkOk env s) (hok : SysOk env s)
    (hstep : s.step env (p, a) = some s') : Agree env s' ↔ ¬ Unparks env s (p, a) := by
  have hmove := hok.step_move hstep
  constructor
  · intro hagree hunparks
    cases a with
    | commitTick now =>
        obtain ⟨hsus, hready, cycles, hlimit, hphase⟩ := hunparks
        have hfan : env.graph.SingleFanIn := h.fanIn (by rw [hsus]; decide)
        have hsome : decisions (snapshot env.graph s.rows) ≠ [] := fun hc =>
          hready (decisions_eq_nil_iff.mp hc).2.2.1
        have hconc : conclusion (snapshot env.graph s.rows) = some .running :=
          conclusion_running_iff.mpr (Or.inl hready)
        have hbody : tickBody env.graph now s.rows = .ok
            ((ticked env.graph now s.rows).concluded now .running, []) := by
          rw [tickBody_eq env.graph now s.rows hfan, hconc, hsus]
          rfl
        unfold Sys.step at hstep
        simp only [hphase] at hstep
        rw [commitTick_fresh hok.rows hlimit hsome hbody] at hstep
        obtain rfl := Option.some.inj hstep
        unfold Agree at hagree
        simp only [Sys.moved_queue, Sys.moved_rows, concluded_status, List.foldl_nil] at hagree
        have hnone : s.queue.pending env.runId = 0 := h.agree.none (by rw [hsus]; decide)
        rw [hnone] at hagree
        cases hagree
    | _ => exact hunparks
  · intro hunparks
    have hagree := h.agree
    cases hmove with
    | claim clock leaseSeconds locked task queue hphase hclaim =>
        obtain ⟨-, f, -, hkey, rfl⟩ := QueueTable.claim_cases hclaim
        exact (QueueTable.pending_map hkey).trans hagree
    | tick now cycles rows ops hphase hlimit hsome heffect =>
        refine heffect.agree hok.rows hagree fun hsus => ?_
        by_contra hready
        exact hunparks ⟨hsus, hready, cycles, hlimit, hphase⟩
    | resumed now token key hphase hfind hwaiting hsuspended =>
        have hnone : s.queue.pending env.runId = 0 := hagree.none (by rw [hsuspended]; decide)
        have hactive : (resumed now key s.rows).run.status.isResting = false := by
          rw [resumed_status]
          decide
        show QueueTable.pending env.runId (s.queue.enqueue env.runId now) = if _ then 0 else 1
        simp only [Sys.moved_rows, hactive]
        exact QueueTable.pending_enqueue hnone now
    | settle now rejected cycles l outcome result todo failed hphase hrecorded hkey hrunning
        hstorable => exact hagree
    | extend expiresAt id htask =>
        exact (QueueTable.pending_extend expiresAt).trans hagree
    | requeue runAfter id htask =>
        exact (QueueTable.pending_requeue runAfter).trans hagree
    | release id status hphase htask =>
        -- The advance has returned, so its task was done with already.
        have hdone := (h.tasks p id htask).2 (by rw [hphase]; trivial)
        have hsame : (s.queue.release p id).2 = s.queue := hdone.own _
        exact (congrArg (QueueTable.pending env.runId) hsame).trans hagree
    | _ => exact hagree

theorem start_parkOk (env : Env Value) (now : Time) : ParkOk env (Sys.start P env now) where
  agree := by
    show QueueTable.pending env.runId (QueueTable.enqueue env.runId now []) = 1
    exact QueueTable.pending_enqueue rfl now
  rows := QueueTable.Rows.enqueue (q := []) ⟨by simp, by simp⟩ now
  fanIn := fun h => absurd rfl h
  tasks := by
    intro p id h
    exact nomatch h

/--
**The run's status and the queue agree, in exactly the runs in which no tick takes a
suspended run back.**  For a graph that `publish` accepts, every committed state
passed through has one outstanding task while the run is `PENDING` or `RUNNING` and
none otherwise, if and only if no step of the run `Unparks` it.
-/
theorem status_and_queue_agree_iff {registry : NodeRegistry Value} {tr : List (P × Action Value)}
    (hvalid : (validateGraph env.graph registry).isValid = true)
    (h : Trace.run (Sys.step env) (Sys.start P env now) tr = some s) :
    Trace.Visits (Sys.step env) (Agree env) (Sys.start P env now) tr ↔
      Trace.Along (Sys.step env) (fun s a => ¬ Unparks env s a) (Sys.start P env now) tr := by
  have hacyclic := acyclic_of_valid hvalid
  have hne := nodeKeys_ne_nil_of_valid hvalid
  -- Every run is in the domain: the graph is the only thing asked of it.
  have heverywhere : Trace.Along (Sys.step env) (fun _ _ => True) (Sys.start P env now) tr :=
    fun _ _ _ _ _ _ => trivial
  refine Trace.visits_iff_along (start_parkOk env now) (fun s hpark => hpark.agree) ?_ ?_ h
    heverywhere
  · intro tr s step s' hrun hpark _ hc hstep
    obtain ⟨p, a⟩ := step
    have hok : SysOk env s := sys_ok hrun
    have hagree : Agree env s' := (hpark.agree_step hok hstep).mpr hc
    exact hpark.step hok hacyclic hne (hok.step_move hstep) hagree
  · intro tr s step s' hrun hpark _ hstep hagree
    obtain ⟨p, a⟩ := step
    exact (hpark.agree_step (sys_ok hrun) hstep).mp hagree

end Moves

/-! ### The rejoining branch, driven by a worker -/

/-- A run of the graph whose branches join again. -/
def rejoinEnv : Env Unit where
  graph := rejoinGraph
  registry := rejoinRegistry
  runId := 7
  organizationPublicId := "org"
  workflowNodeId := rejoinGraph.nodeKeys.idxOf
  workflowNodeId_inj := fun _ hk _ _ => (List.idxOf_inj hk).mp
  triggerPayload := none

/-- One cycle of an advance, whose batch ends with these outcomes. -/
def cycle {Value : Type} (outcomes : List (NodeKey × RunnerOutcome Value)) : List (Action Value) :=
  [.beginTick, .commitTick 0] ++ outcomes.map (fun o => .invoke o.1 o.2) ++ [.gather] ++
    outcomes.flatMap (fun _ => [.beginSettle, .commitSettle 0 false]) ++ [.beginSettle]

/-- A worker claims the run; `condition` takes its `true` side, and `other` ends as `result`. -/
def rejoinDrive (result : NodeResult Unit) : List (Action Unit) :=
  [.claim 0 10 []] ++ cycle [("trigger", .returned (.completed [("main", ())]))] ++
    cycle [("condition", .returned (.completed [("true", ())])), ("other", .returned result)] ++
    cycle []

theorem rejoinDrive_runs : (Trace.run (Sys.step rejoinEnv) (Sys.start Bool rejoinEnv 0)
    ((rejoinDrive (.completed [])).map (true, ·))).isSome = true := by
  decide +kernel

/-- The condition on an advance in which `other` ends well. -/
theorem rejoin_agrees :
    Trace.Visits (Sys.step rejoinEnv) (Agree rejoinEnv) (Sys.start Bool rejoinEnv 0)
        ((rejoinDrive (.completed [])).map (true, ·)) ↔
      Trace.Along (Sys.step rejoinEnv) (fun s a => ¬ Unparks rejoinEnv s a)
        (Sys.start Bool rejoinEnv 0) ((rejoinDrive (.completed [])).map (true, ·)) := by
  obtain ⟨s, hrun⟩ := Option.isSome_iff_exists.mp rejoinDrive_runs
  exact status_and_queue_agree_iff rejoinGraph_valid hrun

/--
`other` suspends, and the tick that prunes `side` parks the run and closes its task.
The next one finds `merge` ready: the run is `RUNNING` with nothing in the queue.
-/
theorem rejoin_runs_unqueued : (validateGraph rejoinEnv.graph rejoinRegistry).isValid = true ∧
    ∃ s, Trace.run (Sys.step rejoinEnv) (Sys.start Bool rejoinEnv 0)
        ((rejoinDrive (.suspended "token" none) ++ [Action.beginTick, .commitTick 0]).map (true, ·))
        = some s ∧
      s.rows.run.status = .running ∧ s.queue.pending rejoinEnv.runId = 0 ∧
      ¬ Agree rejoinEnv s := by
  have heval : (Trace.run (Sys.step rejoinEnv) (Sys.start Bool rejoinEnv 0)
      ((rejoinDrive (.suspended "token" none) ++ [Action.beginTick, .commitTick 0]).map
        (true, ·))).map (fun s => (s.rows.run.status, s.queue.pending rejoinEnv.runId))
      = some (.running, 0) := by
    decide +kernel
  obtain ⟨s, hrun, hvalues⟩ := Option.map_eq_some_iff.mp heval
  obtain ⟨hstatus, hpending⟩ := Prod.mk.inj hvalues
  refine ⟨rejoinGraph_valid, s, hrun, hstatus, hpending, ?_⟩
  unfold Agree
  rw [hpending, hstatus]
  decide

end Orqent
