/-
Who invokes a node.

A tick takes every `RUNNING` row for the work of a process that died.  That is right
as long as no tick is applied while a live process still has a launch in hand; but an
HTTP advance takes no lease, and a resume hands its run to the workers in the very
commit that marks the node `RUNNING`.

`Overlaps` is the condition, on the state the tick is applied in.  While it does not
happen, at most one process has anything in hand, what it has in hand is `RUNNING`,
and the rows it read to record an outcome are still the committed ones
(`ExclusionOk`).  `faithful_iff` says that this is also necessary.
-/
import Orqent.Runtime.Launches
import Orqent.Runtime.Parking

namespace Orqent

open Scheduler

variable {P Value : Type} {env : Env Value} {s s' : Sys P Value} {p q : P} {a : Action Value}
  {now : Time} {key : NodeKey}

/-! ### The property and the condition -/

/-- The outcome of a resumed node that this action is about to record. -/
def recordsResumed (s : Sys P Value) : P × Action Value → Option (NodeKey × NodeResult Value)
  | (p, .commitSettle _ _) =>
      match (s.procs p).phase with
      | .recording _ _ ⟨key, _, some _⟩ (.returned result) _ _ => some (key, result)
      | _ => none
  | _ => none

/-- The node this action invokes. -/
def invokes : P × Action Value → Option NodeKey
  | (_, .invoke key _) => some key
  | _ => none

/-- What a step must not do to a live invocation. -/
structure Faithful (env : Env Value) (s s' : Sys P Value) (a : P × Action Value) : Prop where
  /-- No node is recovered while a process has it in hand. -/
  recovers : ∀ key, .recoverNode key ∈ applied env s s' a → ∀ q, key ∉ (s.procs q).phase.held
  /-- A node is invoked by the one process that has it in hand, once. -/
  invokes : ∀ key, invokes a = some key → ∀ q, key ∈ (s.procs q).phase.held →
    q = a.1 ∧ (s.procs q).phase.held.count key = 1
  /-- The outcome of a resumed node is recorded. -/
  records : ∀ key result, recordsResumed s a = some (key, result) →
    ∃ now, s'.rows.executions key = settledExecution now (s.rows.executions key) result

/-- The action applies a tick while some process has a launch in hand. -/
def Overlaps (env : Env Value) (s : Sys P Value) : P × Action Value → Prop
  | (p, .commitTick _) =>
      (∃ cycles < env.graph.length + 1, (s.procs p).phase = .ticking cycles s.rows) ∧
        ∃ q, (s.procs q).phase.held ≠ []
  | _ => False

/-- The action records the outcome of a resumed node, and that outcome cannot be stored. -/
def Unstorable (env : Env Value) (s : Sys P Value) : P × Action Value → Prop
  | (p, .commitSettle now rejected) =>
      ∃ key result, recordsResumed s (p, .commitSettle now rejected) = some (key, result) ∧
        ¬ Storable env.graph s.rows key rejected result
  | _ => False

/-- What exclusion rests on. -/
structure ExclusionOk (env : Env Value) (s : Sys P Value) : Prop where
  running : ∀ p, ∀ key ∈ (s.procs p).phase.held,
    key ∈ env.graph.nodeKeys ∧ (s.rows.executions key).status = .running
  alone : ∀ p q, (s.procs p).phase.held ≠ [] → (s.procs q).phase.held ≠ [] → p = q
  nodup : ∀ p, (s.procs p).phase.held.Nodup
  /-- Nothing was committed since the rows were read that an outcome is recorded on. -/
  fresh : ∀ p cycles snap l outcome todo failed,
    (s.procs p).phase = .recording cycles snap l outcome todo failed →
      outcome.recorded.isSome = true ∧ snap = s.rows
  /-- Only a tick that passed its fan-in check has moved the run. -/
  fanIn : s.rows.run.status ≠ .pending → env.graph.SingleFanIn

/-! ### Exclusion is kept while nothing overlaps -/

section Steps

variable [DecidableEq P] [DecidableEq Value]

set_option linter.unusedSectionVars false

/-- A resting run has nothing running, so nothing is in hand. -/
theorem ExclusionOk.held_of_resting (h : ExclusionOk env s) (hok : SysOk env s)
    (hrest : s.rows.run.status.isResting = true) (q : P) : (s.procs q).phase.held = [] := by
  by_contra hne
  obtain ⟨k, hk⟩ := List.exists_mem_of_ne_nil _ hne
  obtain ⟨hmem, hrunning⟩ := h.running q k hk
  exact hok.rows.resting hrest k hmem hrunning

/-- While another process has something in hand, no row changes. -/
theorem ExclusionOk.rows_of_other (h : ExclusionOk env s) (hok : SysOk env s)
    (hmove : Move env s p a s') (hfree : ¬ Overlaps env s (p, a)) (hq : q ≠ p)
    (hheld : (s.procs q).phase.held ≠ []) : s'.rows = s.rows := by
  cases hmove.handover with
  | keep a s' hrows hquiet hlaunched => exact hrows
  | invoke key outcome s' cycles snap batch hphase hopen hrows hphase' => exact hrows
  | settle now rejected s' l outcome result hlaunched hrecorded hrunning hrows =>
      have hp := held_of_recorded hlaunched (by rw [hrecorded]; rfl)
      exact absurd (h.alone q p hheld (by simp [hp])) hq
  | tick now s' cycles ops hphase hlimit hphase' heffect =>
      exact absurd ⟨⟨cycles, hlimit, hphase⟩, q, hheld⟩ hfree
  | resumed now s' token key hphase hphase' hfind hwaiting hsuspended hrows =>
      exact absurd (h.held_of_resting hok (by rw [hsuspended]; decide) q) hheld

/-- What the process that moved has in hand: less than before, or what it has just started
while nobody else had anything. -/
theorem ExclusionOk.held_step (h : ExclusionOk env s) (hok : SysOk env s)
    (hmove : Move env s p a s') (hfree : ¬ Overlaps env s (p, a)) :
    ((s'.procs p).phase.held.Sublist (s.procs p).phase.held ∨
        (s'.procs p).phase.held.Nodup ∧ ∀ q, (s.procs q).phase.held = []) ∧
      ∀ key ∈ (s'.procs p).phase.held,
        key ∈ env.graph.nodeKeys ∧ (s'.rows.executions key).status = .running := by
  cases hmove.handover with
  | keep a s' hrows hquiet hlaunched =>
      have hsub := held_subset_of_sublist hlaunched
      refine ⟨Or.inl hsub, fun key hkey => ?_⟩
      rw [hrows]
      exact h.running p key (hsub.subset hkey)
  | invoke key outcome s' cycles snap batch hphase hopen hrows hphase' =>
      have hsub : (s'.procs p).phase.held.Sublist (s.procs p).phase.held := by
        rw [hphase, hphase']
        exact invokeIn_held snap key outcome cycles batch
      refine ⟨Or.inl hsub, fun k hk => ?_⟩
      rw [hrows]
      exact h.running p k (hsub.subset hk)
  | settle now rejected s' l outcome result hlaunched hrecorded hrunning hrows =>
      have hp := held_of_recorded hlaunched (by rw [hrecorded]; rfl)
      have hnodup := h.nodup p
      rw [hp, List.nodup_cons] at hnodup
      refine ⟨Or.inl (hp ▸ List.sublist_cons_self _ _), fun k hk => ?_⟩
      have hne : k ≠ l.key := fun hc => hnodup.1 (hc ▸ hk)
      rw [hrows, RunRows.append_executions, RunRows.write_ne _ _ hne]
      exact h.running p k (hp ▸ List.mem_cons_of_mem _ hk)
  | tick now s' cycles ops hphase hlimit hphase' heffect =>
      have hnone : ∀ q, (s.procs q).phase.held = [] := by
        intro q
        by_contra hne
        exact hfree ⟨⟨cycles, hlimit, hphase⟩, q, hne⟩
      have hheld : (s'.procs p).phase.held = readyKeys (snapshot env.graph s.rows) := by
        rw [hphase']
        exact held_of_started _ _ fun _ => rfl
      rw [hheld]
      refine ⟨Or.inr ⟨env.graph.keys_nodup.filter _, hnone⟩, fun k hk => ⟨(mem_ready.mp hk).1, ?_⟩⟩
      rw [heffect.tick_executions, ticked_ready _ hk]
      rfl
  | resumed now s' token key hphase hphase' hfind hwaiting hsuspended hrows =>
      have hnone := h.held_of_resting hok (by rw [hsuspended]; decide)
      have hheld : (s'.procs p).phase.held = [key] := by
        rw [hphase']
        rfl
      rw [hheld]
      refine ⟨Or.inr ⟨List.nodup_singleton _, hnone⟩, fun k hk => ?_⟩
      obtain rfl := List.mem_singleton.mp hk
      rw [hrows, resumed_self]
      exact ⟨(waitingNode_mem hfind).1, rfl⟩

/-- **Exclusion is kept by every step that does not overlap.** -/
theorem ExclusionOk.step (h : ExclusionOk env s) (hok : SysOk env s) (hmove : Move env s p a s')
    (hfree : ¬ Overlaps env s (p, a)) : ExclusionOk env s' := by
  obtain ⟨hheld, hrunning⟩ := h.held_step hok hmove hfree
  have hother : ∀ q, q ≠ p → (s'.procs q).phase.held = (s.procs q).phase.held := by
    intro q hq
    rw [hmove.procs_ne hq]
  refine ⟨?_, ?_, ?_, ?_, hmove.fanIn h.fanIn⟩
  · intro q key hkey
    by_cases hq : q = p
    · exact hrunning key (hq ▸ hkey)
    · rw [hother q hq] at hkey
      rw [h.rows_of_other hok hmove hfree hq (List.ne_nil_of_mem hkey)]
      exact h.running q key hkey
  · -- Whoever else has something in hand had it before, so the mover has only kept some.
    have hmover : ∀ q, q ≠ p → (s'.procs p).phase.held ≠ [] → (s'.procs q).phase.held = [] := by
      intro q hq hp
      rw [hother q hq]
      rcases hheld with hsub | ⟨-, hnone⟩
      · by_contra hne
        refine hq (h.alone q p hne fun hc => hp ?_)
        rw [hc] at hsub
        exact List.sublist_nil.mp hsub
      · exact hnone q
    intro q r hq hr
    by_cases hqp : q = p <;> by_cases hrp : r = p
    · rw [hqp, hrp]
    · exact absurd (hmover r hrp (hqp ▸ hq)) hr
    · exact absurd (hmover q hqp (hrp ▸ hr)) hq
    · rw [hother q hqp] at hq
      rw [hother r hrp] at hr
      exact h.alone q r hq hr
  · intro q
    by_cases hq : q = p
    · subst hq
      rcases hheld with hsub | ⟨hnodup, -⟩
      · exact hsub.nodup (h.nodup q)
      · exact hnodup
    · rw [hother q hq]
      exact h.nodup q
  · intro q cycles snap l outcome todo failed hphase
    by_cases hq : q = p
    · subst hq
      obtain ⟨hrows, hbefore | hopened⟩ := hmove.recording hphase
      · rw [hrows]
        exact h.fresh q cycles snap l outcome todo failed hbefore
      · rw [hrows]
        exact hopened
    · rw [hmove.procs_ne hq] at hphase
      obtain ⟨hrecorded, hsnap⟩ := h.fresh q cycles snap l outcome todo failed hphase
      have hne : (s.procs q).phase.held ≠ [] := by
        rw [hphase]
        cases outcome with
        | refused => exact List.cons_ne_nil _ _
        | returned result => exact List.cons_ne_nil _ _
        | escaped error => exact nomatch hrecorded
      rw [h.rows_of_other hok hmove hfree hq hne]
      exact ⟨hrecorded, hsnap⟩

/-! ### What overlapping does -/

/-- A tick on the committed rows, while something is in hand, recovers it. -/
theorem ExclusionOk.overlap_recovers (h : ExclusionOk env s) (hok : SysOk env s)
    (hstep : s.step env (p, a) = some s') (hover : Overlaps env s (p, a)) :
    ∃ key, .recoverNode key ∈ applied env s s' (p, a) ∧ ∃ q, key ∈ (s.procs q).phase.held := by
  cases a with
  | commitTick now =>
      obtain ⟨⟨cycles, hlimit, hphase⟩, q, hne⟩ := hover
      obtain ⟨k, hk⟩ := List.exists_mem_of_ne_nil _ hne
      obtain ⟨hmem, hrunning⟩ := h.running q k hk
      have hstranded : k ∈ strandedKeys (snapshot env.graph s.rows) :=
        mem_stranded.mpr ⟨hmem, hrunning⟩
      have hstatus : s.rows.run.status = .running := by
        have hactive : s.rows.run.status.isResting ≠ true :=
          fun hc => hne (h.held_of_resting hok hc q)
        cases hst : s.rows.run.status with
        | pending =>
            have hpending := hok.rows.untouched hst k hmem
            rw [hrunning] at hpending
            exact nomatch hpending
        | running => rfl
        | suspended => exact absurd (by rw [hst]; decide) hactive
        | completed => exact absurd (by rw [hst]; decide) hactive
        | failed => exact absurd (by rw [hst]; decide) hactive
      have hfan : env.graph.SingleFanIn := h.fanIn (by rw [hstatus]; decide)
      have hconc : conclusion (snapshot env.graph s.rows) = some .running :=
        conclusion_running_iff.mpr (Or.inr (someNode_snapshot.mpr ⟨k, hmem, hrunning⟩))
      have hsome : decisions (snapshot env.graph s.rows) ≠ [] := by
        intro hc
        rw [(decisions_eq_nil_iff.mp hc).1] at hstranded
        exact nomatch hstranded
      have hbody : tickBody env.graph now s.rows = .ok (ticked env.graph now s.rows, []) := by
        rw [tickBody_eq env.graph now s.rows hfan, hconc, hstatus]
        rfl
      unfold Sys.step at hstep
      simp only [hphase] at hstep
      rw [commitTick_fresh hok.rows hlimit hsome hbody] at hstep
      obtain rfl := Option.some.inj hstep
      refine ⟨k, ?_, q, hk⟩
      unfold applied
      simp only [hphase, Sys.moved_self]
      exact recoverNode_mem.mpr hstranded
  | _ => exact hover.elim

/-- What it is to be about to record the outcome of a resumed node. -/
theorem ExclusionOk.of_recordsResumed (h : ExclusionOk env s) {rejected : Bool}
    {result : NodeResult Value}
    (hfind : recordsResumed s (p, .commitSettle now rejected) = some (key, result)) :
    key ∈ env.graph.nodeKeys ∧ (s.rows.executions key).status = .running ∧
      ∃ cycles l todo failed, l.key = key ∧
        (s.procs p).phase = .recording cycles s.rows l (.returned result) todo failed := by
  rw [recordsResumed] at hfind
  split at hfind
  · rename_i cycles snap key' attempt token result' todo failed hphase
    obtain ⟨rfl, rfl⟩ := Prod.mk.inj (Option.some.inj hfind)
    obtain ⟨-, rfl⟩ := h.fresh p _ _ _ _ _ _ hphase
    obtain ⟨hmem, hrunning⟩ := h.running p key' (by rw [hphase]; exact List.mem_cons_self)
    exact ⟨hmem, hrunning, cycles, _, todo, failed, rfl, hphase⟩
  · exact nomatch hfind

/-- The outcome of a resumed node is recorded if and only if it can be stored. -/
theorem ExclusionOk.records_iff (h : ExclusionOk env s) (hok : SysOk env s)
    (hstep : s.step env (p, a) = some s') :
    (∀ key result, recordsResumed s (p, a) = some (key, result) →
      ∃ now, s'.rows.executions key = settledExecution now (s.rows.executions key) result) ↔
        ¬ Unstorable env s (p, a) := by
  cases a with
  | commitSettle now rejected =>
      constructor
      · intro hrecords hunstorable
        obtain ⟨key, result, hfind, hstorable⟩ := hunstorable
        obtain ⟨now', hrow⟩ := hrecords key result hfind
        obtain ⟨-, hrunning, cycles, l, todo, failed, rfl, hphase⟩ := h.of_recordsResumed hfind
        unfold Sys.step at hstep
        simp only [hphase] at hstep
        rw [commitSettle_unstorable hstorable] at hstep
        obtain rfl := Option.some.inj hstep
        rw [Sys.raised_rows] at hrow
        rw [hrow] at hrunning
        cases result <;> cases hrunning
      · intro hstorable key result hfind
        have hstorable : Storable env.graph s.rows key rejected result := by
          by_contra hc
          exact hstorable ⟨key, result, hfind, hc⟩
        obtain ⟨hmem, hrunning, cycles, l, todo, failed, rfl, hphase⟩ := h.of_recordsResumed hfind
        unfold Sys.step at hstep
        simp only [hphase] at hstep
        rw [commitSettle_fresh hok.rows hmem hrunning hstorable] at hstep
        obtain rfl := Option.some.inj hstep
        refine ⟨now, ?_⟩
        rw [Sys.moved_rows, RunRows.append_executions, RunRows.write_self]
  | _ => exact iff_of_true (fun key result hc => by cases hc) id

/-- **A step is faithful to the live invocations exactly when it does not overlap them**, and
does not drop the outcome of a resumed one. -/
theorem ExclusionOk.faithful_iff (h : ExclusionOk env s) (hok : SysOk env s)
    (hstep : s.step env (p, a) = some s') :
    Faithful env s s' (p, a) ↔ ¬ Overlaps env s (p, a) ∧ ¬ Unstorable env s (p, a) := by
  constructor
  · intro hfaithful
    refine ⟨fun hover => ?_, (h.records_iff hok hstep).mp hfaithful.records⟩
    obtain ⟨key, hrecover, q, hq⟩ := h.overlap_recovers hok hstep hover
    exact hfaithful.recovers key hrecover q hq
  · intro hc
    obtain ⟨hfree, hstorable⟩ := hc
    refine ⟨?_, ?_, (h.records_iff hok hstep).mpr hstorable⟩
    · intro key hrecover q hq
      cases a with
      | commitTick now =>
          cases hok.step_move hstep with
          | quietTick now cycles snap hphase hfan hnone =>
              simp [applied, hphase] at hrecover
          | tick now cycles rows ops hphase hlimit hsome heffect =>
              exact hfree ⟨⟨cycles, hlimit, hphase⟩, q, List.ne_nil_of_mem hq⟩
          | raised a hnot => simp [applied, Process.idle] at hrecover
      | _ => exact nomatch hrecover
    · intro key hinvokes q hq
      cases a with
      | invoke key' outcome =>
          obtain rfl := Option.some.inj hinvokes
          cases hok.step_move hstep with
          | invoke key outcome cycles snap batch hphase hopen =>
              obtain ⟨l, hl, hkey⟩ := hopen
              have hp : l.key ∈ (s.procs p).phase.held := by
                rw [hphase]
                exact List.mem_map.mpr ⟨(l, none), List.mem_filter.mpr ⟨hl, rfl⟩, rfl⟩
              refine ⟨h.alone q p (List.ne_nil_of_mem hq) (List.ne_nil_of_mem hp), ?_⟩
              exact List.count_eq_one_of_mem (h.nodup q) hq
          | raised a hnot => exact absurd rfl (hnot key' outcome)
      | _ => exact nomatch hinvokes

theorem start_exclusionOk (env : Env Value) (now : Time) :
    ExclusionOk env (Sys.start P env now) where
  running := fun _ _ h => nomatch h
  alone := fun _ _ h => absurd rfl h
  nodup := fun _ => List.nodup_nil
  fresh := fun _ _ _ _ _ _ _ h => nomatch h
  fanIn := fun h => absurd rfl h

/--
**No live invocation is taken for a dead one, in exactly the runs without an overlap.**
In every run of the system every step is faithful (it recovers no node a process has in
hand, invokes none twice, and records the outcome of a resumed one) if and only if no tick
is applied while some process has a launch in hand, and every outcome of a resumed node
can be stored.
-/
theorem live_invocations_iff {tr : List (P × Action Value)}
    (h : Trace.run (Sys.step env) (Sys.start P env now) tr = some s) :
    Trace.Along (Sys.step env) (fun s a => ∀ s', s.step env a = some s' → Faithful env s s' a)
        (Sys.start P env now) tr ↔
      Trace.Along (Sys.step env) (fun s a => ¬ Overlaps env s a ∧ ¬ Unstorable env s a)
        (Sys.start P env now) tr := by
  constructor
  · intro hfaithful
    refine (Trace.along_of_invariant (start_exclusionOk env now) ?_ ?_ h hfaithful).2
    · intro tr s step s' hrun hexclusion hfaithful hstep
      exact (hexclusion.faithful_iff (sys_ok hrun) hstep).mp (hfaithful s' hstep)
    · intro tr s step s' hrun hexclusion hfaithful hstep
      obtain ⟨p, a⟩ := step
      have hok : SysOk env s := sys_ok hrun
      have hfree := (hexclusion.faithful_iff hok hstep).mp (hfaithful s' hstep)
      exact hexclusion.step hok (hok.step_move hstep) hfree.1
  · intro hfree
    refine (Trace.along_of_invariant (start_exclusionOk env now) ?_ ?_ h hfree).2
    · intro tr s step s' hrun hexclusion hfree hstep t ht
      obtain rfl := Option.some.inj (hstep.symm.trans ht)
      exact (hexclusion.faithful_iff (sys_ok hrun) hstep).mpr hfree
    · intro tr s step s' hrun hexclusion hfree hstep
      obtain ⟨p, a⟩ := step
      have hok : SysOk env s := sys_ok hrun
      exact hexclusion.step hok (hok.step_move hstep) hfree.1

end Steps

/-! ### The rejoining branch, resumed -/

/-- The condition on an advance of a single worker. -/
theorem rejoin_faithful :
    Trace.Along (Sys.step rejoinEnv)
        (fun s a => ∀ s', s.step rejoinEnv a = some s' → Faithful rejoinEnv s s' a)
        (Sys.start Bool rejoinEnv 0) ((rejoinDrive (.completed [])).map (true, ·)) ↔
      Trace.Along (Sys.step rejoinEnv)
        (fun s a => ¬ Overlaps rejoinEnv s a ∧ ¬ Unstorable rejoinEnv s a)
        (Sys.start Bool rejoinEnv 0) ((rejoinDrive (.completed [])).map (true, ·)) := by
  obtain ⟨s, hrun⟩ := Option.isSome_iff_exists.mp rejoinDrive_runs
  exact live_invocations_iff hrun

/--
The worker parks the run and releases its task; the call `false` resumes `other`, whose
commit enqueues a task, and the worker claims it and reads the run.
-/
def rejoinResumed : List (Bool × Action Unit) :=
  (rejoinDrive (.suspended "token" none) ++ cycle [("merge", .returned (.completed []))] ++
      cycle [] ++ [Action.beginTick, .commitTick 0, .finish]).map (true, ·) ++
    [(false, .resume "token"), (false, .commitResume 0), (true, .claim 0 10 []),
      (true, .beginTick)]

/-- What both go on to do: each invokes `other`, and the worker records its outcome first. -/
def rejoinTwice : List (Bool × Action Unit) :=
  [(true, .invoke "other" (.returned (.failed "again" false))),
    (false, .invoke "other" (.returned (.completed []))), (true, .gather), (true, .beginSettle),
    (true, .commitSettle 0 false), (false, .gather), (false, .beginSettle),
    (false, .commitSettle 0 false)]

/--
No process crashes and no lease expires, and yet the worker's tick recovers `other` while
the call that resumed it is about to invoke it; both invoke it, and the outcome recorded
is not the resumed one.
-/
theorem rejoin_recovers_live : ∃ s s', Trace.run (Sys.step rejoinEnv)
      (Sys.start Bool rejoinEnv 0) rejoinResumed = some s ∧
    s.step rejoinEnv (true, .commitTick 0) = some s' ∧
    applied rejoinEnv s s' (true, .commitTick 0) = [.recoverNode "other", .startNode "other"] ∧
    (s.procs false).phase.held = ["other"] ∧
    ¬ Faithful rejoinEnv s s' (true, .commitTick 0) ∧
    (Trace.run (Sys.step rejoinEnv) s' rejoinTwice).map
        (fun t => (t.rows.executions "other").status) = some .failed := by
  have heval : ((Trace.run (Sys.step rejoinEnv) (Sys.start Bool rejoinEnv 0) rejoinResumed).bind
      fun s => (s.step rejoinEnv (true, .commitTick 0)).map fun s' =>
        (applied rejoinEnv s s' (true, .commitTick 0), (s.procs false).phase.held,
          (Trace.run (Sys.step rejoinEnv) s' rejoinTwice).map
            fun t => (t.rows.executions "other").status))
      = some ([.recoverNode "other", .startNode "other"], ["other"], some .failed) := by
    decide +kernel
  obtain ⟨s, hrun, hvalues⟩ := Option.bind_eq_some_iff.mp heval
  obtain ⟨s', hstep, hvalues⟩ := Option.map_eq_some_iff.mp hvalues
  simp only [Prod.mk.injEq] at hvalues
  obtain ⟨happlied, hheld, htwice⟩ := hvalues
  refine ⟨s, s', hrun, hstep, happlied, hheld, fun hfaithful => ?_, htwice⟩
  refine hfaithful.recovers "other" ?_ false ?_
  · rw [happlied]
    exact List.mem_cons_self
  · rw [hheld]
    exact List.mem_cons_self

end Orqent
