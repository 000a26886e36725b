/-
One call of `process`, among other workers' claims.

The call advances a run it has claimed while its heartbeat wakes now and then, and when
the advance has returned it settles the task.  Others may claim the task, once its lease
has run out, and the run's own transactions may close it.

The heartbeat is refused in both cases, and so is the release; what the call makes of a
refusal is in `settle`.  `Mark` notes what matters of a run: that the task was stolen,
that the advance closed it, that a wake asked for a renewal.  A wake that asks after
either of the first two is refused, and from then on the call takes the task for stolen;
where none did, it takes the task for closed if the run is at rest.  So it is right
exactly if a theft is followed by such a wake, or leaves the run unfinished, and a
closing commit is not.
-/
import Orqent.Worker.Fleet
import Orqent.Runtime.Budget
import Orqent.Runtime.Reference

namespace Orqent

open Scheduler

variable {P Value : Type}

/-! ### The call -/

/-- How one claimed task ended. -/
inductive TaskOutcome
  | released
  | settled
  | leaseLost
  | failed
deriving DecidableEq, Repr

/-- `_settle`, where `released` is what the release comes to if it is called. -/
def settle (runStatus : RunStatus) (lost released : Bool) : TaskOutcome :=
  if lost then .leaseLost
  else if released then .released
  else if runStatus = .suspended || runStatus.isTerminal then .settled
  else .leaseLost

/-- The system, the clock, and the heartbeat's copy of the lease. -/
structure Processing (P Value : Type) where
  sys : Sys P Value
  clock : Nat
  lease : Lease P

/-- What the worker and the others do. -/
inductive ProcessingAction (P Value : Type)
  /-- The next thing the advance does. -/
  | advance (a : Action Value)
  | wake
  /-- Another worker claims; `locked` are the rows that other claims hold at the time. -/
  | claim (q : P) (locked : List Nat)

/-- What is noted of a call. -/
inductive Mark
  /-- Another worker claimed the task. -/
  | stolen
  /-- The advance closed the task. -/
  | closed
  /-- A wake found that the lease was to be renewed. -/
  | renewing
deriving DecidableEq, Repr

/-- Whether the task is outstanding. -/
def isOpen (id : Nat) (q : QueueTable P) : Bool := q.any fun t => t.id = id && t.outstanding

section Step

variable [DecidableEq P] [DecidableEq Value] (env : Env Value) (policy : P → FixedLeasePolicy)
  (p : P)

/-- A round of the heartbeat; one that was refused is the last. -/
def Processing.wake (s : Processing P Value) (now id : Nat) : Option (Processing P Value) :=
  let round := (policy p).beat p id s.lease now s.sys.queue
  match round.1 with
  | .slept => some { s with clock := now }
  | .renewed lease => some ⟨{ s.sys with queue := round.2 }, now, lease⟩
  | .refused =>
      some
        ⟨{ s.sys with
            queue := round.2
            procs := Function.update s.sys.procs p { s.sys.procs p with lost := true } },
          now, s.lease⟩
  -- Never so: a lease that is to be renewed can be.
  | .failed _ => none

/-- One action, no earlier than the last. -/
def Processing.step (s : Processing P Value) (a : Nat × ProcessingAction P Value) :
    Option (Processing P Value) :=
  let now := a.1
  if now < s.clock then none
  else
    match a.2 with
    | .advance b =>
        if b.advances then
          (s.sys.step env (p, b)).map fun sys => { s with sys, clock := now }
        else none
    | .wake =>
        match (s.sys.procs p).task, (s.sys.procs p).lost with
        | some id, false => s.wake policy p now id
        | _, _ => none
    | .claim q locked =>
        if q = p then none
        else
          (s.sys.step env (q, .claim now (second * (policy q).leaseSeconds now) locked)).map
            fun sys => { s with sys, clock := now }

/-- The call begins with the lease it has claimed. -/
def Processing.start (sys : Sys P Value) (now : Nat) : Processing P Value :=
  ⟨sys, now, ⟨p, now + second * (policy p).leaseSeconds now⟩⟩

/-- What is noted of an action. -/
def Processing.notes (s : Processing P Value) (a : Nat × ProcessingAction P Value)
    (s' : Processing P Value) : List Mark :=
  match (s.sys.procs p).task with
  | none => []
  | some id =>
      match a.2 with
      | .advance _ => if isOpen id s.sys.queue && !isOpen id s'.sys.queue then [.closed] else []
      | .wake => if (policy p).shouldExtend s.lease a.1 then [.renewing] else []
      | .claim q _ => if (s'.sys.procs q).task = some id then [.stolen] else []

end Step

/-- A wake asked for a renewal after this was noted. -/
def RenewingAfter (m : Mark) (ms : List Mark) : Prop :=
  ∃ before after, ms = before ++ m :: after ∧ .renewing ∈ after

section Marks

variable {ms : List Mark} {m x : Mark}

theorem RenewingAfter.mem (h : RenewingAfter m ms) : m ∈ ms := by
  obtain ⟨before, after, rfl, -⟩ := h
  simp

theorem renewingAfter_snoc : RenewingAfter m (ms ++ [x]) ↔
    RenewingAfter m ms ∨ x = .renewing ∧ m ∈ ms := by
  constructor
  · rintro ⟨before, after, hsplit, hafter⟩
    rcases Trace.snoc_eq_append_cons hsplit with ⟨-, -, rfl⟩ | ⟨rest, rfl, rfl⟩
    · simp at hafter
    · rcases List.mem_append.mp hafter with hrest | hlast
      · exact Or.inl ⟨before, rest, rfl, hrest⟩
      · exact Or.inr ⟨(List.mem_singleton.mp hlast).symm, by simp⟩
  · rintro (⟨before, after, rfl, hafter⟩ | ⟨rfl, hmem⟩)
    · exact ⟨before, after ++ [x], by simp, List.mem_append_left _ hafter⟩
    · obtain ⟨before, after, rfl⟩ := List.append_of_mem hmem
      exact ⟨before, after ++ [.renewing], by simp, by simp⟩

theorem order_snoc (h : ms.Pairwise fun y z => y = .closed → z ≠ .stolen)
    (hx : x = .stolen → .closed ∉ ms) :
    (ms ++ [x]).Pairwise fun y z => y = .closed → z ≠ .stolen := by
  refine List.pairwise_append.mpr ⟨h, List.pairwise_singleton .., ?_⟩
  intro y hy z hz hclosed hstolen
  rw [List.mem_singleton] at hz
  subst hz hclosed
  exact hx hstolen hy

end Marks

/-! ### The row of the task -/

/-- The task is not this worker's. -/
def NotOwned (p : P) (id : Nat) (q : QueueTable P) : Prop :=
  ∀ t ∈ q, t.id = id → ¬ (t.status = .leased ∧ t.lockedBy = some p)

section Rows

variable {p q : P} {id : Nat} {table table' : QueueTable P} {f : QueueTask P → QueueTask P}

theorem isOpen_iff : isOpen id table = true ↔ ∃ t ∈ table, t.id = id ∧ t.outstanding = true := by
  unfold isOpen
  simp only [List.any_eq_true, Bool.and_eq_true, decide_eq_true_eq]

theorem done_of_not_open (h : isOpen id table = false) : QueueTable.Done id table := by
  intro t ht htid
  have hout : t.outstanding = false := by
    by_contra hc
    exact Bool.false_ne_true (h.symm.trans (isOpen_iff.mpr ⟨t, ht, htid, by simpa using hc⟩))
  cases hst : t.status <;> simp [QueueTask.outstanding, hst] at hout ⊢

theorem NotOwned.of_done (h : QueueTable.Done id table) : NotOwned p id table := by
  intro t ht htid howned
  have hdone := h t ht htid
  rw [howned.1] at hdone
  simp at hdone

theorem NotOwned.finishOutstanding (h : NotOwned p id table) (runId : Nat) :
    NotOwned p id (table.finishOutstanding runId) := by
  intro t ht htid howned
  obtain ⟨u, hu, rfl⟩ := List.mem_map.mp ht
  split at htid <;> rename_i hmatch
  · rw [if_pos hmatch] at howned
    simp at howned
  · rw [if_neg hmatch] at howned
    exact h u hu htid howned

/-- A claim by another worker leaves the task another worker's. -/
theorem NotOwned.claim (h : NotOwned p id table) (hne : q ≠ p) {now leaseSeconds : Nat}
    {locked : List Nat} {task : QueueTask P}
    (hclaim : table.claim q now leaseSeconds locked = some (task, table')) :
    NotOwned p id table' := by
  obtain ⟨found, hfound, hpair⟩ := Option.map_eq_some_iff.mp hclaim
  obtain ⟨rfl, rfl⟩ := Prod.mk.inj hpair
  intro t ht htid howned
  obtain ⟨u, hu, rfl⟩ := List.mem_map.mp ht
  split at htid <;> rename_i hmatch
  · rw [if_pos hmatch] at howned
    exact hne (Option.some.inj howned.2)
  · rw [if_neg hmatch] at howned
    exact h u hu htid howned

/-- A task that another worker has claimed is not this one's. -/
theorem NotOwned.of_claimed (hne : q ≠ p) {now leaseSeconds : Nat} {locked : List Nat}
    {task : QueueTask P}
    (hclaim : table.claim q now leaseSeconds locked = some (task, table')) :
    NotOwned p task.id table' := by
  intro t ht htid howned
  rcases claim_held hclaim t ht htid with hdone | ⟨-, howner, -⟩
  · rw [howned.1] at hdone
    simp at hdone
  · rw [howned.2] at howner
    exact hne (Option.some.inj howner).symm

/-- Nobody claims a task that is done with. -/
theorem done_not_claimed (h : QueueTable.Done id table) {now leaseSeconds : Nat}
    {locked : List Nat} {task : QueueTask P}
    (hclaim : table.claim q now leaseSeconds locked = some (task, table')) : task.id ≠ id := by
  obtain ⟨found, hfound, hpair⟩ := Option.map_eq_some_iff.mp hclaim
  obtain ⟨rfl, -⟩ := Prod.mk.inj hpair
  intro hid
  obtain ⟨hmem, hqueued | ⟨hleased, -⟩⟩ := claimable_cases hfound
  · simp [h found hmem hid] at hqueued
  · simp [h found hmem hid] at hleased

/-- What is open stays open where it is not claimed, and is open where it is. -/
theorem isOpen_claim {now leaseSeconds : Nat} {locked : List Nat} {task : QueueTask P}
    (hclaim : table.claim q now leaseSeconds locked = some (task, table'))
    (h : isOpen id table = true) : isOpen id table' = true := by
  obtain ⟨found, hfound, hpair⟩ := Option.map_eq_some_iff.mp hclaim
  obtain ⟨rfl, rfl⟩ := Prod.mk.inj hpair
  obtain ⟨t, ht, htid, hout⟩ := isOpen_iff.mp h
  refine isOpen_iff.mpr ⟨_, List.mem_map.mpr ⟨t, ht, rfl⟩, ?_, ?_⟩
  · split <;> exact htid
  · split
    · rfl
    · exact hout

end Rows

/-! ### The advance on its own -/

section Rests

variable {g : WorkflowGraph Value} {rows rows' : RunRows Value} {ops : List QueueOp} {now : Time}

/-- The run is over, or a node of it waits. -/
def RestsOrWaits (g : WorkflowGraph Value) (rows : RunRows Value) : Prop :=
  rows.run.status.isTerminal = true ∨ ∃ k ∈ g.nodeKeys, (rows.executions k).status = .waiting

theorem RunOk.rests_or_waits (hok : RunOk g rows) (h : rows.run.status.isResting = true) :
    RestsOrWaits g rows := by
  unfold RunStatus.isResting at h
  simp only [Bool.or_eq_true, decide_eq_true_eq] at h
  exact h.symm.imp id hok.parked

/-- A tick ends no wait, and takes no run out of a final state. -/
theorem RestsOrWaits.tick (h : RestsOrWaits g rows) (hok : RunOk g rows)
    (he : Effect g rows (.tick now) rows' ops) : RestsOrWaits g rows' := by
  rcases h with hterminal | ⟨k, hk, hwaiting⟩
  · cases he with
    | tick now hfan hstatus =>
        left
        rw [ticked_run]
        exact hterminal
    | conclude now target hfan hstatus hne hlegal =>
        unfold RunStatus.isTerminal at hterminal
        rw [List.isEmpty_iff] at hterminal
        simp [hterminal] at hlegal
    | settle t now key result rejected ht hkey hrunning hstorable => simp at ht
  · refine Or.inr ⟨k, hk, ?_⟩
    rw [he.tick_executions]
    exact (hok.ticked_waiting now hk).mpr hwaiting

/-- A run in which a tick decides nothing is at rest if a node of it waits. -/
theorem RestsOrWaits.quiet (h : RestsOrWaits g rows) (hquiet : decisions (snapshot g rows) = []) :
    rows.run.status.isResting = true := by
  unfold RunStatus.isResting
  rcases h with hterminal | ⟨k, hk, hwaiting⟩
  · rw [hterminal, Bool.or_true]
  · obtain ⟨hstranded, -, hready, hconclusion⟩ := decisions_eq_nil_iff.mp hquiet
    have hrunning : someNode (snapshot g rows) .running = false := by
      refine Bool.eq_false_iff.mpr fun hc => ?_
      obtain ⟨j, hj, hst⟩ := someNode_snapshot.mp hc
      have hmem := mem_stranded.mpr ⟨hj, hst⟩
      simp [hstranded] at hmem
    rw [conclusion_of_quiet hready hrunning, if_pos (someNode_snapshot.mpr ⟨k, hk, hwaiting⟩)]
      at hconclusion
    rcases hconclusion with hnone | hsome
    · simp at hnone
    · rw [snapshot_status] at hsome
      rw [← Option.some.inj hsome]
      rfl

end Rests

section Advance

variable [DecidableEq P] {env : Env Value} {s s' : Sys P Value} {p : P} {a : Action Value}
  {id : Nat}

/-- Nobody but this process commits: its open transaction sees the committed rows, and what
it has returned is their status. -/
structure Unshared (env : Env Value) (p : P) (s : Sys P Value) : Prop where
  snap : ∀ snap, (s.procs p).phase.openSnap = some snap → snap = s.rows
  returned : ∀ status, (s.procs p).phase = .returned status →
    status = s.rows.run.status ∧ decisions (snapshot env.graph s.rows) = []

theorem Unshared.step (h : Unshared env p s) (hmove : Move env s p a s')
    (ha : a.advances = true) : Unshared env p s' := by
  cases hmove with
  | quietTick now cycles snap hphase hfan hnone =>
      have hsnap := h.snap snap (by rw [hphase]; rfl)
      subst hsnap
      refine ⟨fun snap hopen => ?_, fun status hreturned => ?_⟩
      · rw [Sys.moved_self] at hopen
        simp [Phase.openSnap] at hopen
      · rw [Sys.moved_self] at hreturned
        exact ⟨(Phase.returned.inj hreturned).symm, hnone⟩
  | beginTick cycles hphase =>
      refine ⟨fun snap hopen => ?_, fun status hreturned => ?_⟩
      · rw [Sys.moved_self] at hopen
        exact (Option.some.inj hopen).symm
      · rw [Sys.moved_self] at hreturned
        simp at hreturned
  | beginSettle cycles l outcome rest failed hphase hrecorded =>
      refine ⟨fun snap hopen => ?_, fun status hreturned => ?_⟩
      · rw [Sys.moved_self] at hopen
        exact (Option.some.inj hopen).symm
      · rw [Sys.moved_self] at hreturned
        simp at hreturned
  | raised a hnot =>
      refine ⟨fun snap hopen => ?_, fun status hreturned => ?_⟩
      · rw [Sys.raised_self] at hopen
        simp [Process.idle, Phase.openSnap] at hopen
      · rw [Sys.raised_self] at hreturned
        simp [Process.idle] at hreturned
  | advance | resume | claim | resumed | extend | requeue | release =>
      simp [Action.advances] at ha
  | _ =>
      refine ⟨fun snap hopen => ?_, fun status hreturned => ?_⟩
      · rw [Sys.moved_self] at hopen
        simp [Phase.openSnap] at hopen
      · rw [Sys.moved_self] at hreturned
        simp at hreturned

/-- The advance keeps the task, as long as it does not raise. -/
theorem Move.task_of_advance (hmove : Move env s p a s') (ha : a.advances = true)
    (htask : (s'.procs p).task = some id) :
    (s.procs p).task = some id ∧ (s'.procs p).lost = (s.procs p).lost := by
  cases hmove with
  | raised a hnot =>
      rw [Sys.raised_self] at htask
      simp [Process.idle] at htask
  | advance | resume | claim | resumed | extend | requeue | release =>
      simp [Action.advances] at ha
  | _ =>
      rw [Sys.moved_self] at htask ⊢
      exact ⟨htask, rfl⟩

/-- The advance leaves the queue alone, or closes the run's task and leaves the run at rest. -/
theorem Move.queue_of_advance (hmove : Move env s p a s') (ha : a.advances = true) :
    s'.queue = s.queue ∨
      s'.queue = s.queue.finishOutstanding env.runId ∧ s'.rows.run.status.isResting = true := by
  cases hmove with
  | tick now cycles rows ops hphase hlimit hsome heffect =>
      cases heffect with
      | tick now hfan hstatus => exact Or.inl rfl
      | conclude now target hfan hstatus hne hlegal =>
          unfold conclusionOps
          split
          · rename_i hresting
            refine Or.inr ⟨rfl, ?_⟩
            rw [Sys.moved_rows]
            dsimp only
            rw [concluded_status]
            exact hresting
          · exact Or.inl rfl
      | settle t now key result rejected ht hkey hrunning hstorable => simp at ht
  | advance | resume | claim | resumed | extend | requeue | release =>
      simp [Action.advances] at ha
  | _ => exact Or.inl rfl

variable [DecidableEq Value]

/-- The advance ends no wait, and takes no run out of a final state. -/
theorem Move.rests_of_advance (hok : SysOk env s) (hmove : Move env s p a s')
    (ha : a.advances = true) (h : RestsOrWaits env.graph s.rows) :
    RestsOrWaits env.graph s'.rows := by
  cases hmove with
  | tick now cycles rows ops hphase hlimit hsome heffect => exact h.tick hok.rows heffect
  | settle now rejected cycles l outcome result todo failed hphase hrecorded hkey hrunning
      hstorable =>
      rw [Sys.moved_rows]
      dsimp only
      refine h.imp id fun hwaits => ?_
      obtain ⟨k, hk, hwaiting⟩ := hwaits
      refine ⟨k, hk, ?_⟩
      have hne : k ≠ l.key := by
        intro hc
        rw [hc, hrunning] at hwaiting
        simp at hwaiting
      rw [RunRows.append_executions, RunRows.write_ne _ _ hne]
      exact hwaiting
  | advance | resume | claim | resumed | extend | requeue | release =>
      simp [Action.advances] at ha
  | _ => exact h

end Advance

/-! ### The call on its own -/

/-- What the marks say of the task, the run and the heartbeat. -/
structure Custody (env : Env Value) (p : P) (id : Nat) (ms : List Mark) (s : Processing P Value) :
    Prop where
  mine : .stolen ∉ ms → .closed ∉ ms →
    isOpen id s.sys.queue = true ∧ HeldUntil p id s.lease.expiresAt s.sys.queue
  away : .stolen ∈ ms ∨ .closed ∈ ms → NotOwned p id s.sys.queue
  closed : .closed ∈ ms → QueueTable.Done id s.sys.queue ∧ RestsOrWaits env.graph s.sys.rows
  order : ms.Pairwise fun y z => y = .closed → z ≠ .stolen
  lost : (s.sys.procs p).lost = true ↔ RenewingAfter .stolen ms ∨ RenewingAfter .closed ms

section Custody

variable {env : Env Value} {p q : P} {id : Nat} {ms : List Mark} {s s' : Processing P Value}

/-- Nothing is noted, and what there is to the queue stays. -/
theorem Custody.quiet (h : Custody env p id ms s) (hopen : isOpen id s.sys.queue = true →
      isOpen id s'.sys.queue = true)
    (hheld : HeldUntil p id s.lease.expiresAt s.sys.queue →
      HeldUntil p id s'.lease.expiresAt s'.sys.queue)
    (haway : NotOwned p id s.sys.queue → NotOwned p id s'.sys.queue)
    (hdone : QueueTable.Done id s.sys.queue → QueueTable.Done id s'.sys.queue)
    (hrests : RestsOrWaits env.graph s.sys.rows → RestsOrWaits env.graph s'.sys.rows)
    (hlost : (s'.sys.procs p).lost = (s.sys.procs p).lost) : Custody env p id ms s' where
  mine := fun hstolen hclosed => (h.mine hstolen hclosed).imp hopen hheld
  away := fun hmem => haway (h.away hmem)
  closed := fun hmem => (h.closed hmem).imp hdone hrests
  order := h.order
  lost := by
    rw [hlost]
    exact h.lost

/-- The queue is left alone. -/
theorem Custody.untouched (h : Custody env p id ms s) (hqueue : s'.sys.queue = s.sys.queue)
    (hlease : s'.lease = s.lease)
    (hrests : RestsOrWaits env.graph s.sys.rows → RestsOrWaits env.graph s'.sys.rows)
    (hlost : (s'.sys.procs p).lost = (s.sys.procs p).lost) : Custody env p id ms s' := by
  refine h.quiet ?_ ?_ ?_ ?_ hrests hlost <;> rw [hqueue]
  · exact fun hopen => hopen
  · rw [hlease]
    exact fun hheld => hheld
  · exact fun haway => haway
  · exact fun hdone => hdone

/-- The advance closes the task. -/
theorem Custody.close (h : Custody env p id ms s) (hshut : isOpen id s'.sys.queue = false)
    (hrests : RestsOrWaits env.graph s'.sys.rows)
    (hlost : (s'.sys.procs p).lost = (s.sys.procs p).lost) :
    Custody env p id (ms ++ [.closed]) s' where
  mine := fun _ hclosed => absurd (by simp) hclosed
  away := fun _ => .of_done (done_of_not_open hshut)
  closed := fun _ => ⟨done_of_not_open hshut, hrests⟩
  order := order_snoc h.order fun hc => by simp at hc
  lost := by
    rw [hlost, h.lost, renewingAfter_snoc, renewingAfter_snoc]
    simp

/-- Another worker claims the task. -/
theorem Custody.steal (h : Custody env p id ms s) (haway : NotOwned p id s'.sys.queue)
    (hopen : ¬ QueueTable.Done id s.sys.queue)
    (hlost : (s'.sys.procs p).lost = (s.sys.procs p).lost) :
    Custody env p id (ms ++ [.stolen]) s' := by
  -- What is closed is done with, and nobody claims it.
  have hnone : .closed ∉ ms := fun hmem => hopen (h.closed hmem).1
  refine ⟨fun hstolen => absurd (by simp) hstolen, fun _ => haway, fun hmem => ?_, ?_, ?_⟩
  · simp at hmem
    exact absurd hmem hnone
  · exact order_snoc h.order fun _ => hnone
  · rw [hlost, h.lost, renewingAfter_snoc, renewingAfter_snoc]
    simp

theorem Custody.renewed (h : Custody env p id ms s) (hmine : .stolen ∉ ms ∧ .closed ∉ ms)
    (hopen : isOpen id s'.sys.queue = true)
    (hheld : HeldUntil p id s'.lease.expiresAt s'.sys.queue)
    (hlost : (s'.sys.procs p).lost = (s.sys.procs p).lost) :
    Custody env p id (ms ++ [.renewing]) s' := by
  obtain ⟨hstolen, hclosed⟩ := hmine
  refine ⟨fun _ _ => ⟨hopen, hheld⟩, fun hmem => ?_, fun hmem => ?_, ?_, ?_⟩
  · simp [hstolen, hclosed] at hmem
  · simp [hclosed] at hmem
  · exact order_snoc h.order fun hc => by simp at hc
  · rw [hlost, h.lost, renewingAfter_snoc, renewingAfter_snoc]
    simp [hstolen, hclosed]

theorem Custody.refused (h : Custody env p id ms s) (haway : .stolen ∈ ms ∨ .closed ∈ ms)
    (hqueue : s'.sys.queue = s.sys.queue) (hrows : s'.sys.rows = s.sys.rows)
    (hlost : (s'.sys.procs p).lost = true) : Custody env p id (ms ++ [.renewing]) s' := by
  refine ⟨fun hstolen hclosed => ?_, fun _ => ?_, fun hmem => ?_, ?_, ?_⟩
  · simp at hstolen hclosed
    exact absurd haway (by simp [hstolen, hclosed])
  · rw [hqueue]
    exact h.away haway
  · rw [hqueue, hrows]
    exact h.closed (by simpa using hmem)
  · exact order_snoc h.order fun hc => by simp at hc
  · rw [hlost, renewingAfter_snoc, renewingAfter_snoc]
    refine iff_of_true rfl ?_
    rcases haway with hmem | hmem
    · exact Or.inl (Or.inr ⟨rfl, hmem⟩)
    · exact Or.inr (Or.inr ⟨rfl, hmem⟩)

end Custody

section Call

variable [DecidableEq Value] {env : Env Value} {policy : P → FixedLeasePolicy} {p q : P}
  {id : Nat} {ms : List Mark} {s s' : Processing P Value} {a : Nat × ProcessingAction P Value}

/-- What holds of a call: nobody else commits, and the marks say what there is to say. -/
structure CallOk (env : Env Value) (p : P) (id : Nat) (ms : List Mark) (s : Processing P Value) :
    Prop where
  sys : SysOk env s.sys
  unshared : Unshared env p s.sys
  task : ∀ id', (s.sys.procs p).task = some id' → id' = id
  custody : (s.sys.procs p).task = some id → Custody env p id ms s

/-- Where no row of the run and no phase changes. -/
theorem CallOk.of_phases (h : CallOk env p id ms s) {ms' : List Mark}
    (hrows : s'.sys.rows = s.sys.rows)
    (hphase : ∀ q, (s'.sys.procs q).phase = (s.sys.procs q).phase)
    (htask : (s'.sys.procs p).task = (s.sys.procs p).task)
    (hcustody : Custody env p id ms' s') : CallOk env p id ms' s' := by
  refine ⟨⟨?_, fun q snap hopen => ?_⟩, ⟨fun snap hopen => ?_, fun st hst => ?_⟩,
    htask ▸ h.task, fun _ => hcustody⟩
  · rw [hrows]
    exact h.sys.rows
  · rw [hphase] at hopen
    rw [hrows]
    exact h.sys.snaps q snap hopen
  · rw [hphase] at hopen
    rw [hrows]
    exact h.unshared.snap snap hopen
  · rw [hphase] at hst
    rw [hrows]
    exact h.unshared.returned st hst

variable [DecidableEq P]

theorem CallOk.advance (h : CallOk env p id ms s) {b : Action Value} {sys : Sys P Value}
    {now : Nat} (hb : b.advances = true) (hstep : s.sys.step env (p, b) = some sys) :
    CallOk env p id (ms ++ s.notes policy p (now, .advance b) { s with sys, clock := now })
      { s with sys, clock := now } := by
  have hmove := h.sys.step_move hstep
  refine ⟨h.sys.step hstep, h.unshared.step hmove hb,
    fun id' htask => h.task id' (hmove.task_of_advance hb htask).1, fun htask => ?_⟩
  obtain ⟨hbefore, hlost⟩ := hmove.task_of_advance hb htask
  have hcustody := h.custody hbefore
  have hrests : RestsOrWaits env.graph s.sys.rows → RestsOrWaits env.graph sys.rows :=
    hmove.rests_of_advance h.sys hb
  unfold Processing.notes
  simp only [hbefore]
  rcases hmove.queue_of_advance hb with hqueue | ⟨hqueue, hresting⟩
  · have hnone : (isOpen id s.sys.queue && !isOpen id sys.queue) = false := by
      rw [hqueue, Bool.and_not_self]
    rw [hnone, if_neg Bool.false_ne_true, List.append_nil]
    exact hcustody.untouched hqueue rfl hrests hlost
  · by_cases hshut : (isOpen id s.sys.queue && !isOpen id sys.queue) = true
    · rw [if_pos hshut]
      simp only [Bool.and_eq_true, Bool.not_eq_true'] at hshut
      exact hcustody.close hshut.2 ((h.sys.step hstep).rows.rests_or_waits hresting) hlost
    · rw [if_neg hshut, List.append_nil]
      refine hcustody.quiet (fun hopen => ?_) (fun hheld => ?_) (fun haway => ?_)
        (fun hdone => ?_) hrests hlost
      · simpa [hopen] using hshut
      · dsimp only
        rw [hqueue]
        exact hheld.finishOutstanding env.runId
      · dsimp only
        rw [hqueue]
        exact haway.finishOutstanding env.runId
      · dsimp only
        rw [hqueue]
        exact hdone.map QueueTable.finish_updates

theorem CallOk.claim (h : CallOk env p id ms s) (hne : q ≠ p) {sys : Sys P Value}
    {now leaseSeconds : Nat} {locked locked' : List Nat}
    (hstep : s.sys.step env (q, .claim now leaseSeconds locked) = some sys) :
    CallOk env p id (ms ++ s.notes policy p (now, .claim q locked') { s with sys, clock := now })
      { s with sys, clock := now } := by
  have hmove := h.sys.step_move hstep
  have hsame : sys.procs p = s.sys.procs p := hmove.procs_ne (Ne.symm hne)
  have hrows : sys.rows = s.sys.rows := by
    cases hmove with
    | claim | raised => rfl
  refine ⟨h.sys.step hstep, ⟨fun snap hopen => ?_, fun st hst => ?_⟩, fun id' htask => ?_,
    fun htask => ?_⟩
  · dsimp only at hopen ⊢
    rw [hsame] at hopen
    rw [hrows]
    exact h.unshared.snap snap hopen
  · dsimp only at hst ⊢
    rw [hsame] at hst
    rw [hrows]
    exact h.unshared.returned st hst
  · dsimp only at htask
    rw [hsame] at htask
    exact h.task id' htask
  · dsimp only at htask
    rw [hsame] at htask
    have hcustody := h.custody htask
    have hlost : (sys.procs p).lost = (s.sys.procs p).lost := by rw [hsame]
    unfold Processing.notes
    simp only [htask]
    cases hmove with
    | raised a hnot =>
        rw [Sys.raised_self, if_neg (by simp [Process.idle]), List.append_nil]
        exact hcustody.untouched rfl rfl (fun hrests => hrests) hlost
    | claim clock leaseSeconds locked task queue hphase hclaim =>
        simp only [Function.update_self, Option.some.injEq]
        split
        · rename_i hid
          subst hid
          refine hcustody.steal (.of_claimed hne hclaim) (fun hdone => ?_) hlost
          exact done_not_claimed hdone hclaim rfl
        · rename_i hid
          rw [List.append_nil]
          obtain ⟨-, f, hf, -, hqueue⟩ := QueueTable.claim_cases hclaim
          refine hcustody.quiet (isOpen_claim hclaim) (fun hheld => hheld.claim_ne hclaim hid)
            (fun haway => haway.claim hne hclaim) (fun hdone => ?_) (fun hrests => hrests) hlost
          dsimp only
          rw [hqueue]
          exact hdone.map hf

/-- What a renewal leaves open is what was. -/
theorem isOpen_extend {table : QueueTable P} {expiresAt : Nat} (h : isOpen id table = true) :
    isOpen id (table.extend p id expiresAt).2 = true := by
  obtain ⟨t, ht, htid, hout⟩ := isOpen_iff.mp h
  refine isOpen_iff.mpr ⟨_, List.mem_map.mpr ⟨t, ht, rfl⟩, ?_, ?_⟩
  · split <;> exact htid
  · split <;> exact hout

theorem CallOk.wake (h : CallOk env p id ms s) {now : Nat} (htask : (s.sys.procs p).task = some id)
    (hlost : (s.sys.procs p).lost = false) (hstep : s.wake policy p now id = some s') :
    CallOk env p id (ms ++ s.notes policy p (now, .wake) s') s' := by
  have hcustody := h.custody htask
  have hnotes : s.notes policy p (now, .wake) s' =
      if (policy p).shouldExtend s.lease now then [.renewing] else [] := by
    unfold Processing.notes
    simp only [htask]
  rw [hnotes]
  unfold Processing.wake at hstep
  by_cases hextend : (policy p).shouldExtend s.lease now = true
  · rw [if_pos hextend]
    simp only [FixedLeasePolicy.beat_asks hextend] at hstep
    have hforward : s.lease.expiresAt ≤ (policy p).leaseFor now := by
      have hle := FixedLeasePolicy.shouldExtend_iff.mp hextend
      unfold FixedLeasePolicy.leaseFor
      omega
    by_cases haway : .stolen ∈ ms ∨ .closed ∈ ms
    · have hrefused := own_of_not_owner (hcustody.away haway)
        (fun t => t.leaseExpiresAt.any (· ≤ (policy p).leaseFor now))
        (fun t => { t with leaseExpiresAt := some ((policy p).leaseFor now) })
      have hqueue : s.sys.queue.extend p id ((policy p).leaseFor now) = (false, s.sys.queue) :=
        hrefused
      simp only [hqueue] at hstep
      obtain rfl := Option.some.inj hstep
      refine h.of_phases rfl (fun q => ?_) ?_ (hcustody.refused haway rfl rfl ?_)
      · by_cases hq : q = p
        · subst hq
          simp
        · simp [Function.update_of_ne hq]
      · simp
      · simp
    · have hmine : .stolen ∉ ms ∧ .closed ∉ ms := not_or.mp haway
      obtain ⟨hopen, hheld⟩ := hcustody.mine hmine.1 hmine.2
      have happlies := hheld.extend_applies hforward (isOpen_iff.mp hopen)
      simp only [happlies, if_true] at hstep
      obtain rfl := Option.some.inj hstep
      refine h.of_phases rfl (fun _ => rfl) rfl ?_
      exact hcustody.renewed hmine (isOpen_extend hopen) (hheld.extend hforward) rfl
  · rw [if_neg hextend, List.append_nil]
    rw [Bool.not_eq_true] at hextend
    simp only [FixedLeasePolicy.beat_slept hextend] at hstep
    obtain rfl := Option.some.inj hstep
    exact h.of_phases rfl (fun _ => rfl) rfl
      (hcustody.untouched rfl rfl (fun hrests => hrests) rfl)

theorem CallOk.step (h : CallOk env p id ms s)
    (hstep : s.step env policy p a = some s') :
    CallOk env p id (ms ++ s.notes policy p a s') s' := by
  obtain ⟨now, act⟩ := a
  unfold Processing.step at hstep
  dsimp only at hstep
  split at hstep
  · simp at hstep
  cases act with
  | advance b =>
      dsimp only at hstep
      split at hstep
      · rename_i hb
        obtain ⟨sys, hsys, rfl⟩ := Option.map_eq_some_iff.mp hstep
        exact h.advance hb hsys
      · simp at hstep
  | claim q locked =>
      dsimp only at hstep
      split at hstep
      · simp at hstep
      · rename_i hne
        obtain ⟨sys, hsys, rfl⟩ := Option.map_eq_some_iff.mp hstep
        exact h.claim hne hsys
  | wake =>
      dsimp only at hstep
      split at hstep
      · rename_i id' htask hlost
        obtain rfl := h.task id' htask
        exact h.wake htask hlost hstep
      · simp at hstep

/-- The call as it begins. -/
theorem CallOk.start {sys₀ sys : Sys P Value} {now leaseSeconds : Nat} {locked : List Nat}
    (hok : SysOk env sys₀) (hclaim : sys₀.step env (p, .claim now leaseSeconds locked) = some sys) :
    ∃ id, CallOk env p id [] ⟨sys, now, ⟨p, now + leaseSeconds⟩⟩ := by
  have hsys := hok.step hclaim
  unfold Sys.step at hclaim
  cases hphase : (sys₀.procs p).phase with
  | idle =>
      simp only [hphase] at hclaim
      obtain ⟨⟨task, queue⟩, hclaimed, rfl⟩ := Option.map_eq_some_iff.mp hclaim
      obtain ⟨found, hfound, hpair⟩ := Option.map_eq_some_iff.mp hclaimed
      obtain ⟨rfl, -⟩ := Prod.mk.inj hpair
      have hopen : isOpen found.id sys₀.queue = true := by
        obtain ⟨hmem, hstatus⟩ := claimable_cases hfound
        refine isOpen_iff.mpr ⟨found, hmem, rfl, ?_⟩
        unfold QueueTask.outstanding
        rcases hstatus with hst | ⟨hst, -⟩ <;> simp [hst]
      refine ⟨found.id, hsys, ⟨fun snap hsnap => ?_, fun st hst => ?_⟩, fun id' hid => ?_,
        fun _ => ?_⟩
      · simp [Phase.openSnap] at hsnap
      · simp at hst
      · simpa using hid.symm
      · refine ⟨fun _ _ => ⟨isOpen_claim hclaimed hopen, claim_held hclaimed⟩, by simp, by simp,
          List.Pairwise.nil, ?_⟩
        simp [RenewingAfter]
  | _ => simp [hphase] at hclaim

end Call

end Orqent
