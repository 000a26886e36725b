/-
What a stale worker may write.

Recording an outcome asks only that the node's row is `RUNNING`.  A row that was
recovered and started again is `RUNNING` too, so nothing in that transaction tells the
abandoned invocation from the one that replaced it; and the lease of the task is not
looked at before the worker releases it, when everything has been recorded.

`Current` says of a step what it should record: the outcome of the attempt the row
carries, and for a worker only while it holds its lease.  `Displaces` are the steps
that take from a process what it goes on to record.
-/
import Orqent.Runtime.Exclusion

namespace Orqent

open Scheduler

variable {P Value : Type} {env : Env Value} {s s' : Sys P Value} {p q : P} {a : Action Value}
  {now : Time} {key : NodeKey}

/-! ### The property and the condition -/

/-- The launch whose outcome this step recorded. -/
def recorded (s : Sys P Value) (a : P × Action Value) (s' : Sys P Value) : Option Launch :=
  match a.2, (s.procs a.1).phase, (s'.procs a.1).phase with
  | .commitSettle _ _, .recording _ _ l _ _ _, .settling _ _ _ => some l
  | _, _, _ => none

section Property

variable [DecidableEq P]

/-- Some row of this task is leased by this worker. -/
def QueueTable.Owned (worker : P) (id : Nat) (q : QueueTable P) : Prop :=
  ∃ t ∈ q, QueueTable.owns worker id t = true

/-- The process holds the lease of the task it works on, if it works on one. -/
def Sys.Leased (s : Sys P Value) (p : P) : Prop :=
  ∀ id, (s.procs p).task = some id → s.queue.Owned p id

/-- What is recorded is of the attempt on the row, and by nobody who lost the lease. -/
def Current [DecidableEq Value] (env : Env Value) (s : Sys P Value) (a : P × Action Value) : Prop :=
  ∀ s', s.step env a = some s' → ∀ l, recorded s a s' = some l →
    l.attempt = (s.rows.executions l.key).attempt ∧ s.Leased a.1

/-- The action claims the task of a process that has a launch in hand. -/
def TakesOver (s : Sys P Value) : P × Action Value → Prop
  | (p, .claim now leaseSeconds locked) =>
      ∃ task queue, s.queue.claim p now leaseSeconds locked = some (task, queue) ∧
        ∃ q, (s.procs q).task = some task.id ∧ (s.procs q).phase.held ≠ []
  | _ => False

/-- The action applies a tick that starts nodes, by a worker that no longer holds its lease. -/
def StartsUnleased (env : Env Value) (s : Sys P Value) : P × Action Value → Prop
  | (p, .commitTick _) =>
      (∃ cycles < env.graph.length + 1, (s.procs p).phase = .ticking cycles s.rows) ∧
        readyKeys (snapshot env.graph s.rows) ≠ [] ∧ ¬ s.Leased p
  | _ => False

/-- The action recovers what a process has in hand, takes its task over, or starts nodes with
no lease. -/
def Displaces (env : Env Value) (s : Sys P Value) (a : P × Action Value) : Prop :=
  Overlaps env s a ∨ TakesOver s a ∨ StartsUnleased env s a

/-- What recording rests on. -/
structure RecordOk (env : Env Value) (s : Sys P Value) : Prop where
  exclusion : ExclusionOk env s
  /-- What is in hand is of the attempt on its row. -/
  attempts : ∀ p, ∀ e ∈ (s.procs p).phase.launched, isEscaped e = false →
    e.1.attempt = (s.rows.executions e.1.key).attempt
  leased : ∀ p, (s.procs p).phase.held ≠ [] → s.Leased p
  /-- A worker starts from a claim, so a call that resumes works on no task. -/
  untasked : ∀ p,
    (s.procs p).phase = .idle ∨ (∃ token snap, (s.procs p).phase = .resuming token snap) →
    (s.procs p).task = none

end Property

theorem mem_held {phase : Phase Value} :
    key ∈ phase.held ↔ ∃ e ∈ phase.launched, isEscaped e = false ∧ e.1.key = key := by
  simp [Phase.held, and_assoc]

theorem invokeEntry_launch {snap : RunRows Value} {outcome : RunnerOutcome Value}
    (e : Launch × Option (Outcome Value)) : (invokeEntry env snap key outcome e).1 = e.1 := by
  obtain ⟨l, _ | known⟩ := e
  · rw [invokeEntry]
    split <;> rfl
  · rfl

theorem escaped_of_invokeEntry {snap : RunRows Value} {outcome : RunnerOutcome Value}
    {e : Launch × Option (Outcome Value)}
    (h : isEscaped (invokeEntry env snap key outcome e) = false) : isEscaped e = false := by
  obtain ⟨l, _ | known⟩ := e
  · rfl
  · exact h

/-! ### Who owns a task -/

namespace QueueTable

variable [DecidableEq P] {worker other : P} {id k : Nat} {table table' : QueueTable P}
  {f : QueueTask P → QueueTask P}

theorem Owned.map (h : Owned worker id table)
    (hf : ∀ t, owns worker id t = true → owns worker id (f t) = true) :
    Owned worker id (table.map f) := by
  obtain ⟨t, ht, howns⟩ := h
  exact ⟨f t, List.mem_map_of_mem ht, hf t howns⟩

theorem Owned.enqueue (h : Owned worker id table) (runId runAfter : Nat) :
    Owned worker id (table.enqueue runId runAfter) := by
  obtain ⟨t, ht, howns⟩ := h
  refine ⟨t, ?_, howns⟩
  unfold QueueTable.enqueue
  split
  · exact ht
  · exact List.mem_append_left _ ht

/-- A claim takes one task, and leaves the others to their owners. -/
theorem Owned.claim {now leaseSeconds : Nat} {locked : List Nat} {task : QueueTask P}
    (h : Owned worker id table)
    (hclaim : table.claim other now leaseSeconds locked = some (task, table'))
    (hid : task.id ≠ id) :
    Owned worker id table' := by
  obtain ⟨found, -, hpair⟩ := Option.map_eq_some_iff.mp hclaim
  obtain ⟨rfl, rfl⟩ := Prod.mk.inj hpair
  refine h.map fun t howns => ?_
  have htid : t.id = id := by
    simp only [owns, Bool.and_eq_true, decide_eq_true_eq] at howns
    exact howns.1.1
  rw [if_neg (by simp [htid, Ne.symm hid])]
  exact howns

/-- What another worker does to its own task leaves this one its own. -/
theorem Owned.own (h : Owned worker id table) (hne : other ≠ worker)
    (extra : QueueTask P → Bool) : Owned worker id (QueueTable.own other k extra f table).2 := by
  refine h.map fun t howns => ?_
  have hlocked : t.lockedBy = some worker := by
    simp only [owns, Bool.and_eq_true, decide_eq_true_eq] at howns
    exact howns.2
  rw [if_neg (by simp [owns, hlocked, Ne.symm hne])]
  exact howns

/-- An extension leaves the task with its owner. -/
theorem Owned.extend (h : Owned worker id table) (expiresAt : Nat) :
    Owned worker id (table.extend other k expiresAt).2 := by
  refine h.map fun t howns => ?_
  split
  · exact howns
  · exact howns

end QueueTable

section Steps

variable [DecidableEq P] [DecidableEq Value]

set_option linter.unusedSectionVars false

/-! ### What a step leaves to a process -/

/-- While a process has something in hand, only it gives up its task. -/
theorem RecordOk.leased_of_other (h : RecordOk env s) (hmove : Move env s p a s')
    (hfree : ¬ Displaces env s (p, a)) (hq : q ≠ p) (hheld : (s.procs q).phase.held ≠ []) :
    s'.Leased q := by
  intro id htask
  rw [hmove.procs_ne hq] at htask
  have howned := h.leased q hheld id htask
  cases hmove with
  | claim clock leaseSeconds locked task queue hphase hclaim =>
      refine howned.claim hclaim fun hid => hfree (Or.inr (Or.inl ?_))
      exact ⟨task, queue, hclaim, q, hid ▸ htask, hheld⟩
  | tick now cycles rows ops hphase hlimit hsome heffect =>
      exact absurd (Or.inl ⟨⟨cycles, hlimit, hphase⟩, q, hheld⟩) hfree
  | resumed now token key hphase hfind hwaiting hsuspended => exact howned.enqueue _ _
  | extend expiresAt k hother => exact howned.extend expiresAt
  | requeue runAfter k hother => exact howned.own (Ne.symm hq) _
  | release k status hphase hother => exact howned.own (Ne.symm hq) _
  | _ => exact howned

/-- A tick that starts nodes leaves the queue alone. -/
theorem Effect.ops_of_ready {rows' : RunRows Value} {ops : List QueueOp}
    (h : Effect env.graph s.rows (.tick now) rows' ops)
    (hready : readyKeys (snapshot env.graph s.rows) ≠ []) : ops = [] := by
  cases h with
  | tick now hfan hstatus => rfl
  | conclude now target hfan hstatus hne hlegal =>
      rw [conclusion_running_iff.mpr (Or.inl hready)] at hstatus
      obtain rfl := Option.some.inj hstatus
      rfl
  | settle t now key result rejected ht hkey hrunning hstorable =>
      rcases ht with ht | ⟨ht, -⟩ <;> cases ht

/-- The process that moved has its lease, if it has anything in hand. -/
theorem RecordOk.leased_of_self (h : RecordOk env s) (hmove : Move env s p a s')
    (hfree : ¬ Displaces env s (p, a)) (hheld' : (s'.procs p).phase.held ≠ []) : s'.Leased p := by
  -- Where the queue and the task are as they were, so is the lease.
  have hkept : (s'.procs p).task = (s.procs p).task → s'.queue = s.queue →
      (s'.procs p).phase.launched.Sublist (s.procs p).phase.launched → s'.Leased p := by
    intro htask hqueue hlaunched id hid
    have hheld : (s.procs p).phase.held ≠ [] := fun hc => hheld' <| List.sublist_nil.mp
      (hc ▸ held_subset_of_sublist hlaunched)
    rw [hqueue]
    exact h.leased p hheld id (htask ▸ hid)
  cases hmove with
  | claim clock leaseSeconds locked task queue hphase hclaim =>
      simp [Phase.held, Phase.launched] at hheld'
  | tick now cycles rows ops hphase hlimit hsome heffect =>
      have hready : readyKeys (snapshot env.graph s.rows) ≠ [] := by
        intro hc
        rw [Sys.moved_self, launches_decisions, hc] at hheld'
        exact hheld' rfl
      have hleased : s.Leased p := by
        by_contra hc
        exact hfree (Or.inr (Or.inr ⟨⟨cycles, hlimit, hphase⟩, hready, hc⟩))
      intro id hid
      rw [Sys.moved_self] at hid
      rw [Sys.moved_queue, heffect.ops_of_ready hready]
      exact hleased id hid
  | resumed now token key hphase hfind hwaiting hsuspended =>
      intro id hid
      rw [Sys.moved_self] at hid
      rw [h.untasked p (Or.inr ⟨token, s.rows, hphase⟩)] at hid
      cases hid
  | invoke key outcome cycles snap batch hphase hopen =>
      have hsub :
          (Phase.invoking cycles snap (invokeIn env snap key outcome batch)).held.Sublist _ :=
        invokeIn_held snap key outcome cycles batch
      rw [Sys.moved_self] at hheld'
      intro id hid
      rw [Sys.moved_self] at hid
      refine h.leased p (fun hc => hheld' ?_) id hid
      rw [hphase] at hc
      rw [hc] at hsub
      exact List.sublist_nil.mp hsub
  | gather cycles snap batch todo hphase hall =>
      refine hkept (by rw [Sys.moved_self]) rfl ?_
      rw [Sys.moved_self, hphase]
      exact (gathered_launched hall) ▸ List.Sublist.refl _
  | skipEscaped cycles l error rest failed hphase =>
      refine hkept (by rw [Sys.moved_self]) rfl ?_
      rw [Sys.moved_self, hphase]
      exact List.sublist_cons_self _ _
  | beginSettle cycles l outcome rest failed hphase hrecorded =>
      refine hkept (by rw [Sys.moved_self]) rfl ?_
      rw [Sys.moved_self, hphase]
      exact List.Sublist.refl _
  | settle now rejected cycles l outcome result todo failed hphase hrecorded hkey hrunning
    hstorable =>
      refine hkept (by rw [Sys.moved_self]) rfl ?_
      rw [Sys.moved_self, hphase]
      exact List.sublist_cons_self _ _
  | extend expiresAt id' htask' =>
      intro id hid
      simp only [Function.update_self] at hheld' hid
      exact (h.leased p hheld' id hid).extend expiresAt
  | requeue runAfter id' htask' =>
      rw [show (_ : Sys P Value).procs p = Process.idle from Sys.raised_self] at hheld'
      exact absurd rfl hheld'
  | release id' status hphase htask' =>
      rw [show (_ : Sys P Value).procs p = Process.idle from Sys.raised_self] at hheld'
      exact absurd rfl hheld'
  | raised a hnot =>
      rw [Sys.raised_self] at hheld'
      exact absurd rfl hheld'
  | _ =>
      rw [Sys.moved_self] at hheld'
      exact absurd rfl hheld'

/-- A claim is the only way to a task, and it leads away from idleness. -/
theorem RecordOk.untasked_step (h : RecordOk env s) (hmove : Move env s p a s')
    (hphase' : (s'.procs q).phase = .idle ∨
      ∃ token snap, (s'.procs q).phase = .resuming token snap) : (s'.procs q).task = none := by
  by_cases hq : q = p
  swap
  · rw [hmove.procs_ne hq] at hphase' ⊢
    exact h.untasked q hphase'
  subst hq
  cases hmove with
  | resume token hphase =>
      rw [Sys.moved_self]
      exact h.untasked q (Or.inl hphase)
  | claim clock leaseSeconds locked task queue hphase hclaim =>
      simp at hphase'
  | extend expiresAt id htask =>
      simp only [Function.update_self] at hphase' ⊢
      exact h.untasked q hphase'
  | requeue runAfter id htask =>
      rw [show (_ : Sys P Value).procs q = Process.idle from Sys.raised_self]
      rfl
  | release id status hphase htask =>
      rw [show (_ : Sys P Value).procs q = Process.idle from Sys.raised_self]
      rfl
  | raised a hnot =>
      rw [Sys.raised_self]
      rfl
  | _ =>
      rw [Sys.moved_self] at hphase'
      simp at hphase'

/-- What a process has in hand stays of the attempt on its row. -/
theorem RecordOk.attempts_step (h : RecordOk env s) (hok : SysOk env s)
    (hmove : Move env s p a s') (hfree : ¬ Overlaps env s (p, a))
    {e : Launch × Option (Outcome Value)} (he : e ∈ (s'.procs q).phase.launched)
    (hescaped : isEscaped e = false) :
    e.1.attempt = (s'.rows.executions e.1.key).attempt := by
  have hhand := hmove.handover
  by_cases hq : q = p
  swap
  · rw [hmove.procs_ne hq] at he
    have hheld : (s.procs q).phase.held ≠ [] :=
      List.ne_nil_of_mem (mem_held.mpr ⟨e, he, hescaped, rfl⟩)
    rw [h.exclusion.rows_of_other hok hmove hfree hq hheld]
    exact h.attempts q e he hescaped
  subst hq
  cases hhand with
  | keep a s' hrows hquiet hlaunched =>
      rw [hrows]
      exact h.attempts q e (hlaunched.subset he) hescaped
  | invoke key outcome s' cycles snap batch hphase hopen hrows hphase' =>
      rw [hphase'] at he
      obtain ⟨d, hd, rfl⟩ := List.mem_map.mp he
      rw [hrows]
      rw [invokeEntry_launch]
      exact h.attempts q d (by rw [hphase]; exact hd) (escaped_of_invokeEntry hescaped)
  | settle now rejected s' l outcome result hlaunched hrecorded hrunning hrows =>
      rw [hrows, RunRows.append_executions]
      have hattempt := h.attempts q e (hlaunched ▸ List.mem_cons_of_mem _ he) hescaped
      by_cases hk : e.1.key = l.key
      · rw [hattempt, hk, RunRows.write_self]
        cases result <;> rfl
      · rw [RunRows.write_ne _ _ hk]
        exact hattempt
  | tick now s' cycles ops hphase hlimit hphase' heffect =>
      rw [hphase'] at he
      obtain ⟨k, -, rfl⟩ := List.mem_map.mp he
      rfl
  | resumed now s' token key hphase hphase' hfind hwaiting hsuspended hrows =>
      rw [hphase'] at he
      obtain rfl := List.mem_singleton.mp he
      rw [hrows, resumed_self]

/-- **Recording keeps its ground while nothing is displaced.** -/
theorem RecordOk.step (h : RecordOk env s) (hok : SysOk env s) (hmove : Move env s p a s')
    (hfree : ¬ Displaces env s (p, a)) : RecordOk env s' := by
  have hfree' : ¬ Overlaps env s (p, a) := fun hc => hfree (Or.inl hc)
  refine ⟨h.exclusion.step hok hmove hfree', ?_, ?_, fun q => h.untasked_step hmove⟩
  · intro q e he hescaped
    exact h.attempts_step hok hmove hfree' he hescaped
  · intro q hheld'
    by_cases hq : q = p
    · subst hq
      exact h.leased_of_self hmove hfree hheld'
    · rw [hmove.procs_ne hq] at hheld'
      exact h.leased_of_other hmove hfree hq hheld'

/-- What is recorded was in hand. -/
theorem RecordOk.current (h : RecordOk env s) (hok : SysOk env s) : Current env s (p, a) := by
  intro s' hstep l hl
  have hmove := hok.step_move hstep
  unfold recorded at hl
  split at hl
  case h_2 => cases hl
  case h_1 now rejected cycles snap l' outcome todo failed cycles' todo' failed' ha hphase
    hphase' =>
  obtain rfl := Option.some.inj hl
  have hrecorded := (h.exclusion.fresh p _ _ _ _ _ _ hphase).1
  have hmem : (l', some outcome) ∈ (s.procs p).phase.launched := by
    rw [hphase]
    exact List.mem_cons_self
  have hescaped : isEscaped (l', some outcome) = false := by
    cases outcome with
    | refused => rfl
    | returned result => rfl
    | escaped error => cases hrecorded
  refine ⟨h.attempts p _ hmem hescaped, h.leased p ?_⟩
  exact List.ne_nil_of_mem (mem_held.mpr ⟨_, hmem, hescaped, rfl⟩)

theorem start_recordOk (env : Env Value) (now : Time) : RecordOk env (Sys.start P env now) where
  exclusion := start_exclusionOk env now
  attempts := by
    intro p e he
    cases he
  leased := fun _ h => absurd rfl h
  untasked := fun _ _ => rfl

/--
**Nothing stale is recorded where nothing is displaced.**  In every run in which no tick is
applied while a process has a launch in hand, no such process has its task claimed by
another, and no worker starts nodes once its lease is lost: every outcome recorded is that
of the attempt on the row at that moment, and a worker that records one holds its lease.
-/
theorem recorded_current {tr : List (P × Action Value)}
    (h : Trace.run (Sys.step env) (Sys.start P env now) tr = some s)
    (hfree : Trace.Along (Sys.step env) (fun s a => ¬ Displaces env s a) (Sys.start P env now) tr) :
    Trace.Along (Sys.step env) (Current env) (Sys.start P env now) tr := by
  refine (Trace.along_of_invariant (start_recordOk env now) ?_ ?_ h hfree).2
  · intro tr s step s' hrun hrecord _ _
    exact hrecord.current (sys_ok hrun)
  · intro tr s step s' hrun hrecord hdisplaced hstep
    obtain ⟨p, a⟩ := step
    have hok : SysOk env s := sys_ok hrun
    exact hrecord.step hok (hok.step_move hstep) hdisplaced

end Steps

/-! ### One worker, and two -/

/-- Where it could displace something, nobody has anything in hand and the worker has its lease. -/
def steady (s : Sys Bool Unit) (a : Bool × Action Unit) : Bool :=
  match a.2 with
  | .commitTick _ | .claim _ _ _ =>
      (s.procs true).phase.held.isEmpty && (s.procs false).phase.held.isEmpty &&
        (s.procs a.1).task.all fun id => s.queue.any (QueueTable.owns a.1 id)
  | _ => true

theorem not_displaces_of_steady {s : Sys Bool Unit} {a : Bool × Action Unit}
    (h : steady s a = true) : ¬ Displaces rejoinEnv s a := by
  obtain ⟨p, a⟩ := a
  have hnone : (s.procs true).phase.held.isEmpty = true ∧
      (s.procs false).phase.held.isEmpty = true →
      ∀ q, (s.procs q).phase.held = [] := by
    intro hboth q
    cases q with
    | true => exact List.isEmpty_iff.mp hboth.1
    | false => exact List.isEmpty_iff.mp hboth.2
  cases a with
  | commitTick now =>
      simp only [steady, Bool.and_eq_true] at h
      obtain ⟨hheld, hleased⟩ := h
      rintro (⟨-, q, hq⟩ | htake | ⟨-, -, hlost⟩)
      · exact hq (hnone hheld q)
      · exact htake
      · refine hlost fun id htask => ?_
        rw [htask] at hleased
        exact List.any_eq_true.mp hleased
  | claim now leaseSeconds locked =>
      simp only [steady, Bool.and_eq_true] at h
      rintro (hover | ⟨task, queue, -, q, -, hq⟩ | hstarts)
      · exact hover
      · exact hq (hnone h.1 q)
      · exact hstarts
  | _ =>
      rintro (hc | hc | hc) <;> exact hc

/-- What a worker on its own records is current. -/
theorem rejoin_current : Trace.Along (Sys.step rejoinEnv) (Current rejoinEnv)
    (Sys.start Bool rejoinEnv 0) ((rejoinDrive (.completed [])).map (true, ·)) := by
  obtain ⟨s, hrun⟩ := Option.isSome_iff_exists.mp rejoinDrive_runs
  have hsteady : Trace.Along (Sys.step rejoinEnv) (fun s a => steady s a = true)
      (Sys.start Bool rejoinEnv 0) ((rejoinDrive (.completed [])).map (true, ·)) := by
    decide +kernel
  exact recorded_current hrun (hsteady.imp fun _ _ => not_displaces_of_steady)

/--
The worker `true` claims the run and starts `trigger`; its lease expires, and the worker
`false` claims the run, recovers `trigger` and starts it again; then `true` invokes it.
-/
def reclaimed : List (Bool × Action Unit) :=
  [(true, .claim 0 10 []), (true, .beginTick), (true, .commitTick 0), (false, .claim 20 10 []),
    (false, .beginTick), (false, .commitTick 20),
    (true, .invoke "trigger" (.returned (.completed [("main", ())]))), (true, .gather),
    (true, .beginSettle)]

/--
The worker that lost the run records its first attempt of `trigger` on the row of the
second, before the worker that holds the lease has recorded anything.
-/
theorem stale_outcome_recorded : ∃ s s', Trace.run (Sys.step rejoinEnv)
      (Sys.start Bool rejoinEnv 0) reclaimed = some s ∧
    s.step rejoinEnv (true, .commitSettle 21 false) = some s' ∧
    recorded s (true, .commitSettle 21 false) s' = some ⟨"trigger", 1, none⟩ ∧
    (s.rows.executions "trigger").attempt = 2 ∧ ¬ s.Leased true ∧
    (s'.rows.executions "trigger").status = .succeeded ∧
    ¬ Current rejoinEnv s (true, .commitSettle 21 false) := by
  have heval : ((Trace.run (Sys.step rejoinEnv) (Sys.start Bool rejoinEnv 0) reclaimed).bind
      fun s => (s.step rejoinEnv (true, .commitSettle 21 false)).map fun s' =>
        (recorded s (true, .commitSettle 21 false) s', (s.rows.executions "trigger").attempt,
          (s.procs true).task, s.queue.any (QueueTable.owns true 0),
          (s'.rows.executions "trigger").status))
      = some (some ⟨"trigger", 1, none⟩, 2, some 0, false, .succeeded) := by
    decide +kernel
  obtain ⟨s, hrun, hvalues⟩ := Option.bind_eq_some_iff.mp heval
  obtain ⟨s', hstep, hvalues⟩ := Option.map_eq_some_iff.mp hvalues
  simp only [Prod.mk.injEq] at hvalues
  obtain ⟨hrecorded, hattempt, htask, howner, hstatus⟩ := hvalues
  have hlost : ¬ s.Leased true := by
    intro hc
    obtain ⟨t, ht, howns⟩ := hc 0 htask
    rw [List.any_eq_true.mpr ⟨t, ht, howns⟩] at howner
    cases howner
  exact ⟨s, s', hrun, hstep, hrecorded, hattempt, hlost, hstatus,
    fun hcurrent => hlost (hcurrent s' hstep _ hrecorded).2⟩

end Orqent
