/-
The loop of a worker, and what it survives.

`run` claims a task, processes it, and asks for the next until it is told to stop.
`process` runs the heartbeat beside the advance, stops it when the advance is over, and
settles the task.  The queue and the run service are outside: a call of theirs returns
what the action says, or raises an exception.

A heartbeat that has raised keeps its exception until it is awaited.  That happens in the
`finally` of `process`, which only a cancellation gets past, so the exception replaces
whatever the advance came to, and nothing above handles it.  Nor is one from the release
handled.  Only what the advance raises is caught.
-/
import Orqent.Worker.Process

namespace Orqent

variable {Worker : Type}

/-! ### The loop -/

/-- A task the loop has claimed. -/
structure ClaimedTask (Worker : Type) where
  taskId : Nat
  lease : Lease Worker
deriving DecidableEq, Repr

/-- Where the heartbeat of the last task is. -/
inductive Heartbeat (Worker : Type)
  | sleeping (lease : Lease Worker)
  /-- Waiting for the queue to extend the lease. -/
  | extending (lease : Lease Worker) (expiresAt : Nat)
  /-- It was refused, has set `lost` and returned. -/
  | refused
  | raised
  | cancelled
deriving DecidableEq, Repr

/-- Where the worker is. -/
inductive LoopPhase (Worker : Type)
  /-- Before the loop asks whether to stop. -/
  | looping
  | claiming
  | idling
  | advancing (task : ClaimedTask Worker)
  /-- The advance returned this status, or raised; the heartbeat is cancelled and awaited. -/
  | stoppingHeartbeat (task : ClaimedTask Worker) (run : Option RunStatus)
  | releasing (task : ClaimedTask Worker) (runStatus : RunStatus)
  /-- `process` returned. -/
  | returned (task : ClaimedTask Worker) (outcome : TaskOutcome)
  | stopped
  /-- An exception left `process`, and `run` with it. -/
  | raised (task : ClaimedTask Worker)
deriving DecidableEq, Repr

/-- Where the worker and its last heartbeat are, and whether it was told to stop. -/
structure Loop (Worker : Type) where
  phase : LoopPhase Worker
  heartbeat : Heartbeat Worker
  stopping : Bool
deriving DecidableEq, Repr

/-- What happens next; `none` is a call that raised. -/
inductive LoopAction (Worker : Type)
  | stop
  | turn
  | claimed (task : Option (ClaimedTask Worker))
  /-- The poll interval is over, or a stop was asked for. -/
  | idled
  | wake (now : Nat)
  | extended (applied : Option Bool)
  | advanced (run : Option RunStatus)
  /-- The heartbeat is gone; `raises` says that the call it was in raised when interrupted. -/
  | heartbeatStopped (raises : Bool)
  | released (applied : Option Bool)
deriving DecidableEq, Repr

/-- One thing the heartbeat does. -/
def Heartbeat.step (policy : FixedLeasePolicy) :
    Heartbeat Worker → LoopAction Worker → Option (Heartbeat Worker)
  | .sleeping lease, .wake now =>
      some (if policy.shouldExtend lease now then .extending lease (policy.leaseFor now)
        else .sleeping lease)
  | .extending _ _, .extended none => some .raised
  | .extending _ _, .extended (some false) => some .refused
  | .extending lease expiresAt, .extended (some true) =>
      match lease.extendedTo expiresAt with
      | .ok lease => some (.sleeping lease)
      | .error _ => some .raised
  | _, _ => none

/-- Cancel it and wait for it to be gone.  Only a call it is in can raise for that. -/
def Heartbeat.stop (raises : Bool) : Heartbeat Worker → Option (Heartbeat Worker)
  | .sleeping _ => if raises then none else some .cancelled
  | .extending _ _ => some (if raises then .raised else .cancelled)
  | ended => if raises then none else some ended

/-- What `process` does when the heartbeat is gone. -/
def afterHeartbeat (task : ClaimedTask Worker) :
    Option RunStatus → Heartbeat Worker → LoopPhase Worker
  | _, .raised => .raised task
  | none, _ => .returned task .failed
  | some runStatus, .refused => .returned task (settle runStatus true false)
  | some runStatus, _ => .releasing task runStatus

/-- One thing the worker does. -/
def Loop.step (policy : FixedLeasePolicy) (s : Loop Worker) (a : LoopAction Worker) :
    Option (Loop Worker) :=
  match a, s.phase with
  | .stop, _ => some { s with stopping := true }
  | .turn, .looping | .turn, .returned _ _ =>
      some { s with phase := if s.stopping then .stopped else .claiming }
  | .claimed none, .claiming => some { s with phase := .idling }
  | .claimed (some task), .claiming =>
      some { s with phase := .advancing task, heartbeat := .sleeping task.lease }
  | .idled, .idling => some { s with phase := .looping }
  | .wake _, .advancing _ | .extended _, .advancing _ =>
      (s.heartbeat.step policy a).map fun heartbeat => { s with heartbeat }
  | .advanced run, .advancing task => some { s with phase := .stoppingHeartbeat task run }
  | .heartbeatStopped raises, .stoppingHeartbeat task run =>
      (s.heartbeat.stop raises).map fun heartbeat =>
        { s with phase := afterHeartbeat task run heartbeat, heartbeat }
  | .released none, .releasing task _ => some { s with phase := .raised task }
  | .released (some applied), .releasing task runStatus =>
      some { s with phase := .returned task (settle runStatus false applied) }
  | _, _ => none

/-- Before the first turn. -/
def Loop.start (Worker : Type) : Loop Worker := ⟨.looping, .cancelled, false⟩

/-! ### What it is to survive -/

/-- Whether a call of the queue raises in this. -/
@[simp] def LoopAction.raises : LoopAction Worker → Bool
  | .extended applied | .released applied => applied.isNone
  | .heartbeatStopped raises => raises
  | _ => false

/-- Whether a task is being processed. -/
def LoopPhase.processing : LoopPhase Worker → Bool
  | .advancing _ | .stoppingHeartbeat _ _ | .releasing _ _ => true
  | _ => false

/-- The heartbeat goes on. -/
@[simp] def Heartbeat.running : Heartbeat Worker → Bool
  | .sleeping _ | .extending _ _ => true
  | _ => false

/-- What is noted of a run of the loop. -/
inductive LoopNote
  | claimed (taskId : Nat)
  | advanceRaised (taskId : Nat)
  | returned (taskId : Nat) (outcome : TaskOutcome)
deriving DecidableEq, Repr

/-- The task that was claimed. -/
@[simp] def LoopNote.claimedId : LoopNote → Option Nat
  | .claimed taskId => some taskId
  | _ => none

/-- The task whose advance has raised. -/
@[simp] def LoopNote.advanceRaisedId : LoopNote → Option Nat
  | .advanceRaised taskId => some taskId
  | _ => none

/-- The task that was processed. -/
@[simp] def LoopNote.returnedId : LoopNote → Option Nat
  | .returned taskId _ => some taskId
  | _ => none

/-- The task that was processed without success. -/
@[simp] def LoopNote.failedId : LoopNote → Option Nat
  | .returned taskId outcome => if outcome = .failed then some taskId else none
  | _ => none

/-- What is noted of one action. -/
def Loop.notes (a : LoopAction Worker) (s' : Loop Worker) : List LoopNote :=
  match a, s'.phase with
  | .claimed _, .advancing task => [.claimed task.taskId]
  | .advanced none, .stoppingHeartbeat task _ => [.advanceRaised task.taskId]
  | .heartbeatStopped _, .returned task outcome => [.returned task.taskId outcome]
  | .released _, .returned task outcome => [.returned task.taskId outcome]
  | _, _ => []

/-- What is noted of a run. -/
def loopNotes (policy : FixedLeasePolicy) (s : Loop Worker) (tr : List (LoopAction Worker)) :
    List LoopNote :=
  Trace.collect (Loop.step policy) (fun _ a s' => Loop.notes a s') s tr

/-- What the loop does of its own accord, whatever it is given. -/
def LoopAction.polls : LoopAction Worker → Bool
  | .turn | .claimed _ | .idled => true
  | _ => false

/-- Every task claimed has its outcome, `FAILED` where its advance raised; no heartbeat is
left; and without a stop the next task can be claimed, whatever it is. -/
structure Survives (policy : FixedLeasePolicy) (ns : List LoopNote) (s : Loop Worker) : Prop where
  returned : ns.filterMap LoopNote.returnedId = ns.filterMap LoopNote.claimedId
  failed : ns.filterMap LoopNote.failedId = ns.filterMap LoopNote.advanceRaisedId
  quiet : s.heartbeat.running = false
  goesOn : s.stopping = false → ∀ task, ∃ tr s',
    Trace.run (Loop.step policy) s tr = some s' ∧ s'.phase = .advancing task ∧
      ∀ a ∈ tr, a.polls = true

/-! ### The heartbeat -/

section Heartbeats

variable {policy : FixedLeasePolicy} {h h' : Heartbeat Worker} {a : LoopAction Worker}
  {raises : Bool}

/-- The lease it is extending can be moved to the deadline it has asked for. -/
def Heartbeat.Ok : Heartbeat Worker → Prop
  | .extending lease expiresAt => lease.expiresAt ≤ expiresAt
  | _ => True

/-- A round of the heartbeat raises only where the queue does. -/
theorem Heartbeat.step_ok (hok : h.Ok) (hstep : h.step policy a = some h') :
    h'.Ok ∧ h.running = true ∧ (h' = .raised ↔ a.raises = true) := by
  unfold Heartbeat.step at hstep
  split at hstep
  · rename_i lease now
    obtain rfl := Option.some.inj hstep
    refine ⟨?_, rfl, ?_⟩
    · split
      · rename_i hextend
        have hle := FixedLeasePolicy.shouldExtend_iff.mp hextend
        unfold Heartbeat.Ok FixedLeasePolicy.leaseFor
        dsimp only
        omega
      · trivial
    · split <;> simp [LoopAction.raises]
  · obtain rfl := Option.some.inj hstep
    exact ⟨trivial, rfl, by simp [LoopAction.raises]⟩
  · obtain rfl := Option.some.inj hstep
    exact ⟨trivial, rfl, by simp [LoopAction.raises]⟩
  · rename_i lease expiresAt
    have hmoved : lease.extendedTo expiresAt = .ok ⟨lease.owner, expiresAt⟩ := by
      unfold Lease.extendedTo
      rw [if_neg (Nat.not_lt.mpr hok)]
    rw [hmoved] at hstep
    obtain rfl := Option.some.inj hstep
    exact ⟨trivial, rfl, by simp [LoopAction.raises]⟩
  · simp at hstep

theorem Heartbeat.step_notes (hstep : h.step policy a = some h') (s' : Loop Worker) :
    Loop.notes a s' = [] := by
  unfold Heartbeat.step at hstep
  split at hstep
  · rfl
  · rfl
  · rfl
  · rfl
  · simp at hstep

/-- A heartbeat that was stopped is gone; it has raised where it had before, or was
interrupted in a call that did. -/
theorem Heartbeat.stop_ok (hstop : h.stop raises = some h') :
    h'.Ok ∧ h'.running = false ∧ (h' = .raised ↔ h = .raised ∨ raises = true) := by
  cases h <;> cases raises <;> simp [Heartbeat.stop] at hstop <;> subst hstop <;>
    simp [Heartbeat.running, Heartbeat.Ok]

end Heartbeats

/-! ### The runs of the loop -/

/-- The tasks claimed that no outcome has been returned for. -/
@[simp] def LoopPhase.owed : LoopPhase Worker → List Nat
  | .advancing task | .stoppingHeartbeat task _ | .releasing task _ | .raised task => [task.taskId]
  | _ => []

/-- The tasks whose advance raised that have not been returned as failed. -/
@[simp] def LoopPhase.failing : LoopPhase Worker → List Nat
  | .stoppingHeartbeat task none => [task.taskId]
  | _ => []

/-- Whether the heartbeat may be running. -/
@[simp] def LoopPhase.beats : LoopPhase Worker → Bool
  | .advancing _ | .stoppingHeartbeat _ _ => true
  | _ => false

/-- The loop was left by an error. -/
@[simp] def LoopPhase.hasRaised : LoopPhase Worker → Bool
  | .raised _ => true
  | _ => false

/-- What one action can do. -/
inductive LoopMove (policy : FixedLeasePolicy) (s : Loop Worker) :
    LoopAction Worker → Loop Worker → Prop
  | asked : LoopMove policy s .stop { s with stopping := true }
  | turned (howed : s.phase.owed = []) (hbeats : s.phase.beats = false) :
      LoopMove policy s .turn { s with phase := if s.stopping then .stopped else .claiming }
  | nothing (hphase : s.phase = .claiming) :
      LoopMove policy s (.claimed none) { s with phase := .idling }
  | idled (hphase : s.phase = .idling) : LoopMove policy s .idled { s with phase := .looping }
  | claimed (task : ClaimedTask Worker) (hphase : s.phase = .claiming) :
      LoopMove policy s (.claimed (some task))
        { s with phase := .advancing task, heartbeat := .sleeping task.lease }
  | beat (a : LoopAction Worker) (task : ClaimedTask Worker) (heartbeat : Heartbeat Worker)
      (hphase : s.phase = .advancing task) (hstep : s.heartbeat.step policy a = some heartbeat) :
      LoopMove policy s a { s with heartbeat }
  | advanced (task : ClaimedTask Worker) (run : Option RunStatus)
      (hphase : s.phase = .advancing task) :
      LoopMove policy s (.advanced run) { s with phase := .stoppingHeartbeat task run }
  | joined (task : ClaimedTask Worker) (run : Option RunStatus) (raises : Bool)
      (heartbeat : Heartbeat Worker) (hphase : s.phase = .stoppingHeartbeat task run)
      (hstop : s.heartbeat.stop raises = some heartbeat) :
      LoopMove policy s (.heartbeatStopped raises)
        { s with phase := afterHeartbeat task run heartbeat, heartbeat }
  | releaseRaised (task : ClaimedTask Worker) (runStatus : RunStatus)
      (hphase : s.phase = .releasing task runStatus) :
      LoopMove policy s (.released none) { s with phase := .raised task }
  | released (task : ClaimedTask Worker) (runStatus : RunStatus) (applied : Bool)
      (hphase : s.phase = .releasing task runStatus) :
      LoopMove policy s (.released (some applied))
        { s with phase := .returned task (settle runStatus false applied) }

section Runs

variable {policy : FixedLeasePolicy} {s s' : Loop Worker} {a : LoopAction Worker}
  {tr : List (LoopAction Worker)} {ns : List LoopNote}

theorem loop_moves (h : s.step policy a = some s') : LoopMove policy s a s' := by
  obtain ⟨phase, heartbeat, stopping⟩ := s
  unfold Loop.step at h
  dsimp only at h
  split at h
  · obtain rfl := Option.some.inj h
    exact .asked
  · obtain rfl := Option.some.inj h
    exact .turned rfl rfl
  · obtain rfl := Option.some.inj h
    exact .turned rfl rfl
  · obtain rfl := Option.some.inj h
    exact .nothing rfl
  · obtain rfl := Option.some.inj h
    exact .claimed _ rfl
  · obtain rfl := Option.some.inj h
    exact .idled rfl
  · obtain ⟨heartbeat, hstep, rfl⟩ := Option.map_eq_some_iff.mp h
    exact .beat _ _ heartbeat rfl hstep
  · obtain ⟨heartbeat, hstep, rfl⟩ := Option.map_eq_some_iff.mp h
    exact .beat _ _ heartbeat rfl hstep
  · obtain rfl := Option.some.inj h
    exact .advanced _ _ rfl
  · obtain ⟨heartbeat, hstop, rfl⟩ := Option.map_eq_some_iff.mp h
    exact .joined _ _ _ heartbeat rfl hstop
  · obtain rfl := Option.some.inj h
    exact .releaseRaised _ _ rfl
  · obtain rfl := Option.some.inj h
    exact .released _ _ _ rfl
  · simp at h

theorem settle_ne_failed {runStatus : RunStatus} {lost released : Bool} :
    settle runStatus lost released ≠ .failed := by
  unfold settle
  split
  · simp
  · split
    · simp
    · split <;> simp

/-- Where the loop is, what is noted, and whether a call has raised. -/
structure LoopOk (tr : List (LoopAction Worker)) (ns : List LoopNote) (s : Loop Worker) :
    Prop where
  claimed : ns.filterMap LoopNote.claimedId = ns.filterMap LoopNote.returnedId ++ s.phase.owed
  failed : s.phase.hasRaised = false →
    ns.filterMap LoopNote.advanceRaisedId = ns.filterMap LoopNote.failedId ++ s.phase.failing
  heartbeat : s.heartbeat.Ok
  quiet : s.phase.beats = false → s.heartbeat.running = false
  raised : tr.any LoopAction.raises = true ↔ s.heartbeat = .raised ∨ s.phase.hasRaised = true
  kept : s.heartbeat = .raised → s.phase.beats = true ∨ s.phase.hasRaised = true
  stopped : s.phase = .stopped → s.stopping = true

/-- What is not a call leaves the heartbeat and the accounts alone. -/
theorem LoopOk.aside (h : LoopOk tr ns s) (hquiet : a.raises = false)
    (hnotes : Loop.notes a s' = [])
    (howed : s'.phase.owed = s.phase.owed) (hfailing : s'.phase.failing = s.phase.failing)
    (hbeats : s'.phase.beats = s.phase.beats) (hraised : s'.phase.hasRaised = s.phase.hasRaised)
    (hheartbeat : s'.heartbeat = s.heartbeat)
    (hstopped : s'.phase = .stopped → s'.stopping = true) :
    LoopOk (tr ++ [a]) (ns ++ Loop.notes a s') s' := by
  rw [hnotes, List.append_nil]
  refine ⟨?_, ?_, ?_, ?_, ?_, ?_, hstopped⟩
  · rw [howed]
    exact h.claimed
  · rw [hraised, hfailing]
    exact h.failed
  · rw [hheartbeat]
    exact h.heartbeat
  · rw [hbeats, hheartbeat]
    exact h.quiet
  · rw [hheartbeat, hraised, List.any_append, List.any_cons, hquiet]
    simpa using h.raised
  · rw [hheartbeat, hbeats, hraised]
    exact h.kept

/-- A task that is claimed is owed an outcome, and its heartbeat starts. -/
theorem LoopOk.claim (h : LoopOk tr ns s) (hphase : s.phase = .claiming)
    (task : ClaimedTask Worker) :
    LoopOk (tr ++ [.claimed (some task)]) (ns ++ [.claimed task.taskId])
      { s with phase := .advancing task, heartbeat := .sleeping task.lease } := by
  have hclaimed := h.claimed
  have hfailed := h.failed
  have hcalm : tr.any LoopAction.raises = false := by
    rw [← Bool.not_eq_true, h.raised]
    simpa [hphase] using h.kept
  simp only [hphase, LoopPhase.owed, LoopPhase.failing, LoopPhase.hasRaised, forall_const]
    at hclaimed hfailed
  refine ⟨?_, fun _ => ?_, trivial, fun hbeats => ?_, ?_, fun hc => ?_, fun hc => ?_⟩
  · simp [hclaimed, List.filterMap_cons]
  · simp [hfailed, List.filterMap_cons]
  · simp at hbeats
  · simp [hcalm]
  · simp at hc
  · simp at hc

/-- A round of the heartbeat raises where its call of the queue does. -/
theorem LoopOk.beat (h : LoopOk tr ns s) {task : ClaimedTask Worker}
    {heartbeat : Heartbeat Worker} (hphase : s.phase = .advancing task)
    (hbeat : s.heartbeat.step policy a = some heartbeat) :
    LoopOk (tr ++ [a]) ns { s with heartbeat } := by
  obtain ⟨hok, hrunning, hraises⟩ := Heartbeat.step_ok h.heartbeat hbeat
  have hcalm : tr.any LoopAction.raises = false := by
    rw [← Bool.not_eq_true, h.raised, hphase]
    rintro (hc | hc)
    · simp [hc] at hrunning
    · simp at hc
  refine ⟨h.claimed, h.failed, hok, fun hbeats => ?_, ?_, fun _ => Or.inl ?_, h.stopped⟩
  · simp [hphase] at hbeats
  · simp [hcalm, hraises, hphase]
  · simp [hphase]

theorem LoopOk.advance (h : LoopOk tr ns s) {task : ClaimedTask Worker}
    (hphase : s.phase = .advancing task) (run : Option RunStatus) :
    LoopOk (tr ++ [.advanced run])
      (ns ++ Loop.notes (.advanced run) { s with phase := .stoppingHeartbeat task run })
      { s with phase := .stoppingHeartbeat task run } := by
  have hclaimed := h.claimed
  have hfailed := h.failed
  have hraised := h.raised
  simp only [hphase, LoopPhase.owed, LoopPhase.failing, LoopPhase.hasRaised, List.append_nil,
    Bool.false_eq_true, or_false, forall_const] at hclaimed hfailed hraised
  refine ⟨?_, fun _ => ?_, h.heartbeat, fun hbeats => ?_, ?_, fun _ => Or.inl rfl, fun hc => ?_⟩
  · cases run <;> simp [Loop.notes, hclaimed, List.filterMap_cons]
  · cases run <;> simp [Loop.notes, hfailed, List.filterMap_cons]
  · simp at hbeats
  · simp [hraised]
  · simp at hc

/-- Where the heartbeat did not raise, the task has its outcome or is released next. -/
theorem LoopOk.join (h : LoopOk tr ns s) {task : ClaimedTask Worker} {run : Option RunStatus}
    {raises : Bool} {heartbeat : Heartbeat Worker} (hphase : s.phase = .stoppingHeartbeat task run)
    (hstop : s.heartbeat.stop raises = some heartbeat) :
    LoopOk (tr ++ [.heartbeatStopped raises])
      (ns ++ Loop.notes (.heartbeatStopped raises)
        { s with phase := afterHeartbeat task run heartbeat, heartbeat })
      { s with phase := afterHeartbeat task run heartbeat, heartbeat } := by
  obtain ⟨hok, hgone, hjoined⟩ := Heartbeat.stop_ok hstop
  have hclaimed := h.claimed
  have hfailed := h.failed
  have hraised := h.raised
  simp only [hphase, LoopPhase.owed, LoopPhase.hasRaised, Bool.false_eq_true, or_false,
    forall_const] at hclaimed hfailed hraised
  have hany : (tr ++ [LoopAction.heartbeatStopped raises]).any LoopAction.raises = true ↔
      heartbeat = .raised := by
    rw [hjoined, List.any_append, Bool.or_eq_true, hraised]
    cases raises <;> simp
  cases heartbeat with
  | sleeping | extending => simp at hgone
  | raised =>
      refine ⟨?_, fun hc => ?_, trivial, fun _ => rfl, ?_, fun _ => Or.inr ?_, ?_⟩
      · cases run <;> simp [afterHeartbeat, Loop.notes, hclaimed]
      · cases run <;> simp [afterHeartbeat] at hc
      · exact hany.trans ⟨Or.inl, fun _ => rfl⟩
      · cases run <;> rfl
      · cases run <;> simp [afterHeartbeat]
  | refused =>
      refine ⟨?_, fun _ => ?_, trivial, fun _ => rfl, ?_, by simp, ?_⟩
      · cases run <;> simp [afterHeartbeat, Loop.notes, hclaimed, List.filterMap_cons]
      · cases run <;>
          simp [afterHeartbeat, Loop.notes, hfailed, List.filterMap_cons, settle_ne_failed]
      · rw [hany]
        cases run <;> simp [afterHeartbeat]
      · cases run <;> simp [afterHeartbeat]
  | cancelled =>
      refine ⟨?_, fun _ => ?_, trivial, fun _ => rfl, ?_, by simp, ?_⟩
      · cases run <;> simp [afterHeartbeat, Loop.notes, hclaimed, List.filterMap_cons]
      · cases run <;> simp [afterHeartbeat, Loop.notes, hfailed, List.filterMap_cons]
      · rw [hany]
        cases run <;> simp [afterHeartbeat]
      · cases run <;> simp [afterHeartbeat]

/-- A release raises, or the task has its outcome. -/
theorem LoopOk.release (h : LoopOk tr ns s) {task : ClaimedTask Worker} {runStatus : RunStatus}
    (hphase : s.phase = .releasing task runStatus) (applied : Option Bool)
    (hstep : s.step policy (.released applied) = some s') :
    LoopOk (tr ++ [.released applied]) (ns ++ Loop.notes (.released applied) s') s' := by
  have hclaimed := h.claimed
  have hfailed := h.failed
  have hquiet := h.quiet
  have hkept : s.heartbeat ≠ .raised := fun hc => by simpa [hphase] using h.kept hc
  have hcalm : tr.any LoopAction.raises = false := by
    rw [← Bool.not_eq_true, h.raised, hphase]
    simpa using hkept
  simp only [hphase, LoopPhase.owed, LoopPhase.failing, LoopPhase.hasRaised, LoopPhase.beats,
    List.append_nil, forall_const] at hclaimed hfailed hquiet
  unfold Loop.step at hstep
  cases applied with
  | none =>
      simp only [hphase] at hstep
      obtain rfl := Option.some.inj hstep
      refine ⟨?_, fun hc => ?_, h.heartbeat, fun _ => hquiet, ?_, fun _ => Or.inr rfl, ?_⟩
      · simp [Loop.notes, hclaimed]
      · simp at hc
      · simp
      · simp
  | some applied =>
      simp only [hphase] at hstep
      obtain rfl := Option.some.inj hstep
      refine ⟨?_, fun _ => ?_, h.heartbeat, fun _ => hquiet, ?_, fun hc => ?_, ?_⟩
      · simp [Loop.notes, hclaimed, List.filterMap_cons]
      · simp [Loop.notes, hfailed, List.filterMap_cons, settle_ne_failed]
      · simp [hcalm, hkept]
      · exact absurd hc hkept
      · simp

/-- A phase that owes nothing has nothing failing, and has not raised. -/
theorem LoopPhase.of_owed_nil {phase : LoopPhase Worker} (h : phase.owed = []) :
    phase.failing = [] ∧ phase.hasRaised = false := by
  cases phase <;> simp at h ⊢

theorem LoopOk.step (h : LoopOk tr ns s) (hstep : s.step policy a = some s') :
    LoopOk (tr ++ [a]) (ns ++ Loop.notes a s') s' := by
  cases loop_moves hstep with
  | asked => exact h.aside rfl rfl rfl rfl rfl rfl rfl fun _ => rfl
  | turned howed hbeats =>
      obtain ⟨hfailing, hraised⟩ := LoopPhase.of_owed_nil howed
      refine h.aside rfl rfl ?_ ?_ ?_ ?_ rfl ?_
      · rw [howed]
        dsimp only
        split <;> rfl
      · rw [hfailing]
        dsimp only
        split <;> rfl
      · rw [hbeats]
        dsimp only
        split <;> rfl
      · rw [hraised]
        dsimp only
        split <;> rfl
      · cases hstopping : s.stopping <;> simp
  | nothing hphase =>
      exact h.aside rfl rfl (by simp [hphase]) (by simp [hphase]) (by simp [hphase])
        (by simp [hphase]) rfl (by simp)
  | idled hphase =>
      exact h.aside rfl rfl (by simp [hphase]) (by simp [hphase]) (by simp [hphase])
        (by simp [hphase]) rfl (by simp)
  | claimed task hphase => exact h.claim hphase task
  | beat a task heartbeat hphase hbeat =>
      rw [Heartbeat.step_notes hbeat, List.append_nil]
      exact h.beat hphase hbeat
  | advanced task run hphase => exact h.advance hphase run
  | joined task run raises heartbeat hphase hstop => exact h.join hphase hstop
  | releaseRaised task runStatus hphase => exact h.release hphase none hstep
  | released task runStatus applied hphase => exact h.release hphase (some applied) hstep

theorem loop_ok (h : Trace.run (Loop.step policy) (Loop.start Worker) tr = some s) :
    LoopOk tr (loopNotes policy (Loop.start Worker) tr) s := by
  have hstart : LoopOk [] [] (Loop.start Worker) :=
    ⟨rfl, fun _ => rfl, trivial, fun _ => rfl, by simp [Loop.start], by simp [Loop.start],
      by simp [Loop.start]⟩
  refine Trace.run_induction (P := fun tr s =>
    LoopOk tr (loopNotes policy (Loop.start Worker) tr) s) hstart ?_ h
  intro tr s a s' hbefore hok hstep
  unfold loopNotes at hok ⊢
  rw [Trace.collect_snoc hbefore hstep]
  exact hok.step hstep

/-- Where no task is being processed and none was dropped, the next can be claimed. -/
theorem Loop.goes_on (hprocessing : s.phase.processing = false) (howed : s.phase.owed = [])
    (hstopped : s.phase ≠ .stopped) (hstopping : s.stopping = false) (task : ClaimedTask Worker) :
    ∃ us s', Trace.run (Loop.step policy) s us = some s' ∧ s'.phase = .advancing task ∧
      ∀ a ∈ us, a.polls = true := by
  obtain ⟨phase, heartbeat, stopping⟩ := s
  obtain rfl : stopping = false := hstopping
  cases phase with
  | looping => exact ⟨[.turn, .claimed (some task)], _, rfl, rfl, by simp [LoopAction.polls]⟩
  | claiming => exact ⟨[.claimed (some task)], _, rfl, rfl, by simp [LoopAction.polls]⟩
  | idling =>
      exact ⟨[.idled, .turn, .claimed (some task)], _, rfl, rfl, by simp [LoopAction.polls]⟩
  | returned => exact ⟨[.turn, .claimed (some task)], _, rfl, rfl, by simp [LoopAction.polls]⟩
  | stopped => exact absurd rfl hstopped
  | _ => simp at howed

/-- With these answers to its calls the worker comes to the end of the task in hand. -/
def Loop.Ends (policy : FixedLeasePolicy) (answers : List (LoopAction Worker)) (s : Loop Worker) :
    Prop :=
  ∃ us s', us ⊆ answers ∧ Trace.run (Loop.step policy) s us = some s' ∧
    s'.phase.processing = false

theorem Loop.Ends.step {answers : List (LoopAction Worker)} (ha : a ∈ answers)
    (hstep : s.step policy a = some s') (h : s'.Ends policy answers) : s.Ends policy answers := by
  obtain ⟨us, t, hus, hrun, hover⟩ := h
  refine ⟨a :: us, t, List.cons_subset.mpr ⟨ha, hus⟩, ?_, hover⟩
  rw [Trace.run_cons, hstep]
  exact hrun

/-- A call that is past its heartbeat is over or releases its task. -/
theorem afterHeartbeat_cases (task : ClaimedTask Worker) (run : Option RunStatus)
    (heartbeat : Heartbeat Worker) :
    (afterHeartbeat task run heartbeat).processing = false ∨
      ∃ runStatus, afterHeartbeat task run heartbeat = .releasing task runStatus := by
  cases heartbeat <;> cases run <;> simp [afterHeartbeat, LoopPhase.processing]

/-- **A call comes to its end**, whatever the advance comes to and the queue answers. -/
theorem Loop.call_ends (policy : FixedLeasePolicy) (s : Loop Worker) (run : Option RunStatus)
    (applied : Option Bool) :
    s.Ends policy [.advanced run, .heartbeatStopped false, .released applied] := by
  have hover : ∀ s : Loop Worker, s.phase.processing = false →
      s.Ends policy [.advanced run, .heartbeatStopped false, .released applied] :=
    fun s hphase => ⟨[], s, List.nil_subset _, rfl, hphase⟩
  have hreleasing : ∀ task runStatus heartbeat stopping,
      (⟨.releasing task runStatus, heartbeat, stopping⟩ : Loop Worker).Ends policy
        [.advanced run, .heartbeatStopped false, .released applied] := by
    intro task runStatus heartbeat stopping
    cases applied with
    | none => exact .step (a := .released none) (by simp) rfl (hover _ rfl)
    | some applied => exact .step (a := .released (some applied)) (by simp) rfl (hover _ rfl)
  have hstopping : ∀ task result heartbeat stopping,
      (⟨.stoppingHeartbeat task result, heartbeat, stopping⟩ : Loop Worker).Ends policy
        [.advanced run, .heartbeatStopped false, .released applied] := by
    intro task result heartbeat stopping
    obtain ⟨gone, hgone⟩ : ∃ gone, heartbeat.stop false = some gone := by
      cases heartbeat <;> exact ⟨_, rfl⟩
    have hstep : Loop.step policy ⟨.stoppingHeartbeat task result, heartbeat, stopping⟩
        (.heartbeatStopped false) = some ⟨afterHeartbeat task result gone, gone, stopping⟩ := by
      simp [Loop.step, hgone]
    refine .step (by simp) hstep ?_
    rcases afterHeartbeat_cases task result gone with hafter | ⟨runStatus, hafter⟩
    · exact hover _ hafter
    · rw [hafter]
      exact hreleasing ..
  obtain ⟨phase, heartbeat, stopping⟩ := s
  cases phase with
  | advancing task => exact .step (a := .advanced run) (by simp) rfl (hstopping ..)
  | stoppingHeartbeat task result => exact hstopping ..
  | releasing task runStatus => exact hreleasing ..
  | _ => exact hover _ rfl

end Runs

/--
**What one bad run can do to the worker.**
In every run of the loop, once the call in hand has come to its end (`Loop.call_ends`):
every task claimed has its outcome, `FAILED` where its advance raised, no heartbeat is
left, and the loop goes on until it is stopped, exactly if no call of the queue has raised.
-/
theorem survives_iff (policy : FixedLeasePolicy) (tr : List (LoopAction Worker)) (s : Loop Worker)
    (hrun : Trace.run (Loop.step policy) (Loop.start Worker) tr = some s)
    (hover : s.phase.processing = false) :
    Survives policy (loopNotes policy (Loop.start Worker) tr) s ↔
      ∀ a ∈ tr, a.raises = false := by
  have hok := loop_ok hrun
  have hbeats : s.phase.beats = false := by
    cases hphase : s.phase <;> simp [hphase, LoopPhase.processing] at hover ⊢
  have hraised : tr.any LoopAction.raises = true ↔ s.phase.hasRaised = true := by
    rw [hok.raised]
    refine ⟨fun hc => hc.elim (fun hheartbeat => ?_) id, Or.inr⟩
    refine (hok.kept hheartbeat).resolve_left fun hc => ?_
    exact Bool.false_ne_true (hbeats.symm.trans hc)
  have hcalm : (∀ a ∈ tr, a.raises = false) ↔ s.phase.hasRaised = false := by
    rw [← Bool.not_eq_true, ← hraised, Bool.not_eq_true, List.any_eq_false]
    simp only [Bool.not_eq_true]
  rw [hcalm]
  constructor
  · intro hsurvives
    by_contra hc
    have hlength := congrArg List.length (hok.claimed.symm.trans hsurvives.returned.symm)
    cases hphase : s.phase <;> simp [hphase] at hc hlength
  · intro hc
    have howed : s.phase.owed = [] := by
      cases hphase : s.phase <;> simp [hphase, LoopPhase.processing] at hover hc ⊢
    obtain ⟨hfailing, -⟩ := LoopPhase.of_owed_nil howed
    refine ⟨?_, ?_, hok.quiet hbeats, fun hstopping task => ?_⟩
    · rw [hok.claimed, howed, List.append_nil]
    · rw [hok.failed hc, hfailing, List.append_nil]
    · refine Loop.goes_on hover howed (fun hstopped => ?_) hstopping task
      simpa [hstopping] using hok.stopped hstopped

/-! ### Two tasks, and an extension that raises -/

/-- The first task's advance raises; the second one's is extended and released. -/
def twoTasks : List (LoopAction Bool) :=
  [.turn, .claimed (some ⟨0, ⟨true, 60 * second⟩⟩), .advanced none, .heartbeatStopped false,
    .turn, .claimed (some ⟨1, ⟨true, 90 * second⟩⟩), .wake (50 * second), .extended (some true),
    .advanced (some .running), .heartbeatStopped false, .released (some true)]

theorem twoTasks_survived : ∃ s,
    Trace.run (Loop.step minuteLease) (Loop.start Bool) twoTasks = some s ∧
      Survives minuteLease (loopNotes minuteLease (Loop.start Bool) twoTasks) s := by
  have heval : (Trace.run (Loop.step minuteLease) (Loop.start Bool) twoTasks).map
      (fun s => s.phase.processing) = some false := by
    decide
  obtain ⟨s, hrun, hover⟩ := Option.map_eq_some_iff.mp heval
  exact ⟨s, hrun, (survives_iff minuteLease twoTasks s hrun hover).mpr (by decide)⟩

/-- The extension raises while the advance is running, and the advance completes the run. -/
def raisingExtend : List (LoopAction Bool) :=
  [.turn, .claimed (some ⟨0, ⟨true, 60 * second⟩⟩), .wake (20 * second), .extended none,
    .advanced (some .completed), .heartbeatStopped false]

/-- The exception is raised again by `process`, and the worker is gone: nothing it could do
is left. -/
theorem raisingExtend_ends_worker : ∃ s,
    Trace.run (Loop.step minuteLease) (Loop.start Bool) raisingExtend = some s ∧
      s.phase = .raised ⟨0, ⟨true, 60 * second⟩⟩ ∧ s.stopping = false ∧
      (∀ a, a ≠ .stop → s.step minuteLease a = none) ∧
      ¬ Survives minuteLease (loopNotes minuteLease (Loop.start Bool) raisingExtend) s := by
  refine ⟨⟨.raised ⟨0, ⟨true, 60 * second⟩⟩, .raised, false⟩, by decide, rfl, rfl, ?_, ?_⟩
  · intro a ha
    cases a with
    | stop => exact absurd rfl ha
    | _ => simp [Loop.step]
  · intro hsurvives
    exact absurd hsurvives.returned (by decide)

end Orqent
