/-
Dispatching what is due, beside publishing.

A dispatch reads the clock, claims one due schedule that nobody has locked, advances it to
the next occurrence after its clock, creates the run of the occurrence it found there and
enqueues the run's task: one transaction.  The claim reads the latest row of `schedules`
and locks it; what it joins to that row it sees in the snapshot.

A call on the workflow reads its snapshot and then issues the statements it decided on.
Nothing is written before the reads are done: the session does not flush on a query.  A
publish reads the clock after its snapshot, so `due` is decided before any lock is taken.

Left out are the node executions and the first event that come with a run.
-/
import Orqent.Triggers.Service
import Orqent.Lib.RowTxn

namespace Orqent

open RowTxn

variable {Value : Type}

/-- A row of `runs` that a schedule started. -/
structure ScheduledRun where
  id : Nat
  version : Nat
  /-- `scheduled_for` of the trigger payload. -/
  scheduledFor : Nat
deriving DecidableEq, Repr

/-- The rows of one workflow with its triggers, its scheduled runs and their tasks. -/
structure DispatchDb (Value : Type) where
  triggers : TriggerDb Value := {}
  runs : List ScheduledRun := []
  /-- The runs a task of `queue_tasks` names. -/
  tasks : List Nat := []

/-- Change the rows a call on the workflow changes. -/
def DispatchDb.onTriggers (f : TriggerDb Value → TriggerDb Value) (db : DispatchDb Value) :
    DispatchDb Value :=
  { db with triggers := f db.triggers }

/-! ### Locks -/

/-- What a statement locks. -/
inductive DispatchLock
  /-- A row written to. -/
  | row (r : Lockable)
  /-- A row a foreign key was checked against. -/
  | shared (r : Lockable)
  | registration (digest : String)
  | schedule (id : Nat)
deriving DecidableEq, Repr

/-- Two locks that two transactions cannot both hold. -/
def DispatchLock.conflicts : DispatchLock → DispatchLock → Bool
  | .row r, .row r' => r = r'
  | .row r, .shared r' => r = r'
  | .shared r, .row r' => r = r'
  | .registration d, .registration d' => d = d'
  | .schedule s, .schedule s' => s = s'
  | _, _ => false

theorem DispatchLock.conflicts_symm (l l' : DispatchLock) : l.conflicts l' = l'.conflicts l := by
  cases l <;> cases l' <;> simp [conflicts, eq_comm]

/-! ### The statements of a call -/

/-- The schedules that a delete of nodes takes with it. -/
def Statement.dropsSchedules (w : Statement Value) (db : TriggerDb Value) : List Nat :=
  (w.exec db.tables).toList.flatMap fun d =>
    (db.schedules.filter fun s => d.drops s.target).map Schedule.id

/-- The registrations that a delete of nodes takes with it. -/
def Statement.dropsRegistrations (w : Statement Value) (db : TriggerDb Value) : List String :=
  (w.exec db.tables).toList.flatMap fun d =>
    (db.registrations.filter fun r => d.drops r.target).map TriggerRegistration.tokenDigest

/-- The rows a statement locks. -/
def TriggerStatement.rowLocks : TriggerStatement Value → TriggerDb Value → List DispatchLock
  | .version w, db =>
      w.locks.map .row ++ (w.dropsSchedules db).map .schedule ++
        (w.dropsRegistrations db).map .registration
  | .addRegistration target digest, _ => [.shared (.graph target.version), .registration digest]
  | .pointRegistration digest target, _ => [.shared (.graph target.version), .registration digest]
  | .revoke digest, _ => [.registration digest]
  | .addSchedule id target _, _ => [.shared (.graph target.version), .schedule id]
  | .pointSchedule id target _, _ => [.shared (.graph target.version), .schedule id]
  | .delete, _ => [.row .workflow]

/-- How a statement changes the rows; a cascade deletes the rows it found and has locked. -/
def TriggerStatement.act (w : TriggerStatement Value) (db : TriggerDb Value) :
    Option (TriggerDb Value → TriggerDb Value) :=
  match w with
  | .version v =>
      (v.exec db.tables).map fun d rows =>
        { rows with
          tables := d.apply rows.tables
          registrations := rows.registrations.filter fun r =>
            r.tokenDigest ∉ v.dropsRegistrations db
          schedules := rows.schedules.filter fun s => s.id ∉ v.dropsSchedules db }
  | w => (w.exec db).map TriggerChange.apply

/-! ### Dispatching -/

/-- The calls that touch a workflow and its schedule. -/
inductive DispatchCall (Value : Type)
  | edit (call : TriggerCall Value)
  /-- `dispatch_one`, at this time; which of the due rows the claim meets first, and the id of
  the run, come with the call. -/
  | dispatch (now pick runId : Nat)

/-- A schedule that was claimed, and what is to come of it. -/
structure Claimed where
  /-- The row as it was found. -/
  schedule : Schedule
  now : Nat
  nextRunAt : Nat
  version : Nat
  runId : Nat
deriving DecidableEq, Repr

namespace Claimed

variable (d : Claimed)

/-- The moment that is dispatched. -/
def occurrence : Nat := d.schedule.nextRunAt

/-- The run that is created. -/
def run : ScheduledRun := ⟨d.runId, d.version, d.occurrence⟩

/-- Advance the schedule and create the run: one flush. -/
def create (db : DispatchDb Value) : DispatchDb Value :=
  { db with
    triggers := { db.triggers with
      schedules := db.triggers.schedules.map fun s =>
        if s.id = d.schedule.id then { s with nextRunAt := d.nextRunAt } else s }
    runs := db.runs ++ [d.run] }

/-- Enqueue the task of the run. -/
def enqueue (db : DispatchDb Value) : DispatchDb Value := { db with tasks := db.tasks ++ [d.runId] }

end Claimed

/-- Where a transaction stands. -/
inductive DispatchState (Value : Type)
  /-- About to leave without a commit. -/
  | refused
  | editing (call : TriggerCall Value)
  | issuing (call : TriggerCall Value) (todo : List (TriggerStatement Value))
  | waking (now pick runId : Nat)
  | claiming (now pick runId : Nat) (snap : TriggerDb Value)
  | claimed (d : Claimed)
  | created (d : Claimed)
  | dispatched (d : Claimed)

/-- The schedules a claim may take: due in the latest row, live in the snapshot, and free. -/
def claimable (snap latest : TriggerDb Value) (now : Nat) (free : DispatchLock → Bool) :
    List Schedule :=
  latest.schedules.filter fun s =>
    s.nextRunAt ≤ now && snap.isLive s.target && snap.hasNode s.target && free (.schedule s.id)

/-- The one it meets first. -/
def pickDue (snap latest : TriggerDb Value) (now pick : Nat) (free : DispatchLock → Bool) :
    Option Schedule :=
  let due := claimable snap latest now free
  due[pick % due.length]?

/-- What is to come of a claimed row; `none` if the expression, the next occurrence or the
published version is not to be had. -/
def planDispatch (P : TriggerPorts Value) (snap : TriggerDb Value) (now runId : Nat)
    (s : Schedule) : Option Claimed := do
  let cron ← snap.cronAt P s.target
  let nextRunAt ← P.getNext cron now
  if snap.tables.isPublished s.target.version then
    some ⟨s, now, nextRunAt, s.target.version, runId⟩
  else none

/-- Where a call begins. -/
def dispatchStart : DispatchCall Value → DispatchState Value
  | .edit call => .editing call
  | .dispatch now pick runId => .waking now pick runId

/-- The statement a transaction comes to next. -/
def dispatchNext [DecidableEq Value] (P : TriggerPorts Value) :
    DispatchState Value → RowStatement (DispatchDb Value) (DispatchState Value) DispatchLock
  | .refused => .raise
  | .editing call =>
      .read fun db =>
        match call.body P db.triggers with
        | none => .refused
        | some ws => .issuing call ws
  | .issuing _ [] => .commit
  | .issuing call (w :: todo) =>
      .lock (fun _ db => w.rowLocks db.triggers)
        fun _ db => (w.act db.triggers).map fun f => (.issuing call todo, DispatchDb.onTriggers f)
  | .waking now pick runId => .read fun db => .claiming now pick runId db.triggers
  | .claiming now pick runId snap =>
      .lock
        (fun free db =>
          (pickDue snap db.triggers now pick free).toList.map fun s => .schedule s.id)
        fun free db =>
          match pickDue snap db.triggers now pick free with
          | none => some (.refused, id)
          | some s => (planDispatch P snap now runId s).map fun d => (.claimed d, id)
  | .claimed d =>
      .lock (fun _ _ => [.schedule d.schedule.id, .shared .workflow, .shared (.version d.version)])
        fun _ db =>
          if d.schedule.id ∈ db.triggers.schedules.map Schedule.id then some (.created d, d.create)
          else none
  | .created d => .lock (fun _ _ => []) fun _ _ => some (.dispatched d, d.enqueue)
  | .dispatched _ => .commit

/-- Dispatchers and the calls on one workflow, running side by side. -/
def dispatchService [DecidableEq Value] (P : TriggerPorts Value) :
    RowTxn (DispatchDb Value) (DispatchCall Value) (DispatchState Value) DispatchLock where
  start := dispatchStart
  next := dispatchNext P
  conflicts := DispatchLock.conflicts
  conflicts_symm := DispatchLock.conflicts_symm

/-- Any number of dispatchers and calls. -/
abbrev Dispatching (Value ι : Type) :=
  RowTxn.Pool (DispatchDb Value) (DispatchState Value) DispatchLock ι

/-- What happens to the transactions. -/
abbrev DispatchEvent (Value ι : Type) := RowTxn.Event (DispatchCall Value) ι

end Orqent
