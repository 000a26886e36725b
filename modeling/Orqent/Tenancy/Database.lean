/-
The rows of all organizations, and what the repositories do with them.

Runs, node executions, events and tasks name their organization; a version is its
workflow's, and a graph its version's.  Most queries ask for the organization as well as
for what they look for.  Some do not: a version, a graph and a joined workflow are found
by id, the next sequence number is counted over the events of a run, and a task, a run id
or a resume token is refused because of any row that has it.

`Db.only` is the database that holds the rows of one organization and no others.
`Db.Tenanted` is what makes the queries by id safe: ids name one row, and a row belongs
where the row it refers to belongs.  Under it a query made for an organization gives what
it gives on the rows of that organization alone, and a write changes those rows as it
would change them alone.
-/
import Orqent.Queue.Table
import Orqent.Service.Rows
import Orqent.Versions.Tables

namespace Orqent

namespace Tenancy

variable {Value : Type}

/-! ### Rows -/

/-- A row of `organizations`. -/
structure Organization where
  id : Nat
  publicId : String
deriving DecidableEq, Repr

/-- A row of `users`. -/
structure User where
  publicId : String
  organizationId : Nat
  deleted : Bool := false
deriving DecidableEq, Repr

/-- A row of `workflows`. -/
structure Workflow where
  id : Nat
  publicId : String
  organizationId : Nat
  activeVersionId : Option Nat := none
  deleted : Bool := false
deriving DecidableEq, Repr

/-- A row of `workflow_versions`; its organization is the workflow's. -/
structure VersionRecord where
  id : Nat
  workflowId : Nat
  version : WorkflowVersion
deriving DecidableEq, Repr

/-- A row of `runs`, with what it says of its tenant and its version. -/
structure RunRecord (Value : Type) where
  id : Nat
  publicId : String
  organizationId : Nat
  workflowId : Nat
  workflowVersionId : Nat
  createdAt : Time
  updatedAt : Time
  row : RunRow Value
deriving DecidableEq

/-- A row of `node_executions`. -/
structure ExecutionRecord (Value : Type) where
  id : Nat
  publicId : String
  organizationId : Nat
  runId : Nat
  workflowNodeId : Nat
  row : NodeExecution Value
deriving DecidableEq

/-- A row of `run_events`. -/
structure EventRecord where
  organizationId : Nat
  runId : Nat
  createdAt : Time
  event : RunEvent
deriving DecidableEq, Repr

/-- A row of `queue_tasks`. -/
structure TaskRecord where
  organizationId : Nat
  task : QueueTask String
deriving DecidableEq, Repr

/-- The tables that the use cases of runs read and write. -/
structure Db (Value : Type) where
  organizations : List Organization := []
  users : List User := []
  workflows : List Workflow := []
  versions : List VersionRecord := []
  /-- The rows of `workflow_nodes` and `workflow_edges`, by version. -/
  graphs : Nat → GraphRows Value := fun _ => {}
  runs : List (RunRecord Value) := []
  executions : List (ExecutionRecord Value) := []
  events : List EventRecord := []
  tasks : List TaskRecord := []

namespace Db

variable (db : Db Value)

/-! ### Queries -/

/-- The organization of this id. -/
def getOrganization (id : Nat) : Option Organization := db.organizations.find? fun o => o.id = id

/-- The live user with this public id, of whatever organization. -/
def getUser (publicId : String) : Option User :=
  db.users.find? fun u => u.publicId = publicId && !u.deleted

/-- The live workflow with this public id, in this organization. -/
def getWorkflow (publicId : String) (organizationId : Nat) : Option Workflow :=
  db.workflows.find? fun w =>
    w.publicId = publicId && w.organizationId = organizationId && !w.deleted

/-- The workflow a foreign key names. -/
def workflowById (id : Nat) : Option Workflow := db.workflows.find? fun w => w.id = id

/-- The version of this id. -/
def versionById (id : Nat) : Option VersionRecord := db.versions.find? fun v => v.id = id

/-- The run with this public id, in this organization. -/
def getRun (publicId : String) (organizationId : Nat) : Option (RunRecord Value) :=
  db.runs.find? fun r => r.publicId = publicId && r.organizationId = organizationId

/-- An organization's runs, or one workflow's. -/
def scopedRuns (organizationId : Nat) (workflowId : Option Nat) : List (RunRecord Value) :=
  db.runs.filter fun r => r.organizationId = organizationId && workflowId.all (r.workflowId = ·)

/-- One page of the runs, newest first. -/
def listForOrg (organizationId limit offset : Nat) (workflowId : Option Nat) :
    List (RunRecord Value) :=
  (((db.scopedRuns organizationId workflowId).insertionSort fun a b =>
    toLex (b.createdAt, b.id) ≤ toLex (a.createdAt, a.id)).drop offset).take limit

/-- How many runs an organization has, or one workflow of it. -/
def countForOrg (organizationId : Nat) (workflowId : Option Nat) : Nat :=
  (db.scopedRuns organizationId workflowId).length

/-- The node executions of a run, by id. -/
def listExecutions (runId organizationId : Nat) : List (ExecutionRecord Value) :=
  (db.executions.filter fun x => x.runId = runId && x.organizationId = organizationId).insertionSort
    fun a b => a.id ≤ b.id

/-- The node execution of this organization that waits under a token. -/
def getByResumeToken (token : String) (organizationId : Nat) : Option (ExecutionRecord Value) :=
  db.executions.find? fun x =>
    x.row.resumeToken = some token && x.organizationId = organizationId

/-- The events of a run, by number. -/
def listEvents (runId organizationId : Nat) : List EventRecord :=
  (db.events.filter fun e => e.runId = runId && e.organizationId = organizationId).insertionSort
    fun a b => a.event.seq ≤ b.event.seq

/-- The events `next_seq` counts over: those of the run, of whatever organization. -/
def eventsOf (runId : Nat) : List RunEvent :=
  (db.events.filter fun e => e.runId = runId).map EventRecord.event

/-- Whether a node execution other than this one holds the token. -/
def tokenTaken (token : String) (executionId : Nat) : Bool :=
  db.executions.any fun x => x.id ≠ executionId && x.row.resumeToken = some token

/-! ### Writes -/

/-- Add a run; the id and the public id are unique. -/
def insertRun (r : RunRecord Value) : Except EngineError (Db Value) :=
  if db.runs.any fun other => other.id = r.id || other.publicId = r.publicId then
    .error (.integrity "runs")
  else .ok { db with runs := db.runs ++ [r] }

/-- Add a node execution; the id and the public id are unique. -/
def insertExecution (x : ExecutionRecord Value) : Except EngineError (Db Value) :=
  if db.executions.any fun other => other.id = x.id || other.publicId = x.publicId then
    .error (.integrity "node_executions")
  else .ok { db with executions := db.executions ++ [x] }

/-- Insert rows one after another, up to the first that is refused. -/
def insertExecutions (xs : List (ExecutionRecord Value)) : Except EngineError (Db Value) :=
  xs.foldlM insertExecution db

/-- Insert events. -/
def appendEvents (events : List EventRecord) : Db Value :=
  { db with events := db.events ++ events }

/-- Write some rows of `runs`. -/
def updateRun (f : RunRecord Value → RunRecord Value) : Db Value :=
  { db with runs := db.runs.map f }

/-- Write some rows of `node_executions`. -/
def updateExecutions (f : ExecutionRecord Value → ExecutionRecord Value) : Db Value :=
  { db with executions := db.executions.map f }

/-- Signal that a run has work.  What the database refuses, a second outstanding task of the
run, is absorbed. -/
def enqueue (id runId organizationId runAfter : Nat) : Db Value :=
  if db.tasks.any fun k => k.task.id = id || k.task.pendingKey = some runId then db
  else
    { db with
      tasks := db.tasks ++
        [⟨organizationId, ⟨id, runId, .queued, runAfter, none, none, none, 0⟩⟩] }

@[simp] theorem runs_enqueue (id runId organizationId runAfter : Nat) :
    (db.enqueue id runId organizationId runAfter).runs = db.runs := by
  unfold enqueue
  split <;> rfl

@[simp] theorem executions_enqueue (id runId organizationId runAfter : Nat) :
    (db.enqueue id runId organizationId runAfter).executions = db.executions := by
  unfold enqueue
  split <;> rfl

/-- Mark the outstanding task of a run done. -/
def finishOutstanding (runId organizationId : Nat) : Db Value :=
  { db with
    tasks := db.tasks.map fun k =>
      if k.task.runId = runId && k.organizationId = organizationId && k.task.outstanding then
        { k with task := { k.task with status := .done } }
      else k }

end Db
end Tenancy
end Orqent
