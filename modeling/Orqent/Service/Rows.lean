/-
The rows of one run, and the transactions of the run service over them.

`RunRows` is what the database holds of a run: its own row, one execution per node
of the pinned version, and the timeline.  Each transaction of the service is a
function from the rows it reads to the rows it would leave, with what it does to
the queue on the way; a raised exception is an error and leaves nothing.

The executions are a function of the node key.  Materializing a run writes one row
per node, none is added or deleted afterwards, and nothing reads the function
outside the keys of the graph.
-/
import Orqent.Engine.Scheduler
import Orqent.Lib.Text
import Orqent.Nodes.Contract
import Mathlib.Logic.Function.Basic

namespace Orqent

/-- A moment of the application's clock. -/
abbrev Time := Nat

/-! ### Rows -/

/-- A row of `runs`. -/
structure RunRow (Value : Type) where
  status : RunStatus
  triggerPayload : Option (Dict String Value)
  startedAt : Option Time
  finishedAt : Option Time
deriving DecidableEq

/-- A row of `node_executions`. -/
structure NodeExecution (Value : Type) where
  status : NodeExecutionStatus
  attempt : Nat
  output : Option (Dict String Value)
  error : Option String
  resumeToken : Option String
  startedAt : Option Time
  finishedAt : Option Time
deriving DecidableEq

/-- What a `run_events` row records. -/
inductive RunEventType
  | runStarted
  | runSuspended
  | runResumed
  | runCompleted
  | runFailed
  | nodeStarted
  | nodeSucceeded
  | nodeFailed
  | nodeSuspended
  | nodeSkipped
deriving DecidableEq, Repr

/-- The payload of an event about a node. -/
inductive EventPayload
  | node (nodeKey : NodeKey)
  | failure (nodeKey : NodeKey) (error : String) (retryable : Bool)
  | suspension (nodeKey : NodeKey) (hint : Option String)
deriving DecidableEq, Repr

/-- The node an event is about. -/
def EventPayload.nodeKey : EventPayload → NodeKey
  | node key => key
  | failure key _ _ => key
  | suspension key _ => key

/-- A row of `run_events`. -/
structure RunEvent where
  seq : Nat
  eventType : RunEventType
  payload : Option EventPayload
deriving DecidableEq, Repr

/-- The rows of one run. -/
structure RunRows (Value : Type) where
  run : RunRow Value
  executions : NodeKey → NodeExecution Value
  events : List RunEvent

/-- What a transaction does to the run's queue tasks, in the same commit. -/
inductive QueueOp
  | enqueue
  | finishOutstanding
deriving DecidableEq, Repr

variable {Value : Type}

/-! ### Writing -/

/-- The sequence number the next event of this run should carry. -/
def nextSeq (events : List RunEvent) : Nat := (events.map RunEvent.seq).foldl max 0 + 1

/-- Append one timeline row, in the same transaction as its state change. -/
def RunRows.append (rows : RunRows Value) (eventType : RunEventType)
    (payload : Option EventPayload) : RunRows Value :=
  { rows with events := rows.events ++ [⟨nextSeq rows.events, eventType, payload⟩] }

/-- Write one execution row. -/
def RunRows.write (rows : RunRows Value) (key : NodeKey) (execution : NodeExecution Value) :
    RunRows Value :=
  { rows with executions := Function.update rows.executions key execution }

/-- `PENDING → RUNNING`, committed before anything runs the node. -/
def NodeExecution.started (now : Time) (x : NodeExecution Value) : NodeExecution Value :=
  { x with status := .running, startedAt := some now }

/-- `RUNNING → PENDING`: the attempt is counted, and nothing is written to the timeline. -/
def NodeExecution.recovered (x : NodeExecution Value) : NodeExecution Value :=
  { x with status := .pending, attempt := x.attempt + 1, startedAt := none }

/-- `PENDING → SKIPPED`: stamped finished, with no output. -/
def NodeExecution.skipped (now : Time) (x : NodeExecution Value) : NodeExecution Value :=
  { x with status := .skipped, finishedAt := some now }

/-- The run's own move, with the stamps that go with it. -/
def RunRow.moved (now : Time) (status : RunStatus) (run : RunRow Value) : RunRow Value :=
  { run with
    status
    startedAt := if status = .running && run.startedAt.isNone then some now else run.startedAt
    finishedAt := if status.isTerminal then some now else run.finishedAt }

/-- What a run transition records; a pair the table lacks is a failed lookup. -/
def runEvent : RunStatus → RunStatus → Option (Option RunEventType)
  | .pending, .running => some none
  | .suspended, .running => some (some .runResumed)
  | .running, .suspended => some (some .runSuspended)
  | .pending, .completed => some (some .runCompleted)
  | .running, .completed => some (some .runCompleted)
  | .pending, .failed => some (some .runFailed)
  | .running, .failed => some (some .runFailed)
  | _, _ => none

/-! ### Reading -/

/-- The run's persisted state, as the scheduler sees it. -/
def snapshot (g : WorkflowGraph Value) (rows : RunRows Value) : RunSnapshot Value where
  status := rows.run.status
  graph := g
  nodeExecutions := fun key =>
    if key ∈ g.nodeKeys then
      some
        { nodeKey := key
          status := (rows.executions key).status
          attempt := (rows.executions key).attempt
          outputs := (rows.executions key).output }
    else none
  triggerPayload := rows.run.triggerPayload

/-! ### The transactions -/

/-- Write the run, its node executions and its first event. -/
def materialize (triggerPayload : Option (Dict String Value)) : RunRows Value :=
  RunRows.append
    { run := ⟨.pending, triggerPayload, none, none⟩
      executions := fun _ => ⟨.pending, 1, none, none, none, none, none⟩
      events := [] }
    .runStarted none

/-- Apply one decision: the guard, the row, the event. -/
def applyDecision (now : Time) (work : RunRows Value × List QueueOp) :
    SchedulerDecision → Except EngineError (RunRows Value × List QueueOp)
  | .startNode key => do
      let execution := work.1.executions key
      ensureNodeExecutionTransition execution.status .running
      return ((work.1.write key (execution.started now)).append .nodeStarted (some (.node key)),
        work.2)
  | .recoverNode key => do
      let execution := work.1.executions key
      ensureNodeExecutionTransition execution.status .pending
      return (work.1.write key execution.recovered, work.2)
  | .setRunStatus status => do
      let run := work.1.run
      ensureRunTransition run.status status
      let rows := { work.1 with run := run.moved now status }
      -- A run that will not move again on its own must not keep claimable work.
      let queue := if status.isResting then work.2 ++ [.finishOutstanding] else work.2
      match runEvent run.status status with
      | none => .error (.missingKey (run.status.value ++ ", " ++ status.value))
      | some none => return (rows, queue)
      | some (some eventType) => return (rows.append eventType none, queue)
  | .skipNode key => do
      let execution := work.1.executions key
      ensureNodeExecutionTransition execution.status .skipped
      return ((work.1.write key (execution.skipped now)).append .nodeSkipped (some (.node key)),
        work.2)

/-- Apply one tick's decisions, in order, with their events. -/
def applyDecisions (now : Time) (rows : RunRows Value) (decisions : List SchedulerDecision) :
    Except EngineError (RunRows Value × List QueueOp) :=
  decisions.foldlM (applyDecision now) (rows, [])

/-- The scheduling transaction of an advance: decide from what is read, and apply it. -/
def tickBody (g : WorkflowGraph Value) (now : Time) (rows : RunRows Value) :
    Except EngineError (RunRows Value × List QueueOp) := do
  let decisions ← Scheduler.tick (snapshot g rows)
  applyDecisions now rows decisions

/-- The width of the column a resume token is stored in. -/
def publicIdLength : Nat := 26

/-- Refuse a token the engine could not store, naming the node. -/
def validateResumeToken (key : NodeKey) (token : String) : Except EngineError Unit :=
  if token.isEmpty || publicIdLength < token.length then
    .error (.domainRule
      ("Node " ++ quoted key ++ " suspended with a resume token of " ++ toString token.length
        ++ " characters; at most " ++ toString publicIdLength ++ " can be stored."))
  else .ok ()

/-- Whether a node of this run other than `key` holds this token. -/
def tokenHeld (g : WorkflowGraph Value) (rows : RunRows Value) (key : NodeKey) (token : String) :
    Bool :=
  g.nodeKeys.any fun k => k ≠ key && (rows.executions k).resumeToken = some token

/--
Record what one node did.  `rejected` says whether the database refuses what is written, for a
reason that the rows of this run do not show: a token that its index does not tell from one on
another row, an error that is longer than its column, outputs or a payload that are no JSON.
-/
def settleBody (g : WorkflowGraph Value) (now : Time) (key : NodeKey) (result : NodeResult Value)
    (rejected : Bool) (rows : RunRows Value) : Except EngineError (RunRows Value) := do
  if key ∉ g.nodeKeys then .error (.missingKey key)
  let execution := rows.executions key
  match result with
  | .completed outputs =>
      ensureNodeExecutionTransition execution.status .succeeded
      if rejected then .error (.integrity "output")
      return (rows.write key
        { execution with
          status := .succeeded, output := some outputs, finishedAt := some now }).append
          .nodeSucceeded (some (.node key))
  | .failed error retryable =>
      ensureNodeExecutionTransition execution.status .failed
      if rejected then .error (.integrity "error")
      return (rows.write key
        { execution with status := .failed, error := some error, finishedAt := some now }).append
          .nodeFailed (some (.failure key error retryable))
  | .suspended token hint =>
      validateResumeToken key token
      ensureNodeExecutionTransition execution.status .waiting
      if rejected || tokenHeld g rows key token then .error (.integrity "resume_token")
      return (rows.write key
        { execution with status := .waiting, resumeToken := some token }).append
          .nodeSuspended (some (.suspension key hint))

/-- What is recorded for a node that must not be repeated. -/
def repeatRefusedError : String :=
  "This node was interrupted and declares that it must not run more than once, so it was not "
    ++ "attempted again."

/-- Fail a node that must not be repeated, without invoking it. -/
def refuseBody (g : WorkflowGraph Value) (now : Time) (key : NodeKey) (rows : RunRows Value) :
    Except EngineError (RunRows Value) := do
  if key ∉ g.nodeKeys then .error (.missingKey key)
  let execution := rows.executions key
  ensureNodeExecutionTransition execution.status .failed
  return (rows.write key
    { execution with
      status := .failed, error := some repeatRefusedError, finishedAt := some now }).append
      .nodeFailed (some (.failure key repeatRefusedError false))

/-- The node of this run whose token this is. -/
def waitingNode (g : WorkflowGraph Value) (rows : RunRows Value) (token : String) :
    Option NodeKey :=
  g.nodeKeys.find? fun k => (rows.executions k).resumeToken = some token

/-- The first transaction of a resume: consume the token and mark the node and the run running. -/
def resumeBody (g : WorkflowGraph Value) (now : Time) (token : String) (rows : RunRows Value) :
    Except EngineError (RunRows Value × List QueueOp) := do
  match waitingNode g rows token with
  | none => .error (.notFound "This resume token does not match a waiting node.")
  | some key =>
      let execution := rows.executions key
      if execution.status ≠ .waiting then
        .error (.conflict "This node is not waiting to be resumed.")
      if rows.run.status ≠ .suspended then .error (.conflict "This run is not suspended.")
      ensureNodeExecutionTransition execution.status .running
      ensureRunTransition rows.run.status .running
      let rows := rows.write key
        { execution with status := .running, resumeToken := none, startedAt := some now }
      let rows := { rows with run := { rows.run with status := .running } }
      return ((rows.append .runResumed none).append .nodeStarted (some (.node key)), [.enqueue])

/-- The transactions that change a run. -/
inductive RunTxn (Value : Type)
  | tick (now : Time)
  | settle (now : Time) (key : NodeKey) (result : NodeResult Value) (rejected : Bool)
  | refuse (now : Time) (key : NodeKey)
  | resume (now : Time) (token : String)

/-- What a transaction makes of the rows it reads. -/
def RunTxn.exec (g : WorkflowGraph Value) (t : RunTxn Value) (rows : RunRows Value) :
    Except EngineError (RunRows Value × List QueueOp) :=
  match t with
  | .tick now => tickBody g now rows
  | .settle now key result rejected => do return (← settleBody g now key result rejected rows, [])
  | .refuse now key => do return (← refuseBody g now key rows, [])
  | .resume now token => resumeBody g now token rows

end Orqent
