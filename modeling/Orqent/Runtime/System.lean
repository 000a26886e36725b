/-
Everything that drives one run.

The committed rows of the run, its tasks in the queue, and any number of processes
over them: HTTP calls that advance or resume the run, and workers that claim its
task and advance it.  A process goes through the statements of the service: it
opens a transaction (and from then on sees the rows as they were), commits it,
invokes runners with no transaction open, and records their outcomes one by one.

An `invoke` is the moment a runner is called.  What it is going to return is in the
action, and is lost if the process crashes before it has recorded it.

`step` is executable.  A run of the system is any order of the actions of any of
its processes; a crash can take a process at any point.  What is outside the
source is in the actions: the clock, what a runner did, whether a token is held by
another run, which queue rows other claims have locked.

The queue rows of other runs are left out: no operation on this run reads or
writes them, except that a claim may find one of them instead.
-/
import Orqent.Engine.Invocation
import Orqent.Queue.Table
import Orqent.Service.Isolation

namespace Orqent

variable {Value : Type}

/-- What all processes share: the pinned graph, the node registry, and who the run is. -/
structure Env (Value : Type) where
  graph : WorkflowGraph Value
  registry : NodeRegistry Value
  runId : Nat
  organizationPublicId : String
  /-- The id of each node's row. -/
  workflowNodeId : NodeKey → Nat
  workflowNodeId_inj : ∀ k ∈ graph.nodeKeys, ∀ j ∈ graph.nodeKeys,
    workflowNodeId k = workflowNodeId j → k = j
  triggerPayload : Option (Dict String Value)

/-- A node handed to a runner: its attempt, and the token it is resumed with. -/
structure Launch where
  key : NodeKey
  attempt : Nat
  token : Option String
deriving DecidableEq, Repr

/-- What came of a launch. -/
inductive Outcome (Value : Type)
  /-- Not invoked: the node must not be repeated. -/
  | refused
  | returned (result : NodeResult Value)
  /-- Something stopped the invocation from happening at all. -/
  | escaped (error : EngineError)

/-- Where a process is.  `cycles` counts the ticks applied by this advance; `snap` are the
rows its open transaction sees, or those its batch was started from. -/
inductive Phase (Value : Type)
  | idle
  /-- Between the transactions of an advance. -/
  | advancing (cycles : Nat)
  | ticking (cycles : Nat) (snap : RunRows Value)
  | invoking (cycles : Nat) (snap : RunRows Value) (batch : List (Launch × Option (Outcome Value)))
  | settling (cycles : Nat) (todo : List (Launch × Outcome Value)) (failed : Bool)
  | recording (cycles : Nat) (snap : RunRows Value) (launch : Launch) (outcome : Outcome Value)
      (todo : List (Launch × Outcome Value)) (failed : Bool)
  | resuming (token : String) (snap : RunRows Value)
  /-- The advance returned this status. -/
  | returned (status : RunStatus)

/-- A process: where it is, the task it claimed, and whether its heartbeat was refused. -/
structure Process (Value : Type) where
  phase : Phase Value
  task : Option Nat
  lost : Bool

/-- A process with nothing to do. -/
def Process.idle : Process Value := ⟨.idle, none, false⟩

/-- The rows of a run, the queue, and the processes that work on them. -/
structure Sys (P Value : Type) where
  rows : RunRows Value
  queue : QueueTable P
  procs : P → Process Value

/-- What a process can do next. -/
inductive Action (Value : Type)
  | advance
  | resume (token : String)
  | claim (now leaseSeconds : Nat) (locked : List Nat)
  | beginTick
  | commitTick (now : Time)
  | commitResume (now : Time)
  | invoke (key : NodeKey) (outcome : RunnerOutcome Value)
  | gather
  | beginSettle
  | commitSettle (now : Time) (rejected : Bool)
  | extend (expiresAt : Nat)
  | requeue (runAfter : Nat)
  | finish
  | crash

/-! ### Invoking -/

/-- Whether re-attempting this node would break its own declaration. -/
def repeatWouldBeUnsafe (env : Env Value) (key : NodeKey) (attempt : Nat) :
    Except EngineError Bool :=
  if attempt ≤ 1 then .ok false
  else match env.graph.node key with
    | none => .ok false
    | some node => do
        return (← env.registry.get node.nodeType node.version).sideEffect = .atMostOnce

/-- What a launch is invoked with: `none` where it is refused. -/
def invocation (env : Env Value) (snap : RunRows Value) (l : Launch) :
    Except EngineError (Option (NodeRunContext Value)) := do
  if ← repeatWouldBeUnsafe env l.key l.attempt then return none
  else
    return some (← buildContext (snapshot env.graph snap) env.registry l.key env.runId
      env.organizationPublicId (env.workflowNodeId l.key) l.attempt l.token)

/-- Run one node, where the runner does `outcome`. -/
def invokeLaunch (env : Env Value) (snap : RunRows Value) (l : Launch)
    (outcome : RunnerOutcome Value) : Outcome Value :=
  match invocation env snap l with
  | .error e => .escaped e
  | .ok none => .refused
  | .ok (some _) => .returned outcome.result

/-- Give the launch of this key its outcome, if it has none yet. -/
def invokeEntry (env : Env Value) (snap : RunRows Value) (key : NodeKey)
    (outcome : RunnerOutcome Value) :
    Launch × Option (Outcome Value) → Launch × Option (Outcome Value)
  | (l, none) => if l.key = key then (l, some (invokeLaunch env snap l outcome)) else (l, none)
  | (l, some known) => (l, some known)

/-- One node of a batch has been invoked. -/
def invokeIn (env : Env Value) (snap : RunRows Value) (key : NodeKey)
    (outcome : RunnerOutcome Value) (batch : List (Launch × Option (Outcome Value))) :
    List (Launch × Option (Outcome Value)) :=
  batch.map (invokeEntry env snap key outcome)

/-- The batch with its outcomes, once it has all of them. -/
def gathered : List (Launch × Option (Outcome Value)) → Option (List (Launch × Outcome Value))
  | [] => some []
  | (l, some outcome) :: rest => (gathered rest).map ((l, outcome) :: ·)
  | (_, none) :: _ => none

/-! ### Committing -/

/-- What a transaction does to the queue, on the latest committed rows. -/
def QueueOp.apply {P : Type} (runId now : Nat) (q : QueueTable P) : QueueOp → QueueTable P
  | .enqueue => q.enqueue runId now
  | .finishOutstanding => q.finishOutstanding runId

/-- Commit what a transaction made of its snapshot, with what it does to the queue, or fail. -/
def Sys.commit {P : Type} [DecidableEq Value] (env : Env Value) (s : Sys P Value) (now : Time)
    (snap : RunRows Value) (work : RunRows Value × List QueueOp) : Option (Sys P Value) :=
  (RunRows.commit snap work.1 s.rows).map fun rows =>
    { s with rows, queue := work.2.foldl (QueueOp.apply env.runId now) s.queue }

/-- The nodes a tick started, as they are launched. -/
def launches (rows : RunRows Value) (decisions : List SchedulerDecision) :
    List (Launch × Option (Outcome Value)) :=
  decisions.filterMap fun
    | .startNode key => some (⟨key, (rows.executions key).attempt, none⟩, none)
    | _ => none

/-- The transaction an outcome is recorded by. -/
def Outcome.txn (now : Time) (key : NodeKey) (rejected : Bool) :
    Outcome Value → Option (RunTxn Value)
  | .refused => some (.refuse now key)
  | .returned result => some (.settle now key result rejected)
  | .escaped _ => none

section Step

variable {P : Type} [DecidableEq P] [DecidableEq Value]

/-- Move one process. -/
def Sys.moved (s : Sys P Value) (p : P) (phase : Phase Value) : Sys P Value :=
  { s with procs := Function.update s.procs p { s.procs p with phase } }

/-- An exception left the call: the process has nothing to do any more, and keeps no task. -/
def Sys.raised (s : Sys P Value) (p : P) : Sys P Value :=
  { s with procs := Function.update s.procs p .idle }

/-- The scheduling transaction: tick, and apply the decisions unless there are none. -/
def Sys.commitTick (env : Env Value) (s : Sys P Value) (p : P) (now : Time) (cycles : Nat)
    (snap : RunRows Value) : Sys P Value :=
  match Scheduler.tick (snapshot env.graph snap) with
  | .error _ => s.raised p
  | .ok [] => s.moved p (.returned snap.run.status)
  | .ok decisions =>
      -- Bounded by one cycle per node and one to conclude.
      if env.graph.length + 1 < cycles + 1 then s.raised p
      else
        match applyDecisions now snap decisions with
        | .error _ => s.raised p
        | .ok work =>
            match s.commit env now snap work with
            | none => s.raised p
            | some s' => s'.moved p (.invoking (cycles + 1) snap (launches work.1 decisions))

/-- The first transaction of a resume; the node it is about is then launched. -/
def Sys.commitResume (env : Env Value) (s : Sys P Value) (p : P) (now : Time) (token : String)
    (snap : RunRows Value) : Sys P Value :=
  match waitingNode env.graph snap token, resumeBody env.graph now token snap with
  | some key, .ok work =>
      match s.commit env now snap work with
      | none => s.raised p
      | some s' =>
          s'.moved p (.invoking 0 snap [(⟨key, (work.1.executions key).attempt, some token⟩, none)])
  | _, _ => s.raised p

/-- The transaction that records one outcome. -/
def Sys.commitSettle (env : Env Value) (s : Sys P Value) (p : P) (now : Time) (rejected : Bool)
    (cycles : Nat) (snap : RunRows Value) (l : Launch) (outcome : Outcome Value)
    (todo : List (Launch × Outcome Value)) (failed : Bool) : Sys P Value :=
  match (outcome.txn now l.key rejected).map (RunTxn.exec env.graph · snap) with
  | some (.ok work) =>
      match s.commit env now snap work with
      | none => s.raised p
      | some s' => s'.moved p (.settling cycles todo failed)
  | _ => s.raised p

/-- What a process does when its advance has returned: a worker closes its task. -/
def Sys.finish (s : Sys P Value) (p : P) : Sys P Value :=
  match (s.procs p).task, (s.procs p).lost with
  | some id, false => { s.raised p with queue := (s.queue.release p id).2 }
  | _, _ => s.raised p

/-- One action of one process. -/
def Sys.step (env : Env Value) (s : Sys P Value) (a : P × Action Value) : Option (Sys P Value) :=
  let p := a.1
  match a.2, (s.procs p).phase with
  | .advance, .idle => some (s.moved p (.advancing 0))
  | .resume token, .idle => some (s.moved p (.resuming token s.rows))
  | .claim now leaseSeconds locked, .idle =>
      (s.queue.claim p now leaseSeconds locked).map fun (task, queue) =>
        { s with
          queue
          procs := Function.update s.procs p ⟨.advancing 0, some task.id, false⟩ }
  | .beginTick, .advancing cycles => some (s.moved p (.ticking cycles s.rows))
  | .commitTick now, .ticking cycles snap => some (s.commitTick env p now cycles snap)
  | .commitResume now, .resuming token snap => some (s.commitResume env p now token snap)
  | .invoke key outcome, .invoking cycles snap batch =>
      if batch.any fun entry => entry.1.key = key && entry.2.isNone then
        some (s.moved p (.invoking cycles snap (invokeIn env snap key outcome batch)))
      else none
  | .gather, .invoking cycles _ batch =>
      (gathered batch).map fun todo => s.moved p (.settling cycles todo false)
  | .beginSettle, .settling cycles todo failed =>
      match todo with
      | [] => some (if failed then s.raised p else s.moved p (.advancing cycles))
      | (_, .escaped _) :: rest => some (s.moved p (.settling cycles rest true))
      | (l, outcome) :: rest => some (s.moved p (.recording cycles s.rows l outcome rest failed))
  | .commitSettle now rejected, .recording cycles snap l outcome todo failed =>
      some (s.commitSettle env p now rejected cycles snap l outcome todo failed)
  | .finish, .returned _ => some (s.finish p)
  | .extend expiresAt, _ =>
      (s.procs p).task.map fun id =>
        let applied := s.queue.extend p id expiresAt
        { s with
          queue := applied.2
          procs := Function.update s.procs p
            { s.procs p with lost := (s.procs p).lost || !applied.1 } }
  | .requeue runAfter, _ =>
      (s.procs p).task.map fun id => { s.raised p with queue := (s.queue.requeue p id runAfter).2 }
  | .crash, _ => some (s.raised p)
  | _, _ => none

/-- The committed state a run is created in, with every process idle. -/
def Sys.start (P : Type) (env : Env Value) (now : Time) : Sys P Value where
  rows := materialize env.triggerPayload
  queue := QueueTable.enqueue env.runId now []
  procs := fun _ => .idle

end Step

end Orqent
