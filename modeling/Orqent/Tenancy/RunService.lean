/-
The run service over the rows of all organizations.

Each operation is the transactions it commits, one after the other; runners are invoked
between them.  A transaction looks its rows up as the source does, hands them to the
transactions of one run (`Service/Rows`), and writes back what these make of them.

The clock, the ids the database gives, and what runners do come from outside.  A
transaction reads the clock once, and what it draws of the ids is numbered by how often
that was done.
-/
import Orqent.Lib.TwoRun
import Orqent.Runtime.System
import Orqent.Tenancy.Database

namespace Orqent

namespace Tenancy

variable {Value : Type}

/-- Why an operation was refused. -/
inductive RunError
  | authentication (message : String)
  | engine (error : EngineError)
  /-- The rows of a graph that are not one. -/
  | invalidGraph
deriving DecidableEq, Repr

/-- What the service is given. -/
structure RunPorts (Value : Type) where
  registry : NodeRegistry Value
  /-- What the runner of a node type does, from what it is handed. -/
  runner : (nodeType : String) → (version : Nat) → NodeRunContext Value → RunnerOutcome Value
  clock : Nat → Time
  runId : Nat → Nat
  runPublicId : Nat → String
  executionId : Nat → Nat → Nat
  executionPublicId : Nat → Nat → String
  taskId : Nat → Nat

/-- The committed rows, and how often the clock was read. -/
structure World (Value : Type) where
  db : Db Value
  drawn : Nat := 0

/-- A transaction of the service, which reads and writes the world or raises. -/
abbrev Txn (Value α : Type) := TwoRun.Txn (World Value) RunError α

/-- A use case, of one transaction or of several. -/
abbrev UseCase (Value α : Type) := TwoRun.UseCase (World Value) RunError α

/-! ### Statements -/

/-- Read something that is there in any case. -/
def ask {α : Type} (f : Db Value → α) : Txn Value α := TwoRun.ask fun w => .ok (f w.db)

/-- Look something up, or raise. -/
def find {α : Type} (f : Db Value → Option α) (e : RunError) : Txn Value α :=
  TwoRun.ask fun w =>
    match f w.db with
    | some a => .ok a
    | none => .error e

/-- Change the tables. -/
def write (g : Db Value → Db Value) : Txn Value Unit :=
  TwoRun.write fun w => { w with db := g w.db }

/-- Insert rows the database may refuse. -/
def insert (g : Db Value → Except EngineError (Db Value)) : Txn Value Unit := fun w =>
  match g w.db with
  | .ok db => .ok ((), { w with db })
  | .error e => .error (.engine e)

/-- What the engine computes, or raises. -/
def engine {α : Type} (x : Except EngineError α) : Txn Value α := TwoRun.lift (x.mapError .engine)

/-- Read the clock. -/
def draw : Txn Value Nat := fun w => .ok (w.drawn, { w with drawn := w.drawn + 1 })

/-! ### Shared steps -/

/-- The organization of the authenticated caller. -/
def callerOrganization (publicId : String) : Txn Value Nat := do
  let caller ← find (·.getUser publicId) (.authentication "This account no longer exists.")
  return caller.organizationId

/-- Load a run this organization owns, or raise. -/
def runOf (organizationId : Nat) (publicId : String) : Txn Value (RunRecord Value) :=
  find (·.getRun publicId organizationId) (.engine (.notFound "This run does not exist."))

/-- Load a workflow this organization owns, or raise. -/
def workflowOf (organizationId : Nat) (publicId : String) : Txn Value Workflow :=
  find (·.getWorkflow publicId organizationId)
    (.engine (.notFound "This workflow does not exist."))

/-- The conflict of a workflow without a published version. -/
def neverPublished : RunError :=
  .engine (.conflict "This workflow has no published version to run.")

/-- The version this run will pin, or a conflict explaining why not. -/
def publishedVersion (w : Workflow) : Txn Value VersionRecord := do
  let id ← find (fun _ => w.activeVersionId) neverPublished
  let v ← find (·.versionById id) neverPublished
  TwoRun.require (v.version.status = .published)
    (.engine (.conflict "Only a published version can be run."))
  return v

/-- The public id of the organization a run belongs to. -/
def organizationPublicIdOf (organizationId : Nat) : Txn Value String := do
  let organization ← find (·.getOrganization organizationId)
    (.engine (.domainRule "This run's organization no longer exists."))
  return organization.publicId

/-! ### Loading a run and writing it back -/

/-- The rows of a run, as a transaction loads them. -/
structure Loaded (Value : Type) where
  run : RunRecord Value
  executions : List (ExecutionRecord Value)
  nodes : List (NodeRow Value)
  graph : WorkflowGraph Value
  events : List RunEvent

namespace Loaded

variable (l : Loaded Value)

/-- The node a row is about. -/
def keyOf (x : ExecutionRecord Value) : Option NodeKey :=
  (joined l.nodes x.workflowNodeId).map fun n => n.node.key

/-- The executions by node key. -/
def byKey : Dict NodeKey (ExecutionRecord Value) :=
  Dict.assign [] (l.executions.filterMap fun x => (l.keyOf x).map fun key => (key, x))

/-- The mapping has executions that were loaded. -/
theorem mem_byKey {e : NodeKey × ExecutionRecord Value} (he : e ∈ l.byKey) :
    e.2 ∈ l.executions := by
  rcases Dict.mem_assign [] he with hnil | he
  · cases hnil
  · obtain ⟨x, hx, hkey⟩ := List.mem_filterMap.mp he
    obtain ⟨key, -, rfl⟩ := Option.map_eq_some_iff.mp hkey
    exact hx

/-- The rows the transactions of one run act on. -/
def rows : RunRows Value where
  run := l.run.row
  executions := fun key =>
    match l.byKey.get? key with
    | some x => x.row
    | none => ⟨.pending, 1, none, none, none, none, none⟩
  events := l.events

/-- The run's persisted state, as the scheduler sees it. -/
def snapshot : RunSnapshot Value where
  status := l.run.row.status
  graph := l.graph
  nodeExecutions := fun key =>
    (l.byKey.get? key).map fun x =>
      { nodeKey := key, status := x.row.status, attempt := x.row.attempt, outputs := x.row.output }
  triggerPayload := l.run.row.triggerPayload

/-- Where every node of the graph has its execution, the snapshot is that of the rows. -/
theorem snapshot_eq (h : ∀ key, (l.byKey.get? key).isSome ↔ key ∈ l.graph.nodeKeys) :
    l.snapshot = Orqent.snapshot l.graph l.rows := by
  unfold snapshot Orqent.snapshot rows
  congr 1
  funext key
  by_cases hkey : key ∈ l.graph.nodeKeys
  · obtain ⟨x, hx⟩ := Option.isSome_iff_exists.mp ((h key).mpr hkey)
    simp only [if_pos hkey, hx]
    rfl
  · have hnone : l.byKey.get? key = none :=
      Option.not_isSome_iff_eq_none.mp fun hsome => hkey ((h key).mp hsome)
    simp only [if_neg hkey, hnone]
    rfl

/-- What a tick makes of the rows of a run that has its executions is what it makes of them
among the rows of that run alone. -/
theorem tick_eq (h : ∀ key, (l.byKey.get? key).isSome ↔ key ∈ l.graph.nodeKeys) (now : Time) :
    (do
      let decisions ← Scheduler.tick l.snapshot
      applyDecisions now l.rows decisions) = tickBody l.graph now l.rows := by
  rw [l.snapshot_eq h]
  rfl

section Saving

variable [DecidableEq Value]

/-- A row of `runs` after the run was moved. -/
def savedRun (now : Time) (rows : RunRows Value) (r : RunRecord Value) : RunRecord Value :=
  if r.id = l.run.id then
    { r with row := rows.run, updatedAt := if rows.run = r.row then r.updatedAt else now }
  else r

/-- A row of `node_executions` after the run was moved. -/
def savedExecution (rows : RunRows Value) (x : ExecutionRecord Value) : ExecutionRecord Value :=
  match l.byKey.find? fun e => e.2.id = x.id with
  | some e => { x with row := rows.executions e.1 }
  | none => x

/-- The events that were appended. -/
def newEvents (now : Time) (rows : RunRows Value) : List EventRecord :=
  (rows.events.drop l.events.length).map fun e => ⟨l.run.organizationId, l.run.id, now, e⟩

/-- What a transaction does to the queue. -/
def queued (taskId : Nat) (now : Time) (op : QueueOp) (db : Db Value) : Db Value :=
  match op with
  | .enqueue => db.enqueue taskId l.run.id l.run.organizationId now
  | .finishOutstanding => db.finishOutstanding l.run.id l.run.organizationId

end Saving

end Loaded

section Operations

variable [DecidableEq Value] (P : RunPorts Value)

/-- Read the run's persisted state. -/
def load (r : RunRecord Value) (organizationId : Nat) : Txn Value (Loaded Value) := do
  let executions ← ask (·.listExecutions r.id organizationId)
  let nodes ← ask fun db => listNodes (db.graphs r.workflowVersionId)
  let graph ← find (fun db => loadGraph (db.graphs r.workflowVersionId)) .invalidGraph
  let events ← ask (·.eventsOf r.id)
  return ⟨r, executions, nodes, graph, events⟩

/-- Write the rows back, at a moment of the clock. -/
def save (l : Loaded Value) (n : Nat) (work : RunRows Value × List QueueOp) : Txn Value Unit := do
  write (·.updateRun (l.savedRun (P.clock n) work.1))
  write (·.updateExecutions (l.savedExecution work.1))
  write (·.appendEvents (l.newEvents (P.clock n) work.1))
  work.2.forM fun op => write (l.queued (P.taskId n) (P.clock n) op)

/-! ### Creating -/

/-- Write the run, its node executions, its first event and its queue task. -/
def materializeRun (workflowPublicId : String) (organizationId : Nat)
    (triggerPayload : Option (Dict String Value)) : Txn Value (RunRecord Value) := do
  let w ← workflowOf organizationId workflowPublicId
  let v ← publishedVersion w
  let n ← draw
  let rows := materialize triggerPayload
  let run : RunRecord Value :=
    ⟨P.runId n, P.runPublicId n, organizationId, w.id, v.id, P.clock n, P.clock n, rows.run⟩
  insert (·.insertRun run)
  let nodes ← ask fun db => listNodes (db.graphs v.id)
  insert (·.insertExecutions (nodes.zipIdx.map fun e =>
    ⟨P.executionId n e.2, P.executionPublicId n e.2, organizationId, run.id, e.1.id,
      rows.executions e.1.node.key⟩))
  let earlier ← ask (·.eventsOf run.id)
  write (·.appendEvents
    [⟨organizationId, run.id, P.clock n, ⟨nextSeq earlier, .runStarted, none⟩⟩])
  write (·.enqueue (P.taskId n) run.id organizationId (P.clock n))
  return run

/-- The transaction that creates a run for a caller. -/
def createTxn (caller workflowPublicId : String) (triggerPayload : Option (Dict String Value)) :
    Txn Value (RunRecord Value) := do
  let organizationId ← callerOrganization caller
  materializeRun P workflowPublicId organizationId triggerPayload

/-! ### Invoking -/

/-- Whether re-attempting this node would break its own declaration. -/
def repeatUnsafe (registry : NodeRegistry Value) (g : WorkflowGraph Value) (key : NodeKey)
    (attempt : Nat) : Except EngineError Bool :=
  if attempt ≤ 1 then .ok false
  else match g.node key with
    | none => .ok false
    | some node => do return (← registry.get node.nodeType node.version).sideEffect = .atMostOnce

omit [DecidableEq Value] in
theorem repeatWouldBeUnsafe_eq (env : Env Value) (key : NodeKey) (attempt : Nat) :
    repeatWouldBeUnsafe env key attempt = repeatUnsafe env.registry env.graph key attempt := rfl

/-- A node handed to a runner: its row, its attempt, and the token it is resumed with. -/
structure Handed where
  key : NodeKey
  workflowNodeId : Nat
  attempt : Nat
  token : Option String

/-- Run one node and report what it did. -/
def invokeNode (organizationPublicId : String) (l : Loaded Value) (h : Handed) : Outcome Value :=
  match repeatUnsafe P.registry l.graph h.key h.attempt with
  | .error e => .escaped e
  | .ok true => .refused
  | .ok false =>
      match buildContext l.snapshot P.registry h.key l.run.id organizationPublicId h.workflowNodeId
          h.attempt h.token, l.graph.node h.key with
      | .error e, _ => .escaped e
      | .ok _, none =>
          .escaped (.domainRule ("The graph has no node " ++ quoted h.key ++ "."))
      | .ok context, some node =>
          .returned (P.runner node.nodeType node.version context).result

omit [DecidableEq Value] in
/-- An invocation of the run's own system, with what the runner does. -/
theorem invokeNode_eq (env : Env Value) {l : Loaded Value} {h : Handed}
    (hgraph : env.graph = l.graph) (hregistry : env.registry = P.registry)
    (hrun : env.runId = l.run.id) (hnode : env.workflowNodeId h.key = h.workflowNodeId)
    (hcomplete : ∀ key, (l.byKey.get? key).isSome ↔ key ∈ l.graph.nodeKeys) :
    ∃ outcome, invokeNode P env.organizationPublicId l h
      = invokeLaunch env l.rows ⟨h.key, h.attempt, h.token⟩ outcome := by
  have hinvocation : invocation env l.rows ⟨h.key, h.attempt, h.token⟩
      = (repeatUnsafe P.registry l.graph h.key h.attempt >>= fun mustRefuse =>
          if mustRefuse then return none
          else return some (← buildContext l.snapshot P.registry h.key l.run.id
            env.organizationPublicId h.workflowNodeId h.attempt h.token)) := by
    rw [l.snapshot_eq hcomplete, ← hgraph, ← hregistry, ← hrun, ← hnode]
    rfl
  unfold invokeLaunch
  rw [hinvocation]
  unfold invokeNode
  cases repeatUnsafe P.registry l.graph h.key h.attempt with
  | error e => exact ⟨.raised "" "", rfl⟩
  | ok mustRefuse =>
      cases mustRefuse with
      | true => exact ⟨.raised "" "", rfl⟩
      | false =>
          cases hcontext : buildContext l.snapshot P.registry h.key l.run.id
              env.organizationPublicId h.workflowNodeId h.attempt h.token with
          | error e => exact ⟨.raised "" "", rfl⟩
          | ok context =>
              cases hfound : l.graph.node h.key with
              | none =>
                  unfold buildContext at hcontext
                  rw [show l.snapshot.graph = l.graph from rfl, hfound] at hcontext
                  cases hcontext
              | some node => exact ⟨P.runner node.nodeType node.version context, rfl⟩

/-! ### Recording -/

/-- Whether the token a node returned is held by another row, of whichever organization.  What
else the database may refuse depends on the result alone, and is left out. -/
def elsewhere (result : NodeResult Value) (executionId : Nat) (db : Db Value) : Bool :=
  match result with
  | .suspended token _ => db.tokenTaken token executionId
  | _ => false

/-- Record what one node did. -/
def settleTxn (organizationId : Nat) (runPublicId : String) (key : NodeKey)
    (result : NodeResult Value) : Txn Value Unit := do
  let r ← runOf organizationId runPublicId
  let l ← load r organizationId
  let execution ← find (fun _ => l.byKey.get? key) (.engine (.missingKey key))
  let n ← draw
  let taken ← ask (elsewhere result execution.id)
  let rows ← engine (settleBody l.graph (P.clock n) key result taken l.rows)
  save P l n (rows, [])

/-- Fail a node that must not be repeated, without invoking it. -/
def refuseTxn (organizationId : Nat) (runPublicId : String) (key : NodeKey) : Txn Value Unit := do
  let r ← runOf organizationId runPublicId
  let l ← load r organizationId
  let _ ← find (fun _ => l.byKey.get? key) (.engine (.missingKey key))
  let n ← draw
  let rows ← engine (refuseBody l.graph (P.clock n) key l.rows)
  save P l n (rows, [])

/-- Record an outcome, in a transaction of its own. -/
def settle (organizationId : Nat) (runPublicId : String) (key : NodeKey) :
    Outcome Value → UseCase Value Unit
  | .refused => TwoRun.commit (refuseTxn P organizationId runPublicId key)
  | .returned result => TwoRun.commit (settleTxn P organizationId runPublicId key result)
  | .escaped e => throw (.engine e)

/-- Record the outcomes of a batch in the scheduler's order; what escaped is raised after the
others are recorded. -/
def settleAll (organizationId : Nat) (runPublicId : String) :
    List (NodeKey × Outcome Value) → Option EngineError → UseCase Value Unit
  | [], none => pure ()
  | [], some e => throw (.engine e)
  | (_, .escaped e) :: rest, failure =>
      settleAll organizationId runPublicId rest (some (failure.getD e))
  | (key, outcome) :: rest, failure => do
      settle P organizationId runPublicId key outcome
      settleAll organizationId runPublicId rest failure

/-! ### Advancing -/

/-- What a scheduling transaction comes to. -/
inductive Ticked (Value : Type)
  | rested (run : RunRecord Value)
  | started (l : Loaded Value) (organizationPublicId : String) (batch : List Handed)

/-- The nodes a tick started, as they are handed to their runners. -/
def handed (l : Loaded Value) (rows : RunRows Value) (decisions : List SchedulerDecision) :
    List Handed :=
  decisions.filterMap fun
    | .startNode key =>
        (l.byKey.get? key).map fun x => ⟨key, x.workflowNodeId, (rows.executions key).attempt, none⟩
    | _ => none

/-- The error of a run that went through more cycles than it can need. -/
def notSettled (limit : Nat) : RunError :=
  .engine (.domainRule
    ("This run did not settle within " ++ toString limit
      ++ " scheduler cycles, which should be impossible for a graph of this size."))

/-- The scheduling transaction, with this many cycles left. -/
def tickTxn (organizationId : Nat) (runPublicId : String) (limit left : Nat) :
    Txn Value (Ticked Value) := do
  let r ← runOf organizationId runPublicId
  let l ← load r organizationId
  let organizationPublicId ← organizationPublicIdOf organizationId
  let decisions ← engine (Scheduler.tick l.snapshot)
  match decisions with
  | [] => return .rested r
  | decisions => do
      TwoRun.require (left ≠ 0) (notSettled limit)
      let n ← draw
      let work ← engine (applyDecisions (P.clock n) l.rows decisions)
      save P l n work
      return .started l organizationPublicId (handed l work.1 decisions)

/-- One cycle: the run where it has come to rest, and nothing where there is more to do. -/
def cycle (organizationId : Nat) (runPublicId : String) (limit left : Nat) :
    UseCase Value (Option (RunRecord Value)) := do
  match ← TwoRun.commit (tickTxn P organizationId runPublicId limit left) with
  | .rested r => return some r
  | .started l organizationPublicId batch => do
      settleAll P organizationId runPublicId
        (batch.map fun h => (h.key, invokeNode P organizationPublicId l h)) none
      return none

/-- Alternate scheduling and execution. -/
def advanceLoop (organizationId : Nat) (runPublicId : String) (limit : Nat) :
    Nat → UseCase Value (RunRecord Value)
  | 0 => do
      match ← cycle P organizationId runPublicId limit 0 with
      | some r => return r
      -- Not reached: with no cycle left the transaction raises.
      | none => throw (notSettled limit)
  | left + 1 => do
      match ← cycle P organizationId runPublicId limit (left + 1) with
      | some r => return r
      | none => advanceLoop organizationId runPublicId limit left

/-- The number of cycles a run may take, read in the first transaction. -/
def cycleLimit (organizationId : Nat) (runPublicId : String) : Txn Value Nat := do
  let r ← runOf organizationId runPublicId
  let l ← load r organizationId
  return l.graph.length + 1

/-- Drive a run forward until it can go no further. -/
def advance (organizationId : Nat) (runPublicId : String) : UseCase Value (RunRecord Value) := do
  let limit ← TwoRun.commit (cycleLimit organizationId runPublicId)
  advanceLoop P organizationId runPublicId limit limit

/-! ### Resuming -/

/-- Move the node whose token it is, and the run, to running. -/
def resumeNode (now : Time) (key : NodeKey) (rows : RunRows Value) :
    Except EngineError (RunRows Value × List QueueOp) := do
  let execution := rows.executions key
  ensureNodeExecutionTransition execution.status .running
  ensureRunTransition rows.run.status .running
  let rows := rows.write key
    { execution with status := .running, resumeToken := none, startedAt := some now }
  let rows := { rows with run := { rows.run with status := .running } }
  return ((rows.append .runResumed none).append .nodeStarted (some (.node key)), [.enqueue])

omit [DecidableEq Value] in
/-- Where the token finds a waiting node of a suspended run, the run's own transaction is this. -/
theorem resumeBody_eq {g : WorkflowGraph Value} {now : Time} {token : String} {rows : RunRows Value}
    {key : NodeKey} (hkey : waitingNode g rows token = some key)
    (hnode : (rows.executions key).status = .waiting) (hrun : rows.run.status = .suspended) :
    resumeBody g now token rows = resumeNode now key rows := by
  unfold resumeBody resumeNode
  rw [hkey]
  simp only [hnode, hrun, ne_eq, not_true_eq_false, if_false]

/-- The answer to a token under which no node of the run waits. -/
def wrongToken : RunError :=
  .engine (.notFound "This resume token does not match a waiting node.")

/-- The first transaction of a resume. -/
def resumeTxn (caller runPublicId token : String) :
    Txn Value (Nat × Loaded Value × String × Handed) := do
  let organizationId ← callerOrganization caller
  let r ← runOf organizationId runPublicId
  let x ← find (·.getByResumeToken token organizationId) wrongToken
  TwoRun.require (x.runId = r.id) wrongToken
  TwoRun.require (x.row.status = .waiting)
    (.engine (.conflict "This node is not waiting to be resumed."))
  TwoRun.require (r.row.status = .suspended) (.engine (.conflict "This run is not suspended."))
  let l ← load r organizationId
  let entry ← find (fun _ => l.byKey.find? fun e => e.2.id = x.id) (.engine (.missingKey token))
  let n ← draw
  let work ← engine (resumeNode (P.clock n) entry.1 l.rows)
  save P l n work
  let organizationPublicId ← organizationPublicIdOf organizationId
  return (organizationId, l, organizationPublicId,
    ⟨entry.1, x.workflowNodeId, x.row.attempt, some token⟩)

/-- Resolve a suspended node's token and carry the run on. -/
def resume (caller runPublicId token : String) : UseCase Value (RunRecord Value) := do
  let (organizationId, l, organizationPublicId, h) ←
    TwoRun.commit (resumeTxn P caller runPublicId token)
  settle P organizationId runPublicId h.key (invokeNode P organizationPublicId l h)
  advance P organizationId runPublicId

/-! ### Reads -/

/-- A run as a list shows it. -/
structure RunSummaryView (Value : Type) where
  run : RunRecord Value
  workflowPublicId : String
  versionNo : Option Nat
deriving DecidableEq

/-- A run as its page shows it, with its nodes. -/
structure RunDetailView (Value : Type) where
  summary : RunSummaryView Value
  nodeExecutions : List (ExecutionRecord Value)
  nodeKeys : List (Nat × NodeKey)
deriving DecidableEq

/-- The rows joined to a run are there: its foreign keys name them. -/
def summary (r : RunRecord Value) : Txn Value (RunSummaryView Value) := do
  let w ← find (·.workflowById r.workflowId) (.engine (.missingKey "workflow"))
  let v ← find (·.versionById r.workflowVersionId) (.engine (.missingKey "version"))
  return ⟨r, w.publicId, v.version.versionNo⟩

/-- What the page of a run shows. -/
def detail (r : RunRecord Value) (organizationId : Nat) : Txn Value (RunDetailView Value) := do
  let s ← summary r
  let executions ← ask (·.listExecutions r.id organizationId)
  let nodes ← ask fun db => listNodes (db.graphs r.workflowVersionId)
  return ⟨s, executions, nodes.map fun n => (n.id, n.node.key)⟩

/-- The transaction that shows a caller a run. -/
def getTxn (caller runPublicId : String) : Txn Value (RunDetailView Value) := do
  let organizationId ← callerOrganization caller
  let r ← runOf organizationId runPublicId
  detail r organizationId

/-- One page of the organization's runs, newest first, plus the total. -/
def listTxn (caller : String) (limit offset : Nat) (workflowId : Option String) :
    Txn Value (List (RunSummaryView Value) × Nat) := do
  let organizationId ← callerOrganization caller
  let filter ← ask fun db => workflowId.map fun id => db.getWorkflow id organizationId
  match filter with
  | some none => return ([], 0)
  | filter => do
      let internalId := filter.bind fun w => w.map fun w => w.id
      let runs ← ask (·.listForOrg organizationId limit offset internalId)
      let total ← ask (·.countForOrg organizationId internalId)
      let views ← runs.mapM summary
      return (views, total)

/-- The transaction that shows a caller the events of a run. -/
def listEventsTxn (caller runPublicId : String) : Txn Value (List EventRecord) := do
  let organizationId ← callerOrganization caller
  let r ← runOf organizationId runPublicId
  ask (·.listEvents r.id organizationId)

/-! ### The operations -/

/-- The calls a caller can make. -/
inductive RunCall (Value : Type)
  | create (workflowPublicId : String) (triggerPayload : Option (Dict String Value))
  | advance (runPublicId : String)
  | resume (runPublicId token : String)
  | get (runPublicId : String)
  | list (limit offset : Nat) (workflowId : Option String)
  | listEvents (runPublicId : String)

/-- What they answer. -/
inductive RunResult (Value : Type)
  | run (run : RunRecord Value)
  | detail (view : RunDetailView Value)
  | page (views : List (RunSummaryView Value)) (total : Nat)
  | events (events : List EventRecord)
deriving DecidableEq

/-- An operation called by the user with this public id. -/
def RunCall.perform (caller : String) : RunCall Value → UseCase Value (RunResult Value)
  | .create workflowPublicId triggerPayload => do
      return .run (← TwoRun.commit (createTxn P caller workflowPublicId triggerPayload))
  | .advance runPublicId => do
      let organizationId ← TwoRun.commit (callerOrganization caller)
      return .run (← Tenancy.advance P organizationId runPublicId)
  | .resume runPublicId token => do return .run (← Tenancy.resume P caller runPublicId token)
  | .get runPublicId => do return .detail (← TwoRun.commit (getTxn caller runPublicId))
  | .list limit offset workflowId => do
      let (views, total) ← TwoRun.commit (listTxn caller limit offset workflowId)
      return .page views total
  | .listEvents runPublicId => do
      return .events (← TwoRun.commit (listEventsTxn caller runPublicId))

/-- What an operation returns or raises, and the rows it leaves. -/
def RunCall.exec (caller : String) (call : RunCall Value) (db : Db Value) :
    Except RunError (RunResult Value) × Db Value :=
  let out := call.perform P caller { db }
  (out.1, out.2.db)

end Operations

end Tenancy

end Orqent
