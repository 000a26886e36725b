/-
All runs at once.

The committed rows of every run, the whole queue, and the processes over them.  A process
is about one run at a time: the one its caller named, or the one whose task it claimed.
Its statements read and write that run's rows and the queue, which all runs share; a claim
may take any run's task, and a resume token can be taken only if no other run holds it.

What one run sees of this is the system with that run alone.
-/
import Orqent.Queue.Shares
import Orqent.Runtime.System

namespace Orqent

variable {P Value : Type}

/-- The runs by id, with what they are pinned to; `about` is the run a process is about. -/
structure Deployment (P Value : Type) where
  runs : List (Env Value × RunRows Value)
  queue : QueueTable P
  procs : P → Process Value
  about : P → Nat

/-- What happens in a deployment. -/
inductive DeploymentAction (P Value : Type)
  /-- A run is created, pinned to a version. -/
  | create (env : Env Value) (now : Time)
  /-- A request to advance a run, or to resume it with a token. -/
  | call (p : P) (runId : Nat) (token : Option String)
  | claim (p : P) (now leaseSeconds : Nat) (locked : List Nat)
  /-- The next action of a process at work. -/
  | act (p : P) (a : Action Value)

/-- What a request makes a process do first. -/
def calling : Option String → Action Value
  | none => .advance
  | some token => .resume token

/-- The token that the recording transaction a process has open is about to write. -/
def Phase.newToken : Phase Value → Option String
  | .recording _ _ _ (.returned (.suspended token _)) _ _ => some token
  | _ => none

/-- Whether a row of the run holds the token. -/
def holdsToken (g : WorkflowGraph Value) (rows : RunRows Value) (token : String) : Bool :=
  g.nodeKeys.any fun k => (rows.executions k).resumeToken = some token

namespace Deployment

/-- No run has been created. -/
def start (P Value : Type) : Deployment P Value := ⟨[], [], fun _ => .idle, fun _ => 0⟩

/-- Whether a row of another run holds the token. -/
def heldElsewhere (d : Deployment P Value) (runId : Nat) (token : String) : Bool :=
  d.runs.any fun r => r.1.runId ≠ runId && holdsToken r.1.graph r.2 token

/-- Whether a process at work can do this next: its call is over only when it says so, and a
token that a row of another run holds is refused. -/
def admits (d : Deployment P Value) (p : P) : Action Value → Bool
  | .advance | .resume _ | .claim .. => false
  | .commitSettle _ rejected =>
      rejected || !(d.procs p).phase.newToken.any (d.heldElsewhere (d.about p))
  | _ => true

/-- The run with these rows, beside the whole queue and all processes. -/
def view (d : Deployment P Value) (rows : RunRows Value) : Sys P Value := ⟨rows, d.queue, d.procs⟩

variable [DecidableEq P]

/-- A process acts on a run. -/
def perform [DecidableEq Value] (d : Deployment P Value) (p : P) (runId : Nat)
    (a : Action Value) : Option (Deployment P Value) := do
  let (env, rows) ← d.runs[runId]?
  let s ← (d.view rows).step env (p, a)
  return ⟨d.runs.set runId (env, s.rows), s.queue, s.procs, Function.update d.about p runId⟩

/-- One action. -/
def step [DecidableEq Value] (d : Deployment P Value) :
    DeploymentAction P Value → Option (Deployment P Value)
  | .create env now =>
      let runId := d.runs.length
      some
        { d with
          runs := d.runs ++ [({ env with runId }, materialize env.triggerPayload)]
          queue := d.queue.enqueue runId now }
  | .call p runId token =>
      match (d.procs p).phase with
      | .idle => d.perform p runId (calling token)
      | _ => none
  | .claim p now leaseSeconds locked =>
      match (d.procs p).phase with
      | .idle =>
          (d.queue.claim p now leaseSeconds locked).map fun (task, queue) =>
            { d with
              queue
              procs := Function.update d.procs p ⟨.advancing 0, some task.id, false⟩
              about := Function.update d.about p task.runId }
      | _ => none
  | .act p a => if d.admits p a then d.perform p (d.about p) a else none

end Deployment

/-! ### What one run sees -/

/-- The process, with its task under another id. -/
def Process.renumber (f : Nat → Nat) (proc : Process Value) : Process Value :=
  { proc with task := proc.task.map f }

/-- The run's share of the queue, and the processes that are about it. -/
def Sys.seen (s : Sys P Value) (runId : Nat) (about : P → Nat) : Sys P Value where
  rows := s.rows
  queue := s.queue.share runId
  procs p := if about p = runId then (s.procs p).renumber (s.queue.rank runId) else .idle

/-- The run with these rows, its share of the queue, and the processes that are about it. -/
def Deployment.onRun (d : Deployment P Value) (runId : Nat) (rows : RunRows Value) : Sys P Value :=
  (d.view rows).seen runId d.about

/-- What the run sees of a step: the actions of the processes about it. -/
def Deployment.shown (runId : Nat) (d : Deployment P Value) (e : DeploymentAction P Value)
    (_ : Deployment P Value) : List (P × Action Value) :=
  match e with
  | .create .. => []
  | .call p runId' token => if runId' = runId then [(p, calling token)] else []
  | .claim p now leaseSeconds locked =>
      match d.queue.claimable now locked with
      | some task =>
          if task.runId = runId then
            [(p, .claim now leaseSeconds (d.queue.lockedShare runId locked))]
          else []
      | none => []
  | .act p a => if d.about p = runId then [(p, a)] else []

end Orqent
