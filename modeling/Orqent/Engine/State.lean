/-
Execution state machines: what a run and a node execution may do next.

The legal moves are data.  A status is final when nothing may follow it, which is
read off the table rather than listed beside it, and every write of a status goes
through a guard that refuses what the table does not list.
-/
import Mathlib.Data.List.Sort

namespace Orqent

/-- Why a step of the engine was refused, with the text the caller is shown. -/
inductive EngineError
  | notFound (message : String)
  | conflict (message : String)
  | domainRule (message : String)
  | invalidStateTransition (message : String)
  | unknownNodeType (message : String)
  /-- The database refused a row: the column whose value it would not take. -/
  | integrity (column : String)
  /-- A mapping was read at a key it does not have. -/
  | missingKey (key : String)
deriving DecidableEq, Repr

/-- Whether this is an `InvalidStateTransitionError`. -/
def EngineError.isInvalidTransition : EngineError → Bool
  | .invalidStateTransition _ => true
  | _ => false

/-- Where one execution of a workflow version has got to. -/
inductive RunStatus
  | pending
  | running
  | suspended
  | completed
  | failed
deriving DecidableEq, Repr

/-- Where one node's execution within a run has got to. -/
inductive NodeExecutionStatus
  | pending
  | running
  | waiting
  | succeeded
  | failed
  | skipped
deriving DecidableEq, Repr

namespace RunStatus

/-- The status as it is stored. -/
def value : RunStatus → String
  | pending => "PENDING"
  | running => "RUNNING"
  | suspended => "SUSPENDED"
  | completed => "COMPLETED"
  | failed => "FAILED"

/-- Legal run transitions.  Only back to `RUNNING` from `SUSPENDED`. -/
def transitions : RunStatus → List RunStatus
  | pending => [running, completed, failed]
  | running => [suspended, completed, failed]
  | suspended => [running]
  | completed => []
  | failed => []

/-- Whether this status has no successor. -/
def isTerminal (s : RunStatus) : Bool := s.transitions.isEmpty

/-- A run a worker has nothing to do for: parked, or finished. -/
def isResting (s : RunStatus) : Bool := s = suspended || s.isTerminal

end RunStatus

namespace NodeExecutionStatus

/-- The status as it is stored. -/
def value : NodeExecutionStatus → String
  | pending => "PENDING"
  | running => "RUNNING"
  | waiting => "WAITING"
  | succeeded => "SUCCEEDED"
  | failed => "FAILED"
  | skipped => "SKIPPED"

/-- Legal node-execution transitions.  `RUNNING → PENDING` is recovery. -/
def transitions : NodeExecutionStatus → List NodeExecutionStatus
  | pending => [running, skipped]
  | running => [waiting, succeeded, failed, pending]
  | waiting => [running]
  | succeeded => []
  | failed => []
  | skipped => []

/-- Whether this status has no successor. -/
def isTerminal (s : NodeExecutionStatus) : Bool := s.transitions.isEmpty

end NodeExecutionStatus

/-- Sorted, comma-separated status names. -/
def render (names : List String) : String :=
  String.intercalate ", " (names.insertionSort (· ≤ ·))

/-- The guard both machines share: the move is in the table, or it is refused and named. -/
def ensure {Status : Type} [DecidableEq Status] (transitions : Status → List Status)
    (value : Status → String) (current target : Status) (subject : String) :
    Except EngineError Unit :=
  if target ∈ transitions current then .ok ()
  else
    let reason :=
      if (transitions current).isEmpty then value current ++ " is a final state"
      else "only " ++ render ((transitions current).map value) ++ " may follow " ++ value current
    .error (.invalidStateTransition
      ("A " ++ subject ++ " cannot move from " ++ value current ++ " to " ++ value target
        ++ ": " ++ reason ++ "."))

/-- A run may go from one status to another, or it is said why not. -/
def ensureRunTransition (current target : RunStatus) : Except EngineError Unit :=
  ensure RunStatus.transitions RunStatus.value current target "run"

/-- The same of a node execution. -/
def ensureNodeExecutionTransition (current target : NodeExecutionStatus) :
    Except EngineError Unit :=
  ensure NodeExecutionStatus.transitions NodeExecutionStatus.value current target "node execution"

/-- A computation went through where its first part did and the rest did on its result. -/
theorem except_bind_eq_ok_iff {ε α β : Type} {x : Except ε α} {f : α → Except ε β} {b : β} :
    (x >>= f) = .ok b ↔ ∃ a, x = .ok a ∧ f a = .ok b := by
  cases x <;> simp [bind, Except.bind]

section Guards

variable {Status : Type} [DecidableEq Status] {transitions : Status → List Status}
  {value : Status → String} {current target : Status} {subject : String}

theorem ensure_of_mem (h : target ∈ transitions current) :
    ensure transitions value current target subject = .ok () := by
  unfold ensure
  rw [if_pos h]

/-- The guard passes exactly the moves of the table. -/
theorem ensure_ok_iff :
    ensure transitions value current target subject = .ok () ↔ target ∈ transitions current := by
  constructor
  · intro h
    by_contra hnot
    unfold ensure at h
    rw [if_neg hnot] at h
    simp at h
  · exact ensure_of_mem

/-- What the guard refuses, it refuses as an illegal transition. -/
theorem ensure_error {e : EngineError}
    (h : ensure transitions value current target subject = .error e) :
    target ∉ transitions current ∧ e.isInvalidTransition = true := by
  by_cases hmem : target ∈ transitions current
  · rw [ensure_of_mem hmem] at h
    simp at h
  · unfold ensure at h
    rw [if_neg hmem, Except.error.injEq] at h
    exact ⟨hmem, h ▸ rfl⟩

end Guards

end Orqent
