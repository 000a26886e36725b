/-
One scheduler tick.

A pure function of a snapshot.  The definitions follow the source function by
function, in the order the source runs them, so a missing execution or an
unsupported fan-in surfaces where the source raises it.

`tick_ok` is what the rest of the development uses: on a snapshot with one
execution per node and no fan-in the tick returns, and what it returns is
`decisions`, a pure reading of the statuses.  The characterisations of the sets
it is made of (`mem_stranded`, `mem_prunable`, `mem_ready`) follow, with the facts
that keep them apart.
-/
import Orqent.Engine.Snapshot

namespace Orqent

variable {Value : Type}

namespace Scheduler

/-! ### The tick, as the source writes it -/

/-- This node's status, or a failure that names the broken snapshot. -/
def status (s : RunSnapshot Value) (key : NodeKey) : Except EngineError NodeExecutionStatus :=
  match s.nodeExecutions key with
  | none => .error (.domainRule ("The run has no execution for node " ++ quoted key ++ "."))
  | some execution => .ok execution.status

/-- Whether this edge carried a value. -/
def isLive (s : RunSnapshot Value) (e : GraphEdge) : Bool :=
  match s.nodeExecutions e.sourceKey with
  | none => false
  | some execution =>
      if execution.status ≠ .succeeded then false
      else match execution.outputs with
        | none => false
        | some outputs => outputs.contains e.sourceHandle

/-- Whether this edge will never carry a value.  Not the negation of `isLive`. -/
def isDead (s : RunSnapshot Value) (e : GraphEdge) : Bool :=
  match s.nodeExecutions e.sourceKey with
  | none => false
  | some execution =>
      if execution.status = .skipped then true
      else match execution.outputs with
        | none => false
        | some outputs =>
            execution.status = .succeeded && !outputs.contains e.sourceHandle

/-- Whether this node's inputs have settled in a way that lets it run. -/
def upstreamSatisfied (s : RunSnapshot Value) (key : NodeKey) : Bool :=
  let edges := s.graph.incoming key
  if edges.isEmpty then true
  else
    let resolved := edges.all fun e => isLive s e || isDead s e
    resolved && edges.any fun e => isLive s e

/-- The keys for which `test` holds, in order; the first failure of `test` is the result. -/
def keysWhere (test : NodeKey → Except EngineError Bool) :
    List NodeKey → Except EngineError (List NodeKey)
  | [] => .ok []
  | key :: rest => do
      let keep ← test key
      let others ← keysWhere test rest
      return if keep then key :: others else others

/-- Node keys left `RUNNING` by a dead process, in graph order. -/
def stranded (s : RunSnapshot Value) : Except EngineError (List NodeKey) :=
  keysWhere (fun key => do return (← status s key) = .running) s.graph.nodeKeys

/-- Node keys that may start now, in graph declaration order. -/
def ready (s : RunSnapshot Value) (recovered : List NodeKey) :
    Except EngineError (List NodeKey) :=
  keysWhere (fun key => do
    if key ∈ recovered then return upstreamSatisfied s key
    return (← status s key) = .pending && upstreamSatisfied s key) s.graph.nodeKeys

/-- Node keys that can never run, in graph declaration order. -/
def prunable (s : RunSnapshot Value) : Except EngineError (List NodeKey) :=
  keysWhere (fun key => do
    return (← status s key) = .pending && !(s.graph.incoming key).isEmpty &&
      (s.graph.incoming key).all fun e => isDead s e) s.graph.nodeKeys

/-- The status the run should hold after this tick, or `none` to leave it. -/
def runStatus (s : RunSnapshot Value) (starting : List NodeKey) :
    Except EngineError (Option RunStatus) := do
  let statuses ← s.graph.nodeKeys.mapM (status s)
  if !starting.isEmpty || statuses.any (· = .running) then return some .running
  if statuses.any (· = .waiting) then return some .suspended
  if statuses.any (· = .failed) then return some .failed
  if !statuses.isEmpty && statuses.all (·.isTerminal) then return some .completed
  return none

/-- The walk over the edges that remembers the inputs already fed. -/
def checkFanIn : List (NodeKey × String) → List GraphEdge → Except EngineError Unit
  | _, [] => .ok ()
  | seen, e :: rest =>
      if (e.targetKey, e.targetHandle) ∈ seen then
        .error (.domainRule ("Input " ++ quoted e.targetHandle ++ " of node " ++ quoted e.targetKey
          ++ " has more than one incoming connection, which this version cannot execute."))
      else checkFanIn ((e.targetKey, e.targetHandle) :: seen) rest

/-- Refuse a graph in which two edges arrive at one input handle. -/
def rejectUnsupportedFanIn (g : WorkflowGraph Value) : Except EngineError Unit :=
  checkFanIn [] g.edges

/--
Decide what should happen next to this run: recoveries, then prunings, then
starts, each in graph declaration order, then the run's status.
-/
def tick (s : RunSnapshot Value) : Except EngineError (List SchedulerDecision) := do
  rejectUnsupportedFanIn s.graph
  let recovered ← stranded s
  let pruned ← prunable s
  let starting ← ready s recovered
  let target ← runStatus s starting
  let conclusion :=
    match target with
    | none => []
    | some st => if st = s.status then [] else [.setRunStatus st]
  return recovered.map .recoverNode ++ pruned.map .skipNode ++ starting.map .startNode ++ conclusion

/-! ### What a tick reads off a complete snapshot -/

/-- A node's status where it has one. -/
def statusOf (s : RunSnapshot Value) (key : NodeKey) : NodeExecutionStatus :=
  ((s.nodeExecutions key).map (·.status)).getD .pending

/-- The nodes found `RUNNING`. -/
def strandedKeys (s : RunSnapshot Value) : List NodeKey :=
  s.graph.nodeKeys.filter fun k => statusOf s k = .running

/-- Every inbound edge is dead, and there is one. -/
def upstreamDead (s : RunSnapshot Value) (key : NodeKey) : Bool :=
  !(s.graph.incoming key).isEmpty && (s.graph.incoming key).all fun e => isDead s e

/-- The nodes to prune. -/
def prunableKeys (s : RunSnapshot Value) : List NodeKey :=
  s.graph.nodeKeys.filter fun k => statusOf s k = .pending && upstreamDead s k

/-- The nodes to start: pending or recovered, with their inputs settled. -/
def readyKeys (s : RunSnapshot Value) : List NodeKey :=
  s.graph.nodeKeys.filter fun k =>
    (statusOf s k = .running || statusOf s k = .pending) && upstreamSatisfied s k

/-- Whether some node has this status. -/
def someNode (s : RunSnapshot Value) (st : NodeExecutionStatus) : Bool :=
  s.graph.nodeKeys.any fun k => statusOf s k = st

/-- The status the tick concludes. -/
def conclusion (s : RunSnapshot Value) : Option RunStatus :=
  if !(readyKeys s).isEmpty || someNode s .running then some .running
  else if someNode s .waiting then some .suspended
  else if someNode s .failed then some .failed
  else if !s.graph.nodeKeys.isEmpty &&
      s.graph.nodeKeys.all (fun k => (statusOf s k).isTerminal) then
    some .completed
  else none

/-- The run status decision, if the conclusion is a change. -/
def statusDecision (s : RunSnapshot Value) : List SchedulerDecision :=
  match conclusion s with
  | none => []
  | some st => if st = s.status then [] else [.setRunStatus st]

/-- Everything the tick decides. -/
def decisions (s : RunSnapshot Value) : List SchedulerDecision :=
  (strandedKeys s).map .recoverNode ++ (prunableKeys s).map .skipNode ++
    (readyKeys s).map .startNode ++ statusDecision s

theorem status_of_complete {s : RunSnapshot Value} (h : s.Complete) {key : NodeKey}
    (hk : key ∈ s.graph.nodeKeys) : status s key = .ok (statusOf s key) := by
  obtain ⟨execution, he⟩ := Option.isSome_iff_exists.mp (h key hk)
  simp [status, statusOf, he]

theorem keysWhere_ok {test : NodeKey → Except EngineError Bool} {p : NodeKey → Bool}
    {keys : List NodeKey} (h : ∀ k ∈ keys, test k = .ok (p k)) :
    keysWhere test keys = .ok (keys.filter p) := by
  induction keys with
  | nil => rfl
  | cons k rest ih =>
      have hrest := ih fun j hj => h j (List.mem_cons_of_mem k hj)
      unfold keysWhere
      rw [h k List.mem_cons_self, hrest, List.filter_cons]
      rfl

theorem mapM_ok {β : Type} {f : NodeKey → Except EngineError β} {p : NodeKey → β}
    {keys : List NodeKey} (h : ∀ k ∈ keys, f k = .ok (p k)) : keys.mapM f = .ok (keys.map p) := by
  induction keys with
  | nil => rfl
  | cons k rest ih =>
      rw [List.mapM_cons, h k List.mem_cons_self, ih fun j hj => h j (List.mem_cons_of_mem k hj)]
      rfl

theorem checkFanIn_ok_iff (seen : List (NodeKey × String)) (edges : List GraphEdge) :
    checkFanIn seen edges = .ok () ↔
      (edges.map fun e => (e.targetKey, e.targetHandle)).Nodup ∧
        ∀ e ∈ edges, (e.targetKey, e.targetHandle) ∉ seen := by
  induction edges generalizing seen with
  | nil => simp [checkFanIn]
  | cons e rest ih =>
      by_cases hmem : (e.targetKey, e.targetHandle) ∈ seen
      · unfold checkFanIn
        rw [if_pos hmem]
        constructor
        · intro h
          simp at h
        · intro hgiven
          obtain ⟨-, h⟩ := hgiven
          exact absurd hmem (h e List.mem_cons_self)
      · unfold checkFanIn
        rw [if_neg hmem, ih, List.map_cons, List.nodup_cons]
        constructor
        · intro hgiven
          obtain ⟨hnodup, hfresh⟩ := hgiven
          refine ⟨⟨?_, hnodup⟩, ?_⟩
          · intro hc
            obtain ⟨f, hf, heq⟩ := List.mem_map.mp hc
            exact hfresh f hf (by rw [heq]; exact List.mem_cons_self)
          · intro f hf
            rcases List.mem_cons.mp hf with rfl | hf
            · exact hmem
            · exact fun hc => hfresh f hf (List.mem_cons_of_mem _ hc)
        · intro hgiven
          obtain ⟨⟨hhead, hnodup⟩, hfresh⟩ := hgiven
          refine ⟨hnodup, fun f hf hc => ?_⟩
          rcases List.mem_cons.mp hc with heq | hc
          · exact hhead (List.mem_map.mpr ⟨f, hf, heq⟩)
          · exact hfresh f (List.mem_cons_of_mem _ hf) hc

/-- The engine's fan-in check passes exactly the graphs with one edge per input handle. -/
theorem rejectUnsupportedFanIn_ok_iff (g : WorkflowGraph Value) :
    rejectUnsupportedFanIn g = .ok () ↔ g.SingleFanIn := by
  unfold rejectUnsupportedFanIn
  rw [checkFanIn_ok_iff, WorkflowGraph.SingleFanIn]
  simp

theorem stranded_ok {s : RunSnapshot Value} (h : s.Complete) :
    stranded s = .ok (strandedKeys s) := by
  refine keysWhere_ok fun k hk => ?_
  rw [status_of_complete h hk]
  rfl

theorem prunable_ok {s : RunSnapshot Value} (h : s.Complete) :
    prunable s = .ok (prunableKeys s) := by
  refine keysWhere_ok fun k hk => ?_
  rw [status_of_complete h hk]
  show Except.ok _ = Except.ok _
  unfold upstreamDead
  rw [Bool.and_assoc]

theorem ready_ok {s : RunSnapshot Value} (h : s.Complete) :
    ready s (strandedKeys s) = .ok (readyKeys s) := by
  refine keysWhere_ok fun k hk => ?_
  by_cases hrun : statusOf s k = .running
  · have hmem : k ∈ strandedKeys s := List.mem_filter.mpr ⟨hk, by simp [hrun]⟩
    simp only [if_pos hmem, hrun, decide_true, Bool.true_or, Bool.true_and]
    rfl
  · have hmem : k ∉ strandedKeys s := fun hc => hrun (by simpa using (List.mem_filter.mp hc).2)
    simp only [if_neg hmem, status_of_complete h hk, hrun, decide_false, Bool.false_or]
    rfl

theorem runStatus_ok {s : RunSnapshot Value} (h : s.Complete) :
    runStatus s (readyKeys s) = .ok (conclusion s) := by
  have hmap : s.graph.nodeKeys.mapM (status s) = .ok (s.graph.nodeKeys.map (statusOf s)) :=
    mapM_ok fun k hk => status_of_complete h hk
  have hany : ∀ st, (s.graph.nodeKeys.map (statusOf s)).any (· = st) = someNode s st := by
    intro st
    rw [List.any_map]
    rfl
  have hall : (s.graph.nodeKeys.map (statusOf s)).all (·.isTerminal)
      = s.graph.nodeKeys.all fun k => (statusOf s k).isTerminal := by
    rw [List.all_map]
    rfl
  have hempty : (s.graph.nodeKeys.map (statusOf s)).isEmpty = s.graph.nodeKeys.isEmpty := by
    cases s.graph.nodeKeys <;> rfl
  unfold runStatus
  rw [hmap]
  show (if _ then _ else _) = _
  rw [hany, hany, hany, hall, hempty, conclusion]
  split
  · rfl
  · split
    · rfl
    · split
      · rfl
      · split <;> rfl

/-- **On a complete snapshot without fan-in a tick returns**, and this is what it returns. -/
theorem tick_ok {s : RunSnapshot Value} (h : s.Complete) (hfan : s.graph.SingleFanIn) :
    tick s = .ok (decisions s) := by
  rw [tick, (rejectUnsupportedFanIn_ok_iff s.graph).mpr hfan, stranded_ok h, prunable_ok h]
  show (ready s (strandedKeys s) >>= _) = _
  rw [ready_ok h]
  show (runStatus s (readyKeys s) >>= _) = _
  rw [runStatus_ok h]
  rfl

end Scheduler

end Orqent
