/-
An advance settles within its cycle limit.

`_advance` gives up after one cycle for each node and one to conclude.  What pays for a
cycle is a node that is no longer `PENDING`: no transaction makes a node `PENDING` again
that a tick leaves so, and a tick that finds nothing `RUNNING` and decides about some
node starts or prunes one.  Only the first cycle of an advance finds nodes `RUNNING`,
since a batch that is settled leaves none, and the node it recovers pays for it.

That leaves the cycle that moves the run and nothing else.  It changes no execution, so
the tick after it concludes what the run already is and decides nothing: there is one
such cycle, and it is the last.

`Phase.Within` is the invariant and `Phase.remaining` the measure that every step of an
advance lowers.
-/
import Orqent.Runtime.Launches
import Orqent.Runtime.Parking
import Orqent.Service.Terminal

namespace Orqent

open Scheduler

variable {P Value : Type} {env : Env Value} {s s' : Sys P Value} {p q : P} {a : Action Value}
  {now : Time}

/-! ### One advance -/

/-- The action takes an advance forward. -/
def Action.advances : Action Value → Bool
  | .beginTick | .commitTick _ | .invoke _ _ | .gather | .beginSettle | .commitSettle _ _ => true
  | _ => false

/-- The action takes the advance of `p` forward, or is a heartbeat. -/
def Alone (p : P) (a : P × Action Value) : Prop :=
  (a.1 = p ∧ a.2.advances = true) ∨ ∃ expiresAt, a.2 = .extend expiresAt

/-- The tick an action applies, where it has decided something. -/
def busyTicks (env : Env Value) (s : Sys P Value) (a : P × Action Value) (_ : Sys P Value) :
    List (List SchedulerDecision) :=
  match a.2, (s.procs a.1).phase with
  | .commitTick _, .ticking _ snap =>
      match Scheduler.tick (snapshot env.graph snap) with
      | .ok (d :: ds) => [d :: ds]
      | _ => []
  | _, _ => []

/-- The action raises because the advance did not settle within its cycles. -/
def Overruns (env : Env Value) (s : Sys P Value) : P × Action Value → Prop
  | (p, .commitTick _) => ∃ cycles snap ds, (s.procs p).phase = .ticking cycles snap ∧
      Scheduler.tick (snapshot env.graph snap) = .ok ds ∧ ds ≠ [] ∧
      env.graph.length + 1 < cycles + 1
  | _ => False

/-! ### Nodes that are no longer pending -/

/-- The nodes a tick has decided about. -/
def touched (g : WorkflowGraph Value) (rows : RunRows Value) : Nat :=
  g.nodeKeys.countP fun k => (rows.executions k).status ≠ .pending

section Touched

variable {g : WorkflowGraph Value} {rows rows' : RunRows Value} {key : NodeKey}
  {queue : List QueueOp} {t : RunTxn Value}

theorem touched_le : touched g rows ≤ g.length := by
  have hlength : g.nodeKeys.length = g.length := List.length_map ..
  rw [← hlength]
  exact List.countP_le_length

/-- No transaction leaves a node pending that was not. -/
theorem NodeMove.touched {x : NodeExecution Value} (h : NodeMove g rows key x)
    (hbefore : (rows.executions key).status ≠ .pending) : x.status ≠ .pending := by
  cases h with
  | same => exact hbefore
  | start now hpending hsatisfied => simp [NodeExecution.started]
  | recover now hrunning hsatisfied => simp [NodeExecution.started]
  | prune now hpending hdead => simp [NodeExecution.skipped]
  | settle now result hrunning => cases result <;> simp [settledExecution]
  | resume now hwaiting => simp

theorem RunOk.touched_mono (h : RunOk g rows) (he : Effect g rows t rows' queue) :
    touched g rows ≤ touched g rows' := by
  refine List.countP_mono_left fun k hk hbefore => ?_
  exact decide_eq_true ((h.move he hk).touched (of_decide_eq_true hbefore))

/-- A node found running has been decided about. -/
theorem touched_pos (hk : key ∈ g.nodeKeys) (h : (rows.executions key).status ≠ .pending) :
    0 < touched g rows :=
  List.countP_pos_iff.mpr ⟨key, hk, decide_eq_true h⟩

/-- A tick that starts or prunes a pending node pays for itself. -/
theorem RunOk.touched_lt (h : RunOk g rows) (he : Effect g rows (.tick now) rows' queue)
    (hk : key ∈ g.nodeKeys) (hpending : (rows.executions key).status = .pending)
    (hdecided : key ∈ readyKeys (snapshot g rows) ∨ key ∈ prunableKeys (snapshot g rows)) :
    touched g rows < touched g rows' := by
  have hmoved : (rows'.executions key).status ≠ .pending := by
    rw [he.tick_executions]
    rcases hdecided with hready | hprunable
    · rw [ticked_ready now hready]
      simp [NodeExecution.started]
    · rw [ticked_prunable now hprunable]
      simp [NodeExecution.skipped]
  refine Digraph.countP_lt (fun k hk hbefore => ?_) hk (by simp [hpending]) (decide_eq_true hmoved)
  exact decide_eq_true ((h.move he hk).touched (of_decide_eq_true hbefore))

/-- What runs after a tick was started by it. -/
theorem RunOk.running_after (h : RunOk g rows) (he : Effect g rows (.tick now) rows' queue)
    (hk : key ∈ g.nodeKeys) (hrunning : (rows'.executions key).status = .running) :
    key ∈ readyKeys (snapshot g rows) := by
  rw [he.tick_executions] at hrunning
  rcases h.ticked_cases now hk with
    ⟨hst, hsatisfied, -⟩ | ⟨hst, hsatisfied, -⟩ | ⟨-, -, hrow⟩ | ⟨hst, -, -, hrow⟩
  · exact mem_ready.mpr ⟨hk, Or.inl hst, hsatisfied⟩
  · exact mem_ready.mpr ⟨hk, Or.inr hst, hsatisfied⟩
  · rw [hrow] at hrunning
    simp [NodeExecution.skipped] at hrunning
  · rw [hrow] at hrunning
    exact absurd hrunning hst

/-- **After a tick that only moves the run there is nothing left to decide.** -/
theorem RunOk.decided_once (h : RunOk g rows) (he : Effect g rows (.tick now) rows' queue)
    (hready : readyKeys (snapshot g rows) = []) (hprunable : prunableKeys (snapshot g rows) = []) :
    decisions (snapshot g rows') = [] := by
  have hstranded : strandedKeys (snapshot g rows) = [] := by
    rw [List.eq_nil_iff_forall_not_mem]
    intro k hk
    have hmem := h.stranded_ready hk
    simp [hready] at hmem
  have hsame : rows'.executions = rows.executions := by
    rw [he.tick_executions]
    funext k
    exact ticked_other (by simp [hready]) (by simp [hprunable]) (by simp [hstranded])
  have hkeys : strandedKeys (snapshot g rows') = [] ∧ prunableKeys (snapshot g rows') = [] ∧
      readyKeys (snapshot g rows') = [] := by
    have hsnap : snapshot g rows' =
        { snapshot g rows with
          status := rows'.run.status
          triggerPayload := rows'.run.triggerPayload } := by
      rw [snapshot, snapshot, hsame]
    rw [hsnap]
    exact ⟨hstranded, hprunable, hready⟩
  refine decisions_eq_nil_iff.mpr ⟨hkeys.1, hkeys.2.1, hkeys.2.2, ?_⟩
  rw [conclusion_congr hsame, snapshot_status]
  cases he with
  | tick now hfan hstatus =>
      rw [ticked_run]
      exact hstatus
  | conclude now target hfan hstatus hne hlegal =>
      rw [concluded_status]
      exact Or.inr hstatus
  | settle t now key result rejected ht hkey hrunning hstorable =>
      rcases ht with ht | ⟨ht, -⟩ <;> simp at ht

end Touched

/-! ### What has been paid for -/

/-- The cycles so far are paid for by nodes, up to one that left nothing to decide. -/
def Paid (g : WorkflowGraph Value) (rows : RunRows Value) (cycles : Nat) : Prop :=
  cycles ≤ touched g rows ∨ cycles ≤ touched g rows + 1 ∧ decisions (snapshot g rows) = []

/-- The nodes that run are among these. -/
def RunsOnly (g : WorkflowGraph Value) (rows : RunRows Value) (keys : List NodeKey) : Prop :=
  ∀ k ∈ g.nodeKeys, (rows.executions k).status = .running → k ∈ keys

/-- Between the cycles nothing runs, after the first. -/
def Between (g : WorkflowGraph Value) (rows : RunRows Value) (cycles : Nat) : Prop :=
  cycles = 0 ∨ RunsOnly g rows [] ∧ Paid g rows cycles

/-- Where an advance stands in its budget. -/
def Phase.Within (env : Env Value) (rows : RunRows Value) : Phase Value → Prop
  | .advancing cycles => Between env.graph rows cycles
  | .ticking cycles snap => snap = rows ∧ Between env.graph rows cycles
  | .invoking cycles _ batch =>
      batch.length ≤ env.graph.length ∧ Paid env.graph rows cycles ∧
        RunsOnly env.graph rows (batch.map fun e => e.1.key)
  | .settling cycles todo failed =>
      Paid env.graph rows cycles ∧
        (failed = false → RunsOnly env.graph rows (todo.map fun e => e.1.key))
  | .recording cycles snap l _ todo failed =>
      snap = rows ∧ Paid env.graph rows cycles ∧
        (failed = false → RunsOnly env.graph rows (l.key :: todo.map fun e => e.1.key))
  | .resuming _ _ => False
  | _ => True

/-- The cycles a phase counts. -/
def Phase.cycles : Phase Value → Option Nat
  | .advancing cycles | .ticking cycles _ | .invoking cycles _ _ | .settling cycles _ _
  | .recording cycles _ _ _ _ _ => some cycles
  | _ => none

/-- How many steps a cycle takes at most, in a graph with `n` nodes. -/
def cycleSteps (n : Nat) : Nat := 3 * n + 4

/-- What is left to do, counted in steps of the advance. -/
def Phase.remaining (n : Nat) : Phase Value → Nat
  | .advancing cycles => (n + 1 - cycles) * cycleSteps n + 2
  | .ticking cycles _ => (n + 1 - cycles) * cycleSteps n + 1
  | .invoking cycles _ batch =>
      (n + 1 - cycles) * cycleSteps n + 4 + 2 * batch.length + batch.countP fun e => e.2.isNone
  | .settling cycles todo _ => (n + 1 - cycles) * cycleSteps n + 3 + 2 * todo.length
  | .recording cycles _ _ _ todo _ => (n + 1 - cycles) * cycleSteps n + 4 + 2 * todo.length
  | _ => 0

section Paid

variable {g : WorkflowGraph Value} {rows rows' : RunRows Value} {cycles : Nat}
  {queue : List QueueOp}

theorem Paid.le (h : Paid g rows cycles) : cycles ≤ g.length + 1 := by
  have hbound : touched g rows ≤ g.length := touched_le
  rcases h with hpaid | ⟨hpaid, -⟩ <;> omega

theorem Between.le (h : Between g rows cycles) : cycles ≤ g.length + 1 := by
  rcases h with rfl | ⟨-, hpaid⟩
  · omega
  · exact hpaid.le

/-- A cycle that has something to decide is within the limit. -/
theorem Between.lt (h : Between g rows cycles) (hsome : decisions (snapshot g rows) ≠ []) :
    cycles < g.length + 1 := by
  have hbound : touched g rows ≤ g.length := touched_le
  rcases h with rfl | ⟨-, hpaid | ⟨-, hnone⟩⟩
  · omega
  · omega
  · exact absurd hnone hsome

/-- **A cycle is paid for.** -/
theorem Between.tick (h : Between g rows cycles) (hok : RunOk g rows)
    (he : Effect g rows (.tick now) rows' queue) (hsome : decisions (snapshot g rows) ≠ []) :
    Paid g rows' (cycles + 1) := by
  have hmono : touched g rows ≤ touched g rows' := hok.touched_mono he
  by_cases hdecided : ∃ k ∈ g.nodeKeys, (rows.executions k).status = .pending ∧
      (k ∈ readyKeys (snapshot g rows) ∨ k ∈ prunableKeys (snapshot g rows))
  · obtain ⟨k, hk, hpending, hkeys⟩ := hdecided
    have hlt : touched g rows < touched g rows' := hok.touched_lt he hk hpending hkeys
    refine Or.inl ?_
    rcases h with rfl | ⟨-, hpaid | ⟨-, hnone⟩⟩
    · omega
    · omega
    · exact absurd hnone hsome
  · -- No pending node is started or pruned: what is started was running.
    have hprunable : prunableKeys (snapshot g rows) = [] := by
      rw [List.eq_nil_iff_forall_not_mem]
      intro k hk
      exact hdecided ⟨k, (mem_prunable.mp hk).1, (mem_prunable.mp hk).2.1, Or.inr hk⟩
    by_cases hready : readyKeys (snapshot g rows) = []
    · refine Or.inr ⟨?_, hok.decided_once he hready hprunable⟩
      rcases h with rfl | ⟨-, hpaid | ⟨-, hnone⟩⟩
      · omega
      · omega
      · exact absurd hnone hsome
    · obtain ⟨k, hkready⟩ := List.exists_mem_of_ne_nil _ hready
      obtain ⟨hk, hst, -⟩ := mem_ready.mp hkready
      rcases hst with hrunning | hpending
      · rcases h with rfl | ⟨hnone, -⟩
        · have hpos : 0 < touched g rows := touched_pos hk (by simp [hrunning])
          exact Or.inl (by omega)
        · have hmem := hnone k hk hrunning
          simp at hmem
      · exact absurd ⟨k, hk, hpending, Or.inl hkready⟩ hdecided

/-- An outcome is recorded in a cycle that had something to decide. -/
theorem Paid.settle (h : Paid g rows cycles) (hok : RunOk g rows) {key : NodeKey}
    {result : NodeResult Value} {rejected : Bool}
    (he : Effect g rows (.settle now key result rejected) rows' queue) (hkey : key ∈ g.nodeKeys)
    (hrunning : (rows.executions key).status = .running) : Paid g rows' cycles := by
  rcases h with hpaid | ⟨-, hnone⟩
  · exact Or.inl (hpaid.trans (hok.touched_mono he))
  · -- A running node is something to decide about.
    have hstranded := mem_stranded.mpr ⟨hkey, hrunning⟩
    simp [(decisions_eq_nil_iff.mp hnone).1] at hstranded

/-- A node whose outcome is recorded runs no more. -/
theorem RunsOnly.settle {key : NodeKey} {keys : List NodeKey} (h : RunsOnly g rows (key :: keys))
    (now : Time) (result : NodeResult Value) : RunsOnly g
      ((rows.write key (settledExecution now (rows.executions key) result)).append
        (settledBody key result).1 (settledBody key result).2) keys := by
  intro k hk hrunning
  rw [RunRows.append_executions] at hrunning
  by_cases hkey : k = key
  · subst hkey
    rw [RunRows.write_self] at hrunning
    cases result <;> simp [settledExecution] at hrunning
  · rw [RunRows.write_ne _ _ hkey] at hrunning
    exact (List.mem_cons.mp (h k hk hrunning)).resolve_left hkey

end Paid

/-! ### Steps -/

section Steps

variable [DecidableEq P] [DecidableEq Value]

set_option linter.unusedSectionVars false

/-- An advance that can go on is not over. -/
theorem remaining_pos (ha : a.advances = true) (hstep : s.step env (p, a) = some s') (n : Nat) :
    0 < (s.procs p).phase.remaining n := by
  cases hphase : (s.procs p).phase with
  | idle => cases a <;> simp [Action.advances, Sys.step, hphase] at ha hstep
  | resuming token snap => cases a <;> simp [Action.advances, Sys.step, hphase] at ha hstep
  | returned status => cases a <;> simp [Action.advances, Sys.step, hphase] at ha hstep
  | _ =>
      simp only [Phase.remaining]
      omega

/-- Every launch that has no outcome is one fewer after it has been invoked. -/
theorem invokeIn_open {snap : RunRows Value} {key : NodeKey} {outcome : RunnerOutcome Value}
    {batch : List (Launch × Option (Outcome Value))} (h : ∃ l, (l, none) ∈ batch ∧ l.key = key) :
    (invokeIn env snap key outcome batch).countP (fun e => e.2.isNone) <
      batch.countP fun e => e.2.isNone := by
  have hentry : ∀ e : Launch × Option (Outcome Value),
      (invokeEntry env snap key outcome e).2.isNone = true → e.2.isNone = true := by
    intro e
    obtain ⟨l, _ | known⟩ := e
    · simp
    · simp [invokeEntry]
  obtain ⟨l, hl, hkey⟩ := h
  unfold invokeIn
  rw [List.countP_map]
  refine Digraph.countP_lt (fun e _ => hentry e) hl ?_ rfl
  simp [invokeEntry, hkey]

/-- The batch of a tick is within the limit, and what it takes is less than a cycle. -/
theorem Between.starts {rows rows' : RunRows Value} {cycles : Nat} {ops : List QueueOp} {now : Time}
    (h : Between env.graph rows cycles) (hok : RunOk env.graph rows)
    (heffect : Effect env.graph rows (.tick now) rows' ops)
    (hsome : decisions (snapshot env.graph rows) ≠ []) :
    let batch : List (Launch × Option (Outcome Value)) := (readyKeys (snapshot env.graph rows)).map
      fun k => (⟨k, (rows'.executions k).attempt, none⟩, none)
    (Phase.invoking (cycles + 1) rows batch).Within env rows' ∧
      (Phase.invoking (cycles + 1) rows batch).remaining env.graph.length <
        (Phase.ticking cycles rows).remaining env.graph.length := by
  intro batch
  have hlength : batch.length ≤ env.graph.length := by
    have hkeys : env.graph.nodeKeys.length = env.graph.length := List.length_map ..
    rw [← hkeys, List.length_map]
    exact List.length_filter_le ..
  refine ⟨⟨hlength, h.tick hok heffect hsome, fun k hk hrunning => ?_⟩, ?_⟩
  · have hready := hok.running_after heffect hk hrunning
    simpa [batch] using hready
  · have hopen : batch.countP (fun e => e.2.isNone) ≤ batch.length := List.countP_le_length
    have hlt := h.lt hsome
    obtain ⟨left, hleft⟩ : ∃ left, env.graph.length + 1 - cycles = left + 1 :=
      ⟨env.graph.length - cycles, by omega⟩
    have hleft' : env.graph.length + 1 - (cycles + 1) = left := by omega
    simp only [Phase.remaining, hleft, hleft', Nat.succ_mul]
    unfold cycleSteps
    omega

/-- **A step of the advance keeps it within its budget and lowers what remains.** -/
theorem Phase.Within.step (h : (s.procs p).phase.Within env s.rows) (hok : SysOk env s)
    (ha : a.advances = true) (hstep : s.step env (p, a) = some s') :
    (s'.procs p).phase.Within env s'.rows ∧
      (s'.procs p).phase.remaining env.graph.length <
        (s.procs p).phase.remaining env.graph.length := by
  have hpos := remaining_pos ha hstep env.graph.length
  have hmove := hok.step_move hstep
  cases hmove with
  | beginTick cycles hphase =>
      rw [hphase] at h ⊢
      rw [Sys.moved_self]
      exact ⟨⟨rfl, h⟩, by simp [Phase.remaining]⟩
  | quietTick now cycles snap hphase hfan hnone =>
      rw [Sys.moved_self]
      exact ⟨trivial, hpos⟩
  | tick now cycles rows ops hphase hlimit hsome heffect =>
      rw [hphase] at h ⊢
      rw [Sys.moved_self, launches_decisions]
      exact h.2.starts hok.rows heffect hsome
  | invoke key outcome cycles snap batch hphase hopen =>
      rw [hphase] at h ⊢
      rw [Sys.moved_self]
      have hlength : (invokeIn env snap key outcome batch).length = batch.length :=
        List.length_map ..
      refine ⟨⟨hlength ▸ h.1, h.2.1, ?_⟩, ?_⟩
      · rw [invokeIn_keys]
        exact h.2.2
      · have hlt : (invokeIn env snap key outcome batch).countP (fun e => e.2.isNone) <
            batch.countP fun e => e.2.isNone := invokeIn_open hopen
        simp only [Phase.remaining, hlength]
        omega
  | gather cycles snap batch todo hphase hall =>
      rw [hphase] at h ⊢
      rw [Sys.moved_self]
      have hlaunched := gathered_launched hall
      have hkeys : todo.map (fun e => e.1.key) = batch.map fun e => e.1.key := by
        rw [← hlaunched, List.map_map]
        rfl
      have hlength : todo.length = batch.length := by
        rw [← hlaunched, List.length_map]
      refine ⟨⟨h.2.1, fun _ => hkeys ▸ h.2.2⟩, ?_⟩
      simp only [Phase.remaining, hlength]
      omega
  | nextCycle cycles hphase =>
      rw [hphase] at h ⊢
      rw [Sys.moved_self]
      exact ⟨Or.inr ⟨h.2 rfl, h.1⟩, by simp [Phase.remaining]⟩
  | skipEscaped cycles l error rest failed hphase =>
      rw [hphase] at h ⊢
      rw [Sys.moved_self]
      exact ⟨⟨h.1, by simp⟩, by simp [Phase.remaining]⟩
  | beginSettle cycles l outcome rest failed hphase hrecorded =>
      rw [hphase] at h ⊢
      rw [Sys.moved_self]
      refine ⟨⟨rfl, h.1, h.2⟩, ?_⟩
      simp only [Phase.remaining, List.length_cons]
      omega
  | settle now rejected cycles l outcome result todo failed hphase hrecorded hkey hrunning
      hstorable =>
      rw [hphase] at h ⊢
      rw [Sys.moved_self]
      obtain ⟨-, hpaid, hruns⟩ := h
      obtain ⟨rejected', hstorable⟩ := hstorable
      have heffect : Effect env.graph s.rows (.settle now l.key result rejected') _ [] :=
        .settle _ now l.key result rejected' (Or.inl rfl) hkey hrunning hstorable
      refine ⟨⟨hpaid.settle hok.rows heffect hkey hrunning, fun hfailed => ?_⟩,
        by simp [Phase.remaining]⟩
      exact (hruns hfailed).settle now result
  | raised a hnot =>
      rw [Sys.raised_self]
      exact ⟨trivial, hpos⟩
  | _ => simp [Action.advances] at ha

/-! ### The whole advance -/

/-- The ticks so far, and the steps that are left. -/
structure InBudget (env : Env Value) (p : P) (s₀ : Sys P Value) (tr : List (P × Action Value))
    (s : Sys P Value) : Prop where
  ok : SysOk env s
  within : (s.procs p).phase.Within env s.rows
  ticks : (Trace.collect (Sys.step env) (busyTicks env) s₀ tr).length ≤ env.graph.length + 1
  cycles : ∀ cycles, (s.procs p).phase.cycles = some cycles →
    (Trace.collect (Sys.step env) (busyTicks env) s₀ tr).length = cycles
  steps : tr.countP (fun a => a.2.advances) + (s.procs p).phase.remaining env.graph.length ≤
    (env.graph.length + 1) * cycleSteps env.graph.length + 2

/-- A tick has something to decide in a cycle that is within the limit. -/
theorem Phase.Within.busy (h : (s.procs p).phase.Within env s.rows) (ha : a.advances = true)
    (hbusy : busyTicks env s (p, a) s' ≠ []) :
    ∃ now cycles, a = .commitTick now ∧ (s.procs p).phase = .ticking cycles s.rows ∧
      cycles < env.graph.length + 1 ∧ (busyTicks env s (p, a) s').length = 1 := by
  cases a with
  | commitTick now =>
      cases hphase : (s.procs p).phase with
      | ticking cycles snap =>
          rw [hphase] at h
          obtain ⟨rfl, hbetween⟩ := h
          simp only [busyTicks, hphase] at hbusy ⊢
          cases htick : Scheduler.tick (snapshot env.graph s.rows) with
          | error e => simp [htick] at hbusy
          | ok ds =>
              obtain ⟨-, rfl⟩ := (tick_ok_iff snapshot_complete).mp htick
              cases hds : decisions (snapshot env.graph s.rows) with
              | nil => simp [htick, hds] at hbusy
              | cons d ds =>
                  exact ⟨now, cycles, rfl, rfl, hbetween.lt (by simp [hds]), by simp⟩
      | _ => simp [busyTicks, hphase] at hbusy
  | _ => simp [busyTicks] at hbusy

/-- Where no tick had something to decide the cycles are those there were. -/
theorem Move.cycles (h : Move env s p a s') (hquiet : busyTicks env s (p, a) s' = [])
    (ha : a.advances = true) {cycles : Nat} (hcycles : (s'.procs p).phase.cycles = some cycles) :
    (s.procs p).phase.cycles = some cycles := by
  cases h with
  | tick now cycles' rows ops hphase hlimit hsome heffect =>
      have hfan : env.graph.SingleFanIn := by
        cases heffect with
        | tick now hfan hstatus => exact hfan
        | conclude now target hfan hstatus hne hlegal => exact hfan
        | settle t now key result rejected ht hkey hrunning hstorable =>
            rcases ht with ht | ⟨ht, -⟩ <;> simp at ht
      obtain ⟨d, ds, hds⟩ := List.exists_cons_of_ne_nil hsome
      have htick := tick_ok (s := snapshot env.graph s.rows) snapshot_complete hfan
      simp [busyTicks, hphase, htick, hds] at hquiet
  | beginTick cycles' hphase | nextCycle cycles' hphase =>
      rw [Sys.moved_self] at hcycles
      rw [hphase]
      exact hcycles
  | invoke key outcome cycles' snap batch hphase hopen =>
      rw [Sys.moved_self] at hcycles
      rw [hphase]
      exact hcycles
  | gather cycles' snap batch todo hphase hall =>
      rw [Sys.moved_self] at hcycles
      rw [hphase]
      exact hcycles
  | skipEscaped cycles' l error rest failed hphase =>
      rw [Sys.moved_self] at hcycles
      rw [hphase]
      exact hcycles
  | beginSettle cycles' l outcome rest failed hphase hrecorded =>
      rw [Sys.moved_self] at hcycles
      rw [hphase]
      exact hcycles
  | settle now rejected cycles' l outcome result todo failed hphase hrecorded hkey hrunning
      hstorable =>
      rw [Sys.moved_self] at hcycles
      rw [hphase]
      exact hcycles
  | quietTick now cycles' snap hphase hfan hnone =>
      rw [Sys.moved_self] at hcycles
      simp [Phase.cycles] at hcycles
  | raised a hnot =>
      rw [Sys.raised_self] at hcycles
      simp [Process.idle, Phase.cycles] at hcycles
  | _ => simp [Action.advances] at ha

/-- The tick that is applied is one more. -/
theorem Move.tick_cycles (h : Move env s p (.commitTick now) s') {cycles cycles' : Nat}
    {snap : RunRows Value} (hphase : (s.procs p).phase = .ticking cycles snap)
    (hcycles : (s'.procs p).phase.cycles = some cycles') : cycles' = cycles + 1 := by
  cases h with
  | quietTick now cycles snap hphase' hfan hnone =>
      rw [Sys.moved_self] at hcycles
      simp [Phase.cycles] at hcycles
  | tick now counted rows ops hphase' hlimit hsome heffect =>
      rw [hphase, Phase.ticking.injEq] at hphase'
      rw [Sys.moved_self] at hcycles
      rw [hphase'.1]
      exact (Option.some.inj hcycles).symm
  | raised a hnot =>
      rw [Sys.raised_self] at hcycles
      simp [Process.idle, Phase.cycles] at hcycles

/-- A heartbeat takes no advance anywhere. -/
theorem extend_phase {expiresAt : Nat} (hstep : s.step env (q, .extend expiresAt) = some s') :
    s'.rows = s.rows ∧ (s'.procs p).phase = (s.procs p).phase := by
  obtain ⟨id, htask, rfl⟩ := Option.map_eq_some_iff.mp hstep
  refine ⟨rfl, ?_⟩
  by_cases hq : p = q
  · subst hq
    simp only [Function.update_self]
  · simp only [Function.update_of_ne hq]

/-- An advance that is not over can go on. -/
theorem Phase.Within.enabled (h : (s.procs p).phase.Within env s.rows) :
    (∃ status, (s.procs p).phase = .returned status) ∨ (s.procs p).phase = .idle ∨
      ∃ a : Action Value, a.advances = true ∧ (s.step env (p, a)).isSome = true := by
  cases hphase : (s.procs p).phase with
  | idle => exact Or.inr (Or.inl rfl)
  | returned status => exact Or.inl ⟨status, rfl⟩
  | advancing cycles => exact Or.inr (Or.inr ⟨.beginTick, rfl, by simp [Sys.step, hphase]⟩)
  | ticking cycles snap => exact Or.inr (Or.inr ⟨.commitTick 0, rfl, by simp [Sys.step, hphase]⟩)
  | settling cycles todo failed =>
      refine Or.inr (Or.inr ⟨.beginSettle, rfl, ?_⟩)
      rcases todo with _ | ⟨⟨l, outcome⟩, rest⟩
      · simp [Sys.step, hphase]
      · cases outcome <;> simp [Sys.step, hphase]
  | recording cycles snap l outcome todo failed =>
      exact Or.inr (Or.inr ⟨.commitSettle 0 false, rfl, by simp [Sys.step, hphase]⟩)
  | resuming token snap =>
      rw [hphase] at h
      exact h.elim
  | invoking cycles snap batch =>
      by_cases hopen : ∃ l, (l, none) ∈ batch
      · obtain ⟨l, hl⟩ := hopen
        refine Or.inr (Or.inr ⟨.invoke l.key (.raised "" ""), rfl, ?_⟩)
        have hany : (batch.any fun entry => entry.1.key = l.key && entry.2.isNone) = true :=
          List.any_eq_true.mpr ⟨(l, none), hl, by simp⟩
        simp only [Sys.step, hphase, hany, if_true, Option.isSome_some]
      · refine Or.inr (Or.inr ⟨.gather, rfl, ?_⟩)
        obtain ⟨todo, htodo⟩ := gathered_of_closed fun l hl => hopen ⟨l, hl⟩
        simp [Sys.step, hphase, htodo]

theorem InBudget.step {s₀ : Sys P Value} {tr : List (P × Action Value)} {act : P × Action Value}
    (h : InBudget env p s₀ tr s) (hrun : Trace.run (Sys.step env) s₀ tr = some s)
    (halone : Alone p act) (hstep : s.step env act = some s') :
    InBudget env p s₀ (tr ++ [act]) s' := by
  have hcollect : Trace.collect (Sys.step env) (busyTicks env) s₀ (tr ++ [act]) =
      Trace.collect (Sys.step env) (busyTicks env) s₀ tr ++ busyTicks env s act s' :=
    Trace.collect_snoc hrun hstep
  obtain ⟨q, a⟩ := act
  have hok : SysOk env s' := h.ok.step hstep
  rcases halone with ⟨rfl, ha⟩ | ⟨expiresAt, rfl⟩
  · obtain ⟨hwithin, hlower⟩ := h.within.step h.ok ha hstep
    have hsteps : (tr ++ [(q, a)]).countP (fun a => a.2.advances)
        = tr.countP (fun a => a.2.advances) + 1 := by
      rw [List.countP_append, List.countP_singleton, if_pos ha]
    have hleft := h.steps
    by_cases hbusy : busyTicks env s (q, a) s' = []
    · rw [hbusy, List.append_nil] at hcollect
      refine ⟨hok, hwithin, hcollect ▸ h.ticks, fun cycles hcycles => ?_, by omega⟩
      rw [hcollect]
      exact h.cycles cycles ((h.ok.step_move hstep).cycles hbusy ha hcycles)
    · obtain ⟨now, cycles, rfl, hphase, hlt, hone⟩ := h.within.busy ha hbusy
      have hcount : (Trace.collect (Sys.step env) (busyTicks env) s₀ tr).length = cycles :=
        h.cycles cycles (by rw [hphase]; rfl)
      have hnext : (Trace.collect (Sys.step env) (busyTicks env) s₀
          (tr ++ [(q, .commitTick now)])).length = cycles + 1 := by
        rw [hcollect, List.length_append, hone, hcount]
      refine ⟨hok, hwithin, by omega, fun cycles' hcycles => ?_, by omega⟩
      rw [hnext, (h.ok.step_move hstep).tick_cycles hphase hcycles]
  · obtain ⟨hrows, hphase⟩ := extend_phase (p := p) hstep
    have hquiet : busyTicks env s (q, .extend expiresAt) s' = [] := rfl
    rw [hquiet, List.append_nil] at hcollect
    have hsteps : (tr ++ [(q, (.extend expiresAt : Action Value))]).countP (fun a => a.2.advances)
        = tr.countP fun a => a.2.advances := by
      rw [List.countP_append, List.countP_singleton]
      rfl
    refine ⟨hok, ?_, hcollect ▸ h.ticks, fun cycles hcycles => ?_, ?_⟩
    · rw [hphase, hrows]
      exact h.within
    · rw [hcollect]
      exact h.cycles cycles (hphase ▸ hcycles)
    · rw [hsteps, hphase]
      exact h.steps

/-- A tick with something to decide does not overrun. -/
theorem InBudget.not_overruns {s₀ : Sys P Value} {tr : List (P × Action Value)}
    {act : P × Action Value} (h : InBudget env p s₀ tr s) (halone : Alone p act) :
    ¬ Overruns env s act := by
  obtain ⟨q, a⟩ := act
  rcases halone with ⟨rfl, ha⟩ | ⟨expiresAt, rfl⟩
  · cases a with
    | commitTick now =>
        intro hc
        obtain ⟨cycles, snap, ds, hphase, htick, hne, hover⟩ := hc
        have hwithin := h.within
        rw [hphase] at hwithin
        obtain ⟨rfl, hbetween⟩ := hwithin
        obtain ⟨-, rfl⟩ := (tick_ok_iff snapshot_complete).mp htick
        have hlt := hbetween.lt hne
        omega
    | _ => exact id
  · exact id

/--
**An advance settles within its cycle limit.**  From any state a run can reach, whatever
is left `RUNNING` or `WAITING` in it and whatever comes of each invocation: a call that
begins to advance, with nobody else driving the run, applies at most one tick per node
and one more that have something to decide; it never raises for having run out of
cycles; and it takes boundedly many steps, each of which it can take until it returns or
raises for another reason.
-/
theorem advance_settles {before after : List (P × Action Value)}
    (hreach : Trace.run (Sys.step env) (Sys.start P env now) before = some s)
    (hphase : (s.procs p).phase = .advancing 0)
    (hrun : Trace.run (Sys.step env) s after = some s') (halone : ∀ act ∈ after, Alone p act) :
    (Trace.collect (Sys.step env) (busyTicks env) s after).length ≤ env.graph.length + 1 ∧
      Trace.Along (Sys.step env) (fun s act => ¬ Overruns env s act) s after ∧
      after.countP (fun act : P × Action Value => act.2.advances) ≤
        (env.graph.length + 1) * cycleSteps env.graph.length + 2 ∧
      ((∃ status, (s'.procs p).phase = .returned status) ∨ (s'.procs p).phase = .idle ∨
        ∃ a : Action Value, a.advances = true ∧ (s'.step env (p, a)).isSome = true) := by
  have hinit : InBudget env p s [] s := by
    refine ⟨sys_ok hreach, ?_, Nat.zero_le _, ?_, ?_⟩
    · rw [hphase]
      exact Or.inl rfl
    · rw [hphase]
      exact fun cycles hcycles => Option.some.inj hcycles
    · simp [hphase, Phase.remaining]
  have hboth : InBudget env p s after s' ∧
      Trace.Along (Sys.step env) (fun s act => ¬ Overruns env s act) s after := by
    refine Trace.run_induction_along (P := fun tr t => InBudget env p s tr t ∧
        Trace.Along (Sys.step env) (fun s act => ¬ Overruns env s act) s tr)
      (C := fun _ act => Alone p act) ⟨hinit, Trace.along_nil⟩ ?_ hrun ?_
    · intro tr t act t' hrun hbefore halone hstep
      obtain ⟨hbudget, halong⟩ := hbefore
      exact ⟨hbudget.step hrun halone hstep,
        (Trace.along_snoc hrun).mpr ⟨halong, hbudget.not_overruns halone⟩⟩
    · intro tr act rest hsplit t ht
      exact halone act (by simp [hsplit])
  obtain ⟨hbudget, halong⟩ := hboth
  have hsteps := hbudget.steps
  exact ⟨hbudget.ticks, halong, by omega, hbudget.within.enabled⟩

end Steps

/-! ### The rejoining branch -/

/-- What the worker does once it has claimed the run. -/
def rejoinAdvance : List (Bool × Action Unit) :=
  ((rejoinDrive (.completed [])).drop 1 ++ [Action.beginTick, .commitTick 0]).map (true, ·)

/-- The advance of the running example, up to the tick that starts `merge`. -/
theorem rejoin_settles : ∃ s s',
    Trace.run (Sys.step rejoinEnv) (Sys.start Bool rejoinEnv 0) [(true, .claim 0 10 [])] = some s ∧
      Trace.run (Sys.step rejoinEnv) s rejoinAdvance = some s' ∧
      (Trace.collect (Sys.step rejoinEnv) (busyTicks rejoinEnv) s rejoinAdvance).length ≤ 6 := by
  have hall : ∀ act ∈ rejoinAdvance, act.1 = true ∧ act.2.advances = true := by decide
  have hsome : (Trace.run (Sys.step rejoinEnv) (Sys.start Bool rejoinEnv 0)
      ([(true, .claim 0 10 [])] ++ rejoinAdvance)).isSome = true := by
    decide +kernel
  obtain ⟨s', hrun⟩ := Option.isSome_iff_exists.mp hsome
  rw [Trace.run_append] at hrun
  obtain ⟨s, hreach, hrest⟩ := Option.bind_eq_some_iff.mp hrun
  have hphase : (s.procs true).phase = .advancing 0 := by
    rw [Trace.run_singleton] at hreach
    obtain rfl := Option.some.inj hreach
    rfl
  exact ⟨s, s', hreach, hrest,
    (advance_settles hreach hphase hrest fun act hact => Or.inl (hall act hact)).1⟩

end Orqent
