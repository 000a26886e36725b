/-
The nodes a process has in hand.

A launch is in its process's hands from the commit that marked the node `RUNNING`
until the process has recorded its outcome, through the phases in which it is
invoked, gathered with its batch and settled in turn.  `Phase.launched` is that
list; this module says what each action does to it, and what a tick that is applied
decided.
-/
import Orqent.Runtime.Steps

namespace Orqent

open Scheduler

variable {P Value : Type} {env : Env Value} {s s' : Sys P Value} {p q : P} {a : Action Value}
  {now : Time} {key : NodeKey}

/-! ### In hand -/

/-- The launches of a process it has yet to record, with the outcomes known so far. -/
def Phase.launched : Phase Value → List (Launch × Option (Outcome Value))
  | .invoking _ _ batch => batch
  | .settling _ todo _ => todo.map fun e => (e.1, some e.2)
  | .recording _ _ l outcome todo _ => (l, some outcome) :: todo.map fun e => (e.1, some e.2)
  | _ => []

/-- Nothing will be recorded for this launch. -/
def isEscaped : Launch × Option (Outcome Value) → Bool
  | (_, some (.escaped _)) => true
  | _ => false

/-- The nodes a process has been handed and will settle. -/
def Phase.held (phase : Phase Value) : List NodeKey :=
  (phase.launched.filter fun e => !isEscaped e).map fun e => e.1.key

/-- The decisions a step applies: those of the tick whose process goes on to invoke. -/
def applied (env : Env Value) (s s' : Sys P Value) : P × Action Value → List SchedulerDecision
  | (p, .commitTick _) =>
      match (s.procs p).phase, (s'.procs p).phase with
      | .ticking _ snap, .invoking _ _ _ => decisions (snapshot env.graph snap)
      | _, _ => []
  | _ => []

/-- Whether the runner of this launch is called. -/
def runs (env : Env Value) (snap : RunRows Value) (l : Launch) : Bool :=
  match invocation env snap l with
  | .ok (some _) => true
  | _ => false

/-- What a run has to show for itself. -/
inductive Note
  | recovered (key : NodeKey)
  /-- A start or, with the token it consumed, a resume was committed. -/
  | launched (l : Launch)
  /-- The runner was called. -/
  | invoked (l : Launch)
deriving DecidableEq, Repr

/-- What a step has to show. -/
def noted (env : Env Value) (s : Sys P Value) (a : P × Action Value) (s' : Sys P Value) :
    List Note :=
  match a.2, (s.procs a.1).phase, (s'.procs a.1).phase with
  | .commitTick _, .ticking _ snap, .invoking _ _ batch =>
      (strandedKeys (snapshot env.graph snap)).map .recovered ++
        batch.map fun e => .launched e.1
  | .commitResume _, .resuming _ _, .invoking _ _ batch => batch.map fun e => .launched e.1
  | .invoke key _, .invoking _ snap batch, _ =>
      (batch.filter fun e => e.1.key = key && e.2.isNone && runs env snap e.1).map
        fun e => .invoked e.1
  | _, _, _ => []

theorem held_subset_of_sublist {phase phase' : Phase Value}
    (h : phase'.launched.Sublist phase.launched) : phase'.held.Sublist phase.held :=
  (h.filter _).map _

/-- The nodes of a batch that was just launched. -/
theorem held_of_started {cycles : Nat} {snap : RunRows Value} (keys : List NodeKey)
    (launch : NodeKey → Launch) (hkey : ∀ k, (launch k).key = k) :
    (Phase.invoking cycles snap (keys.map fun k => (launch k, none))).held = keys := by
  show ((List.map _ keys).filter _).map _ = keys
  induction keys with
  | nil => rfl
  | cons k rest ih =>
      rw [List.map_cons, List.filter_cons]
      show (launch k).key :: List.map _ _ = _
      rw [ih, hkey]

theorem held_of_recorded {phase phase' : Phase Value} {l : Launch} {outcome : Outcome Value}
    (h : phase.launched = (l, some outcome) :: phase'.launched)
    (hrecorded : outcome.recorded.isSome = true) : phase.held = l.key :: phase'.held := by
  unfold Phase.held
  rw [h, List.filter_cons]
  cases outcome with
  | refused => rfl
  | returned result => rfl
  | escaped error => exact nomatch hrecorded

/-! ### Invocations -/

/-- A runner is called only where the node may be invoked, with the context built for it. -/
theorem invocation_inv {snap : RunRows Value} {l : Launch} {context : NodeRunContext Value}
    (h : invocation env snap l = .ok (some context)) :
    repeatWouldBeUnsafe env l.key l.attempt = .ok false ∧
      buildContext (snapshot env.graph snap) env.registry l.key env.runId
        env.organizationPublicId (env.workflowNodeId l.key) l.attempt l.token = .ok context := by
  unfold invocation at h
  cases hguard : repeatWouldBeUnsafe env l.key l.attempt with
  | error e =>
      rw [hguard] at h
      cases h
  | ok refused =>
      rw [hguard] at h
      cases refused with
      | true => cases h
      | false =>
          refine ⟨rfl, ?_⟩
          cases hbuild : buildContext (snapshot env.graph snap) env.registry l.key env.runId
              env.organizationPublicId (env.workflowNodeId l.key) l.attempt l.token with
          | error e =>
              simp only [bind, Except.bind, hbuild] at h
              cases h
          | ok built =>
              simp only [bind, Except.bind, hbuild] at h
              rw [Option.some.inj (Except.ok.inj h)]

/-! ### Batches -/

/-- What a tick launches is what it found ready. -/
theorem launches_decisions (rows : RunRows Value) (s : RunSnapshot Value) :
    launches rows (decisions s) =
      (readyKeys s).map fun k => (⟨k, (rows.executions k).attempt, none⟩, none) := by
  have hstatus : launches rows (statusDecision s) = [] := by
    rcases statusDecision_cases s with hnil | ⟨status, hone⟩
    · rw [hnil]
      rfl
    · rw [hone]
      rfl
  unfold launches at hstatus
  rw [launches, decisions, List.filterMap_append, hstatus, List.append_nil, List.filterMap_append,
    List.filterMap_append, List.filterMap_map, List.filterMap_map, List.filterMap_map]
  have hnone : ∀ keys : List NodeKey, keys.filterMap
      (fun _ => (none : Option (Launch × Option (Outcome Value)))) = [] := by
    intro keys
    induction keys with
    | nil => rfl
    | cons k rest ih => exact ih
  have hsome : ∀ keys : List NodeKey, keys.filterMap
      (fun k => some ((⟨k, (rows.executions k).attempt, none⟩, none) :
        Launch × Option (Outcome Value)))
        = keys.map fun k => (⟨k, (rows.executions k).attempt, none⟩, none) := by
    intro keys
    rw [← List.filterMap_eq_map]
    rfl
  refine (congrArg₂ _ (congrArg₂ _ (hnone _) (hnone _)) (hsome _)).trans ?_
  rfl

theorem launches_keys (rows : RunRows Value) (s : RunSnapshot Value) :
    (launches rows (decisions s)).map (fun e => e.1.key) = readyKeys s := by
  rw [launches_decisions, List.map_map]
  exact List.map_id _

theorem invokeIn_keys (snap : RunRows Value) (key : NodeKey) (outcome : RunnerOutcome Value)
    (batch : List (Launch × Option (Outcome Value))) :
    (invokeIn env snap key outcome batch).map (fun e => e.1.key) = batch.map fun e => e.1.key := by
  unfold invokeIn
  rw [List.map_map]
  refine List.map_congr_left fun e _ => ?_
  obtain ⟨l, _ | known⟩ := e
  · simp only [Function.comp_apply, invokeEntry]
    split <;> rfl
  · rfl

/-- A batch that has all its outcomes can be gathered. -/
theorem gathered_of_closed {batch : List (Launch × Option (Outcome Value))}
    (h : ∀ l, (l, none) ∉ batch) : ∃ todo, gathered batch = some todo := by
  induction batch with
  | nil => exact ⟨[], rfl⟩
  | cons e rest ih =>
      obtain ⟨l, _ | outcome⟩ := e
      · exact absurd List.mem_cons_self (h l)
      · obtain ⟨todo, htodo⟩ := ih fun l' hl' => h l' (List.mem_cons_of_mem _ hl')
        exact ⟨(l, outcome) :: todo, by simp [gathered, htodo]⟩

theorem gathered_launched {batch : List (Launch × Option (Outcome Value))}
    {todo : List (Launch × Outcome Value)} (h : gathered batch = some todo) :
    todo.map (fun e => (e.1, some e.2)) = batch := by
  induction batch generalizing todo with
  | nil =>
      obtain rfl := Option.some.inj h
      rfl
  | cons e rest ih =>
      obtain ⟨l, _ | outcome⟩ := e
      · exact nomatch h
      · obtain ⟨others, hothers, rfl⟩ := Option.map_eq_some_iff.mp h
        rw [List.map_cons, ih hothers]

theorem invokeIn_held (snap : RunRows Value) (key : NodeKey) (outcome : RunnerOutcome Value)
    (cycles : Nat) (batch : List (Launch × Option (Outcome Value))) :
    (Phase.invoking cycles snap (invokeIn env snap key outcome batch)).held.Sublist
      (Phase.invoking cycles snap batch).held := by
  show (((invokeIn env snap key outcome batch).filter _).map _).Sublist _
  show List.Sublist _ ((batch.filter _).map _)
  induction batch with
  | nil => exact List.Sublist.refl _
  | cons e rest ih =>
      rcases e with ⟨l, _ | o⟩
      · -- Not invoked so far: it was held, and is unless what came of it escaped.
        have hheld : ((l, none) :: rest).filter (fun e => !isEscaped e)
            = (l, (none : Option (Outcome Value))) :: rest.filter (fun e => !isEscaped e) := rfl
        rw [hheld, List.map_cons, invokeIn, List.map_cons, invokeEntry]
        by_cases hl : l.key = key
        · rw [if_pos hl, List.filter_cons]
          split
          · exact ih.cons_cons _
          · exact ih.cons _
        · rw [if_neg hl, List.filter_cons]
          exact ih.cons_cons _
      · unfold invokeIn
        rw [List.map_cons, invokeEntry, List.filter_cons, List.filter_cons]
        split
        · exact ih.cons_cons _
        · exact ih

/-! ### Handing over -/

section Moves

variable [DecidableEq P] [DecidableEq Value]

set_option linter.unusedSectionVars false

/-- What an action does to the rows and to what its process has in hand. -/
inductive Handover (env : Env Value) (s : Sys P Value) (p : P) : Action Value → Sys P Value → Prop
  /-- No row changes, and nothing is taken in hand. -/
  | keep (a : Action Value) (s' : Sys P Value) (hrows : s'.rows = s.rows)
      (hquiet : noted env s (p, a) s' = [])
      (hlaunched : (s'.procs p).phase.launched.Sublist (s.procs p).phase.launched) :
      Handover env s p a s'
  | invoke (key : NodeKey) (outcome : RunnerOutcome Value) (s' : Sys P Value) (cycles : Nat)
      (snap : RunRows Value) (batch : List (Launch × Option (Outcome Value)))
      (hphase : (s.procs p).phase = .invoking cycles snap batch)
      (hopen : ∃ l, (l, none) ∈ batch ∧ l.key = key) (hrows : s'.rows = s.rows)
      (hphase' : (s'.procs p).phase = .invoking cycles snap (invokeIn env snap key outcome batch)) :
      Handover env s p (.invoke key outcome) s'
  /-- The outcome of the first launch is recorded. -/
  | settle (now : Time) (rejected : Bool) (s' : Sys P Value) (l : Launch)
      (outcome : Outcome Value) (result : NodeResult Value)
      (hlaunched : (s.procs p).phase.launched = (l, some outcome) :: (s'.procs p).phase.launched)
      (hrecorded : outcome.recorded = some result)
      (hrunning : (s.rows.executions l.key).status = .running)
      (hrows : s'.rows = (s.rows.write l.key
        (settledExecution now (s.rows.executions l.key) result)).append
          (settledBody l.key result).1 (settledBody l.key result).2) :
      Handover env s p (.commitSettle now rejected) s'
  /-- A tick is applied, and what it started is taken in hand. -/
  | tick (now : Time) (s' : Sys P Value) (cycles : Nat) (ops : List QueueOp)
      (hphase : (s.procs p).phase = .ticking cycles s.rows) (hlimit : cycles < env.graph.length + 1)
      (hphase' : (s'.procs p).phase = .invoking (cycles + 1) s.rows
        ((readyKeys (snapshot env.graph s.rows)).map fun k =>
          (⟨k, (s'.rows.executions k).attempt, none⟩, none)))
      (heffect : Effect env.graph s.rows (.tick now) s'.rows ops) :
      Handover env s p (.commitTick now) s'
  /-- A resume is accepted, and its node is taken in hand. -/
  | resumed (now : Time) (s' : Sys P Value) (token : String) (key : NodeKey)
      (hphase : (s.procs p).phase = .resuming token s.rows)
      (hphase' : (s'.procs p).phase = .invoking 0 s.rows
        [(⟨key, (s.rows.executions key).attempt, some token⟩, none)])
      (hfind : waitingNode env.graph s.rows token = some key)
      (hwaiting : (s.rows.executions key).status = .waiting)
      (hsuspended : s.rows.run.status = .suspended)
      (hrows : s'.rows = Orqent.resumed now key s.rows) :
      Handover env s p (.commitResume now) s'

theorem noted_raised (hnot : ∀ key outcome, a ≠ .invoke key outcome) :
    noted env s (p, a) (s.raised p) = [] := by
  unfold noted
  split
  · rename_i hphase
    exact nomatch hphase.symm.trans (congrArg Process.phase Sys.raised_self)
  · rename_i hphase
    exact nomatch hphase.symm.trans (congrArg Process.phase Sys.raised_self)
  · rename_i key outcome cycles snap batch ha hphase
    exact absurd ha (hnot key outcome)
  · rfl

/-- **What an action does to what its process has in hand.** -/
theorem Move.handover (h : Move env s p a s') : Handover env s p a s' := by
  cases h with
  | claim clock leaseSeconds locked task queue hphase hclaim =>
      refine .keep _ _ rfl rfl ?_
      simp only [Function.update_self]
      exact List.nil_sublist _
  | tick now cycles rows ops hphase hlimit hsome heffect =>
      refine .tick now _ cycles ops hphase hlimit ?_ heffect
      rw [Sys.moved_self, launches_decisions]
      rfl
  | resumed now token key hphase hfind hwaiting hsuspended =>
      refine .resumed now _ token key hphase ?_ hfind hwaiting hsuspended rfl
      rw [Sys.moved_self]
  | quietTick now cycles snap hphase hfan hnone =>
      refine .keep _ _ rfl ?_ ?_
      · simp only [noted, hphase, Sys.moved_self]
      · rw [Sys.moved_self]
        exact List.nil_sublist _
  | invoke key outcome cycles snap batch hphase hopen =>
      refine .invoke key outcome _ cycles snap batch hphase hopen rfl ?_
      rw [Sys.moved_self]
  | gather cycles snap batch todo hphase hall =>
      refine .keep _ _ rfl rfl ?_
      rw [Sys.moved_self, hphase]
      exact (gathered_launched hall) ▸ List.Sublist.refl _
  | skipEscaped cycles l error rest failed hphase =>
      refine .keep _ _ rfl rfl ?_
      rw [Sys.moved_self, hphase]
      exact (List.Sublist.refl _).cons _
  | beginSettle cycles l outcome rest failed hphase hrecorded =>
      refine .keep _ _ rfl rfl ?_
      rw [Sys.moved_self, hphase]
      exact List.Sublist.refl _
  | settle now rejected cycles l outcome result todo failed hphase hrecorded hkey hrunning
    hstorable =>
      refine .settle now rejected _ l outcome result ?_ hrecorded hrunning rfl
      rw [Sys.moved_self, hphase]
      rfl
  | extend expiresAt id htask =>
      refine .keep _ _ rfl rfl ?_
      simp only [Function.update_self]
      exact List.Sublist.refl _
  | requeue runAfter id htask =>
      refine .keep _ _ rfl rfl ?_
      rw [show (_ : Sys P Value).procs p = Process.idle from Sys.raised_self]
      exact List.nil_sublist _
  | release id status hphase htask =>
      refine .keep _ _ rfl rfl ?_
      rw [show (_ : Sys P Value).procs p = Process.idle from Sys.raised_self]
      exact List.nil_sublist _
  | raised a hnot =>
      refine .keep _ _ rfl (noted_raised hnot) ?_
      rw [Sys.raised_self]
      exact List.nil_sublist _
  | _ =>
      refine .keep _ _ rfl rfl ?_
      rw [Sys.moved_self]
      exact List.nil_sublist _

/-- A process records on rows it has just read, or is recording already. -/
theorem Move.recording (h : Move env s p a s') {cycles : Nat} {snap : RunRows Value} {l : Launch}
    {outcome : Outcome Value} {todo : List (Launch × Outcome Value)} {failed : Bool}
    (hphase : (s'.procs p).phase = .recording cycles snap l outcome todo failed) :
    s'.rows = s.rows ∧ ((s.procs p).phase = .recording cycles snap l outcome todo failed ∨
      outcome.recorded.isSome = true ∧ snap = s.rows) := by
  cases h with
  | beginSettle cycles' l' outcome' rest failed' hbefore hrecorded =>
      rw [Sys.moved_self, Phase.recording.injEq] at hphase
      obtain ⟨-, rfl, -, rfl, -, -⟩ := hphase
      exact ⟨rfl, Or.inr ⟨hrecorded, rfl⟩⟩
  | claim clock leaseSeconds locked task queue hbefore hclaim =>
      simp only [Function.update_self] at hphase
      exact nomatch hphase
  | extend expiresAt id htask =>
      simp only [Function.update_self] at hphase
      exact ⟨rfl, Or.inl hphase⟩
  | requeue runAfter id htask =>
      rw [show (_ : Sys P Value).procs p = Process.idle from Sys.raised_self] at hphase
      exact nomatch hphase
  | release id status hbefore htask =>
      rw [show (_ : Sys P Value).procs p = Process.idle from Sys.raised_self] at hphase
      exact nomatch hphase
  | raised a hnot =>
      rw [Sys.raised_self] at hphase
      exact nomatch hphase
  | _ =>
      rw [Sys.moved_self] at hphase
      exact nomatch hphase

end Moves

end Orqent
