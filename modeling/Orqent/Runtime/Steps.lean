/-
What one action of one process does.

`SysOk` is the invariant of the whole system: the committed rows are those of a
history, and every open transaction sees rows that were committed once.  With it the
argument of `Service/Isolation.lean` applies to each commit, so `step_move` can say
outright what an action did: it committed onto exactly the rows it had read, or it
changed no row.  `Move` lists the cases, one for each place a process can be in;
everything proved about runs of the system is a case analysis over it.
-/
import Orqent.Runtime.System

namespace Orqent

open Scheduler

variable {P Value : Type} {env : Env Value} {s s' : Sys P Value} {p q : P} {a : Action Value}
  {now : Time}

/-! ### Processes -/

namespace Sys

variable [DecidableEq P]

@[simp] theorem moved_rows (phase : Phase Value) : (s.moved p phase).rows = s.rows := rfl

@[simp] theorem moved_queue (phase : Phase Value) : (s.moved p phase).queue = s.queue := rfl

@[simp] theorem raised_rows : (s.raised p).rows = s.rows := rfl

@[simp] theorem moved_self (phase : Phase Value) :
    (s.moved p phase).procs p = { s.procs p with phase } :=
  Function.update_self ..

@[simp] theorem raised_self : (s.raised p).procs p = .idle :=
  Function.update_self ..

end Sys

/-- The rows an open transaction sees. -/
def Phase.openSnap : Phase Value → Option (RunRows Value)
  | .ticking _ snap => some snap
  | .resuming _ snap => some snap
  | .recording _ snap _ _ _ _ => some snap
  | _ => none

/-- What is recorded for an outcome. -/
def Outcome.recorded : Outcome Value → Option (NodeResult Value)
  | .refused => some (.failed repeatRefusedError false)
  | .returned result => some result
  | .escaped _ => none

section Commits

variable [DecidableEq Value]

/-- The invariant of the system. -/
structure SysOk (env : Env Value) (s : Sys P Value) : Prop where
  rows : RunOk env.graph s.rows
  snaps : ∀ p snap, (s.procs p).phase.openSnap = some snap →
    RunOk env.graph snap ∧ (runStore env.graph).Earlier snap s.rows

/-! ### Commits -/

/-- **A commit that changes anything is onto the rows it has read.** -/
theorem SysOk.commit_serial (h : SysOk env s) {snap : RunRows Value}
    (hopen : (s.procs p).phase.openSnap = some snap) {t : RunTxn Value}
    {work : RunRows Value × List QueueOp} (hexec : t.exec env.graph snap = .ok work)
    (hbusy : (∀ now, t ≠ .tick now) ∨ decisions (snapshot env.graph snap) ≠ [])
    (hcommit : s.commit env now snap work = some s') :
    snap = s.rows ∧
      s' = { s with
        rows := work.1
        queue := work.2.foldl (QueueOp.apply env.runId now) s.queue } := by
  obtain ⟨hok, hearlier⟩ := h.snaps p snap hopen
  obtain ⟨rows, hrows, rfl⟩ := Option.map_eq_some_iff.mp hcommit
  have hbody : (runStore env.graph).body t snap = some work.1 := by
    show serial env.graph snap t = _
    unfold serial
    rw [hexec]
  have hgrows : snap.events.length < work.1.events.length := by
    rcases (exec_effect hexec).quiet_or_grows hok with ⟨⟨m, hm⟩, hnone, -⟩ | hgrows
    · rcases hbusy with hbusy | hbusy
      · exact absurd hm (hbusy m)
      · exact absurd hnone hbusy
    · exact hgrows
  rcases LogStore.commit_serial hok h.rows hearlier hbody hrows with ⟨hsame, -⟩ | ⟨hsnap, hnew, -⟩
  · rw [hsame] at hgrows
    exact absurd hgrows (Nat.lt_irrefl _)
  · exact ⟨hsnap, by rw [hnew]⟩

/-- A commit onto the rows that were read goes through. -/
theorem commit_fresh (now : Time) (h : RunOk env.graph s.rows) {t : RunTxn Value}
    {work : RunRows Value × List QueueOp} (hexec : t.exec env.graph s.rows = .ok work) :
    s.commit env now s.rows work = some
      { s with
        rows := work.1
        queue := work.2.foldl (QueueOp.apply env.runId now) s.queue } := by
  have hbody : (runStore env.graph).body t s.rows = some work.1 := by
    show serial env.graph s.rows t = _
    unfold serial
    rw [hexec]
  rw [Sys.commit, show RunRows.commit s.rows work.1 s.rows = some work.1 from
    (runStore env.graph).commit_fresh h hbody]
  rfl

end Commits

/-! ### The cases of a step -/

section Cases

variable [DecidableEq P] [DecidableEq Value]

set_option linter.unusedSectionVars false

/-- Everything an action of the process `p` can do. -/
inductive Move (env : Env Value) (s : Sys P Value) (p : P) : Action Value → Sys P Value → Prop
  | advance (hphase : (s.procs p).phase = .idle) : Move env s p .advance (s.moved p (.advancing 0))
  | resume (token : String) (hphase : (s.procs p).phase = .idle) :
      Move env s p (.resume token) (s.moved p (.resuming token s.rows))
  | claim (clock leaseSeconds : Nat) (locked : List Nat) (task : QueueTask P) (queue : QueueTable P)
      (hphase : (s.procs p).phase = .idle)
      (hclaim : s.queue.claim p clock leaseSeconds locked = some (task, queue)) :
      Move env s p (.claim clock leaseSeconds locked)
        { s with queue, procs := Function.update s.procs p ⟨.advancing 0, some task.id, false⟩ }
  | beginTick (cycles : Nat) (hphase : (s.procs p).phase = .advancing cycles) :
      Move env s p .beginTick (s.moved p (.ticking cycles s.rows))
  /-- The tick had nothing to decide: the advance returns the status it read. -/
  | quietTick (now : Time) (cycles : Nat) (snap : RunRows Value)
      (hphase : (s.procs p).phase = .ticking cycles snap) (hfan : env.graph.SingleFanIn)
      (hnone : decisions (snapshot env.graph snap) = []) :
      Move env s p (.commitTick now) (s.moved p (.returned snap.run.status))
  /-- The tick is applied, to the rows it read, and what it started is launched. -/
  | tick (now : Time) (cycles : Nat) (rows : RunRows Value) (ops : List QueueOp)
      (hphase : (s.procs p).phase = .ticking cycles s.rows) (hlimit : cycles < env.graph.length + 1)
      (hsome : decisions (snapshot env.graph s.rows) ≠ [])
      (heffect : Effect env.graph s.rows (.tick now) rows ops) :
      Move env s p (.commitTick now)
        (Sys.moved
          { s with rows, queue := ops.foldl (QueueOp.apply env.runId now) s.queue } p
          (.invoking (cycles + 1) s.rows (launches rows (decisions (snapshot env.graph s.rows)))))
  /-- The resume is accepted, and its node is launched with the token. -/
  | resumed (now : Time) (token : String) (key : NodeKey)
      (hphase : (s.procs p).phase = .resuming token s.rows)
      (hfind : waitingNode env.graph s.rows token = some key)
      (hwaiting : (s.rows.executions key).status = .waiting)
      (hsuspended : s.rows.run.status = .suspended) :
      Move env s p (.commitResume now)
        (Sys.moved
          { s with
            rows := Orqent.resumed now key s.rows
            queue := s.queue.enqueue env.runId now } p
          (.invoking 0 s.rows [(⟨key, (s.rows.executions key).attempt, some token⟩, none)]))
  | invoke (key : NodeKey) (outcome : RunnerOutcome Value) (cycles : Nat) (snap : RunRows Value)
      (batch : List (Launch × Option (Outcome Value)))
      (hphase : (s.procs p).phase = .invoking cycles snap batch)
      (hopen : ∃ l, (l, none) ∈ batch ∧ l.key = key) :
      Move env s p (.invoke key outcome)
        (s.moved p (.invoking cycles snap (invokeIn env snap key outcome batch)))
  | gather (cycles : Nat) (snap : RunRows Value) (batch : List (Launch × Option (Outcome Value)))
      (todo : List (Launch × Outcome Value))
      (hphase : (s.procs p).phase = .invoking cycles snap batch)
      (hall : gathered batch = some todo) :
      Move env s p .gather (s.moved p (.settling cycles todo false))
  | nextCycle (cycles : Nat) (hphase : (s.procs p).phase = .settling cycles [] false) :
      Move env s p .beginSettle (s.moved p (.advancing cycles))
  | skipEscaped (cycles : Nat) (l : Launch) (error : EngineError)
      (rest : List (Launch × Outcome Value)) (failed : Bool)
      (hphase : (s.procs p).phase = .settling cycles ((l, .escaped error) :: rest) failed) :
      Move env s p .beginSettle (s.moved p (.settling cycles rest true))
  | beginSettle (cycles : Nat) (l : Launch) (outcome : Outcome Value)
      (rest : List (Launch × Outcome Value)) (failed : Bool)
      (hphase : (s.procs p).phase = .settling cycles ((l, outcome) :: rest) failed)
      (hrecorded : outcome.recorded.isSome = true) :
      Move env s p .beginSettle (s.moved p (.recording cycles s.rows l outcome rest failed))
  /-- An outcome is recorded, on the rows the transaction read. -/
  | settle (now : Time) (rejected : Bool) (cycles : Nat) (l : Launch) (outcome : Outcome Value)
      (result : NodeResult Value) (todo : List (Launch × Outcome Value)) (failed : Bool)
      (hphase : (s.procs p).phase = .recording cycles s.rows l outcome todo failed)
      (hrecorded : outcome.recorded = some result) (hkey : l.key ∈ env.graph.nodeKeys)
      (hrunning : (s.rows.executions l.key).status = .running)
      (hstorable : ∃ rejected, Storable env.graph s.rows l.key rejected result) :
      Move env s p (.commitSettle now rejected)
        (Sys.moved
          { s with
            rows := (s.rows.write l.key
              (settledExecution now (s.rows.executions l.key) result)).append
                (settledBody l.key result).1 (settledBody l.key result).2 } p
          (.settling cycles todo failed))
  | extend (expiresAt id : Nat) (htask : (s.procs p).task = some id) :
      Move env s p (.extend expiresAt)
        { s with
          queue := (s.queue.extend p id expiresAt).2
          procs := Function.update s.procs p
            { s.procs p with lost := (s.procs p).lost || !(s.queue.extend p id expiresAt).1 } }
  | requeue (runAfter id : Nat) (htask : (s.procs p).task = some id) :
      Move env s p (.requeue runAfter)
        { s.raised p with queue := (s.queue.requeue p id runAfter).2 }
  /-- The advance has returned, and the worker closes its task. -/
  | release (id : Nat) (status : RunStatus) (hphase : (s.procs p).phase = .returned status)
      (htask : (s.procs p).task = some id) :
      Move env s p .finish { s.raised p with queue := (s.queue.release p id).2 }
  /-- The call is over without having changed anything: it returned, raised, or crashed. -/
  | raised (a : Action Value) (hnot : ∀ key outcome, a ≠ .invoke key outcome) :
      Move env s p a (s.raised p)

/-- `commitTick`, case by case. -/
theorem SysOk.commitTick_move (h : SysOk env s) {cycles : Nat} {snap : RunRows Value}
    (hphase : (s.procs p).phase = .ticking cycles snap) :
    Move env s p (.commitTick now) (s.commitTick env p now cycles snap) := by
  unfold Sys.commitTick
  cases htick : tick (snapshot env.graph snap) with
  | error e => exact .raised _ nofun
  | ok ds =>
      obtain ⟨hfan, rfl⟩ := (tick_ok_iff snapshot_complete).mp htick
      cases hds : decisions (snapshot env.graph snap) with
      | nil => exact .quietTick now cycles snap hphase hfan hds
      | cons d ds =>
          show Move env s p _ (if _ then _ else _)
          split
          · exact .raised _ nofun
          · rename_i hlimit
            cases happly : applyDecisions now snap (d :: ds) with
            | error e => exact .raised _ nofun
            | ok work =>
                dsimp only
                cases hcommit : s.commit env now snap work with
                | none => exact .raised _ nofun
                | some s' =>
                    have hexec : RunTxn.exec env.graph (.tick now) snap = .ok work := by
                      show tickBody env.graph now snap = _
                      unfold tickBody
                      rw [htick]
                      show applyDecisions now snap (decisions (snapshot env.graph snap)) = _
                      rw [hds, happly]
                    have hbusy : decisions (snapshot env.graph snap) ≠ [] := by simp [hds]
                    have hopen : (s.procs p).phase.openSnap = some snap := by
                      rw [hphase]
                      rfl
                    obtain ⟨rfl, rfl⟩ := h.commit_serial hopen hexec (Or.inr hbusy) hcommit
                    rw [← hds]
                    exact .tick now cycles work.1 work.2 hphase (by omega) hbusy (exec_effect hexec)

/-- A tick on the committed rows that has something to do, and does not raise, is applied. -/
theorem commitTick_fresh (h : RunOk env.graph s.rows) {cycles : Nat} {rows : RunRows Value}
    {ops : List QueueOp} (hlimit : cycles < env.graph.length + 1)
    (hsome : decisions (snapshot env.graph s.rows) ≠ [])
    (hbody : tickBody env.graph now s.rows = .ok (rows, ops)) :
    s.commitTick env p now cycles s.rows =
      Sys.moved { s with rows, queue := ops.foldl (QueueOp.apply env.runId now) s.queue } p
        (.invoking (cycles + 1) s.rows
          (launches rows (decisions (snapshot env.graph s.rows)))) := by
  have htick : tick (snapshot env.graph s.rows) = .ok (decisions (snapshot env.graph s.rows)) :=
    tick_ok snapshot_complete (tickBody_cases hbody).1
  have hcommit := commit_fresh now h (t := .tick now) hbody
  unfold tickBody at hbody
  rw [htick] at hbody
  obtain ⟨d, ds, hds⟩ := List.exists_cons_of_ne_nil hsome
  unfold Sys.commitTick
  rw [htick]
  rw [hds] at hbody ⊢
  show (if _ then _ else _) = _
  rw [if_neg (by omega), show applyDecisions now s.rows (d :: ds) = .ok (rows, ops) from hbody]
  dsimp only
  rw [hcommit]

theorem SysOk.commitResume_move (h : SysOk env s) {token : String} {snap : RunRows Value}
    (hphase : (s.procs p).phase = .resuming token snap) :
    Move env s p (.commitResume now) (s.commitResume env p now token snap) := by
  unfold Sys.commitResume
  cases hfind : waitingNode env.graph snap token with
  | none => exact .raised _ nofun
  | some key =>
      cases hbody : resumeBody env.graph now token snap with
      | error e => exact .raised _ nofun
      | ok work =>
          dsimp only
          cases hcommit : s.commit env now snap work with
          | none => exact .raised _ nofun
          | some s' =>
              have hopen : (s.procs p).phase.openSnap = some snap := by
                rw [hphase]
                rfl
              have hexec : RunTxn.exec env.graph (.resume now token) snap = .ok work := hbody
              obtain ⟨rfl, rfl⟩ :=
                h.commit_serial hopen hexec (Or.inl fun _ hc => nomatch hc) hcommit
              obtain ⟨key', hfind', hwaiting, hsuspended, hrows, hops⟩ := resumeBody_iff.mp hbody
              obtain rfl : key = key' := by
                rw [hfind, Option.some.injEq] at hfind'
                exact hfind'
              have hattempt : (work.1.executions key).attempt =
                (s.rows.executions key).attempt := by
                rw [hrows, resumed_self]
              rw [hattempt, hrows, hops]
              exact .resumed now token key hphase hfind hwaiting hsuspended

/-- An outcome that is recorded at all is recorded as a result. -/
theorem txn_settles (env : Env Value) {outcome : Outcome Value} {key : NodeKey} {rejected : Bool}
    {t : RunTxn Value} (rows : RunRows Value) (h : outcome.txn now key rejected = some t) :
    ∃ result rejected', outcome.recorded = some result ∧ (∀ now, t ≠ .tick now) ∧
      RunTxn.exec env.graph t rows
        = RunTxn.exec env.graph (.settle now key result rejected') rows := by
  cases outcome with
  | refused =>
      obtain rfl := Option.some.inj h
      exact ⟨_, false, rfl, fun _ hc => (nomatch hc), exec_refuse_eq⟩
  | returned result =>
      obtain rfl := Option.some.inj h
      exact ⟨result, rejected, rfl, fun _ hc => (nomatch hc), rfl⟩
  | escaped e => exact nomatch h

theorem SysOk.commitSettle_move (h : SysOk env s) {rejected : Bool} {cycles : Nat}
    {snap : RunRows Value} {l : Launch} {outcome : Outcome Value}
    {todo : List (Launch × Outcome Value)} {failed : Bool}
    (hphase : (s.procs p).phase = .recording cycles snap l outcome todo failed) :
    Move env s p (.commitSettle now rejected)
      (s.commitSettle env p now rejected cycles snap l outcome todo failed) := by
  unfold Sys.commitSettle
  have hopen : (s.procs p).phase.openSnap = some snap := by
    rw [hphase]
    rfl
  cases htxn : outcome.txn now l.key rejected with
  | none => exact .raised _ nofun
  | some t =>
      obtain ⟨result, rejected', hrecorded, hnottick, heq⟩ := txn_settles env snap htxn
      cases hexec : RunTxn.exec env.graph t snap with
      | error e =>
          simp only [Option.map_some, hexec]
          exact .raised _ nofun
      | ok work =>
          simp only [Option.map_some, hexec]
          cases hcommit : s.commit env now snap work with
          | none => exact .raised _ nofun
          | some s' =>
              obtain ⟨rfl, rfl⟩ := h.commit_serial hopen hexec (Or.inl hnottick) hcommit
              rw [heq] at hexec
              obtain ⟨hkey, hrunning, hstorable, rfl⟩ := exec_settle_iff.mp hexec
              exact .settle now rejected cycles l outcome result todo failed hphase hrecorded hkey
                hrunning ⟨rejected', hstorable⟩

/-- Recording a result on the committed rows of a running node: it goes through when the
result can be stored, and raises otherwise. -/
theorem commitSettle_fresh (h : RunOk env.graph s.rows) {rejected : Bool} {cycles : Nat}
    {l : Launch} {result : NodeResult Value} {todo : List (Launch × Outcome Value)} {failed : Bool}
    (hkey : l.key ∈ env.graph.nodeKeys) (hrunning : (s.rows.executions l.key).status = .running)
    (hstorable : Storable env.graph s.rows l.key rejected result) :
    s.commitSettle env p now rejected cycles s.rows l (.returned result) todo failed =
      Sys.moved
        { s with
          rows := (s.rows.write l.key
            (settledExecution now (s.rows.executions l.key) result)).append
              (settledBody l.key result).1 (settledBody l.key result).2 } p
        (.settling cycles todo failed) := by
  have hexec : RunTxn.exec env.graph (.settle now l.key result rejected) s.rows = .ok _ :=
    exec_settle_iff.mpr ⟨hkey, hrunning, hstorable, rfl⟩
  unfold Sys.commitSettle
  simp only [Outcome.txn, Option.map_some, hexec]
  rw [commit_fresh now h hexec]
  rfl

theorem commitSettle_unstorable {rejected : Bool} {cycles : Nat} {l : Launch}
    {result : NodeResult Value} {todo : List (Launch × Outcome Value)} {failed : Bool}
    (hstorable : ¬ Storable env.graph s.rows l.key rejected result) :
    s.commitSettle env p now rejected cycles s.rows l (.returned result) todo failed
      = s.raised p := by
  unfold Sys.commitSettle
  simp only [Outcome.txn, Option.map_some]
  cases hexec : RunTxn.exec env.graph (.settle now l.key result rejected) s.rows with
  | error e => rfl
  | ok work => exact absurd (exec_settle_iff.mp hexec).2.2.1 hstorable

theorem Sys.finish_move {status : RunStatus} (hphase : (s.procs p).phase = .returned status) :
    Move env s p .finish (s.finish p) := by
  unfold Sys.finish
  split
  · rename_i id htask hlost
    exact .release id status hphase htask
  · exact .raised _ nofun

theorem Sys.beginSettle_move {cycles : Nat} {todo : List (Launch × Outcome Value)} {failed : Bool}
    (hphase : (s.procs p).phase = .settling cycles todo failed)
    (hstep : s.step env (p, .beginSettle) = some s') : Move env s p .beginSettle s' := by
  unfold Sys.step at hstep
  simp only [hphase] at hstep
  rcases todo with _ | ⟨⟨l, outcome⟩, rest⟩
  · obtain rfl := Option.some.inj hstep
    cases failed with
    | false => exact .nextCycle cycles hphase
    | true => exact .raised _ nofun
  · cases outcome with
    | refused =>
        obtain rfl := Option.some.inj hstep
        exact .beginSettle cycles l .refused rest failed hphase rfl
    | returned result =>
        obtain rfl := Option.some.inj hstep
        exact .beginSettle cycles l (.returned result) rest failed hphase rfl
    | escaped error =>
        obtain rfl := Option.some.inj hstep
        exact .skipEscaped cycles l error rest failed hphase

/-- **What an action does.** -/
theorem SysOk.step_move (h : SysOk env s) (hstep : s.step env (p, a) = some s') :
    Move env s p a s' := by
  have hstep' := hstep
  unfold Sys.step at hstep
  dsimp only at hstep
  split at hstep
  case h_1 hphase =>
      obtain rfl := Option.some.inj hstep
      exact .advance hphase
  case h_2 token hphase =>
      obtain rfl := Option.some.inj hstep
      exact .resume token hphase
  case h_3 clock leaseSeconds locked hphase =>
      obtain ⟨⟨task, queue⟩, hclaim, rfl⟩ := Option.map_eq_some_iff.mp hstep
      exact .claim clock leaseSeconds locked task queue hphase hclaim
  case h_4 cycles hphase =>
      obtain rfl := Option.some.inj hstep
      exact .beginTick cycles hphase
  case h_5 now cycles snap hphase =>
      obtain rfl := Option.some.inj hstep
      exact h.commitTick_move hphase
  case h_6 now token snap hphase =>
      obtain rfl := Option.some.inj hstep
      exact h.commitResume_move hphase
  case h_7 key outcome cycles snap batch hphase =>
      split at hstep
      · rename_i hany
        obtain rfl := Option.some.inj hstep
        obtain ⟨⟨l, o⟩, hmem, hl⟩ := List.any_eq_true.mp hany
        simp only [Bool.and_eq_true, decide_eq_true_eq, Option.isNone_iff_eq_none] at hl
        exact .invoke key outcome cycles snap batch hphase ⟨l, hl.2 ▸ hmem, hl.1⟩
      · exact nomatch hstep
  case h_8 cycles snap batch hphase =>
      obtain ⟨todo, hall, rfl⟩ := Option.map_eq_some_iff.mp hstep
      exact .gather cycles snap batch todo hphase hall
  case h_9 cycles todo failed hphase => exact Sys.beginSettle_move hphase hstep'
  case h_10 now rejected cycles snap l outcome todo failed hphase =>
      obtain rfl := Option.some.inj hstep
      exact h.commitSettle_move hphase
  case h_11 status hphase =>
      obtain rfl := Option.some.inj hstep
      exact Sys.finish_move hphase
  case h_12 expiresAt =>
      obtain ⟨id, htask, rfl⟩ := Option.map_eq_some_iff.mp hstep
      exact .extend expiresAt id htask
  case h_13 runAfter =>
      obtain ⟨id, htask, rfl⟩ := Option.map_eq_some_iff.mp hstep
      exact .requeue runAfter id htask
  case h_14 =>
      obtain rfl := Option.some.inj hstep
      exact .raised _ nofun
  case h_15 => exact nomatch hstep

/-! ### The invariant is kept -/

/-- The run's rows after a move: unchanged, or those of one transaction. -/
theorem Move.rows_effect (h : Move env s p a s') : s'.rows = s.rows ∨
    ∃ t queue, Effect env.graph s.rows t s'.rows queue := by
  cases h with
  | tick now cycles rows ops hphase hlimit hsome heffect => exact Or.inr ⟨_, ops, heffect⟩
  | resumed now token key hphase hfind hwaiting hsuspended =>
      exact Or.inr ⟨_, _, .resume now token key hfind hwaiting hsuspended⟩
  | settle now rejected cycles l outcome result todo failed hphase hrecorded hkey hrunning
    hstorable =>
      obtain ⟨rejected', hstorable⟩ := hstorable
      exact Or.inr ⟨_, _, .settle _ now l.key result rejected' (Or.inl rfl) hkey hrunning hstorable⟩
  | _ => exact Or.inl rfl

/-- A move leaves the other processes alone. -/
theorem Move.procs_ne (h : Move env s p a s') (hq : q ≠ p) : s'.procs q = s.procs q := by
  cases h with
  | claim clock leaseSeconds locked task queue hphase hclaim => exact Function.update_of_ne hq ..
  | extend expiresAt id htask => exact Function.update_of_ne hq ..
  | _ => exact Function.update_of_ne hq ..

/-- A move opens a transaction only on the committed rows, and only for its own process. -/
theorem Move.openSnap (h : Move env s p a s') {snap : RunRows Value}
    (hopen : (s'.procs q).phase.openSnap = some snap) :
    (s.procs q).phase.openSnap = some snap ∨ snap = s.rows ∧ s'.rows = s.rows := by
  by_cases hq : q = p
  swap
  · rw [h.procs_ne hq] at hopen
    exact Or.inl hopen
  subst hq
  cases h with
  | resume token hphase =>
      rw [Sys.moved_self] at hopen
      exact Or.inr ⟨(Option.some.inj hopen).symm, rfl⟩
  | beginTick cycles hphase =>
      rw [Sys.moved_self] at hopen
      exact Or.inr ⟨(Option.some.inj hopen).symm, rfl⟩
  | beginSettle cycles l outcome rest failed hphase hrecorded =>
      rw [Sys.moved_self] at hopen
      exact Or.inr ⟨(Option.some.inj hopen).symm, rfl⟩
  | extend expiresAt id htask =>
      simp only [Function.update_self] at hopen
      exact Or.inl hopen
  | claim clock leaseSeconds locked task queue hphase hclaim =>
      simp only [Function.update_self] at hopen
      exact nomatch hopen
  | requeue runAfter id htask =>
      rw [show (_ : Sys P Value).procs q = Process.idle from Sys.raised_self] at hopen
      exact nomatch hopen
  | release id status hphase htask =>
      rw [show (_ : Sys P Value).procs q = Process.idle from Sys.raised_self] at hopen
      exact nomatch hopen
  | raised a hnot =>
      rw [Sys.raised_self] at hopen
      exact nomatch hopen
  | _ =>
      rw [Sys.moved_self] at hopen
      exact nomatch hopen

/-- **An action keeps the invariant.** -/
theorem SysOk.step (h : SysOk env s) (hstep : s.step env (p, a) = some s') : SysOk env s' := by
  have hmove := h.step_move hstep
  have hrows : RunOk env.graph s'.rows := by
    rcases hmove.rows_effect with hsame | ⟨t, queue, he⟩
    · exact hsame ▸ h.rows
    · exact Effect.ok h.rows he
  refine ⟨hrows, fun q snap hopen => ?_⟩
  rcases hmove.openSnap hopen with hbefore | ⟨rfl, hsame⟩
  · obtain ⟨hok, hearlier⟩ := h.snaps q snap hbefore
    refine ⟨hok, hearlier.advance ?_⟩
    rcases hmove.rows_effect with hsame | ⟨t, queue, he⟩
    · exact Or.inl hsame
    · exact (he.appends h.rows)
  · exact ⟨h.rows, Or.inl hsame.symm⟩

theorem start_ok (env : Env Value) (now : Time) : SysOk env (Sys.start P env now) where
  rows := materialize_ok env.graph env.triggerPayload
  snaps := by
    intro p snap h
    exact nomatch h

/-- **Every run of the system keeps the invariant.** -/
theorem sys_ok {tr : List (P × Action Value)}
    (h : Trace.run (Sys.step env) (Sys.start P env now) tr = some s) : SysOk env s :=
  Trace.run_invariant (start_ok env now) (fun _ _ _ hs hstep => hs.step hstep) h

end Cases

end Orqent
