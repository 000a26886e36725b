/-
A run among many is a run alone.

A process's statements about its run commute with looking at that run alone (`step_seen`),
and do nothing that another run would see (`perform_other`).  So whatever the processes do
with all the runs, what one run sees of it is a run of the system that has no other.
-/
import Orqent.Runtime.Deployment
import Orqent.Runtime.Parking

namespace Orqent

open QueueTable

variable {P Value : Type} {env : Env Value} {s s' : Sys P Value} {runId : Nat} {about : P → Nat}
  {p : P} {a : Action Value} {now : Time} {rows : RunRows Value}

/-! ### The queue -/

theorem apply_moves (runId now : Nat) {q : QueueTable P} (h : Serial q) (op : QueueOp) :
    Moves runId q (QueueOp.apply runId now q op) := by
  cases op with
  | enqueue => exact Moves.enqueue h now
  | finishOutstanding => exact Moves.finishOutstanding h

theorem share_apply {q : QueueTable P} (h : Serial q) (op : QueueOp) :
    share runId (QueueOp.apply runId now q op) = QueueOp.apply runId now (q.share runId) op := by
  cases op with
  | enqueue => exact share_enqueue h now
  | finishOutstanding => exact share_finishOutstanding

theorem foldl_moves (runId now : Nat) {q : QueueTable P} (h : Serial q) (ops : List QueueOp) :
    Moves runId q (ops.foldl (QueueOp.apply runId now) q) := by
  induction ops generalizing q with
  | nil => exact Moves.refl h
  | cons op ops ih =>
      have hop := apply_moves runId now h op
      exact hop.trans (ih hop.serial)

theorem share_foldl {q : QueueTable P} (h : Serial q) (ops : List QueueOp) :
    share runId (ops.foldl (QueueOp.apply runId now) q) =
      ops.foldl (QueueOp.apply runId now) (q.share runId) := by
  induction ops generalizing q with
  | nil => rfl
  | cons op ops ih =>
      rw [List.foldl_cons, List.foldl_cons, ← share_apply h]
      exact ih (apply_moves runId now h op).serial

/-! ### What a run sees of its processes -/

/-- The ids are those of the rows, and what a process claimed is a task of its run. -/
structure TasksOk (about : P → Nat) (s : Sys P Value) : Prop where
  serial : Serial s.queue
  claimed : ∀ p id, (s.procs p).task = some id → ∃ t ∈ s.queue, t.id = id ∧ t.runId = about p

theorem renumber_congr {f g : Nat → Nat} {proc : Process Value}
    (h : ∀ id, proc.task = some id → f id = g id) : proc.renumber f = proc.renumber g := by
  unfold Process.renumber
  cases htask : proc.task with
  | none => rfl
  | some id => rw [Option.map_some, Option.map_some, h id htask]

/-- What is done to the queue about one run renumbers no claimed task. -/
theorem TasksOk.renumber (h : TasksOk about s) {moved : Nat} {q' : QueueTable P}
    (hq : Moves moved s.queue q') (p : P) :
    (s.procs p).renumber (q'.rank runId) = (s.procs p).renumber (s.queue.rank runId) := by
  refine renumber_congr fun id htask => ?_
  obtain ⟨t, ht, rfl, -⟩ := h.claimed p id htask
  exact hq.rank runId t.id (Nat.le_of_lt (h.serial.id_lt ht))

theorem TasksOk.setQueue (h : TasksOk about s) (rows : RunRows Value) {moved : Nat}
    {q' : QueueTable P} (hq : Moves moved s.queue q') :
    TasksOk about { s with rows, queue := q' } where
  serial := hq.serial
  claimed := by
    intro p id htask
    obtain ⟨t, ht, hid, hrun⟩ := h.claimed p id htask
    obtain ⟨u, hu, huid, hurun⟩ := hq.kept t ht
    exact ⟨u, hu, huid.trans hid, hurun.trans hrun⟩

theorem TasksOk.seen_setQueue (h : TasksOk about s) (rows : RunRows Value) {moved : Nat}
    {q' : QueueTable P} (hq : Moves moved s.queue q') :
    Sys.seen { s with rows, queue := q' } runId about =
      { s.seen runId about with rows, queue := q'.share runId } := by
  unfold Sys.seen
  congr 1
  funext p
  dsimp only
  rw [h.renumber hq p]

theorem seen_procs (hp : about p = runId) :
    (s.seen runId about).procs p = (s.procs p).renumber (s.queue.rank runId) :=
  if_pos hp

section Commit

variable [DecidableEq Value]

theorem TasksOk.seen_commit (h : TasksOk about s) (snap : RunRows Value)
    (work : RunRows Value × List QueueOp) :
    (s.seen env.runId about).commit env now snap work =
      (s.commit env now snap work).map (·.seen env.runId about) := by
  unfold Sys.commit
  rw [Option.map_map]
  refine Option.map_congr fun rows _ => ?_
  show _ = Sys.seen _ _ _
  rw [h.seen_setQueue _ (foldl_moves env.runId now h.serial work.2), share_foldl h.serial]
  rfl

theorem TasksOk.commit (h : TasksOk about s) {snap : RunRows Value}
    {work : RunRows Value × List QueueOp} (hcommit : s.commit env now snap work = some s') :
    TasksOk about s' ∧ Moves env.runId s.queue s'.queue ∧ s'.procs = s.procs := by
  obtain ⟨rows, -, rfl⟩ := Option.map_eq_some_iff.mp hcommit
  have hq := foldl_moves env.runId now h.serial work.2
  exact ⟨h.setQueue _ hq, hq, rfl⟩

end Commit

section Seen

variable [DecidableEq P]

theorem seen_update (hp : about p = runId) (proc : Process Value) :
    Sys.seen { s with procs := Function.update s.procs p proc } runId about =
      { s.seen runId about with
        procs := Function.update (s.seen runId about).procs p
          (proc.renumber (s.queue.rank runId)) } := by
  unfold Sys.seen
  congr 1
  funext p'
  dsimp only
  by_cases hpp : p' = p
  · rw [hpp, Function.update_self, Function.update_self, if_pos hp]
  · rw [Function.update_of_ne hpp, Function.update_of_ne hpp]

theorem seen_moved (hp : about p = runId) (phase : Phase Value) :
    (s.moved p phase).seen runId about = (s.seen runId about).moved p phase := by
  unfold Sys.moved
  rw [seen_update hp, seen_procs hp]
  rfl

theorem seen_raised (hp : about p = runId) :
    (s.raised p).seen runId about = (s.seen runId about).raised p := by
  unfold Sys.raised
  rw [seen_update hp]
  rfl

/-! ### What a process does to its run -/

/-- A process that takes no new task. -/
theorem TasksOk.update (h : TasksOk about s) {proc : Process Value}
    (hproc : ∀ id, proc.task = some id → (s.procs p).task = some id) :
    TasksOk about { s with procs := Function.update s.procs p proc } where
  serial := h.serial
  claimed := by
    intro p' id htask
    dsimp only at htask
    by_cases hpp : p' = p
    · rw [hpp, Function.update_self] at htask
      exact hpp ▸ h.claimed p id (hproc id htask)
    · rw [Function.update_of_ne hpp] at htask
      exact h.claimed p' id htask

/-- A process that moves, and what it does to the queue. -/
theorem TasksOk.seen_both (h : TasksOk about s) (hp : about p = runId) {q' : QueueTable P}
    (hq : Moves runId s.queue q') (proc : Process Value)
    (hproc : ∀ id, proc.task = some id → (s.procs p).task = some id) :
    Sys.seen { s with queue := q', procs := Function.update s.procs p proc } runId about =
      { s.seen runId about with
        queue := q'.share runId
        procs := Function.update (s.seen runId about).procs p
          (proc.renumber (s.queue.rank runId)) } := by
  refine ((h.update hproc).seen_setQueue _ hq).trans ?_
  rw [seen_update hp]
  rfl

/-- What the owner of a task does to it, seen from its run. -/
theorem TasksOk.seen_own (h : TasksOk about s) (hp : about p = runId) {id : Nat}
    (htask : (s.procs p).task = some id) (extra : QueueTask P → Bool)
    (f : QueueTask P → QueueTask P)
    (hf : ∀ u, (f u).id = u.id ∧ (f u).runId = u.runId)
    (hfn : ∀ u g, (f u).renumber g = f (u.renumber g))
    (hextra : ∀ u g, extra (u.renumber g) = extra u) :
    (own p (s.queue.rank runId id) extra f (s.queue.share runId)).1 =
        (own p id extra f s.queue).1 ∧
      (own p (s.queue.rank runId id) extra f (s.queue.share runId)).2 =
        share runId (own p id extra f s.queue).2 ∧
      Moves runId s.queue (own p id extra f s.queue).2 := by
  obtain ⟨t, ht, hid, hrun⟩ := h.claimed p id htask
  obtain ⟨happlied, hshare⟩ := share_own p h.serial ht hid (hrun.trans hp)
    (fun u => (hf u).2) hfn hextra
  exact ⟨happlied, hshare, Moves.own h.serial ht hid (hrun.trans hp) hf⟩

theorem TasksOk.seen_finish (h : TasksOk about s) (hp : about p = runId) :
    (s.seen runId about).finish p = (s.finish p).seen runId about := by
  unfold Sys.finish
  rw [seen_procs hp]
  unfold Process.renumber
  cases htask : (s.procs p).task with
  | none => exact (seen_raised hp).symm
  | some id =>
      cases (s.procs p).lost with
      | true => exact (seen_raised hp).symm
      | false =>
          obtain ⟨-, hshare, hmoves⟩ := h.seen_own hp htask (fun _ => true)
            (fun t => { t with status := .done }) (fun _ => ⟨rfl, rfl⟩) (fun _ _ => rfl)
            fun _ _ => rfl
          have hboth := h.seen_both hp hmoves .idle fun _ hc => by cases hc
          rw [← hshare] at hboth
          exact hboth.symm

theorem TasksOk.seen_requeue (h : TasksOk about s) (hp : about p = runId) {id : Nat}
    (htask : (s.procs p).task = some id) (runAfter : Nat) :
    { (s.seen runId about).raised p with
      queue := ((s.seen runId about).queue.requeue p (s.queue.rank runId id) runAfter).2 } =
      Sys.seen { s.raised p with queue := (s.queue.requeue p id runAfter).2 } runId about := by
  obtain ⟨-, hshare, hmoves⟩ := h.seen_own hp htask (fun _ => true)
    (fun t =>
      { t with
        status := .queued
        runAfter
        lockedBy := none
        lockedAt := none
        leaseExpiresAt := none })
    (fun _ => ⟨rfl, rfl⟩) (fun _ _ => rfl) fun _ _ => rfl
  have hboth := h.seen_both hp hmoves .idle fun _ hc => by cases hc
  rw [← hshare] at hboth
  exact hboth.symm

theorem TasksOk.seen_extend (h : TasksOk about s) (hp : about p = runId) {id : Nat}
    (htask : (s.procs p).task = some id) (expiresAt : Nat) :
    { s.seen runId about with
      queue := ((s.seen runId about).queue.extend p (s.queue.rank runId id) expiresAt).2
      procs := Function.update (s.seen runId about).procs p
        { (s.seen runId about).procs p with
          lost := ((s.seen runId about).procs p).lost ||
            !((s.seen runId about).queue.extend p (s.queue.rank runId id) expiresAt).1 } } =
      Sys.seen
        { s with
          queue := (s.queue.extend p id expiresAt).2
          procs := Function.update s.procs p
            { s.procs p with
              lost := (s.procs p).lost || !(s.queue.extend p id expiresAt).1 } }
        runId about := by
  obtain ⟨happlied, hshare, hmoves⟩ := h.seen_own hp htask
    (fun t => t.leaseExpiresAt.any (· ≤ expiresAt))
    (fun t => { t with leaseExpiresAt := some expiresAt }) (fun _ => ⟨rfl, rfl⟩)
    (fun _ _ => rfl) fun _ _ => rfl
  have hboth := h.seen_both hp hmoves
    { s.procs p with lost := (s.procs p).lost || !(s.queue.extend p id expiresAt).1 }
    fun _ hc => hc
  rw [← hshare] at hboth
  refine Eq.trans ?_ hboth.symm
  rw [seen_procs hp, show (s.queue.extend p id expiresAt).1 = _ from happlied.symm]
  rfl

/-! ### What a process leaves alone -/

/-- What an action about a run keeps of the rest. -/
structure ActsOn (runId : Nat) (about : P → Nat) (p : P) (s s' : Sys P Value) : Prop where
  tasks : TasksOk about s'
  queue : Moves runId s.queue s'.queue
  others : ∀ q, q ≠ p → s'.procs q = s.procs q
  idle : (s'.procs p).phase = .idle → s'.procs p = .idle

theorem TasksOk.acts_raised (h : TasksOk about s) : ActsOn runId about p s (s.raised p) where
  tasks := h.update fun _ hc => by cases hc
  queue := Moves.refl h.serial
  others _ hq := Function.update_of_ne hq ..
  idle _ := Function.update_self ..

theorem TasksOk.acts_moved (h : TasksOk about s) {phase : Phase Value} (hphase : phase ≠ .idle) :
    ActsOn runId about p s (s.moved p phase) where
  tasks := h.update fun _ hc => hc
  queue := Moves.refl h.serial
  others _ hq := Function.update_of_ne hq ..
  idle hc := by
    have hself : (s.moved p phase).procs p = { s.procs p with phase } := Function.update_self ..
    rw [hself] at hc
    exact absurd hc hphase

/-- A process that moves, and what it does to the queue. -/
theorem TasksOk.acts_both (h : TasksOk about s) {q' : QueueTable P}
    (hq : Moves runId s.queue q') {proc : Process Value}
    (hproc : ∀ id, proc.task = some id → (s.procs p).task = some id)
    (hidle : proc.phase = .idle → proc = .idle) :
    ActsOn runId about p s { s with queue := q', procs := Function.update s.procs p proc } where
  tasks := (h.update hproc).setQueue _ hq
  queue := hq
  others _ hne := Function.update_of_ne hne ..
  idle hc := by
    dsimp only at hc ⊢
    rw [Function.update_self] at hc ⊢
    exact hidle hc

theorem TasksOk.acts_finish (h : TasksOk about s) (hp : about p = runId) :
    ActsOn runId about p s (s.finish p) := by
  unfold Sys.finish
  split
  · rename_i id htask hlost
    obtain ⟨-, -, hmoves⟩ := h.seen_own hp htask (fun _ => true)
      (fun t => { t with status := .done }) (fun _ => ⟨rfl, rfl⟩) (fun _ _ => rfl) fun _ _ => rfl
    exact h.acts_both hmoves (fun _ hc => by cases hc) fun _ => rfl
  · exact h.acts_raised

/-! ### Actions -/

variable [DecidableEq Value]

theorem TasksOk.seen_commitTick (h : TasksOk about s) (hp : about p = env.runId) (cycles : Nat)
    (snap : RunRows Value) :
    (s.seen env.runId about).commitTick env p now cycles snap =
      (s.commitTick env p now cycles snap).seen env.runId about := by
  unfold Sys.commitTick
  cases Scheduler.tick (snapshot env.graph snap) with
  | error e => exact (seen_raised hp).symm
  | ok decisions =>
      cases decisions with
      | nil => exact (seen_moved hp _).symm
      | cons first rest =>
          dsimp only
          split
          · exact (seen_raised hp).symm
          · cases applyDecisions now snap (first :: rest) with
            | error e => exact (seen_raised hp).symm
            | ok work =>
                dsimp only
                rw [h.seen_commit]
                cases s.commit env now snap work with
                | none => exact (seen_raised hp).symm
                | some s' => exact (seen_moved hp _).symm

theorem TasksOk.seen_commitResume (h : TasksOk about s) (hp : about p = env.runId)
    (token : String) (snap : RunRows Value) :
    (s.seen env.runId about).commitResume env p now token snap =
      (s.commitResume env p now token snap).seen env.runId about := by
  unfold Sys.commitResume
  cases waitingNode env.graph snap token with
  | none => exact (seen_raised hp).symm
  | some key =>
      cases resumeBody env.graph now token snap with
      | error e => exact (seen_raised hp).symm
      | ok work =>
          dsimp only
          rw [h.seen_commit]
          cases s.commit env now snap work with
          | none => exact (seen_raised hp).symm
          | some s' => exact (seen_moved hp _).symm

theorem TasksOk.seen_commitSettle (h : TasksOk about s) (hp : about p = env.runId)
    (rejected : Bool) (cycles : Nat) (snap : RunRows Value) (l : Launch) (outcome : Outcome Value)
    (todo : List (Launch × Outcome Value)) (failed : Bool) :
    (s.seen env.runId about).commitSettle env p now rejected cycles snap l outcome todo failed =
      (s.commitSettle env p now rejected cycles snap l outcome todo failed).seen
        env.runId about := by
  unfold Sys.commitSettle
  cases (outcome.txn now l.key rejected).map (RunTxn.exec env.graph · snap) with
  | none => exact (seen_raised hp).symm
  | some result =>
      cases result with
      | error e => exact (seen_raised hp).symm
      | ok work =>
          dsimp only
          rw [h.seen_commit]
          cases s.commit env now snap work with
          | none => exact (seen_raised hp).symm
          | some s' => exact (seen_moved hp _).symm

/-- **A process's action on its run commutes with looking at that run alone.** -/
theorem TasksOk.step_seen (h : TasksOk about s) (hp : about p = env.runId)
    (ha : ∀ clock leaseSeconds locked, a ≠ .claim clock leaseSeconds locked) :
    (s.seen env.runId about).step env (p, a) =
      (s.step env (p, a)).map (·.seen env.runId about) := by
  have hphase : ((s.seen env.runId about).procs p).phase = (s.procs p).phase := by
    rw [seen_procs hp]
    rfl
  have htasks : ((s.seen env.runId about).procs p).task =
      (s.procs p).task.map (s.queue.rank env.runId) := by
    rw [seen_procs hp]
    rfl
  unfold Sys.step
  dsimp only
  cases a with
  | advance =>
      rw [hphase]
      cases (s.procs p).phase with
      | idle => exact congrArg some (seen_moved hp _).symm
      | _ => rfl
  | resume token =>
      rw [hphase]
      cases (s.procs p).phase with
      | idle => exact congrArg some (seen_moved hp _).symm
      | _ => rfl
  | claim clock leaseSeconds locked => exact absurd rfl (ha clock leaseSeconds locked)
  | beginTick =>
      rw [hphase]
      cases (s.procs p).phase with
      | advancing cycles => exact congrArg some (seen_moved hp _).symm
      | _ => rfl
  | commitTick clock =>
      rw [hphase]
      cases (s.procs p).phase with
      | ticking cycles snap => exact congrArg some (h.seen_commitTick hp cycles snap)
      | _ => rfl
  | commitResume clock =>
      rw [hphase]
      cases (s.procs p).phase with
      | resuming token snap => exact congrArg some (h.seen_commitResume hp token snap)
      | _ => rfl
  | invoke key outcome =>
      rw [hphase]
      cases (s.procs p).phase with
      | invoking cycles snap batch =>
          dsimp only
          split
          · exact congrArg some (seen_moved hp _).symm
          · rfl
      | _ => rfl
  | gather =>
      rw [hphase]
      cases (s.procs p).phase with
      | invoking cycles snap batch =>
          dsimp only
          rw [Option.map_map]
          exact Option.map_congr fun todo _ => (seen_moved hp _).symm
      | _ => rfl
  | beginSettle =>
      rw [hphase]
      cases (s.procs p).phase with
      | settling cycles todo failed =>
          rcases todo with _ | ⟨⟨l, outcome⟩, rest⟩
          · cases failed with
            | true => exact congrArg some (seen_raised hp).symm
            | false => exact congrArg some (seen_moved hp _).symm
          · cases outcome <;> exact congrArg some (seen_moved hp _).symm
      | _ => rfl
  | commitSettle clock rejected =>
      rw [hphase]
      cases (s.procs p).phase with
      | recording cycles snap l outcome todo failed =>
          exact congrArg some (h.seen_commitSettle hp rejected cycles snap l outcome todo failed)
      | _ => rfl
  | extend expiresAt =>
      refine (congrArg (Option.map _) htasks).trans ?_
      rw [Option.map_map, Option.map_map]
      exact Option.map_congr fun id htask => h.seen_extend hp htask expiresAt
  | requeue runAfter =>
      refine (congrArg (Option.map _) htasks).trans ?_
      rw [Option.map_map, Option.map_map]
      exact Option.map_congr fun id htask => h.seen_requeue hp htask runAfter
  | finish =>
      rw [hphase]
      cases (s.procs p).phase with
      | returned status => exact congrArg some (h.seen_finish hp)
      | _ => rfl
  | crash => exact congrArg some (seen_raised hp).symm

/-- A process that moves on once it has committed. -/
theorem TasksOk.acts_committed (h : TasksOk about s) {snap : RunRows Value}
    {work : RunRows Value × List QueueOp} {phase : Phase Value} (hphase : phase ≠ .idle)
    (hcommit : s.commit env now snap work = some s') :
    ActsOn env.runId about p s (s'.moved p phase) := by
  obtain ⟨htasks, hmoves, hprocs⟩ := h.commit hcommit
  have hacts : ActsOn env.runId about p s' (s'.moved p phase) := htasks.acts_moved hphase
  exact ⟨hacts.tasks, hmoves, fun q hq => (hacts.others q hq).trans (congrFun hprocs q), hacts.idle⟩

theorem TasksOk.acts_commitTick (h : TasksOk about s) (cycles : Nat) (snap : RunRows Value) :
    ActsOn env.runId about p s (s.commitTick env p now cycles snap) := by
  unfold Sys.commitTick
  split
  · exact h.acts_raised
  · exact h.acts_moved (by simp)
  · split
    · exact h.acts_raised
    · split
      · exact h.acts_raised
      · split
        · exact h.acts_raised
        · rename_i hcommit
          exact h.acts_committed (by simp) hcommit

theorem TasksOk.acts_commitResume (h : TasksOk about s) (token : String) (snap : RunRows Value) :
    ActsOn env.runId about p s (s.commitResume env p now token snap) := by
  unfold Sys.commitResume
  split
  · split
    · exact h.acts_raised
    · rename_i hcommit
      exact h.acts_committed (by simp) hcommit
  · exact h.acts_raised

theorem TasksOk.acts_commitSettle (h : TasksOk about s) (rejected : Bool) (cycles : Nat)
    (snap : RunRows Value) (l : Launch) (outcome : Outcome Value)
    (todo : List (Launch × Outcome Value)) (failed : Bool) :
    ActsOn env.runId about p s
      (s.commitSettle env p now rejected cycles snap l outcome todo failed) := by
  unfold Sys.commitSettle
  split
  · split
    · exact h.acts_raised
    · rename_i hcommit
      exact h.acts_committed (by simp) hcommit
  · exact h.acts_raised

/-- **An action about a run leaves the rest alone.** -/
theorem TasksOk.acts (h : TasksOk about s) (hp : about p = env.runId)
    (hidle : (s.procs p).phase = .idle → s.procs p = .idle)
    (ha : ∀ clock leaseSeconds locked, a ≠ .claim clock leaseSeconds locked)
    (hstep : s.step env (p, a) = some s') : ActsOn env.runId about p s s' := by
  unfold Sys.step at hstep
  dsimp only at hstep
  split at hstep
  case h_1 => exact Option.some.inj hstep ▸ h.acts_moved (by simp)
  case h_2 => exact Option.some.inj hstep ▸ h.acts_moved (by simp)
  case h_3 clock leaseSeconds locked _ => exact absurd rfl (ha clock leaseSeconds locked)
  case h_4 => exact Option.some.inj hstep ▸ h.acts_moved (by simp)
  case h_5 cycles snap _ => exact Option.some.inj hstep ▸ h.acts_commitTick cycles snap
  case h_6 token snap _ => exact Option.some.inj hstep ▸ h.acts_commitResume token snap
  case h_7 =>
      split at hstep
      · exact Option.some.inj hstep ▸ h.acts_moved (by simp)
      · cases hstep
  case h_8 =>
      obtain ⟨todo, -, rfl⟩ := Option.map_eq_some_iff.mp hstep
      exact h.acts_moved (by simp)
  case h_9 =>
      split at hstep
      · split at hstep
        · exact Option.some.inj hstep ▸ h.acts_raised
        · exact Option.some.inj hstep ▸ h.acts_moved (by simp)
      · exact Option.some.inj hstep ▸ h.acts_moved (by simp)
      · exact Option.some.inj hstep ▸ h.acts_moved (by simp)
  case h_10 rejected cycles snap l outcome todo failed _ =>
      exact Option.some.inj hstep ▸
        h.acts_commitSettle rejected cycles snap l outcome todo failed
  case h_11 => exact Option.some.inj hstep ▸ h.acts_finish hp
  case h_12 expiresAt =>
      obtain ⟨id, htask, rfl⟩ := Option.map_eq_some_iff.mp hstep
      obtain ⟨-, -, hmoves⟩ := h.seen_own hp htask
        (fun t => t.leaseExpiresAt.any (· ≤ expiresAt))
        (fun t => { t with leaseExpiresAt := some expiresAt }) (fun _ => ⟨rfl, rfl⟩)
        (fun _ _ => rfl) fun _ _ => rfl
      refine h.acts_both hmoves (fun _ hc => hc) fun hc => ?_
      rw [hidle hc] at htask
      cases htask
  case h_13 runAfter =>
      obtain ⟨id, htask, rfl⟩ := Option.map_eq_some_iff.mp hstep
      obtain ⟨-, -, hmoves⟩ := h.seen_own hp htask (fun _ => true)
        (fun t =>
          { t with
            status := .queued
            runAfter
            lockedBy := none
            lockedAt := none
            leaseExpiresAt := none })
        (fun _ => ⟨rfl, rfl⟩) (fun _ _ => rfl) fun _ _ => rfl
      exact h.acts_both hmoves (fun _ hc => by cases hc) fun _ => rfl
  case h_14 => exact Option.some.inj hstep ▸ h.acts_raised
  case h_15 => cases hstep

end Seen

/-! ### The deployment -/

variable {d d' : Deployment P Value} {e : DeploymentAction P Value}

/-- The invariant of all runs together. -/
structure Deployment.Ok (d : Deployment P Value) : Prop where
  serial : Serial d.queue
  claimed : ∀ p id, (d.procs p).task = some id → ∃ t ∈ d.queue, t.id = id ∧ t.runId = d.about p
  ids : ∀ runId (env : Env Value) rows, d.runs[runId]? = some (env, rows) → env.runId = runId
  tasks : ∀ t ∈ d.queue, t.runId < d.runs.length
  about : ∀ p, d.procs p = .idle ∨ d.about p < d.runs.length
  idle : ∀ p, (d.procs p).phase = .idle → d.procs p = .idle

theorem Deployment.Ok.view (h : d.Ok) (rows : RunRows Value) : TasksOk d.about (d.view rows) :=
  ⟨h.serial, h.claimed⟩

theorem Deployment.Ok.start : (Deployment.start P Value).Ok where
  serial := rfl
  claimed _ _ h := by cases h
  ids _ _ _ h := by cases h
  tasks _ h := absurd h List.not_mem_nil
  about _ := Or.inl rfl
  idle _ _ := rfl

/-- What is done to the run a process is about is not seen from another. -/
theorem ActsOn.seen_other (h : ActsOn runId about p s s') (hs : TasksOk about s)
    (hp : about p = runId) {other : Nat} (hne : other ≠ runId) (rows : RunRows Value) :
    Sys.seen { s' with rows } other about = Sys.seen { s with rows } other about := by
  unfold Sys.seen
  dsimp only
  rw [h.queue.others other hne]
  congr 1
  funext q
  by_cases hq : about q = other
  · have hqp : q ≠ p := by
      rintro rfl
      exact hne (hq.symm.trans hp)
    rw [if_pos hq, if_pos hq, h.others q hqp]
    exact hs.renumber h.queue q
  · rw [if_neg hq, if_neg hq]

/-- What is found in a list with one more at its end. -/
theorem getElem?_snoc_cases {α : Type} {l : List α} {x y : α} {i : Nat}
    (h : (l ++ [x])[i]? = some y) : l[i]? = some y ∨ i = l.length ∧ x = y := by
  rw [List.getElem?_append] at h
  split at h
  · exact Or.inl h
  · obtain ⟨hlt, hy⟩ := List.getElem?_eq_some_iff.mp h
    rw [List.length_singleton] at hlt
    refine Or.inr ⟨by omega, ?_⟩
    rw [← hy]
    exact (List.getElem_singleton ..).symm

/-- The run that is created has no task and no process yet. -/
theorem Deployment.Ok.onRun_created (h : d.Ok) (env : Env Value) (now : Time) :
    Sys.seen ⟨materialize env.triggerPayload, d.queue.enqueue d.runs.length now, d.procs⟩
        d.runs.length d.about =
      Sys.start P { env with runId := d.runs.length } now := by
  have hnone : d.queue.share d.runs.length = [] := by
    refine List.eq_nil_iff_forall_not_mem.mpr fun x hx => ?_
    obtain ⟨t, ht, hrun, -⟩ := mem_share.mp hx
    exact Nat.ne_of_lt (h.tasks t ht) hrun
  unfold Sys.seen Sys.start
  dsimp only
  rw [share_enqueue h.serial, hnone]
  congr 1
  funext q
  rcases h.about q with hidle | hlt
  · rw [hidle]
    exact ite_self _
  · exact if_neg (Nat.ne_of_lt hlt)

section Deployed

variable [DecidableEq P]

/-- An idle process may turn to any run. -/
theorem TasksOk.turn (h : TasksOk about s) (hidle : s.procs p = .idle) (runId : Nat) :
    TasksOk (Function.update about p runId) s where
  serial := h.serial
  claimed := by
    intro q id htask
    by_cases hq : q = p
    · rw [hq, hidle] at htask
      cases htask
    · rw [Function.update_of_ne hq]
      exact h.claimed q id htask

theorem seen_turn (hidle : s.procs p = .idle) (other : Nat) :
    s.seen runId (Function.update about p other) = s.seen runId about := by
  unfold Sys.seen
  congr 1
  funext q
  by_cases hq : q = p
  · rw [hq, hidle]
    exact (ite_self _).trans (ite_self _).symm
  · rw [Function.update_of_ne hq]

/-- The process is about the run, or is free to turn to it. -/
def Free (d : Deployment P Value) (p : P) (runId : Nat) : Prop :=
  d.about p = runId ∨ d.procs p = .idle

theorem Deployment.Ok.turned (h : d.Ok) (hfree : Free d p runId) (rows : RunRows Value) :
    TasksOk (Function.update d.about p runId) (d.view rows) ∧
      ∀ other, (d.view rows).seen other (Function.update d.about p runId) =
        d.onRun other rows := by
  rcases hfree with rfl | hidle
  · rw [Function.update_eq_self]
    exact ⟨h.view rows, fun _ => rfl⟩
  · exact ⟨(h.view rows).turn hidle runId, fun other => seen_turn hidle runId⟩

/-- A process with the task it has claimed. -/
def Sys.claimed (s : Sys P Value) (p : P) (queue : QueueTable P) (id : Nat) : Sys P Value :=
  { s with queue, procs := Function.update s.procs p ⟨.advancing 0, some id, false⟩ }

/-- A claim of another run's task is not seen. -/
theorem Deployment.Ok.claim_other (h : d.Ok) (hphase : (d.procs p).phase = .idle)
    {moved id other : Nat} {queue : QueueTable P} (hmoves : Moves moved d.queue queue)
    (rows : RunRows Value) (hne : other ≠ moved) :
    ((d.view rows).claimed p queue id).seen other (Function.update d.about p moved) =
      d.onRun other rows := by
  unfold Deployment.onRun Sys.seen Sys.claimed
  dsimp only
  rw [hmoves.others other hne]
  congr 1
  funext q
  by_cases hq : q = p
  · rw [hq, Function.update_self, if_neg (Ne.symm hne)]
    show _ = if _ then Process.renumber _ (d.procs p) else .idle
    rw [h.idle p hphase]
    exact (ite_self _).symm
  · rw [Function.update_of_ne hq, Function.update_of_ne hq, (h.view rows).renumber hmoves q]

variable [DecidableEq Value]

/-- What an action of a process comes to. -/
theorem perform_cases (h : d.perform p runId a = some d') : ∃ env rows s',
    d.runs[runId]? = some (env, rows) ∧ (d.view rows).step env (p, a) = some s' ∧
      d' = ⟨d.runs.set runId (env, s'.rows), s'.queue, s'.procs,
        Function.update d.about p runId⟩ := by
  obtain ⟨⟨env, rows⟩, hrun, hrest⟩ := Option.bind_eq_some_iff.mp h
  obtain ⟨s', hstep, hd⟩ := Option.bind_eq_some_iff.mp hrest
  exact ⟨env, rows, s', hrun, hstep, (Option.some.inj hd).symm⟩

theorem Deployment.Ok.perform (h : d.Ok) (hfree : Free d p runId)
    (ha : ∀ clock leaseSeconds locked, a ≠ .claim clock leaseSeconds locked)
    (hperform : d.perform p runId a = some d') :
    d'.Ok ∧ d'.runs.length = d.runs.length ∧
      (∀ env rows', d'.runs[runId]? = some (env, rows') → ∃ rows,
        d.runs[runId]? = some (env, rows) ∧
          (d.onRun runId rows).step env (p, a) = some (d'.onRun runId rows')) ∧
      ∀ other rows, other ≠ runId → d'.runs[other]? = d.runs[other]? ∧
        d'.onRun other rows = d.onRun other rows := by
  obtain ⟨env, rows, s', hrun, hstep, rfl⟩ := perform_cases hperform
  have hid := h.ids _ _ _ hrun
  obtain ⟨htasks, hseen⟩ := h.turned hfree rows
  have hp : Function.update d.about p runId p = env.runId := by
    rw [Function.update_self, hid]
  have hacts := htasks.acts hp (h.idle p) ha hstep
  have hlt : runId < d.runs.length := (List.getElem?_eq_some_iff.mp hrun).1
  refine ⟨⟨hacts.tasks.serial, hacts.tasks.claimed, ?_, ?_, ?_, ?_⟩, List.length_set, ?_, ?_⟩
  · intro other env' rows' hother
    dsimp only at hother
    by_cases hne : other = runId
    · rw [hne, List.getElem?_set_self hlt] at hother
      obtain ⟨rfl, -⟩ := Prod.mk.inj (Option.some.inj hother)
      rw [hne, hid]
    · rw [List.getElem?_set_ne (Ne.symm hne)] at hother
      exact h.ids _ _ _ hother
  · intro u hu
    dsimp only
    rw [List.length_set]
    rcases hacts.queue.new u hu with hnew | ⟨t, ht, hsame⟩
    · rw [hnew, hid]
      exact hlt
    · exact hsame ▸ h.tasks t ht
  · intro q
    dsimp only
    rw [List.length_set]
    by_cases hq : q = p
    · rw [hq, Function.update_self]
      exact Or.inr hlt
    · rw [Function.update_of_ne hq, hacts.others q hq]
      exact h.about q
  · intro q hidle
    dsimp only at hidle ⊢
    by_cases hq : q = p
    · rw [hq] at hidle ⊢
      exact hacts.idle hidle
    · rw [hacts.others q hq] at hidle ⊢
      exact h.idle q hidle
  · intro env' rows' hnew
    dsimp only at hnew
    rw [List.getElem?_set_self hlt] at hnew
    obtain ⟨rfl, rfl⟩ := Prod.mk.inj (Option.some.inj hnew)
    refine ⟨rows, hrun, ?_⟩
    have hcommutes := htasks.step_seen hp ha
    rw [hid, hseen, hstep] at hcommutes
    exact hcommutes
  · intro other rows' hne
    refine ⟨List.getElem?_set_ne (Ne.symm hne), ?_⟩
    have hother := hacts.seen_other htasks hp (fun hc => hne (hc.trans hid)) rows'
    exact hother.trans ((h.turned hfree rows').2 other)

/-! ### Steps -/

/-- What a step leaves each run with: a run that was there takes the actions shown of it,
and a new one is as a run is created. -/
def Seen (d : Deployment P Value) (e : DeploymentAction P Value) (d' : Deployment P Value) : Prop :=
  ∀ runId (env : Env Value) rows', d'.runs[runId]? = some (env, rows') →
    (∃ rows, d.runs[runId]? = some (env, rows) ∧
      Trace.run (Sys.step env) (d.onRun runId rows) (d.shown runId e d') =
        some (d'.onRun runId rows')) ∨
    runId = d.runs.length ∧ d.shown runId e d' = [] ∧
      ∃ now, d'.onRun runId rows' = Sys.start P env now

theorem Deployment.Ok.create (h : d.Ok) (env : Env Value) (now : Time)
    (hstep : d.step (.create env now) = some d') : d'.Ok ∧ Seen d (.create env now) d' := by
  obtain rfl := Option.some.inj hstep
  have hmoves : Moves d.runs.length d.queue (d.queue.enqueue d.runs.length now) :=
    Moves.enqueue h.serial now
  have hview := h.view (materialize env.triggerPayload)
  refine ⟨⟨hmoves.serial, (hview.setQueue (materialize env.triggerPayload) hmoves).claimed, ?_, ?_,
    ?_, h.idle⟩, ?_⟩
  · intro runId env' rows hrun
    rcases getElem?_snoc_cases hrun with hold | ⟨rfl, hnew⟩
    · exact h.ids _ _ _ hold
    · exact (congrArg (fun r => r.1.runId) hnew).symm
  · intro u hu
    rw [List.length_append, List.length_singleton]
    rcases hmoves.new u hu with hnew | ⟨t, ht, hsame⟩
    · omega
    · have := h.tasks t ht
      omega
  · intro q
    rw [List.length_append, List.length_singleton]
    exact (h.about q).imp_right Nat.lt_succ_of_lt
  · intro runId env' rows' hrun
    rcases getElem?_snoc_cases hrun with hold | ⟨rfl, hnew⟩
    · refine Or.inl ⟨rows', hold, congrArg some ?_⟩
      have hne : runId ≠ d.runs.length := Nat.ne_of_lt (List.getElem?_eq_some_iff.mp hold).1
      refine Eq.symm (((h.view rows').seen_setQueue _ hmoves).trans ?_)
      rw [hmoves.others runId hne]
      rfl
    · obtain ⟨rfl, rfl⟩ := Prod.mk.inj hnew
      exact Or.inr ⟨rfl, rfl, now, h.onRun_created env now⟩

/-- The run whose task is claimed sees it claimed. -/
theorem Deployment.Ok.claim_seen (h : d.Ok) (hphase : (d.procs p).phase = .idle)
    {clock leaseSeconds : Nat} {locked : List Nat} {task : QueueTask P} {queue : QueueTable P}
    (hclaim : d.queue.claim p clock leaseSeconds locked = some (task, queue)) (env : Env Value)
    (rows : RunRows Value) :
    (d.onRun task.runId rows).step env
        (p, .claim clock leaseSeconds (d.queue.lockedShare task.runId locked)) =
      some (((d.view rows).claimed p queue task.id).seen task.runId
        (Function.update d.about p task.runId)) := by
  have hmoves : Moves task.runId d.queue queue := Moves.claim h.serial hclaim
  have hidle := h.idle p hphase
  have hmem : task ∈ d.queue := (claim_cases hclaim).1
  have hproc : (d.onRun task.runId rows).procs p = .idle := by
    show (if _ then Process.renumber _ (d.procs p) else .idle) = _
    rw [hidle]
    exact ite_self _
  unfold Sys.step
  dsimp only
  rw [hproc]
  show Option.map _ (QueueTable.claim p clock leaseSeconds _ (d.queue.share task.runId)) = _
  rw [h.serial.claim_share rfl hclaim, Option.map_some]
  congr 1
  unfold Sys.seen Sys.claimed
  dsimp only
  congr 1
  funext q
  by_cases hq : q = p
  · rw [hq, Function.update_self, Function.update_self, Function.update_self, if_pos rfl]
    unfold Process.renumber
    rw [Option.map_some, hmoves.rank _ _ (Nat.le_of_lt (h.serial.id_lt hmem))]
    rfl
  · rw [Function.update_of_ne hq, Function.update_of_ne hq, Function.update_of_ne hq]
    show (if _ then _ else _) = _
    rw [(h.view rows).renumber hmoves q]

/-- A claim is seen by the run whose task it takes. -/
theorem Deployment.Ok.claim (h : d.Ok) (clock leaseSeconds : Nat) (locked : List Nat)
    (hstep : d.step (.claim p clock leaseSeconds locked) = some d') :
    d'.Ok ∧ Seen d (.claim p clock leaseSeconds locked) d' := by
  unfold Deployment.step at hstep
  dsimp only at hstep
  split at hstep
  swap
  · cases hstep
  rename_i hphase
  obtain ⟨⟨task, queue⟩, hclaim, rfl⟩ := Option.map_eq_some_iff.mp hstep
  have hmoves : Moves task.runId d.queue queue := Moves.claim h.serial hclaim
  have hmem : task ∈ d.queue := (claim_cases hclaim).1
  obtain ⟨found, hfound, hpair⟩ := Option.map_eq_some_iff.mp hclaim
  obtain ⟨rfl, -⟩ := Prod.mk.inj hpair
  refine ⟨⟨hmoves.serial, ?_, h.ids, ?_, ?_, ?_⟩, ?_⟩
  · intro q id htask
    dsimp only at htask ⊢
    by_cases hq : q = p
    · rw [hq, Function.update_self] at htask ⊢
      obtain ⟨u, hu, hid, hrun⟩ := hmoves.kept found hmem
      exact ⟨u, hu, hid.trans (Option.some.inj htask), hrun⟩
    · rw [Function.update_of_ne hq] at htask ⊢
      obtain ⟨t, ht, hid, hrun⟩ := h.claimed q id htask
      obtain ⟨u, hu, huid, hurun⟩ := hmoves.kept t ht
      exact ⟨u, hu, huid.trans hid, hurun.trans hrun⟩
  · intro u hu
    rcases hmoves.new u hu with hnew | ⟨t, ht, hsame⟩
    · exact hnew ▸ h.tasks found hmem
    · exact hsame ▸ h.tasks t ht
  · intro q
    dsimp only
    by_cases hq : q = p
    · rw [hq, Function.update_self, Function.update_self]
      exact Or.inr (h.tasks found hmem)
    · rw [Function.update_of_ne hq, Function.update_of_ne hq]
      exact h.about q
  · intro q hidle
    dsimp only at hidle ⊢
    by_cases hq : q = p
    · rw [hq, Function.update_self] at hidle
      cases hidle
    · rw [Function.update_of_ne hq] at hidle ⊢
      exact h.idle q hidle
  · intro runId env rows hrun
    refine Or.inl ⟨rows, hrun, ?_⟩
    unfold Deployment.shown
    dsimp only
    rw [hfound]
    dsimp only
    by_cases hself : found.runId = runId
    · obtain rfl := hself
      rw [if_pos rfl, Trace.run_singleton]
      exact h.claim_seen hphase hclaim env rows
    · rw [if_neg hself, Trace.run_nil]
      exact congrArg some (h.claim_other hphase hmoves rows (Ne.symm hself)).symm

/-- The action of a process is seen by the run it is about. -/
theorem Deployment.Ok.performed (h : d.Ok) (hfree : Free d p runId)
    (ha : ∀ clock leaseSeconds locked, a ≠ .claim clock leaseSeconds locked)
    (hperform : d.perform p runId a = some d')
    (hshown : ∀ other, d.shown other e d' = if runId = other then [(p, a)] else []) :
    d'.Ok ∧ Seen d e d' := by
  obtain ⟨hok, -, hown, hother⟩ := h.perform hfree ha hperform
  refine ⟨hok, fun other env rows' hrun => Or.inl ?_⟩
  rw [hshown]
  by_cases hself : runId = other
  · obtain rfl := hself
    obtain ⟨rows, hbefore, hlocal⟩ := hown env rows' hrun
    rw [if_pos rfl]
    exact ⟨rows, hbefore, Trace.run_singleton.trans hlocal⟩
  · obtain ⟨hruns, hsame⟩ := hother other rows' (Ne.symm hself)
    rw [if_neg hself]
    exact ⟨rows', hruns.symm.trans hrun, congrArg some hsame.symm⟩

/-- **One step of all the runs, seen from each.** -/
theorem Deployment.Ok.step (h : d.Ok) (hstep : d.step e = some d') : d'.Ok ∧ Seen d e d' := by
  cases e with
  | create env now => exact h.create env now hstep
  | claim p clock leaseSeconds locked => exact h.claim clock leaseSeconds locked hstep
  | call p runId token =>
      unfold Deployment.step at hstep
      dsimp only at hstep
      split at hstep
      · rename_i hphase
        refine h.performed (Or.inr (h.idle p hphase)) (fun clock leaseSeconds locked hc => ?_) hstep
          fun _ => rfl
        cases token <;> cases hc
      · cases hstep
  | act p a =>
      unfold Deployment.step at hstep
      dsimp only at hstep
      split at hstep
      · rename_i hadmits
        refine h.performed (Or.inl rfl) (fun clock leaseSeconds locked hc => ?_) hstep fun _ => rfl
        rw [hc] at hadmits
        cases hadmits
      · cases hstep

/-- Nothing is shown of a run that is not there. -/
theorem Deployment.Ok.shown_later (h : d.Ok) (hlater : d.runs.length ≤ runId)
    (hstep : d.step e = some d') : d.shown runId e d' = [] := by
  have hthere : ∀ {p : P} {other : Nat} {a : Action Value}, d.perform p other a = some d' →
      other ≠ runId := by
    intro p other a hperform hc
    obtain ⟨env, rows, s', hrun, -, -⟩ := perform_cases hperform
    have hlt := (List.getElem?_eq_some_iff.mp hrun).1
    omega
  cases e with
  | create env now => rfl
  | call p other token =>
      unfold Deployment.step at hstep
      dsimp only at hstep
      split at hstep
      · exact if_neg (hthere hstep)
      · cases hstep
  | claim p clock leaseSeconds locked =>
      unfold Deployment.shown
      dsimp only
      split
      · rename_i task htask
        have hlt := h.tasks task (mem_of_claimable htask)
        exact if_neg (by omega)
      · rfl
  | act p a =>
      unfold Deployment.step at hstep
      dsimp only at hstep
      split at hstep
      · exact if_neg (hthere hstep)
      · cases hstep

theorem runs_length_le (hstep : d.step e = some d') : d.runs.length ≤ d'.runs.length := by
  have hsame : ∀ {p : P} {other : Nat} {a : Action Value}, d.perform p other a = some d' →
      d.runs.length ≤ d'.runs.length := by
    intro p other a hperform
    obtain ⟨env, rows, s', -, -, rfl⟩ := perform_cases hperform
    exact Nat.le_of_eq List.length_set.symm
  cases e with
  | create env now =>
      obtain rfl := Option.some.inj hstep
      rw [List.length_append]
      exact Nat.le_add_right _ _
  | call p other token =>
      unfold Deployment.step at hstep
      dsimp only at hstep
      split at hstep
      · exact hsame hstep
      · cases hstep
  | claim p clock leaseSeconds locked =>
      unfold Deployment.step at hstep
      dsimp only at hstep
      split at hstep
      · obtain ⟨claimed, -, rfl⟩ := Option.map_eq_some_iff.mp hstep
        exact Nat.le_refl _
      · cases hstep
  | act p a =>
      unfold Deployment.step at hstep
      dsimp only at hstep
      split at hstep
      · exact hsame hstep
      · cases hstep

/-! ### Runs -/

/-- All that one run saw, from the beginning. -/
def Deployment.history (P : Type) [DecidableEq P] (runId : Nat)
    (events : List (DeploymentAction P Value)) : List (P × Action Value) :=
  Trace.collect Deployment.step (Deployment.shown runId) (Deployment.start P Value) events

/-- A run that is not there has no history, and one that is has its history behind it. -/
structure RunHistory (runId : Nat) (events : List (DeploymentAction P Value))
    (d : Deployment P Value) : Prop where
  ok : d.Ok
  later : d.runs.length ≤ runId → Deployment.history P runId events = []
  there : ∀ (env : Env Value) rows, d.runs[runId]? = some (env, rows) → ∃ now,
    Trace.run (Sys.step env) (Sys.start P env now) (Deployment.history P runId events) =
      some (d.onRun runId rows)

theorem RunHistory.step {events : List (DeploymentAction P Value)} (h : RunHistory runId events d)
    (hrun : Trace.run Deployment.step (Deployment.start P Value) events = some d)
    (hstep : d.step e = some d') : RunHistory runId (events ++ [e]) d' := by
  obtain ⟨hok', hseen⟩ := h.ok.step hstep
  have hsnoc : Deployment.history P runId (events ++ [e]) =
      Deployment.history P runId events ++ d.shown runId e d' := Trace.collect_snoc hrun hstep
  refine ⟨hok', fun hlater => ?_, fun env rows' hthere => ?_⟩
  · have hbefore : d.runs.length ≤ runId := (runs_length_le hstep).trans hlater
    rw [hsnoc, h.later hbefore, h.ok.shown_later hbefore hstep]
    rfl
  · rw [hsnoc]
    rcases hseen runId env rows' hthere with ⟨rows, hold, hlocal⟩ | ⟨hnew, hnone, now, hstart⟩
    · obtain ⟨now, hbefore⟩ := h.there env rows hold
      refine ⟨now, ?_⟩
      rw [Trace.run_append, hbefore]
      exact hlocal
    · refine ⟨now, ?_⟩
      rw [hnone, h.later (Nat.le_of_eq hnew.symm), hstart]
      rfl

theorem runHistory {events : List (DeploymentAction P Value)}
    (hrun : Trace.run Deployment.step (Deployment.start P Value) events = some d) :
    RunHistory runId events d :=
  Trace.run_induction (P := fun events d => RunHistory runId events d)
    ⟨.start, fun _ => rfl, fun _ _ h => by cases h⟩
    (fun _ _ _ _ hbefore h hstep => h.step hbefore hstep) hrun

/--
**A run among many is a run alone.**  In whatever order the processes create, advance,
resume and claim the runs of a deployment, what the processes about one run did, in that
order, is a run of the system that has no other run and no other task, and leaves it as
that run finds itself: with these rows, its share of the queue and those processes.
-/
theorem run_among_many (events : List (DeploymentAction P Value))
    (hrun : Trace.run Deployment.step (Deployment.start P Value) events = some d)
    (henv : d.runs[runId]? = some (env, rows)) :
    ∃ now, Trace.run (Sys.step env) (Sys.start P env now)
        (Deployment.history P runId events) = some (d.onRun runId rows) :=
  (runHistory hrun).there env rows henv

end Deployed

/-- Two workers take a run each and go through a cycle of it, turn by turn. -/
def twoRuns : List (DeploymentAction Bool Unit) :=
  [.create rejoinEnv 0, .create rejoinEnv 0, .claim true 0 10 [], .claim false 0 10 []] ++
    (cycle [("trigger", .returned (.completed [("main", ())]))]).flatMap fun a =>
      [.act true a, .act false a]

/-- The second run, seen alone: its own task is its first. -/
theorem second_run_alone : ∃ d env rows now,
    Trace.run Deployment.step (Deployment.start Bool Unit) twoRuns = some d ∧
      d.runs[1]? = some (env, rows) ∧ (rows.executions "trigger").status = .succeeded ∧
      (d.onRun 1 rows).queue.map QueueTask.id = [0] ∧
      Trace.run (Sys.step env) (Sys.start Bool env now) (Deployment.history Bool 1 twoRuns) =
        some (d.onRun 1 rows) := by
  have heval : (Trace.run Deployment.step (Deployment.start Bool Unit) twoRuns).bind (fun d =>
      d.runs[1]?.map fun r => ((r.2.executions "trigger").status,
        (d.onRun 1 r.2).queue.map QueueTask.id)) = some (.succeeded, [0]) := by
    decide +kernel
  obtain ⟨d, hrun, hthere⟩ := Option.bind_eq_some_iff.mp heval
  obtain ⟨⟨env, rows⟩, henv, hvalues⟩ := Option.map_eq_some_iff.mp hthere
  obtain ⟨hstatus, hqueue⟩ := Prod.mk.inj hvalues
  obtain ⟨now, halone⟩ := run_among_many twoRuns hrun henv
  exact ⟨d, env, rows, now, hrun, henv, hstatus, hqueue, halone⟩

end Orqent
