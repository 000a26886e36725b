/-
The queue table.

A task says that a run can make progress.  A use case enqueues one in the
transaction that gives the run work, a worker claims it under a lease, extends the
lease while it works, and releases or requeues it.  Every write to a leased task
names its owner and applies to nothing where the owner has changed.

Each operation is one statement on the latest committed rows, so it is a function
of the table.  Rows are never deleted; the number of rows is the next id.
-/
import Mathlib.Data.List.Sort
import Mathlib.Data.Prod.Lex

namespace Orqent

/-- Where a task has got to. -/
inductive TaskStatus
  | queued
  | leased
  | done
deriving DecidableEq, Repr

/-- A queue row.  The three lease columns are set together while it is leased. -/
structure QueueTask (Worker : Type) where
  id : Nat
  runId : Nat
  status : TaskStatus
  runAfter : Nat
  lockedBy : Option Worker
  lockedAt : Option Nat
  leaseExpiresAt : Option Nat
  attempts : Nat
deriving DecidableEq, Repr

/-- The rows of `queue_tasks`. -/
abbrev QueueTable (Worker : Type) := List (QueueTask Worker)

namespace QueueTask

variable {Worker : Type}

/-- Whether the run may still be picked up from this task. -/
def outstanding (t : QueueTask Worker) : Bool := t.status = .queued || t.status = .leased

/-- The unique index: the run, while the task is outstanding. -/
def pendingKey (t : QueueTask Worker) : Option Nat := if t.outstanding then some t.runId else none

end QueueTask

namespace QueueTable

variable {Worker : Type}

/-! ### Inside a use case -/

/-- Signal that a run has work to do; a second outstanding task is absorbed. -/
def enqueue (runId runAfter : Nat) (q : QueueTable Worker) : QueueTable Worker :=
  if q.any fun t => t.pendingKey = some runId then q
  else q ++ [⟨q.length, runId, .queued, runAfter, none, none, none, 0⟩]

/-- Mark the run's outstanding task done. -/
def finishOutstanding (runId : Nat) (q : QueueTable Worker) : QueueTable Worker :=
  q.map fun t => if t.runId = runId && t.outstanding then { t with status := .done } else t

/-! ### By a worker -/

/-- The first unlocked row matching the predicate, by `run_after` and id. -/
def eligible (matching : QueueTask Worker → Bool) (locked : List Nat) (q : QueueTable Worker) :
    Option (QueueTask Worker) :=
  ((q.filter fun t => matching t && t.id ∉ locked).insertionSort fun a b =>
    toLex (a.runAfter, a.id) ≤ toLex (b.runAfter, b.id)).head?

/-- Fresh work first, then a dead worker's. -/
def claimable (now : Nat) (locked : List Nat) (q : QueueTable Worker) : Option (QueueTask Worker) :=
  (eligible (fun t => t.status = .queued && t.runAfter ≤ now) locked q).orElse fun _ =>
    eligible (fun t => t.status = .leased && t.leaseExpiresAt.any (· ≤ now)) locked q

/-- Take ownership of one eligible task; `locked` are the rows other claims hold. -/
def claim (worker : Worker) (now leaseSeconds : Nat) (locked : List Nat) (q : QueueTable Worker) :
    Option (QueueTask Worker × QueueTable Worker) :=
  (claimable now locked q).map fun task =>
    (task, q.map fun t =>
      if t.id = task.id && t.outstanding then
        { t with
          status := .leased
          lockedBy := some worker
          lockedAt := some now
          leaseExpiresAt := some (now + leaseSeconds)
          attempts := t.attempts + 1 }
      else t)

/-- Whether this worker holds the lease of this task. -/
def owns [DecidableEq Worker] (worker : Worker) (id : Nat) (t : QueueTask Worker) : Bool :=
  t.id = id && t.status = .leased && t.lockedBy = some worker

/-- Apply an update only if this worker still holds the lease; says whether it applied. -/
def own [DecidableEq Worker] (worker : Worker) (id : Nat) (extra : QueueTask Worker → Bool)
    (f : QueueTask Worker → QueueTask Worker) (q : QueueTable Worker) : Bool × QueueTable Worker :=
  (q.any fun t => owns worker id t && extra t,
    q.map fun t => if owns worker id t && extra t then f t else t)

/-- Push the lease out; never backwards. -/
def extend [DecidableEq Worker] (worker : Worker) (id expiresAt : Nat) (q : QueueTable Worker) :
    Bool × QueueTable Worker :=
  own worker id (fun t => t.leaseExpiresAt.any (· ≤ expiresAt))
    (fun t => { t with leaseExpiresAt := some expiresAt }) q

/-- Give up a task that is finished with. -/
def release [DecidableEq Worker] (worker : Worker) (id : Nat) (q : QueueTable Worker) :
    Bool × QueueTable Worker :=
  own worker id (fun _ => true) (fun t => { t with status := .done }) q

/-- Hand a task back unfinished. -/
def requeue [DecidableEq Worker] (worker : Worker) (id runAfter : Nat) (q : QueueTable Worker) :
    Bool × QueueTable Worker :=
  own worker id (fun _ => true)
    (fun t =>
      { t with
        status := .queued
        runAfter
        lockedBy := none
        lockedAt := none
        leaseExpiresAt := none }) q

/-! ### What the operations keep -/

/-- The number of outstanding tasks of a run. -/
def pending (runId : Nat) (q : QueueTable Worker) :
    Nat := q.countP fun t => t.pendingKey = some runId

/-- Every task of this id is done with. -/
def Done (id : Nat) (q : QueueTable Worker) : Prop := ∀ t ∈ q, t.id = id → t.status = .done

/-- The rows belong to this run, and their ids are below the next one. -/
structure Rows (runId : Nat) (q : QueueTable Worker) : Prop where
  run : ∀ t ∈ q, t.runId = runId
  id_lt : ∀ t ∈ q, t.id < q.length

/-- An update of a row keeps its identity, and changes no row that is done with. -/
def Updates (f : QueueTask Worker → QueueTask Worker) : Prop :=
  ∀ t, (f t).id = t.id ∧ (f t).runId = t.runId ∧ (t.status = .done → f t = t)

variable {runId id : Nat} {q q' : QueueTable Worker} {f : QueueTask Worker → QueueTask Worker}

theorem Rows.map (h : Rows runId q) (hf : Updates f) : Rows runId (q.map f) where
  run := by
    intro t ht
    obtain ⟨u, hu, rfl⟩ := List.mem_map.mp ht
    rw [(hf u).2.1]
    exact h.run u hu
  id_lt := by
    intro t ht
    obtain ⟨u, hu, rfl⟩ := List.mem_map.mp ht
    rw [(hf u).1, List.length_map]
    exact h.id_lt u hu

theorem Done.map (h : Done id q) (hf : Updates f) : Done id (q.map f) := by
  intro t ht hid
  obtain ⟨u, hu, rfl⟩ := List.mem_map.mp ht
  have hdone := h u hu ((hf u).1 ▸ hid)
  rw [(hf u).2.2 hdone]
  exact hdone

theorem pending_map (hf : ∀ t, (f t).pendingKey = t.pendingKey) :
    pending runId (q.map f) = pending runId q := by
  rw [pending, pending, List.countP_map]
  exact List.countP_congr fun t _ => by simp [hf]

/-- The table moves on: its rows stay the run's, and what was done with stays so. -/
structure Evolves (runId : Nat) (q q' : QueueTable Worker) : Prop where
  rows : Rows runId q'
  length_le : q.length ≤ q'.length
  done : ∀ id < q.length, Done id q → Done id q'

theorem Rows.evolves_refl (h : Rows runId q) : Evolves runId q q := ⟨h, le_rfl, fun _ _ hd => hd⟩

theorem Rows.evolves_map (h : Rows runId q) (hf : Updates f) : Evolves runId q (q.map f) :=
  ⟨h.map hf, by simp, fun _ _ hd => hd.map hf⟩

/-- With no outstanding task of the run, all its tasks are done with. -/
theorem Rows.done (h : Rows runId q) (hnone : pending runId q = 0) : Done id q := by
  intro t ht _
  have hkey := List.countP_eq_zero.mp hnone t ht
  simp only [QueueTask.pendingKey, h.run t ht, QueueTask.outstanding] at hkey
  cases hst : t.status with
  | queued => simp [hst] at hkey
  | leased => simp [hst] at hkey
  | done => rfl

theorem Rows.enqueue (h : Rows runId q) (runAfter : Nat) :
    Rows runId (q.enqueue runId runAfter) := by
  unfold QueueTable.enqueue
  split
  · exact h
  · constructor
    · intro t ht
      rcases List.mem_append.mp ht with ht | ht
      · exact h.run t ht
      · rw [List.mem_singleton.mp ht]
    · intro t ht
      rw [List.length_append]
      rcases List.mem_append.mp ht with ht | ht
      · exact Nat.lt_add_right _ (h.id_lt t ht)
      · rw [List.mem_singleton.mp ht]
        exact Nat.lt_succ_self _

/-- A new task has a new id. -/
theorem Rows.evolves_enqueue (h : Rows runId q) (runAfter : Nat) :
    Evolves runId q (q.enqueue runId runAfter) := by
  refine ⟨h.enqueue runAfter, ?_, fun id hid hd => ?_⟩
  · unfold QueueTable.enqueue
    split <;> simp
  · unfold QueueTable.enqueue
    split
    · exact hd
    · intro t ht htid
      rcases List.mem_append.mp ht with ht | ht
      · exact hd t ht htid
      · rw [List.mem_singleton.mp ht] at htid
        exact absurd htid (Nat.ne_of_gt hid)

/-- A run with no outstanding task gets one. -/
theorem pending_enqueue (hnone : pending runId q = 0) (runAfter : Nat) :
    pending runId (q.enqueue runId runAfter) = 1 := by
  have hfree : ¬ ((q.any fun t => t.pendingKey = some runId) = true) := by
    simpa [pending, List.countP_eq_zero] using hnone
  unfold QueueTable.enqueue
  rw [if_neg hfree, pending, List.countP_append, ← pending, hnone]
  simp [QueueTask.pendingKey, QueueTask.outstanding]

theorem finish_updates : Updates fun t : QueueTask Worker =>
    if t.runId = runId && t.outstanding then { t with status := .done } else t := by
  intro t
  by_cases h : (t.runId = runId && t.outstanding) = true
  · refine ⟨by simp [h], by simp [h], fun hdone => ?_⟩
    simp [QueueTask.outstanding, hdone] at h
  · simp [h]

/-- A finished run has no outstanding task. -/
theorem pending_finishOutstanding : pending runId (q.finishOutstanding runId) = 0 := by
  unfold pending
  rw [finishOutstanding, List.countP_map, List.countP_eq_zero]
  intro t _
  by_cases hrun : t.runId = runId
  · cases hst : t.status <;> simp [hrun, hst, QueueTask.pendingKey, QueueTask.outstanding]
  · simp [hrun, QueueTask.pendingKey]

/-- What a claim takes was claimable, and is now leased. -/
theorem claim_cases {worker : Worker} {now leaseSeconds : Nat} {locked : List Nat}
    {task : QueueTask Worker} (h : q.claim worker now leaseSeconds locked = some (task, q')) :
    task ∈ q ∧ ∃ f, Updates f ∧ (∀ t, (f t).pendingKey = t.pendingKey) ∧ q' = q.map f := by
  obtain ⟨found, hfound, hpair⟩ := Option.map_eq_some_iff.mp h
  obtain ⟨rfl, rfl⟩ := Prod.mk.inj hpair
  have hmem : ∀ matching, eligible matching locked q = some found → found ∈ q := by
    intro matching helig
    have := List.mem_of_mem_head? (Option.mem_def.mpr helig)
    rw [List.mem_insertionSort] at this
    exact (List.mem_filter.mp this).1
  refine ⟨?_, _, ?_, ?_, rfl⟩
  · unfold claimable at hfound
    cases hqueued : eligible (fun t => t.status = .queued && t.runAfter ≤ now) locked q with
    | some task =>
        rw [hqueued] at hfound
        exact hmem _ (hqueued.trans hfound)
    | none =>
        rw [hqueued] at hfound
        exact hmem _ hfound
  · intro t
    by_cases hid : (t.id = found.id && t.outstanding) = true
    · refine ⟨by simp [hid], by simp [hid], fun hdone => ?_⟩
      simp [QueueTask.outstanding, hdone] at hid
    · simp [hid]
  · intro t
    by_cases hid : (t.id = found.id && t.outstanding) = true
    · rw [if_pos hid]
      rw [Bool.and_eq_true] at hid
      rw [QueueTask.pendingKey, QueueTask.pendingKey, if_pos hid.2]
      exact if_pos rfl
    · rw [if_neg hid]

variable [DecidableEq Worker] {worker : Worker}

/-- An update by the owner changes leased rows only. -/
theorem own_updates {extra : QueueTask Worker → Bool}
    (hf : ∀ t, (f t).id = t.id ∧ (f t).runId = t.runId) :
    Updates fun t => if owns worker id t && extra t then f t else t := by
  intro t
  by_cases h : (owns worker id t && extra t) = true
  · refine ⟨by simp [h, hf], by simp [h, hf], fun hdone => ?_⟩
    simp [owns, hdone] at h
  · simp [h]

/-- Handing a task over between the queue and its owner leaves it outstanding. -/
theorem pending_own {extra : QueueTask Worker → Bool}
    (hf : ∀ t, t.outstanding = true → (f t).pendingKey = t.pendingKey) :
    pending runId (own worker id extra f q).2 = pending runId q := by
  refine pending_map fun t => ?_
  by_cases h : (owns worker id t && extra t) = true
  · rw [if_pos h]
    refine hf t ?_
    simp only [owns, Bool.and_eq_true, decide_eq_true_eq] at h
    simp [QueueTask.outstanding, h]
  · rw [if_neg h]

theorem pending_extend (expiresAt : Nat) :
    pending runId (q.extend worker id expiresAt).2 = pending runId q :=
  pending_own fun _ _ => rfl

theorem pending_requeue (runAfter : Nat) :
    pending runId (q.requeue worker id runAfter).2 = pending runId q := by
  refine pending_own fun t ht => ?_
  rw [QueueTask.pendingKey, QueueTask.pendingKey, if_pos ht]
  exact if_pos rfl

/-- Nobody owns a task that is done with. -/
theorem Done.own (h : Done id q) (extra : QueueTask Worker → Bool) :
    (own worker id extra f q).2 = q := by
  have hnot : ∀ t ∈ q, (owns worker id t && extra t) = false := by
    intro t ht
    by_cases hid : t.id = id
    · simp [owns, h t ht hid]
    · simp [owns, hid]
  show q.map _ = q
  refine (List.map_congr_left fun t ht => ?_).trans (List.map_id q)
  rw [hnot t ht]
  rfl

end QueueTable

end Orqent
