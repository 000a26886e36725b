/-
Workers over one queue.

Any number of workers, each with a policy of its own, under one clock that never goes
back.  A worker claims a task, its heartbeat wakes now and then, and it releases the
task or leaves without; use cases enqueue tasks and close those of a run.

A worker is punctual while each wake comes at least an interval after the last, or after
the claim, and before a TTL has gone by.  Then its copy of the lease always ends a TTL
after it woke last, the row it claimed says the same, and a row whose lease has not run
out is claimed by nobody.
-/
import Orqent.Lib.Trace
import Orqent.Queue.Protocol
import Orqent.Worker.Lease
import Mathlib.Logic.Function.Basic

namespace Orqent

variable {Worker : Type}

/-! ### Workers and use cases -/

/-- What a worker is about. -/
inductive Duty (Worker : Type)
  | free
  /-- Its heartbeat runs: the task, its copy of the lease, and when it woke last or claimed. -/
  | holding (id : Nat) (lease : Lease Worker) (woken : Nat)
  /-- Its heartbeat is over, and it has not released the task. -/
  | unheld
deriving DecidableEq, Repr

/-- The queue and its workers. -/
structure Fleet (Worker : Type) where
  queue : Queue Worker
  duties : Worker → Duty Worker

/-- What the workers do. -/
inductive FleetAction (Worker : Type)
  /-- `locked` are the rows that other claims hold at the time. -/
  | claim (worker : Worker) (locked : List Nat)
  | wake (worker : Worker)
  | release (worker : Worker)
  /-- The call is over without a release: the advance raised, or the lease is lost. -/
  | leave (worker : Worker)
  | enqueue (runId : Nat) (runAfter : Option Nat)
  | finishOutstanding (runId : Nat)
deriving DecidableEq, Repr

/-- What the worker is about after a round of its heartbeat. -/
def Duty.after (id : Nat) (lease : Lease Worker) (now : Nat) :
    FixedLeasePolicy.Beat Worker → Duty Worker
  | .slept => .holding id lease now
  | .renewed lease => .holding id lease now
  | .refused => .unheld
  | .failed _ => .unheld

section Step

variable [DecidableEq Worker] (policy : Worker → FixedLeasePolicy)

/-- The worker turns to something else. -/
def Fleet.assigned (s : Fleet Worker) (w : Worker) (duty : Duty Worker) (now : Nat)
    (table : QueueTable Worker) : Fleet Worker :=
  ⟨⟨now, table⟩, Function.update s.duties w duty⟩

/-- One action, no earlier than the last. -/
def Fleet.step (s : Fleet Worker) (a : Nat × FleetAction Worker) : Option (Fleet Worker) :=
  let now := a.1
  let table := s.queue.table
  if now < s.queue.clock then none
  else
    match a.2 with
    | .claim w locked =>
        match s.duties w with
        | .free =>
            match (policy w).claim w now locked table with
            | none => some { s with queue := ⟨now, table⟩ }
            | some ((task, lease), table) =>
                some (s.assigned w (.holding task.id lease now) now table)
        | _ => none
    | .wake w =>
        match s.duties w with
        | .holding id lease _ =>
            let round := (policy w).beat w id lease now table
            some (s.assigned w (.after id lease now round.1) now round.2)
        | _ => none
    | .release w =>
        match s.duties w with
        | .holding id _ _ => some (s.assigned w .free now (table.release w id).2)
        | _ => none
    | .leave w =>
        match s.duties w with
        | .free => none
        | _ => some (s.assigned w .free now table)
    | .enqueue runId runAfter =>
        some { s with queue := ⟨now, table.enqueue runId (runAfter.getD now)⟩ }
    | .finishOutstanding runId =>
        some { s with queue := ⟨now, table.finishOutstanding runId⟩ }

/-- An empty queue, and nobody at work. -/
def Fleet.start : Fleet Worker := ⟨Queue.start, fun _ => .free⟩

/-- Until it releases the task, less than a TTL has gone by since the worker woke last, or
claimed it; and where it wakes, an interval has. -/
def Punctual (w : Worker) (s : Fleet Worker) (a : Nat × FleetAction Worker) : Prop :=
  ∀ id lease woken, s.duties w = .holding id lease woken →
    (a.2 ≠ .release w → a.1 < woken + (policy w).ttl) ∧
      (a.2 = .wake w → woken + (policy w).interval ≤ a.1)

instance (w : Worker) (s : Fleet Worker) (a : Nat × FleetAction Worker) :
    Decidable (Punctual policy w s a) :=
  match h : s.duties w with
  | .free => isTrue fun _ _ _ hholding => by simp [h] at hholding
  | .unheld => isTrue fun _ _ _ hholding => by simp [h] at hholding
  | .holding _ _ woken =>
      decidable_of_iff
        ((a.2 ≠ .release w → a.1 < woken + (policy w).ttl) ∧
          (a.2 = .wake w → woken + (policy w).interval ≤ a.1))
        (by simp [Punctual, h])

/-- The heartbeat does what it is for, and no other worker gets the task. -/
structure Undisturbed (w : Worker) (s : Fleet Worker) (a : Nat × FleetAction Worker) : Prop where
  renews : ∀ id lease woken, s.duties w = .holding id lease woken → a.2 = .wake w →
    (policy w).shouldExtend lease a.1 = true ∧
      (∃ renewed, lease.extendedTo ((policy w).leaseFor a.1) = .ok renewed) ∧
      ((∃ t ∈ s.queue.table, t.id = id ∧ t.outstanding = true) →
        (s.queue.table.extend w id ((policy w).leaseFor a.1)).1 = true)
  keeps : ∀ id lease woken, s.duties w = .holding id lease woken →
    ∀ q locked task lease' table, q ≠ w → a.2 = .claim q locked →
      (policy q).claim q a.1 locked s.queue.table = some ((task, lease'), table) → task.id ≠ id

end Step

/-! ### What an action does -/

section Moves

variable [DecidableEq Worker] {policy : Worker → FixedLeasePolicy} {s s' : Fleet Worker}
  {a : Nat × FleetAction Worker}

@[simp] theorem Fleet.assigned_self {w : Worker} {duty : Duty Worker} {now : Nat}
    {table : QueueTable Worker} : (s.assigned w duty now table).duties w = duty :=
  Function.update_self ..

theorem Fleet.assigned_ne {w q : Worker} {duty : Duty Worker} {now : Nat}
    {table : QueueTable Worker} (h : q ≠ w) : (s.assigned w duty now table).duties q = s.duties q :=
  Function.update_of_ne h ..

/-- Everything an action can do. -/
inductive FleetMove (policy : Worker → FixedLeasePolicy) (s : Fleet Worker) :
    Nat × FleetAction Worker → Fleet Worker → Prop
  | enqueue (now runId : Nat) (runAfter : Option Nat) (hclock : s.queue.clock ≤ now) :
      FleetMove policy s (now, .enqueue runId runAfter)
        { s with queue := ⟨now, s.queue.table.enqueue runId (runAfter.getD now)⟩ }
  | finishOutstanding (now runId : Nat) (hclock : s.queue.clock ≤ now) :
      FleetMove policy s (now, .finishOutstanding runId)
        { s with queue := ⟨now, s.queue.table.finishOutstanding runId⟩ }
  /-- There was no task to claim. -/
  | nothing (now : Nat) (w : Worker) (locked : List Nat) (hclock : s.queue.clock ≤ now) :
      FleetMove policy s (now, .claim w locked) { s with queue := ⟨now, s.queue.table⟩ }
  | claimed (now : Nat) (w : Worker) (locked : List Nat) (task : QueueTask Worker)
      (table : QueueTable Worker) (hclock : s.queue.clock ≤ now)
      (hclaim : s.queue.table.claim w now (policy w).ttl locked = some (task, table)) :
      FleetMove policy s (now, .claim w locked)
        (s.assigned w (.holding task.id ⟨w, now + (policy w).ttl⟩ now) now table)
  | slept (now : Nat) (w : Worker) (id : Nat) (lease : Lease Worker) (woken : Nat)
      (hclock : s.queue.clock ≤ now) (hduty : s.duties w = .holding id lease woken)
      (hslept : (policy w).shouldExtend lease now = false) :
      FleetMove policy s (now, .wake w) (s.assigned w (.holding id lease now) now s.queue.table)
  /-- The wake asked for a renewal, and was told whether it applied. -/
  | asked (now : Nat) (w : Worker) (id : Nat) (lease : Lease Worker) (woken : Nat)
      (hclock : s.queue.clock ≤ now) (hduty : s.duties w = .holding id lease woken)
      (hextend : (policy w).shouldExtend lease now = true) :
      FleetMove policy s (now, .wake w)
        (s.assigned w
          (if (s.queue.table.extend w id ((policy w).leaseFor now)).1 then
              .holding id ⟨lease.owner, (policy w).leaseFor now⟩ now
            else .unheld)
          now (s.queue.table.extend w id ((policy w).leaseFor now)).2)
  | released (now : Nat) (w : Worker) (id : Nat) (lease : Lease Worker) (woken : Nat)
      (hclock : s.queue.clock ≤ now) (hduty : s.duties w = .holding id lease woken) :
      FleetMove policy s (now, .release w)
        (s.assigned w .free now (s.queue.table.release w id).2)
  | left (now : Nat) (w : Worker) (hclock : s.queue.clock ≤ now) :
      FleetMove policy s (now, .leave w) (s.assigned w .free now s.queue.table)

theorem fleet_moves (hstep : s.step policy a = some s') : FleetMove policy s a s' := by
  obtain ⟨now, act⟩ := a
  unfold Fleet.step at hstep
  dsimp only at hstep
  split at hstep
  · simp at hstep
  rename_i hclock
  rw [Nat.not_lt] at hclock
  cases act with
  | enqueue runId runAfter =>
      obtain rfl := Option.some.inj hstep
      exact .enqueue now runId runAfter hclock
  | finishOutstanding runId =>
      obtain rfl := Option.some.inj hstep
      exact .finishOutstanding now runId hclock
  | claim w locked =>
      dsimp only at hstep
      split at hstep
      · split at hstep
        · obtain rfl := Option.some.inj hstep
          exact .nothing now w locked hclock
        · rename_i task lease table hclaim
          obtain rfl := Option.some.inj hstep
          obtain ⟨rfl, hclaimed⟩ := FixedLeasePolicy.claim_some hclaim
          exact .claimed now w locked task table hclock hclaimed
      · simp at hstep
  | wake w =>
      dsimp only at hstep
      split at hstep
      · rename_i id lease woken hduty
        obtain rfl := Option.some.inj hstep
        by_cases hextend : (policy w).shouldExtend lease now = true
        · have hmove := FleetMove.asked now w id lease woken hclock hduty hextend
          rw [FixedLeasePolicy.beat_asks hextend]
          cases happlied : (s.queue.table.extend w id ((policy w).leaseFor now)).1 with
          | false =>
              rw [happlied] at hmove
              exact hmove
          | true =>
              rw [happlied] at hmove
              exact hmove
        · rw [Bool.not_eq_true] at hextend
          rw [FixedLeasePolicy.beat_slept hextend]
          exact .slept now w id lease woken hclock hduty hextend
      · simp at hstep
  | release w =>
      dsimp only at hstep
      split at hstep
      · rename_i id lease woken hduty
        obtain rfl := Option.some.inj hstep
        exact .released now w id lease woken hclock hduty
      · simp at hstep
  | leave w =>
      dsimp only at hstep
      split at hstep
      · simp at hstep
      · obtain rfl := Option.some.inj hstep
        exact .left now w hclock

end Moves

/-! ### The row of a held task -/

/-- The rows of the task are this worker's until then, or done with. -/
def HeldUntil (w : Worker) (id expiresAt : Nat) (q : QueueTable Worker) : Prop :=
  ∀ t ∈ q, t.id = id → t.status = .done ∨
    t.status = .leased ∧ t.lockedBy = some w ∧ t.leaseExpiresAt = some expiresAt

section Rows

variable {w q : Worker} {id id' expiresAt expiresAt' now : Nat}
  {table table' : QueueTable Worker} {task : QueueTask Worker} {locked : List Nat}
  {extra : QueueTask Worker → Bool} {f : QueueTask Worker → QueueTask Worker}

theorem HeldUntil.map (h : HeldUntil w id expiresAt table) (hid : ∀ t, (f t).id = t.id)
    (hf : ∀ t ∈ table, t.id = id → f t = t ∨ (f t).status = .done) :
    HeldUntil w id expiresAt (table.map f) := by
  intro t ht htid
  obtain ⟨u, hu, rfl⟩ := List.mem_map.mp ht
  rw [hid] at htid
  rcases hf u hu htid with hsame | hdone
  · rw [hsame]
    exact h u hu htid
  · exact Or.inl hdone

theorem HeldUntil.enqueue (h : HeldUntil w id expiresAt table) (hlt : id < table.length)
    (runId runAfter : Nat) : HeldUntil w id expiresAt (table.enqueue runId runAfter) := by
  unfold QueueTable.enqueue
  split
  · exact h
  · intro t ht htid
    rcases List.mem_append.mp ht with hold | hnew
    · exact h t hold htid
    · rw [List.mem_singleton.mp hnew] at htid
      dsimp only at htid
      omega

theorem HeldUntil.finishOutstanding (h : HeldUntil w id expiresAt table) (runId : Nat) :
    HeldUntil w id expiresAt (table.finishOutstanding runId) := by
  refine h.map (fun t => ?_) fun t _ _ => ?_
  · split <;> rfl
  · split
    · exact Or.inr rfl
    · exact Or.inl rfl

/-- Nobody claims a task that is held for longer. -/
theorem HeldUntil.not_claimed (h : HeldUntil w id expiresAt table) (hlt : now < expiresAt)
    (hclaim : table.claimable now locked = some task) : task.id ≠ id := by
  intro hid
  obtain ⟨hmem, hqueued | ⟨hleased, expires, hexpires, hle⟩⟩ := claimable_cases hclaim
  · rcases h task hmem hid with hdone | ⟨hleased, -⟩
    · simp [hqueued] at hdone
    · simp [hqueued] at hleased
  · rcases h task hmem hid with hdone | ⟨-, -, hsame⟩
    · simp [hleased] at hdone
    · rw [hexpires, Option.some.injEq] at hsame
      omega

/-- The claim of another task. -/
theorem HeldUntil.claim_ne (h : HeldUntil w id expiresAt table) {leaseSeconds : Nat}
    (hclaim : table.claim q now leaseSeconds locked = some (task, table')) (hne : task.id ≠ id) :
    HeldUntil w id expiresAt table' := by
  obtain ⟨found, hfound, hpair⟩ := Option.map_eq_some_iff.mp hclaim
  obtain ⟨rfl, rfl⟩ := Prod.mk.inj hpair
  refine h.map (fun t => ?_) fun t _ htid => Or.inl ?_
  · split <;> rfl
  · rw [if_neg]
    simp [htid, Ne.symm hne]

/-- What a claim takes is held by who claimed it, for as long as it asked. -/
theorem claim_held {leaseSeconds : Nat}
    (hclaim : table.claim w now leaseSeconds locked = some (task, table')) :
    HeldUntil w task.id (now + leaseSeconds) table' := by
  obtain ⟨found, hfound, hpair⟩ := Option.map_eq_some_iff.mp hclaim
  obtain ⟨rfl, rfl⟩ := Prod.mk.inj hpair
  intro t ht htid
  obtain ⟨u, hu, rfl⟩ := List.mem_map.mp ht
  by_cases hout : u.outstanding = true
  · have huid : u.id = found.id := by
      split at htid <;> exact htid
    rw [if_pos (by simp [huid, hout])]
    exact Or.inr ⟨rfl, rfl, rfl⟩
  · rw [if_neg (by simp [hout])]
    left
    cases hst : u.status <;> simp [QueueTask.outstanding, hst] at hout ⊢

variable [DecidableEq Worker]

/-- What another worker writes to a task it owns is not this one. -/
theorem HeldUntil.own_other (h : HeldUntil w id expiresAt table) (hne : q ≠ w)
    (hid : ∀ t, (f t).id = t.id) :
    HeldUntil w id expiresAt (QueueTable.own q id' extra f table).2 := by
  refine h.map (fun t => ?_) fun t ht htid => Or.inl ?_
  · split
    · exact hid t
    · rfl
  · rw [if_neg]
    intro howns
    simp only [QueueTable.owns, Bool.and_eq_true, decide_eq_true_eq] at howns
    rcases h t ht htid with hdone | ⟨-, howner, -⟩
    · simp [howns.1.1.2] at hdone
    · rw [howns.1.2, Option.some.injEq] at howner
      exact hne howner

/-- The owner extends the lease. -/
theorem HeldUntil.extend (h : HeldUntil w id expiresAt table) (hle : expiresAt ≤ expiresAt') :
    HeldUntil w id expiresAt' (table.extend w id expiresAt').2 := by
  intro t ht htid
  obtain ⟨u, hu, rfl⟩ := List.mem_map.mp ht
  have huid : u.id = id := by
    split at htid <;> exact htid
  rcases h u hu huid with hdone | ⟨hleased, howner, hexpires⟩
  · rw [if_neg (by simp [QueueTable.owns, hdone])]
    exact Or.inl hdone
  · rw [if_pos (by simp [QueueTable.owns, huid, hleased, howner, hexpires, hle])]
    exact Or.inr ⟨hleased, howner, rfl⟩

/-- While the task is open, its owner can extend it. -/
theorem HeldUntil.extend_applies (h : HeldUntil w id expiresAt table)
    (hle : expiresAt ≤ expiresAt') (hopen : ∃ t ∈ table, t.id = id ∧ t.outstanding = true) :
    (table.extend w id expiresAt').1 = true := by
  obtain ⟨t, ht, htid, hout⟩ := hopen
  refine List.any_eq_true.mpr ⟨t, ht, ?_⟩
  rcases h t ht htid with hdone | ⟨hleased, howner, hexpires⟩
  · simp [QueueTask.outstanding, hdone] at hout
  · simp [QueueTable.owns, htid, hleased, howner, hexpires, hle]

end Rows

/-- The ids of the rows are below the next one. -/
def IdsBelow (q : QueueTable Worker) : Prop := ∀ t ∈ q, t.id < q.length

section Ids

variable {table table' : QueueTable Worker}

/-- The table is rewritten in place. -/
def Rewritten (table table' : QueueTable Worker) : Prop :=
  ∃ f, QueueTable.Updates f ∧ table' = table.map f

theorem Rewritten.length (h : Rewritten table table') : table'.length = table.length := by
  obtain ⟨f, -, rfl⟩ := h
  exact List.length_map ..

theorem IdsBelow.rewritten (h : IdsBelow table) (hrewritten : Rewritten table table') :
    IdsBelow table' := by
  obtain ⟨f, hf, rfl⟩ := hrewritten
  intro t ht
  obtain ⟨u, hu, rfl⟩ := List.mem_map.mp ht
  rw [(hf u).1, List.length_map]
  exact h u hu

theorem IdsBelow.enqueue (h : IdsBelow table) (runId runAfter : Nat) :
    IdsBelow (table.enqueue runId runAfter) := by
  unfold QueueTable.enqueue
  split
  · exact h
  · intro t ht
    rw [List.length_append, List.length_singleton]
    rcases List.mem_append.mp ht with hold | hnew
    · have hlt := h t hold
      omega
    · rw [List.mem_singleton.mp hnew]
      dsimp only
      omega

theorem length_le_enqueue (runId runAfter : Nat) :
    table.length ≤ (table.enqueue runId runAfter).length := by
  unfold QueueTable.enqueue
  split <;> simp

theorem finish_rewritten (runId : Nat) : Rewritten table (table.finishOutstanding runId) :=
  ⟨_, QueueTable.finish_updates, rfl⟩

theorem claim_rewritten {w : Worker} {now leaseSeconds : Nat} {locked : List Nat}
    {task : QueueTask Worker} (h : table.claim w now leaseSeconds locked = some (task, table')) :
    task ∈ table ∧ Rewritten table table' := by
  obtain ⟨hmem, f, hf, -, htable⟩ := QueueTable.claim_cases h
  exact ⟨hmem, f, hf, htable⟩

variable [DecidableEq Worker] (w : Worker) (id expiresAt : Nat)

theorem extend_rewritten : Rewritten table (table.extend w id expiresAt).2 := by
  refine ⟨_, ?_, rfl⟩
  exact QueueTable.own_updates fun _ => ⟨rfl, rfl⟩

theorem release_rewritten : Rewritten table (table.release w id).2 := by
  refine ⟨_, ?_, rfl⟩
  exact QueueTable.own_updates fun _ => ⟨rfl, rfl⟩

end Ids

/-! ### A worker on its own task -/

section Guard

variable (policy : Worker → FixedLeasePolicy)

/-- The worker's copy of the lease and the row say the same: a TTL from when it woke last. -/
structure Guarded (w : Worker) (s : Fleet Worker) (id : Nat) (lease : Lease Worker)
    (woken : Nat) : Prop where
  copy : lease = ⟨w, woken + (policy w).ttl⟩
  woken_le : woken ≤ s.queue.clock
  id_lt : id < s.queue.table.length
  row : HeldUntil w id (woken + (policy w).ttl) s.queue.table

/-- Where the worker has a task, its copy of the lease and the row agree. -/
structure FleetOk (w : Worker) (s : Fleet Worker) : Prop where
  ids : IdsBelow s.queue.table
  guarded : ∀ id lease woken, s.duties w = .holding id lease woken →
    Guarded policy w s id lease woken

variable {policy} {w : Worker} {s s' : Fleet Worker} {a : Nat × FleetAction Worker}

/-- What happens beside the worker. -/
theorem FleetOk.beside (h : FleetOk policy w s) (hduty : s'.duties w = s.duties w)
    (hclock : s.queue.clock ≤ s'.queue.clock)
    (hlength : s.queue.table.length ≤ s'.queue.table.length) (hids : IdsBelow s'.queue.table)
    (hrow : ∀ id lease woken, s.duties w = .holding id lease woken →
      HeldUntil w id (woken + (policy w).ttl) s.queue.table →
        HeldUntil w id (woken + (policy w).ttl) s'.queue.table) :
    FleetOk policy w s' := by
  refine ⟨hids, fun id lease woken hholding => ?_⟩
  rw [hduty] at hholding
  have hguarded := h.guarded id lease woken hholding
  have hwoken := hguarded.woken_le
  have hid := hguarded.id_lt
  exact ⟨hguarded.copy, by omega, by omega, hrow id lease woken hholding hguarded.row⟩

/-- The worker itself turns to something that is no task. -/
theorem FleetOk.idle (hids : IdsBelow s'.queue.table)
    (hduty : ∀ id lease woken, s'.duties w ≠ .holding id lease woken) : FleetOk policy w s' :=
  ⟨hids, fun id lease woken hholding => absurd hholding (hduty id lease woken)⟩

/-- A punctual wake finds that it is time, and the lease it leaves ends a TTL later. -/
theorem Guarded.punctual {id woken : Nat} {lease : Lease Worker}
    (h : Guarded policy w s id lease woken) (hle : woken + (policy w).interval ≤ a.1) :
    (policy w).shouldExtend lease a.1 = true := by
  rw [FixedLeasePolicy.shouldExtend_iff, h.copy]
  dsimp only
  omega

variable [DecidableEq Worker]

theorem FleetOk.undisturbed (h : FleetOk policy w s) (hpunctual : Punctual policy w s a) :
    Undisturbed policy w s a := by
  refine ⟨fun id lease woken hholding hwake => ?_,
    fun id lease woken hholding q locked task lease' table hne hact hclaim hid => ?_⟩
  · have hguarded := h.guarded id lease woken hholding
    have hle := (hpunctual id lease woken hholding).2 hwake
    have hextend := hguarded.punctual hle
    refine ⟨hextend, ⟨_, FixedLeasePolicy.extendedTo_leaseFor hextend⟩, fun hopen => ?_⟩
    refine hguarded.row.extend_applies ?_ hopen
    unfold FixedLeasePolicy.leaseFor
    omega
  · have hguarded := h.guarded id lease woken hholding
    have hlt := (hpunctual id lease woken hholding).1 (by simp [hact])
    obtain ⟨claimed, hclaimed, hpair⟩ := Option.map_eq_some_iff.mp hclaim
    obtain ⟨found, hfound, rfl⟩ := Option.map_eq_some_iff.mp hclaimed
    obtain ⟨hpair, -⟩ := Prod.mk.inj hpair
    obtain ⟨rfl, -⟩ := Prod.mk.inj hpair
    exact hguarded.row.not_claimed hlt hfound hid

/-- Another worker turns to something else, and the table is rewritten in place. -/
theorem FleetOk.assigned_other (h : FleetOk policy w s) {q : Worker} (hne : q ≠ w)
    (duty : Duty Worker) {now : Nat} (hclock : s.queue.clock ≤ now) {table : QueueTable Worker}
    (hrewritten : Rewritten s.queue.table table)
    (hrow : ∀ id lease woken, s.duties w = .holding id lease woken →
      HeldUntil w id (woken + (policy w).ttl) s.queue.table →
        HeldUntil w id (woken + (policy w).ttl) table) :
    FleetOk policy w (s.assigned q duty now table) :=
  h.beside (Fleet.assigned_ne (Ne.symm hne)) hclock hrewritten.length.ge
    (h.ids.rewritten hrewritten) hrow

/-- What one action keeps. -/
theorem FleetOk.step (h : FleetOk policy w s) (hpunctual : Punctual policy w s a)
    (hstep : s.step policy a = some s') : FleetOk policy w s' := by
  cases fleet_moves hstep with
  | enqueue now runId runAfter hclock =>
      refine h.beside rfl hclock (length_le_enqueue ..) (h.ids.enqueue _ _) ?_
      intro id lease woken hholding hrow
      exact hrow.enqueue (h.guarded id lease woken hholding).id_lt _ _
  | finishOutstanding now runId hclock =>
      refine h.beside rfl hclock (finish_rewritten runId).length.ge
        (h.ids.rewritten (finish_rewritten runId)) ?_
      exact fun _ _ _ _ hrow => hrow.finishOutstanding runId
  | nothing now q locked hclock =>
      exact h.beside rfl hclock le_rfl h.ids fun _ _ _ _ hrow => hrow
  | claimed now q locked task table hclock hclaim =>
      obtain ⟨hmem, hrewritten⟩ := claim_rewritten hclaim
      by_cases hq : q = w
      · subst hq
        refine ⟨h.ids.rewritten hrewritten, fun id lease woken hholding => ?_⟩
        rw [Fleet.assigned_self] at hholding
        obtain ⟨rfl, rfl, rfl⟩ := Duty.holding.inj hholding
        refine ⟨rfl, le_rfl, ?_, claim_held hclaim⟩
        exact hrewritten.length ▸ h.ids task hmem
      · refine h.assigned_other hq _ hclock hrewritten fun id lease woken hholding hrow => ?_
        have hlt := (hpunctual id lease woken hholding).1 (by simp)
        obtain ⟨found, hfound, hpair⟩ := Option.map_eq_some_iff.mp hclaim
        obtain ⟨rfl, -⟩ := Prod.mk.inj hpair
        exact hrow.claim_ne hclaim (hrow.not_claimed hlt hfound)
  | slept now q id lease woken hclock hduty hslept =>
      by_cases hq : q = w
      · subst hq
        -- A punctual wake is never too early.
        have hle := (hpunctual id lease woken hduty).2 rfl
        have hextend := (h.guarded id lease woken hduty).punctual hle
        simp [hslept] at hextend
      · exact h.beside (Fleet.assigned_ne (Ne.symm hq)) hclock le_rfl h.ids
          fun _ _ _ _ hrow => hrow
  | asked now q id lease woken hclock hduty hextend =>
      have hrewritten : Rewritten s.queue.table _ :=
        extend_rewritten q id ((policy q).leaseFor now)
      by_cases hq : q = w
      · subst hq
        have hguarded := h.guarded id lease woken hduty
        have hle := (hpunctual id lease woken hduty).2 rfl
        refine ⟨h.ids.rewritten hrewritten, fun id' lease' woken' hholding => ?_⟩
        rw [Fleet.assigned_self] at hholding
        split at hholding
        · obtain ⟨rfl, rfl, rfl⟩ := Duty.holding.inj hholding
          refine ⟨?_, le_rfl, hrewritten.length ▸ hguarded.id_lt, hguarded.row.extend ?_⟩
          · rw [hguarded.copy]
            rfl
          · dsimp only at hle
            omega
        · simp at hholding
      · refine h.assigned_other hq _ hclock hrewritten fun _ _ _ _ hrow => ?_
        exact hrow.own_other hq fun _ => rfl
  | released now q id lease woken hclock hduty =>
      have hrewritten : Rewritten s.queue.table _ := release_rewritten q id
      by_cases hq : q = w
      · subst hq
        exact .idle (h.ids.rewritten hrewritten) fun _ _ _ hholding => by simp at hholding
      · refine h.assigned_other hq _ hclock hrewritten fun _ _ _ _ hrow => ?_
        exact hrow.own_other hq fun _ => rfl
  | left now q hclock =>
      by_cases hq : q = w
      · subst hq
        exact .idle h.ids fun _ _ _ hholding => by simp at hholding
      · exact h.beside (Fleet.assigned_ne (Ne.symm hq)) hclock le_rfl h.ids
          fun _ _ _ _ hrow => hrow

/--
**A punctual worker never loses its task.**
Whatever policies the workers have, and whatever the others do: if the worker is punctual,
each of its wakes finds that the lease is to be renewed and can be, the queue renews it
while the task is open, and no other worker claims the task until it is released.
-/
theorem punctual_keeps_task (policy : Worker → FixedLeasePolicy) (w : Worker)
    (tr : List (Nat × FleetAction Worker)) (s : Fleet Worker)
    (hrun : Trace.run (Fleet.step policy) Fleet.start tr = some s)
    (hpunctual : Trace.Along (Fleet.step policy) (Punctual policy w) Fleet.start tr) :
    Trace.Along (Fleet.step policy) (Undisturbed policy w) Fleet.start tr := by
  have hstart : FleetOk policy w Fleet.start := by
    refine ⟨fun t ht => by simp [Fleet.start, Queue.start] at ht, fun id lease woken h => ?_⟩
    simp [Fleet.start] at h
  refine (Trace.along_of_invariant (I := FleetOk policy w) hstart ?_ ?_ hrun hpunctual).2
  · intro tr s a s' _ hok ha _
    exact hok.undisturbed ha
  · intro tr s a s' _ hok ha hstep
    exact hok.step ha hstep

/-- A lease of a minute, renewed every twenty seconds. -/
def minuteLease : FixedLeasePolicy := ⟨60, 20, by decide, by decide⟩

/-- The worker wakes at the last moment each time, and another asks right after. -/
def lastMoment : List (Nat × FleetAction Bool) :=
  [(0, .enqueue 7 none), (0, .claim false []), (60 * second - 1, .wake false),
    (60 * second, .claim true []), (120 * second - 2, .wake false),
    (120 * second - 1, .claim true []), (150 * second, .release false),
    (150 * second, .claim true [])]

theorem lastMoment_keeps_task :
    Trace.Along (Fleet.step fun _ => minuteLease) (Punctual (fun _ => minuteLease) false)
        Fleet.start lastMoment ∧
      Trace.Along (Fleet.step fun _ => minuteLease) (Undisturbed (fun _ => minuteLease) false)
        Fleet.start lastMoment := by
  have hpunctual : Trace.Along (Fleet.step fun _ => minuteLease)
      (Punctual (fun _ => minuteLease) false) Fleet.start lastMoment := by
    decide +kernel
  obtain ⟨s, hrun⟩ : ∃ s, Trace.run (Fleet.step fun _ => minuteLease) Fleet.start lastMoment =
      some s :=
    ⟨_, rfl⟩
  exact ⟨hpunctual, punctual_keeps_task (fun _ => minuteLease) false lastMoment s hrun hpunctual⟩

end Guard

end Orqent
