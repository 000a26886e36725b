/-
The queue as a lease protocol.

Any number of workers and use cases call the queue in any order, under one clock that
never goes back.  What the calls came to is noted: a lease granted, a lease extended, a
task given up or closed.  `held` reads off the notes alone who holds a task, and until
when.

`LeaseOk` ties the rows to the notes.  Every call that writes is an update row by row,
so `LeaseOk.update` is the step, once it is said what the update and its notes do to one
row.
-/
import Orqent.Lib.Trace
import Orqent.Queue.Order

namespace Orqent

variable {Worker : Type}

/-- A call on the queue. -/
inductive QueueCall (Worker : Type)
  /-- `runAfter` is the moment of the call where none is given. -/
  | enqueue (runId : Nat) (runAfter : Option Nat)
  | finishOutstanding (runId : Nat)
  /-- `locked` are the rows that other calls hold at the time. -/
  | claim (worker : Worker) (leaseSeconds : Nat) (locked : List Nat)
  | extend (worker : Worker) (id expiresAt : Nat)
  | release (worker : Worker) (id : Nat)
  | requeue (worker : Worker) (id runAfter : Nat)

/-- The table, and the latest moment it was called at. -/
structure Queue (Worker : Type) where
  clock : Nat
  table : QueueTable Worker

/-- What a call came to. -/
inductive QueueNote (Worker : Type)
  | granted (id : Nat) (worker : Worker) (expiresAt : Nat)
  | extended (id : Nat) (expiresAt : Nat)
  /-- Released, requeued, or closed from the run's side. -/
  | closed (id : Nat)

namespace QueueNote

/-- The task the note is about. -/
def id : QueueNote Worker → Nat
  | granted id _ _ => id
  | extended id _ => id
  | closed id => id

/-- Whether a claim of this task was granted. -/
def grants (id : Nat) : QueueNote Worker → Bool
  | granted k _ _ => k = id
  | _ => false

/-- Who holds a task after this, and until when. -/
def holder : QueueNote Worker → Option (Worker × Nat) → Option (Worker × Nat)
  | granted _ worker expiresAt, _ => some (worker, expiresAt)
  | extended _ expiresAt, held => held.map fun h => (h.1, expiresAt)
  | closed _, _ => none

end QueueNote

/-- Who holds the task: whom it was granted to last, with the expiry granted or extended
last, unless it was closed since. -/
def held (notes : List (QueueNote Worker)) (id : Nat) : Option (Worker × Nat) :=
  (notes.filter fun n => n.id = id).foldl (fun h n => n.holder h) none

/-- The number of claims of the task that were granted. -/
def claims (notes : List (QueueNote Worker)) (id : Nat) : Nat := notes.countP (·.grants id)

section Held

variable {notes : List (QueueNote Worker)} {n : QueueNote Worker} {id : Nat}

theorem held_snoc_self (h : n.id = id) : held (notes ++ [n]) id = n.holder (held notes id) := by
  unfold held
  rw [List.filter_append, List.foldl_append]
  simp [h]

theorem held_append_of_ne {ns : List (QueueNote Worker)} (h : ∀ n ∈ ns, n.id ≠ id) :
    held (notes ++ ns) id = held notes id := by
  unfold held
  have hnone : ns.filter (fun n => n.id = id) = [] :=
    List.filter_eq_nil_iff.mpr fun n hn => by simpa using h n hn
  rw [List.filter_append, hnone, List.append_nil]

theorem claims_append_of_ne {ns : List (QueueNote Worker)} (h : ∀ n ∈ ns, n.id ≠ id) :
    claims (notes ++ ns) id = claims notes id := by
  unfold claims
  rw [List.countP_append, Nat.add_eq_left, List.countP_eq_zero]
  intro n hn hgrants
  cases n with
  | granted k worker expiresAt =>
    exact h _ hn (by simpa [QueueNote.grants, QueueNote.id] using hgrants)
  | extended k expiresAt => simp [QueueNote.grants] at hgrants
  | closed k => simp [QueueNote.grants] at hgrants

/-- A task that is closed is held by nobody. -/
theorem held_append_closed {ids : List Nat} (h : id ∈ ids) :
    held (notes ++ ids.map QueueNote.closed) id = none := by
  induction ids using List.reverseRecOn with
  | nil => simp at h
  | append_singleton ids k ih =>
      rw [List.map_append, List.map_singleton, ← List.append_assoc]
      by_cases hk : k = id
      · rw [held_snoc_self (by exact hk)]
        rfl
      · rw [held_append_of_ne (by simpa [QueueNote.id] using hk)]
        exact ih (by simpa [Ne.symm hk] using h)

theorem claims_append_closed {ids : List Nat} :
    claims (notes ++ ids.map QueueNote.closed) id = claims notes id := by
  unfold claims
  rw [List.countP_append, Nat.add_eq_left, List.countP_eq_zero]
  intro n hn
  obtain ⟨k, -, rfl⟩ := List.mem_map.mp hn
  simp [QueueNote.grants]

end Held

/-! ### What the calls keep -/

/-- A row says what the notes say. -/
structure RowOk (notes : List (QueueNote Worker)) (t : QueueTask Worker) : Prop where
  queued : t.status = .queued → t.lockedBy = none ∧ t.lockedAt = none ∧ t.leaseExpiresAt = none
  leased : t.status = .leased → t.lockedAt.isSome = true ∧ ∃ worker expiresAt,
    t.lockedBy = some worker ∧ t.leaseExpiresAt = some expiresAt ∧
      held notes t.id = some (worker, expiresAt)
  unheld : t.status ≠ .leased → held notes t.id = none
  attempts : t.attempts = claims notes t.id

/-- The rows and the notes agree. -/
structure LeaseOk (notes : List (QueueNote Worker)) (q : QueueTable Worker) : Prop where
  ids : q.map QueueTask.id = List.range q.length
  once : ∀ runId, q.pending runId ≤ 1
  rows : ∀ t ∈ q, RowOk notes t
  fresh : ∀ id, q.length ≤ id → held notes id = none ∧ claims notes id = 0

section LeaseOk

variable {notes ns : List (QueueNote Worker)} {q : QueueTable Worker} {t u : QueueTask Worker}
  {f : QueueTask Worker → QueueTask Worker} {id : Nat}

theorem LeaseOk.id_lt (h : LeaseOk notes q) (ht : t ∈ q) : t.id < q.length := by
  have hmem := List.mem_map_of_mem (f := QueueTask.id) ht
  rw [h.ids] at hmem
  exact List.mem_range.mp hmem

/-- A task has one row. -/
theorem LeaseOk.row_unique (h : LeaseOk notes q) (ht : t ∈ q) (hu : u ∈ q) (hid : t.id = u.id) :
    t = u := by
  have hnodup : (q.map QueueTask.id).Nodup := h.ids ▸ List.nodup_range
  exact List.inj_on_of_nodup_map hnodup ht hu hid

/-- Notes about other tasks say nothing about this row. -/
theorem RowOk.append_of_ne (h : RowOk notes t) (hne : ∀ n ∈ ns, n.id ≠ t.id) :
    RowOk (notes ++ ns) t where
  queued := h.queued
  leased := by
    rw [held_append_of_ne hne]
    exact h.leased
  unheld := by
    rw [held_append_of_ne hne]
    exact h.unheld
  attempts := by
    rw [claims_append_of_ne hne]
    exact h.attempts

/-- A row that is given up or closed. -/
theorem RowOk.close (h : RowOk notes t) {ids : List Nat} (hid : t.id ∈ ids)
    (hkeep : u.id = t.id ∧ u.attempts = t.attempts) (hleft : u.status ≠ .leased)
    (hqueued : u.status = .queued →
      u.lockedBy = none ∧ u.lockedAt = none ∧ u.leaseExpiresAt = none) :
    RowOk (notes ++ ids.map QueueNote.closed) u where
  queued := hqueued
  leased hc := absurd hc hleft
  unheld _ := by
    rw [hkeep.1]
    exact held_append_closed hid
  attempts := by
    rw [hkeep.1, hkeep.2, claims_append_closed]
    exact h.attempts

theorem pendingKey_eq_some {runId : Nat} :
    t.pendingKey = some runId ↔ t.outstanding = true ∧ t.runId = runId := by
  unfold QueueTask.pendingKey
  split <;> simp_all

theorem pending_map_le (hf : ∀ t, (f t).runId = t.runId)
    (hout : ∀ t ∈ q, (f t).outstanding = true → t.outstanding = true) (runId : Nat) :
    QueueTable.pending runId (q.map f) ≤ q.pending runId := by
  rw [QueueTable.pending, QueueTable.pending, List.countP_map]
  refine List.countP_mono_left fun t ht hkey => decide_eq_true ?_
  obtain ⟨houtf, hrun⟩ := pendingKey_eq_some.mp (of_decide_eq_true hkey)
  exact pendingKey_eq_some.mpr ⟨hout t ht houtf, hf t ▸ hrun⟩

/--
**An update, row by row.**  What it takes to keep `LeaseOk`: no row changes its identity or
becomes outstanding, the notes are about rows that are there, and every row says what its
notes say.
-/
theorem LeaseOk.update (h : LeaseOk notes q) (hid : ∀ t, (f t).id = t.id)
    (hrun : ∀ t, (f t).runId = t.runId)
    (hout : ∀ t ∈ q, (f t).outstanding = true → t.outstanding = true)
    (hnotes : ∀ n ∈ ns, n.id < q.length)
    (hrows : ∀ t ∈ q, RowOk notes t → RowOk (notes ++ ns) (f t)) :
    LeaseOk (notes ++ ns) (q.map f) where
  ids := by
    rw [List.map_map, List.length_map, ← h.ids]
    exact List.map_congr_left fun t _ => hid t
  once runId := Nat.le_trans (pending_map_le hrun hout runId) (h.once runId)
  rows := by
    intro t ht
    obtain ⟨u, hu, rfl⟩ := List.mem_map.mp ht
    exact hrows u hu (h.rows u hu)
  fresh := by
    intro id hle
    rw [List.length_map] at hle
    have hne : ∀ n ∈ ns, n.id ≠ id :=
      fun n hn => Nat.ne_of_lt (Nat.lt_of_lt_of_le (hnotes n hn) hle)
    rw [held_append_of_ne hne, claims_append_of_ne hne]
    exact h.fresh id hle

theorem LeaseOk.enqueue (h : LeaseOk notes q) (runId runAfter : Nat) :
    LeaseOk notes (q.enqueue runId runAfter) := by
  unfold QueueTable.enqueue
  split
  · exact h
  · rename_i hfree
    obtain ⟨hheld, hclaims⟩ := h.fresh q.length le_rfl
    constructor
    · rw [List.map_append, h.ids, List.length_append, List.length_singleton, List.range_succ]
      rfl
    · intro run
      have hle := h.once run
      unfold QueueTable.pending at hle ⊢
      rw [List.countP_append]
      by_cases hrun : runId = run
      · subst hrun
        have hnone : q.countP (fun t => t.pendingKey = some runId) = 0 := by
          rw [List.countP_eq_zero]
          intro t ht hkey
          exact hfree (List.any_eq_true.mpr ⟨t, ht, hkey⟩)
        rw [hnone, Nat.zero_add]
        exact List.countP_le_length
      · simpa [QueueTask.pendingKey, hrun] using hle
    · intro t ht
      rcases List.mem_append.mp ht with ht | ht
      · exact h.rows t ht
      · rw [List.mem_singleton.mp ht]
        exact ⟨fun _ => ⟨rfl, rfl, rfl⟩, fun hc => by simp at hc, fun _ => hheld, hclaims.symm⟩
    · intro id hle
      rw [List.length_append] at hle
      exact h.fresh id (by omega)

theorem LeaseOk.finishOutstanding (h : LeaseOk notes q) (runId : Nat) :
    LeaseOk (notes ++ ((q.filter fun t => t.runId = runId && t.outstanding).map
      fun t => QueueNote.closed t.id)) (q.finishOutstanding runId) := by
  have hmap : ((q.filter fun t => t.runId = runId && t.outstanding).map
      fun t => (QueueNote.closed t.id : QueueNote Worker))
      = ((q.filter fun t => t.runId = runId && t.outstanding).map QueueTask.id).map
        QueueNote.closed := by
    rw [List.map_map]
    rfl
  rw [hmap]
  refine h.update (fun t => ?_) (fun t => ?_) (fun t _ hout => ?_) ?_ fun t ht hrow => ?_
  · split <;> rfl
  · split <;> rfl
  · split at hout
    · simp [QueueTask.outstanding] at hout
    · exact hout
  · intro n hn
    obtain ⟨id, hid, rfl⟩ := List.mem_map.mp hn
    obtain ⟨t, ht, rfl⟩ := List.mem_map.mp hid
    exact h.id_lt (List.mem_filter.mp ht).1
  · split
    · rename_i hmatch
      refine hrow.close (List.mem_map_of_mem (List.mem_filter.mpr ⟨ht, hmatch⟩)) ⟨rfl, rfl⟩ ?_ ?_
      · simp
      · simp
    · rename_i hmatch
      refine hrow.append_of_ne fun n hn hid => ?_
      obtain ⟨id, hmem, rfl⟩ := List.mem_map.mp hn
      obtain ⟨u, hu, rfl⟩ := List.mem_map.mp hmem
      obtain ⟨huq, humatch⟩ := List.mem_filter.mp hu
      exact hmatch (h.row_unique huq ht hid ▸ humatch)

/-- What a claim takes: a task that was queued, or one whose lease has run out. -/
theorem claimable_cases {now : Nat} {locked : List Nat} (h : q.claimable now locked = some t) :
    t ∈ q ∧ (t.status = .queued ∨
      t.status = .leased ∧ ∃ expiresAt, t.leaseExpiresAt = some expiresAt ∧ expiresAt ≤ now) := by
  rcases QueueTable.claimable_spec h with hdue | ⟨-, hexpired⟩
  · obtain ⟨hmem, hmatch, -⟩ := (QueueTable.eligible_spec hdue).1
    simp only [QueueTask.due, Bool.and_eq_true, decide_eq_true_eq] at hmatch
    exact ⟨hmem, Or.inl hmatch.1⟩
  · obtain ⟨hmem, hmatch, -⟩ := (QueueTable.eligible_spec hexpired).1
    simp only [QueueTask.expired, Bool.and_eq_true, decide_eq_true_eq, Option.any_eq_true] at hmatch
    obtain ⟨hleased, expiresAt, hexpires, hle⟩ := hmatch
    exact ⟨hmem, Or.inr ⟨hleased, expiresAt, hexpires, hle⟩⟩

theorem LeaseOk.claim (h : LeaseOk notes q) {worker : Worker} {now leaseSeconds : Nat}
    {locked : List Nat} {q' : QueueTable Worker}
    (hclaim : q.claim worker now leaseSeconds locked = some (t, q')) :
    LeaseOk (notes ++ [.granted t.id worker (now + leaseSeconds)]) q' := by
  obtain ⟨task, hfound, hpair⟩ := Option.map_eq_some_iff.mp hclaim
  obtain ⟨rfl, rfl⟩ := Prod.mk.inj hpair
  obtain ⟨hmem, hstatus⟩ := claimable_cases hfound
  have htaken : task.outstanding = true := by
    unfold QueueTask.outstanding
    rcases hstatus with hs | ⟨hs, -⟩ <;> simp [hs]
  refine h.update (fun u => ?_) (fun u => ?_) (fun u _ hout => ?_) ?_ fun u hu hrow => ?_
  · split <;> rfl
  · split <;> rfl
  · split at hout
    · rename_i hmatch
      exact (Bool.and_eq_true_iff.mp hmatch).2
    · exact hout
  · intro n hn
    obtain rfl := List.mem_singleton.mp hn
    exact h.id_lt hmem
  · by_cases hid : u.id = task.id
    · obtain rfl := h.row_unique hu hmem hid
      rw [if_pos (by simp [htaken])]
      refine ⟨fun hc => by simp at hc, fun _ => ⟨rfl, worker, now + leaseSeconds, rfl, rfl, ?_⟩,
        fun hc => absurd rfl hc, ?_⟩
      · exact held_snoc_self rfl
      · have hattempts := hrow.attempts
        unfold claims at hattempts ⊢
        rw [List.countP_append, ← hattempts]
        simp [QueueNote.grants]
    · rw [if_neg (by simp [hid])]
      exact hrow.append_of_ne fun n hn => by
        rw [List.mem_singleton.mp hn]
        exact Ne.symm hid

variable [DecidableEq Worker] {worker : Worker} {extra : QueueTask Worker → Bool}

/-- A refused update changes no row. -/
theorem own_refused (h : (QueueTable.own worker id extra f q).1 = false) :
    (QueueTable.own worker id extra f q).2 = q := by
  show q.map _ = q
  refine (List.map_congr_left fun t ht => ?_).trans (List.map_id q)
  rw [if_neg fun hc => Bool.false_ne_true (h.symm.trans (List.any_eq_true.mpr ⟨t, ht, hc⟩))]
  rfl

/-- An update by the owner, with its note. -/
theorem LeaseOk.own (h : LeaseOk notes q) {n : QueueNote Worker} (hn : n.id = id)
    (hid : ∀ t, (f t).id = t.id) (hrun : ∀ t, (f t).runId = t.runId)
    (hrow : ∀ t, t.id = id → t.status = .leased → t.lockedBy = some worker → RowOk notes t →
      RowOk (notes ++ [n]) (f t)) :
    LeaseOk (notes ++ if (QueueTable.own worker id extra f q).1 then [n] else [])
      (QueueTable.own worker id extra f q).2 := by
  by_cases happlied : (QueueTable.own worker id extra f q).1 = true
  · obtain ⟨owned, howned, hmatch⟩ := List.any_eq_true.mp happlied
    have hspec : ∀ {t : QueueTask Worker}, (QueueTable.owns worker id t && extra t) = true →
        t.id = id ∧ t.status = .leased ∧ t.lockedBy = some worker := by
      intro t ht
      simp only [QueueTable.owns, Bool.and_eq_true, decide_eq_true_eq] at ht
      exact ⟨ht.1.1.1, ht.1.1.2, ht.1.2⟩
    rw [if_pos happlied]
    refine h.update (fun t => ?_) (fun t => ?_) (fun t _ hout => ?_) ?_ fun t ht hok => ?_
    · split
      · exact hid t
      · rfl
    · split
      · exact hrun t
      · rfl
    · by_cases hc : (QueueTable.owns worker id t && extra t) = true
      · simp [QueueTask.outstanding, (hspec hc).2.1]
      · rw [if_neg hc] at hout
        exact hout
    · intro m hm
      rw [List.mem_singleton.mp hm, hn, ← (hspec hmatch).1]
      exact h.id_lt howned
    · by_cases hc : (QueueTable.owns worker id t && extra t) = true
      · rw [if_pos hc]
        exact hrow t (hspec hc).1 (hspec hc).2.1 (hspec hc).2.2 hok
      · rw [if_neg hc]
        refine hok.append_of_ne fun m hm hmt => hc ?_
        rw [List.mem_singleton.mp hm, hn, ← (hspec hmatch).1] at hmt
        exact h.row_unique howned ht hmt ▸ hmatch
  · have hrefused := Bool.not_eq_true _ ▸ happlied
    rw [if_neg happlied, own_refused hrefused, List.append_nil]
    exact h

end LeaseOk

section Step

variable [DecidableEq Worker]

/-- What a call makes of the table. -/
def QueueCall.exec (now : Nat) (q : QueueTable Worker) : QueueCall Worker → QueueTable Worker
  | .enqueue runId runAfter => q.enqueue runId (runAfter.getD now)
  | .finishOutstanding runId => q.finishOutstanding runId
  | .claim worker leaseSeconds locked =>
      ((q.claim worker now leaseSeconds locked).map Prod.snd).getD q
  | .extend worker id expiresAt => (q.extend worker id expiresAt).2
  | .release worker id => (q.release worker id).2
  | .requeue worker id runAfter => (q.requeue worker id runAfter).2

/-- What is noted of a call. -/
def QueueCall.notes (now : Nat) (q : QueueTable Worker) :
    QueueCall Worker → List (QueueNote Worker)
  | .enqueue _ _ => []
  | .finishOutstanding runId =>
      (q.filter fun t => t.runId = runId && t.outstanding).map fun t => .closed t.id
  | .claim worker leaseSeconds locked =>
      ((q.claim worker now leaseSeconds locked).map fun claimed =>
        .granted claimed.1.id worker (now + leaseSeconds)).toList
  | .extend worker id expiresAt =>
      if (q.extend worker id expiresAt).1 then [.extended id expiresAt] else []
  | .release worker id => if (q.release worker id).1 then [.closed id] else []
  | .requeue worker id runAfter => if (q.requeue worker id runAfter).1 then [.closed id] else []

/-- One call, no earlier than the last. -/
def Queue.step (s : Queue Worker) (a : Nat × QueueCall Worker) : Option (Queue Worker) :=
  if a.1 < s.clock then none else some ⟨a.1, a.2.exec a.1 s.table⟩

/-- A queue with nothing in it. -/
def Queue.start : Queue Worker := ⟨0, []⟩

/-- What was noted in a run. -/
def queueNotes (tr : List (Nat × QueueCall Worker)) : List (QueueNote Worker) :=
  Trace.collect Queue.step (fun s a _ => a.2.notes a.1 s.table) Queue.start tr

variable {tr : List (Nat × QueueCall Worker)} {s s' : Queue Worker}

/-- What one call keeps. -/
theorem QueueCall.keeps {notes : List (QueueNote Worker)} {q : QueueTable Worker}
    (h : LeaseOk notes q) (now : Nat) (call : QueueCall Worker) :
    LeaseOk (notes ++ call.notes now q) (call.exec now q) := by
  cases call with
  | enqueue runId runAfter =>
      rw [QueueCall.notes, List.append_nil]
      exact h.enqueue runId _
  | finishOutstanding runId => exact h.finishOutstanding runId
  | claim worker leaseSeconds locked =>
      show LeaseOk (notes ++ ((q.claim worker now leaseSeconds locked).map fun claimed =>
        .granted claimed.1.id worker (now + leaseSeconds)).toList)
        (((q.claim worker now leaseSeconds locked).map Prod.snd).getD q)
      cases hclaim : q.claim worker now leaseSeconds locked with
      | none =>
          show LeaseOk (notes ++ []) q
          rw [List.append_nil]
          exact h
      | some claimed => exact h.claim hclaim
  | extend worker id expiresAt =>
      refine h.own rfl (fun _ => rfl) (fun _ => rfl) fun t hid hleased howner hok => ?_
      obtain ⟨hlocked, w, expires, hw, -, hheld⟩ := hok.leased hleased
      have hsame : w = worker := Option.some.inj (hw.symm.trans howner)
      refine ⟨fun hc => ?_, fun _ => ⟨hlocked, worker, expiresAt, howner, rfl, ?_⟩,
        fun hc => absurd hleased hc, ?_⟩
      · exact TaskStatus.noConfusion (hleased.symm.trans hc)
      · rw [held_snoc_self (by exact hid.symm), hheld, hsame]
        rfl
      · have hattempts := hok.attempts
        unfold claims at hattempts ⊢
        rw [List.countP_append]
        exact hattempts
  | release worker id =>
      refine h.own (n := .closed id) rfl (fun _ => rfl) (fun _ => rfl) fun t hid _ _ hok => ?_
      exact hok.close (List.mem_singleton.mpr hid : t.id ∈ [id]) ⟨rfl, rfl⟩
        (fun hc => nomatch hc) fun hc => nomatch hc
  | requeue worker id runAfter =>
      refine h.own (n := .closed id) rfl (fun _ => rfl) (fun _ => rfl) fun t hid _ _ hok => ?_
      exact hok.close (List.mem_singleton.mpr hid : t.id ∈ [id]) ⟨rfl, rfl⟩
        (fun hc => nomatch hc) fun _ => ⟨rfl, rfl, rfl⟩

theorem queue_ok (h : Trace.run Queue.step Queue.start tr = some s) :
    LeaseOk (queueNotes tr) s.table := by
  refine Trace.run_induction (P := fun tr (s : Queue Worker) => LeaseOk (queueNotes tr) s.table)
    ?_ ?_ h
  · exact ⟨rfl, fun _ => Nat.zero_le _, fun t ht => by simp [Queue.start] at ht,
      fun _ _ => ⟨rfl, rfl⟩⟩
  · intro tr s a s' hrun hok hstep
    have hnotes : queueNotes (tr ++ [a]) = queueNotes tr ++ a.2.notes a.1 s.table :=
      Trace.collect_snoc hrun hstep
    unfold Queue.step at hstep
    split at hstep
    · simp at hstep
    · obtain rfl := Option.some.inj hstep
      rw [hnotes]
      exact QueueCall.keeps hok a.1 a.2

/-- A task that is done with stays as it is. -/
theorem QueueCall.exec_done {q : QueueTable Worker} (now : Nat) (call : QueueCall Worker)
    {t : QueueTask Worker} (ht : t ∈ q) (hdone : t.status = .done) : t ∈ call.exec now q := by
  have hmap : ∀ {f : QueueTask Worker → QueueTask Worker}, QueueTable.Updates f → t ∈ q.map f :=
    fun hf => List.mem_map.mpr ⟨t, ht, (hf t).2.2 hdone⟩
  cases call with
  | enqueue runId runAfter =>
      show t ∈ q.enqueue runId _
      unfold QueueTable.enqueue
      split
      · exact ht
      · exact List.mem_append_left _ ht
  | finishOutstanding runId => exact hmap QueueTable.finish_updates
  | claim worker leaseSeconds locked =>
      show t ∈ ((q.claim worker now leaseSeconds locked).map Prod.snd).getD q
      cases hclaim : q.claim worker now leaseSeconds locked with
      | none => exact ht
      | some claimed =>
          obtain ⟨-, f, hf, -, hq⟩ := QueueTable.claim_cases hclaim
          show t ∈ claimed.2
          rw [hq]
          exact hmap hf
  | extend worker id expiresAt => exact hmap (QueueTable.own_updates fun _ => ⟨rfl, rfl⟩)
  | release worker id => exact hmap (QueueTable.own_updates fun _ => ⟨rfl, rfl⟩)
  | requeue worker id runAfter => exact hmap (QueueTable.own_updates fun _ => ⟨rfl, rfl⟩)

/-- An update by anyone but the owner is refused. -/
theorem own_of_not_owner {q : QueueTable Worker} {worker : Worker} {id : Nat}
    (hnot : ∀ t ∈ q, t.id = id → ¬ (t.status = .leased ∧ t.lockedBy = some worker))
    (extra : QueueTask Worker → Bool) (f : QueueTask Worker → QueueTask Worker) :
    QueueTable.own worker id extra f q = (false, q) := by
  have hrefused : (QueueTable.own worker id extra f q).1 = false := by
    refine List.any_eq_false.mpr fun t ht hc => ?_
    simp only [QueueTable.owns, Bool.and_eq_true, decide_eq_true_eq] at hc
    exact hnot t ht hc.1.1.1 ⟨hc.1.1.2, hc.1.2⟩
  exact Prod.ext hrefused (own_refused hrefused)

/--
**The queue is a lease protocol.**  After any calls in any order: a run has at most one
task outstanding; the lease columns of a task are set exactly as its status says; a task has
been claimed as often as it counts; what is done with stays so; a claim takes a held task no
earlier than the expiry last granted or extended; and to anyone but its owner, a task
cannot be extended, released or requeued.
-/
theorem lease_protocol (h : Trace.run Queue.step Queue.start tr = some s) :
    (∀ runId, s.table.pending runId ≤ 1) ∧
    (∀ t ∈ s.table,
      (t.status = .queued →
        t.lockedBy = none ∧ t.lockedAt = none ∧ t.leaseExpiresAt = none) ∧
      (t.status = .leased →
        t.lockedBy.isSome = true ∧ t.lockedAt.isSome = true ∧ t.leaseExpiresAt.isSome = true) ∧
      t.attempts = claims (queueNotes tr) t.id) ∧
    (∀ a s', s.step a = some s' → ∀ t ∈ s.table, t.status = .done → t ∈ s'.table) ∧
    (∀ worker now leaseSeconds locked task q',
      s.table.claim worker now leaseSeconds locked = some (task, q') →
        ∀ holder expiresAt, held (queueNotes tr) task.id = some (holder, expiresAt) →
          expiresAt ≤ now) ∧
    ∀ worker id, (∀ t ∈ s.table, t.id = id → ¬ (t.status = .leased ∧ t.lockedBy = some worker)) →
      (∀ expiresAt, s.table.extend worker id expiresAt = (false, s.table)) ∧
        s.table.release worker id = (false, s.table) ∧
        ∀ runAfter, s.table.requeue worker id runAfter = (false, s.table) := by
  have hok := queue_ok h
  refine ⟨hok.once, fun t ht => ?_, fun a s' hstep t ht hdone => ?_, ?_, ?_⟩
  · have hrow := hok.rows t ht
    refine ⟨hrow.queued, fun hleased => ?_, hrow.attempts⟩
    obtain ⟨hlocked, worker, expiresAt, howner, hexpires, -⟩ := hrow.leased hleased
    exact ⟨by rw [howner]; rfl, hlocked, by rw [hexpires]; rfl⟩
  · unfold Queue.step at hstep
    split at hstep
    · simp at hstep
    · obtain rfl := Option.some.inj hstep
      exact QueueCall.exec_done a.1 a.2 ht hdone
  · intro worker now leaseSeconds locked task q' hclaim holder expiresAt hheld
    obtain ⟨found, hfound, hpair⟩ := Option.map_eq_some_iff.mp hclaim
    obtain ⟨rfl, -⟩ := Prod.mk.inj hpair
    obtain ⟨hmem, hqueued | ⟨hleased, expires, hexpires, hle⟩⟩ := claimable_cases hfound
    · -- A queued task is held by nobody.
      have hnone := (hok.rows found hmem).unheld (by rw [hqueued]; decide)
      rw [hnone] at hheld
      simp at hheld
    · obtain ⟨-, w, e, -, he, hrow⟩ := (hok.rows found hmem).leased hleased
      rw [hrow] at hheld
      obtain ⟨-, rfl⟩ := Prod.mk.inj (Option.some.inj hheld)
      rw [← Option.some.inj (hexpires.symm.trans he)]
      exact hle
  · intro worker id hnot
    exact ⟨fun _ => own_of_not_owner hnot _ _, own_of_not_owner hnot _ _,
      fun _ => own_of_not_owner hnot _ _⟩

/-- A worker lets its lease run out; another claims the task, and the first comes back. -/
def staleRelease : List (Nat × QueueCall Bool) :=
  [(0, .enqueue 7 none), (0, .enqueue 7 none), (1, .claim false 10 []), (5, .extend false 0 20),
    (20, .claim true 10 []), (21, .release false 0)]

theorem lease_protocol_stale : ∃ s, Trace.run Queue.step Queue.start staleRelease = some s ∧
    (∀ runId, s.table.pending runId ≤ 1) ∧
      s.table.release false 0 = (false, s.table) ∧ claims (queueNotes staleRelease) 0 = 2 := by
  obtain ⟨s, hrun⟩ : ∃ s, Trace.run Queue.step Queue.start staleRelease = some s := ⟨_, rfl⟩
  obtain ⟨honce, -, -, -, hother⟩ := lease_protocol hrun
  have htable : s.table = [⟨0, 7, .leased, 0, some true, some 20, some 30, 2⟩] := by
    obtain rfl := Option.some.inj hrun
    rfl
  refine ⟨s, hrun, honce, (hother false 0 fun t ht _ => ?_).2.1, rfl⟩
  rw [htable] at ht
  rw [List.mem_singleton.mp ht]
  decide

end Step

end Orqent
