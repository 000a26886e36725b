/-
No task that is due is passed over.

A claim takes the first due task, so each claim that leaves a due task waiting takes one
from ahead of it, and nothing is put ahead of it but by asking for a time before its own, or
by giving an older task back for its own time.  The number of tasks ahead therefore bounds
the claims it waits for.
-/
import Orqent.Lib.Digraph
import Orqent.Queue.Protocol
import Orqent.Queue.Shares

namespace Orqent

open QueueTable

variable {Worker : Type} {q : QueueTable Worker} {t u : QueueTask Worker} {now : Nat}
  {c : QueueCall Worker}

/-- The task is waiting, and is claimed before `t`. -/
def QueueTask.ahead (t u : QueueTask Worker) : Bool :=
  u.status = .queued && u.id ≠ t.id && u.Before t

/-- How many tasks are waiting ahead of this one. -/
def tasksAhead (t : QueueTask Worker) (q : QueueTable Worker) : Nat := q.countP t.ahead

/-- Whether the call is a claim. -/
def QueueCall.isClaim : QueueCall Worker → Bool
  | .claim .. => true
  | _ => false

/-- The call enqueues for a time before the task's, gives a task back for a time that is not
after it, or finds its row locked by another claim. -/
def Overtakes (t : QueueTask Worker) : QueueCall Worker → Prop
  | .enqueue _ runAfter => ∃ time, runAfter = some time ∧ time < t.runAfter
  | .requeue _ _ runAfter => runAfter ≤ t.runAfter
  | .claim _ _ locked => t.id ∈ locked
  | _ => False

/-! ### What one call does to those ahead -/

/-- What a call that does not overtake does to the table: it puts a task behind, or updates
rows, of which none comes to be waiting ahead. -/
inductive KeepsPlace (t : QueueTask Worker) (q : QueueTable Worker) : QueueTable Worker → Prop
  | insert (u : QueueTask Worker) (hid : u.id = q.length) (hlater : t.runAfter ≤ u.runAfter) :
      KeepsPlace t q (q ++ [u])
  | update (f : QueueTask Worker → QueueTask Worker) (hid : ∀ u, (f u).id = u.id)
      (hf : ∀ u, f u = u ∨ (f u).status ≠ .queued ∨ t.runAfter < (f u).runAfter) :
      KeepsPlace t q (q.map f)

namespace KeepsPlace

variable {q' : QueueTable Worker}

theorem same (t : QueueTask Worker) (q : QueueTable Worker) : KeepsPlace t q q := by
  have hid : KeepsPlace t q (q.map id) := .update id (fun _ => rfl) fun _ => Or.inl rfl
  rwa [List.map_id] at hid

theorem serial (h : KeepsPlace t q q') (hq : Serial q) : Serial q' := by
  cases h with
  | insert u hid hlater => exact hq.snoc hid
  | update f hid hf => exact hq.map hid

theorem length_le (h : KeepsPlace t q q') : q.length ≤ q'.length := by
  cases h with
  | insert u hid hlater => simp
  | update f hid hf => simp

/-- A task that is still waiting was waiting before. -/
theorem mem_of_mem (h : KeepsPlace t q q') (hid : t.id < q.length) (hqueued : t.status = .queued)
    (hstill : t ∈ q') : t ∈ q := by
  cases h with
  | insert u huid hlater =>
      rcases List.mem_append.mp hstill with hold | hnew
      · exact hold
      · rw [List.mem_singleton.mp hnew, huid] at hid
        exact absurd hid (Nat.lt_irrefl _)
  | update f hfid hf =>
      obtain ⟨u, hu, rfl⟩ := List.mem_map.mp hstill
      rcases hf u with hsame | hnot | hlater
      · rwa [hsame]
      · exact absurd hqueued hnot
      · exact absurd hlater (Nat.lt_irrefl _)

theorem ahead_of_update {f : QueueTask Worker → QueueTask Worker}
    (hf : f u = u ∨ (f u).status ≠ .queued ∨ t.runAfter < (f u).runAfter)
    (hahead : t.ahead (f u) = true) : f u = u := by
  rcases hf with hsame | hnot | hlater
  · exact hsame
  · simp only [QueueTask.ahead, Bool.and_eq_true, decide_eq_true_eq] at hahead
    exact absurd hahead.1.1 hnot
  · simp only [QueueTask.ahead, Bool.and_eq_true, decide_eq_true_eq, QueueTask.before_iff] at hahead
    omega

/-- Nothing comes to be ahead. -/
theorem tasksAhead_le (h : KeepsPlace t q q') (hid : t.id < q.length) :
    tasksAhead t q' ≤ tasksAhead t q := by
  unfold tasksAhead
  cases h with
  | insert u huid hlater =>
      have hbehind : t.ahead u = false := by
        rw [Bool.eq_false_iff]
        intro hc
        simp only [QueueTask.ahead, Bool.and_eq_true, decide_eq_true_eq, QueueTask.before_iff] at hc
        omega
      rw [List.countP_append, List.countP_cons_of_neg (by simp [hbehind])]
      exact Nat.le_refl _
  | update f hfid hf =>
      rw [List.countP_map]
      refine List.countP_mono_left fun u _ hahead => ?_
      have hsame := ahead_of_update (hf u) hahead
      rwa [Function.comp_apply, hsame] at hahead

end KeepsPlace

/-- A claim takes the task it takes out of the queue, and leaves the others as they are. -/
theorem claim_map {worker : Worker} {leaseSeconds : Nat} {locked : List Nat}
    {q' : QueueTable Worker} (hclaim : q.claim worker now leaseSeconds locked = some (u, q')) :
    q.claimable now locked = some u ∧ ∃ f, q' = q.map f ∧ (∀ v, (f v).id = v.id) ∧
      (∀ v, f v = v ∨ (f v).status ≠ .queued) ∧
        (u.outstanding = true → (f u).status = .leased) := by
  obtain ⟨found, hfound, hpair⟩ := Option.map_eq_some_iff.mp hclaim
  obtain ⟨rfl, rfl⟩ := Prod.mk.inj hpair
  refine ⟨hfound, _, rfl, fun v => by split <;> rfl, fun v => ?_, fun hout => ?_⟩
  · split
    · exact Or.inr (by simp)
    · exact Or.inl rfl
  · rw [if_pos (by simp [hout])]

variable [DecidableEq Worker]

theorem own_keeps {worker : Worker} {id : Nat} {extra : QueueTask Worker → Bool}
    {f : QueueTask Worker → QueueTask Worker} (hid : ∀ u, (f u).id = u.id)
    (hf : ∀ u, u.status = .leased → (f u).status ≠ .queued ∨ t.runAfter < (f u).runAfter) :
    KeepsPlace t q (own worker id extra f q).2 := by
  refine .update _ (fun u => by split <;> simp [hid]) fun u => ?_
  split
  · rename_i hown
    simp only [owns, Bool.and_eq_true, decide_eq_true_eq] at hown
    exact Or.inr (hf u hown.1.1.2)
  · exact Or.inl rfl

/-- A call that does not overtake a due task. -/
theorem exec_keeps (hdue : t.runAfter ≤ now) (hfair : ¬ Overtakes t c) :
    KeepsPlace t q (c.exec now q) := by
  cases c with
  | enqueue runId runAfter =>
      have hlater : t.runAfter ≤ runAfter.getD now := by
        cases runAfter with
        | none => exact hdue
        | some time => exact Nat.le_of_not_lt fun hc => hfair ⟨time, rfl, hc⟩
      show KeepsPlace t q (q.enqueue runId _)
      unfold QueueTable.enqueue
      split
      · exact .same t q
      · exact .insert _ rfl hlater
  | finishOutstanding runId =>
      refine .update _ (fun u => by split <;> rfl) fun u => ?_
      split
      · exact Or.inr (Or.inl (by simp))
      · exact Or.inl rfl
  | claim worker leaseSeconds locked =>
      show KeepsPlace t q (((q.claim worker now leaseSeconds locked).map Prod.snd).getD q)
      cases hclaim : q.claim worker now leaseSeconds locked with
      | none => exact .same t q
      | some claimed =>
          obtain ⟨-, f, hq, hid, hf, -⟩ := claim_map hclaim
          show KeepsPlace t q claimed.2
          rw [hq]
          exact .update f hid fun u => (hf u).imp_right Or.inl
  | extend worker id expiresAt =>
      exact own_keeps (fun _ => rfl) fun u hleased => Or.inl (by simp [hleased])
  | release worker id => exact own_keeps (fun _ => rfl) fun u _ => Or.inl (by simp)
  | requeue worker id runAfter =>
      exact own_keeps (fun _ => rfl) fun u _ => Or.inr (Nat.lt_of_not_le hfair)

/-- **A claim that leaves a due task waiting takes one from ahead of it.** -/
theorem tasksAhead_claim (hserial : Serial q) (ht : t ∈ q) (hqueued : t.status = .queued)
    (hdue : t.runAfter ≤ now) (hfair : ¬ Overtakes t c) (hclaim : c.isClaim = true)
    (hstill : t ∈ c.exec now q) : tasksAhead t (c.exec now q) < tasksAhead t q := by
  cases c with
  | claim worker leaseSeconds locked =>
      have hmatches : t.due now = true := by simp [QueueTask.due, hqueued, hdue]
      have hsome : eligible (QueueTask.due now) locked q ≠ none := fun hc =>
        hfair (eligible_eq_none.mp hc t ht hmatches)
      have hstill' : t ∈ ((q.claim worker now leaseSeconds locked).map Prod.snd).getD q := hstill
      show tasksAhead t (((q.claim worker now leaseSeconds locked).map Prod.snd).getD q) < _
      cases htaken : q.claim worker now leaseSeconds locked with
      | none =>
          have hnone : q.claimable now locked = none := Option.map_eq_none_iff.mp htaken
          exact absurd (none_due_of_claimable hnone) hsome
      | some claimed =>
          obtain ⟨hfound, f, hq, hid, hf, hleased⟩ := claim_map htaken
          have hq' : t ∈ q.map f := by
            rw [htaken] at hstill'
            exact hq ▸ hstill'
          obtain ⟨⟨hu, hudue, -⟩, hfirst⟩ := eligible_spec
            ((QueueTable.claimable_spec hfound).resolve_right fun hc => hsome hc.1)
          have huqueued : claimed.1.status = .queued := by
            simp only [QueueTask.due, Bool.and_eq_true, decide_eq_true_eq] at hudue
            exact hudue.1
          have hfu : (f claimed.1).status = .leased :=
            hleased (by simp [QueueTask.outstanding, huqueued])
          have hne : claimed.1.id ≠ t.id := by
            intro hc
            obtain ⟨v, hv, rfl⟩ := List.mem_map.mp hq'
            obtain rfl := hserial.eq_of_id hv hu ((hid v).symm.trans hc.symm)
            rw [hfu] at hqueued
            cases hqueued
          show tasksAhead t claimed.2 < tasksAhead t q
          unfold tasksAhead
          rw [hq, List.countP_map]
          refine Digraph.countP_lt (fun v _ hv => ?_) hu ?_ ?_
          · have hsame := KeepsPlace.ahead_of_update ((hf v).imp_right Or.inl) hv
            rwa [Function.comp_apply, hsame] at hv
          · simp [QueueTask.ahead, hfu]
          · simp only [QueueTask.ahead, Bool.and_eq_true, decide_eq_true_eq]
            exact ⟨⟨huqueued, hne⟩, hfirst t ht hmatches hfair⟩
  | _ => cases hclaim

/-! ### Runs -/

variable {s s' : Queue Worker} {tr us : List (Nat × QueueCall Worker)}

theorem serial_exec (h : Serial q) (now : Nat) (c : QueueCall Worker) : Serial (c.exec now q) := by
  cases c with
  | enqueue runId runAfter => exact h.enqueue runId _
  | finishOutstanding runId => exact h.map fun u => by split <;> rfl
  | claim worker leaseSeconds locked =>
      show Serial (((q.claim worker now leaseSeconds locked).map Prod.snd).getD q)
      cases hclaim : q.claim worker now leaseSeconds locked with
      | none => exact h
      | some claimed => exact (Moves.claim h hclaim).serial
  | extend worker id expiresAt => exact h.map fun u => by split <;> rfl
  | release worker id => exact h.map fun u => by split <;> rfl
  | requeue worker id runAfter => exact h.map fun u => by split <;> rfl

/-- What a call needs, and what it comes to. -/
theorem step_cases {a : Nat × QueueCall Worker} (h : s.step a = some s') :
    s.clock ≤ a.1 ∧ s' = ⟨a.1, a.2.exec a.1 s.table⟩ := by
  unfold Queue.step at h
  split at h
  · cases h
  · rename_i hclock
    exact ⟨Nat.le_of_not_lt hclock, (Option.some.inj h).symm⟩

theorem serial_run (hrun : Trace.run Queue.step Queue.start tr = some s) : Serial s.table := by
  have hstart : Serial (Queue.start : Queue Worker).table := rfl
  refine Trace.run_invariant (P := fun (s : Queue Worker) => Serial s.table) hstart ?_ hrun
  intro s a s' h hstep
  obtain ⟨-, rfl⟩ := step_cases hstep
  exact serial_exec h a.1 a.2

/-- What is known of a due task while it waits. -/
structure StillWaits (t : QueueTask Worker) (s : Queue Worker) (us : List (Nat × QueueCall Worker))
    (s' : Queue Worker) : Prop where
  serial : Serial s'.table
  due : t.runAfter ≤ s'.clock
  id_lt : t.id < s'.table.length
  ahead : t ∈ s'.table →
    us.countP (fun c => c.2.isClaim) + tasksAhead t s'.table ≤ tasksAhead t s.table

theorem StillWaits.step {a : Nat × QueueCall Worker} {s'' : Queue Worker} (h : StillWaits t s us s')
    (hqueued : t.status = .queued) (hfair : ¬ Overtakes t a.2) (hstep : s'.step a = some s'') :
    StillWaits t s (us ++ [a]) s'' := by
  obtain ⟨hclock, rfl⟩ := step_cases hstep
  have hdue := h.due.trans hclock
  have hkeeps : KeepsPlace t s'.table (a.2.exec a.1 s'.table) := exec_keeps hdue hfair
  refine ⟨hkeeps.serial h.serial, hdue, h.id_lt.trans_le hkeeps.length_le, fun hstill => ?_⟩
  have hbefore := hkeeps.mem_of_mem h.id_lt hqueued hstill
  have hle := h.ahead hbefore
  rw [List.countP_append, List.countP_singleton]
  by_cases hclaim : a.2.isClaim = true
  · have hlt := tasksAhead_claim h.serial hbefore hqueued hdue hfair hclaim hstill
    rw [if_pos hclaim]
    dsimp only
    omega
  · have hsame := hkeeps.tasksAhead_le h.id_lt
    rw [if_neg hclaim]
    dsimp only
    omega

/--
**First come, first served.**  Take any moment at which a task is due, and let any calls
follow of which none overtakes it.  While the task is still waiting, no more claims have
been made than tasks were waiting ahead of it: so the claim after that has taken it, or its
run has closed it.
-/
theorem first_come_first_served (hrun : Trace.run Queue.step Queue.start tr = some s)
    (ht : t ∈ s.table) (hqueued : t.status = .queued) (hdue : t.runAfter ≤ s.clock)
    (hrun' : Trace.run Queue.step s us = some s') (hfair : ∀ c ∈ us, ¬ Overtakes t c.2)
    (hstill : t ∈ s'.table) :
    us.countP (fun c => c.2.isClaim) ≤ tasksAhead t s.table := by
  have hserial := serial_run hrun
  have hwaits := Trace.run_induction
    (P := fun us s' => (∀ c ∈ us, ¬ Overtakes t c.2) → StillWaits t s us s')
    (fun _ => ⟨hserial, hdue, hserial.id_lt ht, fun _ => by simp⟩) ?_ hrun' hfair
  · exact (Nat.le_add_right _ _).trans (hwaits.ahead hstill)
  · intro before s₁ a s₂ _ hbefore hstep hall
    exact (hbefore fun c hc => hall c (List.mem_append_left _ hc)).step hqueued
      (hall a (by simp)) hstep

/-- Three runs are queued. -/
def threeWaiting : List (Nat × QueueCall Bool) :=
  [(0, .enqueue 7 none), (0, .enqueue 8 none), (1, .enqueue 9 none)]

/-- The queue they leave. -/
def threeQueued : Queue Bool where
  clock := 1
  table := [⟨0, 7, .queued, 0, none, none, none, 0⟩, ⟨1, 8, .queued, 0, none, none, none, 0⟩,
    ⟨2, 9, .queued, 1, none, none, none, 0⟩]

/-- Two workers claim, and a run that has a task asks for one. -/
def twoClaims : List (Nat × QueueCall Bool) :=
  [(2, .claim true 10 []), (2, .enqueue 7 none), (3, .claim false 10 [0])]

/-- The third has waited for as many claims as were ahead of it. -/
theorem third_waits : Trace.run Queue.step Queue.start threeWaiting = some threeQueued ∧
    (∃ s', Trace.run Queue.step threeQueued twoClaims = some s') ∧
    twoClaims.countP (fun c => c.2.isClaim) = 2 ∧
    tasksAhead ⟨2, 9, .queued, 1, none, none, none, 0⟩ threeQueued.table = 2 ∧
    twoClaims.countP (fun c => c.2.isClaim) ≤
      tasksAhead ⟨2, 9, .queued, 1, none, none, none, 0⟩ threeQueued.table := by
  have hrun : Trace.run Queue.step Queue.start threeWaiting = some threeQueued := rfl
  obtain ⟨s', hrun'⟩ : ∃ s', Trace.run Queue.step threeQueued twoClaims = some s' := ⟨_, rfl⟩
  refine ⟨hrun, ⟨s', hrun'⟩, by decide, by decide, ?_⟩
  refine first_come_first_served hrun (by decide) rfl (by decide) hrun' ?_ ?_
  · intro c hc
    simp only [twoClaims, List.mem_cons, List.not_mem_nil, or_false] at hc
    rcases hc with rfl | rfl | rfl <;> simp [Overtakes]
  · obtain rfl := Option.some.inj hrun'
    decide

end Orqent
