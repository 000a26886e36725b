/-
Which task a claim takes.

A claim looks at the due tasks first, and at expired leases only where no task is due.
Among either it takes the first by `run_after` and id that no other claim has locked.
-/
import Orqent.Queue.Table

namespace Orqent

variable {Worker : Type} {q q' : QueueTable Worker} {t u : QueueTask Worker} {now : Nat}
  {locked : List Nat}

/-! ### The order -/

/-- The order in which the tasks are claimed. -/
def QueueTask.Before (t u : QueueTask Worker) : Prop :=
  toLex (t.runAfter, t.id) ≤ toLex (u.runAfter, u.id)

theorem QueueTask.before_iff :
    t.Before u ↔ t.runAfter < u.runAfter ∨ t.runAfter = u.runAfter ∧ t.id ≤ u.id :=
  Prod.Lex.toLex_le_toLex

instance : DecidableRel (QueueTask.Before : QueueTask Worker → QueueTask Worker → Prop) :=
  fun t u => inferInstanceAs (Decidable (toLex (t.runAfter, t.id) ≤ toLex (u.runAfter, u.id)))

instance : Std.Total (QueueTask.Before : QueueTask Worker → QueueTask Worker → Prop) :=
  ⟨fun t u => le_total (toLex (t.runAfter, t.id)) (toLex (u.runAfter, u.id))⟩

instance : IsTrans (QueueTask Worker) QueueTask.Before :=
  ⟨fun _ _ _ htu huv => le_trans (α := ℕ ×ₗ ℕ) htu huv⟩

/-- The task is waiting, and its time has come. -/
def QueueTask.due (now : Nat) (t : QueueTask Worker) :
    Bool := t.status = .queued && t.runAfter ≤ now

/-- The task's lease has run out. -/
def QueueTask.expired (now : Nat) (t : QueueTask Worker) : Bool :=
  t.status = .leased && t.leaseExpiresAt.any (· ≤ now)

namespace QueueTable

variable {matching : QueueTask Worker → Bool}

theorem eligible_eq_none :
    eligible matching locked q = none ↔ ∀ t ∈ q, matching t = true → t.id ∈ locked := by
  unfold eligible
  rw [List.head?_eq_none_iff, ← List.length_eq_zero_iff, List.length_insertionSort,
    List.length_eq_zero_iff, List.filter_eq_nil_iff]
  simp

/-- What is eligible is the first of what matches. -/
theorem eligible_spec (h : eligible matching locked q = some t) :
    (t ∈ q ∧ matching t = true ∧ t.id ∉ locked) ∧
      ∀ u ∈ q, matching u = true → u.id ∉ locked → t.Before u := by
  have hsorted := List.pairwise_insertionSort QueueTask.Before
    (q.filter fun t => matching t && t.id ∉ locked)
  obtain ⟨rest, hrest⟩ := List.head?_eq_some_iff.mp h
  have hmem : ∀ u, u ∈ t :: rest ↔ u ∈ q ∧ matching u = true ∧ u.id ∉ locked := by
    intro u
    rw [← hrest, List.mem_insertionSort, List.mem_filter]
    simp
  have hfirst : ∀ u ∈ rest, t.Before u := by
    have hpairwise : (t :: rest).Pairwise QueueTask.Before := hrest ▸ hsorted
    exact (List.pairwise_cons.mp hpairwise).1
  refine ⟨(hmem t).mp List.mem_cons_self, fun u hu hmatch hfree => ?_⟩
  rcases List.mem_cons.mp ((hmem u).mpr ⟨hu, hmatch, hfree⟩) with heq | hlater
  · rw [heq]
    exact le_refl (toLex (t.runAfter, t.id))
  · exact hfirst u hlater

/-- A claim takes the first due task, or where none is due the first expired one. -/
theorem claimable_spec (h : q.claimable now locked = some t) :
    eligible (QueueTask.due now) locked q = some t ∨
      eligible (QueueTask.due now) locked q = none ∧
        eligible (QueueTask.expired now) locked q = some t := by
  unfold claimable at h
  cases hdue : eligible (fun t => t.status = .queued && t.runAfter ≤ now) locked q with
  | some first =>
      rw [hdue] at h
      exact Or.inl (hdue.trans h)
  | none =>
      rw [hdue] at h
      exact Or.inr ⟨hdue, h⟩

/-- Where a claim takes nothing, nothing is due. -/
theorem none_due_of_claimable (h : q.claimable now locked = none) :
    eligible (QueueTask.due now) locked q = none := by
  unfold claimable at h
  cases hdue : eligible (fun t => t.status = .queued && t.runAfter ≤ now) locked q with
  | some first =>
      rw [hdue] at h
      cases h
  | none => exact hdue

end QueueTable

end Orqent
