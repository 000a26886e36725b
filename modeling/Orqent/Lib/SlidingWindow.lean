/-
Counting events in a sliding window.

Events are times, oldest first.  At a time `now` those after `now - window` are live.  An
event is admitted while fewer than `limit` are live; then no half-open window of that
length ever holds more than `limit` of the admitted ones, whichever of its ends belongs
to it.  Forgetting events from the front once they are not live changes nothing, as time
does not go back (`Forgets`).
-/
import Mathlib.Algebra.Order.Group.Defs
import Mathlib.Algebra.Order.Sub.Basic
import Mathlib.Data.List.Basic
import Mathlib.Data.List.TakeWhile

namespace Orqent.SlidingWindow

variable {α : Type*} [LinearOrder α] {cutoff later : α} {times kept : List α}

/-- What is left of the times after a cutoff, taking from the front. -/
def prune (cutoff : α) (times : List α) : List α := times.dropWhile (· ≤ cutoff)

/-- The times after a cutoff. -/
def live (cutoff : α) (times : List α) : List α := times.filter (cutoff < ·)

/-- What was kept is what the times end with; what was forgotten is not after the cutoff. -/
def Forgets (cutoff : α) (times kept : List α) : Prop :=
  ∃ forgotten, times = forgotten ++ kept ∧ ∀ x ∈ forgotten, x ≤ cutoff

/-! ### Pruning -/

theorem prune_append (h : ∀ x ∈ times, x ≤ cutoff) :
    prune cutoff (times ++ kept) = prune cutoff kept := by
  unfold prune
  rw [List.dropWhile_append_of_pos fun x hx => by simpa using h x hx]

/-- Nothing is left in front that is not after the cutoff. -/
theorem lt_of_prune_head {x : α} (h : x ∈ (prune cutoff times).head?) : cutoff < x := by
  have hfirst := List.head?_dropWhile_not (fun y => decide (y ≤ cutoff)) times
  unfold prune at h
  rw [Option.mem_def] at h
  rw [h] at hfirst
  simpa using hfirst

theorem prune_sublist : (prune cutoff times).Sublist times := List.dropWhile_sublist _

/-- Once the oldest is not after the cutoff there is one fewer at least. -/
theorem length_prune_lt {x : α} (hhead : x ∈ times.head?) (hx : x ≤ cutoff) :
    (prune cutoff times).length < times.length := by
  obtain ⟨rest, rfl⟩ : ∃ rest, times = x :: rest := by
    cases times with
    | nil => simp at hhead
    | cons y rest => exact ⟨rest, by simpa using hhead⟩
  unfold prune
  rw [List.dropWhile_cons_of_pos (by simpa using hx), List.length_cons]
  exact Nat.lt_succ_of_le (List.dropWhile_sublist _).length_le

/-- A later cutoff leaves no more. -/
theorem length_prune_mono (h : cutoff ≤ later) :
    (prune later times).length ≤ (prune cutoff times).length := by
  unfold prune
  induction times with
  | nil => exact Nat.le_refl _
  | cons x rest ih =>
      by_cases hx : x ≤ cutoff
      · rw [List.dropWhile_cons_of_pos (by simpa using le_trans hx h),
          List.dropWhile_cons_of_pos (by simpa using hx)]
        exact ih
      · rw [List.dropWhile_cons_of_neg (p := fun y => decide (y ≤ cutoff)) (by simpa using hx)]
        exact (List.dropWhile_sublist _).length_le

/-- **Of times in order, those left by pruning are those that are live.** -/
theorem prune_eq_live (h : times.Pairwise (· ≤ ·)) : prune cutoff times = live cutoff times := by
  induction times with
  | nil => rfl
  | cons x rest ih =>
      rw [List.pairwise_cons] at h
      unfold prune live at ih ⊢
      by_cases hx : x ≤ cutoff
      · rw [List.dropWhile_cons_of_pos (by simpa using hx),
          List.filter_cons_of_neg (by simpa using hx), ih h.2]
      · rw [List.dropWhile_cons_of_neg (by simpa using hx), List.filter_eq_self.mpr]
        intro y hy
        have hxy : x ≤ y := by
          rcases List.mem_cons.mp hy with rfl | hy
          · exact le_refl _
          · exact h.1 y hy
        simpa using lt_of_lt_of_le (not_le.mp hx) hxy

/-- Of times in order the last is the latest. -/
theorem le_of_getLast (h : times.Pairwise (· ≤ ·)) {x last : α} (hlast : last ∈ times.getLast?)
    (hx : x ∈ times) : x ≤ last := by
  obtain ⟨front, rfl⟩ := List.getLast?_eq_some_iff.mp hlast
  rcases List.mem_append.mp hx with hx | hx
  · exact (List.pairwise_append.mp h).2.2 x hx last (by simp)
  · rw [List.mem_singleton.mp hx]

/-- Pruning takes away nothing that is live. -/
theorem live_prune : live cutoff (prune cutoff times) = live cutoff times := by
  unfold live prune
  induction times with
  | nil => rfl
  | cons x rest ih =>
      by_cases hx : x ≤ cutoff
      · rw [List.dropWhile_cons_of_pos (by simpa using hx), ih,
          List.filter_cons_of_neg (by simpa using hx)]
      · rw [List.dropWhile_cons_of_neg (by simpa using hx)]

theorem live_append : live cutoff (times ++ kept) = live cutoff times ++ live cutoff kept :=
  List.filter_append ..

/-! ### Forgetting -/

theorem Forgets.refl : Forgets cutoff times times := ⟨[], rfl, by simp⟩

theorem Forgets.mono (h : Forgets cutoff times kept) (hle : cutoff ≤ later) :
    Forgets later times kept := by
  obtain ⟨forgotten, heq, hold⟩ := h
  exact ⟨forgotten, heq, fun x hx => le_trans (hold x hx) hle⟩

/-- **What was forgotten makes no difference to what is left.** -/
theorem Forgets.prune_eq (h : Forgets cutoff times kept) :
    prune cutoff times = prune cutoff kept := by
  obtain ⟨forgotten, rfl, hold⟩ := h
  exact prune_append hold

theorem Forgets.prune (h : Forgets cutoff times kept) :
    Forgets cutoff times (prune cutoff kept) := by
  obtain ⟨forgotten, rfl, hold⟩ := h
  refine ⟨forgotten ++ kept.takeWhile (· ≤ cutoff), ?_, fun x hx => ?_⟩
  · rw [List.append_assoc]
    exact congrArg _ List.takeWhile_append_dropWhile.symm
  · rcases List.mem_append.mp hx with hx | hx
    · exact hold x hx
    · simpa using List.mem_takeWhile_imp hx

theorem Forgets.append (h : Forgets cutoff times kept) (x : α) :
    Forgets cutoff (times ++ [x]) (kept ++ [x]) := by
  obtain ⟨forgotten, rfl, hold⟩ := h
  exact ⟨forgotten, List.append_assoc .., hold⟩

/-- All may be forgotten once none is after the cutoff. -/
theorem Forgets.clear (h : Forgets cutoff times kept) (hall : ∀ x ∈ kept, x ≤ cutoff) :
    Forgets cutoff times [] := by
  obtain ⟨forgotten, rfl, hold⟩ := h
  refine ⟨forgotten ++ kept, by simp, fun x hx => ?_⟩
  exact (List.mem_append.mp hx).elim (hold x) (hall x)

/-! ### The bound -/

section Bound

variable [AddCommGroup α] {window now : α} {limit : Nat}

/-- No half-open window holds more than `limit` of the times. -/
def Bounded (limit : Nat) (window : α) (times : List α) : Prop :=
  ∀ t, (times.filter fun x => t ≤ x ∧ x < t + window).length ≤ limit ∧
    (times.filter fun x => t < x ∧ x ≤ t + window).length ≤ limit

theorem bounded_nil : Bounded limit window ([] : List α) := by
  intro t
  simp

/-- **Admitting an event where fewer than `limit` are live keeps the bound.**  A window
that holds the new event holds of the others only live ones. -/
theorem Bounded.admitted [IsOrderedAddMonoid α] (h : Bounded limit window times)
    (hroom : (live (now - window) times).length < limit) :
    Bounded limit window (times ++ [now]) := by
  have hone : ∀ (p : α → Bool), (times.filter p).length ≤ limit →
      (p now = true → ∀ x, p x = true → now - window < x) →
      ((times ++ [now]).filter p).length ≤ limit := by
    intro p hle hlive
    rw [List.filter_append, List.length_append]
    by_cases hnow : p now = true
    · have hfewer : (times.filter p).length ≤ (live (now - window) times).length := by
        refine (List.monotone_filter_right times fun x hx => ?_).length_le
        simpa using hlive hnow x hx
      simp [hnow]
      omega
    · simpa [hnow] using hle
  intro t
  obtain ⟨hleft, hright⟩ := h t
  refine ⟨hone _ hleft fun hnow x hx => ?_, hone _ hright fun hnow x hx => ?_⟩
  · simp only [decide_eq_true_eq] at hnow hx
    exact lt_of_lt_of_le (sub_lt_iff_lt_add.mpr hnow.2) hx.1
  · simp only [decide_eq_true_eq] at hnow hx
    exact lt_of_le_of_lt (sub_le_iff_le_add.mpr hnow.2) hx.1

end Bound

end Orqent.SlidingWindow
