/-
Closed walks, given by their elements.

A list stands for the walk around it, each element to the next and the last one back to
the first.  Where the walk is said to begin makes no difference: rotating the list
rotates its pairs.  A list without repetitions can be told from its rotations by its
first element.
-/
import Mathlib.Data.List.Rotate
import Mathlib.Data.List.Chain
import Mathlib.Logic.Relation

namespace Orqent.ClosedWalk

variable {α : Type*} {r : α → α → Prop} {c d : List α} {a b : α}

/-- The ordered pairs of consecutive elements around a list, its last and first included. -/
def pairs (c : List α) : List (α × α) := c.zip (c.rotate 1)

/-- The walk around the list goes along the relation. -/
def IsClosed (r : α → α → Prop) (c : List α) : Prop := c ≠ [] ∧ ∀ p ∈ pairs c, r p.1 p.2

theorem pairs_rotate (n : Nat) : pairs (c.rotate n) = (pairs c).rotate n := by
  unfold pairs
  rw [List.rotate_rotate, Nat.add_comm, ← List.rotate_rotate]
  exact (List.zipWith_rotate_distrib Prod.mk c (c.rotate 1) n (List.length_rotate ..).symm).symm

theorem mem_pairs_of_isRotated (h : c.IsRotated d) {p : α × α} : p ∈ pairs c ↔ p ∈ pairs d := by
  obtain ⟨n, rfl⟩ := h
  rw [pairs_rotate, List.mem_rotate]

theorem IsClosed.rotated (h : IsClosed r c) (hrot : c.IsRotated d) : IsClosed r d := by
  refine ⟨fun hnil => h.1 ?_, fun p hp => h.2 p ((mem_pairs_of_isRotated hrot).mpr hp)⟩
  rw [hnil] at hrot
  exact List.isRotated_nil_iff.mp hrot

theorem pairs_cons : pairs (a :: c) = (a :: c).zip (c ++ [a]) := by
  simp [pairs]

/-- The last element and the first are a pair. -/
theorem closing_mem (hlast : (a :: c).getLast? = some b) : (b, a) ∈ pairs (a :: c) := by
  obtain ⟨front, hfront⟩ := List.getLast?_eq_some_iff.mp hlast
  have hlen : front.length = c.length := by
    have hlength := congrArg List.length hfront
    simpa using hlength.symm
  rw [pairs_cons, hfront, List.zip_append hlen]
  simp

theorem isChain_iff_zip : List.IsChain r (a :: (c ++ [b])) ↔
    ∀ p ∈ (a :: c).zip (c ++ [b]), r p.1 p.2 := by
  induction c generalizing a with
  | nil => simp
  | cons x c ih =>
      rw [List.cons_append, List.isChain_cons_cons, ih, List.zip_cons_cons, List.forall_mem_cons]

theorem isClosed_cons : IsClosed r (a :: c) ↔ List.IsChain r (a :: (c ++ [a])) := by
  rw [isChain_iff_zip, ← pairs_cons]
  exact and_iff_right (by simp)

/-- A chain from one element to another reaches it. -/
theorem transGen_of_isChain (h : List.IsChain r (a :: (c ++ [b]))) : Relation.TransGen r a b := by
  induction c generalizing a with
  | nil => exact .single (by simpa using h)
  | cons x c ih =>
      rw [List.cons_append, List.isChain_cons_cons] at h
      exact .head h.1 (ih h.2)

/-- **Each element of a closed walk reaches itself**, the first one for instance. -/
theorem IsClosed.transGen (h : IsClosed r c) : ∃ a, Relation.TransGen r a a := by
  obtain ⟨a, rest, rfl⟩ := List.exists_cons_of_ne_nil h.1
  exact ⟨a, transGen_of_isChain (isClosed_cons.mp h)⟩

/-- **Rotations of one list without repetitions are told apart by what they begin with.** -/
theorem eq_of_isRotated (hnodup : c.Nodup) (hrot : c.IsRotated d) (hhead : c.head? = d.head?) :
    c = d := by
  obtain ⟨n, hn, rfl⟩ := List.isRotated_iff_mod.mp hrot
  by_cases hnil : c = []
  · simp [hnil]
  have hpos : 0 < c.length := List.length_pos_iff.mpr hnil
  rcases Nat.lt_or_ge n c.length with hlt | hge
  · rw [List.head?_rotate hlt, List.head?_eq_getElem?] at hhead
    obtain rfl : 0 = n := (List.getElem?_inj hpos hnodup).mp hhead
    rw [List.rotate_zero]
  · obtain rfl : n = c.length := by omega
    rw [List.rotate_length]

end Orqent.ClosedWalk
