/-
Numbers inside names.

A number is written in decimal, so it can be read back, and no separator occurs in it.
-/
import Mathlib.Data.List.Basic

namespace Orqent

theorem toString_nat_inj {n m : Nat} (h : (toString n).toList = (toString m).toList) : n = m := by
  rw [Nat.toString_eq_repr, Nat.toString_eq_repr, Nat.toList_repr, Nat.toList_repr] at h
  rw [← Nat.ofDigitChars_ten_toDigits (n := n), h, Nat.ofDigitChars_ten_toDigits]

theorem colon_notMem (n : Nat) : ':' ∉ (toString n).toList := by
  rw [Nat.toString_eq_repr, Nat.toList_repr]
  intro hc
  exact absurd (Nat.isDigit_of_mem_toDigits (by decide) (by decide) hc) (by decide)

/-- What stands before the first separator, and after it. -/
theorem append_cons_inj_of_notMem_left {α : Type*} {x x' z z' : List α} {c : α} (hx : c ∉ x)
    (hx' : c ∉ x') (h : x ++ c :: z = x' ++ c :: z') : x = x' ∧ z = z' := by
  induction x generalizing x' with
  | nil =>
      cases x' with
      | nil => exact ⟨rfl, (List.cons.inj h).2⟩
      | cons d rest => exact absurd ((List.cons.inj h).1 ▸ List.mem_cons_self) hx'
  | cons d rest ih =>
      cases x' with
      | nil => exact absurd ((List.cons.inj h).1.symm ▸ List.mem_cons_self) hx
      | cons d' rest' =>
          obtain ⟨rfl, hrest⟩ := List.cons.inj h
          obtain ⟨rfl, hz⟩ := ih (fun hc => hx (List.mem_cons_of_mem _ hc))
            (fun hc => hx' (List.mem_cons_of_mem _ hc)) hrest
          exact ⟨rfl, hz⟩

/-- A number at the end of a name can be told from what stands before the colon. -/
theorem append_colon_toString_inj {left left' : String} {n n' : Nat}
    (h : left ++ ":" ++ toString n = left' ++ ":" ++ toString n') : left = left' ∧ n = n' := by
  have hlist := congrArg (fun s => s.toList.reverse) h
  simp only [String.toList_append, List.reverse_append] at hlist
  have hcolon : (":" : String).toList.reverse = [':'] := rfl
  rw [hcolon, List.singleton_append, List.singleton_append] at hlist
  obtain ⟨hnumber, hleft⟩ := append_cons_inj_of_notMem_left
    (by rw [List.mem_reverse]; exact colon_notMem n)
    (by rw [List.mem_reverse]; exact colon_notMem n') hlist
  exact ⟨String.toList_inj.mp (List.reverse_inj.mp hleft),
    toString_nat_inj (List.reverse_inj.mp hnumber)⟩

end Orqent
