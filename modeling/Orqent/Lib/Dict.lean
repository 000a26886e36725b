/-
Dictionaries as association lists.

A dictionary lists its entries in the order their keys were first assigned.
`set` replaces the value of a key that is there and appends one that is not.

The fact the callers want is `assign_eq`: assigning a list of entries whose keys
are distinct, starting from nothing, gives back that list.
-/
import Mathlib.Data.List.Basic
import Mathlib.Data.List.Nodup

namespace Orqent

/-- A dictionary: entries in insertion order. -/
abbrev Dict (κ ν : Type*) := List (κ × ν)

namespace Dict

variable {κ ν : Type*} [DecidableEq κ]

/-- The value under a key, if there is one. -/
def get? : Dict κ ν → κ → Option ν
  | [], _ => none
  | (k, v) :: rest, key => if k = key then some v else get? rest key

/-- Whether the key is there. -/
def contains (d : Dict κ ν) (key : κ) : Bool :=
  (d.get? key).isSome

/-- Assign a value to a key: in place if the key is there, at the end if not. -/
def set : Dict κ ν → κ → ν → Dict κ ν
  | [], key, val => [(key, val)]
  | (k, v) :: rest, key, val =>
      if k = key then (k, val) :: rest else (k, v) :: set rest key val

/-- Assign the entries of a list one after another. -/
def assign (d : Dict κ ν) (entries : List (κ × ν)) : Dict κ ν :=
  entries.foldl (fun d e => d.set e.1 e.2) d

/-- What is in a mapping after an assignment was assigned, or was there. -/
theorem mem_set (d : Dict κ ν) {key : κ} {val : ν} {e : κ × ν} (h : e ∈ d.set key val) :
    e = (key, val) ∨ e ∈ d := by
  induction d with
  | nil => exact .inl (List.mem_singleton.mp h)
  | cons entry rest ih =>
      obtain ⟨k, v⟩ := entry
      unfold set at h
      split at h
      · rename_i hkey
        rcases List.mem_cons.mp h with rfl | h
        · exact .inl (by rw [hkey])
        · exact .inr (List.mem_cons_of_mem _ h)
      · rcases List.mem_cons.mp h with rfl | h
        · exact .inr List.mem_cons_self
        · exact (ih h).imp_right (List.mem_cons_of_mem _)

theorem mem_assign (d : Dict κ ν) {entries : List (κ × ν)} {e : κ × ν}
    (h : e ∈ d.assign entries) : e ∈ d ∨ e ∈ entries := by
  induction entries generalizing d with
  | nil => exact .inl h
  | cons entry rest ih =>
      rcases ih (d.set entry.1 entry.2) h with h | h
      · exact (mem_set d h).elim (fun he => .inr (he ▸ List.mem_cons_self)) .inl
      · exact .inr (List.mem_cons_of_mem _ h)

/-- Assigning to a key that is not there appends the entry. -/
theorem set_of_not_mem (d : Dict κ ν) {key : κ} (val : ν) (h : key ∉ d.map Prod.fst) :
    d.set key val = d ++ [(key, val)] := by
  induction d with
  | nil => rfl
  | cons e rest ih =>
      obtain ⟨k, v⟩ := e
      simp only [List.map_cons, List.mem_cons, not_or] at h
      rw [set, if_neg (fun hc => h.1 hc.symm), ih h.2]
      rfl

theorem assign_append (d : Dict κ ν) (entries : List (κ × ν))
    (h : ((d ++ entries).map Prod.fst).Nodup) : d.assign entries = d ++ entries := by
  induction entries generalizing d with
  | nil => simp [assign]
  | cons e rest ih =>
      have hnot : e.1 ∉ d.map Prod.fst := by
        intro hc
        rw [List.map_append, List.nodup_append] at h
        exact h.2.2 e.1 hc e.1 (by simp) rfl
      show (d.set e.1 e.2).assign rest = d ++ e :: rest
      rw [set_of_not_mem d e.2 hnot, ih _ (by simpa using h)]
      simp

/-- **Assigning entries with distinct keys to an empty dictionary gives the entries.** -/
theorem assign_eq (entries : List (κ × ν)) (h : (entries.map Prod.fst).Nodup) :
    assign [] entries = entries := by
  simpa using assign_append [] entries (by simpa using h)

/-- What is read after an assignment. -/
theorem get?_set (d : Dict κ ν) (key : κ) (val : ν) (k : κ) :
    (d.set key val).get? k = if key = k then some val else d.get? k := by
  induction d with
  | nil => rfl
  | cons e rest ih =>
      obtain ⟨j, v⟩ := e
      by_cases hj : j = key
      · subst hj
        by_cases hk : j = k <;> simp [set, get?, hk]
      · rw [set, if_neg hj, get?, get?, ih]
        by_cases hk : j = k
        · have hne : key ≠ k := fun hc => hj (hk.trans hc.symm)
          simp [hk, hne]
        · simp [hk]

/-- Assigning to a key that is there keeps the keys. -/
theorem keys_set_of_mem (d : Dict κ ν) {key : κ} (val : ν) (h : key ∈ d.map Prod.fst) :
    (d.set key val).map Prod.fst = d.map Prod.fst := by
  induction d with
  | nil => exact nomatch h
  | cons e rest ih =>
      obtain ⟨k, v⟩ := e
      by_cases hk : k = key
      · simp [set, hk]
      · have hrest : key ∈ rest.map Prod.fst :=
          (List.mem_cons.mp h).resolve_left fun hc => hk hc.symm
        rw [set, if_neg hk, List.map_cons, List.map_cons, ih hrest]

/-- No assignment makes two entries of one key. -/
theorem nodup_set (d : Dict κ ν) (key : κ) (val : ν) (h : (d.map Prod.fst).Nodup) :
    ((d.set key val).map Prod.fst).Nodup := by
  by_cases hmem : key ∈ d.map Prod.fst
  · rw [keys_set_of_mem d val hmem]
    exact h
  · rw [set_of_not_mem d val hmem, List.map_append]
    exact List.Nodup.append h (List.nodup_singleton key) (by simpa using hmem)

theorem mem_of_get? (d : Dict κ ν) {key : κ} {val : ν} (h : d.get? key = some val) :
    (key, val) ∈ d := by
  induction d with
  | nil => exact nomatch h
  | cons e rest ih =>
      obtain ⟨k, v⟩ := e
      by_cases hk : k = key
      · rw [get?, if_pos hk, Option.some.injEq] at h
        rw [hk, h]
        exact List.mem_cons_self
      · rw [get?, if_neg hk] at h
        exact List.mem_cons_of_mem _ (ih h)

/-- Where no key has two entries, every entry is the one under its key. -/
theorem get?_of_mem (d : Dict κ ν) {key : κ} {val : ν} (hnodup : (d.map Prod.fst).Nodup)
    (h : (key, val) ∈ d) : d.get? key = some val := by
  induction d with
  | nil => exact nomatch h
  | cons e rest ih =>
      obtain ⟨k, v⟩ := e
      rw [List.map_cons, List.nodup_cons] at hnodup
      rcases List.mem_cons.mp h with heq | hrest
      · obtain ⟨rfl, rfl⟩ := Prod.mk.inj heq
        rw [get?, if_pos rfl]
      · have hne : k ≠ key := by
          intro hc
          subst hc
          exact hnodup.1 (List.mem_map.mpr ⟨_, hrest, rfl⟩)
        rw [get?, if_neg hne]
        exact ih hnodup.2 hrest

theorem contains_iff (d : Dict κ ν) (key : κ) :
    d.contains key = true ↔ ∃ v, d.get? key = some v := by
  rw [contains, Option.isSome_iff_exists]

theorem contains_set (d : Dict κ ν) (key : κ) (val : ν) (k : κ) :
    (d.set key val).contains k = true ↔ d.contains k = true ∨ k = key := by
  unfold contains
  rw [get?_set]
  by_cases hk : key = k
  · simp [hk]
  · simp [hk, Ne.symm hk]

/-- What is there after an assignment was there, or was assigned. -/
theorem contains_assign (d : Dict κ ν) (entries : List (κ × ν)) (k : κ) :
    (d.assign entries).contains k = true ↔ d.contains k = true ∨ k ∈ entries.map Prod.fst := by
  induction entries generalizing d with
  | nil => simp [assign]
  | cons entry rest ih =>
      have hrest := ih (d.set entry.1 entry.2)
      rw [contains_set] at hrest
      rw [List.map_cons, List.mem_cons, ← or_assoc]
      exact hrest

end Dict

end Orqent
