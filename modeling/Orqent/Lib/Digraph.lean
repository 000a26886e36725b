/-
Finite directed graphs without cycles.

A relation is acyclic when no element reaches itself.  Three views of that are
used: a rank that grows along every edge proves it; over a finite list of
elements it gives such a rank, the number of elements upstream, and with it
well-founded induction and recursion (`rounds`); and an order in which every edge
leads backwards proves it too.
-/
import Mathlib.Logic.Relation
import Mathlib.Order.WellFounded
import Mathlib.Data.List.Basic

namespace Orqent.Digraph

variable {α : Type*} {r : α → α → Prop} {nodes : List α} {a b : α}

/-- Nothing reaches itself. -/
def Acyclic (r : α → α → Prop) : Prop := ∀ a, ¬ Relation.TransGen r a a

theorem rank_lt_of_transGen {rank : α → Nat} (h : ∀ a b, r a b → rank a < rank b)
    (hab : Relation.TransGen r a b) : rank a < rank b := by
  induction hab with
  | single hab => exact h _ _ hab
  | tail _ hbc ih => exact Nat.lt_trans ih (h _ _ hbc)

/-- A rank that grows along every edge rules cycles out. -/
theorem acyclic_of_rank (rank : α → Nat) (h : ∀ a b, r a b → rank a < rank b) : Acyclic r :=
  fun _ hcycle => Nat.lt_irrefl _ (rank_lt_of_transGen h hcycle)

/-- What is counted for one reason and more is fewer, if the reason leaves an element out. -/
theorem countP_lt {l : List α} {p q : α → Bool} (h : ∀ x ∈ l, p x = true → q x = true) {x : α}
    (hx : x ∈ l) (hp : p x = false) (hq : q x = true) : l.countP p < l.countP q := by
  obtain ⟨before, after, rfl⟩ := List.append_of_mem hx
  have hbefore : before.countP p ≤ before.countP q :=
    List.countP_mono_left fun y hy => h y (by simp [hy])
  have hafter : after.countP p ≤ after.countP q :=
    List.countP_mono_left fun y hy => h y (by simp [hy])
  rw [List.countP_append, List.countP_append, List.countP_cons_of_neg (by simp [hp]),
    List.countP_cons_of_pos hq]
  omega

open Classical in
/-- The number of listed elements upstream of `a`. -/
noncomputable def depth (r : α → α → Prop) (nodes : List α) (a : α) : Nat :=
  (nodes.filter fun b => Relation.TransGen r b a).length

open Classical in
/-- What is upstream of `a` is upstream of whatever `a` leads to, and `a` is not upstream of
itself. -/
theorem depth_lt (hacyclic : Acyclic r) (ha : a ∈ nodes) (hab : r a b) :
    depth r nodes a < depth r nodes b := by
  unfold depth
  rw [← List.countP_eq_length_filter, ← List.countP_eq_length_filter]
  refine countP_lt (fun c _ hc => ?_) ha (by simpa using hacyclic a) ?_
  · have hca : Relation.TransGen r c a := by simpa using hc
    simpa using hca.tail hab
  · simpa using Relation.TransGen.single hab

open Classical in
theorem depth_lt_length (hacyclic : Acyclic r) (ha : a ∈ nodes) : depth r nodes a < nodes.length :=
  List.length_filter_lt_length_iff_exists.mpr ⟨a, ha, by simpa using hacyclic a⟩

/-- **Induction along the edges** of an acyclic graph whose edges leave listed elements. -/
theorem acyclic_induction (hacyclic : Acyclic r) (hmem : ∀ a b, r a b → a ∈ nodes)
    {P : α → Prop} (h : ∀ b, (∀ a, r a b → P a) → P b) (b : α) : P b := by
  induction hd : depth r nodes b using Nat.strong_induction_on generalizing b with
  | _ n ih =>
      refine h b fun a hab => ?_
      exact ih (depth r nodes a) (hd ▸ depth_lt hacyclic (hmem a b hab) hab) a rfl

/-! ### Recursion along the edges -/

section Recursion

variable {β : Type*} {F : (α → β) → α → β} {unknown : β}

/-- `n` rounds of a recursion, from a value for what is not known yet. -/
def rounds (F : (α → β) → α → β) (unknown : β) : Nat → α → β
  | 0 => fun _ => unknown
  | n + 1 => F (rounds F unknown n)

/-- What `F` says of an element depends on its predecessors only. -/
def Local (r : α → α → Prop) (F : (α → β) → α → β) : Prop :=
  ∀ f f' b, (∀ a, r a b → f a = f' a) → F f b = F f' b

/-- More rounds than an element has others upstream make no difference to it. -/
theorem rounds_stable (hacyclic : Acyclic r) (hmem : ∀ a b, r a b → a ∈ nodes)
    (hlocal : Local r F) :
    ∀ b n m, depth r nodes b < n → depth r nodes b < m →
      rounds F unknown n b = rounds F unknown m b := by
  refine acyclic_induction hacyclic hmem fun b ih n m hn hm => ?_
  obtain ⟨n, rfl⟩ := Nat.exists_eq_add_one_of_ne_zero (Nat.ne_zero_of_lt hn)
  obtain ⟨m, rfl⟩ := Nat.exists_eq_add_one_of_ne_zero (Nat.ne_zero_of_lt hm)
  refine hlocal _ _ b fun a hab => ?_
  have hlt := depth_lt hacyclic (hmem a b hab) hab
  exact ih a hab n m (by omega) (by omega)

/-- **As many rounds as there are elements solve the recursion.** -/
theorem rounds_eq (hacyclic : Acyclic r) (hmem : ∀ a b, r a b → a ∈ nodes) (hlocal : Local r F)
    (hb : b ∈ nodes) :
    rounds F unknown nodes.length b = F (rounds F unknown nodes.length) b := by
  have hdepth := depth_lt_length hacyclic hb
  obtain ⟨n, hn⟩ := Nat.exists_eq_add_one_of_ne_zero (Nat.ne_zero_of_lt hdepth)
  rw [hn]
  refine hlocal _ _ b fun a hab => ?_
  have hlt := depth_lt hacyclic (hmem a b hab) hab
  exact rounds_stable hacyclic hmem hlocal a n (n + 1) (by omega) (by omega)

end Recursion

/-! ### Topological orders -/

/-- An order in which every edge from a listed element leads further back. -/
inductive Topological (r : α → α → Prop) : List α → Prop
  | nil : Topological r []
  | cons (a : α) (rest : List α) (hsucc : ∀ b, r a b → b ∈ rest) (h : Topological r rest) :
      Topological r (a :: rest)

/-- What a listed element reaches is listed. -/
theorem Topological.closed {order : List α} (h : Topological r order) (ha : a ∈ order)
    (hab : Relation.TransGen r a b) : b ∈ order := by
  have hone : ∀ c d, c ∈ order → r c d → d ∈ order := by
    clear ha hab
    induction h with
    | nil =>
        intro c d hc
        simp at hc
    | cons x rest hsucc _ ih =>
        intro c d hc hcd
        rcases List.mem_cons.mp hc with rfl | hc
        · exact List.mem_cons_of_mem _ (hsucc d hcd)
        · exact List.mem_cons_of_mem _ (ih c d hc hcd)
  induction hab with
  | single hab => exact hone _ _ ha hab
  | tail _ hbc ih => exact hone _ _ ih hbc

/-- **A graph whose elements can be listed topologically has no cycle.** -/
theorem acyclic_of_topological {order : List α} (h : Topological r order)
    (hall : ∀ a b, r a b → a ∈ order) : Acyclic r := by
  have hnone : ∀ a ∈ order, ¬ Relation.TransGen r a a := by
    clear hall
    induction h with
    | nil =>
        intro a ha
        simp at ha
    | cons x rest hsucc hrest ih =>
        have hclosed : ∀ c, Relation.TransGen r x c → c ∈ rest := by
          intro c hxc
          induction hxc with
          | single hxb => exact hsucc _ hxb
          | tail _ hbc ihc => exact hrest.closed ihc (.single hbc)
        intro a ha hcycle
        rcases List.mem_cons.mp ha with rfl | ha
        · exact ih a (hclosed a hcycle) hcycle
        · exact ih a ha hcycle
  intro a hcycle
  obtain ⟨b, hab, -⟩ := Relation.TransGen.head'_iff.mp hcycle
  exact hnone a (hall a b hab) hcycle

end Orqent.Digraph
