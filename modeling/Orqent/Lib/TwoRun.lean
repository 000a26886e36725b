/-
Two runs of one program.

A transaction either changes the state or fails and leaves it.  A use case is a sequence
of transactions: what it has committed stays, also where it fails later.

`Same P m Q` compares the runs of one transaction from two states related by `P`: both
fail with the same error, or both return the same value, in states that `Q` relates.  The
value is the same on both sides, so what comes next is the same program again, and the
rules are those of an ordinary triple.  `Alike` is the same for a use case, with a second
relation for the states in which it fails.
-/
import Mathlib.Logic.Basic

namespace Orqent

namespace TwoRun

variable {σ ε α β : Type}

/-- What is made of a state; an error leaves nothing. -/
abbrev Txn (σ ε α : Type) := StateT σ (Except ε) α

/-- Transactions one after the other, each committed. -/
abbrev UseCase (σ ε α : Type) := ExceptT ε (StateM σ) α

/-- Run a transaction and commit it. -/
def commit (m : Txn σ ε α) : UseCase σ ε α := fun s =>
  match m s with
  | .ok (a, s') => (.ok a, s')
  | .error e => (.error e, s)

/-- Read the state; a read can fail. -/
def ask (f : σ → Except ε α) : Txn σ ε α := fun s => (f s).map fun a => (a, s)

/-- Write to the state. -/
def write (g : σ → σ) : Txn σ ε Unit := fun s => .ok ((), g s)

/-- Go on with what was computed, if it did not fail. -/
def lift (x : Except ε α) : Txn σ ε α := fun s => x.map fun a => (a, s)

/-- Go on if the condition holds. -/
def require (c : Prop) [Decidable c] (e : ε) : Txn σ ε Unit := lift (if c then .ok () else .error e)

/-! ### Transactions -/

/-- From states related by `P`, the same error, or the same value and states related by `Q`. -/
def Same (P : σ → σ → Prop) (m : Txn σ ε α) (Q : α → σ → σ → Prop) : Prop :=
  ∀ s t, P s t →
    (∃ e, m s = .error e ∧ m t = .error e) ∨
      ∃ a s' t', m s = .ok (a, s') ∧ m t = .ok (a, t') ∧ Q a s' t'

section Rules

variable {P P' : σ → σ → Prop} {Q Q' : α → σ → σ → Prop} {m : Txn σ ε α}

theorem Same.mono (h : Same P m Q) (hpre : ∀ s t, P' s t → P s t)
    (hpost : ∀ a s t, Q a s t → Q' a s t) : Same P' m Q' := by
  intro s t hst
  rcases h s t (hpre s t hst) with herr | ⟨a, s', t', hs, ht, hq⟩
  · exact .inl herr
  · exact .inr ⟨a, s', t', hs, ht, hpost a s' t' hq⟩

theorem same_pure {a : α} (h : ∀ s t, P s t → Q a s t) : Same P (pure a : Txn σ ε α) Q :=
  fun s t hst => .inr ⟨a, s, t, rfl, rfl, h s t hst⟩

theorem same_bind {k : α → Txn σ ε β} {R : β → σ → σ → Prop} (hm : Same P m Q)
    (hk : ∀ a, Same (Q a) (k a) R) : Same P (m >>= k) R := by
  intro s t hst
  rcases hm s t hst with ⟨e, hs, ht⟩ | ⟨a, s', t', hs, ht, hq⟩
  · refine .inl ⟨e, ?_, ?_⟩
    · show (m s >>= _) = _
      rw [hs]
      rfl
    · show (m t >>= _) = _
      rw [ht]
      rfl
  · have hbind : ∀ {u u' : σ}, m u = .ok (a, u') → (m >>= k) u = k a u' := by
      intro u u' hu
      show (m u >>= _) = _
      rw [hu]
      rfl
    rw [hbind hs, hbind ht]
    exact hk a s' t' hq

/-- A read of which the two states give the same. -/
theorem same_ask {f : σ → Except ε α} (h : ∀ s t, P s t → f s = f t)
    (hpost : ∀ s t a, P s t → f s = .ok a → Q a s t) : Same P (ask f) Q := by
  intro s t hst
  unfold ask
  rw [← h s t hst]
  cases hf : f s with
  | error e => exact .inl ⟨e, rfl, rfl⟩
  | ok a => exact .inr ⟨a, s, t, rfl, rfl, hpost s t a hst hf⟩

theorem same_write {g : σ → σ} {Q : Unit → σ → σ → Prop} (h : ∀ s t, P s t → Q () (g s) (g t)) :
    Same P (write g : Txn σ ε Unit) Q :=
  fun s t hst => .inr ⟨(), g s, g t, rfl, rfl, h s t hst⟩

theorem same_lift {x : Except ε α} (h : ∀ a s t, P s t → x = .ok a → Q a s t) :
    Same P (lift x) Q := by
  intro s t hst
  unfold lift
  cases x with
  | error e => exact .inl ⟨e, rfl, rfl⟩
  | ok a => exact .inr ⟨a, s, t, rfl, rfl, h a s t hst rfl⟩

theorem same_require {c : Prop} [Decidable c] {e : ε} {Q : Unit → σ → σ → Prop}
    (h : ∀ s t, P s t → c → Q () s t) : Same P (require c e) Q := by
  refine same_lift fun a s t hst hx => ?_
  by_cases hc : c
  · exact h s t hst hc
  · rw [if_neg hc] at hx
    cases hx

theorem same_forM {f : β → Txn σ ε PUnit} {xs : List β}
    (h : ∀ x ∈ xs, Same P (f x) fun _ => P) : Same P (xs.forM f) fun _ => P := by
  induction xs with
  | nil => exact same_pure fun _ _ hst => hst
  | cons x rest ih =>
      exact same_bind (h x List.mem_cons_self) fun _ =>
        ih fun y hy => h y (List.mem_cons_of_mem x hy)

theorem same_mapM {f : β → Txn σ ε α} {xs : List β}
    (h : ∀ x ∈ xs, Same P (f x) fun _ => P) : Same P (xs.mapM f) fun _ => P := by
  induction xs with
  | nil => exact same_pure fun _ _ hst => hst
  | cons x rest ih =>
      rw [List.mapM_cons]
      refine same_bind (h x List.mem_cons_self) fun a => ?_
      refine same_bind (ih fun y hy => h y (List.mem_cons_of_mem x hy)) fun as => ?_
      exact same_pure fun _ _ hst => hst

end Rules

/-! ### Use cases -/

/-- From states related by `P`, the same value and states related by `Q`, or the same error
and states related by `E`. -/
def Alike (P : σ → σ → Prop) (m : UseCase σ ε α) (Q : α → σ → σ → Prop) (E : σ → σ → Prop) : Prop :=
  ∀ s t, P s t →
    (∃ e s' t', m s = (.error e, s') ∧ m t = (.error e, t') ∧ E s' t') ∨
      ∃ a s' t', m s = (.ok a, s') ∧ m t = (.ok a, t') ∧ Q a s' t'

section Rules

variable {P : σ → σ → Prop} {Q : α → σ → σ → Prop} {E : σ → σ → Prop}

theorem alike_pure {a : α} (h : ∀ s t, P s t → Q a s t) :
    Alike P (pure a : UseCase σ ε α) Q E :=
  fun s t hst => .inr ⟨a, s, t, rfl, rfl, h s t hst⟩

theorem alike_throw {e : ε} (h : ∀ s t, P s t → E s t) :
    Alike P (throw e : UseCase σ ε α) Q E :=
  fun s t hst => .inl ⟨e, s, t, rfl, rfl, h s t hst⟩

theorem alike_bind {m : UseCase σ ε α} {k : α → UseCase σ ε β} {R : β → σ → σ → Prop}
    (hm : Alike P m Q E) (hk : ∀ a, Alike (Q a) (k a) R E) : Alike P (m >>= k) R E := by
  intro s t hst
  rcases hm s t hst with ⟨e, s', t', hs, ht, he⟩ | ⟨a, s', t', hs, ht, hq⟩
  · have hfail : ∀ {u u' : σ}, m u = (.error e, u') → (m >>= k) u = (.error e, u') := by
      intro u u' hu
      show (ExceptT.bindCont k (m u).1 : StateM σ _) (m u).2 = _
      rw [hu]
      rfl
    exact .inl ⟨e, s', t', hfail hs, hfail ht, he⟩
  · have hbind : ∀ {u u' : σ}, m u = (.ok a, u') → (m >>= k) u = k a u' := by
      intro u u' hu
      show (ExceptT.bindCont k (m u).1 : StateM σ _) (m u).2 = _
      rw [hu]
      rfl
    rw [hbind hs, hbind ht]
    exact hk a s' t' hq

/-- What a transaction leaves, it leaves when it commits; where it fails nothing is changed. -/
theorem alike_commit {m : Txn σ ε α} (h : Same P m Q) (hE : ∀ s t, P s t → E s t) :
    Alike P (commit m) Q E := by
  intro s t hst
  unfold commit
  rcases h s t hst with ⟨e, hs, ht⟩ | ⟨a, s', t', hs, ht, hq⟩
  · rw [hs, ht]
    exact .inl ⟨e, s, t, rfl, rfl, hE s t hst⟩
  · rw [hs, ht]
    exact .inr ⟨a, s', t', rfl, rfl, hq⟩

end Rules

end TwoRun

end Orqent
