/-
Transactions that read and lock as they go.

A transaction is a program: it decides its next statement from what the ones before
returned.  A plain read sees the rows as they were committed at the transaction's first
plain read, with its own changes.  A locking statement acts on the latest committed rows,
with the transaction's own changes; it waits while another transaction holds a lock that
conflicts with one it needs, and its locks are kept until the transaction ends.  What a
transaction changed is private until its commit installs it.

Locks are values with a relation of conflict, so a lock may stand for a row or for a
range that rows are inserted into.  A locking statement is told which locks are free:
one that skips locked rows chooses by that.

`Keeps` is an invariant of the committed rows together with an assertion about each open
transaction.  `pool_rule` says that it is enough to look at two transactions at a time:
what one does to its own assertion, and what the commit of another does to it.
-/
import Orqent.Lib.Trace
import Mathlib.Logic.Function.Basic

namespace Orqent

/-- The next thing a transaction in state `ℓ` does, over rows `σ` with locks `L`. -/
inductive RowStatement (σ ℓ L : Type*)
  | read (k : σ → ℓ)
  /-- What it locks, what it comes to and how it changes the rows; `none` if it raises. -/
  | lock (locks : (L → Bool) → σ → List L) (run : (L → Bool) → σ → Option (ℓ × (σ → σ)))
  | commit
  | raise

/-- The transactions of the calls `τ`. -/
structure RowTxn (σ τ ℓ L : Type*) where
  start : τ → ℓ
  next : ℓ → RowStatement σ ℓ L
  conflicts : L → L → Bool
  conflicts_symm : ∀ l l', conflicts l l' = conflicts l' l

namespace RowTxn

variable {σ τ ℓ L ι : Type*}

/-- An open transaction: its state, what its plain reads see, and what it changed. -/
structure Txn (σ ℓ : Type*) where
  state : ℓ
  snap : Option σ
  changes : List (σ → σ)

/-- The committed rows, the last states of the transactions that committed, in order, the
open transactions, and the locks they hold. -/
structure Pool (σ ℓ L ι : Type*) where
  committed : σ
  log : List ℓ
  opened : ι → Option (Txn σ ℓ)
  locks : List (ι × L)

/-- What can happen to a pool.  An abort is a deadlock, a crash, or an exception. -/
inductive Event (τ ι : Type*)
  | begin (i : ι) (call : τ)
  | step (i : ι)
  | abort (i : ι)

/-- The rows with some changes made to them. -/
def view (changes : List (σ → σ)) (s : σ) : σ := changes.foldl (fun s d => d s) s

@[simp] theorem view_nil (s : σ) : view [] s = s := rfl

@[simp] theorem view_snoc (changes : List (σ → σ)) (d : σ → σ) (s : σ) :
    view (changes ++ [d]) s = d (view changes s) := by
  simp [view]

/-- A pool over the rows `s` with no transaction open. -/
def Pool.start (s : σ) : Pool σ ℓ L ι := ⟨s, [], fun _ => none, []⟩

section Step

variable [DecidableEq ι] (S : RowTxn σ τ ℓ L)

/-- The locks a transaction holds. -/
def Pool.held (p : Pool σ ℓ L ι) (i : ι) : List L := (p.locks.filter fun e => e.1 = i).map Prod.snd

/-- No other transaction holds a lock in conflict with this one. -/
def Pool.free (p : Pool σ ℓ L ι) (i : ι) (l : L) : Bool :=
  p.locks.all fun e => e.1 = i || !S.conflicts l e.2

/-- The transaction is over and its locks are free. -/
def Pool.ended (p : Pool σ ℓ L ι) (i : ι) : Pool σ ℓ L ι :=
  { p with opened := Function.update p.opened i none, locks := p.locks.filter fun e => e.1 ≠ i }

/-- The transaction moves on. -/
def Pool.put (p : Pool σ ℓ L ι) (i : ι) (t : Txn σ ℓ) : Pool σ ℓ L ι :=
  { p with opened := Function.update p.opened i (some t) }

/-- The next statement of an open transaction; a locking one may have to wait. -/
def stepTxn (p : Pool σ ℓ L ι) (i : ι) (t : Txn σ ℓ) : Option (Pool σ ℓ L ι) :=
  match S.next t.state with
  | .read k =>
      let snap := t.snap.getD p.committed
      some (p.put i ⟨k (view t.changes snap), some snap, t.changes⟩)
  | .lock locks run =>
      let latest := view t.changes p.committed
      let wanted := locks (p.free S i) latest
      if wanted.all (p.free S i) then
        match run (p.free S i) latest with
        | none => some (p.ended i)
        | some (state, d) =>
            some
              { p.put i ⟨state, t.snap, t.changes ++ [d]⟩ with
                locks := p.locks ++ wanted.map fun l => (i, l) }
      else none
  | .commit =>
      some
        { p.ended i with
          committed := view t.changes p.committed
          log := p.log ++ [t.state] }
  | .raise => some (p.ended i)

/-- One event: a transaction begins, executes a statement, or is aborted. -/
def poolStep (p : Pool σ ℓ L ι) : Event τ ι → Option (Pool σ ℓ L ι)
  | .begin i call =>
      match p.opened i with
      | some _ => none
      | none => some (p.put i ⟨S.start call, none, []⟩)
  | .step i => (p.opened i).bind (stepTxn S p i)
  | .abort i => (p.opened i).map fun _ => p.ended i

end Step

variable [DecidableEq ι] {S : RowTxn σ τ ℓ L} {p p' : Pool σ ℓ L ι} {i j : ι} {t u : Txn σ ℓ}
  {s₀ : σ} {events : List (Event τ ι)}

/-! ### Locks -/

theorem Pool.mem_held {l : L} : l ∈ p.held i ↔ (i, l) ∈ p.locks := by
  unfold Pool.held
  simp only [List.mem_map, List.mem_filter, decide_eq_true_eq]
  constructor
  · rintro ⟨⟨j, l'⟩, ⟨hmem, rfl⟩, rfl⟩
    exact hmem
  · exact fun h => ⟨(i, l), ⟨h, rfl⟩, rfl⟩

theorem Pool.free_iff {l : L} :
    p.free S i l = true ↔ ∀ j ≠ i, ∀ l' ∈ p.held j, S.conflicts l l' = false := by
  unfold Pool.free
  simp only [List.all_eq_true, Bool.or_eq_true, decide_eq_true_eq, Bool.not_eq_true']
  constructor
  · intro h j hj l' hl'
    exact (h (j, l') (Pool.mem_held.mp hl')).resolve_left hj
  · rintro h ⟨j, l'⟩ he
    by_cases hj : j = i
    · exact Or.inl hj
    · exact Or.inr (h j hj l' (Pool.mem_held.mpr he))

theorem Pool.held_ended_self : (p.ended i).held i = [] := by
  refine List.eq_nil_iff_forall_not_mem.mpr fun l hl => ?_
  have hmem := Pool.mem_held.mp hl
  simp [Pool.ended] at hmem

theorem Pool.held_ended_ne (hj : j ≠ i) : (p.ended i).held j = p.held j := by
  unfold Pool.held Pool.ended
  rw [List.filter_filter]
  refine congrArg _ (List.filter_congr fun e _ => ?_)
  by_cases he : e.1 = j
  · simp [he, hj]
  · simp [he]

theorem Pool.opened_ended_ne (hj : j ≠ i) : (p.ended i).opened j = p.opened j :=
  Function.update_of_ne hj ..

@[simp] theorem Pool.opened_ended_self : (p.ended i).opened i = none := Function.update_self ..

theorem Pool.held_locked (p : Pool σ ℓ L ι) (i j : ι) (wanted : List L) :
    Pool.held { p with locks := p.locks ++ wanted.map fun l => (i, l) } j =
      if j = i then p.held i ++ wanted else p.held j := by
  unfold Pool.held
  dsimp only
  rw [List.filter_append, List.map_append]
  split
  · rename_i hj
    subst hj
    have hall : (wanted.map fun l => (j, l)).filter (fun e => e.1 = j)
        = wanted.map fun l => (j, l) := by
      rw [List.filter_eq_self]
      simp
    rw [hall, List.map_map]
    exact congrArg _ (List.map_id _)
  · rename_i hj
    have hnone : (wanted.map fun l => (i, l)).filter (fun e => e.1 = j) = [] := by
      rw [List.filter_eq_nil_iff]
      simpa using fun _ _ => Ne.symm hj
    rw [hnone]
    exact List.append_nil _

theorem Pool.opened_put_ne (hj : j ≠ i) : (p.put i t).opened j = p.opened j :=
  Function.update_of_ne hj ..

@[simp] theorem Pool.opened_put_self : (p.put i t).opened i = some t := Function.update_self ..

/-- A transaction that is closed after another moved on was closed before. -/
theorem Pool.closed_of_put (h : (p.put i t).opened j = none) : j ≠ i ∧ p.opened j = none := by
  have hji : j ≠ i := by
    rintro rfl
    rw [Pool.opened_put_self] at h
    cases h
  exact ⟨hji, Pool.opened_put_ne hji ▸ h⟩

/-! ### What an event does -/

/-- What a pool keeps whatever its transactions are: locks do not conflict, and are held by
open transactions only. -/
structure PoolOk (S : RowTxn σ τ ℓ L) (p : Pool σ ℓ L ι) : Prop where
  apart : ∀ i j, i ≠ j → ∀ l ∈ p.held i, ∀ l' ∈ p.held j, S.conflicts l l' = false
  opened : ∀ i, p.opened i = none → p.held i = []

/-- Everything an event can do. -/
inductive Moves (S : RowTxn σ τ ℓ L) (p : Pool σ ℓ L ι) : Event τ ι → Pool σ ℓ L ι → Prop
  | begin (i : ι) (call : τ) (hclosed : p.opened i = none) :
      Moves S p (.begin i call) (p.put i ⟨S.start call, none, []⟩)
  | read (i : ι) (t : Txn σ ℓ) (k : σ → ℓ) (hopen : p.opened i = some t)
      (hnext : S.next t.state = .read k) :
      Moves S p (.step i)
        (p.put i ⟨k (view t.changes (t.snap.getD p.committed)), some (t.snap.getD p.committed),
          t.changes⟩)
  | lock (i : ι) (t : Txn σ ℓ) (locks : (L → Bool) → σ → List L)
      (run : (L → Bool) → σ → Option (ℓ × (σ → σ))) (state : ℓ) (d : σ → σ)
      (hopen : p.opened i = some t) (hnext : S.next t.state = .lock locks run)
      (hfree : ∀ l ∈ locks (p.free S i) (view t.changes p.committed), p.free S i l = true)
      (hrun : run (p.free S i) (view t.changes p.committed) = some (state, d)) :
      Moves S p (.step i)
        { p.put i ⟨state, t.snap, t.changes ++ [d]⟩ with
          locks := p.locks ++
            (locks (p.free S i) (view t.changes p.committed)).map fun l => (i, l) }
  | commit (i : ι) (t : Txn σ ℓ) (hopen : p.opened i = some t)
      (hnext : S.next t.state = .commit) :
      Moves S p (.step i)
        { p.ended i with
          committed := view t.changes p.committed
          log := p.log ++ [t.state] }
  /-- The transaction ends without a commit. -/
  | ended (e : Event τ ι) (i : ι) (t : Txn σ ℓ) (hopen : p.opened i = some t)
      (hend : e = .abort i ∨ e = .step i ∧ S.next t.state ≠ .commit) :
      Moves S p e (p.ended i)

theorem poolStep_moves {e : Event τ ι} (h : poolStep S p e = some p') : Moves S p e p' := by
  cases e with
  | begin i call =>
      unfold poolStep at h
      dsimp only at h
      split at h
      · cases h
      · rename_i hclosed
        obtain rfl := Option.some.inj h
        exact .begin i call hclosed
  | abort i =>
      obtain ⟨t, hopen, rfl⟩ := Option.map_eq_some_iff.mp h
      exact .ended _ i t hopen (Or.inl rfl)
  | step i =>
      obtain ⟨t, hopen, hstep⟩ := Option.bind_eq_some_iff.mp h
      unfold stepTxn at hstep
      split at hstep
      · rename_i k hnext
        obtain rfl := Option.some.inj hstep
        exact .read i t k hopen hnext
      · rename_i locks run hnext
        dsimp only at hstep
        split at hstep
        · rename_i hfree
          split at hstep
          · obtain rfl := Option.some.inj hstep
            exact .ended _ i t hopen (Or.inr ⟨rfl, by simp [hnext]⟩)
          · rename_i state d hrun
            obtain rfl := Option.some.inj hstep
            exact .lock i t locks run state d hopen hnext (List.all_eq_true.mp hfree) hrun
        · cases hstep
      · rename_i hnext
        obtain rfl := Option.some.inj hstep
        exact .commit i t hopen hnext
      · rename_i hnext
        obtain rfl := Option.some.inj hstep
        exact .ended _ i t hopen (Or.inr ⟨rfl, by simp [hnext]⟩)

/-- The transaction an event is of. -/
def Event.txn : Event τ ι → ι
  | .begin i _ => i
  | .step i => i
  | .abort i => i

theorem Moves.opened_other {e : Event τ ι} (h : Moves S p e p') (hj : j ≠ e.txn) :
    p'.opened j = p.opened j := by
  cases h with
  | begin i call hclosed => exact Pool.opened_put_ne hj
  | read i t k hopen hnext => exact Pool.opened_put_ne hj
  | lock i t locks run state d hopen hnext hfree hrun => exact Pool.opened_put_ne hj
  | commit i t hopen hnext => exact Pool.opened_ended_ne hj
  | ended e i t hopen hend =>
      rcases hend with rfl | ⟨rfl, -⟩
      · exact Pool.opened_ended_ne hj
      · exact Pool.opened_ended_ne hj

/-- A statement that ends its transaction commits it, or raises. -/
theorem closed_by_step (h : poolStep S p (.step i) = some p') (hopen : p.opened i = some t)
    (hclosed : p'.opened i = none) :
    S.next t.state = .commit ∨ S.next t.state = .raise ∨
      ∃ locks run free s, S.next t.state = .lock locks run ∧ run free s = none := by
  unfold poolStep at h
  dsimp only at h
  rw [hopen, Option.bind_some] at h
  unfold stepTxn at h
  split at h
  · obtain rfl := Option.some.inj h
    cases (Pool.opened_put_self ..).symm.trans hclosed
  · rename_i locks run hnext
    dsimp only at h
    split at h
    · split at h
      · rename_i hrun
        exact Or.inr (Or.inr ⟨locks, run, _, _, hnext, hrun⟩)
      · obtain rfl := Option.some.inj h
        cases (Pool.opened_put_self ..).symm.trans hclosed
    · cases h
  · rename_i hnext
    exact Or.inl hnext
  · rename_i hnext
    exact Or.inr (Or.inl hnext)

theorem PoolOk.start : PoolOk S (Pool.start s₀ : Pool σ ℓ L ι) where
  apart := by
    intro i j _ l hl
    cases hl
  opened := fun _ _ => rfl

theorem PoolOk.ended (h : PoolOk S p) (i : ι) : PoolOk S (p.ended i) where
  apart := by
    intro j k hjk l hl l' hl'
    by_cases hj : j = i
    · rw [hj, Pool.held_ended_self] at hl
      cases hl
    by_cases hk : k = i
    · rw [hk, Pool.held_ended_self] at hl'
      cases hl'
    rw [Pool.held_ended_ne hj] at hl
    rw [Pool.held_ended_ne hk] at hl'
    exact h.apart j k hjk l hl l' hl'
  opened := by
    intro j hj
    by_cases hji : j = i
    · rw [hji, Pool.held_ended_self]
    · rw [Pool.opened_ended_ne hji] at hj
      rw [Pool.held_ended_ne hji]
      exact h.opened j hj

theorem Moves.ok {e : Event τ ι} (h : PoolOk S p) (hmoves : Moves S p e p') : PoolOk S p' := by
  cases hmoves with
  | begin i call hclosed => exact ⟨h.apart, fun j hj => h.opened j (Pool.closed_of_put hj).2⟩
  | read i t k hopen hnext => exact ⟨h.apart, fun j hj => h.opened j (Pool.closed_of_put hj).2⟩
  | lock i t locks run state d hopen hnext hfree hrun =>
      refine ⟨fun j k hjk l hl l' hl' => ?_, fun j hj => ?_⟩
      · have hheld := fun k => Pool.held_locked p i k
          (locks (p.free S i) (view t.changes p.committed))
        replace hl := (hheld j) ▸ hl
        replace hl' := (hheld k) ▸ hl'
        -- A new lock was free, so it conflicts with nobody else's.
        have hnew : ∀ k ≠ i, ∀ l ∈ locks (p.free S i) (view t.changes p.committed),
            ∀ l' ∈ p.held k, S.conflicts l l' = false := fun k hk l hl l' hl' =>
          Pool.free_iff.mp (hfree l hl) k hk l' hl'
        by_cases hj : j = i
        · rw [if_pos hj] at hl
          rw [if_neg (fun hc => hjk (hj.trans hc.symm))] at hl'
          rcases List.mem_append.mp hl with hold | hwanted
          · exact h.apart i k (fun hc => hjk (hj.trans hc)) l hold l' hl'
          · exact hnew k (fun hc => hjk (hj.trans hc.symm)) l hwanted l' hl'
        · rw [if_neg hj] at hl
          by_cases hk : k = i
          · rw [if_pos hk] at hl'
            rcases List.mem_append.mp hl' with hold | hwanted
            · exact h.apart j i hj l hl l' hold
            · rw [S.conflicts_symm]
              exact hnew j hj l' hwanted l hl
          · rw [if_neg hk] at hl'
            exact h.apart j k hjk l hl l' hl'
      · obtain ⟨hji, hclosed⟩ := Pool.closed_of_put (p := p) hj
        have hheld := Pool.held_locked p i j
          (locks (p.free S i) (view t.changes p.committed))
        rw [if_neg hji, h.opened j hclosed] at hheld
        exact hheld
  | commit i t hopen hnext => exact ⟨(h.ended i).apart, (h.ended i).opened⟩
  | ended e i t hopen hend => exact h.ended i

/-! ### The rule -/

/--
An invariant `I` of the committed rows and the log, and an assertion `T` about an open
transaction and the locks it holds.  Calls that meet `B` begin, and what a transaction
does next meets `G`.
-/
structure Keeps (S : RowTxn σ τ ℓ L) (B : σ → List ℓ → τ → Prop)
    (G : σ → List ℓ → List L → Txn σ ℓ → Prop) (I : σ → List ℓ → Prop)
    (T : σ → List ℓ → List L → Txn σ ℓ → Prop) : Prop where
  begin : ∀ s log call, I s log → B s log call → T s log [] ⟨S.start call, none, []⟩
  read : ∀ s log held t k, I s log → T s log held t → G s log held t → S.next t.state = .read k →
    T s log held ⟨k (view t.changes (t.snap.getD s)), some (t.snap.getD s), t.changes⟩
  lock : ∀ s log held t locks run free state d, I s log → T s log held t → G s log held t →
    S.next t.state = .lock locks run → run free (view t.changes s) = some (state, d) →
      T s log (held ++ locks free (view t.changes s)) ⟨state, t.snap, t.changes ++ [d]⟩
  commit : ∀ s log held t, I s log → T s log held t → G s log held t →
    S.next t.state = .commit → I (view t.changes s) (log ++ [t.state])
  /-- The commit of another transaction, whose locks do not conflict. -/
  other : ∀ s log held t held' u, I s log → T s log held t → T s log held' u → G s log held' u →
    (∀ l ∈ held, ∀ l' ∈ held', S.conflicts l l' = false) → S.next u.state = .commit →
      T (view u.changes s) (log ++ [u.state]) held t

/-- The event begins a call that meets `B`, or is a statement of a transaction that meets `G`. -/
def Allowed (B : σ → List ℓ → τ → Prop) (G : σ → List ℓ → List L → Txn σ ℓ → Prop)
    (p : Pool σ ℓ L ι) : Event τ ι → Prop
  | .begin _ call => B p.committed p.log call
  | .step i => ∀ t, p.opened i = some t → G p.committed p.log (p.held i) t
  | .abort _ => True

/-- The invariant, and the assertion about every open transaction. -/
structure Holds (I : σ → List ℓ → Prop) (T : σ → List ℓ → List L → Txn σ ℓ → Prop)
    (p : Pool σ ℓ L ι) : Prop where
  rows : I p.committed p.log
  txns : ∀ i t, p.opened i = some t → T p.committed p.log (p.held i) t

variable {B : σ → List ℓ → τ → Prop} {G : σ → List ℓ → List L → Txn σ ℓ → Prop}
  {I : σ → List ℓ → Prop} {T : σ → List ℓ → List L → Txn σ ℓ → Prop}

theorem Holds.ended (h : Holds I T p) (i : ι) : Holds I T (p.ended i) where
  rows := h.rows
  txns := by
    intro j t hj
    by_cases hji : j = i
    · rw [hji, Pool.opened_ended_self] at hj
      cases hj
    · rw [Pool.opened_ended_ne hji] at hj
      rw [Pool.held_ended_ne hji]
      exact h.txns j t hj

/-- Where one transaction moves on, its own assertion is all there is to show. -/
theorem Holds.moved (h : Holds I T p) {locks : List (ι × L)} (t : Txn σ ℓ)
    (hheld : ∀ j ≠ i, Pool.held { p with locks } j = p.held j)
    (hself : T p.committed p.log (Pool.held { p with locks } i) t) :
    Holds I T { p.put i t with locks } where
  rows := h.rows
  txns := by
    intro j u hj
    by_cases hji : j = i
    · subst hji
      obtain rfl := Option.some.inj (Pool.opened_put_self.symm.trans hj)
      exact hself
    · have hu := h.txns j u ((Pool.opened_put_ne (p := p) hji).symm.trans hj)
      rw [← hheld j hji] at hu
      exact hu

theorem Keeps.step (hkeeps : Keeps S B G I T) (hok : PoolOk S p) (h : Holds I T p)
    {e : Event τ ι} (hallowed : Allowed B G p e) (hmoves : Moves S p e p') : Holds I T p' := by
  cases hmoves with
  | begin i call hclosed =>
      refine h.moved _ (fun _ _ => rfl) ?_
      have hbegin := hkeeps.begin _ _ call h.rows hallowed
      rw [← hok.opened i hclosed] at hbegin
      exact hbegin
  | read i t k hopen hnext =>
      refine h.moved _ (fun _ _ => rfl) ?_
      exact hkeeps.read _ _ _ t k h.rows (h.txns i t hopen) (hallowed t hopen) hnext
  | lock i t locks run state d hopen hnext hfree hrun =>
      refine h.moved _ (fun j hj => ?_) ?_
      · have hheld := Pool.held_locked p i j
          (locks (p.free S i) (view t.changes p.committed))
        rw [if_neg hj] at hheld
        exact hheld
      · have hheld := Pool.held_locked p i i
          (locks (p.free S i) (view t.changes p.committed))
        rw [if_pos rfl] at hheld
        rw [hheld]
        exact hkeeps.lock _ _ _ t locks run _ state d h.rows (h.txns i t hopen)
          (hallowed t hopen) hnext hrun
  | commit i t hopen hnext =>
      have hself := h.txns i t hopen
      refine ⟨hkeeps.commit _ _ _ t h.rows hself (hallowed t hopen) hnext, fun j u hj => ?_⟩
      by_cases hji : j = i
      · subst hji
        exact absurd hj (by simp [Pool.ended])
      · have hopened : p.opened j = some u := (Pool.opened_ended_ne hji).symm.trans hj
        have hheld : (p.ended i).held j = p.held j := Pool.held_ended_ne hji
        have hother := hkeeps.other _ _ _ u _ t h.rows (h.txns j u hopened) hself
          (hallowed t hopen) (hok.apart j i hji) hnext
        rw [← hheld] at hother
        exact hother
  | ended e i t hopen hend => exact h.ended i

/--
**The rule of two transactions.**  What holds of the first rows, and is kept in the sense
of `Keeps`, holds of every pool reached by events that are allowed.
-/
theorem pool_rule (hkeeps : Keeps S B G I T) (init : I s₀ [])
    (hrun : Trace.run (poolStep S) (Pool.start s₀ : Pool σ ℓ L ι) events = some p)
    (hallowed : Trace.Along (poolStep S) (Allowed B G) (Pool.start s₀ : Pool σ ℓ L ι) events) :
    PoolOk S p ∧ Holds I T p := by
  refine Trace.run_induction_along (P := fun _ p => PoolOk S p ∧ Holds I T p) ?_ ?_ hrun hallowed
  · refine ⟨PoolOk.start, init, fun i t hi => ?_⟩
    cases hi
  · intro _ p e p' _ hbefore hallow hstep
    obtain ⟨hok, hholds⟩ := hbefore
    have hmoves := poolStep_moves hstep
    exact ⟨hmoves.ok hok, hkeeps.step hok hholds hallow hmoves⟩

/-- The rule where the calls alone are restricted. -/
theorem calls_rule {C : τ → Prop}
    (hkeeps : Keeps S (fun _ _ call => C call) (fun _ _ _ _ => True) I T) (init : I s₀ [])
    (hcalls : ∀ i call, Event.begin i call ∈ events → C call)
    (hrun : Trace.run (poolStep S) (Pool.start s₀ : Pool σ ℓ L ι) events = some p) :
    PoolOk S p ∧ Holds I T p := by
  refine pool_rule hkeeps init hrun ?_
  intro before e after hsplit q _
  cases e with
  | begin i call => exact hcalls i call (by rw [hsplit]; simp)
  | step i => exact fun _ _ => trivial
  | abort i => exact trivial

/-! ### The order of commits -/

/-- The event is a commit in a state with `later`, after one in a state with `first`. -/
def CommitsAfter (S : RowTxn σ τ ℓ L) (first later : ℓ → Bool) (p : Pool σ ℓ L ι) :
    Event τ ι → Prop
  | .step i => ∃ t, p.opened i = some t ∧ S.next t.state = .commit ∧ later t.state = true ∧
      ∃ x ∈ p.log, first x = true
  | _ => False

omit [DecidableEq ι] in
/-- A statement that is not a commit commits after nothing. -/
theorem not_commitsAfter {first later : ℓ → Bool} (hopen : p.opened i = some t)
    (hnext : S.next t.state ≠ .commit) :
    ¬ CommitsAfter S first later p (.step i : Event τ ι) := by
  rintro ⟨u, hu, hcommit, -⟩
  obtain rfl := Option.some.inj (hopen.symm.trans hu)
  exact hnext hcommit

/-- The log of a run is the order of its commits. -/
theorem along_commits_iff {first later : ℓ → Bool}
    (hrun : Trace.run (poolStep S) (Pool.start s₀ : Pool σ ℓ L ι) events = some p) :
    Trace.Along (poolStep S) (fun p e => ¬ CommitsAfter S first later p e)
        (Pool.start s₀ : Pool σ ℓ L ι) events ↔
      p.log.Pairwise fun x y => first x = true → later y = false := by
  refine Trace.run_induction (P := fun events p =>
    Trace.Along (poolStep S) (fun p e => ¬ CommitsAfter S first later p e)
        (Pool.start s₀ : Pool σ ℓ L ι) events ↔
      p.log.Pairwise fun x y => first x = true → later y = false) ?_ ?_ hrun
  · exact ⟨fun _ => List.Pairwise.nil, fun _ => Trace.along_nil⟩
  intro events p e p' hbefore ih hstep
  rw [Trace.along_snoc hbefore, ih]
  -- Where the log stays as it is, the event is not a commit.
  have hsame : p'.log = p.log → ¬ CommitsAfter S first later p e →
      ((p.log.Pairwise fun x y => first x = true → later y = false) ∧
          ¬ CommitsAfter S first later p e ↔
        p'.log.Pairwise fun x y => first x = true → later y = false) := by
    intro hlog hnot
    rw [hlog]
    exact and_iff_left hnot
  cases poolStep_moves hstep with
  | begin i call hclosed => exact hsame rfl id
  | read i t k hopen hnext =>
      exact hsame rfl (not_commitsAfter hopen (by simp [hnext]))
  | lock i t locks run state d hopen hnext hfree hrun =>
      exact hsame rfl (not_commitsAfter hopen (by simp [hnext]))
  | ended e i t hopen hend =>
      rcases hend with rfl | ⟨rfl, hnext⟩
      · exact hsame rfl id
      · exact hsame rfl (not_commitsAfter hopen hnext)
  | commit i t hopen hnext =>
      dsimp only
      rw [List.pairwise_append]
      refine and_congr_right fun _ => ⟨fun h => ⟨List.pairwise_singleton .., ?_⟩, fun h => ?_⟩
      · intro x hx y hy hfirst
        rw [List.mem_singleton.mp hy]
        by_contra hlater
        exact h ⟨t, hopen, hnext, Bool.of_not_eq_false hlater, x, hx, hfirst⟩
      · rintro ⟨u, hu, -, hlater, x, hx, hfirst⟩
        obtain rfl := Option.some.inj (hopen.symm.trans hu)
        rw [h.2 x hx t.state (List.mem_singleton_self _) hfirst] at hlater
        cases hlater

end RowTxn

end Orqent
