/-
Transactions that read a snapshot and write under row locks.

A transaction reads everything it decides on in one snapshot; what it decides is a
list of statements.  A statement acts on the latest committed rows, with what its
own transaction changed before it.  It waits while another transaction holds a lock
it needs, its own locks are kept until the transaction ends, and what it changed is
private until the commit installs it.

A `LockStore` states what a statement may depend on and change: the parts of the
store it locks.  From that alone, `commit_performs` shows that a transaction's
statements might as well all have been issued at the moment it commits, on the rows
committed by then.  What stays old is what it read.
-/
import Orqent.Lib.Trace
import Mathlib.Logic.Function.Basic

namespace Orqent

/--
A store `σ` with calls `τ`, statements `ω`, the changes `δ` they make, and lockable
parts `ρ` with contents in `β`.
-/
structure LockStore (σ τ ω δ ρ : Type*) (β : ρ → Type*) where
  /-- The statements a call issues, given the rows it reads; `none` if it is refused. -/
  body : τ → σ → Option (List ω)
  /-- What a statement changes; `none` if the database refuses it. -/
  exec : ω → σ → Option δ
  apply : δ → σ → σ
  /-- What a statement locks. -/
  locks : ω → List ρ
  /-- The contents of a part. -/
  part : ∀ r, σ → β r
  /-- A statement acts on what it locks. -/
  exec_congr : ∀ {w s s'}, (∀ r ∈ locks w, part r s = part r s') → exec w s = exec w s'
  /-- It changes nothing else. -/
  frame : ∀ {w s d r}, exec w s = some d → r ∉ locks w → part r (apply d s) = part r s
  /-- Changes are made part by part. -/
  apply_congr : ∀ {d s s' r}, part r s = part r s' → part r (apply d s) = part r (apply d s')

namespace LockStore

variable {σ τ ω δ ρ ι : Type*} {β : ρ → Type*}

/-- An open transaction: what it was called with and what it read, the statements it
has issued, what they changed, and those still to come. -/
structure Txn (σ τ ω δ : Type*) where
  call : τ
  snap : σ
  issued : List ω
  changes : List δ
  todo : List ω

/-- The committed rows, the open transactions, and who holds each lock. -/
structure Pool (σ τ ω δ ρ ι : Type*) where
  committed : σ
  opened : ι → Option (Txn σ τ ω δ)
  owner : ρ → Option ι

/-- What can happen to a pool.  A transaction takes its snapshot when it begins. -/
inductive Event (τ ι : Type*)
  | begin (i : ι) (call : τ)
  | issue (i : ι)
  | commit (i : ι)
  | rollback (i : ι)

/-- The transaction an event commits. -/
def Pool.committing (p : Pool σ τ ω δ ρ ι) : Event τ ι → Option (Txn σ τ ω δ)
  | .commit i => p.opened i
  | _ => none

variable (S : LockStore σ τ ω δ ρ β)

/-- The rows with some changes made to them. -/
def view (changes : List δ) (s : σ) : σ := changes.foldl (fun s d => S.apply d s) s

/-- What statements change, issued one after another. -/
def changesOf : List ω → σ → Option (List δ)
  | [], _ => some []
  | w :: ws, s =>
      match S.exec w s with
      | none => none
      | some d => (changesOf ws (S.apply d s)).map (d :: ·)

/-- The rows after some statements, issued one after another with nothing else going on. -/
def perform (ws : List ω) (s : σ) : Option σ :=
  ws.foldlM (fun s w => (S.exec w s).map fun d => S.apply d s) s

/-- A pool over the rows `s` with no transaction open. -/
def Pool.start (s : σ) : Pool σ τ ω δ ρ ι := ⟨s, fun _ => none, fun _ => none⟩

section Step

variable [DecidableEq ι]

/-- The transaction is over and its locks are free. -/
def Pool.ended (p : Pool σ τ ω δ ρ ι) (i : ι) : Pool σ τ ω δ ρ ι where
  committed := p.committed
  opened := Function.update p.opened i none
  owner := fun r => if p.owner r = some i then none else p.owner r

variable [DecidableEq ρ]

/-- One event.  A call that is refused changes nothing; a statement that is refused ends
its transaction. -/
def poolStep (p : Pool σ τ ω δ ρ ι) : Event τ ι → Option (Pool σ τ ω δ ρ ι)
  | .begin i call =>
      match p.opened i with
      | some _ => none
      | none =>
          match S.body call p.committed with
          | none => some p
          | some ws =>
              some { p with opened :=
                Function.update p.opened i (some ⟨call, p.committed, [], [], ws⟩) }
  | .issue i =>
      match p.opened i with
      | some ⟨call, snap, issued, changes, w :: rest⟩ =>
          if ∀ r ∈ S.locks w, p.owner r = none ∨ p.owner r = some i then
            match S.exec w (S.view changes p.committed) with
            | none => some (p.ended i)
            | some d =>
                some
                  { p with
                    opened := Function.update p.opened i
                      (some ⟨call, snap, issued ++ [w], changes ++ [d], rest⟩)
                    owner := fun r => if r ∈ S.locks w then some i else p.owner r }
          else none
      | _ => none
  | .commit i =>
      match p.opened i with
      | some ⟨_, _, _, changes, []⟩ =>
          some { p.ended i with committed := S.view changes p.committed }
      | _ => none
  | .rollback i =>
      match p.opened i with
      | some _ => some (p.ended i)
      | none => none

end Step

variable {S}

/-! ### Statements and what they lock -/

@[simp] theorem view_cons (d : δ) (ds : List δ) (s : σ) :
    S.view (d :: ds) s = S.view ds (S.apply d s) := rfl

theorem changesOf_cons {w : ω} {ws : List ω} {s : σ} {ds : List δ} :
    S.changesOf (w :: ws) s = some ds ↔
      ∃ d rest, S.exec w s = some d ∧ S.changesOf ws (S.apply d s) = some rest ∧
        ds = d :: rest := by
  rw [changesOf]
  cases S.exec w s with
  | none => simp
  | some d =>
      show (S.changesOf ws (S.apply d s)).map _ = some ds ↔ _
      rw [Option.map_eq_some_iff]
      simp [eq_comm]

theorem changesOf_snoc {w : ω} {ws : List ω} {s : σ} {d : δ} {ds : List δ}
    (h : S.changesOf ws s = some ds) (hw : S.exec w (S.view ds s) = some d) :
    S.changesOf (ws ++ [w]) s = some (ds ++ [d]) := by
  induction ws generalizing s ds with
  | nil =>
      obtain rfl := Option.some.inj h
      exact changesOf_cons.mpr ⟨d, [], hw, rfl, rfl⟩
  | cons v ws ih =>
      obtain ⟨e, rest, he, hrest, rfl⟩ := changesOf_cons.mp h
      exact changesOf_cons.mpr ⟨e, rest ++ [d], he, ih hrest hw, rfl⟩

/-- Statements do the same wherever what they lock is the same. -/
theorem changesOf_congr {ws : List ω} {s s' : σ}
    (h : ∀ w ∈ ws, ∀ r ∈ S.locks w, S.part r s = S.part r s') :
    S.changesOf ws s = S.changesOf ws s' := by
  induction ws generalizing s s' with
  | nil => rfl
  | cons w ws ih =>
      rw [changesOf, changesOf, S.exec_congr (h w (by simp))]
      cases S.exec w s' with
      | none => rfl
      | some d =>
          show (S.changesOf ws (S.apply d s)).map _ = (S.changesOf ws (S.apply d s')).map _
          rw [ih fun v hv r hr => S.apply_congr (h v (List.mem_cons_of_mem _ hv) r hr)]

/-- What no statement locks is left as it was. -/
theorem view_frame {ws : List ω} {s : σ} {ds : List δ} {r : ρ} (h : S.changesOf ws s = some ds)
    (hr : ∀ w ∈ ws, r ∉ S.locks w) : S.part r (S.view ds s) = S.part r s := by
  induction ws generalizing s ds with
  | nil =>
      obtain rfl := Option.some.inj h
      rfl
  | cons w ws ih =>
      obtain ⟨d, rest, hd, hrest, rfl⟩ := changesOf_cons.mp h
      rw [view_cons, ih hrest fun v hv => hr v (List.mem_cons_of_mem _ hv),
        S.frame hd (hr w (by simp))]

theorem perform_cons {w : ω} {ws : List ω} {s s' : σ} :
    S.perform (w :: ws) s = some s' ↔
      ∃ d, S.exec w s = some d ∧ S.perform ws (S.apply d s) = some s' := by
  rw [perform, List.foldlM_cons]
  cases S.exec w s with
  | none => simp
  | some d => simp [perform]

theorem perform_append {ws vs : List ω} {s s' : σ} :
    S.perform (ws ++ vs) s = some s' ↔
      ∃ t, S.perform ws s = some t ∧ S.perform vs t = some s' := by
  unfold perform
  rw [List.foldlM_append]
  exact Option.bind_eq_some_iff

theorem perform_of_changesOf {ws : List ω} {s : σ} {ds : List δ}
    (h : S.changesOf ws s = some ds) : S.perform ws s = some (S.view ds s) := by
  induction ws generalizing s ds with
  | nil =>
      obtain rfl := Option.some.inj h
      rfl
  | cons w ws ih =>
      obtain ⟨d, rest, hd, hrest, rfl⟩ := changesOf_cons.mp h
      exact perform_cons.mpr ⟨d, hd, ih hrest⟩

/-- What every statement keeps is kept by any number of them. -/
theorem perform_keeps {P : σ → Prop}
    (step : ∀ w s d, P s → S.exec w s = some d → P (S.apply d s)) {ws : List ω} {s s' : σ}
    (hs : P s) (h : S.perform ws s = some s') : P s' := by
  induction ws generalizing s with
  | nil => exact Option.some.inj h ▸ hs
  | cons w ws ih =>
      obtain ⟨d, hd, hrest⟩ := perform_cons.mp h
      exact ih (step w s d hs hd) hrest

/-- A statement is not refused where it and those after it can all be performed. -/
theorem exec_of_perform {t : Txn σ τ ω δ} {w : ω} {rest : List ω} {s s' : σ}
    (hchanges : S.changesOf t.issued s = some t.changes)
    (hperform : S.perform (t.issued ++ w :: rest) s = some s') :
    ∃ d, S.exec w (S.view t.changes s) = some d := by
  obtain ⟨mid, hissued, hrest⟩ := perform_append.mp hperform
  obtain ⟨d, hd, -⟩ := perform_cons.mp hrest
  rw [perform_of_changesOf hchanges, Option.some.injEq] at hissued
  exact ⟨d, hissued ▸ hd⟩

/-! ### Any number of transactions, in any order -/

variable {p p' : Pool σ τ ω δ ρ ι} {i : ι}
  {events : List (Event τ ι)} {s₀ : σ}

/--
What every pool keeps: a transaction issues what it decided, its locks are its own,
and its statements would change the same if they were all issued now.
-/
structure PoolOk (S : LockStore σ τ ω δ ρ β) (p : Pool σ τ ω δ ρ ι) : Prop where
  decided : ∀ i t, p.opened i = some t → S.body t.call t.snap = some (t.issued ++ t.todo)
  held : ∀ i t, p.opened i = some t → ∀ w ∈ t.issued, ∀ r ∈ S.locks w, p.owner r = some i
  replays : ∀ i t, p.opened i = some t → S.changesOf t.issued p.committed = some t.changes

theorem PoolOk.start (s₀ : σ) : PoolOk S (Pool.start s₀ : Pool σ τ ω δ ρ ι) where
  decided := fun _ _ hj => nomatch hj
  held := fun _ _ hj => nomatch hj
  replays := fun _ _ hj => nomatch hj

variable [DecidableEq ι]

/-- Once a transaction is written it is the one that is open; the others are as before. -/
theorem opened_update {opened : ι → Option (Txn σ τ ω δ)} {j : ι} {t u : Txn σ τ ω δ}
    (h : Function.update opened i (some t) j = some u) :
    (j = i ∧ u = t) ∨ (j ≠ i ∧ opened j = some u) := by
  by_cases hji : j = i
  · subst hji
    rw [Function.update_self] at h
    exact Or.inl ⟨rfl, (Option.some.inj h).symm⟩
  · rw [Function.update_of_ne hji] at h
    exact Or.inr ⟨hji, h⟩

theorem Pool.opened_ended {j : ι} {t : Txn σ τ ω δ} (h : (p.ended i).opened j = some t) :
    j ≠ i ∧ p.opened j = some t := by
  by_cases hj : j = i
  · subst hj
    simp [Pool.ended] at h
  · exact ⟨hj, by simpa [Pool.ended, hj] using h⟩

theorem PoolOk.ended (h : PoolOk S p) (i : ι) : PoolOk S (p.ended i) where
  decided := fun j t hj => h.decided j t (Pool.opened_ended hj).2
  held := by
    intro j t hj w hw r hr
    obtain ⟨hne, hopen⟩ := Pool.opened_ended hj
    have howner := h.held j t hopen w hw r hr
    have hother : p.owner r ≠ some i := fun hc => hne (Option.some.inj (howner.symm.trans hc))
    show (if p.owner r = some i then none else p.owner r) = some j
    rw [if_neg hother, howner]
  replays := fun j t hj => h.replays j t (Pool.opened_ended hj).2

variable [DecidableEq ρ]

/-- The only way to commit: every statement was issued. -/
theorem poolStep_commit (hstep : S.poolStep p (.commit i) = some p') :
    ∃ t, p.opened i = some t ∧ t.todo = [] ∧
      p' = { p.ended i with committed := S.view t.changes p.committed } := by
  simp only [poolStep] at hstep
  split at hstep
  · rename_i call snap issued changes hopen
    exact ⟨_, hopen, rfl, (Option.some.inj hstep).symm⟩
  · exact nomatch hstep

/-- What a transaction that begins does: it is refused, or it is open and has issued nothing. -/
theorem poolStep_begin {call : τ} (hstep : S.poolStep p (.begin i call) = some p') :
    p.opened i = none ∧
      ((S.body call p.committed = none ∧ p' = p) ∨
        ∃ ws, S.body call p.committed = some ws ∧
          p' = { p with opened :=
            Function.update p.opened i (some ⟨call, p.committed, [], [], ws⟩) }) := by
  simp only [poolStep] at hstep
  split at hstep
  · exact nomatch hstep
  · rename_i hnone
    refine ⟨hnone, ?_⟩
    split at hstep
    · rename_i hbody
      exact Or.inl ⟨hbody, (Option.some.inj hstep).symm⟩
    · rename_i ws hbody
      exact Or.inr ⟨ws, hbody, (Option.some.inj hstep).symm⟩

/-- What a statement does: nobody else holds what it locks; it is refused, which ends its
transaction, or its change is the transaction's next one. -/
theorem poolStep_issue (hstep : S.poolStep p (.issue i) = some p') :
    ∃ t w rest, p.opened i = some t ∧ t.todo = w :: rest ∧
      (∀ r ∈ S.locks w, p.owner r = none ∨ p.owner r = some i) ∧
      ((S.exec w (S.view t.changes p.committed) = none ∧ p' = p.ended i) ∨
        ∃ d, S.exec w (S.view t.changes p.committed) = some d ∧
          p' =
            { p with
              opened := Function.update p.opened i
                (some ⟨t.call, t.snap, t.issued ++ [w], t.changes ++ [d], rest⟩)
              owner := fun r => if r ∈ S.locks w then some i else p.owner r }) := by
  simp only [poolStep] at hstep
  split at hstep
  swap
  · exact nomatch hstep
  rename_i call snap issued changes w rest hopen
  split at hstep
  swap
  · exact nomatch hstep
  rename_i hfree
  refine ⟨_, w, rest, hopen, rfl, hfree, ?_⟩
  split at hstep
  · rename_i hrefused
    exact Or.inl ⟨hrefused, (Option.some.inj hstep).symm⟩
  · rename_i d hexec
    exact Or.inr ⟨d, hexec, (Option.some.inj hstep).symm⟩

theorem poolStep_rollback (hstep : S.poolStep p (.rollback i) = some p') : p' = p.ended i := by
  simp only [poolStep] at hstep
  split at hstep
  · exact (Option.some.inj hstep).symm
  · exact nomatch hstep

/-- Only a commit changes what is committed. -/
theorem poolStep_committed {e : Event τ ι} (hstep : S.poolStep p e = some p')
    (hne : ∀ i, e ≠ .commit i) : p'.committed = p.committed := by
  cases e with
  | begin i call =>
      obtain ⟨-, ⟨-, rfl⟩ | ⟨ws, -, rfl⟩⟩ := poolStep_begin hstep <;> rfl
  | issue i =>
      obtain ⟨t, w, rest, -, -, -, ⟨-, rfl⟩ | ⟨d, -, rfl⟩⟩ := poolStep_issue hstep <;> rfl
  | commit i => exact absurd rfl (hne i)
  | rollback i =>
      rw [poolStep_rollback hstep]
      rfl

/-- A transaction open after a step was open before it, or reads what is committed. -/
theorem poolStep_opened {e : Event τ ι} {j : ι} {t : Txn σ τ ω δ}
    (hstep : S.poolStep p e = some p') (hj : p'.opened j = some t) :
    (∃ u, p.opened j = some u ∧ u.snap = t.snap) ∨ t.snap = p.committed := by
  cases e with
  | begin i call =>
      obtain ⟨-, ⟨-, rfl⟩ | ⟨ws, -, rfl⟩⟩ := poolStep_begin hstep
      · exact Or.inl ⟨t, hj, rfl⟩
      · rcases opened_update hj with ⟨-, rfl⟩ | ⟨-, hold⟩
        · exact Or.inr rfl
        · exact Or.inl ⟨t, hold, rfl⟩
  | issue i =>
      obtain ⟨u, w, rest, hopen, -, -, ⟨-, rfl⟩ | ⟨d, -, rfl⟩⟩ := poolStep_issue hstep
      · exact Or.inl ⟨t, (Pool.opened_ended hj).2, rfl⟩
      · rcases opened_update hj with ⟨rfl, rfl⟩ | ⟨-, hold⟩
        · exact Or.inl ⟨u, hopen, rfl⟩
        · exact Or.inl ⟨t, hold, rfl⟩
  | commit i =>
      obtain ⟨u, -, -, rfl⟩ := poolStep_commit hstep
      exact Or.inl ⟨t, (Pool.opened_ended (p := p) (i := i) hj).2, rfl⟩
  | rollback i =>
      obtain rfl := poolStep_rollback hstep
      exact Or.inl ⟨t, (Pool.opened_ended hj).2, rfl⟩

/-- A transaction that begins has issued nothing. -/
theorem PoolOk.begin (h : PoolOk S p) {call : τ}
    (hstep : S.poolStep p (.begin i call) = some p') : PoolOk S p' := by
  obtain ⟨-, ⟨-, rfl⟩ | ⟨ws, hbody, rfl⟩⟩ := poolStep_begin hstep
  · exact h
  refine ⟨?_, ?_, ?_⟩ <;> intro j t hj <;>
    rcases opened_update hj with ⟨rfl, rfl⟩ | ⟨-, hold⟩
  · exact hbody
  · exact h.decided j t hold
  · exact fun w hw => nomatch hw
  · exact h.held j t hold
  · rfl
  · exact h.replays j t hold

/-- A statement takes locks nobody else holds, and its change is the next one. -/
theorem PoolOk.issue (h : PoolOk S p) (hstep : S.poolStep p (.issue i) = some p') :
    PoolOk S p' := by
  obtain ⟨u, w, rest, hopen, htodo, hfree, ⟨-, rfl⟩ | ⟨d, hexec, rfl⟩⟩ := poolStep_issue hstep
  · exact h.ended i
  refine ⟨?_, ?_, ?_⟩ <;> intro j t hj <;>
    rcases opened_update hj with ⟨rfl, rfl⟩ | ⟨hji, hold⟩
  · simpa [htodo] using h.decided j u hopen
  · exact h.decided j t hold
  · intro v hv r hr
    show (if r ∈ S.locks w then some j else p.owner r) = some j
    rcases List.mem_append.mp hv with hv | hv
    · rw [h.held j u hopen v hv r hr, ite_self]
    · rw [if_pos (List.mem_singleton.mp hv ▸ hr)]
  · intro v hv r hr
    have howner := h.held j t hold v hv r hr
    have hnot : r ∉ S.locks w := by
      intro hc
      rcases hfree r hc with hnone | hself
      · exact nomatch howner.symm.trans hnone
      · exact hji (Option.some.inj (howner.symm.trans hself))
    show (if r ∈ S.locks w then some i else p.owner r) = some j
    rw [if_neg hnot, howner]
  · exact changesOf_snoc (h.replays j u hopen) hexec
  · exact h.replays j t hold

/-- A commit changes nothing another transaction has locked. -/
theorem PoolOk.commit (h : PoolOk S p) (hstep : S.poolStep p (.commit i) = some p') :
    PoolOk S p' := by
  obtain ⟨t, hopen, -, rfl⟩ := poolStep_commit hstep
  have hended := h.ended i
  refine ⟨hended.decided, hended.held, fun j u hj => ?_⟩
  obtain ⟨hji, hu⟩ := Pool.opened_ended (p := p) (i := i) hj
  show S.changesOf u.issued (S.view t.changes p.committed) = some u.changes
  rw [← h.replays j u hu]
  refine changesOf_congr fun w hw r hr => view_frame (h.replays i t hopen) fun v hv hc => hji ?_
  exact Option.some.inj ((h.held j u hu w hw r hr).symm.trans (h.held i t hopen v hv r hc))

theorem PoolOk.step (h : PoolOk S p) {e : Event τ ι} (hstep : S.poolStep p e = some p') :
    PoolOk S p' := by
  cases e with
  | begin i call => exact h.begin hstep
  | issue i => exact h.issue hstep
  | commit i => exact h.commit hstep
  | rollback i => exact poolStep_rollback hstep ▸ h.ended i

/-- **Every pool reached is in order.** -/
theorem poolOk (h : Trace.run S.poolStep (Pool.start s₀) events = some p) : PoolOk S p :=
  Trace.run_invariant (PoolOk.start s₀) (fun _ _ _ hp hs => hp.step hs) h

/--
**A commit performs its statements.**  What a commit leaves is what the statements of
its call make of the rows committed by then, issued one after another with nothing
else going on; they were decided on the snapshot.
-/
theorem commit_performs (h : PoolOk S p) (hstep : S.poolStep p (.commit i) = some p') :
    ∃ t ws, p.opened i = some t ∧ S.body t.call t.snap = some ws ∧
      S.perform ws p.committed = some p'.committed := by
  obtain ⟨t, hopen, htodo, rfl⟩ := poolStep_commit hstep
  refine ⟨t, t.issued, hopen, ?_, perform_of_changesOf (h.replays i t hopen)⟩
  rw [h.decided i t hopen, htodo, List.append_nil]

/-- A step commits a transaction, or changes nothing that is committed. -/
theorem poolStep_performs (h : PoolOk S p) {e : Event τ ι} (hstep : S.poolStep p e = some p') :
    (p.committing e = none ∧ p'.committed = p.committed) ∨
      ∃ t ws, p.committing e = some t ∧ S.body t.call t.snap = some ws ∧
        S.perform ws p.committed = some p'.committed := by
  cases e with
  | commit i => exact Or.inr (commit_performs h hstep)
  | begin i call => exact Or.inl ⟨rfl, poolStep_committed hstep fun j hc => by cases hc⟩
  | issue i => exact Or.inl ⟨rfl, poolStep_committed hstep fun j hc => by cases hc⟩
  | rollback i => exact Or.inl ⟨rfl, poolStep_committed hstep fun j hc => by cases hc⟩

/-- What every statement keeps is kept by every step. -/
theorem PoolOk.keeps (h : PoolOk S p) {P : σ → Prop}
    (step : ∀ w s d, P s → S.exec w s = some d → P (S.apply d s)) {e : Event τ ι}
    (hp : P p.committed) (hstep : S.poolStep p e = some p') : P p'.committed := by
  by_cases hcommit : ∃ j, e = .commit j
  · obtain ⟨j, rfl⟩ := hcommit
    obtain ⟨-, ws, -, -, hperform⟩ := commit_performs h hstep
    exact perform_keeps step hp hperform
  · rw [poolStep_committed hstep fun j hc => hcommit ⟨j, hc⟩]
    exact hp

/--
**The snapshot rule.**  `I` holds of the first rows and is kept by every statement; `R`
relates rows with `I` to themselves, and to whatever a statement makes of what they
are related to.  Then `R` relates what a transaction read to what is committed while
it is open.
-/
theorem snapshot_rule {I : σ → Prop} {R : σ → σ → Prop} (init : I s₀)
    (keeps : ∀ w s d, I s → S.exec w s = some d → I (S.apply d s)) (refl : ∀ s, I s → R s s)
    (step : ∀ u w s d, R u s → S.exec w s = some d → R u (S.apply d s))
    (h : Trace.run S.poolStep (Pool.start s₀) events = some p) :
    I p.committed ∧ ∀ i t, p.opened i = some t → R t.snap p.committed := by
  have hall : PoolOk S p ∧ I p.committed ∧ ∀ i t, p.opened i = some t → R t.snap p.committed := by
    refine Trace.run_invariant (P := fun q => PoolOk S q ∧ I q.committed ∧
      ∀ i t, q.opened i = some t → R t.snap q.committed)
      ⟨PoolOk.start s₀, init, fun _ _ hi => nomatch hi⟩ ?_ h
    intro q e q' hbefore hstep
    obtain ⟨hok, hinv, hrel⟩ := hbefore
    refine ⟨hok.step hstep, hok.keeps keeps hinv hstep, fun i t ht => ?_⟩
    refine hok.keeps (step t.snap) ?_ hstep
    rcases poolStep_opened hstep ht with ⟨u, hu, hsnap⟩ | hsnap
    · exact hsnap ▸ hrel i u hu
    · rw [hsnap]
      exact refl _ hinv
  exact hall.2

end LockStore

end Orqent
