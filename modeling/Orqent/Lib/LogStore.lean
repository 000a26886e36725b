/-
Serialisability from an append-only log.

Rows of a store are read in a snapshot, changed, and written back without a lock
and without a version check.  What keeps two transactions apart is a log inside
the store: a transaction that changes anything appends to the log, its entries
are numbered from the length it read, and an entry number that is already there
makes the whole commit fail.

A `LogStore` states that much of a store: `len` is the length of the log,
`commit snap new cur` is what committing `new`, computed from the snapshot
`snap`, does to the rows `cur` committed by now.  Transactions are a set of
actions `τ` with a body each.  The result is `serial`: whatever the interleaving
of any number of open transactions, a commit that changes anything was computed
from exactly the rows it is applied to, and the committed rows are those of some
sequence of bodies run one at a time.
-/
import Orqent.Lib.Trace
import Mathlib.Logic.Function.Basic

namespace Orqent

/--
A store of rows `σ` with a log, and transaction bodies `τ` over it.  `Valid` is
what the bodies may rely on; it holds of the first rows and is kept by the bodies.
-/
structure LogStore (σ τ : Type*) where
  /-- The number of log entries. -/
  len : σ → Nat
  /-- What a transaction makes of the rows it reads; `none` if it fails. -/
  body : τ → σ → Option σ
  /-- The effect on the committed rows `cur` of committing `new`, computed from `snap`. -/
  commit : σ → σ → σ → Option σ
  /-- The rows a body may be run on. -/
  Valid : σ → Prop
  /-- A body keeps validity. -/
  valid_body : ∀ {t s s'}, Valid s → body t s = some s' → Valid s'
  /-- A body that changes the rows appends to the log. -/
  appends : ∀ {t s s'}, Valid s → body t s = some s' → s' = s ∨ len s < len s'
  /-- An entry number that is taken makes the commit fail. -/
  conflict : ∀ {t s s' c}, Valid s → Valid c → body t s = some s' → len s < len s' →
    len s < len c → commit s s' c = none
  /-- Nothing happened since the snapshot: the commit installs the new rows. -/
  commit_fresh : ∀ {t s s'}, Valid s → body t s = some s' → commit s s' s = some s'
  /-- Nothing was changed: the commit changes nothing. -/
  commit_same : ∀ {s c}, Valid s → Valid c → commit s s c = some c

namespace LogStore

variable {σ τ : Type*} (S : LogStore σ τ)

/-- A snapshot taken earlier: the rows are still those, or the log has grown since. -/
def Earlier (snap cur : σ) : Prop :=
  snap = cur ∨ S.len snap < S.len cur

variable {S}

theorem Earlier.refl (s : σ) : S.Earlier s s := Or.inl rfl

/-- A snapshot stays an earlier one when the rows change, since every change appends. -/
theorem Earlier.advance {snap cur cur' : σ} (h : S.Earlier snap cur)
    (hgrow : cur' = cur ∨ S.len cur < S.len cur') : S.Earlier snap cur' := by
  rcases hgrow with rfl | hlt
  · exact h
  · rcases h with rfl | hle
    · exact Or.inr hlt
    · exact Or.inr (Nat.lt_trans hle hlt)

/--
**A commit that succeeds is serial.**  Either it changes nothing, or the snapshot
it was computed from is what is committed and the new rows are installed as they are.
-/
theorem commit_serial {t : τ} {snap new cur cur' : σ} (hsnap : S.Valid snap) (hcur : S.Valid cur)
    (hearlier : S.Earlier snap cur) (hbody : S.body t snap = some new)
    (hcommit : S.commit snap new cur = some cur') :
    (new = snap ∧ cur' = cur) ∨ (snap = cur ∧ cur' = new ∧ S.len cur < S.len cur') := by
  rcases S.appends hsnap hbody with rfl | hlt
  · rw [S.commit_same hsnap hcur, Option.some.injEq] at hcommit
    exact Or.inl ⟨rfl, hcommit.symm⟩
  · rcases hearlier with rfl | hgrown
    · rw [S.commit_fresh hsnap hbody, Option.some.injEq] at hcommit
      subst hcommit
      exact Or.inr ⟨rfl, rfl, hlt⟩
    · rw [S.conflict hsnap hcur hbody hlt hgrown] at hcommit
      simp at hcommit

/-! ### Any number of transactions, in any order -/

/-- The committed rows and the transactions open over them, each with its snapshot. -/
structure Pool (σ τ : Type*) where
  committed : σ
  opened : Nat → Option (τ × σ)

/-- What can happen to a pool: a transaction begins, commits, or ends without committing. -/
inductive Event (τ : Type*)
  | begin (i : Nat) (t : τ)
  | commit (i : Nat)
  | rollback (i : Nat)

variable (S)

/-- One event.  A commit that fails changes nothing and ends the transaction. -/
def poolStep (p : Pool σ τ) : Event τ → Option (Pool σ τ)
  | .begin i t =>
      match p.opened i with
      | some _ => none
      | none => some { p with opened := Function.update p.opened i (some (t, p.committed)) }
  | .commit i =>
      match p.opened i with
      | none => none
      | some (t, snap) =>
          some
            { committed :=
                match S.body t snap with
                | none => p.committed
                | some new => (S.commit snap new p.committed).getD p.committed
              opened := Function.update p.opened i none }
  | .rollback i => some { p with opened := Function.update p.opened i none }

/-- A pool over the rows `s` with no transaction open. -/
def Pool.start (s : σ) : Pool σ τ := ⟨s, fun _ => none⟩

/-- One body run on the committed rows, with nothing else going on. -/
def serialStep (s : σ) (t : τ) : Option σ := S.body t s

variable {S}

/-- What every pool keeps: valid rows, and valid snapshots that are earlier ones. -/
structure PoolOk (S : LogStore σ τ) (s₀ : σ) (p : Pool σ τ) : Prop where
  valid : S.Valid p.committed
  snapshots : ∀ i t snap, p.opened i = some (t, snap) → S.Valid snap ∧ S.Earlier snap p.committed
  history : ∃ tr, Trace.run S.serialStep s₀ tr = some p.committed

/-- The two ways a commit event can end. -/
theorem poolStep_commit {s₀ : σ} {p p' : Pool σ τ} {i : Nat} (h : PoolOk S s₀ p)
    (hstep : S.poolStep p (.commit i) = some p') :
    p'.committed = p.committed ∨
      ∃ t, p.opened i = some (t, p.committed) ∧ S.body t p.committed = some p'.committed ∧
        S.len p.committed < S.len p'.committed := by
  simp only [poolStep] at hstep
  split at hstep
  · simp at hstep
  · rename_i t snap hopen
    rw [Option.some.injEq] at hstep
    subst hstep
    obtain ⟨hvalid, hearlier⟩ := h.snapshots i t snap hopen
    cases hbody : S.body t snap with
    | none => exact Or.inl rfl
    | some new =>
        cases hcommit : S.commit snap new p.committed with
        | none => exact Or.inl (by simp [hcommit])
        | some cur' =>
            rcases commit_serial hvalid h.valid hearlier hbody hcommit with
              ⟨-, hsame⟩ | ⟨rfl, rfl, hlt⟩
            · exact Or.inl (by simp [hcommit, hsame])
            · exact Or.inr ⟨t, hopen, by simp [hcommit, hbody], by simp [hcommit, hlt]⟩

theorem PoolOk.step {s₀ : σ} {p p' : Pool σ τ} {e : Event τ} (h : PoolOk S s₀ p)
    (hstep : S.poolStep p e = some p') : PoolOk S s₀ p' := by
  cases e with
  | begin i t =>
      simp only [poolStep] at hstep
      split at hstep
      · simp at hstep
      · rw [Option.some.injEq] at hstep
        subst hstep
        refine ⟨h.valid, ?_, h.history⟩
        intro j u snap hj
        by_cases hij : j = i
        · subst hij
          simp only [Function.update_self, Option.some.injEq, Prod.mk.injEq] at hj
          obtain ⟨-, rfl⟩ := hj
          exact ⟨h.valid, Earlier.refl _⟩
        · simp only [Function.update_of_ne hij] at hj
          exact h.snapshots j u snap hj
  | rollback i =>
      simp only [poolStep, Option.some.injEq] at hstep
      subst hstep
      refine ⟨h.valid, ?_, h.history⟩
      intro j u snap hj
      by_cases hij : j = i
      · subst hij
        simp at hj
      · simp only [Function.update_of_ne hij] at hj
        exact h.snapshots j u snap hj
  | commit i =>
      have hopened : ∀ j u snap, p'.opened j = some (u, snap) → p.opened j = some (u, snap) := by
        intro j u snap hj
        simp only [poolStep] at hstep
        split at hstep
        · simp at hstep
        · rw [Option.some.injEq] at hstep
          subst hstep
          by_cases hij : j = i
          · subst hij
            simp at hj
          · simpa only [Function.update_of_ne hij] using hj
      rcases poolStep_commit h hstep with hsame | ⟨t, -, hbody, hlt⟩
      · refine ⟨hsame ▸ h.valid, ?_, hsame ▸ h.history⟩
        intro j u snap hj
        rw [hsame]
        exact h.snapshots j u snap (hopened j u snap hj)
      · refine ⟨S.valid_body h.valid hbody, ?_, ?_⟩
        · intro j u snap hj
          obtain ⟨hvalid, hearlier⟩ := h.snapshots j u snap (hopened j u snap hj)
          exact ⟨hvalid, hearlier.advance (Or.inr hlt)⟩
        · obtain ⟨tr, htr⟩ := h.history
          exact ⟨tr ++ [t], Trace.run_snoc htr hbody⟩

/-- **Every pool reached from valid rows is in order**, and its rows are those of a serial run. -/
theorem poolOk {s₀ : σ} (h₀ : S.Valid s₀) {tr : List (Event τ)} {p : Pool σ τ}
    (h : Trace.run S.poolStep (Pool.start s₀) tr = some p) : PoolOk S s₀ p := by
  refine Trace.run_invariant ⟨h₀, ?_, ⟨[], rfl⟩⟩ (fun _ _ _ hp hs => hp.step hs) h
  intro i t snap hi
  simp [Pool.start] at hi

end LogStore

end Orqent
