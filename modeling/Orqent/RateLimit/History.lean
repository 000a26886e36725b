/-
Sweeping and the full history.

The reference limiter keeps every check it has allowed and never sweeps; its decisions are
what the policy means (`refDecisions_bounded`).  What the limiter holds of a key is the
end of that key's history, and what it has forgotten has left the window (`Tracks`).
Pruning keeps this, and so does a sweep that drops no key with a hit inside its own
window (`SweepSpares`); a sweep goes by one retention for all keys, so a window that is
longer can be cut short (`sweep_forgets`).
-/
import Orqent.RateLimit.Limiter
import Orqent.Lib.Trace

namespace Orqent

/-- A check of a key at a clock reading. -/
structure Check where
  now : ℚ
  key : String
deriving DecidableEq, Repr

/-- The clock does not go back. -/
def Nondecreasing (checks : List Check) : Prop := checks.Pairwise fun c d => c.now ≤ d.now

/-- No check is before the first. -/
theorem Nondecreasing.exists_le {checks : List Check} (h : Nondecreasing checks) :
    ∃ clock, ∀ c ∈ checks, clock ≤ c.now := by
  cases checks with
  | nil => exact ⟨0, by simp⟩
  | cons c rest =>
      refine ⟨c.now, fun d hd => ?_⟩
      rcases List.mem_cons.mp hd with rfl | hd
      · exact le_refl _
      · exact (List.pairwise_cons.mp h).1 d hd

/-- The decisions on checks made one after another. -/
def decisionsBy {σ : Type} (f : σ → Check → Decision × σ) : σ → List Check → List Decision
  | _, [] => []
  | s, c :: rest => (f s c).1 :: decisionsBy f (f s c).2 rest

/-- When a key was allowed. -/
def allowedTimes (key : String) (checks : List Check) (decisions : List Decision) : List ℚ :=
  ((checks.zip decisions).filter fun x => x.2.allowed ∧ x.1.key = key).map fun x => x.1.now

section Reference

variable (policies : String → RateLimitPolicy)

/-- A check by the limiter, each key with its policy. -/
def SlidingWindowLimiter.checkOf (s : SlidingWindowLimiter) (c : Check) :
    Decision × SlidingWindowLimiter :=
  s.check c.now c.key (policies c.key)

/-- The checks of a key among those allowed so far. -/
def timesOf (history : List Check) (key : String) : List ℚ :=
  (history.filter fun c => c.key = key).map Check.now

/-- The reference limiter: `history` is every check that was allowed. -/
def refCheck (history : List Check) (c : Check) : Decision × List Check :=
  let policy := policies c.key
  let live := SlidingWindow.live (c.now - policy.windowSeconds) (timesOf history c.key)
  if policy.limit ≤ live.length then (⟨false, policy.retryAfter c.now (live.headD c.now)⟩, history)
  else (⟨true, 0⟩, history ++ [c])

/-- A sweep on this check drops no key with a hit still inside the key's own window. -/
def SweepSpares (s : SlidingWindowLimiter) (c : Check) : Prop :=
  (s.pruned c.now c.key (policies c.key)).length < (policies c.key).limit → s.SweepDue →
    ∀ key, key ≠ c.key →
      SlidingWindowLimiter.stale (c.now - SlidingWindowLimiter.maxRetentionSeconds) (s.hitsOf key)
        = true →
      ∀ x ∈ s.hitsOf key, x ≤ c.now - (policies key).windowSeconds

end Reference

/-! ### Histories of a key -/

section Times

variable {history : List Check} {c : Check} {key : String}

theorem timesOf_append_self : timesOf (history ++ [c]) c.key = timesOf history c.key ++
    [c.now] := by
  simp [timesOf]

theorem timesOf_append_ne (h : key ≠ c.key) :
    timesOf (history ++ [c]) key = timesOf history key := by
  simp [timesOf, Ne.symm h]

theorem allowedTimes_cons {rest : List Check} {d : Decision} {ds : List Decision} :
    allowedTimes key (c :: rest) (d :: ds) =
      (if d.allowed = true ∧ c.key = key then [c.now] else []) ++ allowedTimes key rest ds := by
  unfold allowedTimes
  rw [List.zip_cons_cons, List.filter_cons]
  by_cases h : d.allowed = true ∧ c.key = key
  · simp [h]
  · rw [if_neg (by simpa using h), if_neg h, List.nil_append]

theorem timesOf_sorted (h : Nondecreasing history) : (timesOf history key).Pairwise (· ≤ ·) :=
  List.pairwise_map.mpr (h.filter _)

end Times

/-! ### The reference limiter -/

section Bound

variable {policies : String → RateLimitPolicy} {history : List Check} {checks : List Check}

/-- The history is in order, before the clock, and within every policy. -/
structure HistoryOk (policies : String → RateLimitPolicy) (clock : ℚ) (history : List Check) :
    Prop where
  sorted : Nondecreasing history
  past : ∀ c ∈ history, c.now ≤ clock
  bounded : ∀ key, SlidingWindow.Bounded (policies key).limit (policies key).windowSeconds
    (timesOf history key)

theorem HistoryOk.refCheck {clock : ℚ} (h : HistoryOk policies clock history) {c : Check}
    (hc : clock ≤ c.now) : HistoryOk policies c.now (refCheck policies history c).2 := by
  have hpast : ∀ d ∈ history, d.now ≤ c.now := fun d hd => le_trans (h.past d hd) hc
  unfold Orqent.refCheck
  dsimp only
  split
  · exact ⟨h.sorted, hpast, h.bounded⟩
  · rename_i hroom
    refine ⟨?_, fun d hd => ?_, fun key => ?_⟩
    · refine List.pairwise_append.mpr ⟨h.sorted, by simp, fun d hd e he => ?_⟩
      rw [List.mem_singleton.mp he]
      exact hpast d hd
    · rcases List.mem_append.mp hd with hd | hd
      · exact hpast d hd
      · rw [List.mem_singleton.mp hd]
    · by_cases hkey : key = c.key
      · subst hkey
        rw [timesOf_append_self]
        exact (h.bounded c.key).admitted (Nat.not_le.mp hroom)
      · rw [timesOf_append_ne hkey]
        exact h.bounded key

theorem historyOk_nil (clock : ℚ) : HistoryOk policies clock [] :=
  ⟨List.Pairwise.nil, by simp, fun _ => SlidingWindow.bounded_nil⟩

/-- The history is what was allowed. -/
theorem timesOf_refCheck {c : Check} {key : String} :
    timesOf (refCheck policies history c).2 key = timesOf history key ++
      if (refCheck policies history c).1.allowed = true ∧ c.key = key then [c.now] else [] := by
  unfold refCheck
  dsimp only
  split
  · simp
  · by_cases hkey : c.key = key
    · subst hkey
      rw [timesOf_append_self]
      simp
    · rw [timesOf_append_ne (Ne.symm hkey)]
      simp [hkey]

/-- **The reference limiter keeps every policy**, over any window. -/
theorem refDecisions_bounded {clock : ℚ} (h : HistoryOk policies clock history)
    (hchecks : Nondecreasing checks) (hclock : ∀ c ∈ checks, clock ≤ c.now) (key : String) :
    SlidingWindow.Bounded (policies key).limit (policies key).windowSeconds
      (timesOf history key ++
        allowedTimes key checks (decisionsBy (refCheck policies) history checks)) := by
  induction checks generalizing clock history with
  | nil => simpa [allowedTimes, decisionsBy] using h.bounded key
  | cons c rest ih =>
      obtain ⟨hfirst, hrest⟩ := List.pairwise_cons.mp hchecks
      have hstep := ih (h.refCheck (hclock c List.mem_cons_self)) hrest hfirst
      rw [timesOf_refCheck, List.append_assoc, ← allowedTimes_cons] at hstep
      exact hstep

end Bound

/-! ### What the limiter holds -/

section Tracks

variable {policies : String → RateLimitPolicy} {clock : ℚ} {s : SlidingWindowLimiter}
variable {history checks : List Check} {c : Check}

/-- What the limiter has forgotten of a key's history has left the key's window. -/
def Tracks (policies : String → RateLimitPolicy) (clock : ℚ) (s : SlidingWindowLimiter)
    (history : List Check) : Prop :=
  ∀ key, SlidingWindow.Forgets (clock - (policies key).windowSeconds) (timesOf history key)
    (s.hitsOf key)

theorem tracks_empty : Tracks policies clock .empty [] := by
  intro key
  exact SlidingWindow.Forgets.refl

theorem Tracks.later (h : Tracks policies clock s history) {later : ℚ} (hle : clock ≤ later) :
    Tracks policies later s history := by
  intro key
  exact (h key).mono (by linarith)

/-- The check finds the hits of the history that are live. -/
theorem Tracks.pruned_eq (h : Tracks policies c.now s history) (hsorted : Nondecreasing history) :
    s.pruned c.now c.key (policies c.key) =
      SlidingWindow.live (c.now - (policies c.key).windowSeconds) (timesOf history c.key) := by
  unfold SlidingWindowLimiter.pruned
  rw [← (h c.key).prune_eq, SlidingWindow.prune_eq_live (timesOf_sorted hsorted)]

/-- A key whose newest hit is the one just recorded is not stale. -/
theorem not_stale_append {now : ℚ} {hits : List ℚ} :
    SlidingWindowLimiter.stale (now - SlidingWindowLimiter.maxRetentionSeconds) (hits ++ [now])
      = false := by
  simp [SlidingWindowLimiter.stale, SlidingWindowLimiter.maxRetentionSeconds]

/-- **A check decides as the reference does**, and goes on tracking its history. -/
theorem Tracks.check (h : Tracks policies c.now s history) (hsorted : Nondecreasing history)
    (hspares : SweepSpares policies s c) :
    (s.checkOf policies c).1 = (refCheck policies history c).1 ∧
      Tracks policies c.now (s.checkOf policies c).2 (refCheck policies history c).2 := by
  have hpruned := h.pruned_eq hsorted
  have hforgets : SlidingWindow.Forgets (c.now - (policies c.key).windowSeconds)
      (timesOf history c.key) (s.pruned c.now c.key (policies c.key)) := (h c.key).prune
  unfold SlidingWindowLimiter.checkOf refCheck
  dsimp only
  rw [← hpruned]
  by_cases hfull : (policies c.key).limit ≤ (s.pruned c.now c.key (policies c.key)).length
  · rw [if_pos hfull, SlidingWindowLimiter.check_refused hfull]
    refine ⟨rfl, fun key => ?_⟩
    rw [SlidingWindowLimiter.hitsOf_record]
    by_cases hkey : c.key = key
    · subst hkey
      rw [if_pos rfl]
      exact hforgets
    · rw [if_neg hkey]
      exact h key
  · have hroom := Nat.not_le.mp hfull
    rw [if_neg hfull, SlidingWindowLimiter.check_allowed hroom]
    refine ⟨rfl, fun key => ?_⟩
    rw [SlidingWindowLimiter.hitsOf_maybeSweep, SlidingWindowLimiter.hitsOf_record]
    by_cases hkey : c.key = key
    · subst hkey
      rw [if_pos rfl, not_stale_append, timesOf_append_self]
      simpa using hforgets.append c.now
    · rw [if_neg hkey, timesOf_append_ne (Ne.symm hkey)]
      split
      · rename_i hswept
        exact (h key).clear (hspares hroom hswept.1 key (Ne.symm hkey) hswept.2)
      · exact h key

/-- **In a run whose sweeps spare the live hits every decision is the reference's.** -/
theorem Tracks.decisions (h : Tracks policies clock s history)
    (hok : HistoryOk policies clock history)
    (hchecks : Nondecreasing checks) (hclock : ∀ c ∈ checks, clock ≤ c.now)
    (hspares : Trace.Along (fun s c => some (s.checkOf policies c).2)
      (SweepSpares policies) s checks) :
    decisionsBy (SlidingWindowLimiter.checkOf policies) s checks =
      decisionsBy (refCheck policies) history checks := by
  induction checks generalizing clock s history with
  | nil => rfl
  | cons c rest ih =>
      obtain ⟨hfirst, hrest⟩ := List.pairwise_cons.mp hchecks
      obtain ⟨hc, halong⟩ := Trace.along_cons.mp hspares
      have hnow := hclock c List.mem_cons_self
      obtain ⟨hsame, htracks⟩ := (h.later hnow).check hok.sorted hc
      have hmore := ih htracks (hok.refCheck hnow) hrest hfirst (halong _ rfl)
      unfold decisionsBy
      rw [hsame]
      exact congrArg _ hmore

end Tracks

end Orqent
