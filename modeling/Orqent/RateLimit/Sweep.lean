/-
When sweeping changes no decision.

A sweep drops a key whose newest hit is `maxRetentionSeconds` old.  Where no window is
longer than that the hits of the key have all left it, and every run decides as the
reference does; with a longer window, a sweep that other keys' traffic sets off drops hits
that still count, and the key has its allowance again before its time.
-/
import Orqent.RateLimit.History

namespace Orqent

section Order

variable {s : SlidingWindowLimiter} {clock : ℚ}

/-- The hits of every key are in order, and none is later than the clock. -/
def InOrder (clock : ℚ) (s : SlidingWindowLimiter) : Prop :=
  ∀ key, (s.hitsOf key).Pairwise (· ≤ ·) ∧ ∀ x ∈ s.hitsOf key, x ≤ clock

theorem inOrder_empty : InOrder clock .empty := by
  intro key
  simp

theorem InOrder.later (h : InOrder clock s) {later : ℚ} (hle : clock ≤ later) : InOrder later s :=
  fun key => ⟨(h key).1, fun x hx => le_trans ((h key).2 x hx) hle⟩

theorem InOrder.check (h : InOrder clock s) {key : String} {policy : RateLimitPolicy} :
    InOrder clock (s.check clock key policy).2 := by
  have hpruned : (s.pruned clock key policy).Sublist (s.hitsOf key) := SlidingWindow.prune_sublist
  have hsorted : (s.pruned clock key policy).Pairwise (· ≤ ·) := (h key).1.sublist hpruned
  have hpast : ∀ x ∈ s.pruned clock key policy, x ≤ clock := fun x hx =>
    (h key).2 x (hpruned.subset hx)
  intro k
  by_cases hfull : policy.limit ≤ (s.pruned clock key policy).length
  · rw [SlidingWindowLimiter.check_refused hfull, SlidingWindowLimiter.hitsOf_record]
    split
    · exact ⟨hsorted, hpast⟩
    · exact h k
  · have hrecorded :
        ((s.record key (s.pruned clock key policy ++ [clock])).hitsOf k).Pairwise (· ≤ ·) ∧
          ∀ x ∈ (s.record key (s.pruned clock key policy ++ [clock])).hitsOf k, x ≤ clock := by
      rw [SlidingWindowLimiter.hitsOf_record]
      split
      · refine ⟨List.pairwise_append.mpr ⟨hsorted, by simp, fun x hx y hy => ?_⟩, fun x hx => ?_⟩
        · rw [List.mem_singleton.mp hy]
          exact hpast x hx
        · rcases List.mem_append.mp hx with hx | hx
          · exact hpast x hx
          · rw [List.mem_singleton.mp hx]
      · exact h k
    rw [SlidingWindowLimiter.check_allowed (Nat.not_le.mp hfull),
      SlidingWindowLimiter.hitsOf_maybeSweep]
    split
    · simp
    · exact hrecorded

end Order

section Sweep

variable {policies : String → RateLimitPolicy} {checks : List Check}

/-- **Where no window is longer than the retention a sweep spares every live hit.** -/
theorem along_spares {s : SlidingWindowLimiter} {clock : ℚ} (hs : InOrder clock s)
    (hshort : ∀ key, (policies key).windowSeconds ≤ SlidingWindowLimiter.maxRetentionSeconds)
    (hchecks : Nondecreasing checks) (hclock : ∀ c ∈ checks, clock ≤ c.now) :
    Trace.Along (fun s c => some (s.checkOf policies c).2) (SweepSpares policies) s checks := by
  induction checks generalizing s clock with
  | nil => exact Trace.along_nil
  | cons c rest ih =>
      obtain ⟨hfirst, hrest⟩ := List.pairwise_cons.mp hchecks
      have hnow := hs.later (hclock c List.mem_cons_self)
      refine Trace.along_cons.mpr ⟨fun _ _ key _ hstale x hx => ?_, fun s' hs' => ?_⟩
      · obtain ⟨last, hlast⟩ : ∃ last, last ∈ (s.hitsOf key).getLast? := by
          rw [List.getLast?_eq_some_getLast (List.ne_nil_of_mem hx)]
          exact ⟨_, rfl⟩
        have hle := SlidingWindow.le_of_getLast (hnow key).1 hlast hx
        have hold : last ≤ c.now - SlidingWindowLimiter.maxRetentionSeconds := by
          unfold SlidingWindowLimiter.stale at hstale
          rw [Option.mem_def.mp hlast] at hstale
          simpa using hstale
        have hwindow := hshort key
        linarith
      · injection hs' with hs'
        subst hs'
        exact ih hnow.check hrest hfirst

/--
**Sweeping changes no decision of a run whose sweeps spare the live hits**: every decision
is that of the reference limiter, and no half-open window of a key's policy holds more
than its limit of the key's allowed checks.
-/
theorem sweep_unseen (hchecks : Nondecreasing checks)
    (hspares : Trace.Along (fun s c => some (s.checkOf policies c).2) (SweepSpares policies)
      .empty checks) :
    decisionsBy (SlidingWindowLimiter.checkOf policies) .empty checks =
        decisionsBy (refCheck policies) [] checks ∧
      ∀ key, SlidingWindow.Bounded (policies key).limit (policies key).windowSeconds
        (allowedTimes key checks
          (decisionsBy (SlidingWindowLimiter.checkOf policies) .empty checks)) := by
  obtain ⟨clock, hclock⟩ := hchecks.exists_le
  have hsame := tracks_empty.decisions (historyOk_nil clock) hchecks hclock hspares
  refine ⟨hsame, fun key => ?_⟩
  rw [hsame]
  exact refDecisions_bounded (historyOk_nil clock) hchecks hclock key

/-- A key, an hour later enough of another to set off a sweep, and the first key again. -/
def sweptChecks : List Check :=
  ⟨0, "slow"⟩ :: (List.replicate 255 ⟨3600, "noise"⟩ ++ [⟨3601, "slow"⟩])

theorem sweptChecks_nondecreasing : Nondecreasing sweptChecks := by
  unfold Nondecreasing
  decide +kernel

theorem sweptChecks_from_zero : ∀ c ∈ sweptChecks, (0 : ℚ) ≤ c.now := by
  decide +kernel

/-- Many requests a minute for either key. -/
def manyPerMinute : RateLimitPolicy := ⟨300, 60, by decide, by norm_num⟩

/-- The sweep drops the first key, whose hit is an hour old, and no decision shows it. -/
theorem sweep_unseen_swept :
    ((sweptChecks.take 256).foldl (fun s c => (s.checkOf (fun _ => manyPerMinute) c).2)
        SlidingWindowLimiter.empty).hits.get? "slow" = none ∧
      decisionsBy (SlidingWindowLimiter.checkOf fun _ => manyPerMinute) .empty sweptChecks =
        decisionsBy (refCheck fun _ => manyPerMinute) [] sweptChecks ∧
      ∀ key, SlidingWindow.Bounded 300 60 (allowedTimes key sweptChecks
        (decisionsBy (SlidingWindowLimiter.checkOf fun _ => manyPerMinute) .empty
          sweptChecks)) := by
  have hstart : InOrder 0 .empty := inOrder_empty
  refine ⟨by decide +kernel, sweep_unseen sweptChecks_nondecreasing
    (along_spares hstart (fun _ => ?_) sweptChecks_nondecreasing sweptChecks_from_zero)⟩
  norm_num [manyPerMinute, SlidingWindowLimiter.maxRetentionSeconds]

/-! ### A window longer than the retention -/

/-- One request in two hours for one key, traffic in plenty for the others. -/
def slowPolicies (key : String) : RateLimitPolicy :=
  if key = "slow" then ⟨1, 7200, by decide, by norm_num⟩ else manyPerMinute

/-- The slow key is allowed twice in its two hours, which the reference limiter does not do. -/
theorem sweep_forgets : Nondecreasing sweptChecks ∧
    decisionsBy (SlidingWindowLimiter.checkOf slowPolicies) .empty sweptChecks ≠
      decisionsBy (refCheck slowPolicies) [] sweptChecks ∧
    ¬ SlidingWindow.Bounded (slowPolicies "slow").limit (slowPolicies "slow").windowSeconds
      (allowedTimes "slow" sweptChecks
        (decisionsBy (SlidingWindowLimiter.checkOf slowPolicies) .empty sweptChecks)) := by
  have htwice : allowedTimes "slow" sweptChecks
      (decisionsBy (SlidingWindowLimiter.checkOf slowPolicies) .empty sweptChecks) = [0, 3601] := by
    decide +kernel
  have hunbounded : ¬ SlidingWindow.Bounded (slowPolicies "slow").limit
      (slowPolicies "slow").windowSeconds (allowedTimes "slow" sweptChecks
        (decisionsBy (SlidingWindowLimiter.checkOf slowPolicies) .empty sweptChecks)) := by
    rw [htwice]
    intro h
    have htwo := (h 0).1
    revert htwo
    decide +kernel
  refine ⟨sweptChecks_nondecreasing, fun hsame => hunbounded ?_, hunbounded⟩
  rw [hsame]
  exact refDecisions_bounded (historyOk_nil 0) sweptChecks_nondecreasing sweptChecks_from_zero
    "slow"

end Sweep

end Orqent
