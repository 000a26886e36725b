/-
The sliding-window limiter.

The recent hits of each key, oldest first, in the memory of one process.  A check prunes
the hits of its key that have left the window, and records one more if fewer than `limit`
are left; a refused check records nothing.  Every `sweepEvery` allowed checks the keys are
swept: those with no hit in the last `maxRetentionSeconds` are dropped.

Clock readings and windows are exact rationals.  A check has no `await` in it, so it is
one step.
-/
import Orqent.Lib.Dict
import Orqent.Lib.SlidingWindow
import Orqent.Lib.Text
import Mathlib.Data.Rat.Floor

namespace Orqent

/-! ### Policies -/

/-- How many requests are allowed, and over how long. -/
structure RateLimitPolicy where
  limit : Nat
  windowSeconds : ℚ
  limit_pos : 1 ≤ limit
  window_pos : 0 < windowSeconds

theorem one_limit : 1 ≤ (1 : Nat) := Nat.le_refl 1

theorem minute_pos : 0 < (60 : ℚ) := by norm_num

/-- One request a minute. -/
def onePerMinute : RateLimitPolicy := ⟨1, 60, one_limit, minute_pos⟩

/-- Read a `"8/60"` setting into a policy.  `int` and `float` read a number, or raise; a
window is read as finite. -/
def RateLimitPolicy.parse (int : String → Option Int) (float : String → Option ℚ) (value : String) :
    Except String RateLimitPolicy :=
  let limit := value.toList.takeWhile (· ≠ '/')
  let window := (value.toList.dropWhile (· ≠ '/')).drop 1
  match int (String.ofList limit), float (String.ofList window) with
  | some limit, some window =>
      if h : limit < 1 ∨ window ≤ 0 then
        .error ("Rate limit must be positive, got " ++ quoted value ++ ".")
      else .ok ⟨limit.toNat, window, by omega, lt_of_not_ge fun hw => h (Or.inr hw)⟩
  | _, _ => .error ("Rate limit must look like '8/60', got " ++ quoted value ++ ".")

/-- Whether a request may proceed, and how long to wait if not. -/
structure Decision where
  allowed : Bool
  retryAfter : Int := 0
deriving DecidableEq, Repr

/-! ### The limiter -/

/-- The hits of each key, and the allowed checks since the last sweep. -/
structure SlidingWindowLimiter where
  hits : Dict String (List ℚ)
  checksSinceSweep : Nat
  keys_nodup : (hits.map Prod.fst).Nodup

/-- `int(q)`: towards zero. -/
def truncate (q : ℚ) : Int := if 0 ≤ q then ⌊q⌋ else ⌈q⌉

/-- The wait until the oldest hit ages out, rounded up. -/
def RateLimitPolicy.retryAfter (policy : RateLimitPolicy) (now oldest : ℚ) : Int :=
  max 1 (truncate (oldest + policy.windowSeconds - now) + 1)

namespace SlidingWindowLimiter

/-- How many allowed checks there are to a sweep. -/
def sweepEvery : Nat := 256

/-- How old the newest hit of a key is that a sweep drops. -/
def maxRetentionSeconds : ℚ := 3600

/-- Nothing recorded yet. -/
def empty : SlidingWindowLimiter := ⟨[], 0, List.nodup_nil⟩

/-- The hits recorded under a key. -/
def hitsOf (s : SlidingWindowLimiter) (key : String) : List ℚ := (s.hits.get? key).getD []

/-- Record these hits under the key, in place of what is there. -/
def record (s : SlidingWindowLimiter) (key : String) (hits : List ℚ) : SlidingWindowLimiter :=
  { s with
    hits := s.hits.set key hits
    keys_nodup := Dict.nodup_set _ key hits s.keys_nodup }

/-- No hit after the cutoff, by the newest. -/
def stale (cutoff : ℚ) (hits : List ℚ) : Bool := hits.getLast?.all (· ≤ cutoff)

/-- Drop keys with no hit recent enough to matter. -/
def sweep (s : SlidingWindowLimiter) (now : ℚ) : SlidingWindowLimiter :=
  let cutoff := now - maxRetentionSeconds
  { s with
    hits := s.hits.filter fun entry => !stale cutoff entry.2
    keys_nodup := s.keys_nodup.sublist (List.filter_sublist.map _) }

/-- An allowed check is counted, and a sweep made if it is due. -/
def maybeSweep (s : SlidingWindowLimiter) (now : ℚ) : SlidingWindowLimiter :=
  let s := { s with checksSinceSweep := s.checksSinceSweep + 1 }
  if s.checksSinceSweep < sweepEvery then s
  else sweep { s with checksSinceSweep := 0 } now

/-- Record a hit against the key, and say whether it is allowed. -/
def check (s : SlidingWindowLimiter) (now : ℚ) (key : String) (policy : RateLimitPolicy) :
    Decision × SlidingWindowLimiter :=
  let cutoff := now - policy.windowSeconds
  let hits := SlidingWindow.prune cutoff (s.hitsOf key)
  if policy.limit ≤ hits.length then
    -- The limit is positive, so there is an oldest one.
    (⟨false, policy.retryAfter now (hits.headD now)⟩, s.record key hits)
  else (⟨true, 0⟩, (s.record key (hits ++ [now])).maybeSweep now)

/-- Forget everything. -/
def reset (_ : SlidingWindowLimiter) : SlidingWindowLimiter := empty

end SlidingWindowLimiter

/-! ### What a check does -/

section Check

variable {s : SlidingWindowLimiter} {now : ℚ} {key k : String} {policy : RateLimitPolicy}

/-- What parsing accepts is what it reads, if both numbers are positive. -/
theorem RateLimitPolicy.parse_ok {int : String → Option Int} {float : String → Option ℚ}
    {value : String} (h : RateLimitPolicy.parse int float value = .ok policy) :
    int (String.ofList (value.toList.takeWhile (· ≠ '/'))) = some (policy.limit : Int) ∧
      float (String.ofList ((value.toList.dropWhile (· ≠ '/')).drop 1)) =
        some policy.windowSeconds := by
  unfold RateLimitPolicy.parse at h
  dsimp only at h
  split at h
  · rename_i limit window hlimit hwindow
    split at h
    · simp at h
    · rename_i hpos
      injection h with hpolicy
      subst hpolicy
      rw [hlimit, hwindow]
      exact ⟨by simp; omega, rfl⟩
  · simp at h

/-- A client that waits as long as it is told waits until the oldest hit has aged out. -/
theorem RateLimitPolicy.lt_retryAfter {oldest : ℚ} (h : now - policy.windowSeconds < oldest) :
    oldest + policy.windowSeconds < now + policy.retryAfter now oldest := by
  have hwait : 0 ≤ oldest + policy.windowSeconds - now := by linarith
  have hfloor : oldest + policy.windowSeconds - now <
      (truncate (oldest + policy.windowSeconds - now) : ℚ) + 1 := by
    unfold truncate
    rw [if_pos hwait]
    exact Int.lt_floor_add_one _
  have hmax : (truncate (oldest + policy.windowSeconds - now) : ℚ) + 1 ≤
      policy.retryAfter now oldest := by
    unfold RateLimitPolicy.retryAfter
    exact_mod_cast le_max_right 1 (truncate (oldest + policy.windowSeconds - now) + 1)
  linarith

theorem RateLimitPolicy.retryAfter_pos {oldest : ℚ} : (1 : ℚ) ≤ policy.retryAfter now oldest := by
  unfold RateLimitPolicy.retryAfter
  exact_mod_cast le_max_left 1 (truncate (oldest + policy.windowSeconds - now) + 1)

namespace SlidingWindowLimiter

@[simp] theorem hitsOf_empty : empty.hitsOf k = [] := rfl

theorem hitsOf_record {hits : List ℚ} :
    (s.record key hits).hitsOf k = if key = k then hits else s.hitsOf k := by
  unfold hitsOf record
  rw [Dict.get?_set]
  split <;> rfl

@[simp] theorem stale_nil {cutoff : ℚ} : stale cutoff [] = true := rfl

/-- A sweep drops the keys that are stale, and leaves the others alone. -/
theorem hitsOf_sweep : (s.sweep now).hitsOf k =
    if stale (now - maxRetentionSeconds) (s.hitsOf k) = true then [] else s.hitsOf k := by
  unfold hitsOf sweep
  dsimp only
  cases hget : s.hits.get? k with
  | none =>
      have hnone : Dict.get? (s.hits.filter fun e => !stale (now - maxRetentionSeconds) e.2) k
          = none := by
        by_contra hsome
        obtain ⟨hits, hhits⟩ := Option.ne_none_iff_exists'.mp hsome
        have hmem := List.mem_of_mem_filter (Dict.mem_of_get? _ hhits)
        rw [Dict.get?_of_mem _ s.keys_nodup hmem] at hget
        simp at hget
      simp [hnone]
  | some hits =>
      have hmem := Dict.mem_of_get? _ hget
      by_cases hstale : stale (now - maxRetentionSeconds) hits = true
      · have hnone : Dict.get? (s.hits.filter fun e => !stale (now - maxRetentionSeconds) e.2) k
            = none := by
          by_contra hsome
          obtain ⟨hits', hhits'⟩ := Option.ne_none_iff_exists'.mp hsome
          have hkept := Dict.mem_of_get? _ hhits'
          have hsame := Dict.get?_of_mem _ s.keys_nodup (List.mem_of_mem_filter hkept)
          rw [hget, Option.some.injEq] at hsame
          subst hsame
          simp [hstale] at hkept
        simp [hnone, hstale]
      · have hkept : Dict.get? (s.hits.filter fun e => !stale (now - maxRetentionSeconds) e.2) k
            = some hits := by
          refine Dict.get?_of_mem _ (s.keys_nodup.sublist (List.filter_sublist.map _)) ?_
          exact List.mem_filter.mpr ⟨hmem, by simpa using hstale⟩
        simp [hkept, hstale]

/-- Whether the next allowed check sweeps. -/
def SweepDue (s : SlidingWindowLimiter) : Prop := sweepEvery ≤ s.checksSinceSweep + 1

instance (s : SlidingWindowLimiter) : Decidable s.SweepDue := inferInstanceAs (Decidable (_ ≤ _))

/-- The hits a check of the key finds still inside the window. -/
def pruned (s : SlidingWindowLimiter) (now : ℚ) (key : String) (policy : RateLimitPolicy) :
    List ℚ :=
  SlidingWindow.prune (now - policy.windowSeconds) (s.hitsOf key)

/-- **A refused check** prunes the hits of its key, and does nothing else. -/
theorem check_refused (h : policy.limit ≤ (s.pruned now key policy).length) :
    s.check now key policy = (⟨false, policy.retryAfter now ((s.pruned now key policy).headD now)⟩,
      s.record key (s.pruned now key policy)) :=
  if_pos h

/-- **An allowed check** records a hit, and sweeps if a sweep is due. -/
theorem check_allowed (h : (s.pruned now key policy).length < policy.limit) :
    s.check now key policy =
      (⟨true, 0⟩, (s.record key (s.pruned now key policy ++ [now])).maybeSweep now) :=
  if_neg (Nat.not_le.mpr h)

theorem check_allowed_iff :
    (s.check now key policy).1.allowed = true ↔
    (s.pruned now key policy).length < policy.limit := by
  rcases Nat.lt_or_ge (s.pruned now key policy).length policy.limit with h | h
  · simp [check_allowed h, h]
  · simp [check_refused h, h]

theorem maybeSweep_eq : s.maybeSweep now =
    if s.SweepDue then sweep { s with checksSinceSweep := 0 } now
    else { s with checksSinceSweep := s.checksSinceSweep + 1 } := by
  unfold maybeSweep
  dsimp only
  by_cases hdue : s.SweepDue
  · rw [if_pos hdue, if_neg (Nat.not_lt.mpr hdue)]
  · rw [if_neg hdue, if_pos (Nat.not_le.mp hdue)]

theorem hitsOf_maybeSweep : (s.maybeSweep now).hitsOf k =
    if s.SweepDue ∧ stale (now - maxRetentionSeconds) (s.hitsOf k) = true then []
    else s.hitsOf k := by
  rw [maybeSweep_eq]
  by_cases hdue : s.SweepDue
  · simp only [hdue, if_true, true_and]
    exact hitsOf_sweep
  · simp only [hdue, if_false, false_and]
    rfl

theorem checksSinceSweep_maybeSweep : (s.maybeSweep now).checksSinceSweep =
    if s.SweepDue then 0 else s.checksSinceSweep + 1 := by
  rw [maybeSweep_eq]
  split <;> rfl

end SlidingWindowLimiter

end Check

end Orqent
