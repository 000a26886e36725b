/-
A refused check can be forgotten, and its wait can be relied on.

No key ever holds more hits than its limit, so once the oldest one has aged out there is
room, and the wait a refused check is given lasts until it has.  A refused check only
prunes: beside a run from which it is left out, the limiter has forgotten more, of what
has left the window anyway (`Lags`), and decides the same from there on.
-/
import Orqent.RateLimit.Sweep

namespace Orqent

/-- The limiter after checks made one after another. -/
def SlidingWindowLimiter.after (policies : String → RateLimitPolicy) (s : SlidingWindowLimiter)
    (checks : List Check) : SlidingWindowLimiter :=
  checks.foldl (fun s c => (s.checkOf policies c).2) s

/-- Checks each marked as one that stays, or one that is left out. -/
abbrev MarkedChecks := List (Check × Bool)

namespace MarkedChecks

/-- All of the checks. -/
def all (marked : MarkedChecks) : List Check := marked.map Prod.fst

/-- Those that stay. -/
def staying (marked : MarkedChecks) : List Check := (marked.filter Prod.snd).map Prod.fst

/-- The decisions on those that stay. -/
def decisionsOn (marked : MarkedChecks) (decisions : List Decision) : List Decision :=
  ((marked.zip decisions).filter fun x => x.1.2).map Prod.snd

/-- Those that are left out are refused. -/
def RefusesRest (marked : MarkedChecks) (decisions : List Decision) : Prop :=
  ∀ x ∈ marked.zip decisions, x.1.2 = false → x.2.allowed = false

end MarkedChecks

/-! ### Waiting -/

section Waiting

variable {policies : String → RateLimitPolicy} {s : SlidingWindowLimiter} {checks : List Check}
variable {c : Check} {key : String}

/-- A check of another key leaves the hits of this one alone, or sweeps them. -/
theorem hitsOf_check_ne (s : SlidingWindowLimiter) (now : ℚ) (policy : RateLimitPolicy)
    {other : String} (h : other ≠ key) :
    (s.check now other policy).2.hitsOf key = s.hitsOf key ∨
      (s.check now other policy).2.hitsOf key = [] := by
  by_cases hfull : policy.limit ≤ (s.pruned now other policy).length
  · rw [SlidingWindowLimiter.check_refused hfull, SlidingWindowLimiter.hitsOf_record, if_neg h]
    exact Or.inl rfl
  · rw [SlidingWindowLimiter.check_allowed (Nat.not_le.mp hfull),
      SlidingWindowLimiter.hitsOf_maybeSweep, SlidingWindowLimiter.hitsOf_record, if_neg h]
    split
    · exact Or.inr rfl
    · exact Or.inl rfl

theorem hitsOf_after_ne (s : SlidingWindowLimiter) (h : ∀ c ∈ checks, c.key ≠ key) :
    (s.after policies checks).hitsOf key = s.hitsOf key ∨
      (s.after policies checks).hitsOf key = [] := by
  induction checks generalizing s with
  | nil => exact Or.inl rfl
  | cons c rest ih =>
      have hrest := ih (s.checkOf policies c).2 fun d hd => h d (List.mem_cons_of_mem _ hd)
      have hfirst : (s.checkOf policies c).2.hitsOf key = s.hitsOf key ∨
          (s.checkOf policies c).2.hitsOf key = [] :=
        hitsOf_check_ne s c.now (policies c.key) (h c List.mem_cons_self)
      rcases hrest with hrest | hrest
      · rw [← hrest] at hfirst
        exact hfirst
      · exact Or.inr hrest

/-- No key holds more hits than its limit. -/
def Within (policies : String → RateLimitPolicy) (s : SlidingWindowLimiter) : Prop :=
  ∀ key, (s.hitsOf key).length ≤ (policies key).limit

theorem Within.check (h : Within policies s) : Within policies (s.checkOf policies c).2 := by
  have hpruned : (s.pruned c.now c.key (policies c.key)).length ≤ (policies c.key).limit :=
    Nat.le_trans SlidingWindow.prune_sublist.length_le (h c.key)
  intro k
  unfold SlidingWindowLimiter.checkOf
  by_cases hkey : c.key = k
  · subst hkey
    by_cases hfull : (policies c.key).limit ≤ (s.pruned c.now c.key (policies c.key)).length
    · rw [SlidingWindowLimiter.check_refused hfull, SlidingWindowLimiter.hitsOf_record, if_pos rfl]
      exact hpruned
    · rw [SlidingWindowLimiter.check_allowed (Nat.not_le.mp hfull),
        SlidingWindowLimiter.hitsOf_maybeSweep, SlidingWindowLimiter.hitsOf_record, if_pos rfl,
        not_stale_append]
      simp
      omega
  · rcases hitsOf_check_ne s c.now (policies c.key) hkey with heq | heq
    · rw [heq]
      exact h k
    · simp [heq]

theorem within_after (checks : List Check) (h : Within policies s) :
    Within policies (s.after policies checks) := by
  induction checks generalizing s with
  | nil => exact h
  | cons c rest ih => exact ih h.check

/-- **Where a key holds no more than its limit and its oldest hit has aged out, it is served.** -/
theorem allowed_of_aged {now oldest : ℚ} {policy : RateLimitPolicy}
    (hwithin : (s.hitsOf key).length ≤ policy.limit) (holdest : oldest ∈ (s.hitsOf key).head?)
    (hnow : oldest + policy.windowSeconds ≤ now) : (s.check now key policy).1.allowed = true := by
  rw [SlidingWindowLimiter.check_allowed_iff]
  have haged : oldest ≤ now - policy.windowSeconds := by linarith
  have hlt := SlidingWindow.length_prune_lt holdest haged
  exact Nat.lt_of_lt_of_le hlt hwithin

/-- A key with no hits is served. -/
theorem allowed_of_nil (now : ℚ) (policy : RateLimitPolicy) (h : s.hitsOf key = []) :
    (s.check now key policy).1.allowed = true := by
  rw [SlidingWindowLimiter.check_allowed_iff, SlidingWindowLimiter.pruned, h]
  exact policy.limit_pos

/-- What a refused check leaves, and what it answers: the wait for the oldest hit. -/
theorem refused_spec {now : ℚ} {policy : RateLimitPolicy}
    (h : (s.check now key policy).1.allowed = false) :
    ∃ oldest, oldest ∈ ((s.check now key policy).2.hitsOf key).head? ∧
      now - policy.windowSeconds < oldest ∧
      (s.check now key policy).1.retryAfter = policy.retryAfter now oldest := by
  have hfull : policy.limit ≤ (s.pruned now key policy).length := by
    by_contra hroom
    rw [SlidingWindowLimiter.check_allowed_iff.mpr (Nat.not_le.mp hroom)] at h
    simp at h
  have hpos := policy.limit_pos
  obtain ⟨oldest, rest, hhits⟩ := List.exists_cons_of_length_pos (Nat.lt_of_lt_of_le hpos hfull)
  have hhead : oldest ∈ (s.pruned now key policy).head? := by simp [hhits]
  rw [SlidingWindowLimiter.check_refused hfull, SlidingWindowLimiter.hitsOf_record, if_pos rfl]
  refine ⟨oldest, hhead, SlidingWindow.lt_of_prune_head hhead, ?_⟩
  rw [hhits]
  rfl

/-- **Waiting as long as a refused check says is enough.** -/
theorem allowed_after_wait (h : Within policies s)
    (hrefused : (s.checkOf policies c).1.allowed = false) {between : List Check} {later : Check}
    (hother : ∀ d ∈ between, d.key ≠ c.key) (hkey : later.key = c.key)
    (hwait : c.now + (s.checkOf policies c).1.retryAfter ≤ later.now) :
    ((((s.checkOf policies c).2).after policies between).checkOf policies
      later).1.allowed = true := by
  obtain ⟨oldest, hhead, hlive, hretry⟩ := refused_spec hrefused
  have hlong := (policies c.key).lt_retryAfter hlive
  have hwithin := within_after between (h.check (c := c)) c.key
  unfold SlidingWindowLimiter.checkOf at hwait hwithin ⊢
  rw [hretry] at hwait
  rw [hkey]
  have hkept : ((s.check c.now c.key (policies c.key)).2.after policies between).hitsOf c.key =
        (s.check c.now c.key (policies c.key)).2.hitsOf c.key ∨
      ((s.check c.now c.key (policies c.key)).2.after policies between).hitsOf c.key = [] :=
    hitsOf_after_ne _ hother
  rcases hkept with heq | heq
  · rw [← heq] at hhead
    exact allowed_of_aged hwithin hhead (by linarith)
  · exact allowed_of_nil later.now (policies c.key) heq

end Waiting

/-! ### Leaving refused checks out -/

section Lags

variable {policies : String → RateLimitPolicy} {clock : ℚ} {s s' : SlidingWindowLimiter}
variable {c : Check} {marked : MarkedChecks}

/-- The one limiter has forgotten what the other has not pruned yet, but no key's newest hit. -/
structure Lags (policies : String → RateLimitPolicy) (clock : ℚ) (s s' : SlidingWindowLimiter) :
    Prop where
  sweeps : s.checksSinceSweep = s'.checksSinceSweep
  forgets : ∀ key, SlidingWindow.Forgets (clock - (policies key).windowSeconds) (s'.hitsOf key)
    (s.hitsOf key)
  newest : ∀ key, s.hitsOf key = [] → s'.hitsOf key = []

theorem Lags.refl : Lags policies clock s s :=
  ⟨rfl, fun _ => SlidingWindow.Forgets.refl, fun _ h => h⟩

theorem Lags.later (h : Lags policies clock s s') {later : ℚ} (hle : clock ≤ later) :
    Lags policies later s s' :=
  ⟨h.sweeps, fun key => (h.forgets key).mono (by linarith), h.newest⟩

/-- A sweep drops the same keys of both. -/
theorem Lags.stale_eq (h : Lags policies clock s s') {cutoff : ℚ} (key : String) :
    SlidingWindowLimiter.stale cutoff (s.hitsOf key) =
      SlidingWindowLimiter.stale cutoff (s'.hitsOf key) := by
  by_cases hnil : s.hitsOf key = []
  · rw [hnil, h.newest key hnil]
  · obtain ⟨forgotten, heq, -⟩ := h.forgets key
    unfold SlidingWindowLimiter.stale
    rw [heq, List.getLast?_append_of_ne_nil _ hnil]

theorem Lags.record (h : Lags policies clock s s') {key : String} {hits : List ℚ} :
    Lags policies clock (s.record key hits) (s'.record key hits) := by
  refine ⟨h.sweeps, fun k => ?_, fun k => ?_⟩
  · simp only [SlidingWindowLimiter.hitsOf_record]
    split
    · exact SlidingWindow.Forgets.refl
    · exact h.forgets k
  · simp only [SlidingWindowLimiter.hitsOf_record]
    split
    · exact fun hnil => hnil
    · exact h.newest k

theorem Lags.maybeSweep (h : Lags policies clock s s') {now : ℚ} :
    Lags policies clock (s.maybeSweep now) (s'.maybeSweep now) := by
  have hdue : s.SweepDue ↔ s'.SweepDue := by
    unfold SlidingWindowLimiter.SweepDue
    rw [h.sweeps]
  refine ⟨?_, fun key => ?_, fun key => ?_⟩
  · simp only [SlidingWindowLimiter.checksSinceSweep_maybeSweep, hdue, h.sweeps]
  · simp only [SlidingWindowLimiter.hitsOf_maybeSweep, hdue, h.stale_eq key]
    split
    · exact SlidingWindow.Forgets.refl
    · exact h.forgets key
  · simp only [SlidingWindowLimiter.hitsOf_maybeSweep, hdue, h.stale_eq key]
    split
    · exact fun hnil => hnil
    · exact h.newest key

/-- **Both decide the same**, and are left alike. -/
theorem Lags.check (h : Lags policies c.now s s') :
    (s.checkOf policies c).1 = (s'.checkOf policies c).1 ∧
      Lags policies c.now (s.checkOf policies c).2 (s'.checkOf policies c).2 := by
  have hpruned : s'.pruned c.now c.key (policies c.key) = s.pruned c.now c.key (policies c.key) :=
    (h.forgets c.key).prune_eq
  unfold SlidingWindowLimiter.checkOf
  by_cases hfull : (policies c.key).limit ≤ (s.pruned c.now c.key (policies c.key)).length
  · rw [SlidingWindowLimiter.check_refused hfull,
      SlidingWindowLimiter.check_refused (by rw [hpruned]; exact hfull), hpruned]
    exact ⟨rfl, h.record⟩
  · have hroom := Nat.not_le.mp hfull
    rw [SlidingWindowLimiter.check_allowed hroom,
      SlidingWindowLimiter.check_allowed (by rw [hpruned]; exact hroom), hpruned]
    exact ⟨rfl, h.record.maybeSweep⟩

/-- **A refused check leaves the limiter with no more than it would hold without it.** -/
theorem Lags.refused (h : Lags policies c.now s s')
    (hrefused : (s.checkOf policies c).1.allowed = false) :
    Lags policies c.now (s.checkOf policies c).2 s' := by
  unfold SlidingWindowLimiter.checkOf at hrefused ⊢
  have hfull : (policies c.key).limit ≤ (s.pruned c.now c.key (policies c.key)).length := by
    by_contra hroom
    rw [SlidingWindowLimiter.check_allowed_iff.mpr (Nat.not_le.mp hroom)] at hrefused
    simp at hrefused
  rw [SlidingWindowLimiter.check_refused hfull]
  refine ⟨h.sweeps, fun key => ?_, fun key => ?_⟩
  · rw [SlidingWindowLimiter.hitsOf_record]
    split
    · rename_i hkey
      subst hkey
      exact (h.forgets c.key).prune
    · exact h.forgets key
  · rw [SlidingWindowLimiter.hitsOf_record]
    split
    · -- At its limit the key is left with a hit.
      intro hnil
      rw [hnil] at hfull
      have hpos := (policies c.key).limit_pos
      simp at hfull
      omega
    · exact h.newest key

/-- **The checks that stay are decided as if those left out had not been made.** -/
theorem Lags.decisions (h : Lags policies clock s s') (hclock : Nondecreasing marked.all)
    (hlater : ∀ c ∈ marked.all, clock ≤ c.now)
    (hrefused : marked.RefusesRest
      (decisionsBy (SlidingWindowLimiter.checkOf policies) s marked.all)) :
    marked.decisionsOn (decisionsBy (SlidingWindowLimiter.checkOf policies) s marked.all) =
      decisionsBy (SlidingWindowLimiter.checkOf policies) s' marked.staying := by
  induction marked generalizing clock s s' with
  | nil => rfl
  | cons x rest ih =>
      obtain ⟨c, stays⟩ := x
      obtain ⟨hfirst, hrest⟩ := List.pairwise_cons.mp hclock
      have hnow := h.later (hlater c List.mem_cons_self)
      have hothers : MarkedChecks.RefusesRest rest (decisionsBy
          (SlidingWindowLimiter.checkOf policies) (s.checkOf policies c).2
            (MarkedChecks.all rest)) :=
        fun x hx => hrefused x (List.mem_cons_of_mem _ hx)
      cases stays with
      | true =>
          obtain ⟨hsame, hlags⟩ := hnow.check
          have hmore := ih hlags hrest hfirst hothers
          show (s.checkOf policies c).1 :: _ = (s'.checkOf policies c).1 :: _
          rw [hsame]
          exact congrArg _ hmore
      | false =>
          have hno := hrefused ((c, false), (s.checkOf policies c).1) List.mem_cons_self rfl
          exact ih (hnow.refused hno) hrest hfirst hothers

end Lags

/-! ### Retry-After -/

section Honest

variable {policies : String → RateLimitPolicy}

/-- A run is decided as the run without its refused checks. -/
theorem decisionsOn_staying {marked : MarkedChecks} (hclock : Nondecreasing marked.all)
    (hrefused : marked.RefusesRest
      (decisionsBy (SlidingWindowLimiter.checkOf policies) .empty marked.all)) :
    marked.decisionsOn (decisionsBy (SlidingWindowLimiter.checkOf policies) .empty marked.all) =
      decisionsBy (SlidingWindowLimiter.checkOf policies) .empty marked.staying := by
  obtain ⟨clock, hlater⟩ := hclock.exists_le
  exact Lags.refl.decisions hclock hlater hrefused

/--
**Retry-After is honest.**  After any history, a check that is refused is followed by one
that is allowed if the key is let alone for as long as it says, whatever is checked of
other keys in between.  And two histories that differ in refused checks only, put in or
left out anywhere, decide the checks that they share alike.
-/
theorem retryAfter_honest (policies : String → RateLimitPolicy) :
    (∀ before between : List Check, ∀ c later : Check,
      (((SlidingWindowLimiter.empty.after policies before).checkOf policies c).1.allowed = false) →
      (∀ d ∈ between, d.key ≠ c.key) → later.key = c.key →
      c.now + ((SlidingWindowLimiter.empty.after policies before).checkOf policies c).1.retryAfter
        ≤ later.now →
      ((SlidingWindowLimiter.empty.after policies (before ++ c :: between)).checkOf policies
        later).1.allowed = true) ∧
    ∀ one two : MarkedChecks, Nondecreasing one.all → Nondecreasing two.all →
      one.RefusesRest (decisionsBy (SlidingWindowLimiter.checkOf policies) .empty one.all) →
      two.RefusesRest (decisionsBy (SlidingWindowLimiter.checkOf policies) .empty two.all) →
      one.staying = two.staying →
      one.decisionsOn (decisionsBy (SlidingWindowLimiter.checkOf policies) .empty one.all) =
        two.decisionsOn (decisionsBy (SlidingWindowLimiter.checkOf policies) .empty two.all) := by
  refine ⟨fun before between c later hrefused hother hkey hwait => ?_,
    fun one two hone htwo hrefused hrefused' hsame => ?_⟩
  · have hwithin : Within policies (SlidingWindowLimiter.empty.after policies before) :=
      within_after before fun key => by simp
    have hallowed := allowed_after_wait hwithin hrefused hother hkey hwait
    unfold SlidingWindowLimiter.after at hallowed ⊢
    rw [List.foldl_append, List.foldl_cons]
    exact hallowed
  · rw [decisionsOn_staying hone hrefused, decisionsOn_staying htwo hrefused', hsame]

/-- A check of each of two keys, with a refused check of the first put in between. -/
def impatient : MarkedChecks :=
  [(⟨0, "a"⟩, true), (⟨1, "a"⟩, false), (⟨30, "b"⟩, true), (⟨61, "a"⟩, true)]

/-- The same checks without it. -/
def patient : MarkedChecks := [(⟨0, "a"⟩, true), (⟨30, "b"⟩, true), (⟨61, "a"⟩, true)]

/-- The refused check waits its sixty seconds and is allowed, and changes no other decision. -/
theorem retryAfter_honest_minute :
    ((SlidingWindowLimiter.empty.after (fun _ => onePerMinute)
        ([⟨0, "a"⟩] ++ ⟨1, "a"⟩ :: [⟨30, "b"⟩])).checkOf (fun _ => onePerMinute)
          ⟨61, "a"⟩).1.allowed = true ∧
      impatient.decisionsOn
          (decisionsBy (SlidingWindowLimiter.checkOf fun _ => onePerMinute) .empty impatient.all) =
        patient.decisionsOn
          (decisionsBy (SlidingWindowLimiter.checkOf fun _ => onePerMinute) .empty
            patient.all) := by
  have hboth := retryAfter_honest fun _ => onePerMinute
  refine ⟨hboth.1 [⟨0, "a"⟩] [⟨30, "b"⟩] ⟨1, "a"⟩ ⟨61, "a"⟩ (by decide +kernel) (by simp) rfl
    (by decide +kernel), hboth.2 impatient patient ?_ ?_ ?_ ?_ rfl⟩
  · unfold Nondecreasing
    decide +kernel
  · unfold Nondecreasing
    decide +kernel
  · unfold MarkedChecks.RefusesRest
    decide +kernel
  · unfold MarkedChecks.RefusesRest
    decide +kernel

end Honest

end Orqent
