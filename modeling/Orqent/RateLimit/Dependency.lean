/-
A refused request and what it costs.

A route is limited by the address of the caller and, where the request names one, by a
subject; the keys are checked one after the other with the same policy.  A check that is
refused records nothing, but the check before it has recorded its hit: a request that is
let past by its address and refused by its subject is charged to the address.  And the
wait that is returned is that of the key that refused, whatever the other key still holds.
So a refusal is free if it is the address that refuses and the subject has room when the
wait is over (`FreeRefusal`), and in no other case.
-/
import Orqent.RateLimit.RetryAfter
import Orqent.Lib.Text
import Mathlib.Algebra.Order.BigOperators.Group.List

namespace Orqent

/-! ### The dependency -/

/-- What the dependency reads of a request: the `x-forwarded-for` header, the peer address,
the subject named in it, and the clock when each key is checked. -/
structure LimitedRequest where
  forwarded : Option String := none
  host : Option String
  named : Option String := none
  addressNow : ℚ
  subjectNow : ℚ

/-- The same request, made again at this time. -/
def LimitedRequest.again (request : LimitedRequest) (now : ℚ) : LimitedRequest :=
  { request with addressNow := now, subjectNow := now }

/-- A dependency that `rate_limit` builds, with the settings it reads: `policy` is what its
setting parses to, `digest` the pseudonym of a subject. -/
structure RateLimitDependency where
  category : String
  policy : RateLimitPolicy
  digest : String → String
  rateLimitEnabled : Bool := true
  trustedProxyHops : Nat := 0

/-- The request goes on, or is answered 429 with a Retry-After. -/
inductive LimitAnswer
  | served
  | refused (retryAfter : Int)
deriving DecidableEq, Repr

/-- The address the request is attributed to. -/
def clientIdentity (request : LimitedRequest) (hops : Nat) : String :=
  let chain := (((request.forwarded.getD "").toList.splitOn ',').map strip).filter (· ≠ [])
  if 0 < hops ∧ hops ≤ chain.length then String.ofList (chain.getD (chain.length - hops) [])
  else request.host.getD "unknown"

namespace RateLimitDependency

variable (d : RateLimitDependency)

/-- The first key, which every request has. -/
def addressKey (request : LimitedRequest) : String :=
  d.category ++ ":ip:" ++ clientIdentity request d.trustedProxyHops

/-- The second key, where the request names something. -/
def subjectKey (request : LimitedRequest) : Option String :=
  match request.named with
  | some named => if named = "" then none else some (d.category ++ ":subject:" ++ d.digest named)
  | none => none

/-- The keys of a request, in the order they are checked. -/
def keys (request : LimitedRequest) : List String :=
  d.addressKey request :: (d.subjectKey request).toList

/-- The loop over the keys, each with the clock when it is checked. -/
def checkKeys (policy : RateLimitPolicy) : SlidingWindowLimiter → List (String × ℚ) →
    LimitAnswer × SlidingWindowLimiter
  | s, [] => (.served, s)
  | s, (key, now) :: rest =>
      let (decision, s) := s.check now key policy
      if !decision.allowed then (.refused decision.retryAfter, s) else checkKeys policy s rest

/-- The dependency of the route. -/
def dependency (s : SlidingWindowLimiter) (request : LimitedRequest) :
    LimitAnswer × SlidingWindowLimiter :=
  if !d.rateLimitEnabled then (.served, s)
  else checkKeys d.policy s ((d.keys request).zip [request.addressNow, request.subjectNow])

/-- The limiter after a history of requests. -/
def after (s : SlidingWindowLimiter) (requests : List LimitedRequest) : SlidingWindowLimiter :=
  requests.foldl (fun s request => (d.dependency s request).2) s

/-! ### What a refusal should cost -/

/-- The requests come one after another, from this clock reading on. -/
def InTime : ℚ → List LimitedRequest → Prop
  | _, [] => True
  | clock, request :: rest =>
      clock ≤ request.addressNow ∧ request.addressNow ≤ request.subjectNow ∧
        InTime request.subjectNow rest

/-- When a request that is refused is refused. -/
def refusedAt (s : SlidingWindowLimiter) (request : LimitedRequest) : ℚ :=
  if (s.pruned request.addressNow (d.addressKey request) d.policy).length < d.policy.limit then
    request.subjectNow
  else request.addressNow

/-- The request charges nothing to any key; and made again after the wait it was given, with
none of its keys used in between, it is served. -/
def CostsNothing (s : SlidingWindowLimiter) (request : LimitedRequest) : Prop :=
  (∀ key, SlidingWindow.live (request.addressNow - d.policy.windowSeconds)
      ((d.dependency s request).2.hitsOf key) =
    SlidingWindow.live (request.addressNow - d.policy.windowSeconds) (s.hitsOf key)) ∧
  ∀ between : List LimitedRequest, ∀ again : LimitedRequest,
    (∀ other ∈ between, ∀ key ∈ d.keys other, key ∉ d.keys request) →
    d.keys again = d.keys request →
    InTime (d.refusedAt s request) (between ++ [again]) →
    (∀ retryAfter, (d.dependency s request).1 = .refused retryAfter →
      d.refusedAt s request + retryAfter ≤ again.addressNow) →
    (d.dependency (d.after (d.dependency s request).2 between) again).1 = .served

/-- When the wait of a request is over that its address refuses. -/
def waitOver (s : SlidingWindowLimiter) (request : LimitedRequest) : ℚ :=
  request.addressNow + d.policy.retryAfter request.addressNow
    ((s.pruned request.addressNow (d.addressKey request) d.policy).headD request.addressNow)

/-- The address is at its limit; and when the wait for it is over the subject, if there is
one, is below its own, or is one that the sweep which is due will drop. -/
def FreeRefusal (s : SlidingWindowLimiter) (request : LimitedRequest) : Prop :=
  d.policy.limit ≤ (s.pruned request.addressNow (d.addressKey request) d.policy).length ∧
    ∀ key ∈ d.subjectKey request,
      (s.pruned (d.waitOver s request) key d.policy).length < d.policy.limit ∨
        s.SweepDue ∧ SlidingWindowLimiter.stale
          (request.addressNow - SlidingWindowLimiter.maxRetentionSeconds) (s.hitsOf key) = true

end RateLimitDependency

/-! ### The keys -/

section Keys

variable {d : RateLimitDependency} {request : LimitedRequest} {key : String}

/-- A key of an address is not one of a subject. -/
theorem addressKey_ne_subjectKey (h : key ∈ d.subjectKey request) (other : LimitedRequest) :
    d.addressKey other ≠ key := by
  unfold RateLimitDependency.subjectKey at h
  split at h
  · split at h
    · simp at h
    · obtain rfl := Option.mem_some_iff.mp h
      intro heq
      have hchars := congrArg String.toList heq
      simp [RateLimitDependency.addressKey] at hchars
  · simp at h

/-- There is always an address that has not been seen. -/
theorem exists_fresh (d : RateLimitDependency) (seen : List String) (now : ℚ) :
    ∃ fresh : LimitedRequest, fresh.addressNow = now ∧ fresh.subjectNow = now ∧
      d.subjectKey fresh = none ∧ d.addressKey fresh ∉ seen := by
  obtain ⟨n, hn⟩ : ∃ n, ∀ key ∈ seen, key.length < n := by
    refine ⟨(seen.map String.length).sum + 1, fun key hkey => ?_⟩
    exact Nat.lt_succ_of_le (List.single_le_sum (by simp) _ (List.mem_map_of_mem hkey))
  refine ⟨⟨none, some (String.ofList (List.replicate n 'x')), none, now, now⟩, rfl, rfl, rfl, ?_⟩
  intro hmem
  have hlt := hn _ hmem
  have hchain : clientIdentity ⟨none, some (String.ofList (List.replicate n 'x')), none, now, now⟩
      d.trustedProxyHops = String.ofList (List.replicate n 'x') := by
    unfold clientIdentity
    dsimp only
    rw [if_neg]
    · rfl
    · simp [strip]
      omega
  rw [RateLimitDependency.addressKey, hchain] at hlt
  simp at hlt

end Keys

/-! ### What a request does -/

section Serve

variable {d : RateLimitDependency} {s : SlidingWindowLimiter} {request : LimitedRequest}
variable {key : String}

/-- **Refused by its address** a request does no more than that check does. -/
theorem dependency_address_refused (hon : d.rateLimitEnabled = true)
    (h : (s.check request.addressNow (d.addressKey request) d.policy).1.allowed = false) :
    d.dependency s request =
      (.refused (s.check request.addressNow (d.addressKey request) d.policy).1.retryAfter,
        (s.check request.addressNow (d.addressKey request) d.policy).2) := by
  simp [RateLimitDependency.dependency, RateLimitDependency.keys, RateLimitDependency.checkKeys,
    hon, h]

/-- **Let past by its address** it is served, unless its subject refuses it. -/
theorem dependency_address_allowed (hon : d.rateLimitEnabled = true)
    (h : (s.check request.addressNow (d.addressKey request) d.policy).1.allowed = true) :
    d.dependency s request =
      match d.subjectKey request with
      | none => (.served, (s.check request.addressNow (d.addressKey request) d.policy).2)
      | some key =>
          let second := (s.check request.addressNow (d.addressKey request) d.policy).2.check
            request.subjectNow key d.policy
          if second.1.allowed then (.served, second.2)
          else (.refused second.1.retryAfter, second.2) := by
  cases hsubject : d.subjectKey request with
  | none =>
      simp [RateLimitDependency.dependency, RateLimitDependency.keys, RateLimitDependency.checkKeys,
        hon, h, hsubject]
  | some key =>
      simp only [RateLimitDependency.dependency, RateLimitDependency.keys,
        RateLimitDependency.checkKeys, hon, h, hsubject, Option.toList_some, List.zip_cons_cons,
        List.zip_nil_right, Bool.not_true, Bool.false_eq_true, if_false]
      split <;> rename_i hallowed <;> simp_all

/-- **What a request does is checks of its keys.** -/
theorem dependency_induction {P : SlidingWindowLimiter → Prop} (ok : String → ℚ → Prop) (hs : P s)
    (hok : ∀ key ∈ d.keys request, ok key request.addressNow ∧ ok key request.subjectNow)
    (hcheck : ∀ s key now, ok key now → P s → P (s.check now key d.policy).2) :
    P (d.dependency s request).2 := by
  by_cases hon : d.rateLimitEnabled = true
  · have hfirst := hcheck s _ _ (hok _ List.mem_cons_self).1 hs
    by_cases h : (s.check request.addressNow (d.addressKey request) d.policy).1.allowed = true
    · rw [dependency_address_allowed hon h]
      cases hsubject : d.subjectKey request with
      | none => exact hfirst
      | some key =>
          have hmem : key ∈ d.keys request := by simp [RateLimitDependency.keys, hsubject]
          have hsecond := hcheck _ _ _ (hok key hmem).2 hfirst
          dsimp only
          split <;> exact hsecond
    · rw [dependency_address_refused hon (by simpa using h)]
      exact hfirst
  · simpa [RateLimitDependency.dependency, hon] using hs

/-- What the checks of a run of requests keep, the run keeps. -/
theorem after_induction {P : SlidingWindowLimiter → Prop} (ok : String → ℚ → Prop) (hs : P s)
    {requests : List LimitedRequest}
    (hok : ∀ request ∈ requests, ∀ key ∈ d.keys request,
      ok key request.addressNow ∧ ok key request.subjectNow)
    (hcheck : ∀ s key now, ok key now → P s → P (s.check now key d.policy).2) :
    P (d.after s requests) := by
  induction requests generalizing s with
  | nil => exact hs
  | cons request rest ih =>
      exact ih (s := (d.dependency s request).2)
        (dependency_induction ok hs (hok request List.mem_cons_self) hcheck)
        fun other hother => hok other (List.mem_cons_of_mem _ hother)

theorem InTime.le {clock : ℚ} {requests : List LimitedRequest}
    (h : RateLimitDependency.InTime clock requests) :
    ∀ request ∈ requests, clock ≤ request.addressNow ∧ request.addressNow ≤ request.subjectNow := by
  induction requests generalizing clock with
  | nil => simp
  | cons first rest ih =>
      obtain ⟨hclock, horder, hrest⟩ := h
      intro request hmem
      rcases List.mem_cons.mp hmem with rfl | hmem
      · exact ⟨hclock, horder⟩
      · obtain ⟨hle, hle'⟩ := ih hrest request hmem
        exact ⟨le_trans (le_trans hclock horder) hle, hle'⟩

/-- In a limiter that requests have led to no key holds more than the limit. -/
theorem within_history {history : List LimitedRequest} :
    Within (fun _ => d.policy) (d.after .empty history) :=
  after_induction (P := Within fun _ => d.policy) (fun _ _ => True) (fun key => by simp)
    (fun _ _ _ _ => ⟨trivial, trivial⟩)
    fun _ key now _ h => h.check (c := ⟨now, key⟩)

end Serve

/-! ### A key that the sweep will drop -/

section Doomed

variable {s : SlidingWindowLimiter} {clock : ℚ} {key : String}

/-- A sweep is due that will drop the key, or the key has no hits. -/
def Doomed (clock : ℚ) (key : String) (s : SlidingWindowLimiter) : Prop :=
  (s.SweepDue ∧ SlidingWindowLimiter.stale (clock - SlidingWindowLimiter.maxRetentionSeconds)
      (s.hitsOf key) = true) ∨
    s.hitsOf key = []

theorem stale_later {cutoff later : ℚ} {hits : List ℚ} (hle : cutoff ≤ later)
    (h : SlidingWindowLimiter.stale cutoff hits = true) :
    SlidingWindowLimiter.stale later hits = true := by
  unfold SlidingWindowLimiter.stale at h ⊢
  cases hlast : hits.getLast? with
  | none => rfl
  | some last =>
      rw [hlast] at h
      simp only [Option.all_some, decide_eq_true_eq] at h ⊢
      exact le_trans h hle

/-- **The next check that is allowed drops the key**; one that is refused leaves it so. -/
theorem Doomed.check (h : Doomed clock key s) {now : ℚ} {other : String} {policy : RateLimitPolicy}
    (hother : other ≠ key) (hnow : clock ≤ now) :
    Doomed clock key (s.check now other policy).2 ∧
      ((s.check now other policy).1.allowed = true →
        (s.check now other policy).2.hitsOf key = []) := by
  rcases h with ⟨hdue, hstale⟩ | hnil
  · by_cases hfull : policy.limit ≤ (s.pruned now other policy).length
    · rw [SlidingWindowLimiter.check_refused hfull]
      refine ⟨Or.inl ⟨hdue, ?_⟩, by simp⟩
      rw [SlidingWindowLimiter.hitsOf_record, if_neg hother]
      exact hstale
    · have hswept : (s.check now other policy).2.hitsOf key = [] := by
        rw [SlidingWindowLimiter.check_allowed (Nat.not_le.mp hfull),
          SlidingWindowLimiter.hitsOf_maybeSweep, SlidingWindowLimiter.hitsOf_record, if_neg hother]
        exact if_pos ⟨hdue, stale_later (by linarith) hstale⟩
      exact ⟨Or.inr hswept, fun _ => hswept⟩
  · have hstill : (s.check now other policy).2.hitsOf key = [] := by
      rcases hitsOf_check_ne s now policy hother with heq | heq
      · rw [heq, hnil]
      · exact heq
    exact ⟨Or.inr hstill, fun _ => hstill⟩

end Doomed

/-! ### When a refusal is free -/

section Free

variable {d : RateLimitDependency} {s : SlidingWindowLimiter} {request again : LimitedRequest}

theorem keys_eq (h : d.keys again = d.keys request) :
    d.addressKey again = d.addressKey request ∧ d.subjectKey again = d.subjectKey request := by
  obtain ⟨haddress, hsubject⟩ := List.cons.inj h
  refine ⟨haddress, ?_⟩
  cases hone : d.subjectKey again <;> cases htwo : d.subjectKey request <;> simp_all

/-- What a request leaves that its address refuses, and when its wait is over. -/
theorem address_refused_spec (hon : d.rateLimitEnabled = true)
    (hfull : d.policy.limit ≤
      (s.pruned request.addressNow (d.addressKey request) d.policy).length) :
    d.refusedAt s request = request.addressNow ∧
      (∃ retryAfter, d.dependency s request = (.refused retryAfter, s.record (d.addressKey request)
          (s.pruned request.addressNow (d.addressKey request) d.policy)) ∧
        d.waitOver s request = request.addressNow + retryAfter) ∧
      ∃ oldest, oldest ∈ (s.pruned request.addressNow (d.addressKey request) d.policy).head? ∧
        oldest + d.policy.windowSeconds < d.waitOver s request := by
  have hcheck := SlidingWindowLimiter.check_refused hfull
  have hno : (s.check request.addressNow (d.addressKey request) d.policy).1.allowed = false := by
    rw [hcheck]
  obtain ⟨oldest, hhead, hlive, -⟩ := refused_spec hno
  rw [hcheck, SlidingWindowLimiter.hitsOf_record, if_pos rfl] at hhead
  refine ⟨if_neg (Nat.not_lt.mpr hfull), ⟨_, ?_, rfl⟩, oldest, hhead, ?_⟩
  · rw [dependency_address_refused hon hno, hcheck]
  · unfold RateLimitDependency.waitOver
    rw [List.headD_eq_head?_getD, Option.mem_def.mp hhead]
    exact d.policy.lt_retryAfter hlive

/-- Not using a key leaves its hits alone, but for a sweep. -/
theorem hitsOf_after_unused {key : String} {between : List LimitedRequest}
    (hother : ∀ other ∈ between, ∀ k ∈ d.keys other, k ≠ key) :
    (d.after s between).hitsOf key = s.hitsOf key ∨ (d.after s between).hitsOf key = [] := by
  refine after_induction (P := fun t => t.hitsOf key = s.hitsOf key ∨ t.hitsOf key = [])
    (fun k _ => k ≠ key) (Or.inl rfl) (fun other hmem k hk => ?_) (fun t k now hne ht => ?_)
  · exact ⟨hother other hmem k hk, hother other hmem k hk⟩
  · rcases hitsOf_check_ne t now d.policy hne with heq | heq
    · rw [heq]
      exact ht
    · exact Or.inr heq

/-- A key that the sweep will drop stays so while it is not used. -/
theorem doomed_after {clock : ℚ} {key : String} {between : List LimitedRequest}
    (h : Doomed clock key s) (hother : ∀ other ∈ between, ∀ k ∈ d.keys other, k ≠ key)
    (htime : ∀ other ∈ between, clock ≤ other.addressNow ∧ other.addressNow ≤ other.subjectNow) :
    Doomed clock key (d.after s between) := by
  refine after_induction (P := Doomed clock key) (fun k now => k ≠ key ∧ clock ≤ now) h
    (fun other hmem k hk => ?_) (fun t k now hok ht => (ht.check hok.1 hok.2).1)
  obtain ⟨hle, hle'⟩ := htime other hmem
  have hne := hother other hmem k hk
  exact ⟨⟨hne, hle⟩, ⟨hne, le_trans hle hle'⟩⟩

/-- A key is served from a time on at which it has room. -/
theorem allowed_of_room {key : String} {now later : ℚ} {hits : List ℚ}
    (hroom : (SlidingWindow.prune (now - d.policy.windowSeconds) hits).length < d.policy.limit)
    (hhits : s.hitsOf key = hits ∨ s.hitsOf key = []) (hle : now ≤ later) :
    (s.check later key d.policy).1.allowed = true := by
  rcases hhits with heq | hnil
  · rw [SlidingWindowLimiter.check_allowed_iff, SlidingWindowLimiter.pruned, heq]
    exact Nat.lt_of_le_of_lt (SlidingWindow.length_prune_mono (by linarith)) hroom
  · exact allowed_of_nil later d.policy hnil

/-- **A key that refused lets past** once the oldest hit it kept has aged. -/
theorem address_allowed_later {key : String} {hits : List ℚ} {oldest later : ℚ}
    {between : List LimitedRequest} (hwithin : Within (fun _ => d.policy) (s.record key hits))
    (hother : ∀ other ∈ between, ∀ k ∈ d.keys other, k ≠ key) (hhead : oldest ∈ hits.head?)
    (haged : oldest + d.policy.windowSeconds ≤ later) :
    ((d.after (s.record key hits) between).check later key d.policy).1.allowed = true := by
  have hroom : Within (fun _ => d.policy) (d.after (s.record key hits) between) :=
    after_induction (P := Within fun _ => d.policy) (fun _ _ => True) hwithin
      (fun _ _ _ _ => ⟨trivial, trivial⟩) fun _ k now _ h => h.check (c := ⟨now, k⟩)
  rcases hitsOf_after_unused (s := s.record key hits) hother with heq | hnil
  · rw [SlidingWindowLimiter.hitsOf_record, if_pos rfl] at heq
    rw [← heq] at hhead
    exact allowed_of_aged (hroom _) hhead haged
  · exact allowed_of_nil later d.policy hnil

/-- **A subject lets past** that has room by then, or that the address's check sweeps. -/
theorem subject_allowed_later {key : String} {t : SlidingWindowLimiter} {clock waited : ℚ}
    (hne : d.addressKey again ≠ key)
    (hfirst : (t.check again.addressNow (d.addressKey again) d.policy).1.allowed = true)
    (hclock : clock ≤ again.addressNow) (hwaited : waited ≤ again.subjectNow)
    (h : ((s.pruned waited key d.policy).length < d.policy.limit ∧
      (t.hitsOf key = s.hitsOf key ∨ t.hitsOf key = [])) ∨ Doomed clock key t) :
    ((t.check again.addressNow (d.addressKey again) d.policy).2.check
      again.subjectNow key d.policy).1.allowed = true := by
  rcases h with ⟨hroom, hkept⟩ | hdoomed
  · refine allowed_of_room hroom ?_ hwaited
    rcases hitsOf_check_ne t again.addressNow d.policy hne with heq | hnil
    · rw [heq]
      exact hkept
    · exact Or.inr hnil
  · exact allowed_of_nil again.subjectNow d.policy ((hdoomed.check hne hclock).2 hfirst)

/-- **A refusal by the address, of a subject with room, costs nothing.** -/
theorem costsNothing_of_free (hon : d.rateLimitEnabled = true)
    (hwithin : Within (fun _ => d.policy) s) (h : d.FreeRefusal s request) :
    d.CostsNothing s request := by
  obtain ⟨hfull, hsubject⟩ := h
  obtain ⟨hat, ⟨retryAfter, hrefused, hover⟩, oldest, hhead, haged⟩ :=
    address_refused_spec hon hfull
  refine ⟨fun key => ?_, fun between again hunused hkeys htime hwait => ?_⟩
  · rw [hrefused, SlidingWindowLimiter.hitsOf_record]
    split
    · rename_i hkey
      subst hkey
      exact SlidingWindow.live_prune
    · rfl
  rw [hat] at htime hwait
  rw [hrefused] at hwait ⊢
  obtain ⟨haddress, hsame⟩ := keys_eq hkeys
  have hlater : d.waitOver s request ≤ again.addressNow := by
    rw [hover]
    exact hwait retryAfter rfl
  have htimes := InTime.le htime
  obtain ⟨hclock, horder⟩ := htimes again (by simp)
  have hunusedOne : ∀ key ∈ d.keys request, ∀ other ∈ between, ∀ k ∈ d.keys other, k ≠ key :=
    fun key hkey other hmem k hk heq => hunused other hmem k hk (heq ▸ hkey)
  have hwithin' : Within (fun _ => d.policy) (s.record (d.addressKey request)
      (s.pruned request.addressNow (d.addressKey request) d.policy)) := by
    have hcheck := hwithin.check (c := ⟨request.addressNow, d.addressKey request⟩)
    unfold SlidingWindowLimiter.checkOf at hcheck
    rw [SlidingWindowLimiter.check_refused hfull] at hcheck
    exact hcheck
  have haged' : oldest + d.policy.windowSeconds ≤ again.addressNow := by linarith
  have hfirst := address_allowed_later hwithin' (hunusedOne _ List.mem_cons_self) hhead haged'
  rw [← haddress] at hfirst
  rw [← haddress, dependency_address_allowed hon hfirst, hsame]
  cases hkey : d.subjectKey request with
  | none => rfl
  | some key =>
      have hmem : key ∈ d.subjectKey request := hkey
      have hsubjectKey : key ∈ d.keys request := by simp [RateLimitDependency.keys, hkey]
      have hne : ∀ other, d.addressKey other ≠ key := addressKey_ne_subjectKey hmem
      have hrecorded : (s.record (d.addressKey request) (s.pruned request.addressNow
          (d.addressKey request) d.policy)).hitsOf key = s.hitsOf key := by
        rw [SlidingWindowLimiter.hitsOf_record, if_neg (hne request)]
      dsimp only
      rw [haddress, if_pos]
      rw [← haddress]
      refine subject_allowed_later (s := s) (hne again) hfirst hclock (le_trans hlater horder) ?_
      rcases hsubject key hmem with hroom | hdoomed
      · refine Or.inl ⟨hroom, ?_⟩
        rw [← hrecorded, haddress]
        exact hitsOf_after_unused (hunusedOne key hsubjectKey)
      · rw [haddress]
        refine Or.inr (doomed_after (Or.inl ⟨hdoomed.1, ?_⟩) (hunusedOne key hsubjectKey)
          fun other hother => htimes other (List.mem_append_left _ hother))
        rw [hrecorded]
        exact hdoomed.2

/-- **A request let past by its address is charged to it**, whatever its subject says. -/
theorem address_charged (hon : d.rateLimitEnabled = true)
    (hroom : (s.pruned request.addressNow (d.addressKey request) d.policy).length < d.policy.limit)
    (hrefused : (d.dependency s request).1 ≠ .served) :
    SlidingWindow.live (request.addressNow - d.policy.windowSeconds)
        ((d.dependency s request).2.hitsOf (d.addressKey request)) =
      SlidingWindow.live (request.addressNow - d.policy.windowSeconds)
        (s.hitsOf (d.addressKey request)) ++ [request.addressNow] := by
  have hcheck := SlidingWindowLimiter.check_allowed hroom
  have hcharged : (s.check request.addressNow (d.addressKey request) d.policy).2.hitsOf
      (d.addressKey request) =
        s.pruned request.addressNow (d.addressKey request) d.policy ++ [request.addressNow] := by
    rw [hcheck, SlidingWindowLimiter.hitsOf_maybeSweep, SlidingWindowLimiter.hitsOf_record,
      if_pos rfl, not_stale_append]
    simp
  have hkept : (d.dependency s request).2.hitsOf (d.addressKey request) =
      (s.check request.addressNow (d.addressKey request) d.policy).2.hitsOf
        (d.addressKey request) := by
    rw [dependency_address_allowed hon (by rw [hcheck])] at hrefused ⊢
    cases hsubject : d.subjectKey request with
    | none => rfl
    | some key =>
        rw [hsubject] at hrefused
        dsimp only at hrefused ⊢
        split
        · rename_i hallowed
          rw [if_pos hallowed] at hrefused
          exact absurd rfl hrefused
        · rename_i hallowed
          have hfull := Nat.not_lt.mp (mt SlidingWindowLimiter.check_allowed_iff.mpr hallowed)
          rw [SlidingWindowLimiter.check_refused hfull, SlidingWindowLimiter.hitsOf_record,
            if_neg (Ne.symm (addressKey_ne_subjectKey hsubject request))]
  have hnow : SlidingWindow.live (request.addressNow - d.policy.windowSeconds) [request.addressNow]
      = [request.addressNow] := by
    have hpos := d.policy.window_pos
    simp [SlidingWindow.live, hpos]
  rw [hkept, hcharged, SlidingWindow.live_append, hnow]
  exact congrArg (· ++ [request.addressNow]) SlidingWindow.live_prune

/-- A subject at its limit refuses, where no sweep is due. -/
theorem refused_by_subject (request : LimitedRequest) (hon : d.rateLimitEnabled = true)
    {key : String} (hkey : key ∈ d.subjectKey request) (hdue : ¬ s.SweepDue)
    (hfull : d.policy.limit ≤ (s.pruned request.subjectNow key d.policy).length) :
    (d.dependency s request).1 ≠ .served := by
  by_cases hfirst : (s.check request.addressNow (d.addressKey request) d.policy).1.allowed = true
  · have hne := addressKey_ne_subjectKey hkey request
    have hroom := SlidingWindowLimiter.check_allowed_iff.mp hfirst
    have hhits : (s.check request.addressNow (d.addressKey request) d.policy).2.hitsOf key =
        s.hitsOf key := by
      rw [SlidingWindowLimiter.check_allowed hroom, SlidingWindowLimiter.hitsOf_maybeSweep,
        SlidingWindowLimiter.hitsOf_record, if_neg hne]
      exact if_neg fun h => hdue h.1
    have hsecond : ¬ ((s.check request.addressNow (d.addressKey request) d.policy).2.check
        request.subjectNow key d.policy).1.allowed = true := by
      rw [SlidingWindowLimiter.check_allowed_iff, SlidingWindowLimiter.pruned, hhits]
      exact Nat.not_lt.mpr hfull
    rw [dependency_address_allowed hon hfirst, Option.mem_def.mp hkey]
    dsimp only
    rw [if_neg hsecond]
    simp
  · rw [dependency_address_refused hon (by simpa using hfirst)]
    simp

/-- A sweep can be got out of the way by a request of an address that has not been seen. -/
theorem exists_after_sweep (hon : d.rateLimitEnabled = true) (now : ℚ) (used : List String)
    {key : String} (hspared : ¬ (s.SweepDue ∧ SlidingWindowLimiter.stale
      (now - SlidingWindowLimiter.maxRetentionSeconds) (s.hitsOf key) = true)) :
    ∃ between : List LimitedRequest, (∀ other ∈ between, ∀ k ∈ d.keys other, k ∉ used) ∧
      (∀ other ∈ between, other.addressNow = now ∧ other.subjectNow = now) ∧
      ¬ (d.after s between).SweepDue ∧ (d.after s between).hitsOf key = s.hitsOf key := by
  by_cases hdue : s.SweepDue
  · obtain ⟨fresh, hnow, hnow', hnone, hunseen⟩ :=
      exists_fresh d (key :: used ++ s.hits.map Prod.fst) now
    have hnohits : s.hitsOf (d.addressKey fresh) = [] := by
      unfold SlidingWindowLimiter.hitsOf
      cases hget : s.hits.get? (d.addressKey fresh) with
      | none => rfl
      | some hits =>
          have hmem := List.mem_map_of_mem (f := Prod.fst) (Dict.mem_of_get? _ hget)
          exact absurd (List.mem_append_right _ hmem) hunseen
    have hallowed := allowed_of_nil fresh.addressNow d.policy hnohits
    have hserved := dependency_address_allowed hon hallowed
    rw [hnone] at hserved
    have hroom := SlidingWindowLimiter.check_allowed_iff.mp hallowed
    have hafter : d.after s [fresh] =
        (s.record (d.addressKey fresh) (s.pruned fresh.addressNow (d.addressKey fresh) d.policy ++
          [fresh.addressNow])).maybeSweep fresh.addressNow := by
      show (d.dependency s fresh).2 = _
      rw [hserved, SlidingWindowLimiter.check_allowed hroom]
    have hrecorded : (s.record (d.addressKey fresh) (s.pruned fresh.addressNow (d.addressKey fresh)
        d.policy ++ [fresh.addressNow])).SweepDue := hdue
    refine ⟨[fresh], ?_, by simp [hnow, hnow'], ?_, ?_⟩
    · intro other hother k hk hused
      obtain rfl := List.mem_singleton.mp hother
      rw [RateLimitDependency.keys, hnone] at hk
      obtain rfl : k = d.addressKey other := by simpa using hk
      exact hunseen (by simp [hused])
    · rw [hafter]
      unfold SlidingWindowLimiter.SweepDue
      rw [SlidingWindowLimiter.checksSinceSweep_maybeSweep, if_pos hrecorded]
      decide
    · have hne : d.addressKey fresh ≠ key := by
        intro heq
        exact hunseen (by simp [heq])
      rw [hafter, SlidingWindowLimiter.hitsOf_maybeSweep, SlidingWindowLimiter.hitsOf_record,
        if_neg hne, hnow]
      exact if_neg fun h => hspared ⟨hdue, h.2⟩
  · exact ⟨[], by simp, by simp, hdue, rfl⟩

/-- **A refusal that costs nothing is by the address, of a subject with room.** -/
theorem free_of_costsNothing (hon : d.rateLimitEnabled = true)
    (hrefused : (d.dependency s request).1 ≠ .served) (h : d.CostsNothing s request) :
    d.FreeRefusal s request := by
  have hfull : d.policy.limit ≤
      (s.pruned request.addressNow (d.addressKey request) d.policy).length := by
    by_contra hroom
    have hcharged := address_charged hon (Nat.not_le.mp hroom) hrefused
    rw [h.1 (d.addressKey request)] at hcharged
    have hlength := congrArg List.length hcharged
    simp at hlength
  refine ⟨hfull, fun key hkey => ?_⟩
  by_contra hnot
  obtain ⟨hnoroom, hspared⟩ := not_or.mp hnot
  obtain ⟨hat, ⟨retryAfter, hanswer, hover⟩, -⟩ := address_refused_spec hon hfull
  have hne := addressKey_ne_subjectKey hkey request
  have hhits : (s.record (d.addressKey request)
      (s.pruned request.addressNow (d.addressKey request) d.policy)).hitsOf key = s.hitsOf key := by
    rw [SlidingWindowLimiter.hitsOf_record, if_neg hne]
  rw [← hhits] at hspared
  obtain ⟨between, hunused, htimes, hdue, hkept⟩ := exists_after_sweep
    (s := s.record (d.addressKey request)
      (s.pruned request.addressNow (d.addressKey request) d.policy))
    hon request.addressNow (d.keys request) hspared
  have hpos : (1 : ℚ) ≤ d.policy.retryAfter request.addressNow
      ((s.pruned request.addressNow (d.addressKey request) d.policy).headD request.addressNow) :=
    d.policy.retryAfter_pos
  have hafter : request.addressNow ≤ d.waitOver s request := by
    unfold RateLimitDependency.waitOver
    linarith
  -- The request is made again just when its wait is over.
  have hserved := h.2 between (request.again (d.waitOver s request)) hunused rfl ?_ ?_
  · rw [hanswer] at hserved
    have hkey' : key ∈ d.subjectKey (request.again (d.waitOver s request)) := hkey
    refine refused_by_subject _ hon hkey' hdue ?_ hserved
    rw [SlidingWindowLimiter.pruned, hkept, hhits]
    exact Nat.not_lt.mp hnoroom
  · rw [hat]
    clear hunused hdue hkept h
    induction between with
    | nil => exact ⟨hafter, le_refl _, trivial⟩
    | cons other rest ih =>
        obtain ⟨hnow, hnow'⟩ := htimes other List.mem_cons_self
        refine ⟨le_of_eq hnow.symm, by rw [hnow, hnow'], ?_⟩
        rw [hnow']
        exact ih fun o ho => htimes o (List.mem_cons_of_mem _ ho)
  · intro w hw
    rw [hanswer] at hw
    obtain rfl : retryAfter = w := by simpa using hw
    rw [hat, hover]
    exact le_refl _

end Free

/-! ### Every refusal -/

section Requests

/--
**A refused request costs nothing exactly where it is its address that refuses, and its
subject has room when the wait is over.**
-/
theorem costsNothing_iff (d : RateLimitDependency) (history : List LimitedRequest)
    (request : LimitedRequest)
    (hrefused : (d.dependency (d.after .empty history) request).1 ≠ .served) :
    d.CostsNothing (d.after .empty history) request ↔
      d.FreeRefusal (d.after .empty history) request := by
  have hon : d.rateLimitEnabled = true := by
    by_contra hoff
    have hfalse : d.rateLimitEnabled = false := by simpa using hoff
    refine hrefused ?_
    rw [RateLimitDependency.dependency, hfalse]
    rfl
  exact ⟨free_of_costsNothing hon hrefused, costsNothing_of_free hon within_history⟩

/-- One login a minute, for an address and for an email. -/
def strictLogin : RateLimitDependency :=
  { category := "login", policy := onePerMinute, digest := fun named => named }

/-- A login from this address. -/
def loginFrom (host : String) (named : Option String) (now : ℚ) : LimitedRequest :=
  { host := some host, named := named, addressNow := now, subjectNow := now }

/-- An address is refused that has tried one email and tries another, which was never used. -/
theorem strictLogin_free :
    (strictLogin.dependency
      (strictLogin.after .empty [loginFrom "10.0.0.1" (some "a@example.com") 0])
      (loginFrom "10.0.0.1" (some "b@example.com") 1)).1 = .refused 60 ∧
    strictLogin.CostsNothing
      (strictLogin.after .empty [loginFrom "10.0.0.1" (some "a@example.com") 0])
      (loginFrom "10.0.0.1" (some "b@example.com") 1) := by
  have hrefused : (strictLogin.dependency
      (strictLogin.after .empty [loginFrom "10.0.0.1" (some "a@example.com") 0])
      (loginFrom "10.0.0.1" (some "b@example.com") 1)).1 = .refused 60 := by
    decide +kernel
  refine ⟨hrefused, (costsNothing_iff strictLogin
    [loginFrom "10.0.0.1" (some "a@example.com") 0] (loginFrom "10.0.0.1" (some "b@example.com") 1)
      (by rw [hrefused]; simp)).mpr ⟨by decide +kernel, fun key hkey => Or.inl ?_⟩⟩
  obtain rfl : "login:subject:b@example.com" = key := by
    simpa [RateLimitDependency.subjectKey, loginFrom, strictLogin] using hkey
  decide +kernel

/-- An email that was used from one address is refused from another, which is charged. -/
theorem strictLogin_charged :
    (strictLogin.dependency
      (strictLogin.after .empty [loginFrom "10.0.0.1" (some "a@example.com") 0])
      (loginFrom "10.0.0.2" (some "a@example.com") 1)).1 = .refused 60 ∧
    ¬ strictLogin.CostsNothing
      (strictLogin.after .empty [loginFrom "10.0.0.1" (some "a@example.com") 0])
      (loginFrom "10.0.0.2" (some "a@example.com") 1) := by
  have hrefused : (strictLogin.dependency
      (strictLogin.after .empty [loginFrom "10.0.0.1" (some "a@example.com") 0])
      (loginFrom "10.0.0.2" (some "a@example.com") 1)).1 = .refused 60 := by
    decide +kernel
  refine ⟨hrefused, fun h => ?_⟩
  have hfree := free_of_costsNothing rfl (by rw [hrefused]; simp) h
  have hroom : ¬ strictLogin.policy.limit ≤
      ((strictLogin.after .empty [loginFrom "10.0.0.1" (some "a@example.com") 0]).pruned 1
        "login:ip:10.0.0.2" strictLogin.policy).length := by
    decide +kernel
  exact hroom hfree.1

end Requests

end Orqent
