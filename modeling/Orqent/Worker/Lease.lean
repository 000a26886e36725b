/-
Leases, and when a worker renews one.

Times are on the clock of the application, which counts microseconds.  A policy that
exists has passed its constructor: the heartbeat interval is positive and shorter than
the TTL.

`beat` is one round of the heartbeat: ask the policy, extend the task in the queue, and
move the worker's own copy of the lease.  Moving it cannot fail: a deadline that would
lie before the one on record is further away than a TTL, and then the policy does not
ask for a renewal.
-/
import Orqent.Queue.Table

namespace Orqent

variable {Worker : Type}

/-- A second on the clock. -/
def second : Nat := 1000000

/-- A worker's claim on a task, until a moment. -/
structure Lease (Worker : Type) where
  owner : Worker
  expiresAt : Nat
deriving DecidableEq, Repr

/-- A copy of the lease that runs until then; the deadline never moves backwards. -/
def Lease.extendedTo (lease : Lease Worker) (expiresAt : Nat) : Except String (Lease Worker) :=
  if expiresAt < lease.expiresAt then
    .error "A lease may not be extended to an earlier moment."
  else .ok { lease with expiresAt }

/-- One TTL and one renewal margin. -/
structure FixedLeasePolicy where
  ttlSeconds : Nat
  heartbeatIntervalSeconds : Nat
  interval_pos : 0 < heartbeatIntervalSeconds
  interval_lt : heartbeatIntervalSeconds < ttlSeconds

namespace FixedLeasePolicy

/-- The constructor. -/
def make (ttlSeconds heartbeatIntervalSeconds : Int) : Except String FixedLeasePolicy :=
  if ttlSeconds ≤ 0 then .error "Lease TTL must be positive."
  else if h : 0 < heartbeatIntervalSeconds ∧ heartbeatIntervalSeconds < ttlSeconds then
    .ok
      { ttlSeconds := ttlSeconds.toNat
        heartbeatIntervalSeconds := heartbeatIntervalSeconds.toNat
        interval_pos := by omega
        interval_lt := by omega }
  else .error "The heartbeat interval must be shorter than the lease TTL."

variable (policy : FixedLeasePolicy)

/-- `_ttl`. -/
def ttl : Nat := second * policy.ttlSeconds

/-- `_interval`. -/
def interval : Nat := second * policy.heartbeatIntervalSeconds

/-- When a lease claimed or renewed now should expire. -/
def leaseFor (now : Nat) : Nat := now + policy.ttl

/-- Whether a lease is close enough to lapsing to renew.  One that has lapsed is. -/
def shouldExtend (lease : Lease Worker) (now : Nat) : Bool :=
  (lease.expiresAt : Int) - now ≤ (policy.ttl : Int) - policy.interval

/-- The `lease_seconds` of `_claim`. -/
def leaseSeconds (now : Nat) : Nat := (policy.leaseFor now - now) / second

/-- What one round of the heartbeat comes to. -/
inductive Beat (Worker : Type)
  /-- It was not time yet. -/
  | slept
  | renewed (lease : Lease Worker)
  /-- The lease is not this worker's any more. -/
  | refused
  | failed (error : String)
deriving DecidableEq, Repr

/-- One round of `_heartbeat`, once it has woken. -/
def beat [DecidableEq Worker] (worker : Worker) (id : Nat) (lease : Lease Worker) (now : Nat)
    (q : QueueTable Worker) : Beat Worker × QueueTable Worker :=
  if !policy.shouldExtend lease now then (.slept, q)
  else
    let expiresAt := policy.leaseFor now
    match q.extend worker id expiresAt with
    | (false, q) => (.refused, q)
    | (true, q) =>
        match lease.extendedTo expiresAt with
        | .error e => (.failed e, q)
        | .ok lease => (.renewed lease, q)

/-- `_claim`: the task, and the lease it comes with. -/
def claim (worker : Worker) (now : Nat) (locked : List Nat) (q : QueueTable Worker) :
    Option ((QueueTask Worker × Lease Worker) × QueueTable Worker) :=
  let leased := second * policy.leaseSeconds now
  (q.claim worker now leased locked).map fun claimed =>
    ((claimed.1, ⟨worker, now + leased⟩), claimed.2)

/-! ### The arithmetic -/

/-- The constructor makes every policy there is, from its own two numbers. -/
theorem make_eq_ok_iff {ttlSeconds heartbeatIntervalSeconds : Int} :
    make ttlSeconds heartbeatIntervalSeconds = .ok policy ↔
      policy.ttlSeconds = ttlSeconds ∧
        policy.heartbeatIntervalSeconds = heartbeatIntervalSeconds := by
  unfold make
  constructor
  · intro h
    split at h
    · simp at h
    · split at h
      · obtain rfl := Except.ok.inj h
        dsimp only
        omega
      · simp at h
  · rintro ⟨rfl, rfl⟩
    have hpos := policy.interval_pos
    have hlt := policy.interval_lt
    rw [if_neg (by omega), dif_pos (by omega)]
    rfl

variable {policy} {lease : Lease Worker} {now : Nat}

/-- The queue is asked for a whole TTL. -/
theorem leaseSeconds_eq : second * policy.leaseSeconds now = policy.ttl := by
  unfold leaseSeconds leaseFor
  rw [Nat.add_sub_cancel_left, ttl, Nat.mul_div_cancel_left _ (by decide)]

theorem claim_some {worker : Worker} {locked : List Nat} {task : QueueTask Worker}
    {q q' : QueueTable Worker} (h : policy.claim worker now locked q = some ((task, lease), q')) :
    lease = ⟨worker, now + policy.ttl⟩ ∧
      q.claim worker now policy.ttl locked = some (task, q') := by
  unfold claim at h
  rw [leaseSeconds_eq] at h
  obtain ⟨claimed, hclaimed, hpair⟩ := Option.map_eq_some_iff.mp h
  obtain ⟨hfirst, rfl⟩ := Prod.mk.inj hpair
  obtain ⟨rfl, rfl⟩ := Prod.mk.inj hfirst
  exact ⟨rfl, hclaimed⟩

theorem shouldExtend_iff : policy.shouldExtend lease now = true ↔
    lease.expiresAt + policy.interval ≤ now + policy.ttl := by
  unfold shouldExtend
  rw [decide_eq_true_eq]
  omega

/-- **A lease that is to be renewed can be**, whatever the clock did. -/
theorem extendedTo_leaseFor (h : policy.shouldExtend lease now = true) :
    lease.extendedTo (policy.leaseFor now) = .ok ⟨lease.owner, policy.leaseFor now⟩ := by
  have hle := shouldExtend_iff.mp h
  unfold Lease.extendedTo leaseFor
  rw [if_neg (by omega)]

variable [DecidableEq Worker] {worker : Worker} {id : Nat} {q : QueueTable Worker}

theorem beat_slept (h : policy.shouldExtend lease now = false) :
    policy.beat worker id lease now q = (.slept, q) := by
  unfold beat
  rw [h]
  rfl

/-- A round that asks the queue: the lease is renewed or refused, as the queue says. -/
theorem beat_asks (h : policy.shouldExtend lease now = true) :
    policy.beat worker id lease now q =
      (if (q.extend worker id (policy.leaseFor now)).1 then
          .renewed ⟨lease.owner, policy.leaseFor now⟩
        else .refused,
        (q.extend worker id (policy.leaseFor now)).2) := by
  unfold beat
  rw [h]
  dsimp only [Bool.not_true]
  rcases hextend : q.extend worker id (policy.leaseFor now) with ⟨applied, q'⟩
  cases applied with
  | false => rfl
  | true =>
      rw [extendedTo_leaseFor h]
      rfl

end FixedLeasePolicy

end Orqent
