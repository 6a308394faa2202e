import Admission.Bucket.Call
import Admission.Policy.Basic

/-!
Rate limiting by a policy: which calls it makes of the store of buckets and what it reads off their
answers.
-/

namespace Admission.Bucket

/-- What a check finds. -/
structure Status where
  allowed : Bool
  /-- Tokens before this request is charged. -/
  remaining : UInt32
  limit : UInt32
  /-- The second in which the next token is credited. -/
  resetAt : UInt64
  policy : String
deriving DecidableEq, Repr

namespace Status

/-- Reads a refilled bucket. -/
def ofState (policy : Policy) (s : State) : Status :=
  let remaining := min s.tokens policy.capacity
  { allowed := 0 < remaining
    remaining := remaining
    limit := policy.capacity
    resetAt := s.lastRefillMs / 1000 + policy.secondsPerToken
    policy := policy.name }

/-- Only an empty bucket denies, since no policy has a capacity of zero. -/
theorem tokens_eq_zero_of_allowed_eq_false {policy : Policy} {s : State}
    (h : (ofState policy s).allowed = false) : s.tokens = 0 := by
  have hcapacity := policy.capacity_pos
  have hmin : ¬ 0 < min s.tokens policy.capacity := of_decide_eq_false h
  change ¬ 0 < (if s.tokens ≤ policy.capacity then s.tokens else policy.capacity) at hmin
  split at hmin
  · exact UInt32.le_zero_iff.mp (UInt32.not_lt.mp hmin)
  · exact absurd hcapacity hmin

/-- An empty bucket denies. -/
theorem tokens_ne_zero_of_allowed {policy : Policy} {s : State}
    (h : (ofState policy s).allowed = true) : s.tokens ≠ 0 := by
  intro hempty
  have hmin : (0 : UInt32) < min s.tokens policy.capacity := of_decide_eq_true h
  change (0 : UInt32) < (if s.tokens ≤ policy.capacity then s.tokens else policy.capacity) at hmin
  rw [hempty, if_pos UInt32.zero_le] at hmin
  exact UInt32.lt_irrefl _ hmin

end Status

/-- Seconds that a denied caller should wait, at least one. -/
def retryAfterSecs (resetAt nowSecs : UInt64) : UInt64 :=
  max (Word.subClamped resetAt nowSecs) 1

/-- A check refills the bucket. -/
def checkCall (policy : Policy) (identifier : String) (nowMs : UInt64) : Call :=
  .refill ⟨policy.name, identifier⟩ policy.capacity policy.refillPerMinute nowMs policy.bucketTtl

/-- A charge takes the cost out of the bucket. -/
def chargeCall (policy : Policy) (identifier : String) (cost : UInt32) (nowMs : UInt64) : Call :=
  .deduct ⟨policy.name, identifier⟩ policy.capacity cost nowMs policy.bucketTtl

/-- Filling a bucket up. -/
def resetCall (policy : Policy) (identifier : String) (nowMs : UInt64) : Call :=
  .reset ⟨policy.name, identifier⟩ policy.capacity nowMs policy.bucketTtl

end Admission.Bucket
