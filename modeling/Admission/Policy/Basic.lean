import Admission.Error

/-!
Rate limit policies: how large a bucket is, how fast it refills and what a response costs. A draft
becomes a policy once its capacity and its refill rate are known to be positive.
-/

namespace Admission

/-- Who shares a bucket. -/
inductive Scope
  | participant
  | user
deriving DecidableEq, Repr

/-- The classes of responses that have a cost of their own. -/
inductive ResponseClass
  | success
  | notFound
  | other
  | serverError
deriving DecidableEq, Repr

namespace ResponseClass

def ofStatus (status : UInt16) : ResponseClass :=
  if 200 ≤ status ∧ status ≤ 299 then success
  else if status = 404 then notFound
  else if 500 ≤ status ∧ status ≤ 599 then serverError
  else other

def name : ResponseClass → String
  | success => "success"
  | notFound => "not_found"
  | other => "other"
  | serverError => "server_error"

end ResponseClass

/-- Tokens charged for a response of each class. -/
structure Costs where
  success : UInt32
  notFound : UInt32
  other : UInt32
  serverError : UInt32
deriving DecidableEq, Repr

def Costs.uniform (cost : UInt32) : Costs := ⟨cost, cost, cost, cost⟩

/-- A policy as it is written down, not yet checked. -/
structure PolicyDraft where
  name : String
  scope : Scope := .participant
  refillPerMinute : UInt32 := 60
  capacity : UInt32 := 60
  costs : Costs := .uniform 1
  exemptServerErrors : Bool := true
deriving DecidableEq, Repr

/-- A policy that can be enforced. -/
structure Policy extends PolicyDraft where
  capacity_pos : 0 < capacity
  refillPerMinute_pos : 0 < refillPerMinute
deriving DecidableEq, Repr

/-- Checks the capacity first and the refill rate second. -/
def PolicyDraft.build (draft : PolicyDraft) : Except PolicyError Policy :=
  if hc : 0 < draft.capacity then
    if hr : 0 < draft.refillPerMinute then .ok { draft with capacity_pos := hc, refillPerMinute_pos := hr }
    else .error (.zeroRefill draft.name)
  else .error (.zeroCapacity draft.name)

namespace Policy

/-- Tokens that a response with this status costs. -/
def cost (policy : Policy) (status : UInt16) : UInt32 :=
  match ResponseClass.ofStatus status with
  | .success => policy.costs.success
  | .notFound => policy.costs.notFound
  | .other => policy.costs.other
  | .serverError => if policy.exemptServerErrors then 0 else policy.costs.serverError

/-- Seconds from one credited token to the next, at least one. -/
def secondsPerToken (policy : Policy) : UInt64 :=
  let rate := policy.refillPerMinute.toUInt64
  max 1 ((60 + rate - 1) / rate)

/-- The shortest time for which an idle bucket is kept. -/
def minBucketTtl : Span := .ofSecs 120

/-- How long an idle bucket is kept: twice the time in which it fills up, so that one made anew, and
full, is no better off than one that was kept. -/
def bucketTtl (policy : Policy) : Span :=
  let rate := policy.refillPerMinute.toUInt64
  let fill := (policy.capacity.toUInt64 * 60 + (rate - 1)) / rate
  max (.ofSecs (min (fill.toNat * 2) (UInt64.size - 1))) minBucketTtl

end Policy

end Admission
