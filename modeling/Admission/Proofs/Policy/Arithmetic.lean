import Admission.Proofs.Bucket.NextToken

/-! # Arithmetic on policies

What is computed from the capacity and the rate of a policy, once more with every step checked for a
divisor of zero and for results that do not fit. The checks never fail on a policy, and what they guard
is what is computed without them. -/

namespace Admission

/-! ## Checked steps -/

namespace Word

/-- The number, unless it is too large for words of that size. -/
def fits? (size n : Nat) : Option Nat := if n < size then some n else none

def mul? (size a b : Nat) : Option Nat := fits? size (a * b)

/-- The quotient, with one added unless the division comes out even. -/
def divUp? (size a b : Nat) : Option Nat :=
  if b = 0 then none
  else if a % b = 0 then fits? size (a / b)
  else fits? size (a / b + 1)

variable {size a b : Nat}

theorem fits?_of_lt {n : Nat} (h : n < size) : fits? size n = some n := if_pos h

theorem mul?_of_lt (h : a * b < size) : mul? size a b = some (a * b) := fits?_of_lt h

@[simp] theorem divUp?_zero (size a : Nat) : divUp? size a 0 = none := if_pos rfl

theorem ceilDiv_of_mod_eq_zero (hb : 0 < b) (h : a % b = 0) : a ⌈/⌉ b = a / b := by
  have hsplit := Nat.div_add_mod a b
  rw [Nat.ceilDiv_eq_add_pred_div, Nat.div_eq_iff hb, Nat.mul_comm]
  omega

theorem ceilDiv_of_mod_pos (hb : 0 < b) (h : 0 < a % b) : a ⌈/⌉ b = a / b + 1 := by
  have hsplit := Nat.div_add_mod a b
  have hlt := Nat.mod_lt a hb
  rw [Nat.ceilDiv_eq_add_pred_div, Nat.div_eq_iff hb, Nat.mul_comm, Nat.mul_add]
  omega

theorem ceilDiv_le_self (a : Nat) (hb : 0 < b) : a ⌈/⌉ b ≤ a := by
  rw [ceilDiv_le_iff_le_mul hb]
  exact Nat.le_mul_of_pos_left a hb

/-- A quotient that is rounded up fits if the dividend does. -/
theorem divUp?_of_pos (hb : 0 < b) (ha : a < size) : divUp? size a b = some (a ⌈/⌉ b) := by
  have hfits := Nat.lt_of_le_of_lt (ceilDiv_le_self a hb) ha
  rw [divUp?, if_neg (Nat.ne_of_gt hb)]
  split
  · next heven =>
    rw [ceilDiv_of_mod_eq_zero hb heven] at hfits ⊢
    exact fits?_of_lt hfits
  · next hodd =>
    rw [ceilDiv_of_mod_pos hb (Nat.pos_of_ne_zero hodd)] at hfits ⊢
    exact fits?_of_lt hfits

end Word

/-! ## Drafts -/

namespace PolicyDraft

variable (draft : PolicyDraft)

/-- Seconds from one credited token to the next, with checks. -/
def secondsPerToken? : Option Nat :=
  (Word.divUp? UInt32.size 60 draft.refillPerMinute.toNat).map (max 1)

/-- How long an idle bucket is kept, with checks. -/
def bucketTtl? : Option Span := do
  let tokens ← Word.mul? UInt64.size draft.capacity.toNat 60
  let fillSecs ← Word.divUp? UInt64.size tokens draft.refillPerMinute.toNat
  let secs ← Word.mul? UInt64.size fillSecs 2
  return max (.ofSecs secs) Policy.minBucketTtl

theorem capacity_mul_sixty_lt : draft.capacity.toNat * 60 < 2 ^ 38 := by
  have hcapacity := draft.capacity.toNat_lt
  omega

variable {draft}

theorem refillPerMinute_toNat_pos_of_ne (h : draft.refillPerMinute ≠ 0) :
    0 < draft.refillPerMinute.toNat :=
  Nat.pos_of_ne_zero fun hzero => h (UInt32.toNat_inj.mp hzero)

theorem secondsPerToken?_of_pos (h : 0 < draft.refillPerMinute.toNat) :
    draft.secondsPerToken? = some (max 1 (60 ⌈/⌉ draft.refillPerMinute.toNat)) := by
  rw [secondsPerToken?, Word.divUp?_of_pos h (by decide), Option.map_some]

theorem bucketTtl?_of_pos (h : 0 < draft.refillPerMinute.toNat) :
    draft.bucketTtl? =
      some (max (.ofSecs ((draft.capacity.toNat * 60 ⌈/⌉ draft.refillPerMinute.toNat) * 2))
        Policy.minBucketTtl) := by
  have hcapacity := draft.capacity_mul_sixty_lt
  have hfill := Word.ceilDiv_le_self (draft.capacity.toNat * 60) h
  have htokens : draft.capacity.toNat * 60 < UInt64.size := by
    simp only [UInt64.size]
    omega
  have hsecs : (draft.capacity.toNat * 60 ⌈/⌉ draft.refillPerMinute.toNat) * 2 < UInt64.size := by
    simp only [UInt64.size]
    omega
  simp [bucketTtl?, Word.mul?_of_lt htokens, Word.divUp?_of_pos h htokens, Word.mul?_of_lt hsecs]

/-- Only a rate of zero, by which nothing can be divided, fails a check. -/
theorem secondsPerToken?_eq_none_iff :
    draft.secondsPerToken? = none ↔ draft.refillPerMinute = 0 := by
  constructor
  · intro hnone
    by_contra hne
    rw [secondsPerToken?_of_pos (refillPerMinute_toNat_pos_of_ne hne)] at hnone
    cases hnone
  · intro hzero
    simp [secondsPerToken?, hzero]

theorem bucketTtl?_eq_none_iff : draft.bucketTtl? = none ↔ draft.refillPerMinute = 0 := by
  constructor
  · intro hnone
    by_contra hne
    rw [bucketTtl?_of_pos (refillPerMinute_toNat_pos_of_ne hne)] at hnone
    cases hnone
  · intro hzero
    simp [bucketTtl?, hzero]

end PolicyDraft

/-! ## Policies -/

namespace Policy

variable (policy : Policy)

/-- The cost of a response is read off the schedule as it stands. -/
theorem cost_mem (status : UInt16) :
    policy.cost status ∈ [0, policy.costs.success, policy.costs.notFound, policy.costs.other,
      policy.costs.serverError] := by
  unfold cost
  cases ResponseClass.ofStatus status with
  | success => simp
  | notFound => simp
  | other => simp
  | serverError =>
      cases policy.exemptServerErrors with
      | true => simp
      | false => simp

theorem secondsPerToken?_eq :
    policy.secondsPerToken? = some policy.secondsPerToken.toNat := by
  rw [PolicyDraft.secondsPerToken?_of_pos policy.refillPerMinute_toNat_pos,
    toNat_secondsPerToken, Nat.max_eq_right policy.one_le_ceilDiv]

theorem fillSecs_eq :
    policy.fillSecs = policy.capacity.toNat * 60 ⌈/⌉ policy.refillPerMinute.toNat := by
  have hpos := policy.refillPerMinute_toNat_pos
  rw [fillSecs, Nat.ceilDiv_eq_add_pred_div]
  congr 1
  omega

theorem bucketTtl?_eq : policy.bucketTtl? = some policy.bucketTtl := by
  rw [PolicyDraft.bucketTtl?_of_pos policy.refillPerMinute_toNat_pos, bucketTtl_eq, fillSecs_eq]

/-- Capacity and rate are positive, and nothing that is computed from them divides by zero or leaves
the range of its words. -/
structure IsSafe : Prop where
  one_le_capacity : 1 ≤ policy.capacity
  one_le_refillPerMinute : 1 ≤ policy.refillPerMinute
  cost_mem : ∀ status, policy.cost status ∈ [0, policy.costs.success, policy.costs.notFound,
    policy.costs.other, policy.costs.serverError]
  secondsPerToken?_eq : policy.secondsPerToken? = some policy.secondsPerToken.toNat
  bucketTtl?_eq : policy.bucketTtl? = some policy.bucketTtl

theorem isSafe : policy.IsSafe where
  one_le_capacity := by
    have hcapacity := policy.capacity_pos
    rw [UInt32.lt_iff_toNat_lt] at hcapacity
    rw [UInt32.le_iff_toNat_le]
    exact hcapacity
  one_le_refillPerMinute := by
    rw [UInt32.le_iff_toNat_le]
    exact policy.refillPerMinute_toNat_pos
  cost_mem := policy.cost_mem
  secondsPerToken?_eq := policy.secondsPerToken?_eq
  bucketTtl?_eq := policy.bucketTtl?_eq

end Policy

end Admission
