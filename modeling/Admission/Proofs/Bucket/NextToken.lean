import Admission.Proofs.Bucket.Repeat
import Mathlib.Algebra.Order.Floor.Div

/-! # When the next token comes

A bucket below its capacity is credited its next token a token time after its last refill. What a
check reports counts in seconds, all of them rounded, and names the second of that credit or the one
after it. -/

namespace Admission

namespace Bucket

/-- A time earns a token if it is no shorter than the time of one, rounded up. -/
theorem earned_pos_iff (ms : Nat) {rate : Nat} (hr : 0 < rate) :
    0 < earned ms rate ↔ 60000 ⌈/⌉ rate ≤ ms := by
  rw [earned, Nat.div_pos_iff, ceilDiv_le_iff_le_mul hr, Nat.mul_comm]
  exact and_iff_right (by decide)

end Bucket

/-! ## The time of a token -/

namespace Policy

variable (policy : Policy)

/-- The milliseconds in which a token is earned, rounded up. -/
def tokenMs : Nat := 60000 ⌈/⌉ policy.refillPerMinute.toNat

theorem sixty_le_mul_ceilDiv :
    60 ≤ policy.refillPerMinute.toNat * (60 ⌈/⌉ policy.refillPerMinute.toNat) :=
  le_smul_ceilDiv policy.refillPerMinute_toNat_pos

theorem one_le_ceilDiv : 1 ≤ 60 ⌈/⌉ policy.refillPerMinute.toNat := by
  apply Nat.one_le_iff_ne_zero.mpr
  intro hzero
  have hsixty := policy.sixty_le_mul_ceilDiv
  rw [hzero] at hsixty
  omega

theorem toNat_secondsPerToken :
    policy.secondsPerToken.toNat = 60 ⌈/⌉ policy.refillPerMinute.toNat := by
  have hrate := policy.refillPerMinute.toNat_lt
  have hpos := policy.refillPerMinute_toNat_pos
  have hle : (1 : UInt64) ≤ 60 + policy.refillPerMinute.toUInt64 := by
    rw [UInt64.le_iff_toNat_le, UInt64.toNat_add, UInt32.toNat_toUInt64]
    simp only [UInt64.reduceToNat]
    omega
  have hceil : ((60 + policy.refillPerMinute.toUInt64 - 1) /
      policy.refillPerMinute.toUInt64).toNat = 60 ⌈/⌉ policy.refillPerMinute.toNat := by
    rw [UInt64.toNat_div, UInt64.toNat_sub_of_le _ _ hle, UInt64.toNat_add,
      UInt32.toNat_toUInt64, Nat.ceilDiv_eq_add_pred_div]
    simp only [UInt64.reduceToNat]
    rw [Nat.mod_eq_of_lt (by omega)]
  rw [secondsPerToken, Bucket.toNat_max64, hceil]
  exact Nat.max_eq_right policy.one_le_ceilDiv

/-- The seconds of a token are no shorter than its milliseconds. -/
theorem tokenMs_le_mul_secondsPerToken :
    policy.tokenMs ≤ 1000 * policy.secondsPerToken.toNat := by
  have hsixty := policy.sixty_le_mul_ceilDiv
  rw [toNat_secondsPerToken, tokenMs, ceilDiv_le_iff_le_mul policy.refillPerMinute_toNat_pos,
    Nat.mul_left_comm]
  omega

/-- They are longer by less than a second. -/
theorem mul_secondsPerToken_lt_tokenMs_add :
    1000 * policy.secondsPerToken.toNat < policy.tokenMs + 1000 := by
  have hpos := policy.refillPerMinute_toNat_pos
  rw [toNat_secondsPerToken]
  by_contra hlong
  -- A whole second more than needed: with one second less the token would be earned, too.
  have hms : 60000 ≤ policy.refillPerMinute.toNat *
      (1000 * (60 ⌈/⌉ policy.refillPerMinute.toNat - 1)) := by
    rw [← ceilDiv_le_iff_le_mul hpos, ← tokenMs]
    omega
  have hshorter : 60 ⌈/⌉ policy.refillPerMinute.toNat ≤
      60 ⌈/⌉ policy.refillPerMinute.toNat - 1 := by
    rw [ceilDiv_le_iff_le_mul hpos]
    rw [Nat.mul_left_comm] at hms
    omega
  have hsixty := policy.sixty_le_mul_ceilDiv
  have hnone : 60 ⌈/⌉ policy.refillPerMinute.toNat = 0 := by omega
  rw [hnone] at hsixty
  omega

theorem secondsPerToken_le : policy.secondsPerToken.toNat ≤ 60 := by
  rw [toNat_secondsPerToken, ceilDiv_le_iff_le_mul policy.refillPerMinute_toNat_pos]
  exact Nat.le_mul_of_pos_left 60 policy.refillPerMinute_toNat_pos

theorem le_mul_tokenMs : 60000 ≤ policy.refillPerMinute.toNat * policy.tokenMs :=
  le_smul_ceilDiv policy.refillPerMinute_toNat_pos

theorem tokenMs_pos : 0 < policy.tokenMs := by
  apply Nat.pos_of_ne_zero
  intro hzero
  have hmul := policy.le_mul_tokenMs
  rw [hzero] at hmul
  omega

end Policy

/-! ## The next token of a bucket -/

namespace Bucket

/-- The time at which a bucket below its capacity is credited its next token. -/
def State.nextTokenMs (policy : Policy) (s : State) : Nat :=
  s.lastRefillMs.toNat + policy.tokenMs

theorem earned_eq_zero_iff (policy : Policy) (s : State) (nowMs : UInt64) :
    earned (nowMs.toNat - s.lastRefillMs.toNat) policy.refillPerMinute.toNat = 0 ↔
      nowMs.toNat < s.nextTokenMs policy := by
  have hearned := earned_pos_iff (nowMs.toNat - s.lastRefillMs.toNat)
    policy.refillPerMinute_toNat_pos
  have htoken := policy.tokenMs_pos
  rw [← Policy.tokenMs] at hearned
  rw [State.nextTokenMs]
  omega

/-- Below the capacity, the first refill that credits a token is the one at that time. -/
theorem tokens_lt_tokens_refill_iff {policy : Policy} {s : State}
    (h : s.tokens < policy.capacity) (nowMs : UInt64) :
    s.tokens < (refill (some s) policy.capacity policy.refillPerMinute nowMs).tokens ↔
      s.nextTokenMs policy ≤ nowMs.toNat := by
  have hearned := earned_eq_zero_iff policy s nowMs
  rw [UInt32.lt_iff_toNat_lt] at h
  rw [UInt32.lt_iff_toNat_lt, toNat_tokens_refill]
  omega

theorem leftover_lt (ms : Nat) {rate : Nat} (hr : 0 < rate) : leftover ms rate < 60000 + rate := by
  have hparts : ms * rate % 60000 < 60000 := Nat.mod_lt _ (by decide)
  have hmillis : earned ms rate * 60000 % rate < rate := Nat.mod_lt _ hr
  rw [leftover]
  omega

/-- The milliseconds for which no token stands are not more than the time of a token. -/
theorem le_credited_add_tokenMs (policy : Policy) (ms : Nat) :
    ms ≤ earned ms policy.refillPerMinute.toNat * 60000 / policy.refillPerMinute.toNat +
      policy.tokenMs := by
  have hrate := policy.refillPerMinute_toNat_pos
  have hleft := leftover_lt ms hrate
  have htoken := policy.le_mul_tokenMs
  rw [← Nat.sub_le_iff_le_add']
  by_contra hlater
  -- What is left would be a token and a millisecond, which is more than the roundings leave.
  have hmore := Nat.mul_le_mul_right policy.refillPerMinute.toNat (Nat.lt_of_not_le hlater)
  rw [sub_credited_mul ms hrate, Nat.succ_mul, Nat.mul_comm policy.tokenMs] at hmore
  omega

/-- Just after a refill the next token lies in the past for no bucket. It may be due at once, where
the milliseconds fell short of the credited tokens. -/
theorem le_nextTokenMs_refill (policy : Policy) (prior : Option State) (nowMs : UInt64) :
    nowMs.toNat ≤
      (refill prior policy.capacity policy.refillPerMinute nowMs).nextTokenMs policy := by
  cases prior with
  | none => exact Nat.le_add_right _ _
  | some s =>
      rcases Nat.eq_zero_or_pos
        (earned (nowMs.toNat - s.lastRefillMs.toNat) policy.refillPerMinute.toNat)
        with hzero | hpos
      · rw [refill_of_earned_eq_zero hzero]
        exact ((earned_eq_zero_iff policy s nowMs).mp hzero).le
      · by_cases hfull : policy.capacity.toNat ≤ min s.tokens.toNat policy.capacity.toNat +
            earned (nowMs.toNat - s.lastRefillMs.toNat) policy.refillPerMinute.toNat
        · rw [refill_of_capacity_le hpos hfull]
          exact Nat.le_add_right _ _
        · have hleft :=
            le_credited_add_tokenMs policy (nowMs.toNat - s.lastRefillMs.toNat)
          rw [State.nextTokenMs, (refill_of_lt_capacity hpos (Nat.lt_of_not_le hfull)).2]
          omega

/-! ## The reported second -/

theorem toNat_resetAt (policy : Policy) (s : State) :
    (Status.ofState policy s).resetAt.toNat =
      s.lastRefillMs.toNat / 1000 + policy.secondsPerToken.toNat := by
  have hlast := s.lastRefillMs.toNat_lt
  have hsecs := policy.secondsPerToken_le
  rw [Status.ofState, UInt64.toNat_add, UInt64.toNat_div]
  simp only [UInt64.reduceToNat]
  exact Nat.mod_eq_of_lt (by omega)

/-- A check reports the second of the next credit or the one after it, and never one that is past.
The next credit is the first that a refill of the bucket that the check leaves would make. -/
theorem resetAt_brackets_nextToken (policy : Policy) (prior : Option State) (nowMs : UInt64) :
    let state := refill prior policy.capacity policy.refillPerMinute nowMs
    let next := state.nextTokenMs policy
    let resetAt := (Status.ofState policy state).resetAt.toNat
    (state.tokens < policy.capacity → ∀ t : UInt64,
        state.tokens < (refill (some state) policy.capacity policy.refillPerMinute t).tokens ↔
          next ≤ t.toNat) ∧
      nowMs.toNat / 1000 ≤ next / 1000 ∧ next / 1000 ≤ resetAt ∧ resetAt ≤ next / 1000 + 1 ∧
      ∀ (s : Store) (identifier : String), s.live? ⟨policy.name, identifier⟩ nowMs = prior →
        s.status ⟨policy, identifier⟩ nowMs = .ofState policy state ∧
          (s.visit ⟨policy, identifier⟩ (nowMs, .check)).peek ⟨policy.name, identifier⟩ =
            some state := by
  intro state next resetAt
  have hnow : nowMs.toNat ≤ next := le_nextTokenMs_refill policy prior nowMs
  have hreset : resetAt = state.lastRefillMs.toNat / 1000 + policy.secondsPerToken.toNat :=
    toNat_resetAt policy state
  have hshort := policy.tokenMs_le_mul_secondsPerToken
  have hlong := policy.mul_secondsPerToken_lt_tokenMs_add
  have hnext : next = state.lastRefillMs.toNat + policy.tokenMs := rfl
  refine ⟨fun hbelow t => tokens_lt_tokens_refill_iff hbelow t, by omega, by omega, by omega, ?_⟩
  rintro s identifier rfl
  refine ⟨rfl, ?_⟩
  simp [Store.visit, Store.answer, Store.mutate, Store.peek, checkCall, state]

/-- Two tokens have been credited and the third one is due at once, in second 25. The reported
second is the next one. -/
theorem resetAt_brackets_nextToken_sevenAMinute :
    let state : State := ⟨2, 17142⟩
    refill (some ⟨0, 0⟩) sevenAMinute.capacity sevenAMinute.refillPerMinute 25714 = state ∧
      state.tokens < sevenAMinute.capacity ∧ state.nextTokenMs sevenAMinute = 25714 ∧
      state.tokens < (refill (some state) sevenAMinute.capacity sevenAMinute.refillPerMinute
        25714).tokens ∧
      25714 / 1000 ≤ (Status.ofState sevenAMinute state).resetAt.toNat ∧
      (Status.ofState sevenAMinute state).resetAt.toNat = 25 + 1 := by
  intro state
  have hstate : refill (some ⟨0, 0⟩) sevenAMinute.capacity sevenAMinute.refillPerMinute 25714 =
      state := by decide +kernel
  have hbelow : state.tokens < sevenAMinute.capacity := by decide +kernel
  have hnext : state.nextTokenMs sevenAMinute = 25714 := by decide +kernel
  obtain ⟨hfirst, hpast, hreset, -, -⟩ :=
    resetAt_brackets_nextToken sevenAMinute (some ⟨0, 0⟩) 25714
  rw [hstate] at hfirst hpast hreset
  exact ⟨hstate, hbelow, hnext, (hfirst hbelow 25714).mpr hnext.le, hpast.trans hreset,
    by decide +kernel⟩

end Bucket

end Admission
