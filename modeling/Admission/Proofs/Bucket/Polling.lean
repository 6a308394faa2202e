import Admission.Proofs.Bucket.Denial
import Admission.Proofs.Bucket.Spend

/-! # Checking often

A refill rounds down twice: the tokens that it credits, and then the milliseconds that these stand
for. What the first rounding leaves is still there the next time, and the second one only leaves
more. So a bucket that is refilled on the way has at the end no fewer tokens than one that was left
alone.
-/

namespace Admission.Bucket

/-! ## Refilling on the way -/

/-- Tokens that were credited before, together with what the time earns that they do not stand for,
are no fewer than what the whole time earns. -/
theorem earned_le_add_earned_sub (credited ms rate : Nat) :
    earned ms rate ≤ credited + earned (ms - credited * 60000 / rate) rate := by
  have hmillis : credited * 60000 / rate * rate ≤ credited * 60000 := Nat.div_mul_le_self _ _
  rw [earned, earned, Nat.sub_mul]
  omega

theorem tokens_refill_le_capacity (prior : Option State) (capacity rate : UInt32)
    (nowMs : UInt64) : (refill prior capacity rate nowMs).tokens ≤ capacity := by
  cases prior with
  | none => exact UInt32.le_refl capacity
  | some s =>
      rw [UInt32.le_iff_toNat_le, toNat_tokens_refill]
      exact Nat.min_le_left _ _

/-- A bucket that was full at some reading is full at every other one. -/
theorem tokens_refill_full (capacity rate : UInt32) (t nowMs : UInt64) :
    (refill (some (.full capacity t)) capacity rate nowMs).tokens = capacity := by
  rw [← UInt32.toNat_inj, toNat_tokens_refill]
  simp only [State.full]
  omega

/-- What a bucket holds that was refilled on the way: the tokens credited then, and those that the
time has earned for which these do not stand. -/
theorem toNat_tokens_refill_refill (s : State) (capacity rate : UInt32) (t nowMs : UInt64) :
    (refill (some (refill (some s) capacity rate t)) capacity rate nowMs).tokens.toNat =
      min capacity.toNat (min s.tokens.toNat capacity.toNat +
        (earned (t.toNat - s.lastRefillMs.toNat) rate.toNat +
          earned (nowMs.toNat - s.lastRefillMs.toNat -
            earned (t.toNat - s.lastRefillMs.toNat) rate.toNat * 60000 / rate.toNat)
            rate.toNat)) := by
  rcases Nat.eq_zero_or_pos (earned (t.toNat - s.lastRefillMs.toNat) rate.toNat)
    with hzero | hpos
  · rw [refill_of_earned_eq_zero hzero, toNat_tokens_refill, hzero, Nat.zero_mul, Nat.zero_div,
      Nat.sub_zero]
    simp only [toNat_min32]
    omega
  · by_cases hfull : capacity.toNat ≤ min s.tokens.toNat capacity.toNat +
        earned (t.toNat - s.lastRefillMs.toNat) rate.toNat
    · rw [refill_of_capacity_le hpos hfull, tokens_refill_full]
      omega
    · obtain ⟨htokens, hlast⟩ := refill_of_lt_capacity hpos (Nat.lt_of_not_le hfull)
      rw [toNat_tokens_refill (refill (some s) capacity rate t), htokens, hlast, ← Nat.sub_sub]
      omega

/-- A refill at another reading takes no token away from a refill. -/
theorem tokens_refill_le_tokens_refill_refill (prior : Option State) (capacity rate : UInt32)
    (t nowMs : UInt64) :
    (refill prior capacity rate nowMs).tokens ≤
      (refill (some (refill prior capacity rate t)) capacity rate nowMs).tokens := by
  cases prior with
  | none =>
      change capacity ≤ (refill (some (.full capacity t)) capacity rate nowMs).tokens
      rw [tokens_refill_full]
      exact UInt32.le_refl capacity
  | some s =>
      have hrest := earned_le_add_earned_sub
        (earned (t.toNat - s.lastRefillMs.toNat) rate.toNat)
        (nowMs.toNat - s.lastRefillMs.toNat) rate.toNat
      rw [UInt32.le_iff_toNat_le, toNat_tokens_refill, toNat_tokens_refill_refill]
      omega

/-- A bucket, or none, that is refilled at one reading after another. -/
def polled (policy : Policy) (prior : Option State) (readings : List UInt64) : Option State :=
  readings.foldl
    (fun prior t => some (refill prior policy.capacity policy.refillPerMinute t)) prior

/-- Refilling a bucket on the way, however often and at whatever readings, costs it no token. -/
theorem tokens_refill_le_tokens_refill_polled (policy : Policy) (prior : Option State)
    (readings : List UInt64) (nowMs : UInt64) :
    (refill prior policy.capacity policy.refillPerMinute nowMs).tokens ≤
      (refill (polled policy prior readings) policy.capacity
        policy.refillPerMinute nowMs).tokens := by
  induction readings generalizing prior with
  | nil => exact UInt32.le_refl _
  | cons t readings ih =>
      calc (refill prior policy.capacity policy.refillPerMinute nowMs).tokens
          ≤ (refill (some (refill prior policy.capacity policy.refillPerMinute t))
              policy.capacity policy.refillPerMinute nowMs).tokens :=
            tokens_refill_le_tokens_refill_refill _ _ _ _ _
        _ ≤ (refill (polled policy prior (t :: readings)) policy.capacity
              policy.refillPerMinute nowMs).tokens := ih _

/-! ## Rates that divide a minute -/

/-- Where tokens stand for whole milliseconds, a refill on the way changes no token. -/
theorem tokens_refill_refill_of_dvd {capacity rate : UInt32} (hdvd : rate.toNat ∣ 60000)
    (prior : Option State) {t nowMs : UInt64} (h : t ≤ nowMs) :
    (refill (some (refill prior capacity rate t)) capacity rate nowMs).tokens =
      (refill prior capacity rate nowMs).tokens := by
  rw [UInt64.le_iff_toNat_le] at h
  cases prior with
  | none => exact tokens_refill_full capacity rate t nowMs
  | some s =>
      have hpos : 0 < rate.toNat := Nat.pos_of_dvd_of_pos hdvd (by decide)
      have hmillis := earned_mul_div_le (t.toNat - s.lastRefillMs.toNat) hpos
      have hrest := earned_add_tokens hdvd
        (nowMs.toNat - s.lastRefillMs.toNat -
          earned (t.toNat - s.lastRefillMs.toNat) rate.toNat * 60000 / rate.toNat)
        (earned (t.toNat - s.lastRefillMs.toNat) rate.toNat)
      rw [Nat.sub_add_cancel (by omega)] at hrest
      rw [← UInt32.toNat_inj, toNat_tokens_refill_refill, toNat_tokens_refill]
      omega

/-- At a rate that divides a minute, a bucket that is refilled on the way holds just what one does
that was left alone. -/
theorem tokens_refill_polled_of_dvd {policy : Policy}
    (hdvd : policy.refillPerMinute.toNat ∣ 60000) (prior : Option State)
    {readings : List UInt64} {nowMs : UInt64} (h : ∀ t ∈ readings, t ≤ nowMs) :
    (refill (polled policy prior readings) policy.capacity policy.refillPerMinute nowMs).tokens =
      (refill prior policy.capacity policy.refillPerMinute nowMs).tokens := by
  induction readings generalizing prior with
  | nil => rfl
  | cons t readings ih =>
      calc (refill (polled policy prior (t :: readings)) policy.capacity
            policy.refillPerMinute nowMs).tokens
          = (refill (some (refill prior policy.capacity policy.refillPerMinute t))
              policy.capacity policy.refillPerMinute nowMs).tokens :=
            ih _ fun u hu => h u (List.mem_cons_of_mem t hu)
        _ = (refill prior policy.capacity policy.refillPerMinute nowMs).tokens :=
            tokens_refill_refill_of_dvd hdvd prior (h t List.mem_cons_self)

/-! ## Uses that charge nothing -/

namespace Store

variable {account : Account}

/-- From a reading on, whatever is live of the bucket will come to at least `n` tokens at `t`. -/
def Promises (account : Account) (n : UInt32) (t : UInt64) (s : Store) (nowMs : UInt64) : Prop :=
  ∀ u, nowMs ≤ u → n ≤ (Bucket.refill (s.live? account.key u) account.policy.capacity
    account.policy.refillPerMinute t).tokens

namespace Promises

variable {n : UInt32} {t nowMs : UInt64} {s : Store}

theorem of_live (hn : n ≤ account.policy.capacity)
    (h : n ≤ (Bucket.refill (s.live? account.key nowMs) account.policy.capacity
      account.policy.refillPerMinute t).tokens) :
    s.Promises account n t nowMs := by
  intro u hu
  rcases s.live?_later account.key hu with hlive | hlive
  · rwa [hlive]
  · rwa [hlive]

theorem later {u : UInt64} (h : s.Promises account n t nowMs) (hu : nowMs ≤ u) :
    s.Promises account n t u :=
  fun v hv => h v (UInt64.le_trans hu hv)

theorem of_mutate {ttl : Span} {f : Option State → State} (hn : n ≤ account.policy.capacity)
    (h : n ≤ (Bucket.refill (some (f (s.live? account.key nowMs))) account.policy.capacity
      account.policy.refillPerMinute t).tokens) :
    (s.mutate account.key nowMs ttl f).2.Promises account n t nowMs := by
  intro u _
  rw [live?_mutate]
  split
  · exact h
  · exact hn

/-- A use that charges nothing keeps the promise. -/
theorem visit {v : Visit} (hn : n ≤ account.policy.capacity) (h : s.Promises account n t v.1)
    (hfree : v.2.cost account.policy = 0) : (s.visit account v).Promises account n t v.1 := by
  obtain ⟨nowMs, use⟩ := v
  cases use with
  | check =>
      exact of_mutate hn (UInt32.le_trans (h nowMs (UInt64.le_refl _))
        (tokens_refill_le_tokens_refill_refill _ _ _ _ _))
  | consume status =>
      have hcost : account.policy.cost status = 0 := UInt32.toNat_inj.mp hfree
      simpa only [Store.visit, if_pos hcost] using h
  | reset =>
      refine of_mutate (f := fun _ => .full account.policy.capacity nowMs) hn ?_
      rwa [tokens_refill_full]
  | purge =>
      intro u hu
      simpa only [Store.visit, live?_purgeExpired s account.key hu] using h u hu

theorem follow {history : List Visit} (hn : n ≤ account.policy.capacity)
    (h : s.Promises account n t nowMs) {u : UInt64} (hwithin : Within nowMs u history)
    (hfree : ∀ v ∈ history, v.2.cost account.policy = 0) :
    (s.follow account history).Promises account n t u :=
  follow_induction account h hwithin (fun _ _ _ hle h => h.later hle)
    fun _ v hv h => h.visit hn (hfree v hv)

end Promises

/-- A check finds no fewer tokens for the checks, resets and purges that came in between, than it
would find at the same reading if the bucket had been left alone and kept. -/
theorem tokens_le_of_uncharged (s : Store) {history : List Visit} {nowMs t : UInt64}
    (hwithin : Within nowMs t history)
    (hfree : ∀ v ∈ history, v.2.cost account.policy = 0) :
    (Bucket.refill (s.live? account.key nowMs) account.policy.capacity
        account.policy.refillPerMinute t).tokens ≤
      ((s.follow account history).checked account t).tokens := by
  have hn := tokens_refill_le_capacity (s.live? account.key nowMs) account.policy.capacity
    account.policy.refillPerMinute t
  have hstart := Promises.of_live hn (UInt32.le_refl _)
  exact hstart.follow hn hwithin hfree t (UInt64.le_refl t)

end Store

end Admission.Bucket
