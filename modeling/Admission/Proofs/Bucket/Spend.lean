import Mathlib.Data.UInt
import Admission.Proofs.Bucket.Expiry
import Admission.Proofs.Bucket.History

/-! # How much a history can spend

Tokens spent and tokens left never come to more than the capacity and what the time up to the last
refill has earned. The rate has to divide a minute: only then does a token stand for whole
milliseconds. -/

namespace Admission.Bucket

/-! ## Earning by the token -/

theorem earned_add_le (a b rate : Nat) : earned a rate + earned b rate ≤ earned (a + b) rate := by
  rw [earned, earned, earned, Nat.add_mul]
  exact Nat.div_add_div_le_add_div

section Divides

variable {rate : Nat} (hdvd : rate ∣ 60000)

include hdvd

theorem earned_eq_div (ms : Nat) : earned ms rate = ms / (60000 / rate) := by
  obtain ⟨k, hk⟩ := hdvd
  have hpos : 0 < rate := Nat.pos_of_ne_zero (by rintro rfl; omega)
  have hdiv : 60000 / rate = k := by rw [hk, Nat.mul_div_cancel_left _ hpos]
  rw [hdiv, earned, hk, Nat.mul_comm ms rate, Nat.mul_div_mul_left _ _ hpos]

/-- The time that a number of tokens stands for earns just these. -/
theorem earned_add_tokens (ms n : Nat) :
    earned (ms + n * 60000 / rate) rate = earned ms rate + n := by
  have hpos : 0 < rate := Nat.pos_of_ne_zero (by rintro rfl; omega)
  have hk : 0 < 60000 / rate := Nat.div_pos (Nat.le_of_dvd (by decide) hdvd) hpos
  rw [earned_eq_div hdvd, earned_eq_div hdvd, Nat.mul_div_assoc _ hdvd,
    Nat.add_mul_div_right _ _ hk]

end Divides

/-! ## A bucket within its budget -/

/-- Tokens spent, together with those of a bucket, are covered by the capacity and by what the time
from `t0` to the last refill has earned. -/
structure Covered (policy : Policy) (t0 : UInt64) (spent : Nat) (s : State) : Prop where
  since : t0 ≤ s.lastRefillMs
  bound : spent + min s.tokens.toNat policy.capacity.toNat ≤ policy.capacity.toNat +
    earned (s.lastRefillMs.toNat - t0.toNat) policy.refillPerMinute.toNat

namespace Covered

variable {policy : Policy} {t0 nowMs : UInt64} {spent : Nat} {s : State}

/-- A bucket that is full at a later time is covered if that time has earned what was missing. -/
theorem full (h : Covered policy t0 spent s) (hnow : s.lastRefillMs ≤ nowMs)
    (hearned : policy.capacity.toNat ≤ min s.tokens.toNat policy.capacity.toNat +
      earned (nowMs.toNat - s.lastRefillMs.toNat) policy.refillPerMinute.toNat) :
    Covered policy t0 spent (.full policy.capacity nowMs) := by
  have hsince := h.since
  have hbound := h.bound
  rw [UInt64.le_iff_toNat_le] at hsince hnow
  refine ⟨?_, ?_⟩
  · rw [UInt64.le_iff_toNat_le]
    exact hsince.trans hnow
  · have hadd := earned_add_le (s.lastRefillMs.toNat - t0.toNat)
      (nowMs.toNat - s.lastRefillMs.toNat) policy.refillPerMinute.toNat
    have htime : s.lastRefillMs.toNat - t0.toNat + (nowMs.toNat - s.lastRefillMs.toNat) =
        nowMs.toNat - t0.toNat := by omega
    rw [htime] at hadd
    simp only [State.full, Nat.min_self]
    omega

theorem refill (hdvd : policy.refillPerMinute.toNat ∣ 60000) (h : Covered policy t0 spent s)
    (hnow : s.lastRefillMs ≤ nowMs) :
    Covered policy t0 spent
      (Bucket.refill (some s) policy.capacity policy.refillPerMinute nowMs) := by
  have hsince := h.since
  have hbound := h.bound
  rcases Nat.eq_zero_or_pos
    (earned (nowMs.toNat - s.lastRefillMs.toNat) policy.refillPerMinute.toNat) with hzero | hpos
  · rw [refill_of_earned_eq_zero hzero]
    refine ⟨hsince, ?_⟩
    simp only [toNat_min32]
    omega
  · by_cases hfull : policy.capacity.toNat ≤ min s.tokens.toNat policy.capacity.toNat +
        earned (nowMs.toNat - s.lastRefillMs.toNat) policy.refillPerMinute.toNat
    · rw [refill_of_capacity_le hpos hfull]
      exact h.full hnow hfull
    · obtain ⟨htokens, hlast⟩ := refill_of_lt_capacity hpos (Nat.lt_of_not_le hfull)
      rw [UInt64.le_iff_toNat_le] at hsince
      refine ⟨?_, ?_⟩
      · rw [UInt64.le_iff_toNat_le, hlast]
        exact hsince.trans (Nat.le_add_right _ _)
      · -- The time of the last refill moves on by just what the credited tokens stand for.
        rw [htokens, hlast, Nat.sub_add_comm hsince, earned_add_tokens hdvd]
        omega

/-- A charge only moves tokens from the bucket to what is spent. -/
theorem deduct (h : Covered policy t0 spent s) (cost : UInt32) (nowMs : UInt64) :
    Covered policy t0
      (spent + (min s.tokens.toNat policy.capacity.toNat -
        (Bucket.deduct (some s) policy.capacity cost nowMs).tokens.toNat))
      (Bucket.deduct (some s) policy.capacity cost nowMs) := by
  have hbound := h.bound
  refine ⟨h.since, ?_⟩
  rw [lastRefillMs_deduct, toNat_tokens_deduct]
  simp only [Option.getD_some]
  omega

end Covered

/-! ## A store within its budget -/

/-- Whatever the store finds of the bucket from a reading on is covered. -/
def Solvent (account : Account) (t0 : UInt64) (spent : Nat) (s : Store) (nowMs : UInt64) : Prop :=
  ∀ t, nowMs ≤ t → t0 ≤ t →
    Covered account.policy t0 spent (s.found account t) ∧ (s.found account t).lastRefillMs ≤ t

namespace Solvent

variable {account : Account} {t0 nowMs : UInt64} {spent : Nat} {s : Store}

/-- Before anything is spent, an absent bucket is covered. -/
theorem of_absent (h : s.entries.get? account.key.text = none) :
    Solvent account t0 0 s nowMs := by
  intro t _ h0
  have hfound : s.found account t = .full account.policy.capacity t := by
    simp [Store.found, Store.live?, h]
  rw [hfound]
  refine ⟨⟨h0, ?_⟩, UInt64.le_refl t⟩
  simp only [State.full, Nat.min_self, Nat.zero_add]
  exact Nat.le_add_right _ _

theorem later {t : UInt64} (h : Solvent account t0 spent s nowMs) (ht : nowMs ≤ t) :
    Solvent account t0 spent s t :=
  fun u hu => h u (UInt64.le_trans ht hu)

/-- A covered state that is kept for the time to live leaves the store solvent: by the time it is
forgotten, waiting would have filled the bucket. -/
theorem of_mutate {f : Option State → State}
    (hfits : nowMs.toNat + account.policy.bucketTtl.millis < UInt64.size)
    (hcovered : Covered account.policy t0 spent (f (s.live? account.key nowMs)))
    (hlast : (f (s.live? account.key nowMs)).lastRefillMs ≤ nowMs) :
    Solvent account t0 spent
      (s.mutate account.key nowMs account.policy.bucketTtl f).2 nowMs := by
  intro t ht _
  have hle := UInt64.le_trans hlast ht
  by_cases hlive : t < Word.addClamped nowMs account.policy.bucketTtl.millisWord
  · rw [Store.found, Store.live?_mutate, if_pos hlive]
    exact ⟨hcovered, hle⟩
  · rw [Store.found, Store.live?_mutate, if_neg hlive]
    refine ⟨hcovered.full hle ?_, UInt64.le_refl t⟩
    have hidle : account.policy.bucketTtl.millis ≤
        t.toNat - (f (s.live? account.key nowMs)).lastRefillMs.toNat := by
      rw [UInt64.lt_iff_toNat_lt, Word.toNat_addClamped, Span.millisWord,
        Word.toNat_ofNatClamp] at hlive
      rw [UInt64.le_iff_toNat_le] at hlast
      simp only [UInt64.size] at hlive hfits
      omega
    have hearned := earned_mono account.policy.refillPerMinute.toNat hidle
    have httl := account.policy.two_mul_capacity_le_earned_bucketTtl
    omega

/-- Each visit other than a reset keeps the store solvent, with what it takes out counted as spent.
-/
theorem visit (hdvd : account.policy.refillPerMinute.toNat ∣ 60000) {v : Visit}
    (h : Solvent account t0 spent s v.1)
    (hfits : v.1.toNat + account.policy.bucketTtl.millis < UInt64.size)
    (hreset : v.2 ≠ .reset) (hfirst : v.2.touches account.policy = true → t0 ≤ v.1) :
    Solvent account t0 (spent + s.taken account v) (s.visit account v) v.1 := by
  obtain ⟨nowMs, use⟩ := v
  cases use with
  | check =>
      obtain ⟨hcovered, hlast⟩ := h nowMs (UInt64.le_refl _) (hfirst rfl)
      have hrefill : refill (s.live? account.key nowMs) account.policy.capacity
          account.policy.refillPerMinute nowMs =
          refill (some (s.found account nowMs)) account.policy.capacity
            account.policy.refillPerMinute nowMs := by
        rw [Store.found]
        cases s.live? account.key nowMs with
        | none => exact refill_none _ _ _
        | some state => rfl
      apply of_mutate hfits
      · rw [hrefill]
        exact hcovered.refill hdvd hlast
      · rw [hrefill]
        exact lastRefillMs_refill_le hlast
  | consume status =>
      by_cases hcost : account.policy.cost status = 0
      · simpa [Store.taken, Store.visit, hcost] using h
      · have htouches : Use.touches account.policy (.consume status) = true := by
          simpa [Use.touches] using hcost
        obtain ⟨hcovered, hlast⟩ := h nowMs (UInt64.le_refl _) (hfirst htouches)
        simp only [Store.taken, Store.visit, if_neg hcost]
        exact of_mutate (f := fun prior => deduct prior account.policy.capacity
          (account.policy.cost status) nowMs) hfits (hcovered.deduct _ nowMs) hlast
  | reset => exact absurd rfl hreset
  | purge =>
      intro t ht h0
      have hfound : (s.purgeExpired nowMs).found account t = s.found account t := by
        rw [Store.found, Store.live?_purgeExpired s account.key ht, Store.found]
      simpa [Store.taken, Store.visit, hfound] using h t ht h0

/-- A whole history without resets keeps the store solvent. -/
theorem spent_add (hdvd : account.policy.refillPerMinute.toNat ∣ 60000) {history : List Visit}
    (h : Solvent account t0 spent s nowMs) (htimely : Timely account.policy history)
    (hnow : ∀ v ∈ history, nowMs ≤ v.1) (hreset : ∀ v ∈ history, v.2 ≠ .reset)
    (hfirst : ∀ v ∈ history, v.2.touches account.policy = true → t0 ≤ v.1)
    {t : UInt64} (ht : nowMs ≤ t) (hlast : ∀ v ∈ history, v.1 ≤ t) :
    Solvent account t0 (spent + s.spent account history) (s.follow account history) t := by
  induction history generalizing s spent nowMs with
  | nil => simpa [Store.spent, Store.follow] using h.later ht
  | cons v history ih =>
      have hv := (h.later (hnow v (by simp))).visit hdvd (htimely.fits v (by simp))
        (hreset v (by simp)) (hfirst v (by simp))
      rw [Store.spent, ← Nat.add_assoc]
      exact ih hv htimely.tail (fun w hw => List.rel_of_pairwise_cons htimely.ordered hw)
        (fun w hw => hreset w (by simp [hw])) (fun w hw => hfirst w (by simp [hw]))
        (hlast v (by simp)) (fun w hw => hlast w (by simp [hw]))

end Solvent

/-- From an absent bucket on, charges take out no more than the capacity and what the time since the
bucket was first touched has earned, whatever checks, charges and purges come in between. -/
theorem spent_le_capacity_add_earned (account : Account)
    (hdvd : account.policy.refillPerMinute.toNat ∣ 60000) (s : Store)
    (habsent : s.entries.get? account.key.text = none) (history : List Visit)
    (htimely : Timely account.policy history) (hreset : ∀ v ∈ history, v.2 ≠ .reset)
    {t0 : UInt64} (h0 : firstTouch? account.policy history = some t0)
    {t : UInt64} (ht : ∀ v ∈ history, v.1 ≤ t) :
    s.spent account history ≤ account.policy.capacity.toNat +
      (t.toNat - t0.toNat) * account.policy.refillPerMinute.toNat / 60000 := by
  have hfirst := firstTouch?_le htimely h0
  have h0t : t0 ≤ t := by
    obtain ⟨v, hv, rfl⟩ := Option.map_eq_some_iff.mp h0
    exact ht v (List.mem_of_find?_eq_some hv)
  have hstart : Solvent account t0 0 s 0 := Solvent.of_absent habsent
  obtain ⟨hcovered, hlast⟩ := hstart.spent_add hdvd htimely (fun _ _ => UInt64.zero_le) hreset
    hfirst UInt64.zero_le ht t (UInt64.le_refl t) h0t
  have hbound := hcovered.bound
  rw [UInt64.le_iff_toNat_le] at hlast
  have hearned := earned_mono account.policy.refillPerMinute.toNat
    (Nat.sub_le_sub_right hlast t0.toNat)
  rw [Nat.zero_add] at hbound
  change _ ≤ _ + earned (t.toNat - t0.toNat) account.policy.refillPerMinute.toNat
  omega

/-- Three tokens, and one more each second. -/
def briskAccount : Account where
  policy := {
    name := "BRISK"
    refillPerMinute := 60
    capacity := 3
    refillPerMinute_pos := by decide
    capacity_pos := by decide }
  identifier := "caller"

/-- Five charges within a second. The fourth has a token that came meanwhile, the fifth finds none.
-/
def briskHistory : List Visit :=
  [(1000, .check), (1000, .consume 200), (1000, .consume 404), (1500, .consume 200),
    (2000, .check), (2000, .consume 503), (2000, .consume 200), (2000, .purge)]

/-- The bound is met exactly. -/
theorem spent_briskHistory :
    Timely briskAccount.policy briskHistory ∧
      firstTouch? briskAccount.policy briskHistory = some 1000 ∧
      Store.empty.spent briskAccount briskHistory = 4 ∧
      Store.empty.spent briskAccount briskHistory ≤ 3 + (2000 - 1000) * 60 / 60000 := by
  have htimely : Timely briskAccount.policy briskHistory := ⟨by decide +kernel, by decide +kernel⟩
  have h0 : firstTouch? briskAccount.policy briskHistory = some 1000 := by decide +kernel
  refine ⟨htimely, h0, by decide +kernel, ?_⟩
  exact spent_le_capacity_add_earned briskAccount (by decide +kernel) .empty rfl briskHistory
    htimely (by decide +kernel) h0 (t := 2000) (by decide +kernel)

end Admission.Bucket
