import Admission.Proofs.Bucket.Expiry
import Admission.Proofs.Bucket.History

/-! # What a denial says about the charges

From the last time on at which a bucket was full, tokens are only lost to charges: no rounding of a
refill and no expiry takes one away. So a caller that is denied has been charged for all that the
bucket held then and has earned since. This holds at every rate. -/

namespace Admission.Bucket

def Use.cost (policy : Policy) : Use → Nat
  | .consume status => (policy.cost status).toNat
  | _ => 0

/-- When a bucket was last put at full capacity, and what was charged from then on. -/
structure Tally where
  filledMs : UInt64
  charged : Nat
deriving DecidableEq, Repr

def Tally.charge (tally : Tally) (cost : Nat) : Tally :=
  { tally with charged := tally.charged + cost }

/-- Whether a refill of a live bucket fills it up. -/
def State.fillsUp (s : State) (policy : Policy) (nowMs : UInt64) : Bool :=
  let owed := earned (nowMs.toNat - s.lastRefillMs.toNat) policy.refillPerMinute.toNat
  0 < owed && policy.capacity.toNat ≤ min s.tokens.toNat policy.capacity.toNat + owed

namespace Store

variable (account : Account)

/-- Whether a visit puts the bucket at full capacity: it makes the bucket, for the first time or after
it has expired, it resets it, or it credits it up to the capacity. -/
def fills (s : Store) (v : Visit) : Bool :=
  match v.2 with
  | .check => ((s.live? account.key v.1).map (·.fillsUp account.policy v.1)).getD true
  | .consume status => account.policy.cost status != 0 && (s.live? account.key v.1).isNone
  | .reset => true
  | .purge => false

/-- The tally after a visit: it starts over when the bucket is put at full capacity. -/
def tallyAfter (s : Store) (tally : Option Tally) (v : Visit) : Option Tally :=
  if s.fills account v then some ⟨v.1, v.2.cost account.policy⟩
  else tally.map (·.charge (v.2.cost account.policy))

def tally (s : Store) (start : Option Tally) : List Visit → Option Tally
  | [] => start
  | v :: history => (s.visit account v).tally (s.tallyAfter account start v) history

end Store

theorem refill_of_fillsUp {s : State} {policy : Policy} {nowMs : UInt64}
    (h : s.fillsUp policy nowMs = true) :
    refill (some s) policy.capacity policy.refillPerMinute nowMs =
      .full policy.capacity nowMs := by
  simp only [State.fillsUp, Bool.and_eq_true, decide_eq_true_eq] at h
  exact refill_of_capacity_le h.1 h.2

/-! ## A bucket that has lost nothing -/

/-- What a bucket held when it was last full, and has earned up to its last refill, is still there or
has been charged. Counted in parts of which 60000 make a token, since the milliseconds of a refill
stand for no more than the tokens that it credits. -/
structure Backed (policy : Policy) (tally : Tally) (s : State) : Prop where
  since : tally.filledMs ≤ s.lastRefillMs
  bound : 60000 * policy.capacity.toNat +
      (s.lastRefillMs.toNat - tally.filledMs.toNat) * policy.refillPerMinute.toNat ≤
    60000 * (min s.tokens.toNat policy.capacity.toNat + tally.charged)

namespace Backed

variable {policy : Policy} {tally : Tally} {s : State} {nowMs : UInt64}

theorem full (policy : Policy) (nowMs : UInt64) (charged : Nat) :
    Backed policy ⟨nowMs, charged⟩ (.full policy.capacity nowMs) where
  since := UInt64.le_refl nowMs
  bound := by
    simp only [State.full, Nat.min_self, Nat.sub_self, Nat.zero_mul]
    omega

theorem refill (h : Backed policy tally s) (hfills : s.fillsUp policy nowMs = false) :
    Backed policy tally
      (Bucket.refill (some s) policy.capacity policy.refillPerMinute nowMs) := by
  have hsince := h.since
  have hbound := h.bound
  rcases Nat.eq_zero_or_pos
    (earned (nowMs.toNat - s.lastRefillMs.toNat) policy.refillPerMinute.toNat) with hzero | hpos
  · rw [refill_of_earned_eq_zero hzero]
    refine ⟨hsince, ?_⟩
    simp only [toNat_min32]
    omega
  · have hlt : min s.tokens.toNat policy.capacity.toNat +
        earned (nowMs.toNat - s.lastRefillMs.toNat) policy.refillPerMinute.toNat <
          policy.capacity.toNat := by
      simpa [State.fillsUp, hpos] using hfills
    obtain ⟨htokens, hlast⟩ := refill_of_lt_capacity hpos hlt
    rw [UInt64.le_iff_toNat_le] at hsince
    refine ⟨?_, ?_⟩
    · rw [UInt64.le_iff_toNat_le, hlast]
      exact hsince.trans (Nat.le_add_right _ _)
    · have hmillis := Nat.div_mul_le_self
        (earned (nowMs.toNat - s.lastRefillMs.toNat) policy.refillPerMinute.toNat * 60000)
        policy.refillPerMinute.toNat
      rw [htokens, hlast, Nat.sub_add_comm hsince, Nat.add_mul]
      omega

theorem deduct (h : Backed policy tally s) (cost : UInt32) (nowMs : UInt64) :
    Backed policy (tally.charge cost.toNat)
      (Bucket.deduct (some s) policy.capacity cost nowMs) := by
  have hbound := h.bound
  refine ⟨h.since, ?_⟩
  rw [lastRefillMs_deduct, toNat_tokens_deduct]
  simp only [Option.getD_some, Tally.charge]
  omega

/-- An empty bucket that has earned no token since its last refill was charged for everything. -/
theorem charged_of_empty (h : Backed policy tally s) (hle : s.lastRefillMs ≤ nowMs)
    (hempty : min s.tokens.toNat policy.capacity.toNat = 0)
    (hzero : earned (nowMs.toNat - s.lastRefillMs.toNat) policy.refillPerMinute.toNat = 0) :
    policy.capacity.toNat +
      earned (nowMs.toNat - tally.filledMs.toNat) policy.refillPerMinute.toNat ≤ tally.charged := by
  have hsince := h.since
  have hbound := h.bound
  rw [UInt64.le_iff_toNat_le] at hsince hle
  have hrest : (nowMs.toNat - s.lastRefillMs.toNat) * policy.refillPerMinute.toNat < 60000 := by
    simpa [earned] using hzero
  have htime : nowMs.toNat - tally.filledMs.toNat =
      (s.lastRefillMs.toNat - tally.filledMs.toNat) + (nowMs.toNat - s.lastRefillMs.toNat) := by
    omega
  rw [hempty, Nat.zero_add] at hbound
  rw [earned, htime, Nat.add_mul]
  omega

end Backed

/-! ## A store that has lost nothing -/

/-- Whatever is live of the bucket from a reading on is backed by the tally. -/
def Store.Backs (account : Account) (tally : Option Tally) (s : Store) (nowMs : UInt64) : Prop :=
  ∀ t, nowMs ≤ t → ∀ state, s.live? account.key t = some state →
    state.lastRefillMs ≤ t ∧ ∃ y, tally = some y ∧ Backed account.policy y state

namespace Store.Backs

variable {account : Account} {tally : Option Tally} {s : Store} {nowMs : UInt64}

theorem of_absent (h : s.entries.get? account.key.text = none) : s.Backs account tally nowMs := by
  intro t _ state hlive
  simp [live?, h] at hlive

theorem later {t : UInt64} (h : s.Backs account tally nowMs) (ht : nowMs ≤ t) :
    s.Backs account tally t :=
  fun u hu => h u (UInt64.le_trans ht hu)

theorem of_mutate {f : Option State → State} {y : Tally} {ttl : Span} {prior : Option State}
    (hprior : s.live? account.key nowMs = prior) (hlast : (f prior).lastRefillMs ≤ nowMs)
    (hbacked : Backed account.policy y (f prior)) :
    (s.mutate account.key nowMs ttl f).2.Backs account (some y) nowMs := by
  intro t ht state hlive
  rw [live?_mutate, hprior] at hlive
  split at hlive
  · cases hlive
    exact ⟨UInt64.le_trans hlast ht, y, rfl, hbacked⟩
  · cases hlive

theorem check (h : s.Backs account tally nowMs) :
    (s.visit account (nowMs, .check)).Backs account
      (s.tallyAfter account tally (nowMs, .check)) nowMs := by
  cases hlive : s.live? account.key nowMs with
  | none =>
      simp only [tallyAfter, fills, hlive, Option.map_none, Option.getD_none, if_true]
      exact of_mutate hlive (UInt64.le_refl nowMs) (.full _ _ _)
  | some state =>
      obtain ⟨hlast, y, rfl, hbacked⟩ := h nowMs (UInt64.le_refl _) state hlive
      simp only [tallyAfter, fills, hlive, Option.map_some, Option.getD_some]
      by_cases hfills : state.fillsUp account.policy nowMs = true
      · have hrefill := refill_of_fillsUp hfills
        rw [if_pos hfills]
        apply of_mutate hlive
        · rw [hrefill]
          exact UInt64.le_refl nowMs
        · rw [hrefill]
          exact .full _ _ _
      · rw [if_neg hfills]
        exact of_mutate hlive (lastRefillMs_refill_le hlast)
          (hbacked.refill (Bool.eq_false_iff.mpr hfills))

theorem visit_consume (s : Store) {status : UInt16} (h : account.policy.cost status ≠ 0) :
    s.visit account (nowMs, .consume status) =
      (s.mutate account.key nowMs account.policy.bucketTtl fun prior =>
        Bucket.deduct prior account.policy.capacity (account.policy.cost status) nowMs).2 := by
  simp only [Store.visit, if_neg h]
  rfl

theorem consume (h : s.Backs account tally nowMs) (status : UInt16) :
    (s.visit account (nowMs, .consume status)).Backs account
      (s.tallyAfter account tally (nowMs, .consume status)) nowMs := by
  by_cases hcost : account.policy.cost status = 0
  · have htally : s.tallyAfter account tally (nowMs, .consume status) = tally := by
      cases tally <;> simp [tallyAfter, fills, hcost, Use.cost, Tally.charge]
    rw [htally]
    simpa only [visit, if_pos hcost] using h
  · rw [visit_consume s hcost]
    cases hlive : s.live? account.key nowMs with
    | none =>
        -- The charge makes the bucket, and then takes its cost out of it.
        have htally : s.tallyAfter account tally (nowMs, .consume status) =
            some ⟨nowMs, (account.policy.cost status).toNat⟩ := by
          simp [tallyAfter, fills, hcost, hlive, Use.cost]
        have hbacked := (Backed.full account.policy nowMs 0).deduct
          (account.policy.cost status) nowMs
        rw [Tally.charge, Nat.zero_add] at hbacked
        rw [htally]
        exact of_mutate hlive (UInt64.le_refl nowMs) hbacked
    | some state =>
        obtain ⟨hlast, y, rfl, hbacked⟩ := h nowMs (UInt64.le_refl _) state hlive
        have htally : s.tallyAfter account (some y) (nowMs, .consume status) =
            some (y.charge (account.policy.cost status).toNat) := by
          simp [tallyAfter, fills, hlive, Use.cost]
        rw [htally]
        exact of_mutate hlive hlast (hbacked.deduct _ nowMs)

theorem reset :
    (s.visit account (nowMs, .reset)).Backs account
      (s.tallyAfter account tally (nowMs, .reset)) nowMs :=
  of_mutate (f := fun _ => .full account.policy.capacity nowMs) rfl (UInt64.le_refl nowMs)
    (.full _ _ _)

theorem purge (h : s.Backs account tally nowMs) :
    (s.visit account (nowMs, .purge)).Backs account
      (s.tallyAfter account tally (nowMs, .purge)) nowMs := by
  have htally : s.tallyAfter account tally (nowMs, .purge) = tally := by
    cases tally <;> simp [tallyAfter, fills, Use.cost, Tally.charge]
  intro t ht state hlive
  rw [visit, live?_purgeExpired s account.key ht] at hlive
  rw [htally]
  exact h t ht state hlive

/-- Each visit keeps a store that has lost nothing so. -/
theorem visit {v : Visit} (h : s.Backs account tally v.1) :
    (s.visit account v).Backs account (s.tallyAfter account tally v) v.1 := by
  obtain ⟨nowMs, use⟩ := v
  cases use with
  | check => exact h.check
  | consume status => exact h.consume status
  | reset => exact reset
  | purge => exact h.purge

/-- A whole history keeps it so. -/
theorem follow {history : List Visit} (h : s.Backs account tally nowMs)
    (hordered : history.Pairwise fun v w => v.1 ≤ w.1) (hnow : ∀ v ∈ history, nowMs ≤ v.1)
    {t : UInt64} (ht : nowMs ≤ t) (hlast : ∀ v ∈ history, v.1 ≤ t) :
    (s.follow account history).Backs account (s.tally account tally history) t := by
  induction history generalizing s tally nowMs with
  | nil => exact h.later ht
  | cons v history ih =>
      have hv := (h.later (hnow v (by simp))).visit
      exact ih hv hordered.tail (fun w hw => List.rel_of_pairwise_cons hordered hw)
        (hlast v (by simp)) (fun w hw => hlast w (by simp [hw]))

end Store.Backs

/-! ## Denials -/

theorem Store.tally_append (account : Account) (s : Store) (start : Option Tally)
    (history rest : List Visit) :
    s.tally account start (history ++ rest) =
      (s.follow account history).tally account (s.tally account start history) rest := by
  induction history generalizing s start with
  | nil => rfl
  | cons v history ih => exact ih _ _

/-- A check that is denied finds a live bucket without tokens, which has earned none. -/
theorem of_denied {policy : Policy} {prior : Option State} {nowMs : UInt64}
    (hdenied : (Status.ofState policy
      (refill prior policy.capacity policy.refillPerMinute nowMs)).allowed = false) :
    ∃ state, prior = some state ∧ min state.tokens.toNat policy.capacity.toNat = 0 ∧
      earned (nowMs.toNat - state.lastRefillMs.toNat) policy.refillPerMinute.toNat = 0 := by
  have hcapacity := policy.capacity_pos
  rw [UInt32.lt_iff_toNat_lt, UInt32.toNat_zero] at hcapacity
  have hnone : min (refill prior policy.capacity policy.refillPerMinute nowMs).tokens.toNat
      policy.capacity.toNat = 0 := by
    rw [Status.ofState, decide_eq_false_iff_not, UInt32.lt_iff_toNat_lt, UInt32.toNat_zero,
      toNat_min32] at hdenied
    omega
  cases prior with
  | none =>
      change min policy.capacity.toNat policy.capacity.toNat = 0 at hnone
      omega
  | some state =>
      rw [toNat_tokens_refill] at hnone
      exact ⟨state, rfl, by omega, by omega⟩

/-- A caller that is denied has been charged, since its bucket was last full, for the whole capacity
and for all that the time since then has earned. -/
theorem charged_of_denied (account : Account) (s : Store)
    (habsent : s.entries.get? account.key.text = none) (history : List Visit)
    (hordered : history.Pairwise fun v w => v.1 ≤ w.1)
    {t : UInt64} (ht : ∀ v ∈ history, v.1 ≤ t)
    (hdenied : (Status.ofState account.policy ((s.follow account history).answer
      (checkCall account.policy account.identifier t)).1).allowed = false) :
    ∃ y, s.tally account none (history ++ [(t, .check)]) = some y ∧
      account.policy.capacity.toNat +
        (t.toNat - y.filledMs.toNat) * account.policy.refillPerMinute.toNat / 60000 ≤
          y.charged := by
  obtain ⟨state, hlive, hempty, hzero⟩ := of_denied hdenied
  have hstart : s.Backs account none 0 := Store.Backs.of_absent habsent
  have hbacks := hstart.follow hordered (fun _ _ => UInt64.zero_le) UInt64.zero_le ht
  obtain ⟨hlast, y, htally, hbacked⟩ := hbacks t (UInt64.le_refl t) state hlive
  refine ⟨y, ?_, hbacked.charged_of_empty hlast hempty hzero⟩
  -- The denied check puts nothing into the bucket.
  have hfills : (s.follow account history).fills account (t, .check) = false := by
    change (((s.follow account history).live? account.key t).map _).getD true = false
    rw [show (s.follow account history).live? account.key t = some state from hlive]
    simp [State.fillsUp, hzero]
  rw [Store.tally_append, htally]
  simp [Store.tally, Store.tallyAfter, hfills, Use.cost, Tally.charge]

theorem slow_refillPerMinute_pos : 0 < (7 : UInt32) := by decide

theorem slow_capacity_pos : 0 < (2 : UInt32) := by decide

/-- Two tokens, and seven more in a minute. -/
def slowAccount : Account where
  policy := {
    name := "SLOW"
    refillPerMinute := 7
    capacity := 2
    refillPerMinute_pos := slow_refillPerMinute_pos
    capacity_pos := slow_capacity_pos }
  identifier := "caller"

/-- The first check fills the bucket up again. Of the three charges that follow, the last one takes a
token that came meanwhile. -/
def slowHistory : List Visit :=
  [(0, .consume 200), (8572, .check), (9000, .consume 200), (9000, .consume 404),
    (17144, .check), (17144, .purge), (17144, .consume 200), (20000, .consume 503)]

/-- The bound is met exactly: two tokens, and one that was earned in two token times less a
millisecond. -/
theorem charged_of_denied_slowHistory :
    (Status.ofState slowAccount.policy ((Store.empty.follow slowAccount slowHistory).answer
        (checkCall slowAccount.policy slowAccount.identifier 25714)).1).allowed = false ∧
      Store.empty.tally slowAccount none (slowHistory ++ [(25714, .check)]) = some ⟨8572, 3⟩ ∧
      2 + (25714 - 8572) * 7 / 60000 ≤ 3 := by
  have hordered : slowHistory.Pairwise fun v w => v.1 ≤ w.1 := by decide +kernel
  have hlast : ∀ v ∈ slowHistory, v.1 ≤ 25714 := by decide +kernel
  have hdenied : (Status.ofState slowAccount.policy
      ((Store.empty.follow slowAccount slowHistory).answer
        (checkCall slowAccount.policy slowAccount.identifier 25714)).1).allowed = false := by
    decide +kernel
  have htally : Store.empty.tally slowAccount none (slowHistory ++ [(25714, .check)]) =
      some ⟨8572, 3⟩ := by decide +kernel
  obtain ⟨y, hy, hcharged⟩ := charged_of_denied slowAccount .empty rfl slowHistory hordered hlast
    hdenied
  obtain rfl : ⟨8572, 3⟩ = y := Option.some_inj.mp (htally.symm.trans hy)
  exact ⟨hdenied, htally, hcharged⟩

end Admission.Bucket
