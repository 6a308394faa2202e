import Admission.Proofs.Bucket.Expiry
import Admission.Proofs.Bucket.History

/-! # Checking again at once

A refill moves the time of the last refill on by whole milliseconds, rounded down. What it leaves can
add up to another token, which a refill at the same instant then credits. -/

namespace Admission.Bucket

/-! ## What is left of a time -/

/-- What is left of a time after its tokens have been credited, in parts of which 60000 make a token:
the parts that are no whole token, and those by which the credited milliseconds fall short of the
tokens. -/
def leftover (ms rate : Nat) : Nat := ms * rate % 60000 + earned ms rate * 60000 % rate

theorem sub_credited_mul (ms : Nat) {rate : Nat} (hr : 0 < rate) :
    (ms - earned ms rate * 60000 / rate) * rate = leftover ms rate := by
  have htokens : 60000 * earned ms rate + ms * rate % 60000 = ms * rate :=
    Nat.div_add_mod (ms * rate) 60000
  have hmillis : earned ms rate * 60000 / rate * rate + earned ms rate * 60000 % rate =
      earned ms rate * 60000 := Nat.div_add_mod' _ _
  have hle : earned ms rate * 60000 / rate * rate ≤ ms * rate :=
    Nat.mul_le_mul_right _ (earned_mul_div_le ms hr)
  rw [Nat.sub_mul, leftover]
  omega

theorem earned_sub_credited (ms : Nat) {rate : Nat} (hr : 0 < rate) :
    earned (ms - earned ms rate * 60000 / rate) rate = leftover ms rate / 60000 := by
  rw [earned, sub_credited_mul ms hr]

theorem leftover_lt_of_earned_eq_zero {ms rate : Nat} (h : earned ms rate = 0) :
    leftover ms rate < 60000 := by
  rw [leftover, h, Nat.zero_mul, Nat.zero_mod]
  exact Nat.mod_lt _ (by decide)

/-- At a rate that divides a minute, tokens stand for whole milliseconds. -/
theorem leftover_lt_of_dvd {rate : Nat} (hdvd : rate ∣ 60000) (ms : Nat) :
    leftover ms rate < 60000 := by
  have hwhole : earned ms rate * 60000 % rate = 0 :=
    Nat.mod_eq_zero_of_dvd (hdvd.mul_left _)
  rw [leftover, hwhole]
  exact Nat.mod_lt _ (by decide)

/-! ## Refilling twice -/

/-- Whether a refill of a bucket leaves nothing owed: it fills the bucket up, or what is left over
makes no token. -/
def State.Settles (s : State) (capacity rate : UInt32) (nowMs : UInt64) : Prop :=
  capacity.toNat ≤ min s.tokens.toNat capacity.toNat +
      earned (nowMs.toNat - s.lastRefillMs.toNat) rate.toNat ∨
    leftover (nowMs.toNat - s.lastRefillMs.toNat) rate.toNat < 60000

instance (s : State) (capacity rate : UInt32) (nowMs : UInt64) :
    Decidable (s.Settles capacity rate nowMs) :=
  inferInstanceAs (Decidable (_ ∨ _))

section Twice

variable {s : State} {capacity rate : UInt32} {nowMs : UInt64}

/-- The time that a partly filled bucket has left earns what is left over. -/
theorem earned_of_lt_capacity
    (hpos : 0 < earned (nowMs.toNat - s.lastRefillMs.toNat) rate.toNat)
    (h : min s.tokens.toNat capacity.toNat +
      earned (nowMs.toNat - s.lastRefillMs.toNat) rate.toNat < capacity.toNat) :
    earned (nowMs.toNat - (refill (some s) capacity rate nowMs).lastRefillMs.toNat) rate.toNat =
      leftover (nowMs.toNat - s.lastRefillMs.toNat) rate.toNat / 60000 := by
  rw [(refill_of_lt_capacity hpos h).2, ← Nat.sub_sub,
    earned_sub_credited _ (rate_pos_of_earned hpos)]

theorem refill_refill_some_eq_iff :
    refill (some (refill (some s) capacity rate nowMs)) capacity rate nowMs =
      refill (some s) capacity rate nowMs ↔ s.Settles capacity rate nowMs := by
  rcases Nat.eq_zero_or_pos (earned (nowMs.toNat - s.lastRefillMs.toNat) rate.toNat)
    with hzero | hpos
  · refine iff_of_true ?_ (.inr (leftover_lt_of_earned_eq_zero hzero))
    have hmin : min (min s.tokens capacity) capacity = min s.tokens capacity := by
      rw [← UInt32.toNat_inj, toNat_min32, toNat_min32]
      omega
    have htwice : refill (some { s with tokens := min s.tokens capacity }) capacity rate nowMs =
        { s with tokens := min (min s.tokens capacity) capacity } :=
      refill_of_earned_eq_zero hzero
    rw [refill_of_earned_eq_zero hzero, htwice, hmin]
  · by_cases hfull : capacity.toNat ≤ min s.tokens.toNat capacity.toNat +
        earned (nowMs.toNat - s.lastRefillMs.toNat) rate.toNat
    · refine iff_of_true ?_ (.inl hfull)
      rw [refill_of_capacity_le hpos hfull, ← refill_none]
      rfl
    · have hlt := Nat.lt_of_not_le hfull
      have hagain := earned_of_lt_capacity hpos hlt
      have htokens := (refill_of_lt_capacity hpos hlt).1
      have hcapacity : min (refill (some s) capacity rate nowMs).tokens capacity =
          (refill (some s) capacity rate nowMs).tokens := by
        rw [← UInt32.toNat_inj, toNat_min32]
        omega
      constructor
      · -- Were a token left over, the second refill would credit it.
        intro heq
        refine .inr (Nat.lt_of_not_le fun hmore => ?_)
        have hcredit : 0 < leftover (nowMs.toNat - s.lastRefillMs.toNat) rate.toNat / 60000 :=
          Nat.div_pos hmore (by decide)
        have htwice := congrArg (fun state : State => state.tokens.toNat) heq
        simp only [toNat_tokens_refill (refill (some s) capacity rate nowMs), hagain] at htwice
        omega
      · rintro (hle | hless)
        · exact absurd hle hfull
        · rw [Nat.div_eq_of_lt hless] at hagain
          rw [refill_of_earned_eq_zero hagain, hcapacity]

end Twice

/-- Whether a refill leaves nothing owed, also if the bucket is absent. -/
def Settles (policy : Policy) (prior : Option State) (nowMs : UInt64) : Prop :=
  ∀ s ∈ prior, s.Settles policy.capacity policy.refillPerMinute nowMs

theorem settles_none (policy : Policy) (nowMs : UInt64) : Settles policy none nowMs :=
  fun _ h => nomatch h

theorem refill_refill_eq_iff (policy : Policy) (prior : Option State) (nowMs : UInt64) :
    refill (some (refill prior policy.capacity policy.refillPerMinute nowMs)) policy.capacity
        policy.refillPerMinute nowMs =
      refill prior policy.capacity policy.refillPerMinute nowMs ↔ Settles policy prior nowMs := by
  cases prior with
  | none =>
      refine iff_of_true ?_ (settles_none policy nowMs)
      change refill (some (.full policy.capacity nowMs)) _ _ _ = .full policy.capacity nowMs
      rw [← refill_none]
      rfl
  | some s => simpa [Settles] using refill_refill_some_eq_iff

theorem settles_of_dvd {policy : Policy} (hdvd : policy.refillPerMinute.toNat ∣ 60000)
    (prior : Option State) (nowMs : UInt64) : Settles policy prior nowMs :=
  fun _ _ => .inr (leftover_lt_of_dvd hdvd _)

/-! ## Checking twice -/

namespace Store

variable (account : Account) (nowMs : UInt64)

/-- What checks report that follow each other at one reading, with nothing in between. -/
def checks (s : Store) : Nat → List Status
  | 0 => []
  | n + 1 =>
    let call := checkCall account.policy account.identifier nowMs
    .ofState account.policy (s.answer call).1 :: (s.answer call).2.checks n

/-- A reading at which a bucket just written has expired is the last one of all. -/
theorem live?_eq_none_of_addClamped_le (s : Store) (policy : Policy)
    (h : Word.addClamped nowMs policy.bucketTtl.millisWord ≤ nowMs) (key : Key) :
    s.live? key nowMs = none := by
  have hpos := policy.bucketTtl_millis_pos
  have hnow := nowMs.toNat_lt
  rw [UInt64.le_iff_toNat_le, Word.toNat_addClamped, Span.millisWord,
    Word.toNat_ofNatClamp] at h
  simp only [live?, Option.map_eq_none_iff, Option.filter_eq_none_iff, decide_eq_true_eq]
  intro e _ hlive
  have hexpires := e.expiresMs.toNat_lt
  rw [UInt64.lt_iff_toNat_lt] at hlive
  simp only [UInt64.size] at h
  omega

/-- A check that leaves nothing owed is followed by one that reports the same. -/
theorem answer_check_again (s : Store)
    (hsettles : Settles account.policy (s.live? account.key nowMs) nowMs) :
    let call := checkCall account.policy account.identifier nowMs
    ((s.answer call).2.answer call).1 = (s.answer call).1 ∧
      Settles account.policy ((s.answer call).2.live? account.key nowMs) nowMs := by
  intro call
  have hfix := (refill_refill_eq_iff account.policy _ nowMs).mpr hsettles
  have hlive : (s.answer call).2.live? account.key nowMs =
      if nowMs < Word.addClamped nowMs account.policy.bucketTtl.millisWord then
        some (s.answer call).1 else none :=
    live?_mutate s account.key nowMs nowMs account.policy.bucketTtl fun prior =>
      Bucket.refill prior account.policy.capacity account.policy.refillPerMinute nowMs
  change Bucket.refill ((s.answer call).2.live? account.key nowMs) _ _ _ = _ ∧ _
  by_cases hin : nowMs < Word.addClamped nowMs account.policy.bucketTtl.millisWord
  · rw [hlive, if_pos hin]
    refine ⟨hfix, (refill_refill_eq_iff account.policy _ nowMs).mp ?_⟩
    exact congrArg (fun s => Bucket.refill (some s) _ _ nowMs) hfix
  · have habsent := live?_eq_none_of_addClamped_le nowMs s account.policy
      (UInt64.not_lt.mp hin) account.key
    rw [hlive, if_neg hin]
    refine ⟨?_, settles_none _ _⟩
    change _ = Bucket.refill (s.live? account.key nowMs) _ _ nowMs
    rw [habsent]
    rfl

theorem checks_eq_replicate (n : Nat) (s : Store)
    (hsettles : Settles account.policy (s.live? account.key nowMs) nowMs) :
    s.checks account nowMs n = List.replicate n (.ofState account.policy
      (s.answer (checkCall account.policy account.identifier nowMs)).1) := by
  induction n generalizing s with
  | zero => rfl
  | succ n ih =>
      obtain ⟨hsame, hagain⟩ := answer_check_again account nowMs s hsettles
      rw [checks, ih _ hagain, hsame, List.replicate_succ]

end Store

/-! ## When checking again changes nothing -/

/-- A second refill at one instant changes nothing just if the first one leaves nothing owed. Then
any number of checks that follow each other report the same; and at rates that divide a minute it is
always so. -/
theorem refill_again_iff_settles (policy : Policy) :
    (∀ (prior : Option State) (nowMs : UInt64),
      refill (some (refill prior policy.capacity policy.refillPerMinute nowMs)) policy.capacity
          policy.refillPerMinute nowMs =
        refill prior policy.capacity policy.refillPerMinute nowMs ↔
          Settles policy prior nowMs) ∧
      (∀ (identifier : String) (s : Store) (nowMs : UInt64) (n : Nat),
        Settles policy (s.live? ⟨policy.name, identifier⟩ nowMs) nowMs →
          s.checks ⟨policy, identifier⟩ nowMs n = List.replicate n (.ofState policy
            (s.answer (checkCall policy identifier nowMs)).1)) ∧
      (policy.refillPerMinute.toNat ∣ 60000 → ∀ prior nowMs, Settles policy prior nowMs) :=
  ⟨refill_refill_eq_iff policy,
    fun identifier s nowMs n => s.checks_eq_replicate ⟨policy, identifier⟩ nowMs n,
    settles_of_dvd⟩

theorem seven_refillPerMinute_pos : 0 < (7 : UInt32) := by decide

theorem seven_capacity_pos : 0 < (50 : UInt32) := by decide

/-- Seven tokens in a minute, each of which takes a little more than 8571 milliseconds. -/
def sevenAMinute : Policy where
  name := "SEVEN"
  refillPerMinute := 7
  capacity := 50
  refillPerMinute_pos := seven_refillPerMinute_pos
  capacity_pos := seven_capacity_pos

/-- A store in which the first charge has emptied the caller's bucket. -/
def drained : Store := (Store.empty.answer (chargeCall sevenAMinute "caller" 50 0)).2

theorem refill_again_sevenAMinute :
    Settles sevenAMinute (some ⟨0, 0⟩) 25713 ∧
      refill (some (refill (some ⟨0, 0⟩) 50 7 25713)) 50 7 25713 =
        refill (some ⟨0, 0⟩) 50 7 25713 ∧
      drained.checks ⟨sevenAMinute, "caller"⟩ 25713 3 =
        List.replicate 3 (.ofState sevenAMinute ⟨2, 17142⟩) := by
  have hsettles : Settles sevenAMinute (some ⟨0, 0⟩) 25713 := by
    simp only [Settles, Option.mem_some_iff, forall_eq']
    decide +kernel
  have hlive : drained.live? ⟨"SEVEN", "caller"⟩ 25713 = some ⟨0, 0⟩ := by decide +kernel
  have hstate : (drained.answer (checkCall sevenAMinute "caller" 25713)).1 =
      (⟨2, 17142⟩ : State) := by
    change refill (drained.live? ⟨"SEVEN", "caller"⟩ 25713) 50 7 25713 = _
    rw [hlive]
    decide +kernel
  obtain ⟨hrefill, hchecks, -⟩ := refill_again_iff_settles sevenAMinute
  refine ⟨hsettles, (hrefill _ _).mpr hsettles, ?_⟩
  rw [← hstate]
  apply hchecks
  exact hlive ▸ hsettles

/-- After 25714 milliseconds two tokens are credited, and a third one in the same instant. -/
theorem not_forall_refill_again_eq :
    ¬ ∀ (policy : Policy) (prior : Option State) (nowMs : UInt64),
      refill (some (refill prior policy.capacity policy.refillPerMinute nowMs)) policy.capacity
          policy.refillPerMinute nowMs =
        refill prior policy.capacity policy.refillPerMinute nowMs := by
  intro h
  have hsame := h sevenAMinute (some ⟨0, 0⟩) 25714
  revert hsame
  decide +kernel

end Admission.Bucket
