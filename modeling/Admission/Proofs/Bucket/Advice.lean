import Admission.Proofs.Bucket.NextToken
import Admission.Proofs.Bucket.Polling

/-! # What a denied caller is told

A caller that is denied is told how many seconds to wait. They are counted from the second in which
it asks to the one in which its next token comes, as if both began on the full second. So the wait
can end before the token is there, but never by more than a second. -/

namespace Admission

theorem Policy.tokenMs_le_bucketTtl (policy : Policy) :
    policy.tokenMs ≤ policy.bucketTtl.millis := by
  have hcapacity := policy.capacity_pos
  have httl := policy.two_mul_capacity_le_earned_bucketTtl
  rw [UInt32.lt_iff_toNat_lt, UInt32.toNat_zero] at hcapacity
  rw [Policy.tokenMs, ← Bucket.earned_pos_iff _ policy.refillPerMinute_toNat_pos]
  omega

namespace Bucket

/-! ## The seconds of the wait -/

/-- The seconds that a denied caller is told to wait at a reading. -/
def Status.toldSecs (status : Status) (nowMs : UInt64) : Nat :=
  (retryAfterSecs status.resetAt (nowMs / 1000)).toNat

theorem toldSecs_ofState (policy : Policy) (s : State) (nowMs : UInt64) :
    (Status.ofState policy s).toldSecs nowMs =
      max (s.lastRefillMs.toNat / 1000 + policy.secondsPerToken.toNat - nowMs.toNat / 1000) 1 := by
  rw [Status.toldSecs, retryAfterSecs, toNat_max64, Word.toNat_subClamped, toNat_resetAt,
    UInt64.toNat_div]
  rfl

/-- Whether the wait ends before the next token: the reported second has not begun, and the clock is
less far into its second than it was at the last refill, by more than the seconds of a token are
longer than its milliseconds. -/
def State.ToldShort (policy : Policy) (s : State) (nowMs : UInt64) : Prop :=
  nowMs.toNat / 1000 < s.lastRefillMs.toNat / 1000 + policy.secondsPerToken.toNat ∧
    1000 * policy.secondsPerToken.toNat + nowMs.toNat % 1000 <
      policy.tokenMs + s.lastRefillMs.toNat % 1000

instance (policy : Policy) (s : State) (nowMs : UInt64) : Decidable (s.ToldShort policy nowMs) :=
  inferInstanceAs (Decidable (_ ∧ _))

section Told

variable {policy : Policy} {s : State} {nowMs : UInt64}

theorem toldShort_iff : s.ToldShort policy nowMs ↔
    nowMs.toNat + 1000 * (Status.ofState policy s).toldSecs nowMs < s.nextTokenMs policy := by
  have hlong := policy.tokenMs_le_mul_secondsPerToken
  rw [toldSecs_ofState, State.nextTokenMs, State.ToldShort]
  omega

/-- A second more than told is always enough. -/
theorem nextTokenMs_le_add_toldSecs :
    s.nextTokenMs policy ≤ nowMs.toNat + 1000 * ((Status.ofState policy s).toldSecs nowMs + 1) := by
  have hlong := policy.tokenMs_le_mul_secondsPerToken
  rw [toldSecs_ofState, State.nextTokenMs]
  omega

/-- The wait is long enough if the clock stands no less far in its second than it did at the last
refill. -/
theorem not_toldShort_of_phase_le (h : s.lastRefillMs.toNat % 1000 ≤ nowMs.toNat % 1000) :
    ¬ s.ToldShort policy nowMs := by
  have hlong := policy.tokenMs_le_mul_secondsPerToken
  rw [State.ToldShort]
  omega

/-- At sixty tokens a minute or more the wait is always long enough. -/
theorem not_toldShort_of_sixty_le (hrate : 60 ≤ policy.refillPerMinute.toNat)
    (hlast : s.lastRefillMs ≤ nowMs) : ¬ s.ToldShort policy nowMs := by
  have hlong := policy.tokenMs_le_mul_secondsPerToken
  have hsecs : policy.secondsPerToken.toNat ≤ 1 := by
    rw [Policy.toNat_secondsPerToken, ceilDiv_le_iff_le_mul policy.refillPerMinute_toNat_pos]
    omega
  rw [UInt64.le_iff_toNat_le] at hlast
  rw [State.ToldShort]
  omega

end Told

/-! ## The bucket of a denied caller -/

namespace Store

variable {account : Account} {s : Store} {nowMs t : UInt64}

theorem allowed_of_tokens_pos (h : 0 < (s.checked account t).tokens) :
    (s.status account t).allowed = true := by
  by_contra hdenied
  rw [Status.tokens_eq_zero_of_allowed_eq_false (Bool.eq_false_iff.mpr hdenied)] at h
  exact absurd h (by decide)

theorem denied_of_tokens_eq_zero (h : (s.checked account t).tokens = 0) :
    (s.status account t).allowed = false := by
  by_contra hallowed
  exact Status.tokens_ne_zero_of_allowed (Bool.not_eq_false _ ▸ hallowed) h

/-- A check that finds a live bucket before its next token only puts a count above the capacity
right. -/
theorem checked_of_lt_nextTokenMs {state : State} (hlive : s.live? account.key nowMs = some state)
    (h : nowMs.toNat < state.nextTokenMs account.policy) :
    s.checked account nowMs =
      { state with tokens := min state.tokens account.policy.capacity } := by
  rw [checked_eq, hlive, refill_of_earned_eq_zero ((earned_eq_zero_iff _ _ _).mpr h)]

/-- A check that is denied leaves the bucket empty, and comes before its next token. -/
theorem checked_of_denied (hdenied : (s.status account nowMs).allowed = false) :
    (s.checked account nowMs).tokens = 0 ∧
      nowMs.toNat < (s.checked account nowMs).nextTokenMs account.policy ∧
      ∃ state, s.live? account.key nowMs = some state ∧
        (s.checked account nowMs).lastRefillMs = state.lastRefillMs := by
  obtain ⟨state, hlive, -, hzero⟩ := of_denied hdenied
  have hnext := (earned_eq_zero_iff account.policy state nowMs).mp hzero
  have hchecked := checked_of_lt_nextTokenMs hlive hnext
  refine ⟨Status.tokens_eq_zero_of_allowed_eq_false hdenied, ?_, state, hlive, ?_⟩
  · rw [hchecked]
    exact hnext
  · rw [hchecked]

/-- From the time of the next token on a check lets through, whatever was done meanwhile that
charges nothing. -/
theorem allowed_of_nextTokenMs_le {meanwhile : List Visit} (hwithin : Within nowMs t meanwhile)
    (hfree : ∀ v ∈ meanwhile, v.2.cost account.policy = 0)
    (hnext : (s.checked account nowMs).nextTokenMs account.policy ≤ t.toNat) :
    (((s.visit account (nowMs, .check)).follow account meanwhile).status account t).allowed =
      true := by
  have hcapacity := account.policy.capacity_pos
  apply allowed_of_tokens_pos
  refine UInt32.lt_of_lt_of_le ?_ (tokens_le_of_uncharged _ hwithin hfree)
  rw [show (s.visit account (nowMs, .check)).live? account.key nowMs = _ from
    s.live?_mutate account.key nowMs nowMs _ _]
  split
  · have hearned := earned_eq_zero_iff account.policy (s.checked account nowMs) t
    rw [← checked_eq, UInt32.lt_iff_toNat_lt, toNat_tokens_refill]
    rw [UInt32.lt_iff_toNat_lt] at hcapacity
    simp only [UInt32.toNat_zero] at hcapacity ⊢
    omega
  · exact hcapacity

/-- The bucket is empty, earns no token up to `t` and is kept beyond it. -/
def Starves (account : Account) (t : UInt64) (s : Store) : Prop :=
  ∃ e, s.entries.get? account.key.text = some e ∧ t < e.expiresMs ∧ e.state.tokens = 0 ∧
    t.toNat < e.state.nextTokenMs account.policy

namespace Starves

/-- A check until then leaves it so. -/
theorem checked (h : s.Starves account t) (hle : nowMs ≤ t) :
    (s.checked account nowMs).tokens = 0 ∧
      t.toNat < (s.checked account nowMs).nextTokenMs account.policy := by
  obtain ⟨e, hkept, hexpires, hempty, hnext⟩ := h
  have hlive : s.live? account.key nowMs = some e.state := by
    rw [live?_of_get? hkept, if_pos (UInt64.lt_of_le_of_lt hle hexpires)]
  rw [UInt64.le_iff_toNat_le] at hle
  rw [checked_of_lt_nextTokenMs hlive (hle.trans_lt hnext)]
  refine ⟨?_, hnext⟩
  rw [← UInt32.toNat_inj, toNat_min32, hempty]
  exact Nat.zero_min _

theorem visit {v : Visit} (h : s.Starves account t) (hle : v.1 ≤ t)
    (hkept : t < Word.addClamped v.1 account.policy.bucketTtl.millisWord)
    (hfree : v.2.cost account.policy = 0) (hreset : v.2 ≠ .reset) :
    (s.visit account v).Starves account t := by
  obtain ⟨nowMs, use⟩ := v
  cases use with
  | check =>
      obtain ⟨hempty, hnext⟩ := h.checked hle
      exact ⟨_, get?_visit_check account s nowMs, hkept, hempty, hnext⟩
  | consume status =>
      have hcost : account.policy.cost status = 0 := UInt32.toNat_inj.mp hfree
      simpa only [Store.visit, if_pos hcost] using h
  | reset => exact absurd rfl hreset
  | purge =>
      obtain ⟨e, he, hexpires, hrest⟩ := h
      refine ⟨e, ?_, hexpires, hrest⟩
      have hlive : nowMs < e.expiresMs := UInt64.lt_of_le_of_lt hle hexpires
      simp [Store.visit, purgeExpired, Table.get?_filter, he, Option.filter, hlive]

theorem follow {meanwhile : List Visit} (h : s.Starves account t)
    (hwithin : Within nowMs t meanwhile)
    (hkept : ∀ v ∈ meanwhile, t < Word.addClamped v.1 account.policy.bucketTtl.millisWord)
    (hfree : ∀ v ∈ meanwhile, v.2.cost account.policy = 0)
    (hreset : ∀ v ∈ meanwhile, v.2 ≠ .reset) :
    (s.follow account meanwhile).Starves account t :=
  follow_induction account (P := fun s _ => s.Starves account t) h hwithin
    (fun _ _ _ _ h => h)
    fun _ v hv h => h.visit (hwithin.upTo v hv) (hkept v hv) (hfree v hv) (hreset v hv)

theorem denied (h : s.Starves account t) : (s.status account t).allowed = false :=
  denied_of_tokens_eq_zero (h.checked (UInt64.le_refl t)).1

end Starves

/-! ## Waiting as told -/

/-- What was credited last to a live bucket was credited in the past. -/
theorem lastRefillMs_le_of_live {state : State} (habsent : s.entries.get? account.key.text = none)
    {history : List Visit} (hwithin : Within 0 t history)
    (hlive : (s.follow account history).live? account.key t = some state) :
    state.lastRefillMs ≤ t := by
  have hstart : s.Backs account none 0 := Backs.of_absent habsent
  have hbacks := hstart.follow hwithin.ordered hwithin.since hwithin.le hwithin.upTo
  exact (hbacks t (UInt64.le_refl t) state hlive).1

/-- A bucket that a denied check finds before its next token is kept until then. -/
theorem lt_expiresMs_of_lt_nextTokenMs {policy : Policy} {state : State} {u : UInt64}
    (hfits : nowMs.toNat + policy.bucketTtl.millis < UInt64.size)
    (hlast : state.lastRefillMs ≤ nowMs) (hnow : nowMs ≤ u)
    (h : t.toNat < state.nextTokenMs policy) :
    t < Word.addClamped u policy.bucketTtl.millisWord := by
  have htoken := policy.tokenMs_le_bucketTtl
  rw [UInt64.le_iff_toNat_le] at hlast hnow
  rw [State.nextTokenMs] at h
  rw [UInt64.lt_iff_toNat_lt, Word.toNat_addClamped, Span.millisWord, Word.toNat_ofNatClamp]
  simp only [UInt64.size] at hfits ⊢
  omega

/-- Nothing being charged meanwhile, a denied caller is let through a second after the time that it
was told, and at that time already unless it was told short. If it was, it is denied again. -/
theorem allowed_after_wait (account : Account) (s : Store)
    (habsent : s.entries.get? account.key.text = none) (history meanwhile : List Visit)
    (nowMs t : UInt64) (hhistory : Within 0 nowMs history)
    (hmeanwhile : Within nowMs t meanwhile)
    (hfree : ∀ v ∈ meanwhile, v.2.cost account.policy = 0)
    (hdenied : ((s.follow account history).status account nowMs).allowed = false) :
    let denied := s.follow account history
    let told := (denied.status account nowMs).toldSecs nowMs
    let short := (denied.checked account nowMs).ToldShort account.policy nowMs
    let later := s.follow account (history ++ (nowMs, .check) :: meanwhile)
    (nowMs.toNat + 1000 * (told + 1) ≤ t.toNat → (later.status account t).allowed = true) ∧
      (nowMs.toNat + 1000 * told ≤ t.toNat → ¬ short →
        (later.status account t).allowed = true) ∧
      (nowMs.toNat + 1000 * told = t.toNat → short →
        nowMs.toNat + account.policy.bucketTtl.millis < UInt64.size →
        (∀ v ∈ meanwhile, v.2 ≠ .reset) → (later.status account t).allowed = false) := by
  intro denied told short later
  have hlater : later =
      (denied.visit account (nowMs, .check)).follow account meanwhile :=
    follow_append account s history _
  have hallowed : (denied.checked account nowMs).nextTokenMs account.policy ≤ t.toNat →
      (later.status account t).allowed = true := by
    intro hnext
    rw [hlater]
    exact allowed_of_nextTokenMs_le hmeanwhile hfree hnext
  have hshort : short ↔ nowMs.toNat + 1000 * told <
      (denied.checked account nowMs).nextTokenMs account.policy := toldShort_iff
  refine ⟨fun hwait => ?_, fun hwait hlong => ?_, fun hwait hearly hfits hreset => ?_⟩
  · exact hallowed (nextTokenMs_le_add_toldSecs.trans hwait)
  · exact hallowed ((Nat.le_of_not_lt (hshort.not.mp hlong)).trans hwait)
  · obtain ⟨hempty, -, state, hlive, hsame⟩ := checked_of_denied hdenied
    have hpast : (denied.checked account nowMs).lastRefillMs ≤ nowMs := by
      rw [hsame]
      exact lastRefillMs_le_of_live habsent hhistory hlive
    have hnext := hwait ▸ hshort.mp hearly
    have hkept : ∀ u, nowMs ≤ u →
        t < Word.addClamped u account.policy.bucketTtl.millisWord :=
      fun u hu => lt_expiresMs_of_lt_nextTokenMs hfits hpast hu hnext
    have hstarves : (denied.visit account (nowMs, .check)).Starves account t :=
      ⟨_, get?_visit_check account denied nowMs, hkept nowMs (UInt64.le_refl _), hempty, hnext⟩
    rw [hlater]
    exact (hstarves.follow hmeanwhile (fun v hv => hkept v.1 (hmeanwhile.since v hv)) hfree
      hreset).denied

theorem half_refillPerMinute_pos : 0 < (30 : UInt32) := by decide

theorem half_capacity_pos : 0 < (1 : UInt32) := by decide

/-- A single token, which comes back after two seconds. -/
def halfAccount : Account where
  policy := {
    name := "HALF"
    refillPerMinute := 30
    capacity := 1
    refillPerMinute_pos := half_refillPerMinute_pos
    capacity_pos := half_capacity_pos }
  identifier := "caller"

/-- The charge that makes the bucket takes its token, at the very end of a second. -/
def halfHistory : List Visit := [(999, .consume 200)]

/-- The caller is denied just after that second is over and told to wait for one more. Then it is
denied again, whether it has checked meanwhile or not, and let through a second later. Had it asked
at the end of its second, one second would have been enough. -/
theorem allowed_after_wait_halfHistory :
    let denied := Store.empty.follow halfAccount halfHistory
    let later := Store.empty.follow halfAccount
      (halfHistory ++ [(1000, .check), (1500, .check), (1700, .purge)])
    (denied.status halfAccount 1000).allowed = false ∧
      (denied.status halfAccount 1000).toldSecs 1000 = 1 ∧
      (later.status halfAccount 2000).allowed = false ∧
      (later.status halfAccount 3000).allowed = true ∧
      (denied.status halfAccount 1999).toldSecs 1999 = 1 ∧
      ((denied.visit halfAccount (1999, .check)).status halfAccount 2999).allowed = true := by
  intro denied later
  have hdenied : (denied.status halfAccount 1000).allowed = false := by decide +kernel
  have htold : (denied.status halfAccount 1000).toldSecs 1000 = 1 := by decide +kernel
  have htold' : (denied.status halfAccount 1999).toldSecs 1999 = 1 := by decide +kernel
  have hfree : ∀ v ∈ [((1500 : UInt64), Use.check), (1700, .purge)],
      v.2.cost halfAccount.policy = 0 := by decide +kernel
  obtain ⟨-, -, hagain⟩ := allowed_after_wait halfAccount .empty rfl halfHistory
    [(1500, .check), (1700, .purge)] 1000 2000 (by decide) (by decide) hfree hdenied
  obtain ⟨hthen, -, -⟩ := allowed_after_wait halfAccount .empty rfl halfHistory
    [(1500, .check), (1700, .purge)] 1000 3000 (by decide) (by decide) hfree hdenied
  obtain ⟨-, hlong, -⟩ := allowed_after_wait halfAccount .empty rfl halfHistory [] 1999 2999
    (by decide) (by decide) (by simp) (by decide +kernel)
  refine ⟨hdenied, htold, ?_, ?_, htold', ?_⟩
  · exact hagain (by decide +kernel) (by decide +kernel) (by decide +kernel) (by decide +kernel)
  · exact hthen (by decide +kernel)
  · exact hlong (by decide +kernel) (by decide +kernel)

/-- A wait as long as told is not always enough, even if nothing at all is done meanwhile. -/
theorem denied_after_wait_halfHistory :
    let denied := Store.empty.follow halfAccount halfHistory
    let told := (denied.status halfAccount 1000).toldSecs 1000
    (denied.status halfAccount 1000).allowed = false ∧ 1000 + 1000 * told = 2000 ∧
      ((denied.visit halfAccount (1000, .check)).status halfAccount 2000).allowed = false := by
  decide +kernel

end Store

end Bucket

end Admission
