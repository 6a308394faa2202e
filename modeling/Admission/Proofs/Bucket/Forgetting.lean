import Admission.Proofs.Bucket.Expiry
import Admission.Proofs.Bucket.History

/-! # Forgetting idle buckets

A bucket is forgotten when its time to live is over, and in that time it would have filled up. A
check that finds it gone makes a full one, and a check that found it would have filled it up at the
same reading: nobody can tell the two apart. -/

namespace Admission.Bucket

/-- A bucket that has had the time to fill up looks as if it were made anew. -/
theorem refill_eq_refill_none {s : State} {capacity rate : UInt32} {nowMs : UInt64}
    (hcapacity : 0 < capacity.toNat)
    (h : capacity.toNat ≤ earned (nowMs.toNat - s.lastRefillMs.toNat) rate.toNat) :
    refill (some s) capacity rate nowMs = refill none capacity rate nowMs :=
  refill_of_capacity_le (hcapacity.trans_le h) (h.trans (Nat.le_add_left _ _))

/-! ## What is kept, and for how long -/

/-- An entry that was last refilled in the past and is kept for at least the time to live from then
on. -/
structure Entry.KeptOn (policy : Policy) (nowMs : UInt64) (e : Entry) : Prop where
  past : e.state.lastRefillMs ≤ nowMs
  span : e.state.lastRefillMs.toNat + policy.bucketTtl.millis ≤ e.expiresMs.toNat

/-- By the time it has expired, such an entry would have filled up. -/
theorem Entry.KeptOn.refill_eq_refill_none {policy : Policy} {nowMs t : UInt64} {e : Entry}
    (h : e.KeptOn policy nowMs) (ht : e.expiresMs ≤ t) :
    refill (some e.state) policy.capacity policy.refillPerMinute t =
      refill none policy.capacity policy.refillPerMinute t := by
  have hcapacity := policy.capacity_pos
  have hspan := h.span
  rw [UInt32.lt_iff_toNat_lt, UInt32.toNat_zero] at hcapacity
  rw [UInt64.le_iff_toNat_le] at ht
  refine Bucket.refill_eq_refill_none hcapacity ?_
  calc policy.capacity.toNat
      ≤ 2 * policy.capacity.toNat := Nat.le_mul_of_pos_left _ Nat.two_pos
    _ ≤ earned policy.bucketTtl.millis policy.refillPerMinute.toNat :=
        policy.two_mul_capacity_le_earned_bucketTtl
    _ ≤ earned (t.toNat - e.state.lastRefillMs.toNat) policy.refillPerMinute.toNat :=
        earned_mono _ (by omega)

namespace Store

/-- Whatever is kept of the bucket of an account, live or expired, is kept long enough. -/
def KeepsOn (account : Account) (s : Store) (nowMs : UInt64) : Prop :=
  ∀ e, s.entries.get? account.key.text = some e → e.KeptOn account.policy nowMs

namespace KeepsOn

variable {account : Account} {s : Store} {nowMs : UInt64}

theorem of_absent (h : s.entries.get? account.key.text = none) : s.KeepsOn account nowMs := by
  intro e he
  rw [h] at he
  cases he

theorem later {t : UInt64} (h : s.KeepsOn account nowMs) (ht : nowMs ≤ t) :
    s.KeepsOn account t :=
  fun e he => ⟨UInt64.le_trans (h e he).past ht, (h e he).span⟩

theorem found_lastRefillMs_le (h : s.KeepsOn account nowMs) :
    (s.found account nowMs).lastRefillMs ≤ nowMs := by
  rw [found]
  cases hlive : s.live? account.key nowMs with
  | none => exact UInt64.le_refl nowMs
  | some state =>
      obtain ⟨e, he, rfl⟩ := Option.map_eq_some_iff.mp hlive
      exact (h e (Option.eq_some_of_filter_eq_some he)).past

theorem of_mutate {f : Option State → State}
    (hfits : nowMs.toNat + account.policy.bucketTtl.millis < UInt64.size)
    (hpast : (f (s.live? account.key nowMs)).lastRefillMs ≤ nowMs) :
    (s.mutate account.key nowMs account.policy.bucketTtl f).2.KeepsOn account nowMs := by
  intro e he
  rw [mutate, Table.get?_insert_self] at he
  cases he
  refine ⟨hpast, ?_⟩
  rw [UInt64.le_iff_toNat_le] at hpast
  simp only [Word.toNat_addClamped, Span.millisWord, Word.toNat_ofNatClamp]
  simp only [UInt64.size] at hfits ⊢
  omega

theorem purge (h : s.KeepsOn account nowMs) (t : UInt64) :
    (s.purgeExpired t).KeepsOn account nowMs := by
  intro e he
  rw [purgeExpired, Table.get?_filter] at he
  exact h e (Option.eq_some_of_filter_eq_some he)

/-- A visit at a reading whose time to live fits into a word leaves the bucket kept long enough. -/
theorem visit {v : Visit} (h : s.KeepsOn account v.1)
    (hfits : v.1.toNat + account.policy.bucketTtl.millis < UInt64.size) :
    (s.visit account v).KeepsOn account v.1 := by
  obtain ⟨nowMs, use⟩ := v
  cases use with
  | check =>
      refine of_mutate hfits ?_
      rw [← refill_getD]
      exact lastRefillMs_refill_le h.found_lastRefillMs_le
  | consume status =>
      by_cases hcost : account.policy.cost status = 0
      · simpa only [Store.visit, if_pos hcost] using h
      · simp only [Store.visit, if_neg hcost]
        exact of_mutate (f := fun prior => deduct prior account.policy.capacity
          (account.policy.cost status) nowMs) hfits h.found_lastRefillMs_le
  | reset =>
      exact of_mutate (f := fun _ => .full account.policy.capacity nowMs) hfits
        (UInt64.le_refl nowMs)
  | purge => exact h.purge nowMs

/-- A whole history does so. -/
theorem follow {history : List Visit} {t : UInt64} (h : s.KeepsOn account nowMs)
    (hwithin : Within nowMs t history)
    (hfits : ∀ v ∈ history, v.1.toNat + account.policy.bucketTtl.millis < UInt64.size) :
    (s.follow account history).KeepsOn account t :=
  follow_induction account h hwithin (fun _ _ _ hle h => h.later hle)
    fun _ v hv h => h.visit (hfits v hv)

end KeepsOn

/-! ## Purges -/

theorem live?_purges (s : Store) (key : Key) {purges : List UInt64} {t : UInt64}
    (h : ∀ u ∈ purges, u ≤ t) :
    (purges.foldl purgeExpired s).live? key t = s.live? key t := by
  induction purges generalizing s with
  | nil => rfl
  | cons u purges ih =>
      calc (purges.foldl purgeExpired (s.purgeExpired u)).live? key t
          = (s.purgeExpired u).live? key t :=
            ih _ fun w hw => h w (List.mem_cons_of_mem u hw)
        _ = s.live? key t := s.live?_purgeExpired key (h u List.mem_cons_self)

/-- Only an entry that has expired is purged. -/
theorem expiresMs_le_of_purged {s : Store} {key : Key} {e : Entry}
    (hkept : s.entries.get? key.text = some e) {purges : List UInt64} {t : UInt64}
    (h : ∀ u ∈ purges, u ≤ t)
    (hgone : (purges.foldl purgeExpired s).entries.get? key.text = none) :
    e.expiresMs ≤ t := by
  refine UInt64.not_lt.mp fun hlive => ?_
  have hfound := s.live?_purges key h
  rw [live?_of_get? hkept, if_pos hlive, live?, hgone] at hfound
  cases hfound

/-- A check cannot tell whether an idle bucket that has expired or been purged is still there: it
leaves the bucket in the state, and reports the status, that it would if the bucket were live. -/
theorem check_of_forgotten (account : Account) (s : Store)
    (habsent : s.entries.get? account.key.text = none) (history : List Visit)
    (htimely : Timely account.policy history) {e : Entry}
    (hkept : (s.follow account history).entries.get? account.key.text = some e)
    (purges : List UInt64) {t : UInt64} (hhistory : ∀ v ∈ history, v.1 ≤ t)
    (hpurges : ∀ u ∈ purges, u ≤ t)
    (hgone : e.expiresMs ≤ t ∨
      (purges.foldl purgeExpired (s.follow account history)).entries.get? account.key.text =
        none) :
    let idle := purges.foldl purgeExpired (s.follow account history)
    idle.checked account t =
        Bucket.refill (some e.state) account.policy.capacity account.policy.refillPerMinute t ∧
      ∀ kept : Store, kept.live? account.key t = some e.state →
        idle.status account t = kept.status account t ∧
          (idle.visit account (t, .check)).entries.get? account.key.text =
            (kept.visit account (t, .check)).entries.get? account.key.text := by
  intro idle
  have hexpired : e.expiresMs ≤ t := hgone.elim id (expiresMs_le_of_purged hkept hpurges)
  have hidle : idle.live? account.key t = none := by
    rw [live?_purges _ _ hpurges, live?_of_get? hkept, if_neg (UInt64.not_lt.mpr hexpired)]
  have hstart : s.KeepsOn account 0 := KeepsOn.of_absent habsent
  have hkeeps := hstart.follow
    ⟨htimely.ordered, fun _ _ => UInt64.zero_le, hhistory, UInt64.zero_le⟩ htimely.fits
  have hfilled : idle.checked account t = Bucket.refill (some e.state)
      account.policy.capacity account.policy.refillPerMinute t := by
    rw [checked_eq, hidle, (hkeeps e hkept).refill_eq_refill_none hexpired]
  refine ⟨hfilled, fun kept hlive => ?_⟩
  have hsame : idle.checked account t = kept.checked account t := by
    rw [hfilled, checked_eq, hlive]
  constructor
  · rw [status, status, hsame]
  · rw [get?_visit_check, get?_visit_check, hsame]

/-- Four tokens, and another one each minute: idle buckets are kept for eight minutes. -/
def scarceAccount : Account where
  policy := {
    name := "SCARCE"
    refillPerMinute := 1
    capacity := 4
    refillPerMinute_pos := by decide
    capacity_pos := by decide }
  identifier := "caller"

/-- Three charges, the first of which makes the bucket, and a check that credits a token. -/
def scarceHistory : List Visit :=
  [(500, .consume 200), (900, .consume 404), (60700, .check), (60700, .consume 200)]

/-- A store that keeps what this history leaves for longer than the time to live. -/
def keptScarce : Store :=
  ⟨.ofList [(scarceAccount.key.text, ⟨⟨2, 60500⟩, 600000⟩)]⟩

theorem check_of_forgotten_scarceHistory :
    let purged := [300000, 540700].foldl purgeExpired
      (Store.empty.follow scarceAccount scarceHistory)
    Timely scarceAccount.policy scarceHistory ∧
      purged.entries.get? scarceAccount.key.text = none ∧
      keptScarce.live? scarceAccount.key 541000 = some ⟨2, 60500⟩ ∧
      purged.status scarceAccount 541000 = keptScarce.status scarceAccount 541000 ∧
      (purged.status scarceAccount 541000).remaining = 4 := by
  intro purged
  have htimely : Timely scarceAccount.policy scarceHistory :=
    ⟨by decide +kernel, by decide +kernel⟩
  have hkept : (Store.empty.follow scarceAccount scarceHistory).entries.get?
      scarceAccount.key.text = some ⟨⟨2, 60500⟩, 540700⟩ := by decide +kernel
  have hgone : purged.entries.get? scarceAccount.key.text = none := by decide +kernel
  have hlive : keptScarce.live? scarceAccount.key 541000 = some ⟨2, 60500⟩ := by decide +kernel
  have hpurges : ∀ u ∈ [300000, 540700], u ≤ (541000 : UInt64) := by simp
  obtain ⟨-, hsame⟩ := check_of_forgotten scarceAccount .empty rfl scarceHistory htimely hkept
    [300000, 540700] (t := 541000) (by decide +kernel) hpurges (.inr hgone)
  exact ⟨htimely, hgone, hlive, (hsame keptScarce hlive).1, by decide +kernel⟩

end Store

end Admission.Bucket
