import Admission.Bucket.Limiter
import Admission.Bucket.Store
import Admission.Proofs.Bucket.Refill
import Admission.Proofs.Stores.Expiry
import Mathlib.Tactic.Ring

/-! # Idle buckets

How long a bucket is kept that is left alone, what it would have earned in that time, and what a
store finds of it later. -/

namespace Admission

/-! ## The time to live -/

theorem Span.millis_le_max (a b : Span) : a.millis ≤ (max a b).millis := by
  change a.millis ≤ (if a.nanos ≤ b.nanos then b else a).millis
  split
  · next h => exact Nat.div_le_div_right h
  · exact le_rfl

theorem Span.millis_ofSecs (n : Nat) : (Span.ofSecs n).millis = n * 1000 := by
  simp only [Span.ofSecs, Span.millis]
  omega

namespace Policy

variable (policy : Policy)

theorem refillPerMinute_toNat_pos : 0 < policy.refillPerMinute.toNat := by
  have h := policy.refillPerMinute_pos
  rw [UInt32.lt_iff_toNat_lt] at h
  exact h

/-- The seconds in which an empty bucket fills up, rounded up. -/
def fillSecs : Nat :=
  (policy.capacity.toNat * 60 + (policy.refillPerMinute.toNat - 1)) / policy.refillPerMinute.toNat

theorem fillSecs_lt : policy.fillSecs < 2 ^ 40 := by
  have hc := policy.capacity.toNat_lt
  have hr := policy.refillPerMinute.toNat_lt
  have h := Nat.div_le_self (policy.capacity.toNat * 60 + (policy.refillPerMinute.toNat - 1))
    policy.refillPerMinute.toNat
  rw [fillSecs]
  omega

theorem capacity_mul_le_fillSecs_mul :
    policy.capacity.toNat * 60 ≤ policy.fillSecs * policy.refillPerMinute.toNat := by
  have hpos := policy.refillPerMinute_toNat_pos
  have h := Nat.lt_div_mul_add hpos
    (a := policy.capacity.toNat * 60 + (policy.refillPerMinute.toNat - 1))
  rw [fillSecs]
  omega

theorem bucketTtl_eq : policy.bucketTtl = max (.ofSecs (policy.fillSecs * 2)) minBucketTtl := by
  have hc := policy.capacity.toNat_lt
  have hr := policy.refillPerMinute.toNat_lt
  have hle : (1 : UInt64) ≤ policy.refillPerMinute.toUInt64 := by
    rw [UInt64.le_iff_toNat_le, UInt32.toNat_toUInt64]
    exact policy.refillPerMinute_toNat_pos
  have hfill : ((policy.capacity.toUInt64 * 60 + (policy.refillPerMinute.toUInt64 - 1)) /
      policy.refillPerMinute.toUInt64).toNat = policy.fillSecs := by
    rw [UInt64.toNat_div, UInt64.toNat_add, UInt64.toNat_mul, UInt64.toNat_sub_of_le _ _ hle,
      UInt32.toNat_toUInt64, UInt32.toNat_toUInt64]
    simp only [UInt64.reduceToNat]
    rw [Nat.mod_eq_of_lt (a := policy.capacity.toNat * 60) (by omega),
      Nat.mod_eq_of_lt (by omega), fillSecs]
  have hmin : min (policy.fillSecs * 2) (UInt64.size - 1) = policy.fillSecs * 2 := by
    have h := policy.fillSecs_lt
    simp only [UInt64.size]
    omega
  rw [bucketTtl, hfill, hmin]

/-- A bucket that is left alone for its time to live earns twice its capacity. -/
theorem two_mul_capacity_le_earned_bucketTtl :
    2 * policy.capacity.toNat ≤
      Bucket.earned policy.bucketTtl.millis policy.refillPerMinute.toNat := by
  have hfill := policy.capacity_mul_le_fillSecs_mul
  have httl : policy.fillSecs * 2 * 1000 ≤ policy.bucketTtl.millis := by
    rw [bucketTtl_eq, ← Span.millis_ofSecs]
    exact Span.millis_le_max _ _
  calc
    2 * policy.capacity.toNat = 2000 * (policy.capacity.toNat * 60) / 60000 := by omega
    _ ≤ 2000 * (policy.fillSecs * policy.refillPerMinute.toNat) / 60000 :=
      Nat.div_le_div_right (Nat.mul_le_mul_left _ hfill)
    _ = Bucket.earned (policy.fillSecs * 2 * 1000) policy.refillPerMinute.toNat := by
      rw [Bucket.earned]
      ring_nf
    _ ≤ Bucket.earned policy.bucketTtl.millis policy.refillPerMinute.toNat :=
      Bucket.earned_mono _ httl

theorem bucketTtl_millis_pos : 0 < policy.bucketTtl.millis := by
  have hcapacity := policy.capacity_pos
  rw [UInt32.lt_iff_toNat_lt, UInt32.toNat_zero] at hcapacity
  have hearned := policy.two_mul_capacity_le_earned_bucketTtl
  apply Nat.pos_of_ne_zero
  intro hzero
  rw [hzero, Bucket.earned, Nat.zero_mul, Nat.zero_div] at hearned
  omega

end Policy

/-! ## What a store finds later -/

namespace Bucket.Store

theorem live?_of_get? {s : Store} {key : Key} {e : Entry} (h : s.entries.get? key.text = some e)
    (t : UInt64) : s.live? key t = if t < e.expiresMs then some e.state else none := by
  simp only [live?, h, Option.filter, decide_eq_true_eq]
  split <;> rfl

/-- Nothing of a bucket comes to life by waiting. -/
theorem live?_later (s : Store) (key : Key) {nowMs t : UInt64} (h : nowMs ≤ t) :
    s.live? key t = s.live? key nowMs ∨ s.live? key t = none := by
  cases hkept : s.entries.get? key.text with
  | none => simp [live?, hkept]
  | some e =>
      rw [live?_of_get? hkept, live?_of_get? hkept]
      by_cases ht : t < e.expiresMs
      · rw [if_pos ht, if_pos (UInt64.lt_of_le_of_lt h ht)]
        exact .inl rfl
      · exact .inr (if_neg ht)

theorem live?_mutate (s : Store) (key : Key) (nowMs t : UInt64) (ttl : Span)
    (f : Option State → State) :
    (s.mutate key nowMs ttl f).2.live? key t =
      if t < Word.addClamped nowMs ttl.millisWord then some (f (s.live? key nowMs)) else none := by
  simp only [mutate, live?, Table.get?_insert_self, Option.filter, decide_eq_true_eq]
  split <;> rfl

/-- The stores differ in no bucket that is alive at a reading. -/
def AgreeAt (now : UInt64) (s t : Store) : Prop :=
  s.entries.AgreeAt Entry.expiresMs now t.entries

theorem AgreeAt.live?_eq {now : UInt64} {s t : Store} (h : s.AgreeAt now t) (key : Key) :
    s.live? key now = t.live? key now := congrArg (Option.map Entry.state) (h key.text)

/-- A purge takes nothing that is alive then or later. -/
theorem live?_purgeExpired (s : Store) (key : Key) {nowMs t : UInt64} (h : nowMs ≤ t) :
    (s.purgeExpired nowMs).live? key t = s.live? key t := by
  have hpurged : (s.purgeExpired nowMs).AgreeAt nowMs s := (Table.AgreeAt.refl s.entries nowMs).purge
  exact AgreeAt.live?_eq (hpurged.later h) key

end Bucket.Store

end Admission
