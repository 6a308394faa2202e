import Mathlib.Algebra.Group.Nat.Defs
import Mathlib.Order.Nat
import Admission.Bucket.State

/-! # Refilling and charging in natural numbers

The steps on a bucket work on words of several widths. Nothing is lost in them, so what they do can
be said in natural numbers. -/

namespace Admission.Bucket

/-! ## Words of several widths -/

theorem toNat_min32 (a b : UInt32) : (min a b).toNat = min a.toNat b.toNat := by
  change (if a ≤ b then a else b).toNat = _
  split
  · next h =>
      rw [UInt32.le_iff_toNat_le] at h
      omega
  · next h =>
      rw [UInt32.le_iff_toNat_le] at h
      omega

theorem toNat_max64 (a b : UInt64) : (max a b).toNat = max a.toNat b.toNat := by
  change (if a ≤ b then b else a).toNat = _
  split
  · next h =>
      rw [UInt64.le_iff_toNat_le] at h
      omega
  · next h =>
      rw [UInt64.le_iff_toNat_le] at h
      omega

theorem min_self32 (a : UInt32) : min a a = a := by
  rw [← UInt32.toNat_inj, toNat_min32, Nat.min_self]

theorem toNat_wideTime (t : UInt64) : (wideTime t).toNat = t.toNat := by
  have h := t.toNat_lt
  rw [wideTime, BitVec.toNat_setWidth, UInt64.toNat_toBitVec]
  omega

theorem toNat_wideCount (n : UInt32) : (wideCount n).toNat = n.toNat := by
  have h := n.toNat_lt
  rw [wideCount, BitVec.toNat_setWidth, UInt32.toNat_toBitVec]
  omega

theorem toNat_narrowCount {w : Wide} (h : w.toNat < 2 ^ 32) : (narrowCount w).toNat = w.toNat := by
  change (w.setWidth 32).toNat = w.toNat
  rw [BitVec.toNat_setWidth, Nat.mod_eq_of_lt h]

theorem time_mul_count_lt (t : UInt64) (n : UInt32) : t.toNat * n.toNat < 2 ^ 96 := by
  have ht := t.toNat_lt
  have hn := n.toNat_lt
  calc
    t.toNat * n.toNat ≤ 2 ^ 64 * n.toNat := Nat.mul_le_mul_right _ ht.le
    _ < 2 ^ 64 * 2 ^ 32 := Nat.mul_lt_mul_of_pos_left hn (by decide)
    _ = 2 ^ 96 := by decide

/-! ## What time earns -/

/-- The tokens that a time in milliseconds earns at a rate per minute. -/
def earned (ms rate : Nat) : Nat := ms * rate / 60000

theorem earned_mono {ms ms' : Nat} (rate : Nat) (h : ms ≤ ms') : earned ms rate ≤ earned ms' rate :=
  Nat.div_le_div_right (Nat.mul_le_mul_right _ h)

theorem rate_pos_of_earned {ms rate : Nat} (h : 0 < earned ms rate) : 0 < rate := by
  apply Nat.pos_of_ne_zero
  rintro rfl
  simp [earned] at h

theorem ms_pos_of_earned {ms rate : Nat} (h : 0 < earned ms rate) : 0 < ms := by
  apply Nat.pos_of_ne_zero
  rintro rfl
  simp [earned] at h

/-- The time that earned tokens stand for has passed. -/
theorem earned_mul_div_le (ms : Nat) {rate : Nat} (hr : 0 < rate) :
    earned ms rate * 60000 / rate ≤ ms := by
  have h : earned ms rate * 60000 ≤ ms * rate := Nat.div_mul_le_self _ _
  exact (Nat.div_le_div_right h).trans (Nat.mul_div_cancel _ hr).le

/-! ## What a refill computes -/

section Parts

variable (s : State) (capacity rate : UInt32) (nowMs : UInt64)

/-- The tokens that a refill credits. -/
def credited : Wide := wideTime (Word.subClamped nowMs s.lastRefillMs) * wideCount rate / 60000

/-- The tokens that it comes to with those that are there. -/
def total : Wide := wideCount (min s.tokens capacity) + credited s rate nowMs

/-- The milliseconds that the credited tokens stand for. -/
def creditedMs : Wide := credited s rate nowMs * 60000 / wideCount rate

theorem refill_some :
    refill (some s) capacity rate nowMs =
      if credited s rate nowMs = 0 then { s with tokens := min s.tokens capacity }
      else if wideCount capacity ≤ total s capacity rate nowMs then .full capacity nowMs
      else ⟨narrowCount (total s capacity rate nowMs),
        Word.addClamped s.lastRefillMs (narrowTime (creditedMs s rate nowMs))⟩ := rfl

theorem toNat_credited :
    (credited s rate nowMs).toNat = earned (nowMs.toNat - s.lastRefillMs.toNat) rate.toNat := by
  have h := time_mul_count_lt (Word.subClamped nowMs s.lastRefillMs) rate
  rw [credited, BitVec.toNat_udiv, BitVec.toNat_mul, toNat_wideTime, toNat_wideCount,
    Nat.mod_eq_of_lt (by omega), Word.toNat_subClamped]
  rfl

theorem earned_lt : earned (nowMs.toNat - s.lastRefillMs.toNat) rate.toNat < 2 ^ 96 := by
  have h := time_mul_count_lt (Word.subClamped nowMs s.lastRefillMs) rate
  rw [Word.toNat_subClamped] at h
  exact (Nat.div_le_self _ _).trans_lt h

theorem toNat_total :
    (total s capacity rate nowMs).toNat = min s.tokens.toNat capacity.toNat +
      earned (nowMs.toNat - s.lastRefillMs.toNat) rate.toNat := by
  have hc := capacity.toNat_lt
  have he := earned_lt s rate nowMs
  rw [total, BitVec.toNat_add, toNat_credited, toNat_wideCount, toNat_min32]
  exact Nat.mod_eq_of_lt (by omega)

theorem toNat_creditedMs :
    (creditedMs s rate nowMs).toNat =
      earned (nowMs.toNat - s.lastRefillMs.toNat) rate.toNat * 60000 / rate.toNat := by
  have hsmall := earned_lt s rate nowMs
  rw [creditedMs, BitVec.toNat_udiv, BitVec.toNat_mul, toNat_credited, toNat_wideCount]
  change _ * 60000 % _ / _ = _
  rw [Nat.mod_eq_of_lt (by omega)]

end Parts

/-! ## The three outcomes of a refill -/

section Outcomes

variable {s : State} {capacity rate : UInt32} {nowMs : UInt64}

theorem credited_eq_zero_iff :
    credited s rate nowMs = 0 ↔ earned (nowMs.toNat - s.lastRefillMs.toNat) rate.toNat = 0 := by
  rw [← toNat_credited]
  exact BitVec.toNat_inj.symm

theorem wideCount_le_total_iff :
    wideCount capacity ≤ total s capacity rate nowMs ↔
      capacity.toNat ≤ min s.tokens.toNat capacity.toNat +
        earned (nowMs.toNat - s.lastRefillMs.toNat) rate.toNat := by
  rw [BitVec.le_def, toNat_total, toNat_wideCount]

/-- Too little time for a token: only a count above the capacity is put right. -/
theorem refill_of_earned_eq_zero
    (h : earned (nowMs.toNat - s.lastRefillMs.toNat) rate.toNat = 0) :
    refill (some s) capacity rate nowMs = { s with tokens := min s.tokens capacity } := by
  rw [refill_some, if_pos (credited_eq_zero_iff.mpr h)]

/-- Enough time to fill the bucket up. -/
theorem refill_of_capacity_le
    (hpos : 0 < earned (nowMs.toNat - s.lastRefillMs.toNat) rate.toNat)
    (h : capacity.toNat ≤ min s.tokens.toNat capacity.toNat +
      earned (nowMs.toNat - s.lastRefillMs.toNat) rate.toNat) :
    refill (some s) capacity rate nowMs = .full capacity nowMs := by
  rw [refill_some, if_neg (credited_eq_zero_iff.not.mpr hpos.ne'),
    if_pos (wideCount_le_total_iff.mpr h)]

/-- Some time, but not enough to fill the bucket up. -/
theorem refill_of_lt_capacity
    (hpos : 0 < earned (nowMs.toNat - s.lastRefillMs.toNat) rate.toNat)
    (h : min s.tokens.toNat capacity.toNat +
      earned (nowMs.toNat - s.lastRefillMs.toNat) rate.toNat < capacity.toNat) :
    (refill (some s) capacity rate nowMs).tokens.toNat = min s.tokens.toNat capacity.toNat +
        earned (nowMs.toNat - s.lastRefillMs.toNat) rate.toNat ∧
      (refill (some s) capacity rate nowMs).lastRefillMs.toNat = s.lastRefillMs.toNat +
        earned (nowMs.toNat - s.lastRefillMs.toNat) rate.toNat * 60000 / rate.toNat := by
  rw [refill_some, if_neg (credited_eq_zero_iff.not.mpr hpos.ne'),
    if_neg (wideCount_le_total_iff.not.mpr (Nat.not_le_of_lt h))]
  constructor
  · have hc := capacity.toNat_lt
    rw [toNat_narrowCount (by rw [toNat_total]; omega), toNat_total]
  · have hms := earned_mul_div_le (nowMs.toNat - s.lastRefillMs.toNat) (rate_pos_of_earned hpos)
    have hnow := nowMs.toNat_lt
    have hlast := s.lastRefillMs.toNat_lt
    -- The credited tokens stand for time that has passed, so the clamps never act.
    rw [Word.toNat_addClamped, narrowTime, Word.toNat_ofNatClamp, toNat_creditedMs]
    simp only [UInt64.size]
    omega

/-- What a refill comes to. -/
theorem refill_cases (s : State) (capacity rate : UInt32) (nowMs : UInt64) :
    (earned (nowMs.toNat - s.lastRefillMs.toNat) rate.toNat = 0 ∧
      refill (some s) capacity rate nowMs = { s with tokens := min s.tokens capacity }) ∨
    (0 < earned (nowMs.toNat - s.lastRefillMs.toNat) rate.toNat ∧
      capacity.toNat ≤ min s.tokens.toNat capacity.toNat +
        earned (nowMs.toNat - s.lastRefillMs.toNat) rate.toNat ∧
      refill (some s) capacity rate nowMs = .full capacity nowMs) ∨
    (0 < earned (nowMs.toNat - s.lastRefillMs.toNat) rate.toNat ∧
      min s.tokens.toNat capacity.toNat +
        earned (nowMs.toNat - s.lastRefillMs.toNat) rate.toNat < capacity.toNat ∧
      (refill (some s) capacity rate nowMs).tokens.toNat = min s.tokens.toNat capacity.toNat +
        earned (nowMs.toNat - s.lastRefillMs.toNat) rate.toNat ∧
      (refill (some s) capacity rate nowMs).lastRefillMs.toNat = s.lastRefillMs.toNat +
        earned (nowMs.toNat - s.lastRefillMs.toNat) rate.toNat * 60000 / rate.toNat) := by
  rcases Nat.eq_zero_or_pos (earned (nowMs.toNat - s.lastRefillMs.toNat) rate.toNat)
    with hzero | hpos
  · exact .inl ⟨hzero, refill_of_earned_eq_zero hzero⟩
  · by_cases hfull : capacity.toNat ≤ min s.tokens.toNat capacity.toNat +
        earned (nowMs.toNat - s.lastRefillMs.toNat) rate.toNat
    · exact .inr (.inl ⟨hpos, hfull, refill_of_capacity_le hpos hfull⟩)
    · have hlt := Nat.lt_of_not_le hfull
      exact .inr (.inr ⟨hpos, hlt, refill_of_lt_capacity hpos hlt⟩)

/-- A refill adds what was earned, up to the capacity. -/
theorem toNat_tokens_refill (s : State) (capacity rate : UInt32) (nowMs : UInt64) :
    (refill (some s) capacity rate nowMs).tokens.toNat =
      min capacity.toNat (min s.tokens.toNat capacity.toNat +
        earned (nowMs.toNat - s.lastRefillMs.toNat) rate.toNat) := by
  obtain ⟨hzero, hnext⟩ | ⟨-, hfull, hnext⟩ | ⟨-, hlt, htokens, -⟩ :=
    refill_cases s capacity rate nowMs
  · rw [hnext, toNat_min32, hzero]
    omega
  · rw [hnext, Nat.min_eq_left hfull]
    rfl
  · rw [htokens, Nat.min_eq_right hlt.le]

/-- A refill never moves the time of the last refill past the clock. -/
theorem lastRefillMs_refill_le (h : s.lastRefillMs ≤ nowMs) :
    (refill (some s) capacity rate nowMs).lastRefillMs ≤ nowMs := by
  obtain ⟨-, hnext⟩ | ⟨-, -, hnext⟩ | ⟨hpos, -, -, hlast⟩ := refill_cases s capacity rate nowMs
  · rw [hnext]
    exact h
  · rw [hnext]
    exact UInt64.le_refl nowMs
  · have hms := earned_mul_div_le (nowMs.toNat - s.lastRefillMs.toNat) (rate_pos_of_earned hpos)
    rw [UInt64.le_iff_toNat_le] at h ⊢
    calc
      (refill (some s) capacity rate nowMs).lastRefillMs.toNat = s.lastRefillMs.toNat +
          earned (nowMs.toNat - s.lastRefillMs.toNat) rate.toNat * 60000 / rate.toNat := hlast
      _ ≤ s.lastRefillMs.toNat + (nowMs.toNat - s.lastRefillMs.toNat) :=
        Nat.add_le_add_left hms _
      _ = nowMs.toNat := Nat.add_sub_of_le h

end Outcomes

/-- A bucket that is made anew is one that has been full up to now. -/
theorem refill_none (capacity rate : UInt32) (nowMs : UInt64) :
    refill none capacity rate nowMs =
      refill (some (.full capacity nowMs)) capacity rate nowMs := by
  have h : earned (nowMs.toNat - (State.full capacity nowMs).lastRefillMs.toNat) rate.toNat =
      0 := by
    simp [State.full, earned]
  rw [refill_of_earned_eq_zero h]
  change State.full capacity nowMs =
    { State.full capacity nowMs with tokens := min capacity capacity }
  rw [min_self32]
  rfl

theorem refill_getD (prior : Option State) (capacity rate : UInt32) (nowMs : UInt64) :
    refill (some (prior.getD (.full capacity nowMs))) capacity rate nowMs =
      refill prior capacity rate nowMs := by
  cases prior with
  | none => exact (refill_none capacity rate nowMs).symm
  | some s => rfl

/-! ## Charging -/

theorem toNat_tokens_deduct (prior : Option State) (capacity cost : UInt32) (nowMs : UInt64) :
    (deduct prior capacity cost nowMs).tokens.toNat =
      min (prior.getD (.full capacity nowMs)).tokens.toNat capacity.toNat - cost.toNat := by
  rw [deduct, Word.toNat_subClamped32, toNat_min32]

theorem lastRefillMs_deduct (prior : Option State) (capacity cost : UInt32) (nowMs : UInt64) :
    (deduct prior capacity cost nowMs).lastRefillMs =
      (prior.getD (.full capacity nowMs)).lastRefillMs := rfl

end Admission.Bucket
