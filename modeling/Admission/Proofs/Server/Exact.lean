import Mathlib.Algebra.Order.Field.Rat
import Mathlib.Tactic.Linarith
import Mathlib.Tactic.Positivity
import Mathlib.Tactic.Ring
import Admission.Server.Binary64

/-! # Where floating point is exact

Numbers have 53 significant bits, so whole numbers up to `2 ^ 53` are among them, and so are their
sums, differences and products as long as these stay below. Quotients are rounded, but never up to
the next whole number. -/

namespace Admission.Binary64

/-! ## Rounding to an integer -/

theorem floor_le_roundHalfEven (x : Rat) : x.floor ≤ roundHalfEven x := by
  unfold roundHalfEven
  simp only
  split
  · exact le_rfl
  · split
    · omega
    · split <;> omega

theorem roundHalfEven_le_add_half (x : Rat) : (roundHalfEven x : Rat) ≤ x + 1 / 2 := by
  have hfloor := x.floor_le
  unfold roundHalfEven
  simp only
  split
  · linarith
  · next hrest =>
    have hup : ((x.floor + 1 : Int) : Rat) ≤ x + 1 / 2 := by
      push_cast
      linarith
    split
    · exact hup
    · split
      · linarith
      · exact hup

@[simp] theorem roundHalfEven_intCast (n : Int) : roundHalfEven n = n := by
  simp [roundHalfEven]

/-! ## The unit in the last place -/

theorem floorLog2_spec {a : Rat} (ha : 0 < a) :
    (2 : Rat) ^ floorLog2 a ≤ a ∧ a < (2 : Rat) ^ (floorLog2 a + 1) := by
  have hnum : 0 < a.num.natAbs := Int.natAbs_pos.mpr (Rat.num_pos.mpr ha).ne'
  have hquot : a * a.den = a.num.natAbs := by
    rw [Rat.mul_den_eq_num, ← Int.cast_natCast, Int.natAbs_of_nonneg (Rat.num_nonneg.mpr ha.le)]
  have hnumLow : (2 : Rat) ^ a.num.natAbs.log2 ≤ a.num.natAbs :=
    mod_cast Nat.log2_self_le hnum.ne'
  have hnumHigh : (a.num.natAbs : Rat) < 2 ^ (a.num.natAbs.log2 + 1) := mod_cast Nat.lt_log2_self
  have hdenLow : (2 : Rat) ^ a.den.log2 ≤ a.den := mod_cast Nat.log2_self_le a.den_nz
  have hdenHigh : (a.den : Rat) < 2 ^ (a.den.log2 + 1) := mod_cast Nat.lt_log2_self
  have htwo : (2 : Rat) ≠ 0 := by norm_num
  generalize hlogs : (a.num.natAbs.log2 : Int) - a.den.log2 = e
  have hlow : (2 : Rat) ^ (e - 1) ≤ a := by
    apply le_of_mul_le_mul_right _ (by positivity : (0 : Rat) < 2 ^ (a.den.log2 + 1))
    calc
      (2 : Rat) ^ (e - 1) * 2 ^ (a.den.log2 + 1) = 2 ^ a.num.natAbs.log2 := by
        rw [← Rat.zpow_natCast, ← Rat.zpow_natCast, ← Rat.zpow_add htwo]
        congr 1
        omega
      _ ≤ a * a.den := hquot ▸ hnumLow
      _ ≤ a * 2 ^ (a.den.log2 + 1) := mul_le_mul_of_nonneg_left hdenHigh.le ha.le
  have hhigh : a < (2 : Rat) ^ (e + 1) := by
    apply lt_of_mul_lt_mul_right _ (by positivity : (0 : Rat) ≤ 2 ^ a.den.log2)
    calc
      a * 2 ^ a.den.log2 ≤ a * a.den := mul_le_mul_of_nonneg_left hdenLow ha.le
      _ < 2 ^ (a.num.natAbs.log2 + 1) := hquot ▸ hnumHigh
      _ = (2 : Rat) ^ (e + 1) * 2 ^ a.den.log2 := by
        rw [← Rat.zpow_natCast, ← Rat.zpow_natCast, ← Rat.zpow_add htwo]
        congr 1
        omega
  simp only [floorLog2, hlogs]
  split
  · next hle => exact ⟨hle, hhigh⟩
  · next hlt => exact ⟨hlow, by simpa using hlt⟩

theorem floorLog2_lt {a : Rat} (ha : 0 < a) {n : Int} (h : a < (2 : Rat) ^ n) : floorLog2 a < n :=
  (zpow_lt_zpow_iff_right₀ one_lt_two).mp ((floorLog2_spec ha).1.trans_lt h)

theorem le_floorLog2 {a : Rat} (ha : 0 < a) {n : Int} (h : (2 : Rat) ^ n ≤ a) : n ≤ floorLog2 a :=
  Int.lt_add_one_iff.mp
    ((zpow_lt_zpow_iff_right₀ one_lt_two).mp (h.trans_lt (floorLog2_spec ha).2))

/-- A rational that is neither tiny nor huge is rounded to a multiple of a negative power of two
of which it is at least `2 ^ 52` times. -/
theorem exists_roundMagnitude_eq {x : Rat} (hlow : 1 / 2 ^ 53 ≤ x) (hhigh : x < 2 ^ 53) :
    ∃ k : Nat, 2 ^ 52 ≤ x * 2 ^ k ∧ roundMagnitude x = roundHalfEven (x * 2 ^ k) / 2 ^ k := by
  have hpos : 0 < x := lt_of_lt_of_le (by positivity) hlow
  have hle : -53 ≤ floorLog2 x := le_floorLog2 hpos (by simpa [Rat.zpow_neg] using hlow)
  have hlt : floorLog2 x < 53 := floorLog2_lt hpos (mod_cast hhigh)
  obtain ⟨k, hk⟩ : ∃ k : Nat, floorLog2 x = 52 - k := ⟨(52 - floorLog2 x).toNat, by omega⟩
  have hunit : (2 : Rat) ^ max (floorLog2 x - 52) (-1074) = (2 ^ k)⁻¹ := by
    rw [max_eq_left (by omega), hk, show (52 - k - 52 : Int) = -k by omega, Rat.zpow_neg,
      Rat.zpow_natCast]
  refine ⟨k, ?_, ?_⟩
  · have hspec := (floorLog2_spec hpos).1
    rw [hk, zpow_sub₀ two_ne_zero, div_le_iff₀ (Rat.zpow_pos two_pos)] at hspec
    exact mod_cast hspec
  · simp only [roundMagnitude, hunit, div_inv_eq_mul]
    rfl

theorem roundMagnitude_natCast {n : Nat} (hpos : 0 < n) (h : n < 2 ^ 53) :
    roundMagnitude n = n := by
  have hone : (1 : Rat) ≤ n := mod_cast hpos
  obtain ⟨k, -, hk⟩ := exists_roundMagnitude_eq (le_trans (by norm_num) hone)
    (mod_cast h : (n : Rat) < 2 ^ 53)
  rw [hk, show (n : Rat) * 2 ^ k = ((n * 2 ^ k : Nat) : Int) by push_cast; rfl,
    roundHalfEven_intCast]
  push_cast
  exact mul_div_cancel_right₀ _ (by positivity)

/-- A quotient is not rounded past a whole number, since it is a whole number or further away from
the next one than half a unit. -/
theorem floor_roundMagnitude_div {a b : Nat} (ha : 0 < a) (hb : 0 < b) (ha' : a < 2 ^ 53)
    (hb' : b < 2 ^ 53) : (roundMagnitude ((a : Rat) / b)).floor = (a / b : Nat) := by
  have hbpos : (0 : Rat) < b := mod_cast hb
  have hlow : 1 / 2 ^ 53 ≤ (a : Rat) / b := by
    rw [div_le_div_iff₀ (by positivity) hbpos]
    exact mod_cast (by omega : 1 * b ≤ a * 2 ^ 53)
  have hhigh : (a : Rat) / b < 2 ^ 53 := by
    rw [div_lt_iff₀ hbpos]
    exact mod_cast (by omega : a < 2 ^ 53 * b)
  obtain ⟨k, hunit, hk⟩ := exists_roundMagnitude_eq hlow hhigh
  have hpow : (0 : Rat) < 2 ^ k := by positivity
  apply le_antisymm
  · -- Half a unit is less than the step from one quotient by `b` to the next.
    have hgap : (1 : Rat) / 2 < 2 ^ k / b := by
      rw [div_mul_eq_mul_div, le_div_iff₀ hbpos] at hunit
      have hless : (a : Rat) * 2 ^ k < 2 ^ 53 * 2 ^ k :=
        mul_lt_mul_of_pos_right (mod_cast ha') hpow
      rw [div_lt_div_iff₀ two_pos hbpos]
      linarith
    have hnext : (a : Rat) / b + 1 / b ≤ (a / b : Nat) + 1 := by
      rw [← add_div, div_le_iff₀ hbpos]
      exact mod_cast (Nat.mul_comm b _ ▸ Nat.lt_mul_div_succ a hb : a < (a / b + 1) * b)
    apply Int.lt_add_one_iff.mp
    rw [Rat.floor_lt_iff, hk, div_lt_iff₀ hpow]
    push_cast
    calc
      (roundHalfEven ((a : Rat) / b * 2 ^ k) : Rat) ≤ (a : Rat) / b * 2 ^ k + 1 / 2 :=
        roundHalfEven_le_add_half _
      _ < (a : Rat) / b * 2 ^ k + 2 ^ k / b := by linarith
      _ = ((a : Rat) / b + 1 / b) * 2 ^ k := by ring
      _ ≤ ((a / b : Nat) + 1) * 2 ^ k := mul_le_mul_of_nonneg_right hnext hpow.le
  · have hwhole : ((a / b * 2 ^ k : Nat) : Rat) ≤ (a : Rat) / b * 2 ^ k := by
      push_cast
      apply mul_le_mul_of_nonneg_right _ hpow.le
      rw [le_div_iff₀ hbpos]
      exact mod_cast Nat.div_mul_le_self a b
    have hround : ((a / b * 2 ^ k : Nat) : Int) ≤ roundHalfEven ((a : Rat) / b * 2 ^ k) :=
      (Rat.le_floor_iff.mpr (mod_cast hwhole)).trans (floor_le_roundHalfEven _)
    rw [Rat.le_floor_iff, hk, le_div_iff₀ hpow]
    exact mod_cast hround

/-! ## Whole numbers -/

/-- A whole number as floating point. -/
def whole (n : Nat) : Binary64 := .finite false n

theorem ofRat_of_pos {q : Rat} (hq : 0 < q) (hsmall : roundMagnitude q < 2 ^ 53)
    (negativeZero : Bool) : ofRat q negativeZero = .finite false (roundMagnitude q) := by
  have hfinite : ¬ (2 : Rat) ^ 1024 ≤ roundMagnitude q :=
    not_le.mpr (hsmall.trans (pow_lt_pow_right₀ one_lt_two (by decide)))
  simp only [ofRat, if_neg hq.ne', Rat.abs_of_nonneg hq.le, if_neg hfinite, not_lt.mpr hq.le,
    decide_false]

theorem ofRat_neg_of_pos {q : Rat} (hq : 0 < q) (hsmall : roundMagnitude q < 2 ^ 53)
    (negativeZero : Bool) : ofRat (-q) negativeZero = .finite true (roundMagnitude q) := by
  have hfinite : ¬ (2 : Rat) ^ 1024 ≤ roundMagnitude q :=
    not_le.mpr (hsmall.trans (pow_lt_pow_right₀ one_lt_two (by decide)))
  simp only [ofRat, if_neg (neg_lt_zero.mpr hq).ne, Rat.abs_neg, Rat.abs_of_nonneg hq.le,
    if_neg hfinite, neg_lt_zero.mpr hq, decide_true]

theorem ofRat_two_pow : ofRat (2 ^ 53 : Nat) false = whole (2 ^ 53) := by decide +kernel

theorem ofRat_natCast {n : Nat} (h : n ≤ 2 ^ 53) : ofRat n false = whole n := by
  rcases h.eq_or_lt with rfl | h
  · exact ofRat_two_pow
  rcases Nat.eq_zero_or_pos n with rfl | hpos
  · simp [ofRat, whole]
  · have hround := roundMagnitude_natCast hpos h
    have hsmall : roundMagnitude n < 2 ^ 53 := hround.trans_lt (mod_cast h)
    rw [ofRat_of_pos (mod_cast hpos) hsmall, hround, whole]

theorem ofNat_eq_whole {n : Nat} (h : n < 2 ^ 53) : ofNat n = whole n := ofRat_natCast h.le

@[simp] theorem ofNat_zero : ofNat 0 = whole 0 := ofNat_eq_whole (by decide)

@[simp] theorem ofNat_toNat32 (n : UInt32) : ofNat n.toNat = whole n.toNat :=
  ofNat_eq_whole (n.toNat_lt.trans (by decide))

theorem whole_add {a b : Nat} (h : a + b ≤ 2 ^ 53) : (whole a).add (whole b) = whole (a + b) := by
  rw [← ofRat_natCast h, Nat.cast_add]
  rfl

theorem whole_mul {a b : Nat} (h : a * b < 2 ^ 53) : (whole a).mul (whole b) = whole (a * b) := by
  rw [← ofRat_natCast h.le, Nat.cast_mul]
  rfl

theorem whole_sub_of_le {a b : Nat} (hle : b ≤ a) (h : a < 2 ^ 53) :
    (whole a).sub (whole b) = whole (a - b) := by
  rw [← ofRat_natCast (by omega : a - b ≤ 2 ^ 53), Nat.cast_sub hle, sub_eq_add_neg]
  rfl

theorem whole_sub_of_lt {a b : Nat} (hlt : a < b) (h : b < 2 ^ 53) :
    (whole a).sub (whole b) = .finite true (b - a : Nat) := by
  have hround : roundMagnitude (b - a : Nat) = (b - a : Nat) :=
    roundMagnitude_natCast (by omega) (by omega)
  have hsmall : roundMagnitude (b - a : Nat) < 2 ^ 53 :=
    hround.trans_lt (mod_cast (by omega : b - a < 2 ^ 53))
  rw [← hround, ← ofRat_neg_of_pos (by exact mod_cast Nat.sub_pos_of_lt hlt) hsmall false,
    Nat.cast_sub hlt.le, neg_sub, sub_eq_add_neg]
  rfl

@[simp] theorem whole_lt_whole (a b : Nat) : (whole a).lt (whole b) = decide (a < b) := by
  simp [whole, lt, signed]

@[simp] theorem whole_le_whole (a b : Nat) : (whole a).le (whole b) = decide (a ≤ b) := by
  change (!(whole b).lt (whole a)) = _
  rw [whole_lt_whole, ← decide_not]
  simp

/-- Where a difference falls below zero, the scripts put zero in its place. -/
theorem whole_sub_clamped {a b : Nat} (ha : a < 2 ^ 53) (hb : b < 2 ^ 53) :
    (if ((whole a).sub (whole b)).lt (whole 0) then whole 0 else (whole a).sub (whole b)) =
      whole (a - b) := by
  rcases Nat.lt_or_ge a b with hlt | hle
  · have hneg : (Binary64.finite true (b - a : Nat)).lt (whole 0) = true := by
      simpa [whole, lt, signed] using hlt
    rw [whole_sub_of_lt hlt hb, if_pos hneg, Nat.sub_eq_zero_of_le hlt.le]
  · rw [whole_sub_of_le hle ha, whole_lt_whole, if_neg (by simp)]

theorem floor_finite {m : Rat} {n : Nat} (hm : m.floor = n) (h : n < 2 ^ 53) :
    (Binary64.finite false m).floor = whole n := by
  rw [← ofRat_natCast h.le]
  change ofRat m.floor false = _
  rw [hm]
  rfl

theorem floor_whole_div {a b : Nat} (hb : 0 < b) (ha' : a < 2 ^ 53) (hb' : b < 2 ^ 53) :
    ((whole a).div (whole b)).floor = whole (a / b) := by
  have hbne : (b : Rat) ≠ 0 := mod_cast hb.ne'
  have hdiv : (whole a).div (whole b) = ofRat ((a : Rat) / b) false := by
    simp [whole, div, signed, hbne]
  have hquot : a / b < 2 ^ 53 := (Nat.div_le_self a b).trans_lt ha'
  rcases Nat.eq_zero_or_pos a with rfl | ha
  · have hzero : (whole 0).div (whole b) = .finite false 0 := by
      rw [hdiv]
      simp [ofRat]
    rw [hzero]
    exact floor_finite (by rw [Nat.zero_div]; rfl) hquot
  · have hfloor := floor_roundMagnitude_div ha hb ha' hb'
    have hsmall : roundMagnitude ((a : Rat) / b) < 2 ^ 53 := by
      have hbelow : ((a / b : Nat) : Int) + 1 ≤ 2 ^ 53 := by omega
      apply (Rat.lt_floor_add_one _).trans_le
      rw [hfloor]
      exact mod_cast hbelow
    rw [hdiv, ofRat_of_pos (div_pos (mod_cast ha) (mod_cast hb)) hsmall]
    exact floor_finite hfloor hquot

theorem toInt64?_whole {n : Nat} (h : n < 2 ^ 53) : (whole n).toInt64? = some (n : Int) := by
  have hfloor : (n : Rat).floor = n := Rat.floor_intCast n
  have hfits : n ≤ Word.maxSigned := h.le.trans (by decide)
  have hrange : Word.minSigned ≤ (n : Rat).floor ∧ (n : Rat).floor ≤ Word.maxSigned := by
    rw [hfloor]
    simp only [Word.minSigned]
    omega
  exact (if_pos hrange).trans (congrArg some hfloor)

end Admission.Binary64
