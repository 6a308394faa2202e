import Admission.Proofs.Server.Exact
import Admission.Server.Buckets

/-! # What rounding does not exceed

Numbers are rounded, and may be infinite or none at all, but a whole number that floating point
holds is a bound after rounding just as before. So no count of tokens gets above the capacity,
whatever text it was read from. -/

namespace Admission

namespace Binary64

/-! ## Rounding -/

theorem roundHalfEven_le {x : Rat} {n : Int} (h : x ≤ n) : roundHalfEven x ≤ n := by
  have hround := roundHalfEven_le_add_half x
  have hnext : (roundHalfEven x : Rat) < n + 1 := by linarith
  exact Int.lt_add_one_iff.mp (mod_cast hnext)

theorem roundHalfEven_nonneg {x : Rat} (h : 0 ≤ x) : 0 ≤ roundHalfEven x :=
  (Rat.le_floor_iff.mpr (by simpa using h)).trans (floor_le_roundHalfEven x)

theorem roundMagnitude_nonneg {a : Rat} (h : 0 ≤ a) : 0 ≤ roundMagnitude a := by
  have hunit : (0 : Rat) < 2 ^ max (floorLog2 a - 52) (-1074) := Rat.zpow_pos two_pos
  have hround : (0 : Rat) ≤ roundHalfEven (a / 2 ^ max (floorLog2 a - 52) (-1074)) :=
    mod_cast roundHalfEven_nonneg (div_nonneg h hunit.le)
  exact mul_nonneg hround hunit.le

/-- A whole number below `2 ^ 53` is a multiple of every unit that is rounded to below it. -/
theorem roundMagnitude_le {a : Rat} {n : Nat} (ha : 0 < a) (hle : a ≤ n) (hn : n < 2 ^ 53) :
    roundMagnitude a ≤ n := by
  have hlog : floorLog2 a < 53 := floorLog2_lt ha (hle.trans_lt (mod_cast hn))
  obtain ⟨k, hk⟩ : ∃ k : Nat, max (floorLog2 a - 52) (-1074) = -(k : Int) :=
    ⟨(-max (floorLog2 a - 52) (-1074)).toNat, by omega⟩
  have hunit : (2 : Rat) ^ max (floorLog2 a - 52) (-1074) = (2 ^ k)⁻¹ := by
    rw [hk, Rat.zpow_neg, Rat.zpow_natCast]
  have hpow : (0 : Rat) < 2 ^ k := by positivity
  have hround : roundHalfEven (a * 2 ^ k) ≤ ((n * 2 ^ k : Nat) : Int) := by
    apply roundHalfEven_le
    push_cast
    exact mul_le_mul_of_nonneg_right hle hpow.le
  have hwhole : (roundHalfEven (a * 2 ^ k) : Rat) ≤ n * 2 ^ k := mod_cast hround
  simp only [roundMagnitude, hunit, div_inv_eq_mul, ← div_eq_mul_inv]
  exact (div_le_iff₀ hpow).mpr hwhole

/-! ## Bounds -/

/-- Not above a whole number; what is no number is above nothing. -/
def AtMost (x : Binary64) (n : Nat) : Prop := (whole n).lt x = false

/-- Not below zero. -/
def IsNonneg (x : Binary64) : Prop := x.lt (whole 0) = false

/-- Some number, if only an infinite one. -/
def IsNumber (x : Binary64) : Prop := ∀ negative, x ≠ nan negative

variable {x : Binary64} {n : Nat}

theorem atMost_finite_iff {negative : Bool} {m : Rat} :
    (finite negative m).AtMost n ↔ signed negative m ≤ n := by
  simp [AtMost, whole, lt, signed]

theorem isNonneg_finite_iff {negative : Bool} {m : Rat} :
    (finite negative m).IsNonneg ↔ 0 ≤ signed negative m := by
  simp [IsNonneg, whole, lt, signed]

theorem atMost_whole (n : Nat) : (whole n).AtMost n := by
  simp [AtMost]

theorem isNonneg_whole (n : Nat) : (whole n).IsNonneg := by
  simp [IsNonneg]

theorem isNumber_whole (n : Nat) : (whole n).IsNumber := by
  intro negative h
  cases h

theorem ofRat_isNumber (q : Rat) (negativeZero : Bool) : (ofRat q negativeZero).IsNumber := by
  intro negative h
  unfold ofRat at h
  split at h
  · cases h
  · dsimp only at h
    split at h <;> cases h

theorem ofRat_atMost {q : Rat} (hle : q ≤ n) (hn : n < 2 ^ 53) (negativeZero : Bool) :
    (ofRat q negativeZero).AtMost n := by
  rcases lt_trichotomy q 0 with hq | rfl | hq
  · -- What is rounded from below zero is not above zero.
    have hround := roundMagnitude_nonneg q.abs_nonneg
    simp only [ofRat, if_neg hq.ne, hq, decide_true]
    split
    · rfl
    · rw [atMost_finite_iff, signed, if_pos rfl]
      have hpos : (0 : Rat) ≤ n := n.cast_nonneg
      linarith
  · rw [ofRat, if_pos rfl, atMost_finite_iff]
    cases negativeZero <;> simp [signed]
  · have hround := roundMagnitude_le hq hle hn
    rw [ofRat_of_pos hq (hround.trans_lt (mod_cast hn)), atMost_finite_iff]
    exact hround

/-- Taking something away leaves a bound in force. -/
theorem AtMost.sub_whole (h : x.AtMost n) (hn : n < 2 ^ 53) (c : Nat) :
    (x.sub (whole c)).AtMost n := by
  cases x with
  | nan negative => rfl
  | infinite negative => cases negative <;> exact h
  | finite negative m =>
      rw [atMost_finite_iff] at h
      have hc : (0 : Rat) ≤ c := c.cast_nonneg
      have hle : signed negative m + signed true c ≤ n := by
        have hneg : signed true (c : Rat) = -c := if_pos rfl
        linarith
      exact ofRat_atMost hle hn _

theorem IsNumber.sub_whole (h : x.IsNumber) (c : Nat) : (x.sub (whole c)).IsNumber := by
  cases x with
  | nan negative => exact absurd rfl (h negative)
  | infinite negative =>
      intro negative' hnan
      cases hnan
  | finite negative m => exact ofRat_isNumber _ _

/-! ## As words -/

theorem truncate_le {negative : Bool} {m : Rat} (h : signed negative m ≤ n) :
    truncate negative m ≤ n := by
  cases negative with
  | true =>
      have hm : -(n : Int) ≤ m.floor := by
        rw [Rat.le_floor_iff]
        push_cast
        simp only [signed, if_true] at h
        linarith
      simp only [truncate, if_true]
      omega
  | false => exact mod_cast (m.floor_le.trans h)

theorem truncate_nonneg {negative : Bool} {m : Rat} (h : 0 ≤ signed negative m) :
    0 ≤ truncate negative m := by
  cases negative with
  | true =>
      simp only [signed, if_true] at h
      have hm : (m.floor : Rat) ≤ 0 := m.floor_le.trans (by linarith)
      have hm : m.floor ≤ 0 := mod_cast hm
      simp only [truncate, if_true]
      omega
  | false => exact Rat.le_floor_iff.mpr (by simpa [signed] using h)

theorem le_of_toInt64? (h : x.AtMost n) {k : Int} (hk : x.toInt64? = some k) : k ≤ n := by
  cases x with
  | nan negative => cases hk
  | infinite negative => cases hk
  | finite negative m =>
      obtain ⟨-, hk⟩ := Option.ite_none_right_eq_some.mp hk
      rw [← Option.some_inj.mp hk]
      exact truncate_le (atMost_finite_iff.mp h)

/-- Between zero and a word, only what is no number has no word. -/
theorem exists_toInt64?_eq (hnonneg : x.IsNonneg) (hle : x.AtMost n) (hn : n ≤ Word.maxSigned)
    (hnumber : x.IsNumber) : ∃ k : Nat, k ≤ n ∧ x.toInt64? = some (k : Int) := by
  cases x with
  | nan negative => exact absurd rfl (hnumber negative)
  | infinite negative =>
      cases negative with
      | true => cases hnonneg
      | false => cases hle
  | finite negative m =>
      have hlow := truncate_nonneg (isNonneg_finite_iff.mp hnonneg)
      have hhigh := truncate_le (atMost_finite_iff.mp hle)
      have hrange : Word.minSigned ≤ truncate negative m ∧
          truncate negative m ≤ Word.maxSigned := by
        simp only [Word.minSigned]
        omega
      obtain ⟨k, hk⟩ := Int.eq_ofNat_of_zero_le hlow
      exact ⟨k, by omega, (if_pos hrange).trans (congrArg some hk)⟩

end Binary64

/-! ## Tokens -/

namespace Server

open Binary64 (whole ofNat)

variable {n : Nat}

theorem clampTokens_atMost (tokens : Binary64) : (clampTokens tokens (whole n)).AtMost n := by
  rw [clampTokens]
  split
  · exact Binary64.atMost_whole n
  · next h => exact Bool.eq_false_iff.mpr h

theorem clampTokens_isNumber {tokens : Binary64} (h : tokens.IsNumber) :
    (clampTokens tokens (whole n)).IsNumber := by
  rw [clampTokens]
  split
  · exact Binary64.isNumber_whole n
  · exact h

/-- What is not at least the capacity is not above it. -/
theorem atMost_of_not_le {tokens : Binary64} (h : ¬ (whole n).le tokens = true) :
    tokens.AtMost n := by
  cases tokens with
  | nan negative => rfl
  | infinite negative =>
      cases negative with
      | true => rfl
      | false => exact absurd rfl h
  | finite negative m =>
      rw [Binary64.atMost_finite_iff]
      have hlt : Binary64.signed negative m < n := by
        simpa [Binary64.le, Binary64.lt, whole, Binary64.signed] using h
      exact hlt.le

theorem credit_atMost {tokens : Binary64} (h : tokens.AtMost n) (last rate now : Binary64) :
    (credit tokens last (whole n) rate now).1.AtMost n := by
  unfold credit
  extract_lets elapsed elapsed credited
  split
  · split
    · exact Binary64.atMost_whole n
    · next hbelow => exact atMost_of_not_le hbelow
  · exact h

end Server

end Admission
