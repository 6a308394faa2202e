import Mathlib.Data.List.TakeWhile
import Admission.Proofs.Server.Exact
import Admission.Proofs.Text.Numerals
import Admission.Server.Keyspace

/-! # Whole numbers as text

Scripts and callers write a whole number as its digits and nothing else, and from these the server
and the scripts read the number back. -/

namespace Admission

theorem Bytes.chars_ofChars {cs : List Char} (h : ∀ c ∈ cs, c.toNat < 256) :
    (ofChars cs).chars = cs := by
  induction cs with
  | nil => rfl
  | cons c cs ih =>
      have hc : (UInt8.ofNat c.toNat).toNat = c.toNat := by
        rw [UInt8.toNat_ofNat']
        exact Nat.mod_eq_of_lt (h c List.mem_cons_self)
      have hcs : (ofChars cs).chars = cs := ih fun d hd => h d (List.mem_cons_of_mem c hd)
      change Char.ofNat (UInt8.ofNat c.toNat).toNat :: (ofChars cs).chars = c :: cs
      rw [hc, hcs, Char.ofNat_toNat]

namespace Binary64

/-! ## Digits -/

theorem digits_ne_nil (n : Nat) : digits n ≠ [] := Nat.toDigits_ne_nil

theorem isDigit_of_mem_digits {n : Nat} {c : Char} (h : c ∈ digits n) : isDigit c = true := by
  have hdigit : c.isDigit = true := Nat.isDigit_of_mem_toDigits (by decide) (by decide) h
  simp only [Char.isDigit, ge_iff_le, Bool.and_eq_true, decide_eq_true_eq, UInt32.le_iff_toNat_le]
    at hdigit
  simpa [isDigit] using hdigit

theorem toNat_of_isDigit {c : Char} (h : isDigit c = true) : 48 ≤ c.toNat ∧ c.toNat ≤ 57 := by
  simpa [isDigit] using h

@[simp] theorem chars_digits (n : Nat) : (Bytes.ofChars (digits n)).chars = digits n := by
  apply Bytes.chars_ofChars
  intro c hc
  have hrange := toNat_of_isDigit (isDigit_of_mem_digits hc)
  omega

theorem ne_of_isDigit {c d : Char} (h : isDigit c = true) (hd : isDigit d = false) : c ≠ d := by
  rintro rfl
  rw [h] at hd
  cases hd

@[simp] theorem natural_digits (n : Nat) : natural (digits n) = n := by
  have hfold : natural (digits n) = Nat.ofDigitChars 10 (digits n) 0 := by
    simp only [natural, Nat.ofDigitChars_eq_foldl, Nat.mul_comm]
    rfl
  rw [hfold]
  exact Nat.ofDigitChars_ten_toDigits

/-- No zeros stand in front. -/
theorem head?_digits_ne {n : Nat} (h : 0 < n) : (digits n).head? ≠ some '0' := by
  induction n using Nat.strongRecOn with
  | ind n ih =>
      rw [digits, Nat.toDigits_eq_if (by decide)]
      split
      · next hsmall => 
        simp
        omega
      · next hlarge =>
        have hhead := ih (n / 10) (Nat.div_lt_self h (by decide)) (by omega)
        rw [List.head?_append_of_ne_nil _ Nat.toDigits_ne_nil]
        exact hhead

theorem length_digits_le {n : Nat} (h : n < 10 ^ 17) : (digits n).length ≤ 17 :=
  (Nat.length_toDigits_le_iff (by decide) (by decide)).mpr h

/-! ## Writing -/

theorem generalText_whole {n : Nat} (h : n ≤ 2 ^ 53) : (whole n).generalText = digits n := by
  have hshort : ((n : Rat).den = 1 ∧ (n : Rat).num < Nat.pow 10 17) := by
    refine ⟨Rat.den_natCast n, ?_⟩
    rw [Rat.num_natCast]
    exact mod_cast (by omega : n < 10 ^ 17)
  simp only [whole, generalText, if_pos hshort, minus]
  rfl

theorem integerText_whole (n : Nat) : (whole n).integerText = digits n := by
  have hround : roundHalfEven (n : Rat) = n := roundHalfEven_intCast n
  simp only [whole, integerText, hround, minus]
  rfl

/-! ## Reading -/

theorem takeWhile_digits {p : Char → Bool} (h : ∀ c, isDigit c = true → p c = true) (n : Nat) :
    (digits n).takeWhile p = digits n :=
  List.takeWhile_eq_self_iff.mpr fun c hc => h c (isDigit_of_mem_digits hc)

theorem dropWhile_digits {p : Char → Bool} (h : ∀ c, isDigit c = true → p c = true) (n : Nat) :
    (digits n).dropWhile p = [] :=
  List.dropWhile_eq_nil_iff.mpr fun c hc => h c (isDigit_of_mem_digits hc)

theorem exists_digits_eq_cons (n : Nat) : ∃ c cs, digits n = c :: cs ∧ isDigit c = true := by
  obtain ⟨c, cs, hcons⟩ := List.exists_cons_of_ne_nil (digits_ne_nil n)
  exact ⟨c, cs, hcons, isDigit_of_mem_digits (hcons ▸ List.mem_cons_self)⟩

theorem ofDecimal_zero {n : Nat} (h : n ≤ 2 ^ 53) : ofDecimal false n 0 = whole n := by
  have hlength := length_digits_le (by omega : n < 10 ^ 17)
  by_cases hzero : n = 0
  · subst hzero
    rfl
  · simp only [ofDecimal, if_neg hzero]
    rw [if_neg (by omega), if_neg (by omega), ← ofRat_natCast h]
    simp [signed]

theorem ofUnsigned?_digits {n : Nat} (h : n ≤ 2 ^ 53) :
    ofUnsigned? false (digits n) = some (whole n) := by
  simp only [ofUnsigned?, splitAtPoint, takeWhile_digits (fun _ => id),
    dropWhile_digits (fun _ => id), List.append_nil, natural_digits, exponentOf, List.length_nil,
    List.dropWhile_nil]
  rw [if_neg (by simp [digits_ne_nil])]
  exact congrArg some (ofDecimal_zero h)

theorem ofChars?_digits {n : Nat} (h : n ≤ 2 ^ 53) : ofChars? (digits n) = some (whole n) := by
  have hread : ofMagnitude? false (digits n) = some (whole n) := by
    rw [ofMagnitude?, ofUnsigned?_digits h, Option.some_or]
  obtain ⟨c, cs, hcons, hc⟩ := exists_digits_eq_cons n
  have hall : (digits n).takeWhile (· != '\x00') = digits n :=
    takeWhile_digits (fun d hd => by simpa using ne_of_isDigit hd (by decide)) n
  have hspace : isSpace c = false := by
    have hrange := toNat_of_isDigit hc
    have hblank : c ≠ ' ' := ne_of_isDigit hc (by decide)
    simp [isSpace, hblank]
    omega
  have hminus : c ≠ '-' := ne_of_isDigit hc (by decide)
  have hplus : c ≠ '+' := ne_of_isDigit hc (by decide)
  rw [ofChars?, hall]
  rw [hcons] at hread ⊢
  rw [List.dropWhile_cons_of_neg (by simp [hspace])]
  split
  · next hfirst => exact absurd (List.cons.inj hfirst).1 hminus
  · next hfirst => exact absurd (List.cons.inj hfirst).1 hplus
  · exact hread

end Binary64

namespace Bytes

theorem chars_ofNat (n : Nat) : (ofNat n).chars = Binary64.digits n := Binary64.chars_digits n

theorem ofNat_inj {a b : Nat} : ofNat a = ofNat b ↔ a = b := by
  refine ⟨fun h => ?_, congrArg ofNat⟩
  have hdigits : Binary64.digits a = Binary64.digits b := by
    rw [← chars_ofNat a, ← chars_ofNat b, h]
  rw [← Binary64.natural_digits a, hdigits, Binary64.natural_digits]

end Bytes

/-- What is written as a number is its numeral. -/
theorem Text.Numeral.spells_digits (n : Nat) : Spells (Binary64.digits n) n :=
  ⟨Binary64.digits n, .inl rfl, Binary64.digits_ne_nil n,
    fun _ => Nat.isDigit_of_mem_toDigits (by decide) (by decide), Nat.ofDigitChars_ten_toDigits⟩

theorem Text.Numeral.read_digits {bound n : Nat} (h : n ≤ bound) :
    read bound (Binary64.digits n) = .ok n :=
  read_eq_ok_iff.mpr ⟨spells_digits n, h⟩

theorem Server.integer?_digits (n : Nat) :
    integer? (.ofChars (Binary64.digits n)) = some (n : Int) := by
  obtain ⟨c, cs, hcons, hc⟩ := Binary64.exists_digits_eq_cons n
  have hplain : Binary64.digits n ≠ [] ∧ (Binary64.digits n).all Binary64.isDigit = true ∧
      ((Binary64.digits n).head? = some '0' → Binary64.digits n = ['0']) := by
    refine ⟨Binary64.digits_ne_nil n, List.all_eq_true.mpr fun d => Binary64.isDigit_of_mem_digits,
      fun hhead => ?_⟩
    rcases Nat.eq_zero_or_pos n with rfl | hpos
    · rfl
    · exact absurd hhead (Binary64.head?_digits_ne hpos)
  have hminus : c ≠ '-' := Binary64.ne_of_isDigit hc (by decide)
  rw [integer?, Binary64.chars_digits]
  split
  · next hfirst => exact absurd (List.cons.inj (hcons.symm.trans hfirst)).1 hminus
  · simp only [if_pos hplain, Binary64.natural_digits]
    rfl

end Admission
