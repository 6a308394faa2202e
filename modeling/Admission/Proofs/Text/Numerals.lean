import Admission.Text.Numeral
import Mathlib.Tactic.SplitIfs

/-! # What numerals spell

A numeral is read just if it spells a number within the bound, and it is read as that number. -/

namespace Admission.Text.Numeral

/-- Digits, at least one and possibly after a plus sign, whose value is `n`. -/
def Spells (cs : List Char) (n : Nat) : Prop :=
  ∃ ds, (cs = ds ∨ cs = '+' :: ds) ∧ ds ≠ [] ∧ (∀ d ∈ ds, d.isDigit = true) ∧
    Nat.ofDigitChars 10 ds 0 = n

/-! ## Digits -/

theorem isDigit_iff {c : Char} : c.isDigit = true ↔ '0'.toNat ≤ c.toNat ∧ c.toNat ≤ '9'.toNat := by
  simp only [Char.isDigit, ge_iff_le, Bool.and_eq_true, decide_eq_true_eq, UInt32.le_iff_toNat_le]
  rfl

theorem digit?_of_isDigit {c : Char} (h : c.isDigit = true) :
    digit? c = some (c.toNat - '0'.toNat) :=
  if_pos (isDigit_iff.mp h)

theorem digit?_of_isDigit_eq_false {c : Char} (h : ¬ c.isDigit = true) : digit? c = none :=
  if_neg (mt isDigit_iff.mpr h)

theorem not_isDigit_plus : ¬ '+'.isDigit = true := by decide

/-- More digits never make a number smaller. -/
theorem le_ofDigitChars (ds : List Char) (n : Nat) : n ≤ Nat.ofDigitChars 10 ds n := by
  induction ds generalizing n with
  | nil => exact Nat.le_refl n
  | cons d ds ih =>
      rw [Nat.ofDigitChars_cons]
      calc
        n ≤ 10 * n + (d.toNat - '0'.toNat) := by omega
        _ ≤ Nat.ofDigitChars 10 ds (10 * n + (d.toNat - '0'.toNat)) := ih _

/-! ## Reading -/

/-- Digits are read on from a number within the bound as long as it stays there. -/
theorem readDigits_eq_ok_iff {bound n m : Nat} {cs : List Char} (hn : n ≤ bound) :
    readDigits bound n cs = .ok m ↔
      (∀ c ∈ cs, c.isDigit = true) ∧ Nat.ofDigitChars 10 cs n = m ∧ m ≤ bound := by
  induction cs generalizing n with
  | nil =>
      simp only [readDigits, Except.ok.injEq, List.not_mem_nil, false_implies, implies_true,
        Nat.ofDigitChars_nil, true_and]
      exact ⟨fun h => ⟨h, h ▸ hn⟩, fun h => h.1⟩
  | cons c cs ih =>
      rw [List.forall_mem_cons, Nat.ofDigitChars_cons, Nat.mul_comm]
      by_cases hc : c.isDigit = true
      · simp only [readDigits, digit?_of_isDigit hc]
        split_ifs with hle
        · simp only [ih hle, hc, true_and]
        · -- The number has left the bound and does not come back.
          have hmore := le_ofDigitChars cs (n * 10 + (c.toNat - '0'.toNat))
          constructor
          · exact nofun
          · rintro ⟨-, hvalue, hm⟩
            omega
      · simp only [readDigits, digit?_of_isDigit_eq_false hc]
        exact ⟨nofun, fun h => absurd h.1.1 hc⟩

theorem spells_cons_iff {c : Char} {cs : List Char} {n : Nat} (hc : c ≠ '+') :
    Spells (c :: cs) n ↔
      (∀ d ∈ c :: cs, d.isDigit = true) ∧ Nat.ofDigitChars 10 (c :: cs) 0 = n := by
  constructor
  · rintro ⟨ds, rfl | hplus, -, hdigits, hvalue⟩
    · exact ⟨hdigits, hvalue⟩
    · exact absurd (List.cons.inj hplus).1 hc
  · rintro ⟨hdigits, hvalue⟩
    exact ⟨c :: cs, .inl rfl, nofun, hdigits, hvalue⟩

theorem spells_plus_iff {cs : List Char} {n : Nat} :
    Spells ('+' :: cs) n ↔
      cs ≠ [] ∧ (∀ d ∈ cs, d.isDigit = true) ∧ Nat.ofDigitChars 10 cs 0 = n := by
  constructor
  · rintro ⟨ds, rfl | hplus, hne, hdigits, hvalue⟩
    · exact absurd (hdigits '+' List.mem_cons_self) not_isDigit_plus
    · obtain ⟨-, rfl⟩ := List.cons.inj hplus
      exact ⟨hne, hdigits, hvalue⟩
  · rintro ⟨hne, hdigits, hvalue⟩
    exact ⟨cs, .inr rfl, hne, hdigits, hvalue⟩

theorem not_spells_nil {n : Nat} : ¬ Spells [] n := by
  rintro ⟨ds, hds | hds, hne, -⟩
  · exact hne hds.symm
  · cases hds

theorem read_cons {bound : Nat} {c : Char} {cs : List Char} (hc : c ≠ '+') :
    read bound (c :: cs) = readDigits bound 0 (c :: cs) := by
  unfold read
  split
  · next h => cases h
  · next h => exact absurd (List.cons.inj h).1 hc
  · next h => exact absurd (List.cons.inj h).1 hc
  · rfl

/-- A reader takes the numerals of the numbers up to its bound, and nothing else. -/
theorem read_eq_ok_iff {bound n : Nat} {cs : List Char} :
    read bound cs = .ok n ↔ Spells cs n ∧ n ≤ bound := by
  cases cs with
  | nil => exact ⟨nofun, fun h => absurd h.1 not_spells_nil⟩
  | cons c cs =>
      by_cases hc : c = '+'
      · subst hc
        cases cs with
        | nil => exact ⟨nofun, fun h => absurd rfl (spells_plus_iff.mp h.1).1⟩
        | cons d ds =>
            have hread : read bound ('+' :: d :: ds) = readDigits bound 0 (d :: ds) := rfl
            rw [hread, readDigits_eq_ok_iff (Nat.zero_le bound), spells_plus_iff, and_assoc,
              and_assoc]
            exact (and_iff_right (List.cons_ne_nil d ds)).symm
      · rw [read_cons hc, readDigits_eq_ok_iff (Nat.zero_le bound), spells_cons_iff hc, and_assoc]

/-- Every numeral of a word is read as that word. -/
theorem read64_eq_ok_iff {cs : List Char} {w : UInt64} :
    read64 cs = .ok w ↔ Spells cs w.toNat := by
  constructor
  · intro h
    cases hread : read (UInt64.size - 1) cs with
    | error e =>
        rw [read64, hread] at h
        cases h
    | ok n =>
        obtain ⟨hspells, hbound⟩ := read_eq_ok_iff.mp hread
        rw [read64, hread] at h
        obtain rfl : UInt64.ofNat n = w := Except.ok.inj h
        rwa [UInt64.toNat_ofNat_of_lt' (Nat.lt_of_le_of_lt hbound (by decide))]
  · intro h
    have hread : read (UInt64.size - 1) cs = .ok w.toNat :=
      read_eq_ok_iff.mpr ⟨h, Nat.le_sub_one_of_lt w.toNat_lt⟩
    rw [read64, hread]
    exact congrArg Except.ok (UInt64.ofNat_toNat)

end Admission.Text.Numeral
