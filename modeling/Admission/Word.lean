/-!
Arithmetic on machine words that stops at the ends of the range instead of wrapping.
-/

namespace Admission.Word

/-- The largest signed word. -/
def maxSigned : Nat := 0x7FFFFFFFFFFFFFFF

/-- The least signed word. -/
def minSigned : Int := -0x8000000000000000

/-- The sum, or the largest word where the sum is larger. -/
def addClamped (a b : UInt64) : UInt64 :=
  UInt64.ofNatClamp (a.toNat + b.toNat)

/-- The difference, or zero where it would be negative. -/
def subClamped (a b : UInt64) : UInt64 :=
  if b ≤ a then a - b else 0

/-- The same for the narrower word. -/
def subClamped32 (a b : UInt32) : UInt32 :=
  if b ≤ a then a - b else 0

theorem toNat_ofNatClamp (n : Nat) :
    (UInt64.ofNatClamp n).toNat = min n (UInt64.size - 1) := by
  unfold UInt64.ofNatClamp
  split
  · next h =>
    simp only [UInt64.toNat_ofNatLT, UInt64.size] at h ⊢
    omega
  · next h =>
    simp only [UInt64.toNat_ofNatLT, UInt64.size] at h ⊢
    omega

theorem toNat_addClamped (a b : UInt64) :
    (addClamped a b).toNat = min (a.toNat + b.toNat) (UInt64.size - 1) :=
  toNat_ofNatClamp _

theorem toNat_subClamped (a b : UInt64) :
    (subClamped a b).toNat = a.toNat - b.toNat := by
  unfold subClamped
  split
  · next h => exact UInt64.toNat_sub_of_le a b h
  · next h =>
    have : a.toNat < b.toNat := by simpa [UInt64.le_iff_toNat_le] using h
    simp only [UInt64.toNat_zero]
    omega

theorem toNat_subClamped32 (a b : UInt32) :
    (subClamped32 a b).toNat = a.toNat - b.toNat := by
  unfold subClamped32
  split
  · next h => exact UInt32.toNat_sub_of_le a b h
  · next h =>
    have : a.toNat < b.toNat := by simpa [UInt32.le_iff_toNat_le] using h
    simp only [UInt32.toNat_zero]
    omega

end Admission.Word
