/-!
Strings of bytes: bodies, header values and what a store keeps.
-/

namespace Admission

abbrev Bytes := List UInt8

namespace Bytes

/-- The UTF-8 form of a text. -/
def ofString (s : String) : Bytes := s.toUTF8.data.toList

/-- A text of characters below 256, one byte for each. -/
def ofChars (cs : List Char) : Bytes := cs.map fun c => UInt8.ofNat c.toNat

/-- A number in decimal digits. -/
def ofNat (n : Nat) : Bytes := ofChars (Nat.toDigits 10 n)

/-- One character for each byte. -/
def chars (b : Bytes) : List Char := b.map fun x => Char.ofNat x.toNat

/-- The text whose UTF-8 form this is. -/
def text? (b : Bytes) : Option String := String.fromUTF8? ⟨b.toArray⟩

end Bytes

end Admission
