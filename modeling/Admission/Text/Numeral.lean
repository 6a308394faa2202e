/-!
Decimal numerals: an optional plus sign and ASCII digits, with a value up to a given bound.
-/

namespace Admission.Text

/-- Why a text is no numeral. -/
inductive NumeralError
  | empty
  | invalidDigit
  | tooLarge
deriving DecidableEq, Repr

namespace NumeralError

def message : NumeralError → String
  | empty => "cannot parse integer from empty string"
  | invalidDigit => "invalid digit found in string"
  | tooLarge => "number too large to fit in target type"

end NumeralError

namespace Numeral

def digit? (c : Char) : Option Nat :=
  if '0'.toNat ≤ c.toNat ∧ c.toNat ≤ '9'.toNat then some (c.toNat - '0'.toNat) else none

/-- Reads on from the value `n` of the digits so far. The first character that is no digit or takes
the value over `bound` decides the error. -/
def readDigits (bound : Nat) : Nat → List Char → Except NumeralError Nat
  | n, [] => .ok n
  | n, c :: cs =>
    match digit? c with
    | none => .error .invalidDigit
    | some d => if n * 10 + d ≤ bound then readDigits bound (n * 10 + d) cs else .error .tooLarge

/-- The value of a numeral. A sign alone is an invalid digit, and so is a minus sign. -/
def read (bound : Nat) : List Char → Except NumeralError Nat
  | [] => .error .empty
  | '+' :: [] => .error .invalidDigit
  | '+' :: cs => readDigits bound 0 cs
  | cs => readDigits bound 0 cs

/-- A word, written as a numeral. -/
def read64 (cs : List Char) : Except NumeralError UInt64 :=
  (read (UInt64.size - 1) cs).map UInt64.ofNat

end Numeral

end Admission.Text
