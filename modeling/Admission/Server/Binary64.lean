import Admission.Word

/-!
Numbers of 64-bit binary floating point, as exact rationals, with arithmetic that computes exactly and
then rounds to the nearest number, a tie going to the even one.
-/

namespace Admission

/-- A number. The sign of a zero is kept, and so is that of what is no number. -/
inductive Binary64
  | nan (negative : Bool)
  | infinite (negative : Bool)
  | finite (negative : Bool) (magnitude : Rat)
deriving DecidableEq

namespace Binary64

/-! ### Rounding -/

/-- The greatest `e` with `2 ^ e ≤ a`, for a positive `a`. -/
def floorLog2 (a : Rat) : Int :=
  let e : Int := a.num.natAbs.log2 - a.den.log2
  if (2 : Rat) ^ e ≤ a then e else e - 1

/-- The nearest integer, and of two the even one. -/
def roundHalfEven (x : Rat) : Int :=
  let low := x.floor
  let rest := x - low
  if rest < 1 / 2 then low
  else if 1 / 2 < rest then low + 1
  else if low % 2 = 0 then low
  else low + 1

/-- The nearest number to a positive rational, were there no largest one: 53 significant bits, fewer
where the last of them would stand for less than `2 ^ (-1074)`. -/
def roundMagnitude (a : Rat) : Rat :=
  let unit := (2 : Rat) ^ max (floorLog2 a - 52) (-1074)
  roundHalfEven (a / unit) * unit

/-- The nearest number to a rational. `negativeZero` is the sign of an exact zero. -/
def ofRat (q : Rat) (negativeZero : Bool) : Binary64 :=
  if q = 0 then .finite negativeZero 0
  else
    let m := roundMagnitude q.abs
    if (2 : Rat) ^ (1024 : Nat) ≤ m then .infinite (q < 0) else .finite (q < 0) m

def ofNat (n : Nat) : Binary64 := ofRat n false

/-- The value with its sign. -/
def signed (negative : Bool) (magnitude : Rat) : Rat :=
  if negative then -magnitude else magnitude

/-! ### Arithmetic -/

/-- What an operation comes to that has no result. Processors differ in its sign. -/
def invalid : Binary64 := nan true

/-- The number with the other sign; what is no number stays as it is. -/
def neg : Binary64 → Binary64
  | nan s => nan s
  | infinite s => infinite (!s)
  | finite s m => finite (!s) m

def add : Binary64 → Binary64 → Binary64
  | nan s, _ => nan s
  | _, nan t => nan t
  | infinite s, infinite t => if s = t then infinite s else invalid
  | infinite s, finite .. => infinite s
  | finite .., infinite t => infinite t
  | finite s m, finite t n => ofRat (signed s m + signed t n) (s && t)

def sub (x y : Binary64) : Binary64 := add x (neg y)

def mul : Binary64 → Binary64 → Binary64
  | nan s, _ => nan s
  | _, nan t => nan t
  | infinite s, infinite t => infinite (s != t)
  | infinite s, finite t n => if n = 0 then invalid else infinite (s != t)
  | finite s m, infinite t => if m = 0 then invalid else infinite (s != t)
  | finite s m, finite t n => ofRat (signed s m * signed t n) (s != t)

def div : Binary64 → Binary64 → Binary64
  | nan s, _ => nan s
  | _, nan t => nan t
  | infinite _, infinite _ => invalid
  | infinite s, finite t _ => infinite (s != t)
  | finite s _, infinite t => finite (s != t) 0
  | finite s m, finite t n =>
    if n = 0 then if m = 0 then invalid else infinite (s != t)
    else ofRat (signed s m / signed t n) (s != t)

/-- The greatest integer that is not greater. -/
def floor : Binary64 → Binary64
  | finite s m => ofRat (signed s m).floor s
  | x => x

/-- Less than; nothing is less or greater than what is no number. -/
def lt : Binary64 → Binary64 → Bool
  | nan _, _ => false
  | _, nan _ => false
  | infinite s, infinite t => s && !t
  | infinite s, finite .. => s
  | finite .., infinite t => !t
  | finite s m, finite t n => signed s m < signed t n

/-- Less or equal. -/
def le : Binary64 → Binary64 → Bool
  | nan _, _ => false
  | _, nan _ => false
  | x, y => !lt y x

/-- What is left without what follows the point. -/
def truncate (negative : Bool) (magnitude : Rat) : Int :=
  if negative then -magnitude.floor else magnitude.floor

/-- The number without what follows the point, if there is a signed word for it. -/
def toInt64? : Binary64 → Option Int
  | finite s m =>
    let n := truncate s m
    if Word.minSigned ≤ n ∧ n ≤ Word.maxSigned then some n else none
  | _ => none

end Binary64

end Admission
