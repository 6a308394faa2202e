import Admission.Server.Binary64

/-!
The text of floating point numbers: writing them with seventeen significant digits or without
decimals, and reading decimal and hexadecimal numerals and the names of infinity and of no number.
-/

namespace Admission.Binary64

/-! ### Writing -/

def digits (n : Nat) : List Char := Nat.toDigits 10 n

def minus (negative : Bool) (cs : List Char) : List Char := if negative then '-' :: cs else cs

/-- The greatest `e` with `10 ^ e ≤ a`, for a positive `a`. -/
def floorLog10 (a : Rat) : Int :=
  let e : Int := (digits a.num.natAbs).length - (digits a.den).length
  if (10 : Rat) ^ e ≤ a then e else e - 1

/-- Seventeen significant digits as a number, and the exponent of the first of them. -/
def significant (a : Rat) : Nat × Int :=
  let e := floorLog10 a
  let n := (roundHalfEven (a / (10 : Rat) ^ (e - 16))).toNat
  if n = Nat.pow 10 17 then (Nat.pow 10 16, e + 1) else (n, e)

def dropZeros (cs : List Char) : List Char := (cs.reverse.dropWhile (· == '0')).reverse

/-- A whole part and the decimals that are left of a fraction. -/
def withPoint (whole part : List Char) : List Char :=
  match dropZeros part with
  | [] => whole
  | part => whole ++ '.' :: part

/-- A positive number with seventeen significant digits, without zeros at the end of the decimals, and
with an exponent if the first digit is far from the point. -/
def generalMagnitude (a : Rat) : List Char :=
  let (n, e) := significant a
  let ds := digits n
  if e < -4 ∨ 17 ≤ e then
    let exponent := digits e.natAbs
    withPoint (ds.take 1) (ds.drop 1) ++
      'e' :: (if e < 0 then '-' else '+') :: (List.replicate (2 - exponent.length) '0' ++ exponent)
  else if e < 0 then withPoint ['0'] (List.replicate (-e - 1).toNat '0' ++ ds)
  else withPoint (ds.take (e.toNat + 1)) (ds.drop (e.toNat + 1))

/-- A number with up to seventeen significant digits. An integer of so many digits is written in full. -/
def generalText : Binary64 → List Char
  | nan s => minus s ['n', 'a', 'n']
  | infinite s => minus s ['i', 'n', 'f']
  | finite s m =>
    minus s <|
      if m.den = 1 ∧ m.num < Nat.pow 10 17 then digits m.num.natAbs else generalMagnitude m

/-- A number rounded to an integer, a tie going to the even one. -/
def integerText : Binary64 → List Char
  | nan s => minus s ['n', 'a', 'n']
  | infinite s => minus s ['i', 'n', 'f']
  | finite s m => minus s (digits (roundHalfEven m).toNat)

/-! ### Reading -/

def isSpace (c : Char) : Bool := c = ' ' || (9 ≤ c.toNat && c.toNat ≤ 13)

def isDigit (c : Char) : Bool := 48 ≤ c.toNat && c.toNat ≤ 57

def natural (ds : List Char) : Nat := ds.foldl (fun n d => n * 10 + (d.toNat - 48)) 0

/-- `n * 10 ^ scale`. Far out of range the exact power is not needed. -/
def ofDecimal (negative : Bool) (n : Nat) (scale : Int) : Binary64 :=
  if n = 0 then .finite negative 0
  else
    let magnitude := (digits n).length + scale
    if 400 < magnitude then .infinite negative
    else if magnitude < -400 then .finite negative 0
    else ofRat (signed negative (n * (10 : Rat) ^ scale)) negative

/-- `n * 2 ^ scale`, likewise. -/
def ofBinary (negative : Bool) (n : Nat) (scale : Int) : Binary64 :=
  if n = 0 then .finite negative 0
  else
    let magnitude := n.log2 + scale
    if 1024 ≤ magnitude then .infinite negative
    else if magnitude < -1100 then .finite negative 0
    else ofRat (signed negative (n * (2 : Rat) ^ scale)) negative

/-- An exponent at the start of a text, behind a letter of either case, and what follows it; zero
without one. -/
def exponentOf (letter : Char) : List Char → Int × List Char
  | [] => (0, [])
  | e :: cs =>
    let (negative, rest) :=
      match cs with
      | '-' :: rest => (true, rest)
      | '+' :: rest => (false, rest)
      | rest => (false, rest)
    let ds := rest.takeWhile isDigit
    if e.toLower = letter ∧ ds ≠ [] then
      (if negative then -(natural ds : Int) else natural ds, rest.dropWhile isDigit)
    else (0, e :: cs)

/-- The digits before and behind a point, which may be missing, and what follows them. -/
def splitAtPoint (isDigit : Char → Bool) (cs : List Char) : List Char × List Char × List Char :=
  match cs.dropWhile isDigit with
  | '.' :: rest => (cs.takeWhile isDigit, rest.takeWhile isDigit, rest.dropWhile isDigit)
  | rest => (cs.takeWhile isDigit, [], rest)

/-- Reads digits with or without a point and an exponent, and nothing but spaces after them. -/
def ofUnsigned? (negative : Bool) (cs : List Char) : Option Binary64 :=
  let (whole, part, rest) := splitAtPoint isDigit cs
  let (e, rest) := exponentOf 'e' rest
  if whole ++ part = [] ∨ (rest.dropWhile isSpace) ≠ [] then none
  else some (ofDecimal negative (natural (whole ++ part)) (e - part.length))

def hexDigit? (c : Char) : Option Nat :=
  let n := c.toLower.toNat
  if isDigit c then some (n - 48) else if 97 ≤ n ∧ n ≤ 102 then some (n - 87) else none

def hexNatural (ds : List Char) : Nat := ds.foldl (fun n d => n * 16 + (hexDigit? d).getD 0) 0

/-- The same with hexadecimal digits behind `0x` and a power of two for an exponent. -/
def ofHexadecimal? (negative : Bool) : List Char → Option Binary64
  | '0' :: x :: cs =>
    let (whole, part, rest) := splitAtPoint (fun c => (hexDigit? c).isSome) cs
    let (e, rest) := exponentOf 'p' rest
    if x.toLower ≠ 'x' ∨ whole ++ part = [] ∨ (rest.dropWhile isSpace) ≠ [] then none
    else some (ofBinary negative (hexNatural (whole ++ part)) (e - 4 * part.length))
  | _ => none

/-- Whether a word stands for no number, alone or with letters, digits and underscores in brackets
behind it. -/
def isNanWord (word : List Char) : Bool :=
  word = ['n', 'a', 'n'] ||
    ['n', 'a', 'n', '('].isPrefixOf word && word.getLast? = some ')' &&
      (word.drop 4).dropLast.all fun c => c.isAlphanum || c == '_'

/-- Reads a word for what is no finite number, in letters of either case, and nothing but spaces after
it. -/
def ofWord? (negative : Bool) (cs : List Char) : Option Binary64 :=
  let word := (cs.takeWhile fun c => !isSpace c).map Char.toLower
  if ((cs.dropWhile fun c => !isSpace c).dropWhile isSpace) ≠ [] then none
  else if word = ['i', 'n', 'f'] ∨ word = ['i', 'n', 'f', 'i', 'n', 'i', 't', 'y'] then
    some (.infinite negative)
  else if isNanWord word then some (nan negative)
  else none

/-- Reads what follows the sign of a numeral. -/
def ofMagnitude? (negative : Bool) (cs : List Char) : Option Binary64 :=
  (ofUnsigned? negative cs).or ((ofHexadecimal? negative cs).or (ofWord? negative cs))

/-- Reads a numeral between spaces. Nothing is read after a zero byte. -/
def ofChars? (cs : List Char) : Option Binary64 :=
  match (cs.takeWhile (· != '\x00')).dropWhile isSpace with
  | '-' :: cs => ofMagnitude? true cs
  | '+' :: cs => ofMagnitude? false cs
  | cs => ofMagnitude? false cs

end Admission.Binary64
