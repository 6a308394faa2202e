/-!
The tokens of a JSON text. A string token has no text when an escape in it is half of a surrogate
pair, and a number token keeps its digits exactly.
-/

namespace Admission.Json

/-- A number as written: `digits * 10 ^ scale`, negative or not. It is `plain` when it has neither
sign, point nor exponent. -/
structure Number where
  negative : Bool
  digits : Nat
  scale : Int
  plain : Bool
deriving DecidableEq, Repr

inductive Token
  | braceOpen
  | braceClose
  | bracketOpen
  | bracketClose
  | colon
  | comma
  | null
  | bool (b : Bool)
  | number (n : Number)
  | string (s : Option String)
deriving DecidableEq, Repr

/-! ### Strings -/

def hexDigit? (c : Char) : Option Nat :=
  let n := c.toNat
  if 48 ≤ n ∧ n ≤ 57 then some (n - 48)
  else if 65 ≤ n ∧ n ≤ 70 then some (n - 55)
  else if 97 ≤ n ∧ n ≤ 102 then some (n - 87)
  else none

def hexUnit? (a b c d : Char) : Option Nat :=
  match hexDigit? a, hexDigit? b, hexDigit? c, hexDigit? d with
  | some a, some b, some c, some d => some (((a * 16 + b) * 16 + c) * 16 + d)
  | _, _, _, _ => none

def isLeading (u : Nat) : Bool := 0xD800 ≤ u && u ≤ 0xDBFF

def isTrailing (u : Nat) : Bool := 0xDC00 ≤ u && u ≤ 0xDFFF

/-- The character of a surrogate pair. -/
def pairChar (lead trail : Nat) : Char :=
  Char.ofNat (0x10000 + (lead - 0xD800) * 0x400 + (trail - 0xDC00))

def shortEscape? : Char → Option Char
  | '"' => some '"'
  | '\\' => some '\\'
  | '/' => some '/'
  | 'b' => some '\x08'
  | 'f' => some '\x0c'
  | 'n' => some '\n'
  | 'r' => some '\r'
  | 't' => some '\t'
  | _ => none

/-- The second half of a surrogate pair, escaped, and what follows it. -/
def scanTrailing? : List Char → Option (Nat × List Char)
  | '\\' :: 'u' :: a :: b :: c :: d :: rest =>
    (hexUnit? a b c d).bind fun v => if isTrailing v then some (v, rest) else none
  | _ => none

theorem length_of_scanTrailing? {cs rest : List Char} {v : Nat}
    (h : scanTrailing? cs = some (v, rest)) : rest.length < cs.length := by
  unfold scanTrailing? at h
  split at h
  · simp only [Option.bind_eq_some_iff] at h
    obtain ⟨v', _, h⟩ := h
    split at h
    · simp only [Option.some.injEq, Prod.mk.injEq] at h
      simp only [← h.2, List.length_cons]
      omega
    · cases h
  · cases h

/-- Reads a string up to its closing quote, after what has been read of it in reverse. The content is
`none` from an unpaired half of a surrogate pair on. Fails on a control character, an unknown
escape or a missing quote. -/
def scanString (seen : Option (List Char)) : List Char → Option (Option String × List Char)
  | [] => none
  | '"' :: rest => some (seen.map fun cs => String.ofList cs.reverse, rest)
  | '\\' :: 'u' :: a :: b :: c :: d :: rest =>
    match hexUnit? a b c d with
    | none => none
    | some u =>
      if isTrailing u then scanString none rest
      else if isLeading u then
        match _h : scanTrailing? rest with
        | some (v, rest') => scanString (seen.map (pairChar u v :: ·)) rest'
        | none => scanString none rest
      else scanString (seen.map (Char.ofNat u :: ·)) rest
  | '\\' :: c :: rest =>
    match shortEscape? c with
    | none => none
    | some c => scanString (seen.map (c :: ·)) rest
  | c :: rest => if c.toNat < 0x20 then none else scanString (seen.map (c :: ·)) rest
termination_by cs => cs.length
decreasing_by
  all_goals simp only [List.length_cons]
  case _ => omega
  case _ => exact Nat.lt_of_lt_of_le (length_of_scanTrailing? _h) (by omega)
  all_goals omega

/-! ### Numbers -/

def isDigit (c : Char) : Bool := 48 ≤ c.toNat && c.toNat ≤ 57

def valueOf (ds : List Char) : Nat := ds.foldl (fun n d => n * 10 + (d.toNat - 48)) 0

/-- A run of digits and what follows it, if there is at least one digit. -/
def scanDigits? (cs : List Char) : Option (List Char × List Char) :=
  match cs.takeWhile isDigit with
  | [] => none
  | ds => some (ds, cs.dropWhile isDigit)

/-- The exponent and what follows it; zero without one. -/
def scanExponent? : List Char → Option (Bool × Int × List Char)
  | e :: cs =>
    if e = 'e' ∨ e = 'E' then
      match cs with
      | '-' :: cs => (scanDigits? cs).map fun (ds, rest) => (true, -(valueOf ds : Int), rest)
      | '+' :: cs => (scanDigits? cs).map fun (ds, rest) => (true, (valueOf ds : Int), rest)
      | cs => (scanDigits? cs).map fun (ds, rest) => (true, (valueOf ds : Int), rest)
    else some (false, 0, e :: cs)
  | [] => some (false, 0, [])

/-- The digits after the point and what follows them. -/
def scanFraction? : List Char → Option (List Char × List Char)
  | '.' :: cs => scanDigits? cs
  | cs => some ([], cs)

/-- The digits before the point: a zero stands alone. -/
def scanWhole? : List Char → Option (List Char × List Char)
  | '0' :: cs => some (['0'], cs)
  | cs => scanDigits? cs

def scanUnsigned? (negative : Bool) (cs : List Char) : Option (Number × List Char) :=
  (scanWhole? cs).bind fun (whole, cs) =>
  (scanFraction? cs).bind fun (part, cs) =>
  (scanExponent? cs).map fun (marked, e, rest) =>
    (⟨negative, valueOf (whole ++ part), e - part.length, !negative && part.isEmpty && !marked⟩,
      rest)

/-! ### The text -/

def isSpace (c : Char) : Bool := c = ' ' || c = '\t' || c = '\n' || c = '\r'

/-- The next token and what follows it, for a text that starts with no space. -/
def scanToken? : List Char → Option (Token × List Char)
  | '{' :: rest => some (.braceOpen, rest)
  | '}' :: rest => some (.braceClose, rest)
  | '[' :: rest => some (.bracketOpen, rest)
  | ']' :: rest => some (.bracketClose, rest)
  | ':' :: rest => some (.colon, rest)
  | ',' :: rest => some (.comma, rest)
  | 'n' :: 'u' :: 'l' :: 'l' :: rest => some (.null, rest)
  | 't' :: 'r' :: 'u' :: 'e' :: rest => some (.bool true, rest)
  | 'f' :: 'a' :: 'l' :: 's' :: 'e' :: rest => some (.bool false, rest)
  | '"' :: rest => (scanString (some []) rest).map fun (s, rest) => (.string s, rest)
  | '-' :: rest => (scanUnsigned? true rest).map fun (n, rest) => (.number n, rest)
  | cs => (scanUnsigned? false cs).map fun (n, rest) => (.number n, rest)

/-- Reads at most `n` tokens. -/
def scanTokens? : Nat → List Char → Option (List Token)
  | 0, cs => if (cs.dropWhile isSpace).isEmpty then some [] else none
  | n + 1, cs =>
    match cs.dropWhile isSpace with
    | [] => some []
    | cs => (scanToken? cs).bind fun (t, rest) => (scanTokens? n rest).map (t :: ·)

/-- The tokens of a text. Every token has a character of its own, so there are no more of them. -/
def tokens? (s : String) : Option (List Token) := scanTokens? s.toList.length s.toList

end Admission.Json
