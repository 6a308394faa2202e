/-!
Lengths of time: whole nanoseconds, read off in seconds or milliseconds, and their text.
-/

namespace Admission

/-- A length of time in nanoseconds. -/
structure Span where
  nanos : Nat
deriving DecidableEq, Repr

namespace Span

def ofNanos (n : Nat) : Span := ⟨n⟩
def ofMillis (n : Nat) : Span := ⟨n * 1000000⟩
def ofSecs (n : Nat) : Span := ⟨n * 1000000000⟩

/-- The longest length of time that can be written: one nanosecond short of `2 ^ 64` seconds. -/
def longest : Span := ⟨UInt64.size * 1000000000 - 1⟩

/-- Whole seconds. -/
def secs (s : Span) : Nat := s.nanos / 1000000000

/-- The nanoseconds left over after the whole seconds. -/
def subsecNanos (s : Span) : Nat := s.nanos % 1000000000

/-- Whole milliseconds. -/
def millis (s : Span) : Nat := s.nanos / 1000000

/-- The milliseconds after which the span is over: a started millisecond counts as a whole one. -/
def millisUp (s : Span) : Nat := (s.nanos + 999999) / 1000000

/-- Whole milliseconds as a word. -/
def millisWord (s : Span) : UInt64 := UInt64.ofNatClamp s.millis

/-- Whole seconds as a word. -/
def secsWord (s : Span) : UInt64 := UInt64.ofNatClamp s.secs

instance : Max Span := ⟨fun a b => if a.nanos ≤ b.nanos then b else a⟩

/-! ### Text -/

/-- The digits after the point, `places` of them, without the zeros at the end. -/
def fraction (places n : Nat) : List Char :=
  let digits := Nat.toDigits 10 n
  let padded := List.replicate (places - digits.length) '0' ++ digits
  (padded.reverse.dropWhile (· == '0')).reverse

/-- `n` counted in units of `10 ^ places`, followed by the name of the unit. -/
def inUnit (places : Nat) (name : String) (n : Nat) : String :=
  let whole := String.ofList (Nat.toDigits 10 (n / Nat.pow 10 places))
  let rest := fraction places (n % Nat.pow 10 places)
  if rest.isEmpty then whole ++ name else whole ++ "." ++ String.ofList rest ++ name

/-- The exact length in the largest unit of which there is at least one. -/
def text (s : Span) : String :=
  if 1000000000 ≤ s.nanos then inUnit 9 "s" s.nanos
  else if 1000000 ≤ s.nanos then inUnit 6 "ms" s.nanos
  else if 1000 ≤ s.nanos then inUnit 3 "µs" s.nanos
  else inUnit 0 "ns" s.nanos

end Span

end Admission
