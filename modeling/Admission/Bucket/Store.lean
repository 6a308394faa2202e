import Admission.Bucket.Call
import Admission.Table

/-!
Buckets kept in memory. A bucket expires when it has not been touched for its time to live, as the
clocks of the callers have it.
-/

namespace Admission.Bucket

/-- A kept bucket and the time from which on it counts as absent. -/
structure Entry where
  state : State
  expiresMs : UInt64
deriving DecidableEq, Repr

/-- Buckets by the text of their keys. -/
structure Store where
  entries : Table String Entry

namespace Store

def empty : Store := ⟨.empty⟩

/-- The bucket of a key, unless it has expired. -/
def live? (s : Store) (key : Key) (nowMs : UInt64) : Option State :=
  ((s.entries.get? key.text).filter fun e => nowMs < e.expiresMs).map Entry.state

/-- Replaces a bucket by what `f` makes of it and gives it its full time to live. -/
def mutate (s : Store) (key : Key) (nowMs : UInt64) (ttl : Span) (f : Option State → State) :
    State × Store :=
  let next := f (s.live? key nowMs)
  (next, ⟨s.entries.insert key.text ⟨next, Word.addClamped nowMs ttl.millisWord⟩⟩)

/-- Answers a call. -/
def answer (s : Store) : (call : Call) → call.Answer × Store
  | .refill key capacity rate now ttl =>
    s.mutate key now ttl fun prior => Bucket.refill prior capacity rate now
  | .deduct key capacity cost now ttl =>
    let (next, s) := s.mutate key now ttl fun prior => Bucket.deduct prior capacity cost now
    (next.tokens, s)
  | .reset key capacity now ttl =>
    let (_, s) := s.mutate key now ttl fun _ => .full capacity now
    ((), s)

/-- What is kept for a key, expired or not. -/
def peek (s : Store) (key : Key) : Option State := (s.entries.get? key.text).map Entry.state

/-- Drops the buckets that have expired. -/
def purgeExpired (s : Store) (nowMs : UInt64) : Store :=
  ⟨s.entries.filter fun _ e => nowMs < e.expiresMs⟩

def size (s : Store) : Nat := s.entries.size

end Store

end Admission.Bucket
