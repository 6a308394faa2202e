import Admission.Bucket.Key
import Admission.Bucket.State
import Admission.Span

/-!
The calls that a store of buckets answers, each in one indivisible step.
-/

namespace Admission.Bucket

inductive Call
  /-- Credit what is owed; an absent bucket is made, full. -/
  | refill (key : Key) (capacity rate : UInt32) (nowMs : UInt64) (ttl : Span)
  /-- Take tokens out, down to none. -/
  | deduct (key : Key) (capacity cost : UInt32) (nowMs : UInt64) (ttl : Span)
  /-- Fill the bucket up. -/
  | reset (key : Key) (capacity : UInt32) (nowMs : UInt64) (ttl : Span)
deriving DecidableEq, Repr

namespace Call

/-- What a call answers: the state, the tokens left, or nothing. -/
abbrev Answer : Call → Type
  | refill .. => State
  | deduct .. => UInt32
  | reset .. => Unit

def key : Call → Key
  | refill key .. => key
  | deduct key .. => key
  | reset key .. => key

def nowMs : Call → UInt64
  | refill _ _ _ now _ => now
  | deduct _ _ _ now _ => now
  | reset _ _ now _ => now

end Call

end Admission.Bucket
