import Admission.Bytes
import Admission.Span

/-!
Records of requests by idempotency key, and the calls that a store of records answers, each in one
indivisible step.
-/

namespace Admission

/-- The response to a request, or a claim to make one. -/
structure Record where
  key : String
  /-- The final status, or zero as long as there is none. -/
  status : UInt16
  body : Bytes
  /-- The second of the first claim. -/
  createdAt : UInt64
deriving DecidableEq, Repr

namespace Record

/-- The status of a record whose response is not there yet. -/
def processingStatus : UInt16 := 0

/-- What a claim puts in. -/
def processing (key : String) (createdAt : UInt64) : Record :=
  ⟨key, processingStatus, [], createdAt⟩

def isProcessing (r : Record) : Bool := r.status == processingStatus

inductive Call
  /-- Put in a processing record, unless the key is held. -/
  | claim (key : String) (nowSecs : UInt64) (ttl lease : Span)
  /-- Write the response. -/
  | complete (key : String) (status : UInt16) (body : Bytes) (nowSecs : UInt64) (ttl : Span)
  /-- Read the record. -/
  | fetch (key : String) (nowSecs : UInt64)
  /-- Delete the record if it is still processing. -/
  | release (key : String) (nowSecs : UInt64)
deriving DecidableEq, Repr

namespace Call

/-- A claim answers the record that holds the key, if there is one, and a release whether it deleted
something. -/
abbrev Answer : Call → Type
  | claim .. => Option Record
  | complete .. => Unit
  | fetch .. => Option Record
  | release .. => Bool

def key : Call → String
  | claim key .. => key
  | complete key .. => key
  | fetch key _ => key
  | release key _ => key

end Call

end Record

end Admission
