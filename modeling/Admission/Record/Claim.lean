import Admission.Error
import Admission.Record.Basic

/-!
What a claim on a key comes to.
-/

namespace Admission.Record

inductive Claim
  /-- The caller owns the key and must save a response or release it. -/
  | claimed
  /-- There is a record already. -/
  | alreadyClaimed (record : Record)
  /-- The store failed; the caller goes on as if there were no records. -/
  | degraded (error : StoreError)
deriving DecidableEq, Repr

namespace Claim

def ofAnswer : Except StoreError (Option Record) → Claim
  | .ok none => claimed
  | .ok (some record) => alreadyClaimed record
  | .error e => degraded e

/-- Whether the handler is to run. -/
def runsHandler : Claim → Bool
  | claimed => true
  | degraded _ => true
  | alreadyClaimed _ => false

def record? : Claim → Option Record
  | alreadyClaimed record => some record
  | _ => none

end Claim

/-- How long records live and how long claims hold their keys. -/
structure Terms where
  ttl : Span := .ofSecs 86400
  lease : Span := .ofSecs 60
deriving DecidableEq, Repr

namespace Terms

def claimCall (t : Terms) (key : String) (now : UInt64) : Call := .claim key now t.ttl t.lease

def saveCall (t : Terms) (key : String) (status : UInt16) (body : Bytes) (now : UInt64) : Call :=
  .complete key status body now t.ttl

end Terms

end Admission.Record
