import Admission.Bucket.Limiter
import Admission.Error
import Admission.Headers
import Admission.Record.Basic

/-!
Responses, those that are made here, and the header fields that report the rate limit.
-/

namespace Admission

structure Response where
  status : UInt16
  headers : Headers
  body : Bytes
deriving DecidableEq, Repr

namespace Response

def limitField : String := "x-ratelimit-limit"
def remainingField : String := "x-ratelimit-remaining"
def resetField : String := "x-ratelimit-reset"
def policyField : String := "x-ratelimit-policy"
def retryAfterField : String := "retry-after"
def contentTypeField : String := "content-type"
def replayedField : String := "x-idempotency-replayed"

def json : Bytes := .ofString "application/json"

/-- Reports the rate limit in place of what the fields held. A policy whose name cannot be the value of a
field goes unnamed. -/
def withLimit (r : Response) (status : Bucket.Status) (remaining : UInt32) : Response :=
  let headers := ((r.headers.set limitField (.ofNat status.limit.toNat)).set
    remainingField (.ofNat remaining.toNat)).set resetField (.ofNat status.resetAt.toNat)
  let policy := Bytes.ofString status.policy
  { r with headers := if Headers.isValue policy then headers.set policyField policy else headers }

/-- The answer to a request whose bucket is empty. -/
def tooManyRequests (status : Bucket.Status) (retryAfterSecs : UInt64) : Response :=
  let r : Response := {
    status := 429
    headers := Headers.empty.set contentTypeField json
    body := .ofString ("\x7b\"error\":\"TOO_MANY_REQUESTS\"," ++
      "\"message\":\"Rate limit exceeded. Please try again later.\"\x7d") }
  let r := r.withLimit status 0
  { r with headers := r.headers.set retryAfterField (.ofNat retryAfterSecs.toNat) }

/-- The answer to a request whose key is still in flight. -/
def inProgress : Response where
  status := 409
  headers := Headers.empty.set contentTypeField json
  body := .ofString ("\x7b\"error\":\"IDEMPOTENCY_KEY_IN_PROGRESS\"," ++
    "\"message\":\"A request with this idempotency key is still being processed.\"\x7d")

/-- Whether a number is a status that a response can have. -/
def isStatus (status : UInt16) : Bool := 100 ≤ status && status ≤ 999

/-- The recorded response. -/
def ofRecord (record : Record) : Except StoreError Response :=
  if isStatus record.status then
    .ok {
      status := record.status
      headers := (Headers.empty.set contentTypeField json).set replayedField (.ofString "true")
      body := record.body }
  else .error (.malformed (.recordStatus record.key record.status))

end Response

end Admission
