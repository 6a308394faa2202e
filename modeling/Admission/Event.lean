import Admission.Error

/-!
What is reported about requests, with the labels and the text of each report.
-/

namespace Admission

inductive Event
  /-- The bucket had tokens. -/
  | allowed (policy : String) (remaining : UInt32)
  /-- The bucket was empty. -/
  | denied (policy : String) (retryAfterSecs : UInt64)
  /-- The response was charged. -/
  | charged (policy : String) (cost : UInt32)
  /-- The bucket could not be reached. -/
  | limiterFailedOpen (policy : String) (error : StoreError)
  /-- The request owns its key. -/
  | claimed
  /-- A recorded response was given again. -/
  | replayed (status : UInt16)
  /-- The key was still in flight after the wait. -/
  | inFlightConflict
  /-- The key was in flight and the handler ran all the same. -/
  | inFlightProceeded
  /-- A claim without a response was given up. -/
  | released
  /-- The record could not be reached. -/
  | recordsFailedOpen (error : StoreError)
deriving DecidableEq, Repr

namespace Event

def component : Event → String
  | allowed .. | denied .. | charged .. | limiterFailedOpen .. => "rate_limit"
  | _ => "idempotency"

def kind : Event → String
  | allowed .. => "allowed"
  | denied .. => "denied"
  | charged .. => "charged"
  | limiterFailedOpen .. => "fail_open"
  | claimed => "claimed"
  | replayed _ => "replayed"
  | inFlightConflict => "in_flight_conflict"
  | inFlightProceeded => "in_flight_proceeded"
  | released => "released"
  | recordsFailedOpen _ => "fail_open"

def text : Event → String
  | allowed policy remaining =>
    "RateLimit::Allowed(" ++ policy ++ ", remaining=" ++ toString remaining.toNat ++ ")"
  | denied policy secs =>
    "RateLimit::Denied(" ++ policy ++ ", retry_after=" ++ toString secs.toNat ++ "s)"
  | charged policy cost =>
    "RateLimit::Charged(" ++ policy ++ ", cost=" ++ toString cost.toNat ++ ")"
  | limiterFailedOpen policy error =>
    "RateLimit::FailOpen(" ++ policy ++ ", " ++ error.message ++ ")"
  | claimed => "Idempotency::Claimed"
  | replayed status => "Idempotency::Replayed(status=" ++ toString status.toNat ++ ")"
  | inFlightConflict => "Idempotency::InFlightConflict"
  | inFlightProceeded => "Idempotency::InFlightProceeded"
  | released => "Idempotency::Released"
  | recordsFailedOpen error => "Idempotency::FailOpen(" ++ error.message ++ ")"

end Event

end Admission
