import Admission.Deadline
import Admission.Identity
import Admission.Record.Claim

/-!
The layer that requests pass through, and what it decides about a request on its arrival.
-/

namespace Admission

/-- A request, as far as the layer looks at it. -/
structure Request where
  headers : Headers
  caller : Option Caller := none
deriving DecidableEq, Repr

/-- A caller's bucket under a policy. -/
structure Account where
  policy : Policy
  identifier : String
deriving DecidableEq, Repr

/-- What a layer does: limit by a policy, keep records, or both. -/
structure Layer where
  limit : Option Policy
  keepsRecords : Bool
  resolver : Resolver := .standard

/-- What is to be done for one request. -/
structure Plan where
  /-- The bucket to consult and charge. -/
  account : Option Account
  /-- The idempotency key to claim. -/
  key : Option String
  terms : Record.Terms
  deadline : Deadline
  inFlight : InFlight
deriving DecidableEq, Repr

/-- The settings of the moment of arrival hold for the whole request. -/
def Layer.plan (layer : Layer) (settings : Settings) (request : Request) : Plan where
  account :=
    (layer.limit.filter fun _ => settings.rateLimitEnabled).map fun policy =>
      ⟨policy, layer.resolver request.headers request.caller policy.scope settings⟩
  key := if layer.keepsRecords then request.headers.idempotencyKey? settings else none
  terms := { ttl := settings.idempotencyTtl, lease := settings.processingLease }
  deadline := ⟨settings.storeDeadline⟩
  inFlight := settings.inFlight

end Admission
