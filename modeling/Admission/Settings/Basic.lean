import Admission.Error

/-!
The settings that every request consults, and which of them are refused.
-/

namespace Admission

/-- What a second request does that finds its key claimed and not completed. -/
inductive InFlight
  /-- Poll the record until it completes and replay it, or give up. -/
  | wait (maxWaitMs pollIntervalMs : UInt64)
  /-- Run the handler again without recording its response. -/
  | proceed
deriving DecidableEq, Repr

structure Settings where
  rateLimitEnabled : Bool := true
  storeTimeoutMs : UInt64 := 2000
  idempotencyTtlSecs : UInt64 := 86400
  processingLeaseSecs : UInt64 := 60
  idempotencyHeader : String := "X-Idempotency-Key"
  participantHeader : String := "X-Participant-Id"
  userHeader : String := "PI-PayerId"
  anonymousIdentifier : String := "anonymous"
  inFlight : InFlight := .wait 5000 50
deriving DecidableEq, Repr

namespace Settings

def zero (field : String) : SettingError := ⟨field, .zero⟩

/-- Refuses settings under which every store call would fail or a wait would never pause. -/
def validate (s : Settings) : Except SettingError Unit :=
  if s.storeTimeoutMs = 0 then .error (zero "store_timeout_ms")
  else if s.idempotencyTtlSecs = 0 then .error (zero "idempotency_ttl_secs")
  else if s.processingLeaseSecs = 0 then .error (zero "processing_lease_secs")
  else
    match s.inFlight with
    | .wait _ interval =>
      if interval = 0 then .error (zero "in_flight.poll_interval_ms") else .ok ()
    | .proceed => .ok ()

def storeTimeout (s : Settings) : Span := .ofMillis s.storeTimeoutMs.toNat

/-- The deadline of each store call, at least a millisecond. -/
def storeDeadline (s : Settings) : Span := max s.storeTimeout (.ofMillis 1)

def idempotencyTtl (s : Settings) : Span := .ofSecs s.idempotencyTtlSecs.toNat

def processingLease (s : Settings) : Span := .ofSecs s.processingLeaseSecs.toNat

end Settings

end Admission
