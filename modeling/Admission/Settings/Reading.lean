import Admission.Json.Decode
import Admission.Settings.Basic

/-!
Settings from JSON. Every field may be left out.
-/

namespace Admission

open Json (Value)

/-- A mode by its name and, for a wait, its two numbers: an object that names the mode under `mode`,
or an array that starts with it. The value is kept before it is read, so it must be keepable. -/
def InFlight.ofJson? (v : Value) : Option InFlight :=
  if v.isKeepable (Json.depthLimit - 1) then
    match v with
    | .object members =>
      match Value.member? members "mode" with
      | some (some (.string (some "wait"))) =>
        match v.fields? ["max_wait_ms", "poll_interval_ms"] with
        | some [maxWait, interval] => do
          return .wait (← Value.required Value.word64? maxWait)
            (← Value.required Value.word64? interval)
        | _ => none
      | some (some (.string (some "proceed"))) => some .proceed
      | _ => none
    | .array [.string (some "wait"), maxWait, interval] => do
      return .wait (← maxWait.word64?) (← interval.word64?)
    | .array [.string (some "proceed")] => some .proceed
    | _ => none
  else none

namespace Settings

def ofJson? (v : Value) : Option Settings :=
  let default : Settings := {}
  match v.fields?
    ["rate_limit_enabled", "store_timeout_ms", "idempotency_ttl_secs", "processing_lease_secs",
      "idempotency_header", "participant_header", "user_header", "anonymous_identifier",
      "in_flight"] with
  | some [enabled, timeout, ttl, lease, keyHeader, participant, user, anonymous, inFlight] => do
    return {
      rateLimitEnabled := ← Value.optional default.rateLimitEnabled Value.flag? enabled
      storeTimeoutMs := ← Value.optional default.storeTimeoutMs Value.word64? timeout
      idempotencyTtlSecs := ← Value.optional default.idempotencyTtlSecs Value.word64? ttl
      processingLeaseSecs := ← Value.optional default.processingLeaseSecs Value.word64? lease
      idempotencyHeader := ← Value.optional default.idempotencyHeader Value.text? keyHeader
      participantHeader := ← Value.optional default.participantHeader Value.text? participant
      userHeader := ← Value.optional default.userHeader Value.text? user
      anonymousIdentifier := ← Value.optional default.anonymousIdentifier Value.text? anonymous
      inFlight := ← Value.optional default.inFlight InFlight.ofJson? inFlight }
  | _ => none

def ofText? (text : String) : Option Settings := (Value.ofText? text).bind ofJson?

end Settings

end Admission
