import Admission.Settings.Basic
import Admission.Text.Blank

/-!
Settings from named variables. A variable that is not set leaves its default; the first variable
that cannot be used decides the error, and only then are the settings checked as a whole.
-/

namespace Admission

/-- A source of variables. -/
abbrev Variables := String → Option String

namespace Settings

/-- The word that a variable holds between blanks. -/
def wordVariable (vars : Variables) (name : String) : Except SettingError (Option UInt64) :=
  match vars name with
  | none => .ok none
  | some raw =>
    match Text.Numeral.read64 (Text.trimChars raw.toList) with
    | .ok n => .ok (some n)
    | .error e => .error ⟨name, .numeral e⟩

/-- Limiting is on unless the variable says `false` or `0`. -/
def enabledVariable (vars : Variables) : Bool :=
  match vars "RATE_LIMIT_ENABLED" with
  | none => true
  | some raw => Text.trim raw ≠ "false" ∧ Text.trim raw ≠ "0"

/-- The mode, with the longest wait where it is a wait. -/
def inFlightVariable (vars : Variables) (maxWait : Option UInt64) :
    Except SettingError InFlight :=
  let waiting := InFlight.wait (maxWait.getD 5000) 50
  match vars "IDEMPOTENCY_IN_FLIGHT" with
  | none => .ok waiting
  | some raw =>
    if Text.trim raw = "wait" then .ok waiting
    else if Text.trim raw = "proceed" then .ok .proceed
    else .error ⟨"IDEMPOTENCY_IN_FLIGHT", .notMode (Text.trim raw)⟩

def ofVariables (vars : Variables) : Except SettingError Settings := do
  let timeout ← wordVariable vars "COORDINATION_STORE_TIMEOUT_MS"
  let ttl ← wordVariable vars "IDEMPOTENCY_TTL_SECS"
  let lease ← wordVariable vars "IDEMPOTENCY_PROCESSING_LEASE_SECS"
  let maxWait ← wordVariable vars "IDEMPOTENCY_MAX_WAIT_MS"
  let inFlight ← inFlightVariable vars maxWait
  let settings : Settings := {
    rateLimitEnabled := enabledVariable vars
    storeTimeoutMs := timeout.getD 2000
    idempotencyTtlSecs := ttl.getD 86400
    processingLeaseSecs := lease.getD 60
    inFlight := inFlight }
  settings.validate
  return settings

end Settings

end Admission
