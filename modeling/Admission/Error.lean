import Admission.Span
import Admission.Text.Numeral

/-!
What can go wrong, by cause, and the text of each cause.
-/

namespace Admission

/-- What is wrong with state that a store holds. -/
inductive Defect
  | described (text : String)
  | tokenCount (bucket : String) (tokens : Int)
  | refillTime (bucket : String) (time : Int)
  | incompleteRecord (key : String)
  | recordStatus (key : String) (status : UInt16)
deriving DecidableEq, Repr

def Defect.message : Defect → String
  | described text => text
  | tokenCount bucket tokens => bucket ++ " holds " ++ toString tokens ++ " tokens"
  | refillTime bucket time => bucket ++ " last refilled at " ++ toString time
  | incompleteRecord key => "idempotency record " ++ key ++ " is incomplete"
  | recordStatus key status =>
    "idempotency record " ++ key ++ " has status " ++ toString status.toNat

/-- Why a store call gave no answer. -/
inductive StoreError
  | unavailable (message : String)
  | timeout (after : Span)
  | malformed (defect : Defect)
deriving DecidableEq, Repr

namespace StoreError

def message : StoreError → String
  | unavailable message => "coordination store unavailable: " ++ message
  | timeout after => "coordination store timed out after " ++ after.text
  | malformed defect => "malformed coordination state: " ++ defect.message

def isTimeout : StoreError → Bool
  | timeout _ => true
  | _ => false

end StoreError

/-- Why a policy, or a catalogue of them, is refused. -/
inductive PolicyError
  | zeroCapacity (policy : String)
  | zeroRefill (policy : String)
  | unknown (policy : String)
  | unreadable (detail : String)
deriving DecidableEq, Repr

def PolicyError.message : PolicyError → String
  | zeroCapacity policy => "policy " ++ policy ++ ": capacity must be > 0"
  | zeroRefill policy => "policy " ++ policy ++ ": refill_per_minute must be > 0"
  | unknown policy => "unknown rate limit policy " ++ policy
  | unreadable detail => "policy catalogue could not be parsed: " ++ detail

/-- Why the value of a setting is refused. -/
inductive SettingFault
  | numeral (error : Text.NumeralError)
  | notMode (found : String)
  | zero
  | notPositive (found : String)
  | described (text : String)
deriving DecidableEq, Repr

def SettingFault.message : SettingFault → String
  | numeral error => error.message
  | notMode found => "expected `wait` or `proceed`, got `" ++ found ++ "`"
  | zero => "must be > 0"
  | notPositive found => "expected a positive integer, got `" ++ found ++ "`"
  | described text => text

/-- A setting that is present but unusable. -/
structure SettingError where
  field : String
  fault : SettingFault
deriving DecidableEq, Repr

def SettingError.message (e : SettingError) : String :=
  "invalid value for " ++ e.field ++ ": " ++ e.fault.message

/-- Any of the three. -/
inductive Error
  | store (error : StoreError)
  | policy (error : PolicyError)
  | setting (error : SettingError)
deriving DecidableEq, Repr

namespace Error

def message : Error → String
  | store e => e.message
  | policy e => e.message
  | setting e => e.message

def store? : Error → Option StoreError
  | store e => some e
  | _ => none

/-- Trouble with a store lets requests through; a bad policy or setting does not. -/
def failsOpen (e : Error) : Bool := e.store?.isSome

end Error

end Admission
