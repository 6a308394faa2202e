import Admission.Record.Store
import Admission.Server.Keyspace

/-!
Records kept on a server, each in a hash that expires by itself.
-/

namespace Admission.Server

open Binary64 (ofNat)

def recordName (key : String) : String := "idempotency:" ++ key

/-- The fields of a record as they are stored. -/
structure RawRecord where
  status : Option Bytes
  body : Option Bytes
  createdAt : Option Bytes

/-- Takes the key unless a response is there or the lease of the claim still runs. A lease that is no
number has run out. -/
def claimScript (name : String) (now ttlSecs leaseSecs : UInt64) : Script (Option RawRecord) := do
  let now := ofNat now.toNat
  match ← hashGet name ["status", "body", "created_at", "lease_until"] with
  | [some status, body, createdAt, lease] =>
    let lease := (Binary64.ofChars? (lease.getD (.ofNat 0)).chars).getD (ofNat 0)
    if status ≠ .ofNat 0 ∨ now.lt lease then return some ⟨some status, body, createdAt⟩
  | _ => pure ()
  hashSet name
    [("status", .ofChars (ofNat 0).generalText), ("body", []),
      ("created_at", .ofChars now.generalText),
      ("lease_until", .ofChars (now.add (ofNat leaseSecs.toNat)).generalText)]
  expire name (.ofNat ttlSecs.toNat)
  return none

/-- Writes the response, into the record that is there or into a new one. -/
def completeScript (name : String) (status : UInt16) (body : Bytes) (now ttlSecs : UInt64) :
    Script Unit := do
  let response := [("status", Bytes.ofNat status.toNat), ("body", body)]
  if ← contains name then hashSet name response
  else
    hashSet name (response ++ [("created_at", .ofNat now.toNat)])
    expire name (.ofNat ttlSecs.toNat)

/-- Deletes the record if its status says that it is still processing. -/
def releaseScript (name : String) : Script Bool := do
  match ← hashGet name ["status"] with
  | [some status] => if status = .ofNat 0 then delete name else return false
  | _ => return false

def fetchScript (name : String) : Script RawRecord := do
  match ← hashGet name ["status", "body", "created_at"] with
  | [status, body, createdAt] => return ⟨status, body, createdAt⟩
  | _ => return ⟨none, none, none⟩

/-- A stored number, if there is one. -/
def numeralOf (bound : Nat) : Option Bytes → Except StoreError (Option Nat)
  | none => .ok none
  | some b =>
    match Text.Numeral.read bound b.chars with
    | .ok n => .ok (some n)
    | .error e => .error (.malformed (.described e.message))

/-- The record that the fields make. With neither status nor body nor age there is none; a record without
status or age is incomplete. -/
def recordOf (key : String) (raw : RawRecord) : Except StoreError (Option Record) := do
  let status ← numeralOf (UInt16.size - 1) raw.status
  let createdAt ← numeralOf (UInt64.size - 1) raw.createdAt
  match status, raw.body, createdAt with
  | none, none, none => return none
  | some status, body, some createdAt =>
    return some ⟨key, UInt16.ofNat status, body.getD [], UInt64.ofNat createdAt⟩
  | _, _, _ => throw (.malformed (.incompleteRecord key))

/-- Answers a call on a record. -/
def answerRecord (s : Server) : (call : Record.Call) → Except StoreError call.Answer × Server
  | .claim key now ttl lease =>
    let (r, s) := s.run <| claimScript (recordName key) now (Record.lifetimeSecs ttl)
      (Record.lifetimeSecs lease)
    (r.bind fun raw? =>
      match raw? with
      | none => .ok none
      | some raw => recordOf key raw, s)
  | .complete key status body now ttl =>
    s.run (completeScript (recordName key) status body now (Record.lifetimeSecs ttl))
  | .fetch key _ =>
    let (r, s) := s.run (fetchScript (recordName key))
    (r.bind (recordOf key), s)
  | .release key _ => s.run (releaseScript (recordName key))

end Admission.Server
