import Admission.Bucket.Call
import Admission.Server.Keyspace

/-!
Buckets kept on a server, each in two strings, by scripts that compute in floating point.
-/

namespace Admission.Server

open Binary64 (ofNat)

/-- The two numbers of a bucket, as far as they are there. Fails on text that is no number. -/
def bucketNumbers (key : Bucket.Key) : Script (Option Binary64 × Option Binary64) := do
  let tokens ← get key.tokensName
  let last ← get key.lastRefillName
  match tokens.map (Binary64.ofChars? ·.chars), last.map (Binary64.ofChars? ·.chars) with
  | some none, _ => throw (.malformedBucket key.tokensName)
  | _, some none => throw (.malformedBucket key.tokensName)
  | tokens, last => return (tokens.join, last.join)

/-- Writes the two numbers: the count with its decimals, the time without. -/
def writeBucket (key : Bucket.Key) (tokens last : Binary64) (ttlMs : UInt64) : Script Unit := do
  let lifetime := Bytes.ofChars (ofNat ttlMs.toNat).generalText
  setFor key.tokensName (.ofChars tokens.generalText) lifetime
  setFor key.lastRefillName (.ofChars last.integerText) lifetime

/-- No more than the capacity. -/
def clampTokens (tokens capacity : Binary64) : Binary64 :=
  if capacity.lt tokens then capacity else tokens

/-- Credits what the time since the last refill has earned. -/
def credit (tokens last capacity rate now : Binary64) : Binary64 × Binary64 :=
  let elapsed := now.sub last
  let elapsed := if elapsed.lt (ofNat 0) then ofNat 0 else elapsed
  let credited := ((elapsed.mul rate).div (ofNat 60000)).floor
  if (ofNat 0).lt credited then
    if capacity.le (tokens.add credited) then (capacity, now)
    else (tokens.add credited, last.add ((credited.mul (ofNat 60000)).div rate).floor)
  else (tokens, last)

/-- Without a count the bucket is new, whatever its time says. -/
def refillScript (key : Bucket.Key) (capacity rate now : Binary64) (ttlMs : UInt64) :
    Script (Binary64 × Binary64) := do
  let (tokens, last) ← bucketNumbers key
  let (tokens, last) :=
    match tokens with
    | none => (capacity, now)
    | some tokens => (tokens, last.getD now)
  let (tokens, last) := credit (clampTokens tokens capacity) last capacity rate now
  writeBucket key tokens last ttlMs
  return (tokens, last)

def deductScript (key : Bucket.Key) (capacity cost now : Binary64) (ttlMs : UInt64) :
    Script Binary64 := do
  let (tokens, last) ← bucketNumbers key
  let left := (clampTokens (tokens.getD capacity) capacity).sub cost
  let left := if left.lt (ofNat 0) then ofNat 0 else left
  writeBucket key left (last.getD now) ttlMs
  return left

/-- Both strings at once. -/
def resetScript (key : Bucket.Key) (capacity : UInt32) (nowMs ttlMs : UInt64) : Script Unit := do
  setFor key.tokensName (.ofNat capacity.toNat) (.ofNat ttlMs.toNat)
  setFor key.lastRefillName (.ofNat nowMs.toNat) (.ofNat ttlMs.toNat)

/-- Lifetimes on the server last for a millisecond at least. -/
def lifetimeMs (ttl : Span) : UInt64 := max ttl.millisWord 1

def tokensOf (key : Bucket.Key) (n : Int) : Except StoreError UInt32 :=
  if 0 ≤ n ∧ n < UInt32.size then .ok (UInt32.ofNat n.toNat)
  else .error (.malformed (.tokenCount key.text n))

def timeOf (key : Bucket.Key) (n : Int) : Except StoreError UInt64 :=
  if 0 ≤ n then .ok (UInt64.ofNat n.toNat) else .error (.malformed (.refillTime key.text n))

/-- Reads the answer to a refill. -/
def stateOf (key : Bucket.Key) (answer : Int × Int) : Except StoreError Bucket.State := do
  let tokens ← tokensOf key answer.1
  let last ← timeOf key answer.2
  return ⟨tokens, last⟩

/-- Answers a call on a bucket. What a script has written stays, also if its answer cannot be read. -/
def answerBucket (s : Server) : (call : Bucket.Call) → Except StoreError call.Answer × Server
  | .refill key capacity rate now ttl =>
    let (r, after) := s.run <| refillScript key (ofNat capacity.toNat) (ofNat rate.toNat)
      (ofNat now.toNat) (lifetimeMs ttl)
    (r.bind fun (tokens, last) => stateOf key (s.integer tokens, s.integer last), after)
  | .deduct key capacity cost now ttl =>
    let (r, after) := s.run <| deductScript key (ofNat capacity.toNat) (ofNat cost.toNat)
      (ofNat now.toNat) (lifetimeMs ttl)
    (r.bind fun left => tokensOf key (s.integer left), after)
  | .reset key capacity now ttl => s.run (resetScript key capacity now (lifetimeMs ttl))

end Admission.Server
