import Admission.Session.World

/-!
The steps of a session other than requests: calls of the limiter, of the records and of the stores
themselves, and changes to what they depend on.
-/

namespace Admission

inductive Step
  | advance (span : Span)
  | setClock (ms : UInt64)
  | check (policy identifier : String)
  | consume (policy identifier : String) (status : UInt16)
  | reset (policy identifier : String)
  | peek (key : Bucket.Key)
  | buckets
  | purgeBuckets (nowMs : UInt64)
  /-- A call of the store of buckets itself. -/
  | bucket (call : Bucket.Call)
  | claim (key : String)
  | save (key : String) (status : UInt16) (body : Bytes)
  | fetch (key : String)
  | release (key : String)
  /-- A call of the store of records itself. -/
  | record (call : Record.Call)
  | records
  | purgeRecords (now : UInt64)
  | terms
  | setBucketFaults (faults : BucketFaults)
  | setRecordFaults (faults : RecordFaults)
  | setSettings (settings : Settings)
  | updateSettings (enabled : Option Bool) (timeoutMs : Option UInt64) (proceed : Bool)
  | getSettings
  | serverAdvance (ms : Nat)
  | serverFail (reply : Option String)
  | serverPut (name : String) (value : Stored)
  | serverDelete (name : String)
  | serverDump

/-- What a request comes to. -/
inductive Outcome
  | responded (response : Response)
  | failed (error : String)
  | panicked (message : String)
  /-- It was dropped or waits for ever. -/
  | unfinished

def Outcome.ofResult : Except String Response → Outcome
  | .ok response => responded response
  | .error e => failed e

inductive Answer
  | ok
  | number (n : Nat)
  | flag (b : Bool)
  | clock (ms secs : UInt64)
  | size (n : Nat)
  | state (state : Option Bucket.State)
  | status (status : Bucket.Status) (retryAfterSecs : UInt64)
  | record (record : Option Record)
  | claim (claim : Record.Claim)
  | terms (terms : Record.Terms)
  | settings (settings : Settings)
  | dump (slots : List (String × Stored × Option Nat))
  | error (error : Error)
  | outcome (outcome : Outcome)

namespace Answer

def ofStore {α : Type} (f : α → Answer) : Except StoreError α → Answer
  | .ok a => f a
  | .error e => error (.store e)

def ofBucket : (call : Bucket.Call) → Except StoreError call.Answer → Answer
  | .refill .., reply => ofStore (fun s => state (some s)) reply
  | .deduct .., reply => ofStore (fun n : UInt32 => number n.toNat) reply
  | .reset .., reply => ofStore (fun _ => ok) reply

def ofRecord : (call : Record.Call) → Except StoreError call.Answer → Answer
  | .claim .., reply => ofStore record reply
  | .complete .., reply => ofStore (fun _ => ok) reply
  | .fetch .., reply => ofStore record reply
  | .release .., reply => ofStore flag reply

end Answer

/-- Something that waits for one answer, under a time limit or none, and then has its own. -/
structure Errand where
  await : Await
  limit : Option Deadline
  finish : World → await.Reply → Answer

namespace Errand

/-- A call of the store of buckets. -/
def bucket (limit : Option Deadline) (call : Bucket.Call) : Errand :=
  ⟨.bucket call, limit, fun _ reply => .ofBucket call reply⟩

/-- A call of the store of records. -/
def record (limit : Option Deadline) (call : Record.Call) : Errand :=
  ⟨.record call, limit, fun _ reply => .ofRecord call reply⟩

def check (w : World) (policy : Policy) (identifier : String) : Errand :=
  ⟨.bucket (Bucket.checkCall policy identifier w.clockMs), some w.deadline, fun w reply =>
    .ofStore (fun s : Bucket.State =>
      let status := Bucket.Status.ofState policy s
      .status status (Bucket.retryAfterSecs status.resetAt w.clockSecs)) reply⟩

def consume (w : World) (policy : Policy) (identifier : String) (cost : UInt32) : Errand :=
  ⟨.bucket (Bucket.chargeCall policy identifier cost w.clockMs), some w.deadline, fun _ reply =>
    .ofStore (fun _ : UInt32 => .number cost.toNat) reply⟩

def claim (w : World) (key : String) : Errand :=
  ⟨.record (w.terms.claimCall key w.clockSecs), some w.deadline, fun _ reply =>
    .claim (.ofAnswer reply)⟩

def release (w : World) (limit : Deadline) (key : String) : Errand :=
  record (some limit) (.release key w.clockSecs)

end Errand

namespace World

/-- Looks up a policy for a step. -/
def withPolicy (w : World) (name : String) (f : Policy → Answer ⊕ Errand) : Answer ⊕ Errand :=
  match w.catalogue.require name with
  | .ok policy => f policy
  | .error e => .inl (.error (.policy e))

def mapBuckets (w : World) (f : Bucket.Store → Bucket.Store) : World :=
  match w.backing with
  | .memory buckets records => { w with backing := .memory (f buckets) records }
  | .served _ => w

def mapRecords (w : World) (f : Record.Store → Record.Store) : World :=
  match w.backing with
  | .memory buckets records => { w with backing := .memory buckets (f records) }
  | .served _ => w

def mapServer (w : World) (f : Server → Server) : World :=
  match w.backing with
  | .memory .. => w
  | .served server => { w with backing := .served (f server) }

/-- Settings with some of them replaced. -/
def changedSettings (enabled : Option Bool) (timeoutMs : Option UInt64) (proceed : Bool)
    (s : Settings) : Settings :=
  { s with
    rateLimitEnabled := enabled.getD s.rateLimitEnabled
    storeTimeoutMs := timeoutMs.getD s.storeTimeoutMs
    inFlight := if proceed then .proceed else s.inFlight }

/-- The server's live values by name, each with what is left of its lifetime. -/
def dump (s : Server) : List (String × Stored × Option Nat) :=
  s.dump.map fun (name, slot) => (name, slot.value, slot.expiresMs.map (· - s.clockMs))

/-- Begins a step: either it is over at once or it has an errand to run. -/
def begin (w : World) : Step → (Answer ⊕ Errand) × World
  | .advance span =>
    let ms := w.clockMs + span.millisWord
    (.inl (.number ms.toNat), { w with clockMs := ms })
  | .setClock ms => (.inl (.clock ms (ms / 1000)), { w with clockMs := ms })
  | .check policy id => (w.withPolicy policy fun p => .inr (.check w p id), w)
  | .consume policy id status =>
    (w.withPolicy policy fun p =>
      let cost := p.cost status
      if cost = 0 then .inl (.number 0) else .inr (.consume w p id cost), w)
  | .reset policy id =>
    (w.withPolicy policy fun p =>
      .inr (.bucket (some w.deadline) (Bucket.resetCall p id w.clockMs)), w)
  | .peek key => (.inl (.state (w.backing.buckets.peek key)), w)
  | .buckets => (.inl (.size w.backing.buckets.size), w)
  | .purgeBuckets now =>
    let w := w.mapBuckets (·.purgeExpired now)
    (.inl (.number w.backing.buckets.size), w)
  | .bucket call => (.inr (.bucket none call), w)
  | .claim key => (.inr (.claim w key), w)
  | .save key status body =>
    (.inr (.record (some w.deadline) (w.terms.saveCall key status body w.clockSecs)), w)
  | .fetch key => (.inr (.record (some w.deadline) (.fetch key w.clockSecs)), w)
  | .release key => (.inr (.release w w.deadline key), w)
  | .record call => (.inr (.record none call), w)
  | .records => (.inl (.size w.backing.records.size), w)
  | .purgeRecords now =>
    (.inl (.number (w.backing.records.countExpired now)), w.mapRecords (·.purgeExpired now))
  | .terms => (.inl (.terms w.terms), w)
  | .setBucketFaults faults => (.inl .ok, { w with bucketFaults := faults })
  | .setRecordFaults faults => (.inl .ok, { w with recordFaults := faults })
  | .setSettings settings => (.inl .ok, { w with settings := w.settings.set settings })
  | .updateSettings enabled timeoutMs proceed =>
    (.inl .ok,
      { w with settings := w.settings.update (changedSettings enabled timeoutMs proceed) })
  | .getSettings => (.inl (.settings w.settings.get), w)
  | .serverAdvance ms =>
    let w := w.mapServer fun s => { s with clockMs := s.clockMs + ms }
    (.inl (.number w.backing.server.clockMs), w)
  | .serverFail reply => (.inl .ok, w.mapServer fun s => { s with failing := reply })
  | .serverPut name value => (.inl .ok, w.mapServer fun s => s.put name ⟨value, none⟩)
  | .serverDelete name =>
    (.inl (.flag (w.backing.server.live? name).isSome),
      w.mapServer fun s => { s with slots := s.slots.erase name })
  | .serverDump => (.inl (.dump (dump w.backing.server)), w)

end World

end Admission
