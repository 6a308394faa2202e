import Admission.Record.Basic
import Admission.Table
import Admission.Word

/-!
Records kept in memory. A record lives for a while from its claim on; a processing one holds its key
only for its lease, after which another claim may take it over.
-/

namespace Admission.Record

structure Entry where
  record : Record
  expiresAt : UInt64
  leaseUntil : UInt64
deriving DecidableEq, Repr

namespace Entry

def isLive (e : Entry) (now : UInt64) : Bool := now < e.expiresAt

/-- Whether a claim finds the key taken. -/
def isHeld (e : Entry) (now : UInt64) : Bool :=
  e.isLive now && (!e.record.isProcessing || now < e.leaseUntil)

end Entry

/-- Lifetimes count in whole seconds and last for one at least. -/
def lifetimeSecs (s : Span) : UInt64 := max s.secsWord 1

structure Store where
  entries : Table String Entry

namespace Store

def empty : Store := ⟨.empty⟩

def live? (s : Store) (key : String) (now : UInt64) : Option Entry :=
  (s.entries.get? key).filter (·.isLive now)

def held? (s : Store) (key : String) (now : UInt64) : Option Entry :=
  (s.entries.get? key).filter (·.isHeld now)

def put (s : Store) (e : Entry) : Store := ⟨s.entries.insert e.record.key e⟩

/-- Answers a call. A completed record keeps its age; one that has expired meanwhile is made anew. -/
def answer (s : Store) : (call : Call) → call.Answer × Store
  | .claim key now ttl lease =>
    match s.held? key now with
    | some e => (some e.record, s)
    | none =>
      (none, s.put
        { record := .processing key now
          expiresAt := Word.addClamped now (lifetimeSecs ttl)
          leaseUntil := Word.addClamped now (lifetimeSecs lease) })
  | .complete key status body now ttl =>
    match s.live? key now with
    | some e => ((), ⟨s.entries.insert key { e with record := { e.record with status, body } }⟩)
    | none =>
      ((), s.put
        { record := ⟨key, status, body, now⟩
          expiresAt := Word.addClamped now (lifetimeSecs ttl)
          leaseUntil := now })
  | .fetch key now => ((s.live? key now).map Entry.record, s)
  | .release key now =>
    match (s.live? key now).filter (·.record.isProcessing) with
    | some _ => (true, ⟨s.entries.erase key⟩)
    | none => (false, s)

/-- Drops the records that have expired. -/
def purgeExpired (s : Store) (now : UInt64) : Store :=
  ⟨s.entries.filter fun _ e => e.isLive now⟩

def size (s : Store) : Nat := s.entries.size

/-- How many records dropping the expired ones removes. -/
def countExpired (s : Store) (now : UInt64) : Nat := s.size - (s.purgeExpired now).size

end Store

end Admission.Record
