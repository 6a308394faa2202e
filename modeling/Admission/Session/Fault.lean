import Admission.Bucket.Call
import Admission.Deadline
import Admission.Record.Basic

/-!
Faults of stores: for each kind of call, what comes in place of its answer, or how late it is.
-/

namespace Admission

inductive Fault
  /-- Fails and leaves the store alone. -/
  | fail (error : StoreError)
  /-- Never answers. -/
  | hang
  /-- Answers after some milliseconds, and acts on the store only then. -/
  | delay (ms : Nat)
  /-- Answers a refill with this state and leaves the store alone. -/
  | found (state : Bucket.State)
deriving DecidableEq, Repr

def Fault.lateness : Option Fault → Deadline.Delay
  | some .hang => .forever
  | some (.delay n) => .ms n
  | _ => .ms 0

structure BucketFaults where
  refill : Option Fault := none
  deduct : Option Fault := none
  reset : Option Fault := none
deriving DecidableEq, Repr

def BucketFaults.of (f : BucketFaults) : Bucket.Call → Option Fault
  | .refill .. => f.refill
  | .deduct .. => f.deduct
  | .reset .. => f.reset

structure RecordFaults where
  claim : Option Fault := none
  complete : Option Fault := none
  fetch : Option Fault := none
  release : Option Fault := none
deriving DecidableEq, Repr

def RecordFaults.of (f : RecordFaults) : Record.Call → Option Fault
  | .claim .. => f.claim
  | .complete .. => f.complete
  | .fetch .. => f.fetch
  | .release .. => f.release

/-- What a faulty store answers of itself, without the store behind it. -/
def Fault.bucketReply? (fault : Option Fault) :
    (call : Bucket.Call) → Option (Except StoreError call.Answer)
  | .refill .. =>
    match fault with
    | some (.fail e) => some (.error e)
    | some (.found state) => some (.ok state)
    | _ => none
  | .deduct .. =>
    match fault with
    | some (.fail e) => some (.error e)
    | _ => none
  | .reset .. =>
    match fault with
    | some (.fail e) => some (.error e)
    | _ => none

def Fault.recordReply? {α : Type} : Option Fault → Option (Except StoreError α)
  | some (.fail e) => some (.error e)
  | _ => none

end Admission
