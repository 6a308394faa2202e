import Admission.Bucket.Store
import Admission.Policy.Catalogue
import Admission.Record.Store
import Admission.Request.Stage
import Admission.Server.Address
import Admission.Server.Buckets
import Admission.Server.Records
import Admission.Session.Fault
import Admission.Settings.Shared
import Admission.Sink.Leaf

/-!
Everything that requests and steps of a session share, and how it answers what they wait for.
-/

namespace Admission

/-- Where buckets and records are kept. -/
inductive Backing
  | memory (buckets : Bucket.Store) (records : Record.Store)
  | served (server : Server)

namespace Backing

def bucket (call : Bucket.Call) : Backing → Except StoreError call.Answer × Backing
  | memory buckets records =>
    let (answer, buckets) := buckets.answer call
    (.ok answer, memory buckets records)
  | served server =>
    let (answer, server) := server.answerBucket call
    (answer, served server)

def record (call : Record.Call) : Backing → Except StoreError call.Answer × Backing
  | memory buckets records =>
    let (answer, records) := records.answer call
    (.ok answer, memory buckets records)
  | served server =>
    let (answer, server) := server.answerRecord call
    (answer, served server)

def buckets : Backing → Bucket.Store
  | memory buckets _ => buckets
  | served _ => .empty

def records : Backing → Record.Store
  | memory _ records => records
  | served _ => .empty

def server : Backing → Server
  | memory _ _ => .empty .capping
  | served server => server

end Backing

/-- What a handler does when it is called, after a while. -/
inductive Act
  | hang
  | panic (message : String)
  | fail (error : String)
  | respond (response : Response)
deriving DecidableEq

structure Handler where
  /-- The error with which it refuses to be called. -/
  refusal : Option String := none
  delayMs : Nat := 0
  act : Act

structure World where
  clockMs : UInt64
  /-- Milliseconds of running time. -/
  instant : Nat := 0
  backing : Backing
  bucketFaults : BucketFaults := {}
  recordFaults : RecordFaults := {}
  catalogue : Catalogue := .standard
  deadline : Deadline := .standard
  terms : Record.Terms := {}
  layer : Layer
  settings : Shared Settings := ⟨{}⟩
  sink : Sink Leaf
  handlerCalls : Nat := 0

namespace World

def clockSecs (w : World) : UInt64 := w.clockMs / 1000

def moment (w : World) : Moment := ⟨w.clockMs, w.instant * 1000000⟩

/-- How long something is waited for. -/
inductive Pause
  | now
  | after (ms : Nat)
  /-- The time limit cuts the wait short. -/
  | cut (ms : Nat)
  | forever
deriving DecidableEq, Repr

def Pause.ofDelay : Deadline.Delay → Pause
  | .ms 0 => .now
  | .ms n => .after n
  | .forever => .forever

/-- The pause for a call that is so late, under a time limit or none. -/
def Pause.within (limit : Option Deadline) (late : Deadline.Delay) : Pause :=
  match limit with
  | some d => if d.allows late then .ofDelay late else .cut d.after.millisUp
  | none => .ofDelay late

/-- How long an answer takes. Pauses between polls last just their interval, if there is so much left,
up to the end of the millisecond. -/
def pause (w : World) (limit : Option Deadline) (h : Handler) : Await → Pause
  | .bucket call => .within limit (Fault.lateness (w.bucketFaults.of call))
  | .record call => .within limit (Fault.lateness (w.recordFaults.of call))
  | .tell event =>
    match w.sink.deliver Leaf.conduct event with
    | (.stuck, _) => .forever
    | _ => .now
  | .handler =>
    match h.act with
    | .hang => .forever
    | _ => .ofDelay (.ms h.delayMs)
  | .sleep interval left => .after (Span.mk (min interval.nanos left.nanos)).millisUp
  | .nothing => .forever

/-- The answer, and what giving it does, at once or late. A store that is late answers as one without
faults, whatever its faults have become meanwhile. There is no answer where nothing is asked, from a
sink that never gets ready and from a handler that panics or hangs. -/
def answer (w : World) (h : Handler) (late : Bool) : (a : Await) → Option (a.Reply × World)
  | .bucket call =>
    match if late then none else Fault.bucketReply? (w.bucketFaults.of call) call with
    | some reply => some (reply, w)
    | none =>
      let (reply, backing) := w.backing.bucket call
      some (reply, { w with backing := backing })
  | .record call =>
    match if late then none else Fault.recordReply? (w.recordFaults.of call) with
    | some reply => some (reply, w)
    | none =>
      let (reply, backing) := w.backing.record call
      some (reply, { w with backing := backing })
  | .tell event =>
    match w.sink.deliver Leaf.conduct event with
    | (.stuck, _) => none
    | (_, sink) => some ((), { w with sink := sink })
  | .handler =>
    match h.act with
    | .fail e => some (.error e, w)
    | .respond r => some (.ok r, w)
    | _ => none
  | .sleep .. => some ((), w)
  | .nothing => none

/-- The answer when the time limit has cut the wait short. -/
def timedOut (limit : Option Deadline) : (a : Await) → Option a.Reply
  | .bucket _ => limit.map fun d => .error (.timeout d.after)
  | .record _ => limit.map fun d => .error (.timeout d.after)
  | _ => none

/-- The answer after a pause. -/
def answerAfter (w : World) (limit : Option Deadline) (h : Handler) (a : Await) :
    Pause → Option (a.Reply × World)
  | .now => w.answer h false a
  | .after _ => w.answer h true a
  | .cut _ => (timedOut limit a).map fun reply => (reply, w)
  | .forever => none

/-- Takes the texts of the events that have been kept, by window. -/
def takeEvents (w : World) : List (List Event) × World :=
  (w.sink.windows.map Window.events, { w with sink := w.sink.clear })

end World

end Admission
