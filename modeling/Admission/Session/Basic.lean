import Admission.Session.Schedule

/-!
Sessions: steps and requests one after another, on one set of components.
-/

namespace Admission

/-- A request with its handler, and steps that are taken meanwhile, each after some milliseconds. -/
structure Job where
  request : Request
  handler : Handler
  during : List (Nat × Step) := []

inductive Action
  | step (step : Step)
  | request (job : Job)
  /-- Requests that run together. -/
  | concurrent (jobs : List Job)
  /-- A request that is dropped after some milliseconds, inside of the runtime or not. -/
  | abandon (job : Job) (afterMs : Nat) (inside : Bool)

/-- The outcome of a job and the answers to the steps that were taken meanwhile. -/
structure JobReport where
  outcome : Outcome
  during : List Answer

/-- Events that were kept since the last report, by window, and calls of the handler so far. -/
structure Trace where
  events : List (List Event)
  handlerCalls : Nat

inductive Report
  | answer (answer : Answer)
  | request (job : JobReport) (trace : Trace)
  | concurrent (jobs : List JobReport) (trace : Trace)
  | abandon (finished : Bool) (trace : Trace)

namespace Job

/-- Adds the tasks of a job to a schedule. -/
def spawn (s : Schedule) (job : Job) : Schedule :=
  job.during.foldl (fun s (afterMs, step) => s.spawnStep afterMs step)
    (s.spawn 0 (.arrival job.request job.handler))

/-- The number of tasks of a job. -/
def width (job : Job) : Nat := 1 + job.during.length

/-- Reads off what the job has come to whose tasks start with the `i`th. -/
def report (s : Schedule) (i : Nat) (job : Job) : JobReport :=
  ⟨s.outcome i,
    (List.range job.during.length).map fun k =>
      (s.answer? (i + 1 + k)).getD (.outcome .unfinished)⟩

/-- What several jobs have come to, the first of which starts with the `i`th task. -/
def reports (s : Schedule) (i : Nat) : List Job → List JobReport
  | [] => []
  | job :: jobs => job.report s i :: reports s (i + job.width) jobs

end Job

namespace World

def takeTrace (w : World) : Trace × World :=
  let (events, w) := w.takeEvents
  (⟨events, w.handlerCalls⟩, w)

def act (w : World) : Action → Report × World
  | .step step =>
    let s := (Schedule.spawnStep { world := w } 0 step).run
    (.answer ((s.answer? 0).getD (.outcome .unfinished)), s.world)
  | .request job =>
    let s := (job.spawn { world := w }).run
    let (trace, w) := s.world.takeTrace
    (.request (job.report s 0) trace, w)
  | .concurrent jobs =>
    let s := (jobs.foldl Job.spawn { world := w }).run
    let (trace, w) := s.world.takeTrace
    (.concurrent (Job.reports s 0 jobs) trace, w)
  | .abandon job afterMs inside =>
    let s := ((job.spawn { world := w }).spawn afterMs (.drop 0 inside)).run
    let (trace, w) := s.world.takeTrace
    let finished :=
      match s.outcome 0 with
      | .unfinished => false
      | _ => true
    (.abandon finished trace, w)

/-- Takes the actions one after another. -/
def actAll (w : World) : List Action → List Report
  | [] => []
  | a :: rest =>
    let (report, w) := w.act a
    report :: w.actAll rest

end World

end Admission
