import Admission.Session.Step

/-!
Tasks that run together in running time. One task runs at a time, until it has to wait; when all wait,
time moves on to the next moment at which one of them may go on.
-/

namespace Admission

/-- What a task is about to do when it wakes. -/
inductive Body
  /-- Begin something that is over at once or needs one answer. -/
  | start (begin : World → (Answer ⊕ Errand) × World)
  /-- Take the answer to an errand after a pause. -/
  | errand (e : Errand) (pause : World.Pause)
  /-- Call the service. -/
  | arrival (request : Request) (handler : Handler)
  /-- Take the answer that a request waits for after a pause. -/
  | request (plan : Plan) (handler : Handler) (stage : Stage) (pause : World.Pause)
  /-- Drop a request that is not finished. Outside of the runtime nothing can be done in the
  background. -/
  | drop (target : Nat) (inside : Bool)
  | finished (answer : Answer)

/-- A task, the instant at which it wakes and its place among those that wake together. -/
structure Task where
  body : Body
  wake : Option Nat
  place : Nat

structure Schedule where
  world : World
  tasks : List Task := []
  /-- The next place to give away. -/
  places : Nat := 0
  /-- How often a request may poll under settings that a step of the schedule may set. -/
  polls : Nat := 0

/-- How often a request may poll under these settings, if its pauses are off the interval by a fifth of
it at most. -/
def Settings.polls (s : Settings) : Nat :=
  match s.inFlight with
  | .proceed => 0
  | .wait maxWait interval => 5 * maxWait.toNat / (4 * max 1 interval.toNat) + 1

/-- How often a request may poll under settings that come of a step. -/
def Step.polls : Step → Nat
  | .setSettings settings => settings.polls
  | _ => 0

namespace Schedule

/-- Adds a task that wakes after some milliseconds. -/
def spawn (s : Schedule) (afterMs : Nat) (body : Body) : Schedule :=
  { s with
    tasks := s.tasks ++ [⟨body, some (s.world.instant + afterMs), s.places⟩]
    places := s.places + 1 }

/-- Adds a step that is taken after some milliseconds. -/
def spawnStep (s : Schedule) (afterMs : Nat) (step : Step) : Schedule :=
  { s.spawn afterMs (.start (·.begin step)) with polls := max s.polls step.polls }

/-- Instant, place and number of each task that will go on, in the order in which they would. -/
def waking (s : Schedule) : List (Nat × Nat × Nat) :=
  (s.tasks.zipIdx.filterMap fun (t, i) => t.wake.map fun instant => (instant, t.place, i)).mergeSort
    fun a b => a.1 < b.1 ∨ (a.1 = b.1 ∧ a.2.1 ≤ b.2.1)

/-- The number and instant of the task that goes on first. -/
def next? (s : Schedule) : Option (Nat × Nat) :=
  s.waking.head?.map fun (instant, _, i) => (i, instant)

def setTask (s : Schedule) (i : Nat) (t : Task) : Schedule := { s with tasks := s.tasks.set i t }

def finish (s : Schedule) (i : Nat) (answer : Answer) : Schedule :=
  s.setTask i ⟨.finished answer, none, 0⟩

/-- Leaves a task to wait. One that need not wait keeps its place and goes on first; another takes a new
place among those that will wake with it. -/
def wait (s : Schedule) (i place : Nat) (body : Body) : World.Pause → Schedule
  | .now => s.setTask i ⟨body, some s.world.instant, place⟩
  | .after ms | .cut ms =>
    { s with places := s.places + 1 }.setTask i ⟨body, some (s.world.instant + ms), s.places⟩
  | .forever => s.setTask i ⟨body, none, place⟩

/-- A handler for what has none. -/
def noHandler : Handler := ⟨none, 0, .hang⟩

def waitErrand (s : Schedule) (i place : Nat) (e : Errand) : Schedule :=
  let pause := s.world.pause e.limit noHandler e.await
  s.wait i place (.errand e pause) pause

/-- Takes a request to a stage. A handler counts its calls as they begin. -/
def waitStage (s : Schedule) (i place : Nat) (plan : Plan) (h : Handler) (stage : Stage) : Schedule :=
  match stage with
  | .finished result => s.finish i (.outcome (.ofResult result))
  | stage =>
    let calls :=
      match plan.await stage with
      | .handler => s.world.handlerCalls + 1
      | _ => s.world.handlerCalls
    let s := { s with world := { s.world with handlerCalls := calls } }
    let pause := s.world.pause (some plan.deadline) h (plan.await stage)
    s.wait i place (.request plan h stage pause) pause

/-- Gives up the claim of a dropped request in the background. -/
def abandon (s : Schedule) (plan : Plan) (stage : Stage) : Schedule :=
  match stage.guarded? with
  | some key => s.spawn 0 (.start fun w => (.inr (.release w plan.deadline key), w))
  | none => s

/-- Drops a request that has not finished. -/
def drop (s : Schedule) (target : Nat) (inside : Bool) : Schedule :=
  match s.tasks[target]? with
  | some ⟨.request plan _ stage _, _, _⟩ =>
    let s := s.finish target (.outcome .unfinished)
    if inside then s.abandon plan stage else s
  | _ => s

/-- Wakes a task. -/
def wakeTask (s : Schedule) (i : Nat) (t : Task) : Schedule :=
  match t.body with
  | .start begin =>
    let (result, w) := begin s.world
    let s := { s with world := w }
    match result with
    | .inl answer => s.finish i answer
    | .inr e => s.waitErrand i t.place e
  | .errand e pause =>
    match s.world.answerAfter e.limit noHandler e.await pause with
    | some (reply, w) => { s with world := w }.finish i (e.finish w reply)
    | none => s.finish i (.outcome .unfinished)
  | .arrival request h =>
    match h.refusal with
    | some e => s.finish i (.outcome (.failed e))
    | none =>
      let plan := s.world.layer.plan s.world.settings.get request
      s.waitStage i t.place plan h (plan.start s.world.moment)
  | .request plan h stage pause =>
    match s.world.answerAfter (some plan.deadline) h (plan.await stage) pause with
    | some (reply, w) =>
      { s with world := w }.waitStage i t.place plan h (plan.resume w.moment stage reply)
    | none =>
      match plan.await stage, h.act with
      | .handler, .panic message => (s.finish i (.outcome (.panicked message))).abandon plan stage
      | _, _ => s.finish i (.outcome .unfinished)
  | .drop target inside => (s.finish i .ok).drop target inside
  | .finished answer => s.finish i answer

/-- One task goes on, at its instant. -/
def step? (s : Schedule) : Option Schedule :=
  s.next?.bind fun (i, instant) =>
    s.tasks[i]?.map fun t =>
      { s with world := { s.world with instant := max s.world.instant instant } }.wakeTask i t

/-- At most `n` steps, fewer if no task can go on. -/
def steps (n : Nat) (s : Schedule) : Schedule :=
  match n with
  | 0 => s
  | n + 1 =>
    match s.step? with
    | none => s
    | some s => steps n s

/-- How many steps a task can take, whatever settings are in force when it starts: a fixed number, and
two for each poll of a record. -/
def stepBound (s : Schedule) : Nat := 32 + 2 * max s.polls s.world.settings.get.polls

/-- Runs until no task can go on. A task may leave another one behind that takes as many steps. -/
def run (s : Schedule) : Schedule := s.steps (2 * s.tasks.length * s.stepBound)

def answer? (s : Schedule) (i : Nat) : Option Answer :=
  match s.tasks[i]? with
  | some ⟨.finished answer, _, _⟩ => some answer
  | _ => none

def outcome (s : Schedule) (i : Nat) : Outcome :=
  match s.answer? i with
  | some (.outcome o) => o
  | _ => .unfinished

end Schedule

end Admission
