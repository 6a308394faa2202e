import Admission.Event

/-!
Sinks for events: leaves of any kind, joined in pairs that both receive every event. A sink is asked
whether it is ready before it is handed an event.
-/

namespace Admission

/-- Why a sink did not take an event. -/
inductive SinkError
  /-- The message of a leaf. -/
  | leaf (message : String)
  /-- A pair passes on the error of its first failing member. -/
  | member (error : SinkError)
deriving DecidableEq, Repr

def SinkError.message : SinkError → String
  | leaf message => message
  | member error => "telemetry sink failed: " ++ error.message

/-- An answer to the question whether a sink is ready. -/
inductive Readiness
  | ready
  | failed (error : SinkError)
  /-- No answer ever comes. -/
  | pending
deriving DecidableEq, Repr

/-- How a leaf with state `σ` behaves. -/
structure Conduct (σ : Type) where
  poll : σ → Readiness × σ
  take : Event → σ → Except SinkError Unit × σ

/-- A tree of sinks. -/
inductive Sink (σ : Type)
  | leaf (state : σ)
  | both (a b : Sink σ)

namespace Sink

variable {σ : Type}

/-- A leaf answers for itself. A pair is always ready and leaves its members unasked. -/
def poll (c : Conduct σ) : Sink σ → Readiness × Sink σ
  | leaf state =>
    let (answer, state) := c.poll state
    (answer, leaf state)
  | both a b => (.ready, both a b)

/-- Hands over an event. A pair hands it to both members, whatever the first one answers. -/
def take (c : Conduct σ) (event : Event) : Sink σ → Except SinkError Unit × Sink σ
  | leaf state =>
    let (result, state) := c.take event state
    (result, leaf state)
  | both a b =>
    let (first, a) := take c event a
    let (second, b) := take c event b
    let result :=
      match first, second with
      | .error e, _ => .error (.member e)
      | .ok (), .error e => .error (.member e)
      | .ok (), .ok () => .ok ()
    (result, both a b)

/-- What became of an event. -/
inductive Delivery
  | taken
  | failed (error : SinkError)
  /-- The sink never said whether it is ready. -/
  | stuck
deriving DecidableEq, Repr

/-- Waits until the sink is ready and hands over the event. -/
def deliver (c : Conduct σ) (event : Event) (s : Sink σ) : Delivery × Sink σ :=
  match s.poll c with
  | (.pending, s) => (.stuck, s)
  | (.failed e, s) => (.failed e, s)
  | (.ready, s) =>
    match s.take c event with
    | (.ok (), s) => (.taken, s)
    | (.error e, s) => (.failed e, s)

/-- Tells an event and does not ask what became of it: one that the sink is not ready for or fails to
take is dropped. -/
def emit (c : Conduct σ) (event : Event) (s : Sink σ) : Sink σ := (s.deliver c event).2

end Sink

end Admission
