import Admission.Sink.Basic
import Admission.Sink.Window

/-!
The leaves that sinks are made of.
-/

namespace Admission

inductive Leaf
  /-- Forgets every event. -/
  | null
  /-- Writes every event to a log. -/
  | log (lines : List Event)
  /-- Keeps recent events. -/
  | window (w : Window)
  /-- Is ready and fails. -/
  | failing (message : String)
  /-- Would keep recent events, but is never ready. -/
  | unready (message : String) (w : Window)
  /-- Never says whether it is ready. -/
  | silent
deriving DecidableEq, Repr

namespace Leaf

def conduct : Conduct Leaf where
  poll
    | .unready message w => (.failed (.leaf message), .unready message w)
    | .silent => (.pending, .silent)
    | leaf => (.ready, leaf)
  take event
    | .null => (.ok (), .null)
    | .log lines => (.ok (), .log (lines ++ [event]))
    | .window w => (.ok (), .window (w.push event))
    | .failing message => (.error (.leaf message), .failing message)
    | .unready message w => (.ok (), .unready message (w.push event))
    | .silent => (.ok (), .silent)

def window? : Leaf → Option Window
  | .window w => some w
  | .unready _ w => some w
  | _ => none

def lines : Leaf → List Event
  | .log lines => lines
  | _ => []

def clear : Leaf → Leaf
  | .window w => .window w.clear
  | .unready message w => .unready message w.clear
  | leaf => leaf

end Leaf

namespace Sink

/-- The leaves from left to right. -/
def leaves {σ : Type} : Sink σ → List σ
  | leaf state => [state]
  | both a b => a.leaves ++ b.leaves

def map {σ τ : Type} (f : σ → τ) : Sink σ → Sink τ
  | leaf state => leaf (f state)
  | both a b => both (a.map f) (b.map f)

/-- The windows of a sink from left to right. -/
def windows (s : Sink Leaf) : List Window := s.leaves.filterMap Leaf.window?

/-- What a sink has logged. -/
def lines (s : Sink Leaf) : List Event := s.leaves.flatMap Leaf.lines

def clear (s : Sink Leaf) : Sink Leaf := s.map Leaf.clear

end Sink

/-- The sinks that can be chosen by name. -/
inductive SinkKind
  | memory
  | null
  | log
  | multicast
  | failFirst
  | failSecond
  | failBoth
  | notReady
deriving DecidableEq, Repr

namespace SinkKind

def named? : String → Option SinkKind
  | "memory" => some memory
  | "null" => some null
  | "log" => some log
  | "multicast" => some multicast
  | "fail_a" => some failFirst
  | "fail_b" => some failSecond
  | "fail_both" => some failBoth
  | "not_ready" => some notReady
  | _ => none

/-- A new sink of that kind, whose windows have the given capacity. -/
def build (capacity : Nat) : SinkKind → Sink Leaf
  | memory => window
  | null => .leaf .null
  | log => .leaf (.log [])
  | multicast => .both window window
  | failFirst => .both (failing "a down") window
  | failSecond => .both window (failing "b down")
  | failBoth => .both (failing "a down") (failing "b down")
  | notReady => .leaf (.unready "not ready" (.ofCapacity capacity))
where
  window : Sink Leaf := .leaf (.window (.ofCapacity capacity))
  failing (message : String) : Sink Leaf := .leaf (.failing message)

end SinkKind

end Admission
