import Admission.Event

/-!
A bounded memory of events: the most recent ones, and how many had to make room.
-/

namespace Admission

structure Window where
  capacity : Nat
  events : List Event
  evicted : UInt64
deriving DecidableEq, Repr

namespace Window

def defaultCapacity : Nat := 10000

/-- An empty window with room for at least one event. -/
def ofCapacity (capacity : Nat) : Window := ⟨max capacity 1, [], 0⟩

def size (w : Window) : Nat := w.events.length

/-- Adds an event; a full window first drops its oldest one. -/
def push (w : Window) (event : Event) : Window :=
  if w.capacity ≤ w.size then
    { w with events := w.events.drop 1 ++ [event], evicted := w.evicted + 1 }
  else { w with events := w.events ++ [event] }

/-- Drops the events and keeps the count of those that made room. -/
def clear (w : Window) : Window := { w with events := [] }

end Window

end Admission
