import Admission.Event
import Admission.Table

/-!
Counters kept from events, and the registry in which a set of counters can be entered only once.
-/

namespace Admission

/-- Events by component and kind, and tokens charged by policy. -/
structure Metrics where
  events : Table (String × String) UInt64
  tokens : Table String UInt64

namespace Metrics

def empty : Metrics := ⟨.empty, .empty⟩

/-- Adds to the count of a key. -/
def bump {κ : Type} [DecidableEq κ] (t : Table κ UInt64) (k : κ) (n : UInt64) : Table κ UInt64 :=
  t.insert k ((t.get? k).getD 0 + n)

/-- Counts an event, and the tokens of a charge even if there are none. -/
def observe (m : Metrics) (event : Event) : Metrics :=
  let events := bump m.events (event.component, event.kind) 1
  match event with
  | .charged policy cost => ⟨events, bump m.tokens policy cost.toUInt64⟩
  | _ => ⟨events, m.tokens⟩

/-- Counters of one name as they are published: label names and values, and a count. -/
structure Family where
  name : String
  help : String
  counts : List (List (String × String) × UInt64)
deriving DecidableEq, Repr

def eventsFamily (m : Metrics) : Family where
  name := "tollgate_events_total"
  help := "Coordination events by component and kind"
  counts :=
    (m.events.entries.mergeSort fun a b =>
      a.1.1 < b.1.1 ∨ (a.1.1 = b.1.1 ∧ a.1.2 ≤ b.1.2)).map
      fun ((component, kind), n) => ([("component", component), ("event", kind)], n)

def tokensFamily (m : Metrics) : Family where
  name := "tollgate_tokens_charged_total"
  help := "Tokens removed from rate-limit buckets"
  counts :=
    (m.tokens.entries.mergeSort fun a b => a.1 ≤ b.1).map
      fun (policy, n) => ([("policy", policy)], n)

/-- The families that count something, by name. -/
def families (m : Metrics) : List Family :=
  [m.eventsFamily, m.tokensFamily].filter (!·.counts.isEmpty)

/-- The names that are taken in a registry. -/
abbrev Registry := List String

/-- A name is already taken. -/
inductive RegistryError
  | duplicate
deriving DecidableEq, Repr

def RegistryError.message : RegistryError → String
  | duplicate => "Duplicate metrics collector registration attempted"

/-- Enters a set of counters. -/
def register (r : Registry) : Except RegistryError (Registry × Metrics) :=
  let names := [empty.eventsFamily.name, empty.tokensFamily.name]
  if names.any (r.contains ·) then .error .duplicate else .ok (r ++ names, empty)

end Metrics

end Admission
