import Admission.Error

/-!
Deadlines of store calls, and what a call comes to that answers after a while or never.
-/

namespace Admission

/-- A time limit. -/
structure Deadline where
  after : Span
deriving DecidableEq, Repr

/-- A time limit must be longer than nothing and shorter than the longest span. -/
inductive DeadlineError
  | outOfRange
deriving DecidableEq, Repr

def DeadlineError.message : DeadlineError → String
  | outOfRange => "store deadline must be non-zero and finite"

namespace Deadline

def ofSpan (s : Span) : Except DeadlineError Deadline :=
  if 0 < s.nanos ∧ s.nanos < Span.longest.nanos then .ok ⟨s⟩ else .error .outOfRange

/-- The time limit of a store call unless another is set. -/
def standard : Deadline := ⟨.ofSecs 2⟩

/-- How long a call takes to answer, in milliseconds. -/
inductive Delay
  | ms (n : Nat)
  | forever
deriving DecidableEq, Repr

/-- Whether a call that takes so long is over in time. A call that ends with the deadline counts. -/
def allows (d : Deadline) : Delay → Bool
  | .ms n => n ≤ d.after.millisUp
  | .forever => false

/-- The outcome of a call under the deadline. -/
def run {α : Type} (d : Deadline) (delay : Delay) (outcome : Except StoreError α) :
    Except StoreError α :=
  if d.allows delay then outcome else .error (.timeout d.after)

end Deadline

end Admission
