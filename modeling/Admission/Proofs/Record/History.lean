import Admission.Proofs.Record.Store

/-! # Histories of a store of records

What is done with a store one after another, each at a reading of the clock, and what its calls are
answered. -/

namespace Admission.Record

/-- The reading of the clock that a call carries. -/
def Call.nowSecs : Call → UInt64
  | claim _ now _ _ => now
  | complete _ _ _ now _ => now
  | fetch _ now => now
  | release _ now => now

inductive Use
  | call (call : Call)
  /-- Drops all records that have expired. -/
  | purge (now : UInt64)
deriving DecidableEq

def Use.nowSecs : Use → UInt64
  | .call c => c.nowSecs
  | .purge now => now

/-- A call and what the store has answered. -/
structure Answered where
  call : Call
  answer : call.Answer

namespace Answered

/-- Whether a claim on a key was won. -/
def wins (key : String) : Answered → Bool
  | ⟨.claim k .., none⟩ => k == key
  | _ => false

/-- Whether the record of a key was deleted. -/
def frees (key : String) : Answered → Bool
  | ⟨.release k _, deleted⟩ => k == key && deleted
  | _ => false

end Answered

namespace Store

/-- The store after a use. -/
def use (s : Store) : Use → Store
  | .call call => (s.answer call).2
  | .purge now => s.purgeExpired now

def follow (s : Store) (history : List Use) : Store := history.foldl use s

/-- What the calls of a history are answered. -/
def answers (s : Store) : List Use → List Answered
  | [] => []
  | .call call :: history => ⟨call, (s.answer call).1⟩ :: (s.use (.call call)).answers history
  | .purge now :: history => (s.use (.purge now)).answers history

variable {s : Store}

theorem mem_answers_call (s : Store) (call : Call) (history : List Use) :
    ⟨call, (s.answer call).1⟩ ∈ s.answers (.call call :: history) := List.mem_cons_self

theorem answers_single_subset (s : Store) (u : Use) (history : List Use) :
    s.answers [u] ⊆ s.answers (u :: history) := by
  cases u with
  | call call => exact List.cons_subset_cons _ (List.nil_subset _)
  | purge now => exact List.nil_subset _

theorem answers_subset_cons (s : Store) (u : Use) (history : List Use) :
    (s.use u).answers history ⊆ s.answers (u :: history) := by
  cases u with
  | call call => exact List.subset_cons_self _ _
  | purge now => exact List.Subset.refl _

end Store

end Admission.Record
