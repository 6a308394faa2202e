import Admission.Proofs.Record.Store
import Admission.Proofs.Traffic.Passage

/-! # Requests on one store of records

Any number of requests go on in any order, one answer at a time. The store of records answers its
calls or fails; everything else that a request waits for, its bucket, its handler and time itself,
may answer anything. -/

namespace Admission

/-! ## Answers -/

/-- Where an answer comes from. -/
inductive Signal
  | answered
  /-- The store of records fails and is left alone. -/
  | failed (error : StoreError)
  | refilled (reply : Except StoreError Bucket.State)
  | deducted (reply : Except StoreError UInt32)
  | returned (result : Except String Response)
  /-- A report or a pause is over. -/
  | done

namespace Signal

def isResult : Except String Response → Bool
  | .ok response => Response.isStatus response.status
  | .error _ => true

/-- The answer to what a request waits for, if it is one and the store of records has no part in it.
-/
def beside? : Signal → (a : Await) → Option a.Reply
  | refilled reply, .bucket (.refill ..) => some reply
  | deducted reply, .bucket (.deduct ..) => some reply
  | returned result, .handler => if isResult result then some result else none
  | done, .tell _ => some ()
  | done, .sleep .. => some ()
  | _, _ => none

/-- The answer to what a request waits for, if it is one, and the records after it. -/
def reply? (records : Record.Store) (signal : Signal) :
    (a : Await) → Option (a.Reply × Record.Store)
  | .record call =>
    match signal with
    | answered => some (.ok (records.answer call).1, (records.answer call).2)
    | failed e => some (.error e, records)
    | _ => none
  | a => (signal.beside? a).map fun reply => (reply, records)

end Signal

/-! ## Traffic -/

structure Traffic where
  now : Moment
  records : Record.Store
  passages : List Passage
  /-- The request whose claim on a key was the last one that was won. -/
  winners : Table String Nat

inductive Move
  | arrive (plan : Plan)
  /-- Neither clock goes back. -/
  | advance (t : Moment)
  /-- Drops the records that have expired at the current reading. -/
  | purge
  | answer (i : Nat) (signal : Signal)
  | drop (i : Nat) (inside : Bool)
  /-- A dropped request begins to give up its key. -/
  | rouse (i : Nat)

/-- Whether a move is no failure of the store of records. -/
def Move.isFaultless : Move → Bool
  | answer _ (.failed _) => false
  | _ => true

namespace Traffic

def start (t : Moment) : Traffic := ⟨t, .empty, [], .empty⟩

def turn (s : Traffic) (i : Nat) (p : Passage) (reply : p.await.Reply) (records : Record.Store) :
    Traffic where
  now := s.now
  records := records
  passages := s.passages.set i (p.turn s.now reply)
  winners :=
    match Exchange.won? ⟨s.now, p.await, reply⟩ with
    | some key => s.winners.insert key i
    | none => s.winners

/-- A move that cannot be made changes nothing. -/
def step (s : Traffic) : Move → Traffic
  | .arrive plan => { s with passages := s.passages ++ [⟨⟨plan, []⟩, .under (plan.start s.now)⟩] }
  | .advance t =>
    if s.now.clockMs ≤ t.clockMs ∧ s.now.instant ≤ t.instant then { s with now := t } else s
  | .purge => { s with records := s.records.purgeExpired s.now.clockSecs }
  | .answer i signal =>
    match s.passages[i]? with
    | none => s
    | some p =>
      match signal.reply? s.records p.await with
      | none => s
      | some (reply, records) => s.turn i p reply records
  | .drop i inside =>
    { s with passages := s.passages.modify i fun p => { p with course := p.course.drop inside } }
  | .rouse i =>
    { s with
      passages := s.passages.modify i fun p => { p with course := p.course.rouse s.now.clockSecs } }

def run (s : Traffic) (moves : List Move) : Traffic := moves.foldl step s

theorem run_cons (s : Traffic) (m : Move) (moves : List Move) :
    s.run (m :: moves) = (s.step m).run moves := rfl

theorem run_append (s : Traffic) (moves rest : List Move) :
    s.run (moves ++ rest) = (s.run moves).run rest := List.foldl_append

/-- Each move of a run meets a condition in the state in which it is made. -/
def Along (C : Traffic → Move → Prop) : Traffic → List Move → Prop
  | _, [] => True
  | s, m :: moves => C s m ∧ Along C (s.step m) moves

instance Along.decidable (C : Traffic → Move → Prop) [∀ s m, Decidable (C s m)] :
    ∀ s moves, Decidable (Along C s moves)
  | _, [] => isTrue trivial
  | s, m :: moves =>
    have := Along.decidable C (s.step m) moves
    inferInstanceAs (Decidable (C s m ∧ Along C (s.step m) moves))

section Along

variable {C : Traffic → Move → Prop} {s : Traffic} {moves rest : List Move}

theorem along_append :
    Along C s (moves ++ rest) ↔ Along C s moves ∧ Along C (s.run moves) rest := by
  induction moves generalizing s with
  | nil => exact ⟨fun h => ⟨trivial, h⟩, fun h => h.2⟩
  | cons m moves ih =>
      simp only [List.cons_append, Along, run_cons, ih]
      exact and_assoc.symm

theorem Along.mono {D : Traffic → Move → Prop} (h : Along C s moves)
    (hCD : ∀ s m, C s m → D s m) : Along D s moves := by
  induction moves generalizing s with
  | nil => trivial
  | cons m moves ih => exact ⟨hCD s m h.1, ih h.2⟩

/-- What each such move preserves, the run preserves. -/
theorem Along.preserves {P : Traffic → Prop} (h : Along C s moves)
    (hstep : ∀ s m, C s m → P s → P (s.step m)) (hs : P s) : P (s.run moves) := by
  induction moves generalizing s with
  | nil => exact hs
  | cons m moves ih => exact ih h.2 (hstep s m h.1 hs)

theorem preserved_run {P : Traffic → Prop} (hstep : ∀ s m, P s → P (s.step m)) (hs : P s)
    (moves : List Move) : P (s.run moves) := by
  induction moves generalizing s with
  | nil => exact hs
  | cons m moves ih => exact ih (hstep s m hs)

end Along

end Traffic

end Admission
