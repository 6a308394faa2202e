import Admission.Bytes
import Admission.Error
import Admission.Server.NumberText
import Admission.Table

/-!
A key-value server: strings and hashes under names, with deadlines by the clock of the server, and
the commands on them. A command that fails changes nothing, and what was done before it stays.
-/

namespace Admission

/-- What a name stands for. -/
inductive Stored
  | string (value : Bytes)
  | hash (fields : Table String Bytes)

/-- A value and the time from which on it is gone, if it has one. -/
structure Slot where
  value : Stored
  expiresMs : Option Nat

/-- The error replies of a server. -/
inductive ServerError
  | wrongType
  | notInteger
  | invalidExpiry
  /-- A script found state that it did not write. -/
  | malformedBucket (name : String)
  /-- The reply that a server gives to every command while it is failing. -/
  | refused (reply : String)
deriving DecidableEq, Repr

namespace ServerError

/-- The code that scripts put in front of replies about malformed state. -/
def malformedCode : String := "TOLLGATE_MALFORMED"

def reply : ServerError → String
  | wrongType => "WRONGTYPE Operation against a key holding the wrong kind of value"
  | notInteger => "ERR value is not an integer or out of range"
  | invalidExpiry => "ERR invalid expire time"
  | malformedBucket name => malformedCode ++ " bucket " ++ name
  | refused reply => reply

/-- The first word of the reply. -/
def code (e : ServerError) : String := String.ofList (e.reply.toList.takeWhile (· != ' '))

/-- Malformed state is told apart by its code; all else means that the server is of no use. -/
def toStoreError (e : ServerError) : StoreError :=
  if e.code = malformedCode then .malformed (.described e.reply) else .unavailable e.reply

end ServerError

/-- What servers do not have in common: what they make of numbers that no signed word stands for. -/
structure Overflow where
  /-- When something expires that gets a lifetime of `n` units of `unitMs`, longer than signed words
  count, at a time by the clock of the server, unless it is refused. -/
  deadline (clockMs unitMs n : Nat) : Except ServerError Nat
  /-- The integer that is answered in place of such a number. -/
  integer : Binary64 → Int
  /-- A lifetime that is not refused is not over at once. -/
  lt_of_deadline {clockMs unitMs n expires : Nat} : 0 < unitMs → 0 < n →
    deadline clockMs unitMs n = .ok expires → clockMs < expires
  /-- Processors give zero or an end of the range. -/
  integer_mem (x : Binary64) :
    integer x = 0 ∨ integer x = Word.minSigned ∨ integer x = Word.maxSigned

namespace Overflow

/-- When something expires that gets a lifetime of `n` units of `unitMs` at a time by the clock. -/
def expiry (o : Overflow) (clockMs unitMs n : Nat) : Except ServerError Nat :=
  if n * unitMs + clockMs ≤ Word.maxSigned then .ok (n * unitMs + clockMs)
  else o.deadline clockMs unitMs n

/-- A server that refuses lifetimes and deadlines that are no signed words, on a processor that gives
the least word for all that is out of range. -/
def refusing : Overflow where
  deadline _ _ n := .error (if n ≤ Word.maxSigned then .invalidExpiry else .notInteger)
  integer _ := Word.minSigned
  lt_of_deadline _ _ h := by cases h
  integer_mem _ := .inr (.inl rfl)

/-- A server that takes words without a sign for lifetimes, and for milliseconds that are more than a
word the largest word, and gives the end of the range that is nearest to a number. -/
def capping : Overflow where
  deadline clockMs unitMs n :=
    if n < UInt64.size then .ok (min (n * unitMs) (UInt64.size - 1) + clockMs)
    else .error .notInteger
  integer
    | .nan _ => 0
    | .infinite s | .finite s _ => if s then Word.minSigned else Word.maxSigned
  lt_of_deadline hunit hn h := by
    have hpos := Nat.mul_pos hn hunit
    split at h
    · cases h
      simp only [UInt64.size]
      omega
    · cases h
  integer_mem
    | .nan _ => .inl rfl
    | .infinite true | .finite true _ => .inr (.inl rfl)
    | .infinite false | .finite false _ => .inr (.inr rfl)

end Overflow

structure Server where
  overflow : Overflow
  slots : Table String Slot
  clockMs : Nat
  /-- The reply to every command, while the server is failing. -/
  failing : Option String

/-- A run of commands, which ends at the first failure. -/
abbrev Script := ExceptT ServerError (StateM Server)

namespace Server

def empty (overflow : Overflow) : Server := ⟨overflow, .empty, 0, none⟩

/-- The slot of a name, unless it has expired. -/
def live? (s : Server) (name : String) : Option Slot :=
  (s.slots.get? name).filter fun slot => slot.expiresMs.all (s.clockMs < ·)

def put (s : Server) (name : String) (slot : Slot) : Server :=
  { s with slots := s.slots.insert name slot }

/-- Live slots by name. -/
def dump (s : Server) : List (String × Slot) :=
  (s.slots.entries.filter fun e => (s.live? e.1).isSome).mergeSort fun a b => a.1 ≤ b.1

/-! ### Numbers in arguments -/

/-- An argument that must be an integer: decimal digits, without zeros in front, after a sign or none. -/
def integer? (arg : Bytes) : Option Int :=
  let natural? (cs : List Char) : Option Nat :=
    if cs ≠ [] ∧ cs.all Binary64.isDigit ∧ (cs.head? = some '0' → cs = ['0']) then
      some (Binary64.natural cs)
    else none
  match arg.chars with
  | '-' :: cs =>
    (natural? cs).bind fun n => if 0 < n then some (-(n : Int)) else none
  | cs => (natural? cs).map fun (n : Nat) => (n : Int)

/-- The deadline that lies a positive number of units of `unitMs` ahead. -/
def deadline (s : Server) (unitMs : Nat) (arg : Bytes) : Except ServerError Nat :=
  match integer? arg with
  | none => .error .notInteger
  | some n =>
    if 0 < n then s.overflow.expiry s.clockMs unitMs n.toNat else .error .invalidExpiry

/-- The integer that a number of a script is answered with. -/
def integer (s : Server) (x : Binary64) : Int := x.toInt64?.getD (s.overflow.integer x)

/-! ### Commands -/

/-- Fails if the server is failing. -/
def guard : Script Unit := do
  match (← get).failing with
  | some reply => throw (.refused reply)
  | none => pure ()

/-- Reads a string. -/
def get (name : String) : Script (Option Bytes) := do
  guard
  match (← getThe Server).live? name with
  | none => return none
  | some ⟨.string value, _⟩ => return some value
  | some ⟨.hash _, _⟩ => throw .wrongType

/-- Writes a string with a lifetime in milliseconds, in place of whatever was there. -/
def setFor (name : String) (value lifetime : Bytes) : Script Unit := do
  guard
  let s ← getThe Server
  match s.deadline 1 lifetime with
  | .error e => throw e
  | .ok expires => set (s.put name ⟨.string value, some expires⟩)

/-- The fields of a hash; none if there is no hash. -/
def fields (name : String) : Script (Table String Bytes × Option Nat) := do
  guard
  match (← getThe Server).live? name with
  | none => return (.empty, none)
  | some ⟨.hash fields, expires⟩ => return (fields, expires)
  | some ⟨.string _, _⟩ => throw .wrongType

/-- Reads fields of a hash. -/
def hashGet (name : String) (names : List String) : Script (List (Option Bytes)) := do
  let (fields, _) ← fields name
  return names.map fields.get?

/-- Writes fields of a hash and keeps its deadline. -/
def hashSet (name : String) (pairs : List (String × Bytes)) : Script Unit := do
  let (fields, expires) ← fields name
  let fields := pairs.foldl (fun t p => t.insert p.1 p.2) fields
  modify fun s => s.put name ⟨.hash fields, expires⟩

def contains (name : String) : Script Bool := do
  guard
  return ((← getThe Server).live? name).isSome

def delete (name : String) : Script Bool := do
  guard
  let s ← getThe Server
  set { s with slots := s.slots.erase name }
  return (s.live? name).isSome

/-- Gives a value a lifetime in seconds. -/
def expire (name : String) (lifetime : Bytes) : Script Unit := do
  guard
  let s ← getThe Server
  match s.deadline 1000 lifetime with
  | .error e => throw e
  | .ok expires =>
    match s.live? name with
    | none => pure ()
    | some slot => set (s.put name { slot with expiresMs := some expires })

/-- Runs a script against a server. -/
def run {α : Type} (s : Server) (script : Script α) : Except StoreError α × Server :=
  match script s with
  | (.ok a, s) => (.ok a, s)
  | (.error e, s) => (.error e.toStoreError, s)

end Server

end Admission
