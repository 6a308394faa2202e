import Admission.Json.Decode
import Admission.Policy.Basic
import Admission.Table

/-!
Catalogues of policies by name, and reading one from JSON: a list of drafts, of which all must be
readable before any is checked.
-/

namespace Admission

open Json (Value)

/-! ### Reading drafts -/

/-- The name alone, or the name as the one member of an object, with nothing as its value. -/
def Scope.ofJson? (v : Value) : Option Scope :=
  let name :=
    match v with
    | .string s => s
    | .object [(s, .null)] => s
    | _ => none
  match name with
  | some "participant" => some .participant
  | some "user" => some .user
  | _ => none

def Costs.ofJson? (v : Value) : Option Costs :=
  match v.fields? ["success", "not_found", "other", "server_error"] with
  | some [success, notFound, other, serverError] => do
    return {
      success := ← Value.required Value.word32? success
      notFound := ← Value.required Value.word32? notFound
      other := ← Value.required Value.word32? other
      serverError := ← Value.required Value.word32? serverError }
  | _ => none

def PolicyDraft.ofJson? (v : Value) : Option PolicyDraft :=
  match v.fields?
    ["name", "scope", "refill_per_minute", "capacity", "costs", "exempt_server_errors"] with
  | some [name, scope, refill, capacity, costs, exempt] => do
    return {
      name := ← Value.required Value.text? name
      scope := ← Value.optional .participant Scope.ofJson? scope
      refillPerMinute := ← Value.required Value.word32? refill
      capacity := ← Value.required Value.word32? capacity
      costs := ← Value.optional (.uniform 1) Costs.ofJson? costs
      exemptServerErrors := ← Value.optional true Value.flag? exempt }
  | _ => none

/-- The drafts that a text lists, if every one can be read. -/
def PolicyDraft.listOfText? (text : String) : Option (List PolicyDraft) := do
  (← (← Value.ofText? text).items?).mapM PolicyDraft.ofJson?

/-! ### Catalogues -/

/-- Policies by name. -/
structure Catalogue where
  policies : Table String Policy

namespace Catalogue

def empty : Catalogue := ⟨.empty⟩

/-- Adds a policy in place of any other of its name. -/
def add (c : Catalogue) (policy : Policy) : Catalogue := ⟨c.policies.insert policy.name policy⟩

def lookup (c : Catalogue) (name : String) : Option Policy := c.policies.get? name

def require (c : Catalogue) (name : String) : Except PolicyError Policy :=
  match c.lookup name with
  | some policy => .ok policy
  | none => .error (.unknown name)

/-- The policies in the order of their names. -/
def toList (c : Catalogue) : List Policy :=
  (c.policies.entries.mergeSort fun a b => a.1 ≤ b.1).map Prod.snd

/-- Checks the drafts one after another and adds each to the catalogue. -/
def addDrafts (c : Catalogue) : List PolicyDraft → Except PolicyError Catalogue
  | [] => .ok c
  | draft :: drafts =>
    match draft.build with
    | .ok policy => (c.add policy).addDrafts drafts
    | .error e => .error e

/-- Reads a catalogue. Text that is no list of drafts is refused before any draft is checked. -/
def ofText (text : String) : Except PolicyError Catalogue :=
  match PolicyDraft.listOfText? text with
  | none => .error (.unreadable "expected a list of policies")
  | some drafts => empty.addDrafts drafts

def entriesWrite : Policy where
  name := "ENTRIES_WRITE"
  refillPerMinute := 1200
  capacity := 36000
  capacity_pos := by decide
  refillPerMinute_pos := by decide

def entriesUpdate : Policy where
  name := "ENTRIES_UPDATE"
  refillPerMinute := 600
  capacity := 600
  capacity_pos := by decide
  refillPerMinute_pos := by decide

/-- A miss costs three tokens, so that probing for keys drains the bucket faster than reading. -/
def entriesRead : Policy where
  name := "ENTRIES_READ_PARTICIPANT_ANTISCAN"
  refillPerMinute := 2
  capacity := 50
  costs := { Costs.uniform 1 with notFound := 3 }
  capacity_pos := by decide
  refillPerMinute_pos := by decide

/-- The policies of the directory service. -/
def standard : Catalogue := ((empty.add entriesWrite).add entriesUpdate).add entriesRead

/-- All policies of the second catalogue in place of those of their names in the first. -/
def override (c other : Catalogue) : Catalogue :=
  other.policies.entries.foldl (fun c e => c.add e.2) c

end Catalogue

end Admission
