import Admission.Json.Value

/-!
Reading data out of JSON values. A reader answers `none` for a value that does not fit, so all
misfits are alike.
-/

namespace Admission.Json

/-- How deep arrays and objects may nest where the values in them are kept. -/
def depthLimit : Nat := 127

namespace Number

/-- The number as a natural number up to `bound`: digits alone, no sign, point or exponent. -/
def natural? (bound : Nat) (n : Number) : Option Nat :=
  if n.plain ∧ n.digits ≤ bound then some n.digits else none

/-- The smallest number that 64-bit floating point rounds to infinity. -/
def floatBound : Nat := Nat.pow 2 1024 - Nat.pow 2 970

/-- Whether the number can be rounded to one in 64-bit floating point. The count of digits decides where
that is enough. -/
def isFinite (n : Number) : Bool :=
  if n.digits = 0 then true
  else
    let magnitude := (Nat.toDigits 10 n.digits).length + n.scale
    if 310 < magnitude then false
    else if magnitude < 300 then true
    else if 0 ≤ n.scale then n.digits * Nat.pow 10 n.scale.toNat < floatBound
    else n.digits < floatBound * Nat.pow 10 (-n.scale).toNat

end Number

namespace Value

def natural? (bound : Nat) : Value → Option Nat
  | .number n => n.natural? bound
  | _ => none

def word32? (v : Value) : Option UInt32 := (v.natural? (UInt32.size - 1)).map UInt32.ofNat

def word64? (v : Value) : Option UInt64 := (v.natural? (UInt64.size - 1)).map UInt64.ofNat

def flag? : Value → Option Bool
  | .bool b => some b
  | _ => none

def text? : Value → Option String
  | .string s => s
  | _ => none

def items? : Value → Option (List Value)
  | .array vs => some vs
  | _ => none

/-- The value of the one member of that name. Fails if there are two. -/
def member? (members : List (Option String × Value)) (name : String) : Option (Option Value) :=
  match members.filter (·.1 == some name) with
  | [] => some none
  | [m] => some (some m.2)
  | _ => none

/-- The fields of a record, in the order of their names. A record is an object, in which members of
other names are passed over, or an array that lists the first fields in order. -/
def fields? (names : List String) : Value → Option (List (Option Value))
  | .object members =>
    if members.any (·.1.isNone) then none else names.mapM (member? members)
  | .array items =>
    if items.length ≤ names.length then
      some (items.map some ++ List.replicate (names.length - items.length) none)
    else none
  | _ => none

/-- A field that must be there. -/
def required {α : Type} (read : Value → Option α) (field : Option Value) : Option α :=
  field.bind read

/-- A field that may be left out. -/
def optional {α : Type} (default : α) (read : Value → Option α) : Option Value → Option α
  | none => some default
  | some v => read v

/-- Whether the value can be kept as it stands: at most `depth` brackets deep, every string a text
and every number finite. -/
def isKeepable : Nat → Value → Bool
  | _, .null => true
  | _, .bool _ => true
  | _, .number n => n.isFinite
  | _, .string s => s.isSome
  | 0, .array _ => false
  | 0, .object _ => false
  | depth + 1, .array items => items.all (isKeepable depth)
  | depth + 1, .object members =>
    members.all fun m => m.1.isSome && isKeepable depth m.2

end Value

end Admission.Json
