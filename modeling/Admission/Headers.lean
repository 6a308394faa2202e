import Admission.Bytes
import Admission.Text.Blank

/-!
Header fields: names in lower case, several values for a name in the order in which they came.
-/

namespace Admission

/-- A name as it is compared: ASCII letters in lower case. -/
def lowerName (name : String) : String := name.map Char.toLower

/-- Header fields in order. -/
structure Headers where
  fields : List (String × Bytes)
deriving DecidableEq, Repr

namespace Headers

def empty : Headers := ⟨[]⟩

/-- The first value of a name. -/
def get? (h : Headers) (name : String) : Option Bytes := h.fields.lookup (lowerName name)

/-- All values of a name. -/
def values (h : Headers) (name : String) : List Bytes :=
  (h.fields.filter (·.1 == lowerName name)).map Prod.snd

/-- Adds a value after any that the name already has. -/
def append (h : Headers) (name : String) (value : Bytes) : Headers :=
  ⟨h.fields ++ [(lowerName name, value)]⟩

/-- Makes a value the only one of its name. -/
def set (h : Headers) (name : String) (value : Bytes) : Headers :=
  ⟨h.fields.filter (·.1 != lowerName name) ++ [(lowerName name, value)]⟩

/-- The fields by name, values of one name in their order. -/
def sorted (h : Headers) : List (String × Bytes) :=
  h.fields.mergeSort fun a b => a.1 ≤ b.1

/-- Whether bytes may be the value of a field: no control characters but the tab. -/
def isValue (b : Bytes) : Bool := b.all fun x => x == 9 || (32 ≤ x && x != 127)

/-- Whether a value can be read as text: visible ASCII characters, spaces and tabs. -/
def isText (b : Bytes) : Bool := b.all fun x => x == 9 || (32 ≤ x && x < 127)

/-- The first value of a name as text between blanks, if something is left of it. -/
def text? (h : Headers) (name : String) : Option String :=
  match h.get? name with
  | none => none
  | some b =>
    if isText b then
      match Text.trimChars b.chars with
      | [] => none
      | cs => some (String.ofList cs)
    else none

end Headers

end Admission
