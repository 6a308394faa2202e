import Admission.Json.Token

/-!
JSON values and reading one from a text, with brackets matched on an explicit stack.
-/

namespace Admission.Json

/-- A value. Strings and member names without a text are those that hold half a surrogate pair;
members keep their order and repetitions. -/
inductive Value
  | null
  | bool (b : Bool)
  | number (n : Number)
  | string (s : Option String)
  | array (items : List Value)
  | object (members : List (Option String × Value))

/-- A bracket that is open, with what it holds so far in reverse. -/
inductive Frame
  | array (items : List Value)
  | object (members : List (Option String × Value)) (name : Option String)

/-- What has just been read, hence what may follow. -/
inductive Progress
  | start
  | opened
  | finished (v : Value)
  | members (before : List (Option String × Value))
  | named (before : List (Option String × Value)) (name : Option String)

/-- A value starts with this token. -/
def Progress.begin (stack : List Frame) : Token → Option (List Frame × Progress)
  | .null => some (stack, .finished .null)
  | .bool b => some (stack, .finished (.bool b))
  | .number n => some (stack, .finished (.number n))
  | .string s => some (stack, .finished (.string s))
  | .bracketOpen => some (stack, .opened)
  | .braceOpen => some (stack, .members [])
  | _ => none

/-- One token further. Only an empty bracket may close before an item, so a comma at the end fails. -/
def Progress.step : List Frame × Progress → Token → Option (List Frame × Progress)
  | (stack, .start), t => begin stack t
  | (stack, .opened), .bracketClose => some (stack, .finished (.array []))
  | (stack, .opened), t => begin (.array [] :: stack) t
  | (.array items :: stack, .finished v), .comma => some (.array (v :: items) :: stack, .start)
  | (.array items :: stack, .finished v), .bracketClose =>
    some (stack, .finished (.array (v :: items).reverse))
  | (.object before name :: stack, .finished v), .comma =>
    some (stack, .members ((name, v) :: before))
  | (.object before name :: stack, .finished v), .braceClose =>
    some (stack, .finished (.object ((name, v) :: before).reverse))
  | (stack, .members before), .string s => some (stack, .named before s)
  | (stack, .members []), .braceClose => some (stack, .finished (.object []))
  | (stack, .named before name), .colon => some (.object before name :: stack, .start)
  | _, _ => none

namespace Value

/-- The value that a list of tokens spells. -/
def ofTokens? (ts : List Token) : Option Value :=
  match ts.foldlM Progress.step ([], .start) with
  | some ([], .finished v) => some v
  | _ => none

/-- The value that a text spells, if it spells exactly one. -/
def ofText? (s : String) : Option Value := (tokens? s).bind ofTokens?

end Value

end Admission.Json
