import Admission.Settings.Environment
import Admission.Word

/-!
Where the server is: the connection settings, hiding the password of an address, and which addresses
can be read.
-/

namespace Admission.Server

/-! ### Connection settings -/

structure Connection where
  url : String := "redis://localhost:6379"
  maxConnections : UInt64 := 50
deriving DecidableEq, Repr

/-- A blank address and a count that is not set leave the defaults. -/
def Connection.ofVariables (vars : Variables) : Except SettingError Connection :=
  let default : Connection := {}
  let url :=
    match vars "REDIS_URI" with
    | some raw => if Text.trim raw = "" then default.url else Text.trim raw
    | none => default.url
  match vars "REDIS_MAX_CONNECTIONS" with
  | none => .ok { default with url := url }
  | some raw =>
    match Text.Numeral.read64 (Text.trimChars raw.toList) with
    | .ok n =>
      if 0 < n then .ok ⟨url, n⟩ else .error ⟨"REDIS_MAX_CONNECTIONS", .notPositive raw⟩
    | .error _ => .error ⟨"REDIS_MAX_CONNECTIONS", .notPositive raw⟩

/-! ### Passwords -/

/-- The text before the first place where `mark` starts, and the text after the mark. -/
def cutFirst? (mark : List Char) : List Char → Option (List Char × List Char)
  | [] => none
  | c :: cs =>
    if mark.isPrefixOf (c :: cs) then some ([], (c :: cs).drop mark.length)
    else (cutFirst? mark cs).map fun (before, after) => (c :: before, after)

/-- The text before the last `mark`, and the text after it. -/
def cutLast? (mark : Char) : List Char → Option (List Char × List Char)
  | [] => none
  | c :: cs =>
    match cutLast? mark cs with
    | some (before, after) => some (c :: before, after)
    | none => if c = mark then some ([], cs) else none

/-- Hides what stands between the last colon and the last at sign of an address, looked for after its
scheme. -/
def maskPassword (url : String) : String :=
  let cs := url.toList
  let (scheme, rest) :=
    match cutFirst? [':', '/', '/'] cs with
    | some (scheme, rest) => (scheme ++ [':', '/', '/'], rest)
    | none => ([], cs)
  match cutLast? '@' rest with
  | none => url
  | some (login, host) =>
    match cutLast? ':' login with
    | none => url
    | some (user, _) =>
      String.ofList (scheme ++ user ++ [':', '*', '*', '*', '@'] ++ host)

/-! ### Reading addresses -/

/-- Whether the text after a host is nothing or a colon and a 16-bit port, which may be left out. -/
def isPortSuffix : List Char → Bool
  | [] => true
  | ':' :: [] => true
  | ':' :: '+' :: _ => false
  | ':' :: cs => (Text.Numeral.read 65535 cs).isOk
  | _ => false

/-- Whether the text is a host, which may be in brackets, with or without a port. -/
def isHost (cs : List Char) : Bool :=
  match cutLast? ']' cs with
  | some (_, rest) => isPortSuffix rest
  | none =>
    let host := cs.takeWhile (· != ':')
    !host.isEmpty && isPortSuffix (cs.dropWhile (· != ':'))

/-- Whether the path of an address names a database, by its number, or none. -/
def isDatabase : List Char → Bool
  | '/' :: [] => true
  | '/' :: '-' :: cs => (Text.Numeral.read (Word.maxSigned + 1) cs).isOk
  | '/' :: cs => (Text.Numeral.read Word.maxSigned cs).isOk
  | [] => true
  | _ => false

/-- Whether an address can be read: a socket path, or a host with an optional login, port and
database. -/
def isAddress (url : String) : Bool :=
  match cutFirst? [':', '/', '/'] url.toList with
  | none => false
  | some (scheme, rest) =>
    let scheme := String.ofList scheme
    if scheme = "redis+unix" ∨ scheme = "unix" then true
    else if scheme = "redis" ∨ scheme = "rediss" then
      let place := rest.takeWhile fun c => c != '?' && c != '#'
      let authority := place.takeWhile (· != '/')
      let host := ((cutLast? '@' authority).map Prod.snd).getD authority
      isHost host && isDatabase (place.dropWhile (· != '/'))
    else false

end Admission.Server
