import Admission.Headers
import Admission.Policy.Basic
import Admission.Settings.Basic

/-!
Who a request is charged to: the authenticated caller, else what the headers say, else a name for
callers that are not known.
-/

namespace Admission

/-- What authentication found out about the caller. -/
structure Caller where
  participant : Option String := none
  user : Option String := none
deriving DecidableEq, Repr

/-- The identifier of the caller in a scope, unless it is empty. A user that is known only by its
participant counts as that participant. -/
def Caller.identifier? (c : Caller) (scope : Scope) : Option String :=
  let preferred :=
    match scope with
    | .participant => c.participant
    | .user => c.user.or c.participant
  preferred.filter (· ≠ "")

/-- A way to find the identifier of the bucket for a request. -/
abbrev Resolver := Headers → Option Caller → Scope → Settings → String

/-- What the headers say about the caller. -/
def Headers.identifier? (h : Headers) (scope : Scope) (s : Settings) : Option String :=
  match scope with
  | .participant => h.text? s.participantHeader
  | .user => (h.text? s.userHeader).or (h.text? s.participantHeader)

/-- Headers are under the control of clients, so authentication comes first. -/
def Resolver.standard : Resolver := fun headers caller scope settings =>
  match caller.bind (·.identifier? scope) with
  | some id => id
  | none => (headers.identifier? scope settings).getD settings.anonymousIdentifier

/-- The key under which a request may be made only once, if it carries one. -/
def Headers.idempotencyKey? (h : Headers) (s : Settings) : Option String :=
  h.text? s.idempotencyHeader

end Admission
