/-!
The identity of a bucket and the names under which stores keep it.
-/

namespace Admission.Bucket

/-- A policy applied to one caller. -/
structure Key where
  policy : String
  identifier : String
deriving DecidableEq, Repr

namespace Key

/-- The name of the bucket. The part in braces decides the slot of a clustered store, so that both
fields of a bucket share one. -/
def text (k : Key) : String :=
  "rate_limit:\x7b" ++ k.policy ++ ":" ++ k.identifier ++ "\x7d"

/-- The name of the token count. -/
def tokensName (k : Key) : String := k.text ++ ":tokens"

/-- The name of the time of the last refill. -/
def lastRefillName (k : Key) : String := k.text ++ ":last_refill"

end Key

end Admission.Bucket
