import Admission.Event
import Admission.Request.Plan
import Admission.Request.Response

/-!
A request on its way: at each stage it waits for one answer, of a store, a sink, the handler or a
timer, and the answer takes it to the next stage. It may also be dropped at any stage.
-/

namespace Admission

/-- What a request waits for. -/
inductive Await
  | bucket (call : Bucket.Call)
  | record (call : Record.Call)
  | tell (event : Event)
  | handler
  /-- A pause of about an interval, but of no more than what is left of the wait. -/
  | sleep (interval left : Span)
  | nothing
deriving DecidableEq, Repr

/-- The answers to what a request waits for. -/
abbrev Await.Reply : Await → Type
  | bucket call => Except StoreError call.Answer
  | record call => Except StoreError call.Answer
  | tell _ => Unit
  | handler => Except String Response
  | sleep .. => Unit
  | nothing => Empty

/-- The lengths that a pause may have: off the interval by a fifth of it at most, so that many waiting
requests do not ask at once, but no longer than what is left of the wait. -/
def Await.PauseLength (interval left length : Span) : Prop :=
  ∃ n, 4 * interval.nanos ≤ 5 * n ∧ 5 * n ≤ 6 * interval.nanos ∧ length.nanos = min n left.nanos

theorem Await.pauseLength_min (interval left : Span) :
    PauseLength interval left ⟨min interval.nanos left.nanos⟩ :=
  ⟨interval.nanos, by omega, by omega, rfl⟩

/-- The time at which an answer arrives: the wall clock in milliseconds, which may jump, and the running
time in nanoseconds, by which waits are measured. -/
structure Moment where
  clockMs : UInt64
  instant : Nat
deriving DecidableEq, Repr

def Moment.clockSecs (t : Moment) : UInt64 := t.clockMs / 1000

/-- What the check of the bucket has found. -/
inductive Verdict
  /-- No bucket was consulted. -/
  | unlimited
  /-- The store failed, so the request is let through. -/
  | unknown (account : Account)
  | granted (account : Account) (status : Bucket.Status)
deriving DecidableEq, Repr

/-- Where a request goes after a report or after it has given up its claim. -/
inductive Goal
  /-- Claim the key, if there is one. -/
  | claim (verdict : Verdict)
  /-- Run the handler, with or without a claim. -/
  | dispatch (verdict : Verdict) (owned : Option String)
  /-- Charge for the response and give it. -/
  | settle (verdict : Verdict) (response : Response)
  | finish (result : Except String Response)

/-- A wait for the response of another request. -/
structure Poll where
  interval : Span
  /-- The instant at which the wait is over. -/
  endsAt : Nat
deriving DecidableEq, Repr

inductive Stage
  /-- Waits for the refilled bucket. -/
  | checking (account : Account) (nowMs : UInt64)
  /-- Waits for the claim on its key. -/
  | claiming (verdict : Verdict) (key : String) (now : UInt64)
  /-- Pauses before it looks at the record again. -/
  | pausing (verdict : Verdict) (key : String) (poll : Poll) (left : Span)
  /-- Looks at the record again. -/
  | fetching (verdict : Verdict) (key : String) (poll : Poll) (now : UInt64)
  /-- Waits for the handler. -/
  | handling (verdict : Verdict) (owned : Option String)
  /-- Writes the response into its record. -/
  | saving (verdict : Verdict) (key : String) (response : Response) (now : UInt64)
  /-- Gives up its claim. -/
  | releasing (key : String) (now : UInt64) (goal : Goal)
  /-- Takes the cost out of the bucket. -/
  | charging (account : Account) (cost : UInt32) (nowMs : UInt64) (response : Response)
  /-- Reports an event. A request that owns a key by now gives it up when it is dropped here. -/
  | telling (event : Event) (owned : Option String) (goal : Goal)
  | finished (result : Except String Response)

namespace Verdict

def account? : Verdict → Option Account
  | unlimited => none
  | unknown account => some account
  | granted account _ => some account

/-- Puts what the check has found on a response. -/
def decorate (v : Verdict) (response : Response) : Response :=
  match v with
  | granted _ status => response.withLimit status status.remaining
  | _ => response

@[simp] theorem status_decorate (v : Verdict) (response : Response) :
    (v.decorate response).status = response.status := by
  cases v <;> rfl

@[simp] theorem body_decorate (v : Verdict) (response : Response) :
    (v.decorate response).body = response.body := by
  cases v <;> rfl

end Verdict

namespace Plan

variable (plan : Plan)

/-- What a request waits for at a stage. -/
def await : Stage → Await
  | .checking account now => .bucket (Bucket.checkCall account.policy account.identifier now)
  | .claiming _ key now => .record (plan.terms.claimCall key now)
  | .pausing _ _ poll left => .sleep poll.interval left
  | .fetching _ key _ now => .record (.fetch key now)
  | .handling .. => .handler
  | .saving _ key response now =>
    .record (plan.terms.saveCall key response.status response.body now)
  | .releasing key now _ => .record (.release key now)
  | .charging account cost now _ =>
    .bucket (Bucket.chargeCall account.policy account.identifier cost now)
  | .telling event _ _ => .tell event
  | .finished _ => .nothing

/-- The first stage on the way to a goal. A response that costs nothing is not charged. -/
def enter (t : Moment) : Goal → Stage
  | .claim verdict =>
    match plan.key with
    | some key => .claiming verdict key t.clockSecs
    | none => .handling verdict none
  | .dispatch verdict owned => .handling verdict owned
  | .settle verdict response =>
    let final := verdict.decorate response
    match verdict.account? with
    | none => .finished (.ok final)
    | some account =>
      let cost := account.policy.cost response.status
      if cost = 0 then .finished (.ok final) else .charging account cost t.clockMs final
  | .finish result => .finished result

/-- The stage at which a request starts. -/
def start (t : Moment) : Stage :=
  match plan.account with
  | some account => .checking account t.clockMs
  | none => plan.enter t (.claim .unlimited)

/-- The check has been answered. -/
def checked (account : Account) (t : Moment) : Except StoreError Bucket.State → Stage
  | .ok state =>
    let status := Bucket.Status.ofState account.policy state
    if status.allowed then
      .telling (.allowed account.policy.name status.remaining) none (.claim (.granted account status))
    else
      let retryAfter := Bucket.retryAfterSecs status.resetAt t.clockSecs
      .telling (.denied account.policy.name retryAfter) none
        (.finish (.ok (.tooManyRequests status retryAfter)))
  | .error e => .telling (.limiterFailedOpen account.policy.name e) none (.claim (.unknown account))

/-- The store of records is of no use, so the handler runs without it. -/
def degraded (verdict : Verdict) (e : StoreError) : Stage :=
  .telling (.recordsFailedOpen e) none (.dispatch verdict none)

/-- Gives the recorded response instead of running the handler. -/
def replay (verdict : Verdict) (record : Record) : Stage :=
  match Response.ofRecord record with
  | .ok response => .telling (.replayed record.status) none (.settle verdict response)
  | .error e => degraded verdict e

/-- The record did not complete in time. -/
def conflict (verdict : Verdict) : Stage :=
  .telling .inFlightConflict none (.settle verdict .inProgress)

/-- Pauses once more if there is time left. -/
def keepWaiting (verdict : Verdict) (key : String) (poll : Poll) (t : Moment) : Stage :=
  if poll.endsAt ≤ t.instant then conflict verdict
  else .pausing verdict key poll ⟨poll.endsAt - t.instant⟩

/-- The claim has been answered. -/
def claimed (verdict : Verdict) (key : String) (t : Moment) : Record.Claim → Stage
  | .claimed => .telling .claimed none (.dispatch verdict (some key))
  | .degraded e => degraded verdict e
  | .alreadyClaimed record =>
    if record.isProcessing then
      match plan.inFlight with
      | .proceed => .telling .inFlightProceeded none (.dispatch verdict none)
      | .wait maxWait interval =>
        keepWaiting verdict key
          ⟨.ofMillis interval.toNat, t.instant + (Span.ofMillis maxWait.toNat).nanos⟩ t
    else replay verdict record

/-- The record has been read while waiting. -/
def fetched (verdict : Verdict) (key : String) (poll : Poll) (t : Moment) :
    Except StoreError (Option Record) → Stage
  | .ok (some record) =>
    if record.isProcessing then keepWaiting verdict key poll t else replay verdict record
  | .ok none => conflict verdict
  | .error e => degraded verdict e

/-- The handler has answered. Only the owner of a claim saves the response, or gives the claim up if
there is none. -/
def handled (verdict : Verdict) (owned : Option String) (t : Moment) :
    Except String Response → Stage
  | .ok response =>
    match owned with
    | some key => .saving verdict key response t.clockSecs
    | none => plan.enter t (.settle verdict response)
  | .error e =>
    match owned with
    | some key => .releasing key t.clockSecs (.finish (.error e))
    | none => .finished (.error e)

/-- The response has been saved, or could not be. -/
def saved (verdict : Verdict) (key : String) (response : Response) (t : Moment) :
    Except StoreError Unit → Stage
  | .ok () => plan.enter t (.settle verdict response)
  | .error _ => .releasing key t.clockSecs (.settle verdict response)

/-- The claim has been given up, or was not there any more, or could not be given up. -/
def released (key : String) (goal : Goal) (t : Moment) : Except StoreError Bool → Stage
  | .ok true => .telling .released (some key) goal
  | .ok false => plan.enter t goal
  | .error _ => plan.enter t goal

/-- The charge has been answered; it does not change the response. -/
def charged (account : Account) (cost : UInt32) (response : Response) :
    Except StoreError UInt32 → Stage
  | .ok _ => .telling (.charged account.policy.name cost) none (.finish (.ok response))
  | .error e =>
    .telling (.limiterFailedOpen account.policy.name e) none (.finish (.ok response))

/-- The next stage. -/
def resume (t : Moment) : (s : Stage) → (plan.await s).Reply → Stage
  | .checking account _, reply => checked account t reply
  | .claiming verdict key _, reply => plan.claimed verdict key t (.ofAnswer reply)
  | .pausing verdict key poll _, _ => .fetching verdict key poll t.clockSecs
  | .fetching verdict key poll _, reply => fetched verdict key poll t reply
  | .handling verdict owned, reply => plan.handled verdict owned t reply
  | .saving verdict key response _, reply => plan.saved verdict key response t reply
  | .releasing key _ goal, reply => plan.released key goal t reply
  | .charging account cost _ response, reply => charged account cost response reply
  | .telling _ _ goal, _ => plan.enter t goal
  | .finished _, reply => reply.elim

end Plan

/-- The key that a request gives up in the background when it is dropped at a stage. The claim is not
guarded before its report is over. -/
def Stage.guarded? : Stage → Option String
  | .handling _ owned => owned
  | .saving _ key _ _ => some key
  | .releasing key _ _ => some key
  | .telling _ owned _ => owned
  | _ => none

end Admission
