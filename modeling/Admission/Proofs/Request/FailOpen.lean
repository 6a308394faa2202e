import Admission.Policy.Catalogue
import Admission.Proofs.Request.Run

/-! # Whatever the stores answer

A request calls its handler, and is given just what that answers, unless it is denied for want of
tokens, finds a response under its key or waits in vain for one. Failures of the stores never come
between. -/

namespace Admission

/-! ## What a history holds -/

namespace Exchange

/-- The bucket that a check was answered with. -/
def checked? : Exchange → Option Bucket.State
  | ⟨_, .bucket (.refill ..), .ok state⟩ => some state
  | _ => none

/-- The answer to a look at the record during a wait. -/
def fetched? : Exchange → Option (Except StoreError (Option Record))
  | ⟨_, .record (.fetch ..), reply⟩ => some reply
  | _ => none

/-- What the handler has answered. -/
def handled? : Exchange → Option (Except String Response)
  | ⟨_, .handler, reply⟩ => some reply
  | _ => none

end Exchange

namespace History

/-- How often the handler has answered. -/
def calls (h : History) : Nat := h.past.countP fun x => x.handled?.isSome

def Handled (h : History) (reply : Except String Response) : Prop :=
  ∃ x ∈ h.past, x.handled? = some reply

def Checked (h : History) (state : Bucket.State) : Prop :=
  ∃ x ∈ h.past, x.checked? = some state

/-- A claim or a look during a wait has found the record. -/
def Found (h : History) (record : Record) : Prop :=
  ∃ x ∈ h.past, ∃ key, x.found? = some (key, record)

/-- The claim has found a record that is still processing, and so has each look since then that has
found any. The wait that began then ends at an instant. -/
structure Waits (h : History) (endsAt : Nat) : Prop where
  claim : ∃ key now record, h.claim? = some (key, now, .alreadyClaimed record) ∧
    record.isProcessing = true
  inFlight : ∃ maxWait interval, h.plan.inFlight = .wait maxWait interval
  waitEnd : h.waitEnd? = some endsAt
  looks : ∀ x ∈ h.past, ∀ reply, x.fetched? = some reply →
    ∃ record?, reply = .ok record? ∧ ∀ record ∈ record?, record.isProcessing = true

/-- A look has found no record, or an answer has come when the wait was over. -/
def GivesUp (h : History) (endsAt : Nat) : Prop :=
  ∃ x ∈ h.past, x.fetched? = some (.ok none) ∨ endsAt ≤ x.time.instant

/-- Why a response is given without a call of the handler. -/
inductive Spares (h : History) (response : Response) : Prop
  | denied (state : Bucket.State) (checked : h.Checked state) (empty : state.tokens = 0)
      (status : response.status = 429)
  | replayed (record : Record) (found : h.Found record) (final : record.isProcessing = false)
      (replayable : Response.isStatus record.status = true)
      (status : response.status = record.status) (body : response.body = record.body)
  | conflict (endsAt : Nat) (waits : h.Waits endsAt) (givesUp : h.GivesUp endsAt)
      (status : response.status = 409)

/-- How a request may end. What the handler answers is given as it is, but for header fields. -/
inductive Ends (h : History) : Except String Response → Prop
  | spared {response : Response} (calls : h.calls = 0) (spares : h.Spares response) :
      Ends h (.ok response)
  | responded {reply response : Response} (calls : h.calls = 1) (handled : h.Handled (.ok reply))
      (status : response.status = reply.status) (body : response.body = reply.body) :
      Ends h (.ok response)
  | failed {e : String} (calls : h.calls = 1) (handled : h.Handled (.error e)) :
      Ends h (.error e)

end History

/-! ## How a history grows -/

namespace Exchange

/-- Whether an exchange is neither with the handler nor a look at a record. -/
structure IsAside (x : Exchange) : Prop where
  handled? : x.handled? = none
  claim? : x.claim? = none
  fetched? : x.fetched? = none

theorem isAside_bucket (t : Moment) (call : Bucket.Call) (reply : Await.Reply (.bucket call)) :
    IsAside ⟨t, .bucket call, reply⟩ := ⟨rfl, rfl, rfl⟩

theorem isAside_tell (t : Moment) (event : Event) (reply : Await.Reply (.tell event)) :
    IsAside ⟨t, .tell event, reply⟩ := ⟨rfl, rfl, rfl⟩

theorem isAside_sleep (t : Moment) (interval left : Span)
    (reply : Await.Reply (.sleep interval left)) : IsAside ⟨t, .sleep interval left, reply⟩ :=
  ⟨rfl, rfl, rfl⟩

theorem isAside_complete (t : Moment) (key : String) (status : UInt16) (body : Bytes)
    (now : UInt64) (ttl : Span) (reply : Await.Reply (.record (.complete key status body now ttl))) :
    IsAside ⟨t, .record (.complete key status body now ttl), reply⟩ := ⟨rfl, rfl, rfl⟩

theorem isAside_release (t : Moment) (key : String) (now : UInt64)
    (reply : Await.Reply (.record (.release key now))) :
    IsAside ⟨t, .record (.release key now), reply⟩ := ⟨rfl, rfl, rfl⟩

end Exchange

namespace History

variable {h : History} {x : Exchange} {endsAt : Nat}

/-- The handler has not been called and no record has been looked at. -/
structure Untried (h : History) : Prop where
  calls : h.calls = 0
  claim? : h.claim? = none
  looks : ∀ x ∈ h.past, x.fetched? = none

theorem calls_add_of_none (hx : x.handled? = none) : (h.add x).calls = h.calls := by
  simp [calls, hx]

theorem calls_add_of_some {reply : Except String Response} (hx : x.handled? = some reply) :
    (h.add x).calls = h.calls + 1 := by
  simp [calls, hx]

theorem mem_add (h : History) (x : Exchange) : x ∈ (h.add x).past := by simp

theorem Untried.add (hun : h.Untried) (hx : x.IsAside) : (h.add x).Untried where
  calls := by rw [calls_add_of_none hx.handled?, hun.calls]
  claim? := by rw [claim?_add_of_none hun.claim?, hx.claim?]
  looks := by
    intro y hy
    rcases List.mem_append.mp hy with hy | hy
    · exact hun.looks y hy
    · rw [List.mem_singleton.mp hy, hx.fetched?]

/-- A wait goes on with a look that has not found a response. -/
theorem Waits.add (hw : h.Waits endsAt)
    (hx : ∀ reply, x.fetched? = some reply →
      ∃ record?, reply = .ok record? ∧ ∀ record ∈ record?, record.isProcessing = true) :
    (h.add x).Waits endsAt where
  claim := by
    obtain ⟨key, now, record, hclaim, hprocessing⟩ := hw.claim
    exact ⟨key, now, record, claim?_add_of_some hclaim, hprocessing⟩
  inFlight := hw.inFlight
  waitEnd := waitEnd?_add_of_some hw.waitEnd
  looks := by
    intro y hy
    rcases List.mem_append.mp hy with hy | hy
    · exact hw.looks y hy
    · rw [List.mem_singleton.mp hy]
      exact hx

theorem Waits.add_of_isAside (hw : h.Waits endsAt) (hx : x.IsAside) : (h.add x).Waits endsAt :=
  hw.add fun reply hreply => by
    rw [hx.fetched?] at hreply
    cases hreply

theorem GivesUp.add (hg : h.GivesUp endsAt) : (h.add x).GivesUp endsAt := by
  obtain ⟨y, hy, hover⟩ := hg
  exact ⟨y, List.mem_append_left _ hy, hover⟩

theorem Spares.add {response : Response} (hs : h.Spares response) (hx : x.IsAside) :
    (h.add x).Spares response := by
  cases hs with
  | denied state checked empty status =>
      obtain ⟨y, hy, hstate⟩ := checked
      exact .denied state ⟨y, List.mem_append_left _ hy, hstate⟩ empty status
  | replayed record found final replayable status body =>
      obtain ⟨y, hy, hfound⟩ := found
      exact .replayed record ⟨y, List.mem_append_left _ hy, hfound⟩ final replayable status body
  | conflict endsAt waits givesUp status =>
      exact .conflict endsAt (waits.add_of_isAside hx) givesUp.add status

theorem Handled.add {reply : Except String Response} (hr : h.Handled reply) :
    (h.add x).Handled reply := by
  obtain ⟨y, hy, hreply⟩ := hr
  exact ⟨y, List.mem_append_left _ hy, hreply⟩

theorem Ends.add {result : Except String Response} (he : h.Ends result) (hx : x.IsAside) :
    (h.add x).Ends result := by
  cases he with
  | spared calls spares =>
      exact .spared ((calls_add_of_none hx.handled?).trans calls) (spares.add hx)
  | responded calls handled status body =>
      exact .responded ((calls_add_of_none hx.handled?).trans calls) handled.add status body
  | failed calls handled =>
      exact .failed ((calls_add_of_none hx.handled?).trans calls) handled.add

/-- Only the status and the body of a response matter. -/
theorem Ends.congr {response response' : Response} (he : h.Ends (.ok response))
    (hstatus : response'.status = response.status) (hbody : response'.body = response.body) :
    h.Ends (.ok response') := by
  cases he with
  | spared calls spares =>
      apply Ends.spared calls
      cases spares with
      | denied state checked empty status =>
          exact .denied state checked empty (hstatus.trans status)
      | replayed record found final replayable status body =>
          exact .replayed record found final replayable (hstatus.trans status) (hbody.trans body)
      | conflict endsAt waits givesUp status =>
          exact .conflict endsAt waits givesUp (hstatus.trans status)
  | responded calls handled status body =>
      exact .responded calls handled (hstatus.trans status) (hbody.trans body)

theorem Ends.calls_le_one {result : Except String Response} (he : h.Ends result) :
    h.calls ≤ 1 := by
  cases he with
  | spared calls spares => omega
  | responded calls handled status body => omega
  | failed calls handled => omega

end History

/-! ## What a stage says about the calls of the handler -/

/-- What the history of a request must be when it is on the way to a goal. -/
def Goal.Tells (h : History) : Goal → Prop
  | .claim _ => h.Untried
  | .dispatch .. => h.calls = 0
  | .settle _ response => h.Ends (.ok response)
  | .finish result => h.Ends result

/-- What the history of a request must be when it is at a stage. -/
def Stage.Tells (h : History) : Stage → Prop
  | .checking .. => h.Untried
  | .claiming .. => h.Untried
  | .pausing _ _ poll _ => h.calls = 0 ∧ h.Waits poll.endsAt
  | .fetching _ _ poll _ => h.calls = 0 ∧ h.Waits poll.endsAt
  | .handling .. => h.calls = 0
  | .saving _ _ response _ => h.Ends (.ok response)
  | .releasing _ _ goal => goal.Tells h
  | .charging _ _ _ response => h.Ends (.ok response)
  | .telling _ _ goal => goal.Tells h
  | .finished result => h.Ends result

section Tells

variable {plan : Plan} {h : History} {x : Exchange} {t : Moment}

theorem Goal.Tells.add {goal : Goal} (hg : goal.Tells h) (hx : x.IsAside) :
    goal.Tells (h.add x) := by
  cases goal with
  | claim verdict => exact History.Untried.add hg hx
  | dispatch verdict owned => exact (History.calls_add_of_none hx.handled?).trans hg
  | settle verdict response => exact History.Ends.add hg hx
  | finish result => exact History.Ends.add hg hx

theorem tells_settle (plan : Plan) {response : Response} (hends : h.Ends (.ok response))
    (verdict : Verdict) : (plan.enter t (.settle verdict response)).Tells h := by
  have hfinal : h.Ends (.ok (verdict.decorate response)) :=
    hends.congr (verdict.status_decorate response) (verdict.body_decorate response)
  simp only [Plan.enter]
  split
  · exact hfinal
  · split <;> exact hfinal

theorem Goal.Tells.enter {goal : Goal} (hg : goal.Tells h) : (plan.enter t goal).Tells h := by
  cases goal with
  | claim verdict =>
      have hun : h.Untried := hg
      simp only [Plan.enter]
      split
      · exact hun
      · exact hun.calls
  | dispatch verdict owned => exact hg
  | settle verdict response => exact tells_settle plan hg verdict
  | finish result => exact hg

theorem tells_degraded (hcalls : h.calls = 0) (verdict : Verdict) (e : StoreError) :
    (Plan.degraded verdict e).Tells h := hcalls

theorem tells_conflict (hcalls : h.calls = 0) {endsAt : Nat} (hwaits : h.Waits endsAt)
    (hover : h.GivesUp endsAt) (verdict : Verdict) : (Plan.conflict verdict).Tells h :=
  .spared hcalls (.conflict endsAt hwaits hover rfl)

theorem tells_keepWaiting (hcalls : h.calls = 0) {poll : Poll} (hwaits : h.Waits poll.endsAt)
    (hlast : ∃ x ∈ h.past, x.time = t) (verdict : Verdict) (key : String) :
    (Plan.keepWaiting verdict key poll t).Tells h := by
  unfold Plan.keepWaiting
  split
  · next hlate =>
    obtain ⟨x, hx, rfl⟩ := hlast
    exact tells_conflict hcalls hwaits ⟨x, hx, .inr hlate⟩ verdict
  · exact ⟨hcalls, hwaits⟩

theorem tells_replay (hcalls : h.calls = 0) {record : Record} (hfound : h.Found record)
    (hfinal : record.isProcessing = false) (verdict : Verdict) :
    (Plan.replay verdict record).Tells h := by
  by_cases hstatus : Response.isStatus record.status = true
  · simp only [Plan.replay, Response.ofRecord, hstatus, if_true]
    exact .spared hcalls (.replayed record hfound hfinal hstatus rfl rfl)
  · simp only [Plan.replay, Response.ofRecord, hstatus]
    exact tells_degraded hcalls _ _

theorem tells_checked (hun : h.Untried) (account : Account) {state : Bucket.State}
    (hchecked : h.Checked state) : (Plan.checked account t (.ok state)).Tells h := by
  simp only [Plan.checked]
  split
  · exact hun
  · next hempty =>
    have htokens : state.tokens = 0 :=
      Bucket.Status.tokens_eq_zero_of_allowed_eq_false (eq_false_of_ne_true hempty)
    exact .spared hun.calls (.denied state hchecked htokens rfl)

/-- The claim has been answered, or it has been the first to find what the wait is for. -/
theorem tells_claimed (hcalls : h.calls = 0) (hplan : h.plan = plan) {key : String}
    {now : UInt64} {claim : Record.Claim} (hclaim : h.claim? = some (key, now, claim))
    (hclaimed : h.claimedAt? = some t.instant) (hlast : ∃ x ∈ h.past, x.time = t)
    (hlooks : ∀ x ∈ h.past, x.fetched? = none)
    (hfound : ∀ record, claim = .alreadyClaimed record → h.Found record) (verdict : Verdict) :
    (plan.claimed verdict key t claim).Tells h := by
  cases claim with
  | claimed => exact hcalls
  | degraded e => exact tells_degraded hcalls verdict e
  | alreadyClaimed record =>
      simp only [Plan.claimed]
      split
      · next hprocessing =>
        split
        · exact hcalls
        · next maxWait interval hflight =>
          have hwaits : h.Waits (t.instant + (Span.ofMillis maxWait.toNat).nanos) :=
            { claim := ⟨key, now, record, hclaim, hprocessing⟩
              inFlight := ⟨maxWait, interval, by rw [hplan, hflight]⟩
              waitEnd := by rw [History.waitEnd?, hclaimed, hplan, hflight]; rfl
              looks := by
                intro x hx reply hreply
                rw [hlooks x hx] at hreply
                cases hreply }
          exact tells_keepWaiting hcalls hwaits hlast verdict key
      · next hfinal =>
        exact tells_replay hcalls (hfound record rfl) (eq_false_of_ne_true hfinal) verdict

theorem tells_fetched (hcalls : h.calls = 0) {poll : Poll} (hwaits : h.Waits poll.endsAt)
    {key : String} {now : UInt64} (reply : Except StoreError (Option Record)) (verdict : Verdict) :
    (Plan.fetched verdict key poll t reply).Tells
      (h.add ⟨t, .record (.fetch key now), reply⟩) := by
  have hcalls' : (h.add ⟨t, .record (.fetch key now), reply⟩).calls = 0 :=
    (History.calls_add_of_none rfl).trans hcalls
  match reply with
  | .error e => exact tells_degraded hcalls' verdict e
  | .ok none =>
      refine tells_conflict hcalls' (hwaits.add ?_) ⟨_, History.mem_add _ _, .inl rfl⟩ verdict
      rintro _ ⟨⟩
      exact ⟨none, rfl, by simp⟩
  | .ok (some record) =>
      simp only [Plan.fetched]
      split
      · next hprocessing =>
        refine tells_keepWaiting hcalls' (hwaits.add ?_) ⟨_, History.mem_add _ _, rfl⟩ verdict key
        rintro _ ⟨⟩
        exact ⟨some record, rfl, by simpa using hprocessing⟩
      · next hfinal =>
        exact tells_replay hcalls' ⟨_, History.mem_add _ _, key, rfl⟩
          (eq_false_of_ne_true hfinal) verdict

/-- Only the handler and looks at the record change what is told about a request. -/
theorem Stage.Tells.resume {stage : Stage} (hs : stage.Tells h) (hplan : h.plan = plan)
    (reply : (plan.await stage).Reply) :
    (plan.resume t stage reply).Tells (h.add ⟨t, plan.await stage, reply⟩) := by
  cases stage with
  | checking account now =>
      have hun : (h.add ⟨t, plan.await (.checking account now), reply⟩).Untried :=
        History.Untried.add hs (Exchange.isAside_bucket t _ reply)
      cases reply with
      | ok state => exact tells_checked hun account ⟨_, History.mem_add _ _, rfl⟩
      | error e => exact hun
  | claiming verdict key now =>
      have hun : h.Untried := hs
      apply tells_claimed ((History.calls_add_of_none rfl).trans hun.calls) hplan
      · rw [History.claim?_add_of_none hun.claim?]
        rfl
      · exact History.claimedAt?_add_of_none hun.claim? rfl
      · exact ⟨_, History.mem_add _ _, rfl⟩
      · intro y hy
        rcases List.mem_append.mp hy with hy | hy
        · exact hun.looks y hy
        · rw [List.mem_singleton.mp hy]
          rfl
      · intro record hrecord
        refine ⟨_, History.mem_add _ _, key, ?_⟩
        match reply, hrecord with
        | .ok (some _), rfl => rfl
  | pausing verdict key poll left =>
      have haside := Exchange.isAside_sleep t poll.interval left reply
      exact ⟨(History.calls_add_of_none haside.handled?).trans hs.1, hs.2.add_of_isAside haside⟩
  | fetching verdict key poll now => exact tells_fetched hs.1 hs.2 reply verdict
  | handling verdict owned =>
      have hcalls : (h.add ⟨t, .handler, reply⟩).calls = 1 := by
        rw [History.calls_add_of_some rfl, show h.calls = 0 from hs]
      have hhandled : (h.add ⟨t, .handler, reply⟩).Handled reply :=
        ⟨_, History.mem_add _ _, rfl⟩
      cases reply with
      | ok response =>
          have hends : (h.add ⟨t, .handler, .ok response⟩).Ends (.ok response) :=
            .responded hcalls hhandled rfl rfl
          cases owned with
          | some key => exact hends
          | none => exact tells_settle plan hends verdict
      | error e =>
          have hends : (h.add ⟨t, .handler, .error e⟩).Ends (.error e) := .failed hcalls hhandled
          cases owned with
          | some key => exact hends
          | none => exact hends
  | saving verdict key response now =>
      have hends := History.Ends.add hs (Exchange.isAside_complete t key _ _ now _ reply)
      cases reply with
      | ok done => exact tells_settle plan hends verdict
      | error e => exact hends
  | releasing key now goal =>
      have hgoal := Goal.Tells.add hs (Exchange.isAside_release t key now reply)
      match reply with
      | .ok true => exact hgoal
      | .ok false => exact hgoal.enter
      | .error e => exact hgoal.enter
  | charging account cost now response =>
      have hends := History.Ends.add hs (Exchange.isAside_bucket t _ reply)
      cases reply with
      | ok left => exact hends
      | error e => exact hends
  | telling event owned goal =>
      exact (Goal.Tells.add hs (Exchange.isAside_tell t event reply)).enter
  | finished result => exact reply.elim

theorem tells_start (t : Moment) : (plan.start t).Tells ⟨plan, []⟩ := by
  have hun : History.Untried ⟨plan, []⟩ := ⟨rfl, rfl, by simp⟩
  unfold Plan.start
  split
  · exact hun
  · have hgoal : (Goal.claim .unlimited).Tells ⟨plan, []⟩ := hun
    exact hgoal.enter

theorem Plan.Run.tells {stage : Stage} (run : plan.Run h t stage) : stage.Tells h := by
  induction run with
  | start t => exact tells_start t
  | answer run t' reply takes ih => exact ih.resume run.plan_eq reply

end Tells

/-! ## All runs -/

theorem Goal.Tells.calls_le_one {h : History} {goal : Goal} (hg : goal.Tells h) : h.calls ≤ 1 := by
  cases goal with
  | claim verdict => simp [History.Untried.calls hg]
  | dispatch verdict owned => simp [show h.calls = 0 from hg]
  | settle verdict response => exact History.Ends.calls_le_one hg
  | finish result => exact History.Ends.calls_le_one hg

theorem Stage.Tells.calls_le_one {h : History} {stage : Stage} (hs : stage.Tells h) :
    h.calls ≤ 1 := by
  cases stage with
  | checking account now => simp [History.Untried.calls hs]
  | claiming verdict key now => simp [History.Untried.calls hs]
  | pausing verdict key poll left => simp [hs.1]
  | fetching verdict key poll now => simp [hs.1]
  | handling verdict owned => simp [show h.calls = 0 from hs]
  | saving verdict key response now => exact History.Ends.calls_le_one hs
  | releasing key now goal => exact Goal.Tells.calls_le_one hs
  | charging account cost now response => exact History.Ends.calls_le_one hs
  | telling event owned goal => exact Goal.Tells.calls_le_one hs
  | finished result => exact History.Ends.calls_le_one hs

/-- The handler is not called again. -/
theorem Stage.Tells.calls_eq_zero {plan : Plan} {h : History} {stage : Stage} (hs : stage.Tells h)
    (hawait : plan.await stage = .handler) : h.calls = 0 := by
  cases stage with
  | handling verdict owned => exact hs
  | _ => cases hawait

/-- Whatever its stores, its sink and its handler answer, a request calls its handler once at most,
is never stuck, does not wait for ever and ends in one of the ways in which it may. -/
theorem Layer.ends_of_run (layer : Layer) (request : Request) {settings : Settings}
    (hvalid : settings.validate = .ok ()) {h : History} {t : Moment} {stage : Stage}
    (run : (layer.plan settings request).Run h t stage) :
    h.calls ≤ 1 ∧ ((layer.plan settings request).await stage = .handler → h.calls = 0) ∧
      ((∃ result, stage = .finished result ∧ h.Ends result) ∨
        h.past.length < 10 + 2 * settings.inFlight.pauses ∧
          Nonempty ((layer.plan settings request).await stage).Reply ∧
          ∃ t', ((layer.plan settings request).await stage).Takes t t') := by
  have htells := run.tells
  refine ⟨htells.calls_le_one, htells.calls_eq_zero, ?_⟩
  rcases run.finished_or_pending (Settings.pauses_of_validate hvalid) with
    ⟨result, rfl⟩ | ⟨hfew, hreply, htakes⟩
  · exact .inl ⟨result, rfl, htells⟩
  · exact .inr ⟨hfew, hreply, htakes⟩

/-! ### All stores fail -/

def guardedLayer : Layer := { limit := some Catalogue.entriesUpdate, keepsRecords := true }

def keyedRequest : Request := { headers := .append .empty "X-Idempotency-Key" (.ofString "k") }

def keyedAccount : Account := ⟨Catalogue.entriesUpdate, "anonymous"⟩

def keyedPlan : Plan where
  account := some keyedAccount
  key := some "k"
  terms := { ttl := .ofSecs 86400, lease := .ofSecs 60 }
  deadline := ⟨.ofSecs 2⟩
  inFlight := .wait 5000 50

theorem plan_keyedRequest : guardedLayer.plan {} keyedRequest = keyedPlan := by decide +kernel

/-- The check fails, the claim finds a request in flight, the look at its record fails and so does
the charge. -/
def failingPast : List Exchange :=
  [⟨⟨0, 0⟩, keyedPlan.await (.checking keyedAccount 0), .error (.unavailable "down")⟩,
   ⟨⟨0, 0⟩, .tell (.limiterFailedOpen "ENTRIES_UPDATE" (.unavailable "down")), ()⟩,
   ⟨⟨0, 0⟩, keyedPlan.await (.claiming (.unknown keyedAccount) "k" 0), .ok (some (.processing "k" 0))⟩,
   ⟨⟨50, 50000000⟩, .sleep (.ofMillis 50) (.ofMillis 5000), ()⟩,
   ⟨⟨50, 50000000⟩, .record (.fetch "k" 0), .error (.timeout (.ofSecs 2))⟩,
   ⟨⟨50, 50000000⟩, .tell (.recordsFailedOpen (.timeout (.ofSecs 2))), ()⟩,
   ⟨⟨60, 60000000⟩, .handler, .ok ⟨201, .empty, .ofString "b"⟩⟩,
   ⟨⟨60, 60000000⟩, .bucket (Bucket.chargeCall Catalogue.entriesUpdate "anonymous" 1 60),
    .error (.unavailable "down")⟩,
   ⟨⟨60, 60000000⟩, .tell (.limiterFailedOpen "ENTRIES_UPDATE" (.unavailable "down")), ()⟩]

theorem run_failingPast : keyedPlan.Run ⟨keyedPlan, failingPast⟩ ⟨60, 60000000⟩
    (.finished (.ok ⟨201, .empty, .ofString "b"⟩)) := by
  have hchecking : keyedPlan.Run ⟨keyedPlan, failingPast.take 0⟩ ⟨0, 0⟩ (.checking keyedAccount 0) :=
    .start ⟨0, 0⟩
  have hunknown := hchecking.answer ⟨0, 0⟩ (.error (.unavailable "down"))
    (Await.takes_of_le (by decide) nofun)
  have hclaiming := hunknown.answer ⟨0, 0⟩ () (Await.takes_of_le (by decide) nofun)
  have hpausing := hclaiming.answer ⟨0, 0⟩ (.ok (some (.processing "k" 0)))
    (Await.takes_of_le (by decide) nofun)
  have hfetching := hpausing.answer ⟨50, 50000000⟩ () (Await.takes_of_le (by decide) (by
    rintro _ _ ⟨⟩
    decide))
  have hdegraded := hfetching.answer ⟨50, 50000000⟩ (.error (.timeout (.ofSecs 2)))
    (Await.takes_of_le (by decide) nofun)
  have hhandling := hdegraded.answer ⟨50, 50000000⟩ () (Await.takes_of_le (by decide) nofun)
  have hcharging := hhandling.answer ⟨60, 60000000⟩ (.ok ⟨201, .empty, .ofString "b"⟩)
    (Await.takes_of_le (by decide) nofun)
  have htelling := hcharging.answer ⟨60, 60000000⟩ (.error (.unavailable "down"))
    (Await.takes_of_le (by decide) nofun)
  exact htelling.answer ⟨60, 60000000⟩ () (Await.takes_of_le (by decide) nofun)

theorem ends_of_run_failingPast :
    Settings.validate {} = .ok () ∧
      (guardedLayer.plan {} keyedRequest).Run ⟨keyedPlan, failingPast⟩ ⟨60, 60000000⟩
        (.finished (.ok ⟨201, .empty, .ofString "b"⟩)) ∧
      History.Ends ⟨keyedPlan, failingPast⟩ (.ok ⟨201, .empty, .ofString "b"⟩) := by
  have hvalid : Settings.validate {} = .ok () := rfl
  have run : (guardedLayer.plan {} keyedRequest).Run ⟨keyedPlan, failingPast⟩ ⟨60, 60000000⟩
      (.finished (.ok ⟨201, .empty, .ofString "b"⟩)) := by
    rw [plan_keyedRequest]
    exact run_failingPast
  refine ⟨hvalid, run, ?_⟩
  rcases (guardedLayer.ends_of_run keyedRequest hvalid run).2.2 with ⟨_, ⟨⟩, hends⟩ | ⟨-, ⟨⟨⟩⟩, -⟩
  exact hends

end Admission
