import Admission.Proofs.Request.FailOpen

/-! # What a request shows of itself

Others see of a request that it calls the store of buckets, reports events, calls the handler and
deletes its claim. These deeds come in a fixed order, and which of them there are follows from the
plan, from what the check has found and from the status of the response. -/

namespace Admission

namespace Account

variable (account : Account)

def checkCall (nowMs : UInt64) : Bucket.Call :=
  Bucket.checkCall account.policy account.identifier nowMs

/-- The charge for a response with a status. -/
def chargeCall (status : UInt16) (nowMs : UInt64) : Bucket.Call :=
  Bucket.chargeCall account.policy account.identifier (account.policy.cost status) nowMs

end Account

/-- The status of the response, if there is one. -/
def Response.status? : Except String Response → Option UInt16
  | .ok response => some response.status
  | .error _ => none

theorem Response.status?_eq_some {result : Except String Response} {status : UInt16} :
    Response.status? result = some status ↔
      ∃ response, result = .ok response ∧ response.status = status := by
  cases result <;> simp [Response.status?]

/-! ## Deeds -/

inductive Deed
  | bucket (call : Bucket.Call)
  | tell (event : Event)
  | handler
  /-- A release has deleted the record. -/
  | free
deriving DecidableEq

def Exchange.deed? : Exchange → Option Deed
  | ⟨_, .bucket call, _⟩ => some (.bucket call)
  | ⟨_, .tell event, _⟩ => some (.tell event)
  | ⟨_, .handler, _⟩ => some .handler
  | ⟨_, .record (.release ..), .ok true⟩ => some .free
  | _ => none

namespace Deed

def bucketCall? : Deed → Option Bucket.Call
  | bucket call => some call
  | _ => none

def event? : Deed → Option Event
  | tell event => some event
  | _ => none

end Deed

namespace Exchange

def bucketCall? : Exchange → Option Bucket.Call
  | ⟨_, .bucket call, _⟩ => some call
  | _ => none

def event? : Exchange → Option Event
  | ⟨_, .tell event, _⟩ => some event
  | _ => none

/-- Whether a release has deleted the record. -/
def frees : Exchange → Bool
  | ⟨_, .record (.release ..), .ok true⟩ => true
  | _ => false

/-- Deeds tell all that is asked about exchanges here. -/
theorem eq_of_deed? (x : Exchange) :
    x.bucketCall? = x.deed?.bind Deed.bucketCall? ∧ x.event? = x.deed?.bind Deed.event? ∧
      x.handled?.isSome = (x.deed?.map (· == .handler)).getD false ∧
      (x.frees = true ↔ x.deed? = some .free) := by
  obtain ⟨t, await, reply⟩ := x
  cases await with
  | record call =>
      cases call with
      | release key now =>
          rcases reply with e | _ | _ <;> exact ⟨rfl, rfl, rfl, by simp [frees, deed?]⟩
      | _ => exact ⟨rfl, rfl, rfl, nofun, nofun⟩
  | _ => exact ⟨rfl, rfl, rfl, nofun, nofun⟩

end Exchange

namespace History

variable (h : History)

def deeds : List Deed := h.past.filterMap Exchange.deed?

/-- The calls of the store of buckets. -/
def bucketCalls : List Bucket.Call := h.past.filterMap Exchange.bucketCall?

/-- All that was reported. -/
def events : List Event := h.past.filterMap Exchange.event?

theorem bucketCalls_eq : h.bucketCalls = h.deeds.filterMap Deed.bucketCall? := by
  rw [deeds, List.filterMap_filterMap]
  exact congrArg h.past.filterMap (funext fun x => x.eq_of_deed?.1)

theorem events_eq : h.events = h.deeds.filterMap Deed.event? := by
  rw [deeds, List.filterMap_filterMap]
  exact congrArg h.past.filterMap (funext fun x => x.eq_of_deed?.2.1)

theorem calls_eq : h.calls = h.deeds.count .handler := by
  rw [deeds, List.count, List.countP_filterMap]
  exact congrArg h.past.countP (funext fun x => x.eq_of_deed?.2.2.1)

theorem exists_frees_iff : (∃ x ∈ h.past, x.frees = true) ↔ .free ∈ h.deeds := by
  simp only [deeds, List.mem_filterMap, (Exchange.eq_of_deed? _).2.2.2]

end History

/-! ## The order of deeds -/

namespace Plan

variable (plan : Plan)

/-- The deeds of a check that lets the request through. -/
inductive Opens : Verdict → List Deed → Prop
  | unlimited (account_eq : plan.account = none) : Opens .unlimited []
  | unknown {account : Account} {now : UInt64} {e : StoreError}
      (account_eq : plan.account = some account) :
      Opens (.unknown account)
        [.bucket (account.checkCall now), .tell (.limiterFailedOpen account.policy.name e)]
  | granted {account : Account} {now : UInt64} {status : Bucket.Status}
      (account_eq : plan.account = some account) :
      Opens (.granted account status)
        [.bucket (account.checkCall now), .tell (.allowed account.policy.name status.remaining)]

/-- The deeds of a claim after which the handler is called, with the key that is owned then. -/
inductive Claims : Option String → List Deed → Prop
  | keyless (key_eq : plan.key = none) : Claims none []
  | won {key : String} (key_eq : plan.key = some key) : Claims (some key) [.tell .claimed]
  | proceeded {key : String} (key_eq : plan.key = some key) :
      Claims none [.tell .inFlightProceeded]
  | degraded {key : String} {e : StoreError} (key_eq : plan.key = some key) :
      Claims none [.tell (.recordsFailedOpen e)]

/-- The deeds from which a response with a status has come, or the lack of a response. -/
inductive Answers : Option UInt16 → List Deed → Prop
  | replayed {key : String} {status : UInt16} (key_eq : plan.key = some key) :
      Answers (some status) [.tell (.replayed status)]
  | conflict {key : String} {status : UInt16} (key_eq : plan.key = some key) :
      Answers (some status) [.tell .inFlightConflict]
  | handled {owned : Option String} {claiming : List Deed} (claims : plan.Claims owned claiming)
      {status? : Option UInt16} : Answers status? (claiming ++ [.handler])
  | freed {key : String} {claiming : List Deed} (claims : plan.Claims (some key) claiming)
      {status? : Option UInt16} :
      Answers status? (claiming ++ [.handler] ++ [.free, .tell .released])

/-- The deeds of the charge for a response with a status, or for none. -/
inductive Charges : Option UInt16 → List Deed → Prop
  | failed : Charges none []
  | unlimited {status : UInt16} (account_eq : plan.account = none) : Charges (some status) []
  | exempt {account : Account} {status : UInt16} (account_eq : plan.account = some account)
      (cost_eq : account.policy.cost status = 0) : Charges (some status) []
  | charged {account : Account} {status : UInt16} {now : UInt64}
      (account_eq : plan.account = some account) (cost_ne : account.policy.cost status ≠ 0) :
      Charges (some status) [.bucket (account.chargeCall status now),
        .tell (.charged account.policy.name (account.policy.cost status))]
  | failedOpen {account : Account} {status : UInt16} {now : UInt64} {e : StoreError}
      (account_eq : plan.account = some account) (cost_ne : account.policy.cost status ≠ 0) :
      Charges (some status) [.bucket (account.chargeCall status now),
        .tell (.limiterFailedOpen account.policy.name e)]

end Plan

namespace History

/-- The check has not found the bucket empty, and after it came some deeds. -/
structure Admits (h : History) (verdict : Verdict) (deeds : List Deed) : Prop where
  opens : ∃ opening, h.plan.Opens verdict opening ∧ h.deeds = opening ++ deeds
  nonempty : ∀ state, h.Checked state → state.tokens ≠ 0

/-- What a request has done that is over. -/
inductive Shows (h : History) : Except String Response → Prop
  /-- The bucket is empty, and nothing else happens but that this is reported. -/
  | denied {account : Account} {state : Bucket.State} {now retryAfter : UInt64} {t t' : Moment}
      {response : Response} (account_eq : h.plan.account = some account)
      (empty : state.tokens = 0)
      (past_eq : h.past = [⟨t, .bucket (account.checkCall now), .ok state⟩,
        ⟨t', .tell (.denied account.policy.name retryAfter), ()⟩]) : Shows h (.ok response)
  | admitted {verdict : Verdict} {result : Except String Response} {answering charging : List Deed}
      (answers : h.plan.Answers (Response.status? result) answering)
      (charges : h.plan.Charges (Response.status? result) charging)
      (admits : h.Admits verdict (answering ++ charging)) : Shows h result

end History

/-! ## How deeds add up -/

namespace History

variable {h : History} {x : Exchange} {verdict : Verdict} {deeds : List Deed}

theorem deeds_add : (h.add x).deeds = h.deeds ++ x.deed?.toList := by
  cases hx : x.deed? <;> simp [History.deeds, hx]

theorem checked_add {state : Bucket.State} :
    (h.add x).Checked state ↔ h.Checked state ∨ x.checked? = some state := by
  simp [Checked, or_and_right, exists_or]

theorem Admits.add (ha : h.Admits verdict deeds) (hx : x.checked? = none) :
    (h.add x).Admits verdict (deeds ++ x.deed?.toList) where
  opens := by
    obtain ⟨opening, hopens, hdeeds⟩ := ha.opens
    exact ⟨opening, hopens, by rw [deeds_add, hdeeds, List.append_assoc]⟩
  nonempty := by
    intro state hstate
    rcases checked_add.mp hstate with hstate | hstate
    · exact ha.nonempty state hstate
    · rw [hx] at hstate
      cases hstate

/-- An exchange that nobody else sees changes nothing. -/
theorem Admits.add_of_none (ha : h.Admits verdict deeds) (hx : x.checked? = none)
    (hdeed : x.deed? = none) : (h.add x).Admits verdict deeds := by
  simpa [hdeed] using ha.add hx

/-- No charge is due. -/
theorem Shows.uncharged {result : Except String Response} {answering : List Deed}
    (answers : h.plan.Answers (Response.status? result) answering)
    (charges : h.plan.Charges (Response.status? result) [])
    (admits : h.Admits verdict answering) : h.Shows result := by
  rw [← List.append_nil answering] at admits
  exact .admitted answers charges admits

theorem Admits.plan_account (ha : h.Admits verdict deeds) : verdict.account? = h.plan.account := by
  obtain ⟨opening, hopens, -⟩ := ha.opens
  cases hopens with
  | unlimited account_eq => exact account_eq.symm
  | unknown account_eq => exact account_eq.symm
  | granted account_eq => exact account_eq.symm

end History

/-! ## What a stage says about the deeds -/

/-- What a request must have done when it is on the way to a goal. -/
def Goal.Shows (h : History) : Goal → Prop
  | .claim verdict => h.Admits verdict []
  | .dispatch verdict owned => ∃ claiming, h.plan.Claims owned claiming ∧ h.Admits verdict claiming
  | .settle verdict response =>
    ∃ answering, h.plan.Answers (some response.status) answering ∧ h.Admits verdict answering
  | .finish result => h.Shows result

/-- What a request must have done when it is at a stage. -/
def Stage.Shows (h : History) : Stage → Prop
  | .checking account _ => h.plan.account = some account ∧ h.past = []
  | .claiming verdict key _ => h.plan.key = some key ∧ h.Admits verdict []
  | .pausing verdict key _ _ => h.plan.key = some key ∧ h.Admits verdict []
  | .fetching verdict key _ _ => h.plan.key = some key ∧ h.Admits verdict []
  | .handling verdict owned => ∃ claiming, h.plan.Claims owned claiming ∧ h.Admits verdict claiming
  | .saving verdict key _ _ =>
    ∃ claiming, h.plan.Claims (some key) claiming ∧ h.Admits verdict (claiming ++ [.handler])
  -- Whether the record is deleted is not known before the answer, so both ways on are kept.
  | .releasing key now goal =>
    (∀ x : Exchange, x.checked? = none → x.deed? = none → goal.Shows (h.add x)) ∧
      ∀ t t', goal.Shows ((h.add ⟨t, .record (.release key now), .ok true⟩).add
        ⟨t', .tell .released, ()⟩)
  | .charging account cost _ response =>
    (∃ verdict answering, h.plan.Answers (some response.status) answering ∧
      h.Admits verdict answering) ∧
      h.plan.account = some account ∧ cost = account.policy.cost response.status ∧ cost ≠ 0
  -- The report is a deed, so it is the history after it that must fit the goal.
  | .telling event _ goal => ∀ t, goal.Shows (h.add ⟨t, .tell event, ()⟩)
  | .finished result => h.Shows result

section Shows

variable {h : History} {t : Moment} {verdict : Verdict}

theorem shows_settle {response : Response} {answering : List Deed}
    (hanswers : h.plan.Answers (some response.status) answering)
    (hadmits : h.Admits verdict answering) :
    (h.plan.enter t (.settle verdict response)).Shows h := by
  have hfree : h.plan.Charges (some response.status) [] →
      h.Shows (.ok (verdict.decorate response)) := by
    intro hcharges
    have hstatus : Response.status? (.ok (verdict.decorate response)) = some response.status := by
      simp [Response.status?]
    rw [← hstatus] at hanswers hcharges
    exact .uncharged hanswers hcharges hadmits
  simp only [Plan.enter]
  split
  · next haccount => exact hfree (.unlimited (hadmits.plan_account ▸ haccount))
  · next account haccount =>
    rw [hadmits.plan_account] at haccount
    split
    · next hcost => exact hfree (.exempt haccount hcost)
    · next hcost =>
      refine ⟨⟨verdict, answering, ?_, hadmits⟩, haccount, ?_, hcost⟩
      · simpa using hanswers
      · simp

theorem Goal.Shows.enter {goal : Goal} (hg : goal.Shows h) : (h.plan.enter t goal).Shows h := by
  cases goal with
  | claim verdict =>
      simp only [Plan.enter]
      split
      · next key hkey => exact ⟨hkey, hg⟩
      · next hkey => exact ⟨[], .keyless hkey, hg⟩
  | dispatch verdict owned => exact hg
  | settle verdict response =>
      obtain ⟨answering, hanswers, hadmits⟩ := hg
      exact shows_settle hanswers hadmits
  | finish result => exact hg

/-- A report adds one deed. -/
theorem History.Admits.tell {deeds : List Deed} (ha : h.Admits verdict deeds) (t : Moment)
    (event : Event) : (h.add ⟨t, .tell event, ()⟩).Admits verdict (deeds ++ [.tell event]) :=
  ha.add rfl

/-- Something that others see is reported at once. -/
theorem History.Admits.report {x : Exchange} {deed : Deed} {deeds : List Deed}
    (ha : h.Admits verdict deeds) (hx : x.checked? = none) (hdeed : x.deed? = some deed)
    (t : Moment) (event : Event) :
    ((h.add x).add ⟨t, .tell event, ()⟩).Admits verdict (deeds ++ [deed, .tell event]) := by
  have hadmits := (ha.add hx).tell t event
  rwa [hdeed, List.append_assoc] at hadmits

theorem shows_degraded {key : String} (hkey : h.plan.key = some key) (ha : h.Admits verdict [])
    (e : StoreError) : (Plan.degraded verdict e).Shows h :=
  fun t => ⟨_, .degraded hkey, ha.tell t _⟩

theorem shows_conflict {key : String} (hkey : h.plan.key = some key) (ha : h.Admits verdict []) :
    (Plan.conflict verdict).Shows h := fun t => ⟨_, .conflict hkey, ha.tell t _⟩

theorem shows_keepWaiting {key : String} (hkey : h.plan.key = some key) (ha : h.Admits verdict [])
    (poll : Poll) : (Plan.keepWaiting verdict key poll t).Shows h := by
  unfold Plan.keepWaiting
  split
  · exact shows_conflict hkey ha
  · exact ⟨hkey, ha⟩

theorem shows_replay {key : String} (hkey : h.plan.key = some key) (ha : h.Admits verdict [])
    (record : Record) : (Plan.replay verdict record).Shows h := by
  by_cases hstatus : Response.isStatus record.status = true
  · simp only [Plan.replay, Response.ofRecord, hstatus, if_true]
    exact fun t => ⟨_, .replayed hkey, ha.tell t _⟩
  · simp only [Plan.replay, Response.ofRecord, hstatus]
    exact shows_degraded hkey ha _

theorem shows_claimed {key : String} (hkey : h.plan.key = some key) (ha : h.Admits verdict [])
    (claim : Record.Claim) : (h.plan.claimed verdict key t claim).Shows h := by
  cases claim with
  | claimed => exact fun t => ⟨_, .won hkey, ha.tell t _⟩
  | degraded e => exact shows_degraded hkey ha e
  | alreadyClaimed record =>
      simp only [Plan.claimed]
      split
      · split
        · exact fun t => ⟨_, .proceeded hkey, ha.tell t _⟩
        · exact shows_keepWaiting hkey ha _
      · exact shows_replay hkey ha record

theorem shows_fetched {key : String} (hkey : h.plan.key = some key) (ha : h.Admits verdict [])
    (poll : Poll) (reply : Except StoreError (Option Record)) :
    (Plan.fetched verdict key poll t reply).Shows h := by
  match reply with
  | .ok (some record) =>
      simp only [Plan.fetched]
      split
      · exact shows_keepWaiting hkey ha poll
      · exact shows_replay hkey ha record
  | .ok none => exact shows_conflict hkey ha
  | .error e => exact shows_degraded hkey ha e

/-- A check that lets the request through, and its report. -/
theorem admits_of_opens {x : Exchange} {deed : Deed} {event : Event} (hpast : h.past = [])
    (hdeed : x.deed? = some deed) (hopens : h.plan.Opens verdict [deed, .tell event])
    (hnonempty : ∀ state, x.checked? = some state → state.tokens ≠ 0) (t : Moment) :
    ((h.add x).add ⟨t, .tell event, ()⟩).Admits verdict [] where
  opens := by
    refine ⟨[deed, .tell event], hopens, ?_⟩
    have hdeeds : h.deeds = [] := by simp [History.deeds, hpast]
    rw [History.deeds_add, History.deeds_add, hdeeds, hdeed]
    rfl
  nonempty := by
    intro state hstate
    have hx : x.checked? = some state := by
      simpa [History.checked_add, History.Checked, hpast, Exchange.checked?] using hstate
    exact hnonempty state hx

theorem shows_checked {account : Account} (haccount : h.plan.account = some account)
    (hpast : h.past = []) (now : UInt64) (t₀ : Moment) (reply : Except StoreError Bucket.State) :
    (Plan.checked account t reply).Shows (h.add ⟨t₀, .bucket (account.checkCall now), reply⟩) := by
  cases reply with
  | error e => exact admits_of_opens hpast rfl (.unknown haccount) nofun
  | ok found =>
      simp only [Plan.checked]
      split
      · next hallowed =>
        refine admits_of_opens hpast rfl (.granted haccount) ?_
        rintro _ ⟨⟩
        exact Bucket.Status.tokens_ne_zero_of_allowed hallowed
      · next hempty =>
        intro t₁
        have htokens : found.tokens = 0 :=
          Bucket.Status.tokens_eq_zero_of_allowed_eq_false (eq_false_of_ne_true hempty)
        exact .denied haccount htokens (congrArg (· ++ [_] ++ [_]) hpast)

theorem shows_handled {owned : Option String} {claiming : List Deed}
    (hclaims : h.plan.Claims owned claiming)
    (ha : h.Admits verdict (claiming ++ [.handler])) (reply : Except String Response) :
    (h.plan.handled verdict owned t reply).Shows h := by
  cases owned with
  | none =>
      cases reply with
      | ok response => exact shows_settle (.handled hclaims) ha
      | error e => exact .uncharged (.handled hclaims) .failed ha
  | some key =>
      cases reply with
      | ok response => exact ⟨claiming, hclaims, ha⟩
      | error e =>
          refine ⟨fun x hx hdeed => ?_, fun t₀ t₁ => ?_⟩
          · exact .uncharged (.handled hclaims) .failed (ha.add_of_none hx hdeed)
          · exact .uncharged (.freed hclaims) .failed (ha.report rfl rfl t₁ .released)

theorem shows_saved {key : String} {claiming : List Deed} {response : Response}
    (hclaims : h.plan.Claims (some key) claiming)
    (ha : h.Admits verdict (claiming ++ [.handler])) (reply : Except StoreError Unit) :
    (h.plan.saved verdict key response t reply).Shows h := by
  cases reply with
  | ok done => exact shows_settle (.handled hclaims) ha
  | error e =>
      refine ⟨fun x hx hdeed => ⟨_, .handled hclaims, ha.add_of_none hx hdeed⟩, fun t₀ t₁ => ?_⟩
      exact ⟨_, .freed hclaims, ha.report rfl rfl t₁ .released⟩

theorem shows_released {key : String} {now : UInt64} {goal : Goal}
    (hs : (Stage.releasing key now goal).Shows h) (t₀ : Moment) (reply : Except StoreError Bool) :
    (h.plan.released key goal t reply).Shows (h.add ⟨t₀, .record (.release key now), reply⟩) := by
  obtain ⟨hkept, hfreed⟩ := hs
  match reply with
  | .ok true => exact hfreed t₀
  | .ok false => exact (hkept _ rfl rfl).enter
  | .error e => exact (hkept _ rfl rfl).enter

theorem shows_charged {account : Account} {cost : UInt32} {now : UInt64} {response : Response}
    (hs : (Stage.charging account cost now response).Shows h) (t₀ : Moment)
    (reply : Except StoreError UInt32) :
    (Plan.charged account cost response reply).Shows
      (h.add ⟨t₀, h.plan.await (.charging account cost now response), reply⟩) := by
  obtain ⟨⟨verdict, answering, hanswers, ha⟩, haccount, rfl, hcost⟩ := hs
  have hcharge : ∀ {event : Event},
      h.plan.Charges (some response.status)
        [.bucket (account.chargeCall response.status now), .tell event] →
      ∀ t₁, ((h.add ⟨t₀, .bucket (account.chargeCall response.status now), reply⟩).add
        ⟨t₁, .tell event, ()⟩).Shows (.ok response) := by
    intro event hcharges t₁
    exact .admitted hanswers hcharges (ha.report rfl rfl t₁ event)
  cases reply with
  | ok left => exact hcharge (.charged haccount hcost)
  | error e => exact hcharge (.failedOpen haccount hcost)

/-- What others see is added answer by answer. -/
theorem Stage.Shows.resume {stage : Stage} (hs : stage.Shows h)
    (reply : (h.plan.await stage).Reply) :
    (h.plan.resume t stage reply).Shows (h.add ⟨t, h.plan.await stage, reply⟩) := by
  cases stage with
  | checking account now => exact shows_checked hs.1 hs.2 now t reply
  | claiming verdict key now =>
      exact shows_claimed (h := h.add _) hs.1 (hs.2.add_of_none rfl rfl) _
  | pausing verdict key poll left => exact ⟨hs.1, hs.2.add_of_none rfl rfl⟩
  | fetching verdict key poll now =>
      exact shows_fetched (h := h.add _) hs.1 (hs.2.add_of_none rfl rfl) poll reply
  | handling verdict owned =>
      obtain ⟨claiming, hclaims, ha⟩ := hs
      exact shows_handled (h := h.add _) hclaims (ha.add rfl) reply
  | saving verdict key response now =>
      obtain ⟨claiming, hclaims, ha⟩ := hs
      exact shows_saved (h := h.add _) hclaims (ha.add_of_none rfl rfl) reply
  | releasing key now goal => exact shows_released hs t reply
  | charging account cost now response => exact shows_charged hs t reply
  | telling event owned goal => exact Goal.Shows.enter (h := h.add _) (hs t)
  | finished result => exact reply.elim

theorem shows_start (plan : Plan) (t : Moment) : (plan.start t).Shows ⟨plan, []⟩ := by
  unfold Plan.start
  split
  · next account haccount => exact ⟨haccount, rfl⟩
  · next haccount =>
    have hgoal : (Goal.claim .unlimited).Shows ⟨plan, []⟩ :=
      ⟨⟨[], .unlimited haccount, rfl⟩, nofun⟩
    exact hgoal.enter

end Shows

theorem Plan.Run.shows {plan : Plan} {h : History} {t : Moment} {stage : Stage}
    (run : plan.Run h t stage) : stage.Shows h := by
  induction run with
  | start t => exact shows_start plan t
  | answer run t' reply takes ih =>
      cases run.plan_eq
      exact ih.resume reply

end Admission
